/-
**Areas of the virtual address space** (`mm/vma.c`).

A region of the address space keeps its areas in a red-black tree, ordered by address.
`vma_alloc_area` looks for a place before the lowest area, behind the highest one, and then in the
gaps between neighbours.

An area is known by the address of its structure, which is also how its node in the tree is known.
`kslab_alloc` is a parameter: the answer of the call, nothing for the error pointer.

Left out, because nothing reads them: `kernel_vma_t.pages`, and the zeroing of a new structure,
whose fields are all written afterwards.

Main definitions:

* `Vma.KernelVma`, `Vma.VmaRegion` — areas and regions;
* `Vma.vmaInsert`, `Vma.vmaSearch` — the descent to a leaf, and to an address;
* `Vma.vmaAllocArea` — placing a new area.

A function returns nothing where the C code follows a null pointer, or does not return.
-/

import SyncKernel.Rbtree.Basic

set_option relaxedAutoImplicit false
set_option autoImplicit false

namespace SyncKernel

namespace Vma

open Rbtree

/-- `kernel_vma_t`. -/
structure KernelVma where
  vmStart : ℕ
  vmEnd : ℕ
  vmFlags : ℕ

/-- `vma_region_t`, with the areas by the addresses of their structures. -/
structure VmaRegion where
  rStart : ℕ
  rEnd : ℕ
  rTree : Store ℕ
  vma : ℕ → KernelVma

/-! ### The tree -/

/-- The loop of `vma_insert`: the parent and the pointer where the area is linked, or nothing where
it meets another area. -/
def findPlace (R : VmaRegion) (v : KernelVma) :
    ℕ → Option ℕ → Option (Dir × ℕ) → Option (Option (Option ℕ × Option (Dir × ℕ)))
  | 0, _, _ => none
  | n + 1, parent, link =>
      match R.rTree.get link with
      | none => some (some (parent, link))
      | some current =>
          if v.vmEnd ≤ (R.vma current).vmStart then
            findPlace R v n (some current) (some (Dir.left, current))
          else if v.vmStart ≥ (R.vma current).vmEnd then
            findPlace R v n (some current) (some (Dir.right, current))
          else some none

/-- `vma_insert`, with its result. -/
def vmaInsert (R : VmaRegion) (vma : ℕ) : Option (ℤ × VmaRegion) := do
  match ← findPlace R (R.vma vma) addrSpace none none with
  | none => some (-1, R)
  | some (parent, link) => do
      let tree ← rbInsert R.rTree vma parent link
      some (0, { R with rTree := tree })

/-- The loop of `vma_search`.  The second of its two tests looks at the same area as the first one,
but moves on from where that one went. -/
def searchLoop (R : VmaRegion) (addr : ℕ) : ℕ → Option ℕ → Option (Option ℕ)
  | 0, _ => none
  | _ + 1, none => some none
  | n + 1, some node =>
      let v := R.vma node
      if addr ≥ v.vmStart ∧ addr < v.vmEnd then some (some node)
      else
        let next := if addr < v.vmStart then R.rTree.child Dir.left node else some node
        if addr ≥ v.vmEnd then do
          let node ← next
          searchLoop R addr n (R.rTree.child Dir.right node)
        else searchLoop R addr n next

/-- `vma_search`; nothing inside stands for `VMA_INVALID_PTR`. -/
def vmaSearch (R : VmaRegion) (addr : ℕ) : Option (Option ℕ) := searchLoop R addr addrSpace R.rTree.root

/-! ### Allocating an area -/

/-- The loop of `vma_alloc_area` over the areas in order: the end of the first one with enough room
before the next one. -/
def gapLoop (R : VmaRegion) (size highest : ℕ) : ℕ → ℕ → Option (Option ℕ)
  | 0, _ => none
  | n + 1, node =>
      if node = highest then some none
      else do
        let prevEnd := (R.vma node).vmEnd
        let node ← (← rbNext R.rTree node)
        if Word.sub (R.vma node).vmStart prevEnd ≥ size then some (some prevEnd)
        else gapLoop R size highest n node

/-- The start of the new area in a tree with the given lowest and highest area. -/
def placeIn (R : VmaRegion) (size : ℕ) : Option ℕ → Option ℕ → Option (Option ℕ)
  | some lowest, some highest =>
      if Word.sub (R.vma lowest).vmStart R.rStart ≥ size then some (some R.rStart)
      else if Word.sub R.rEnd (R.vma highest).vmEnd ≥ size then some (some (R.vma highest).vmEnd)
      else gapLoop R size highest addrSpace lowest
  | _, _ => some none

/-- The start that `vma_alloc_area` chooses for a new area, or nothing when it finds none. -/
def vmaPlace (R : VmaRegion) (size : ℕ) : Option (Option ℕ) :=
  if size > Word.sub R.rEnd R.rStart then some none
  else if R.rTree.root = none then some (some R.rStart)
  else do
    let lowest ← rbFirst R.rTree
    let highest ← rbLast R.rTree
    placeIn R size lowest highest

/-- `vma_assign_struct`, once there is a structure. -/
def VmaRegion.assign (R : VmaRegion) (p start size flags : ℕ) : VmaRegion :=
  { R with vma := Function.update R.vma p ⟨start, Word.add start size, flags⟩ }

/-- The end of `vma_alloc_area`: the structure is filled in and inserted.  The result of `vma_insert`
is ignored. -/
def allocAt (R : VmaRegion) (size flags : ℕ) :
    Option ℕ → Option ℕ → Option (Option ℕ × VmaRegion)
  | some start, some p => do
      let (_, R) ← vmaInsert (R.assign p start size flags) p
      some (some p, R)
  | _, _ => some (none, R)

/-- `vma_alloc_area`, with the answer of `kslab_alloc`; no area stands for `VMA_INVALID_PTR`. -/
def vmaAllocArea (R : VmaRegion) (areaSize flags : ℕ) (answer : Option ℕ) :
    Option (Option ℕ × VmaRegion) := do
  let size := pageAlignUp areaSize
  let start ← vmaPlace R size
  allocAt R size flags start answer

/-- The bytes of the virtual memory area, `KERNEL_VMMAP_LEN`. -/
def kernelVmmapLen : ℕ := 1024 * 1024 * 1024 * 1024 * 64

/-- `vma_tree` as `vma_subsystem_init` sets it up. -/
def vmaSubsystemInit : VmaRegion where
  rStart := kernelVmmap
  rEnd := Word.add kernelVmmap kernelVmmapLen
  rTree := ⟨none, fun _ _ => none, fun _ => none, fun _ => Color.red⟩
  vma := fun _ => ⟨0, 0, 0⟩

end Vma

end SyncKernel
