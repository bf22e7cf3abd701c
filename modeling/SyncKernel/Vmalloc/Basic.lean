/-
**Mapping device memory** (`mm/vmalloc.c`).

`ioremap` takes an area of `vma_tree` and maps it to the pages of the device, by huge pages, by large
pages or by pages of 4 KiB, as the addresses and the size allow.

`return_pt_or_alloc` answers `KPAGE_ERR` when `kbud_alloc` has no frames, and none of the three loops
looks at the answer: an entry behind it is not in memory.  The loops are stated for any function that
returns the table for an entry, so that what they do can be compared with what they would do if they
stopped at the first frame that is missing.

The state is the page tables, with the frames that `kbud_alloc` is going to hand out, and `vma_tree`.
The answer of `kslab_alloc`, for the structure of the area, is a parameter of a call.  Left out is
`align_sz`, which nothing reads.

Main definitions:

* `Vmalloc.vmaToPteFlags` — the flags of an entry;
* `Vmalloc.returnPtOrAlloc` — the table for an entry, or `KPAGE_ERR`;
* `Vmalloc.ptMapHuge`, `Vmalloc.ptMapLarge`, `Vmalloc.ptMapNorm` — the loops;
* `Vmalloc.ioremap`.

A function returns nothing where the C code uses an entry behind `KPAGE_ERR`.
-/

import SyncKernel.Pagetbl.Basic
import SyncKernel.Vma.Basic

set_option relaxedAutoImplicit false
set_option autoImplicit false

namespace SyncKernel

namespace Vmalloc

open Pagetbl Vma

/-- `SZ_2M`. -/
def sz2m : ℕ := 2 * 1024 * 1024

/-- `SZ_1G`. -/
def sz1g : ℕ := 1 * 1024 * 1024 * 1024

/-- `IS_ALIGNED`. -/
def isAligned (val align : ℕ) : Bool := val &&& (align - 1) = 0

/-! ### Flags -/

/-- `VM_WRITE`. -/
def vmWrite : ℕ := 1 <<< 1

/-- `VM_EXEC`. -/
def vmExec : ℕ := 1 <<< 2

/-- `VM_USER`. -/
def vmUser : ℕ := 1 <<< 3

/-- `VM_IO`. -/
def vmIo : ℕ := 1 <<< 5

/-- `VM_NOCACHE`. -/
def vmNocache : ℕ := 1 <<< 6

/-- `VM_WRITE_THROUGH`. -/
def vmWriteThrough : ℕ := 1 <<< 7

/-- `PT_FLAG_USER`. -/
def ptFlagUser : ℕ := 1 <<< 2

/-- `PT_FLAG_WRITE_THROUGH`. -/
def ptFlagWriteThrough : ℕ := 1 <<< 3

/-- `PT_FLAG_PAGECACHE_DISABLE`. -/
def ptFlagPagecacheDisable : ℕ := 1 <<< 4

/-- `vma_to_pte_flags`. -/
def vmaToPteFlags (flags : ℕ) : ℕ :=
  let f := ptFlagPresent
  let f := if flags &&& vmWrite ≠ 0 then f ||| ptFlagWritable else f
  let f := if flags &&& vmUser ≠ 0 then f ||| ptFlagUser else f
  let f := if flags &&& vmIo ≠ 0 then f ||| (ptFlagPresent ||| ptFlagWritable) else f
  let f := if flags &&& vmNocache ≠ 0 then f ||| ptFlagPagecacheDisable else f
  let f := if flags &&& vmWriteThrough ≠ 0 then f ||| ptFlagWriteThrough else f
  if flags &&& vmExec = 0 then f ||| 1 <<< 63 else f

/-! ### The loops -/

/-- `return_pt_or_alloc` for the entry `i` of the table at the pointer `p`. -/
def returnPtOrAlloc (p i : ℕ) (s : Tables) : Option (ℕ × Tables) :=
  if p = kpageErr then none else some ((Pagetbl.returnPtOrAlloc p i s).getD (kpageErr, s))

/-- The innermost turn of a loop, which writes an entry of the table at the pointer `t`. -/
def putEntry (ℓ flags t : ℕ) (c : Cursor) : Option Cursor :=
  if t = kpageErr then none else some (put directMap ℓ flags t c)

/-- `page_ctx_t`. -/
structure PageCtx where
  vaddr : ℕ
  paddr : ℕ
  pteFlags : ℕ
  l4EntCount : ℕ
  l3EntCount : ℕ
  l2EntCount : ℕ
  l1EntCount : ℕ

/-- The context of `ioremap` for a window. -/
def pageCtx (vaddr alignedPhys alignedSize flags : ℕ) : PageCtx where
  vaddr := vaddr
  paddr := alignedPhys
  pteFlags := vmaToPteFlags flags
  l4EntCount := pagetblCount alignedSize ptL4Entrysz
  l3EntCount := pagetblCount alignedSize ptL3Entrysz
  l2EntCount := pagetblCount alignedSize ptL2Entrysz
  l1EntCount := alignedSize >>> 12

/-- The variables in front of the loops. -/
def PageCtx.cursor (ctx : PageCtx) (s : Tables) : Cursor where
  tables := s
  vbase := ctx.vaddr
  pbase := ctx.paddr
  rem ℓ := if ℓ = 3 then ctx.l3EntCount else if ℓ = 2 then ctx.l2EntCount else ctx.l1EntCount

@[simp] theorem PageCtx.cursor_rem_three (ctx : PageCtx) (s : Tables) :
    (ctx.cursor s).rem 3 = ctx.l3EntCount := rfl

@[simp] theorem PageCtx.cursor_rem_two (ctx : PageCtx) (s : Tables) :
    (ctx.cursor s).rem 2 = ctx.l2EntCount := rfl

@[simp] theorem PageCtx.cursor_rem_one (ctx : PageCtx) (s : Tables) :
    (ctx.cursor s).rem 1 = ctx.l1EntCount := rfl

variable (table : ℕ → ℕ → Tables → Option (ℕ × Tables))

/-- The body of the loop over the top table in `pt_map_huge`. -/
def hugeBody (pteFlags : ℕ) : ℕ → Cursor → Option Cursor :=
  turnWith table 3 capped (putEntry 3 (pteFlags ||| ptFlagPagesize))

/-- The body of the loop over the top table in `pt_map_large`.  The loop in it is bounded by
`l3_ent_rem`, not by `l3_ent_count`. -/
def largeBody (pteFlags : ℕ) : ℕ → Cursor → Option Cursor :=
  turnWith table 3 id (turnWith table 2 capped (putEntry 2 (pteFlags ||| ptFlagPagesize)))

/-- The body of the loop over the top table in `pt_map_norm`. -/
def normBody (pteFlags : ℕ) : ℕ → Cursor → Option Cursor :=
  turnWith table 3 capped (turnWith table 2 capped (turnWith table 1 capped (putEntry 1 pteFlags)))

/-- The loop over the top table. -/
def ptMap (body : ℕ → Cursor → Option Cursor) (l4 : ℕ) (ctx : PageCtx) (s : Tables) : Option Tables :=
  (Run.loop (fun _ => body l4) ctx.l4EntCount (ctx.cursor s)).map Cursor.tables

/-- `pt_map_huge`. -/
def ptMapHuge (l4 : ℕ) (ctx : PageCtx) (s : Tables) : Option Tables :=
  ptMap (hugeBody table ctx.pteFlags) l4 ctx s

/-- `pt_map_large`. -/
def ptMapLarge (l4 : ℕ) (ctx : PageCtx) (s : Tables) : Option Tables :=
  ptMap (largeBody table ctx.pteFlags) l4 ctx s

/-- `pt_map_norm`. -/
def ptMapNorm (l4 : ℕ) (ctx : PageCtx) (s : Tables) : Option Tables :=
  ptMap (normBody table ctx.pteFlags) l4 ctx s

/-- The steps of a turn that returns. -/
theorem turnWith_eq_some {ℓ p : ℕ} {bound : ℕ → ℕ} {body : ℕ → Cursor → Option Cursor} {c c' : Cursor}
    (h : turnWith table ℓ bound body p c = some c') :
    ∃ t tables c₁, table p (pageIdx (ℓ + 1) c.vbase) c.tables = some (t, tables) ∧
      Run.loop (fun _ => body t) (bound (c.rem ℓ)) { c with tables := tables } = some c₁ ∧
      c' = { c₁ with rem := Function.update c₁.rem ℓ (c.rem ℓ - capped (c.rem ℓ)) } := by
  unfold turnWith at h
  obtain ⟨⟨t, tables⟩, htable, h⟩ := Option.bind_eq_some_iff.1 h
  obtain ⟨c₁, hloop, h⟩ := Option.bind_eq_some_iff.1 h
  exact ⟨t, tables, c₁, htable, hloop, (Option.some_inj.1 h).symm⟩

/-- A loop whose turns do not return has none. -/
theorem loop_none {body : Cursor → Option Cursor} {n : ℕ} {c c' : Cursor} (hbody : ∀ c, body c = none)
    (h : Run.loop (fun _ => body) n c = some c') : n = 0 ∧ c' = c := by
  cases n with
  | zero => exact ⟨rfl, (Option.some_inj.1 h).symm⟩
  | succ n =>
      obtain ⟨c₁, -, hc₁⟩ := Option.bind_eq_some_iff.1 h
      cases (hbody c₁).symm.trans hc₁

/-! ### `ioremap` -/

/-- The page tables and `vma_tree`. -/
structure AddressSpace where
  tables : Tables
  vmaTree : VmaRegion

/-- A call of `ioremap`, with the answer of `kslab_alloc` in it. -/
structure Call where
  phy : ℕ
  len : ℕ
  flags : ℕ
  answer : Option ℕ
  deriving DecidableEq

/-- `offs`. -/
def Call.offs (r : Call) : ℕ := r.phy &&& (pageSize - 1)

/-- `aligned_size`. -/
def Call.alignedSize (r : Call) : ℕ := pageAlignUp (Word.add r.len r.offs)

/-- `aligned_phys`. -/
def Call.alignedPhys (r : Call) : ℕ := pageAlignDown r.phy

/-- All three addresses and sizes are multiples. -/
def Call.allAligned (r : Call) (vaddr align : ℕ) : Bool :=
  isAligned r.alignedPhys align && isAligned vaddr align && isAligned r.alignedSize align

/-- The end of `ioremap`, once it has an area that starts at `vaddr`: the window is mapped in the table
at the pointer `pml4`. -/
def mapWindow (pml4 : ℕ) (r : Call) (vaddr : ℕ) (s : Tables) : Option Tables :=
  let ctx := pageCtx vaddr r.alignedPhys r.alignedSize r.flags
  if r.allAligned vaddr sz1g then ptMapHuge table pml4 ctx s
  else if r.allAligned vaddr sz2m then ptMapLarge table pml4 ctx s
  else ptMapNorm table pml4 ctx s

/-- `ioremap`, with the physical address of the top table in `cr3`. -/
def ioremap (cr3 : ℕ) (r : Call) (S : AddressSpace) : Option (ℕ × AddressSpace) := do
  match ← vmaAllocArea S.vmaTree r.alignedSize r.flags r.answer with
  | (none, vmaTree) => some (0, { S with vmaTree := vmaTree })
  | (some vma, vmaTree) => do
      let vaddr := (vmaTree.vma vma).vmStart
      let tables ← mapWindow table (physToVirtPm (ptRebase cr3)) r vaddr S.tables
      some (Word.add vaddr r.offs, ⟨tables, vmaTree⟩)

section Ioremap

variable {table} {cr3 : ℕ} {r : Call} {S : AddressSpace} {vmaTree : VmaRegion}

theorem ioremap_of_none (h : vmaAllocArea S.vmaTree r.alignedSize r.flags r.answer = some (none, vmaTree)) :
    ioremap table cr3 r S = some (0, { S with vmaTree := vmaTree }) := by
  rw [ioremap, h]
  rfl

theorem ioremap_of_area {vma : ℕ}
    (h : vmaAllocArea S.vmaTree r.alignedSize r.flags r.answer = some (some vma, vmaTree)) :
    ioremap table cr3 r S =
      (mapWindow table (physToVirtPm (ptRebase cr3)) r (vmaTree.vma vma).vmStart S.tables).map
        fun tables => (Word.add (vmaTree.vma vma).vmStart r.offs, ⟨tables, vmaTree⟩) := by
  rw [ioremap, h]
  change Option.bind (mapWindow table _ r _ S.tables) _ = _
  rw [Option.map_eq_bind]
  rfl

end Ioremap

end Vmalloc

end SyncKernel
