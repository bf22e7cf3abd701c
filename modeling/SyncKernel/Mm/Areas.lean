/-
**Areas of the address space in the memory of the machine** (`mm/vma.c`, `mm/vma.h`).

The structures of the areas are objects of `vma_cache`, and the tree of the areas is linked through
nodes inside of them.  The model of the areas is a view of the machine: a region whose fields are the
words at the addresses of its structures.  What an operation does to the region is written back into the
structures that are in use.

Main definitions:

* `Mm.AreaSys`, `Mm.AreaSys.region` — the system with `vma_tree`, and its view;
* `Mm.AreaSys.store` — writing a region back;
* `Mm.AreaSys.vmaSubsystemInit`, `Mm.AreaSys.vmaAllocArea`, `Mm.AreaSys.vmaFreeArea` — the functions, with
  their calls of the cache.

Main results:

* `Mm.AreaSys.store_keeps` — **writing a region back** writes into the structures only;
* `Mm.AreaSys.store_agrees` — the region that is read back is the one that was written.
-/

import SyncKernel.Lib.Fields
import SyncKernel.Mm.Calls
import SyncKernel.Vma.Kernel
import SyncKernel.Vma.Remove

set_option relaxedAutoImplicit false
set_option autoImplicit false

namespace SyncKernel

namespace Mm

open RbTree Store Rbtree

variable {ι : Type}

/-! ### The fields of a structure -/

/-- The fields of `kernel_vma_t` and of its `rb_node`, without `pages`. -/
inductive VmaField
  | vmStart
  | vmEnd
  | vmFlags
  | left
  | right
  | parent
  | color
  deriving DecidableEq

/-- The distance of a field from the start of the structure. -/
def VmaField.offset : VmaField → ℕ
  | vmStart => 0
  | vmEnd => 8
  | vmFlags => 24
  | left => 32
  | right => 40
  | parent => 48
  | color => 56

/-- All the fields. -/
def VmaField.all : List VmaField := [vmStart, vmEnd, vmFlags, left, right, parent, color]

/-- `sizeof(kernel_vma_t)`. -/
def vmaSize : ℕ := 64

/-- `alignof(kernel_vma_t)`. -/
def vmaAlign : ℕ := 8

/-- The pointer to the node inside of a structure. -/
def nodeOf : Option ℕ → ℕ
  | none => 0
  | some vma => vma + 32

/-- `vma_struct_from_rb_node`, for a pointer that may be null. -/
def structOf (node : ℕ) : Option ℕ := if node = 0 then none else some (node - 32)

@[simp] theorem structOf_nodeOf (p : Option ℕ) : structOf (nodeOf p) = p := by
  cases p with
  | none => rfl
  | some vma => exact if_neg (by simp [nodeOf])

/-- `enum rb_colors`. -/
def colorWord : Color → ℕ
  | Color.red => 1
  | Color.black => 0

/-- The color that is read from a word. -/
def wordColor (w : ℕ) : Color := if w = 0 then Color.black else Color.red

@[simp] theorem wordColor_colorWord (c : Color) : wordColor (colorWord c) = c := by
  cases c <;> rfl

theorem VmaField.offset_lt (f : VmaField) : f.offset + 8 ≤ vmaSize := by
  cases f <;> decide

theorem VmaField.offset_inj {f g : VmaField} (h : f.offset = g.offset) : f = g := by
  revert f g
  intro f g h
  cases f <;> cases g <;> first | rfl | cases h

/-- The word in a field of an area. -/
def fieldWord (R : Vma.VmaRegion) (vma : ℕ) : VmaField → ℕ
  | VmaField.vmStart => (R.vma vma).vmStart
  | VmaField.vmEnd => (R.vma vma).vmEnd
  | VmaField.vmFlags => (R.vma vma).vmFlags
  | VmaField.left => nodeOf (R.rTree.child Dir.left vma)
  | VmaField.right => nodeOf (R.rTree.child Dir.right vma)
  | VmaField.parent => nodeOf (R.rTree.parent vma)
  | VmaField.color => colorWord (R.rTree.color vma)

/-- The fields of an area, with their addresses. -/
def vmaFields (R : Vma.VmaRegion) (vma : ℕ) : List (ℕ × ℕ) :=
  VmaField.all.map fun f => (vma + f.offset, fieldWord R vma f)

theorem mem_vmaFields {R : Vma.VmaRegion} {vma : ℕ} {w : ℕ × ℕ} (h : w ∈ vmaFields R vma) :
    ∃ f, w = (vma + VmaField.offset f, fieldWord R vma f) := by
  obtain ⟨f, -, rfl⟩ := List.mem_map.1 h
  exact ⟨f, rfl⟩

theorem field_mem (R : Vma.VmaRegion) (vma : ℕ) (f : VmaField) :
    (vma + f.offset, fieldWord R vma f) ∈ vmaFields R vma :=
  List.mem_map.2 ⟨f, by cases f <;> decide, rfl⟩

/-! ### The system and its view -/

/-- The allocators and their callers, and `vma_tree`. -/
structure AreaSys (ι : Type) where
  sys : Sys ι
  root : ℕ
  rStart : ℕ
  rEnd : ℕ

/-- `vma_tree` before any operation. -/
def AreaSys.init : AreaSys ι := ⟨Sys.init, 0, 0, 0⟩

/-- **The region in memory.** -/
def AreaSys.region (s : AreaSys ι) : Vma.VmaRegion where
  rStart := s.rStart
  rEnd := s.rEnd
  rTree :=
    { root := structOf s.root
      child := fun
        | Dir.left, vma => structOf (s.sys.m.words (vma + VmaField.left.offset))
        | Dir.right, vma => structOf (s.sys.m.words (vma + VmaField.right.offset))
      parent := fun vma => structOf (s.sys.m.words (vma + VmaField.parent.offset))
      color := fun vma => wordColor (s.sys.m.words (vma + VmaField.color.offset)) }
  vma := fun vma => ⟨s.sys.m.words (vma + VmaField.vmStart.offset), s.sys.m.words (vma + VmaField.vmEnd.offset),
    s.sys.m.words (vma + VmaField.vmFlags.offset)⟩

/-- The system after some writes. -/
def Sys.puts (s : Sys ι) (ws : List (ℕ × ℕ)) : Sys ι :=
  { s with m := { s.m with words := Fields.put s.m.words ws } }

/-- The fields of the structures that are in use get the values that they have in the region. -/
def AreaSys.store (s : AreaSys ι) (vc : ι) (R : Vma.VmaRegion) : AreaSys ι :=
  { s with
    sys := s.sys.puts ((s.sys.objs vc).flatMap (vmaFields R))
    root := nodeOf R.rTree.root }

/-! ### The functions -/

section Functions

variable [DecidableEq ι] (vc : ι)

/-- `vma_assign_struct`. -/
def AreaSys.vmaAssignStruct (s : AreaSys ι) (start size flags : ℕ) (junk : ℕ → ℕ) :
    Option (ℕ × AreaSys ι) := do
  let (vma, m) ← s.sys.m.kslabAlloc vc junk
  let s := { s with sys := s.sys.allocated vc vma m }
  if vma = kpageErr then some (vma, s)
  else
    let s := { s with sys := s.sys.puts ((List.range 8).map fun i => (vma + 8 * i, 0)) }
    some (vma, s.store vc (s.region.assign vma start size flags))

/-- `vma_alloc_area`, which returns `VMA_INVALID_PTR` where `kslab_alloc` returns `KPAGE_ERR`: both are
the last address. -/
def AreaSys.vmaAllocArea (s : AreaSys ι) (areaSize flags : ℕ) (junk : ℕ → ℕ) : Option (ℕ × AreaSys ι) := do
  let size := pageAlignUp areaSize
  let place ← Vma.vmaPlace s.region size
  place.elim (some (Vma.vmaInvalidPtr, s)) fun start => do
    let (vma, s) ← s.vmaAssignStruct vc start size flags junk
    if vma = Vma.vmaInvalidPtr then some (vma, s)
    else
      let (_, R) ← Vma.vmaInsert s.region vma
      some (vma, s.store vc R)

/-- `vma_free_area`. -/
def AreaSys.vmaFreeArea (s : AreaSys ι) (addr : ℕ) (junk : ℕ → ℕ) : Option (AreaSys ι) := do
  let found ← Vma.vmaSearch s.region addr
  found.elim (some s) fun vma => do
    let (_, tree) ← rbRemove s.region.rTree vma
    let s := s.store vc { s.region with rTree := tree }
    let sys ← step s.sys (Op.free vc vma junk)
    some { s with sys := sys }

/-- `vma_subsystem_init`.  Where it fails, `mm_init` panics. -/
def AreaSys.vmaSubsystemInit (s : AreaSys ι) (junk : ℕ → ℕ) : Option (AreaSys ι) := do
  let sys ← step s.sys (Op.create vc vmaSize vmaAlign 0 junk)
  if sys.created vc = some 0 then
    some { s with sys := sys, rStart := kernelVmmap, rEnd := Word.add kernelVmmap Vma.kernelVmmapLen }
  else some { s with sys := sys }

end Functions

/-! ### Agreement of regions -/

/-- The regions have the same root, and the same fields of the areas in the list. -/
structure Agrees (R R' : Vma.VmaRegion) (l : List ℕ) : Prop where
  root : R'.rTree.root = R.rTree.root
  nodes : Same R.rTree R'.rTree l
  areas : ∀ a ∈ l, R'.vma a = R.vma a

section Agrees

variable {R R' : Vma.VmaRegion} {l : List ℕ}

theorem Agrees.perm {l' : List ℕ} (h : Agrees R R' l) (hp : l.Perm l') : Agrees R R' l' :=
  ⟨h.root, fun a ha => h.nodes a (hp.mem_iff.2 ha), fun a ha => h.areas a (hp.mem_iff.2 ha)⟩

/-- A well-formed region depends on the fields of its areas. -/
theorem Agrees.wellFormed {lo hi : ℕ} (h : Agrees R R' l) (hw : Vma.WellFormed R lo hi l) :
    Vma.WellFormed R' lo hi l := by
  obtain ⟨⟨⟨t, k, hat, hbal, rfl⟩, hptr⟩, hord, hal⟩ := hw
  have hspan : t.elems.map R'.span = t.elems.map R.span :=
    List.map_congr_left fun a ha => by rw [Vma.VmaRegion.span, Vma.VmaRegion.span, h.areas a ha]
  have hroot : R.rTree.root = t.top := hat.path
  refine ⟨⟨⟨t, k, ⟨h.root.trans hroot, hat.tree.congr h.nodes, hat.nodup⟩, hbal, rfl⟩, hptr⟩, ?_, ?_⟩
  · rw [hspan]
    exact hord
  · intro a ha
    rw [h.areas a ha]
    exact hal a ha

end Agrees

/-! ### Writing a region back -/

section Store

variable {s : AreaSys ι} {vc : ι}

/-- The view depends on the words of the structures. -/
theorem agrees_of_words {s' : AreaSys ι} (hroot : s'.root = s.root) {l : List ℕ}
    (hwords : ∀ a ∈ l, ∀ f : VmaField, s'.sys.m.words (a + f.offset) = s.sys.m.words (a + f.offset)) :
    Agrees s.region s'.region l := by
  refine ⟨congrArg structOf hroot, fun a ha => ⟨fun d => ?_, ?_, ?_⟩, fun a ha => ?_⟩
  · cases d
    · exact congrArg structOf (hwords a ha VmaField.left)
    · exact congrArg structOf (hwords a ha VmaField.right)
  · exact congrArg structOf (hwords a ha VmaField.parent)
  · exact congrArg wordColor (hwords a ha VmaField.color)
  · unfold AreaSys.region
    dsimp only
    rw [hwords a ha VmaField.vmStart, hwords a ha VmaField.vmEnd, hwords a ha VmaField.vmFlags]

/-- The structures hold all the fields of an area. -/
def Roomy (s : Sys ι) (vc : ι) : Prop := vmaSize ≤ (s.m.caches vc).cache.objSize

theorem covers_of_lt {s : Sys ι} (h : Roomy s vc) {a i : ℕ} (hi : i < vmaSize) :
    s.Covers (Piece.object vc a) (a + i) := by
  unfold Roomy at h
  exact ⟨Nat.le_add_right _ _, by omega⟩

theorem covers_field {s : Sys ι} (h : Roomy s vc) (a : ℕ) (f : VmaField) :
    s.Covers (Piece.object vc a) (a + f.offset) := by
  have hf := f.offset_lt
  exact covers_of_lt h (by omega)

/-- The fields of two structures are apart. -/
theorem vmaFields_apart {s : Sys ι} (h : Ok s) (hr : Roomy s vc) (R : Vma.VmaRegion) :
    ∀ a ∈ s.objs vc, ∀ b ∈ s.objs vc, ∀ w ∈ vmaFields R a, ∀ w' ∈ vmaFields R b, w.1 = w'.1 → w = w' := by
  intro a ha b hb w hw w' hw' heq
  obtain ⟨f, rfl⟩ := mem_vmaFields hw
  obtain ⟨g, rfl⟩ := mem_vmaFields hw'
  dsimp only at heq
  have hab : a = b := by
    by_contra hne
    refine h.disjoint (u := Piece.object vc a) (v := Piece.object vc b) ha hb
      (fun hu => hne (Piece.object.inj hu).2) (covers_field hr a f) ?_
    rw [heq]
    exact covers_field hr b g
  subst hab
  obtain rfl := VmaField.offset_inj (Nat.add_left_cancel heq)
  rfl

/-- **The region that is read back** is the one that was written. -/
theorem AreaSys.store_agrees (h : Ok s.sys) (hr : Roomy s.sys vc) (R : Vma.VmaRegion) :
    Agrees R (s.store vc R).region (s.sys.objs vc) := by
  have hread : ∀ a ∈ s.sys.objs vc, ∀ f : VmaField,
      (s.store vc R).sys.m.words (a + f.offset) = fieldWord R a f := fun a ha f =>
    Fields.put_records (vmaFields_apart h hr R) ha (field_mem R a f)
  refine ⟨structOf_nodeOf _, fun a ha => ⟨fun d => ?_, ?_, ?_⟩, fun a ha => ?_⟩
  · cases d
    · exact (congrArg structOf (hread a ha VmaField.left)).trans (structOf_nodeOf _)
    · exact (congrArg structOf (hread a ha VmaField.right)).trans (structOf_nodeOf _)
  · exact (congrArg structOf (hread a ha VmaField.parent)).trans (structOf_nodeOf _)
  · exact (congrArg wordColor (hread a ha VmaField.color)).trans (wordColor_colorWord _)
  · unfold AreaSys.region
    dsimp only
    rw [hread a ha VmaField.vmStart, hread a ha VmaField.vmEnd, hread a ha VmaField.vmFlags]
    rfl

/-- What writes of the vma code leave as it is. -/
structure OwnWrites (vc : ι) (s s' : Sys ι) : Prop where
  ok : Ok s'
  objs : s'.objs = s.objs
  created : s'.created = s.created
  ranges : s'.ranges = s.ranges
  live : s'.m.live = s.m.live
  caches : s'.m.caches = s.m.caches
  words : ∀ x, (∀ a ∈ s.objs vc, ¬ s.Covers (Piece.object vc a) x) → s'.m.words x = s.m.words x

theorem OwnWrites.refl {s : Sys ι} (h : Ok s) : OwnWrites vc s s :=
  ⟨h, rfl, rfl, rfl, rfl, rfl, fun _ _ => rfl⟩

theorem OwnWrites.trans {s₁ s₂ s₃ : Sys ι} (h : OwnWrites vc s₁ s₂) (h' : OwnWrites vc s₂ s₃) :
    OwnWrites vc s₁ s₃ := by
  refine ⟨h'.ok, h'.objs.trans h.objs, h'.created.trans h.created, h'.ranges.trans h.ranges,
    h'.live.trans h.live, h'.caches.trans h.caches, fun x hx => (h'.words x ?_).trans (h.words x hx)⟩
  intro a ha
  rw [h.objs] at ha
  have hc : ∀ x, s₂.Covers (Piece.object vc a) x ↔ s₁.Covers (Piece.object vc a) x := fun x => by
    unfold Sys.Covers
    rw [h.caches]
  rw [hc]
  exact hx a ha

variable [DecidableEq ι]

/-- **The rule for writes into structures**: the allocators and the other callers do not notice. -/
theorem ownWrites_puts {s : Sys ι} (h : Ok s) {ws : List (ℕ × ℕ)}
    (hin : ∀ w ∈ ws, ∃ a ∈ s.objs vc, s.Covers (Piece.object vc a) w.1) : OwnWrites vc s (s.puts ws) := by
  induction ws generalizing s with
  | nil => exact OwnWrites.refl h
  | cons w ws ih =>
      obtain ⟨a, ha, hcov⟩ := hin w List.mem_cons_self
      obtain ⟨s₁, hs₁, hok, -⟩ := h.write (u := Piece.object vc a) (v := w.2) ⟨ha, hcov⟩
      obtain rfl := Option.some_inj.1 hs₁
      have hfirst : OwnWrites vc s
          { s with m := { s.m with words := Function.update s.m.words w.1 w.2 } } :=
        ⟨hok, rfl, rfl, rfl, rfl, rfl, fun x hx => Function.update_of_ne (fun hxw : x = w.1 =>
          hx a ha (by rw [hxw]; exact hcov)) _ _⟩
      exact hfirst.trans (ih hok fun w' hw' => hin w' (List.mem_cons_of_mem _ hw'))

/-- **Writing a region back** writes into the structures only. -/
theorem AreaSys.store_keeps (h : Ok s.sys) (hr : Roomy s.sys vc) (R : Vma.VmaRegion) :
    OwnWrites vc s.sys (s.store vc R).sys := by
  refine ownWrites_puts h fun w hw => ?_
  obtain ⟨a, ha, hwa⟩ := List.mem_flatMap.1 hw
  obtain ⟨f, rfl⟩ := mem_vmaFields hwa
  exact ⟨a, ha, covers_field hr a f⟩

end Store

end Mm

end SyncKernel
