/-
**The areas in every run of the machine.**

The functions of `vma.c` run among the other callers of the allocators.  In every run the tree of areas
stays a red-black tree of areas in order, its structures are the objects of `vma_cache` that are in use, an
area is found at its addresses until it is freed, and neither side writes into the memory of the other one.

Main definitions:

* `Mm.AreaOp`, `Mm.areaStep`, `Mm.AreaPromised` — the operations, and what the callers promise;
* `Mm.AreasOk` — **the invariant**;
* `Mm.AreasSound`, `Mm.AreasKept` — what holds of every state, and of every step;
* `Mm.AreaReturned` — what `vma_alloc_area` returns.

Main results:

* `Mm.AreasOk.alloc`, `Mm.AreasOk.free`, `Mm.AreasOk.other` — what the operations do;
* `Mm.run_areas`, `Mm.run_areas_kept` — **the runs**.
-/

import SyncKernel.Mm.Areas
import SyncKernel.Slab.Geometry

set_option relaxedAutoImplicit false
set_option autoImplicit false

namespace SyncKernel

namespace Mm

open RbTree Store Rbtree

variable {ι : Type}

/-! ### Operations -/

/-- An operation of another part of the kernel, or one of the functions of `vma.c`. -/
inductive AreaOp (ι : Type)
  | other (o : Op ι)
  | init (junk : ℕ → ℕ)
  | alloc (areaSize flags : ℕ) (junk : ℕ → ℕ)
  | free (addr : ℕ) (junk : ℕ → ℕ)

/-- The operation is none of `vma_cache`. -/
def Foreign (vc : ι) : Op ι → Prop
  | Op.create i .. => i ≠ vc
  | Op.alloc i _ => i ≠ vc
  | Op.free i .. => i ≠ vc
  | Op.write (Piece.object i _) .. => i ≠ vc
  | _ => True

/-- The region with the structures in use. -/
def AreaSys.areas (s : AreaSys ι) (vc : ι) : Vma.System := ⟨s.region, s.sys.objs vc⟩

/-- An area of this size ends below the kernel image, behind the others, or there is no room behind
them. -/
def AreaSys.Below (s : AreaSys ι) (vc : ι) (areaSize : ℕ) : Prop :=
  Vma.used (s.areas vc) + pageAlignUp areaSize ≤ kernelOffset ∨
    2 ^ 64 < Vma.used (s.areas vc) + pageAlignUp areaSize

/-- What the callers promise: the other parts of the kernel have their own caches; the subsystem is set up
once, and used after that; a new area ends below the kernel image; and the node of an area that is freed is
one that `rb_remove` removes. -/
def AreaPromised (vc : ι) (s : AreaSys ι) : AreaOp ι → Prop
  | AreaOp.other o => Foreign vc o ∧ Promised s.sys o
  | AreaOp.init _ => s.sys.created vc = none
  | AreaOp.alloc areaSize _ _ => s.sys.created vc = some 0 ∧ areaSize < 2 ^ 64 ∧ s.Below vc areaSize
  | AreaOp.free addr _ => s.sys.created vc = some 0 ∧ ∀ a ∈ s.sys.objs vc, s.region.Contains a addr →
      ∀ ctx c l r, At s.region.rTree ctx (node c l a r) → Removable ctx c l a r

/-- One operation. -/
def areaStep [DecidableEq ι] (vc : ι) (s : AreaSys ι) : AreaOp ι → Option (AreaSys ι)
  | AreaOp.other o => (step s.sys o).map fun sys => { s with sys := sys }
  | AreaOp.init junk => s.vmaSubsystemInit vc junk
  | AreaOp.alloc areaSize flags junk => (s.vmaAllocArea vc areaSize flags junk).map Prod.snd
  | AreaOp.free addr junk => s.vmaFreeArea vc addr junk

/-! ### The invariant -/

/-- The subsystem is set up: the structures are large enough, and they are the areas of a well-formed
region below the kernel image. -/
structure Ready (vc : ι) (s : AreaSys ι) : Prop where
  roomy : Roomy s.sys vc
  start_eq : s.rStart = kernelVmmap
  end_eq : s.rEnd = 0
  tree : ∃ l, l.Perm (s.sys.objs vc) ∧ Vma.WellFormed s.region kernelVmmap kernelOffset l

/-- **The invariant**: that of the allocators, and the tree of areas is well formed; before the subsystem is
set up, it is empty. -/
structure AreasOk (vc : ι) (s : AreaSys ι) : Prop where
  ok : Ok s.sys
  idle : s.sys.created vc ≠ some 0 → s.root = 0
  ready : s.sys.created vc = some 0 → Ready vc s

/-- The structures of the areas in the tree are the objects of `vma_cache` that are in use, the tree is a
red-black tree of page-aligned areas in order, no two of them overlap, `vma_search` finds each one at its
addresses, and none of them meets the kernel image. -/
def AreasSound (vc : ι) (s : AreaSys ι) : Prop :=
  s.sys.created vc = some 0 →
    (∃ l, l.Perm (s.sys.objs vc) ∧ Vma.WellFormed s.region kernelVmmap kernelOffset l) ∧
      Vma.Sound (s.areas vc)

/-- What the functions of `vma.c` leave as it is: the pieces of the other callers stay in use, with their
words. -/
def Untouched (vc : ι) (s s' : Sys ι) : Prop :=
  ∀ u, s.InUse u → u.owner ≠ some vc → s'.InUse u ∧
    ∀ x, s.Covers u x → s'.Covers u x ∧ s'.m.words x = s.m.words x

/-- What `vma_alloc_area` returns: the last address, and there is no new area, or the only new one, which has
the size and the flags that were asked for. -/
def AreaReturned (vc : ι) (s : AreaSys ι) (areaSize flags vma : ℕ) (s' : AreaSys ι) : Prop :=
  vma = Vma.vmaInvalidPtr ∧ s'.sys.objs vc = s.sys.objs vc ∨
    vma ≠ Vma.vmaInvalidPtr ∧ vma ∉ s.sys.objs vc ∧ s'.sys.objs vc = vma :: s.sys.objs vc ∧
      ∃ start, s'.region.vma vma = ⟨start, start + pageAlignUp areaSize, flags⟩

/-- What a step keeps: an area stays where it is until `vma_free_area` is called with one of its addresses,
and then its structure is given back; there are new areas only as `vma_alloc_area` returns them; and the
functions of `vma.c` do not touch what the other callers hold. -/
structure AreasKept [DecidableEq ι] (vc : ι) (s : AreaSys ι) (o : AreaOp ι) (s' : AreaSys ι) : Prop where
  old : ∀ a ∈ s.sys.objs vc, a ∈ s'.sys.objs vc ∧ s'.region.vma a = s.region.vma a ∨
    ∃ addr junk, o = AreaOp.free addr junk ∧ s.region.Contains a addr
  gone : ∀ addr junk, o = AreaOp.free addr junk → ∀ a ∈ s.sys.objs vc, s.region.Contains a addr →
    a ∉ s'.sys.objs vc
  new : ∀ a ∈ s'.sys.objs vc, a ∉ s.sys.objs vc → ∃ areaSize flags junk start,
    o = AreaOp.alloc areaSize flags junk ∧ s'.region.vma a = ⟨start, start + pageAlignUp areaSize, flags⟩
  returned : ∀ areaSize flags junk, o = AreaOp.alloc areaSize flags junk → ∃ vma,
    s.vmaAllocArea vc areaSize flags junk = some (vma, s') ∧ AreaReturned vc s areaSize flags vma s'
  others : (∀ o', o ≠ AreaOp.other o') → Untouched vc s.sys s'.sys

/-! ### What the other callers see -/

section Others

variable {vc : ι}

theorem Untouched.refl (s : Sys ι) : Untouched vc s s := fun _ hu _ => ⟨hu, fun _ hx => ⟨hx, rfl⟩⟩

theorem Untouched.trans {s₁ s₂ s₃ : Sys ι} (h : Untouched vc s₁ s₂) (h' : Untouched vc s₂ s₃) :
    Untouched vc s₁ s₃ := by
  intro u hu ho
  obtain ⟨hu₂, hx₂⟩ := h u hu ho
  obtain ⟨hu₃, hx₃⟩ := h' u hu₂ ho
  refine ⟨hu₃, fun x hx => ?_⟩
  obtain ⟨hc₂, hw₂⟩ := hx₂ x hx
  obtain ⟨hc₃, hw₃⟩ := hx₃ x hc₂
  exact ⟨hc₃, hw₃.trans hw₂⟩

/-- Writes into structures. -/
theorem OwnWrites.untouched {s s' : Sys ι} (hok : Ok s) (h : OwnWrites vc s s') : Untouched vc s s' := by
  intro u hu ho
  have huse : s'.InUse u := by
    cases u with
    | block b =>
        change (b, none) ∈ s'.m.live
        rw [h.live]
        exact hu
    | object i o =>
        change o ∈ s'.objs i
        rw [h.objs]
        exact hu
  refine ⟨huse, fun x hx => ⟨?_, h.words x fun a ha hxa => ?_⟩⟩
  · cases u with
    | block b => exact hx
    | object i o =>
        change o ≤ x ∧ x < o + (s'.m.caches i).cache.objSize
        rw [h.caches]
        exact hx
  · refine hok.disjoint hu (v := Piece.object vc a) ha (fun heq => ho ?_) hx hxa
    rw [heq]
    rfl

/-- A call of the allocators that frees nothing of the other callers. -/
theorem Intact.untouched {s s' : Sys ι} {o : Op ι} (h : Intact s o s')
    (hfree : ∀ u, u.owner ≠ some vc → ¬ o.Frees u) (hwrite : ∀ u x v, o ≠ Op.write u x v) :
    Untouched vc s s' := by
  intro u hu ho
  have huse := (h.stays u hu).resolve_right (hfree u ho)
  refine ⟨huse, fun x hx => ?_⟩
  obtain ⟨hcov, hw⟩ := h.words u hu huse x hx
  exact ⟨hcov, hw.resolve_right fun ⟨v, heq, _⟩ => hwrite u x v heq⟩

variable [DecidableEq ι] {s s' : Sys ι} {o : Op ι}

/-- An operation that is none of `vma_cache` leaves its objects in use. -/
theorem Foreign.keeps (hf : Foreign vc o) (hs : step s o = some s') :
    s'.created vc = s.created vc ∧ s'.objs vc = s.objs vc := by
  cases o with
  | donate vaddr len junk =>
      obtain ⟨m, -, rfl⟩ := Option.map_eq_some_iff.1 hs
      exact ⟨rfl, rfl⟩
  | allocPages order junk =>
      obtain ⟨r, -, rfl⟩ := Option.map_eq_some_iff.1 hs
      exact ⟨rfl, rfl⟩
  | freePages vaddr order junk =>
      obtain ⟨m, -, rfl⟩ := Option.map_eq_some_iff.1 hs
      exact ⟨rfl, rfl⟩
  | create i objsize alignment flags junk =>
      obtain ⟨r, -, rfl⟩ := Option.map_eq_some_iff.1 hs
      exact ⟨Function.update_of_ne (Ne.symm hf) _ _, rfl⟩
  | alloc i junk =>
      obtain ⟨r, -, rfl⟩ := Option.map_eq_some_iff.1 hs
      refine ⟨rfl, ?_⟩
      unfold Sys.allocated
      dsimp only
      split_ifs
      · rfl
      · exact Function.update_of_ne (Ne.symm hf) _ _
  | free i obj junk =>
      obtain ⟨m, -, rfl⟩ := Option.map_eq_some_iff.1 hs
      exact ⟨rfl, Function.update_of_ne (Ne.symm hf) _ _⟩
  | write u a v =>
      obtain rfl := Option.some_inj.1 hs
      exact ⟨rfl, rfl⟩

/-- An operation that is none of `vma_cache` leaves the words of its objects as they are. -/
theorem Foreign.words (hf : Foreign vc o) (hs : step s o = some s') (h : Intact s o s') {a : ℕ}
    (ha : a ∈ s.objs vc) {x : ℕ} (hx : s.Covers (Piece.object vc a) x) : s'.m.words x = s.m.words x := by
  have ha' : a ∈ s'.objs vc := (hf.keeps hs).2 ▸ ha
  refine (h.words (Piece.object vc a) ha ha' x hx).2.resolve_right ?_
  rintro ⟨v, rfl, -⟩
  exact hf rfl

end Others

/-! ### Objects in use -/

section Objects

variable {vc : ι} {s : Sys ι}

/-- An object in use has an address. -/
theorem Ok.object_ptr (h : Ok s) {i : ι} {o : ℕ} (ho : o ∈ s.objs i) : 0 < o ∧ o < 2 ^ 64 := by
  obtain ⟨sh, hn⟩ := h.pages
  obtain ⟨b, hb, hcov⟩ := h.block_of (u := Piece.object i o) ho
  obtain ⟨hpos, -, hle⟩ := hn.live_facts (List.mem_map_of_mem hb)
  obtain ⟨h₁, h₂⟩ := covers_iff.1 (hcov o (h.covers_object ho))
  dsimp only at hpos hle
  omega

theorem Ok.objs_nodup (h : Ok s) {i : ι} (hi : s.created i = some 0) : (s.objs i).Nodup := by
  obtain ⟨sh, hok⟩ := (h.caches i).cache hi
  exact hok.nodup

/-- Two structures have no address in common. -/
theorem Ok.fields_apart (h : Ok s) (hr : Roomy s vc) {a b i j : ℕ} (ha : a ∈ s.objs vc) (hb : b ∈ s.objs vc)
    (hne : a ≠ b) (hi : i < vmaSize) (hj : j < vmaSize) : a + i ≠ b + j := by
  intro heq
  refine h.disjoint (u := Piece.object vc a) (v := Piece.object vc b) ha hb
    (fun hu => hne (Piece.object.inj hu).2) (covers_of_lt hr hi) ?_
  rw [heq]
  exact covers_of_lt hr hj

variable [DecidableEq ι]

/-- The size of the objects is the one that `kslab_cache_create` is called with. -/
theorem create_objSize {s' : Sys ι} {objsize alignment flags : ℕ} {junk : ℕ → ℕ} (ha : alignment < 2 ^ 64)
    (hs : step s (Op.create vc objsize alignment flags junk) = some s') (hc : s'.created vc = some 0) :
    (s'.m.caches vc).cache.objSize = objsize := by
  obtain ⟨⟨ret, m⟩, hrun, rfl⟩ := Option.map_eq_some_iff.1 hs
  dsimp only at hc ⊢
  rw [Function.update_self] at hc
  obtain rfl := Option.some_inj.1 hc
  obtain ⟨c, -, hrun⟩ := Option.bind_eq_some_iff.1 hrun
  by_cases hw : c.waste = Slab.noWaste
  · rw [if_pos hw] at hrun
    exact absurd (Prod.mk.inj (Option.some_inj.1 hrun)).1 (by decide)
  · rw [if_neg hw] at hrun
    obtain ⟨⟨blk, m₁⟩, -, hrun⟩ := Option.bind_eq_some_iff.1 hrun
    obtain ⟨⟨ret, st⟩, hcreate, hrun⟩ := Option.bind_eq_some_iff.1 hrun
    obtain ⟨rfl, rfl⟩ := Prod.mk.inj (Option.some_inj.1 hrun)
    rw [setCache_caches_self]
    exact (Slab.shape_of_create ha hcreate).objSize_eq

end Objects

/-! ### The place of a new area -/

section Place

variable {vc : ι} {s : AreaSys ι}

/-- The areas end at `used` or before, and one of them ends there, if there are any. -/
theorem exists_end_eq_used {S : Vma.System} (h : kernelVmmap < Vma.used S) :
    ∃ a ∈ S.granted, (S.region.vma a).vmEnd = Vma.used S := by
  by_contra hno
  have hall : ∀ a ∈ S.granted, (S.region.vma a).vmEnd ≤ Vma.used S - 1 := by
    intro a ha
    have hle := (Vma.used_le_iff.1 (le_refl (Vma.used S))).2 a ha
    have hne : (S.region.vma a).vmEnd ≠ Vma.used S := fun heq => hno ⟨a, ha, heq⟩
    omega
  have hlast := Vma.used_le_iff.2 ⟨show kernelVmmap ≤ Vma.used S - 1 by omega, hall⟩
  omega

/-- **The place of a new area**: it starts on a page, meets none of the areas, and ends below the kernel
image, whether there is a gap for it or not. -/
theorem Ready.place (h : Ready vc s) {areaSize : ℕ} (hb : s.Below vc areaSize) {l : List ℕ}
    (hperm : l.Perm (s.sys.objs vc)) (hw : Vma.WellFormed s.region kernelVmmap kernelOffset l) :
    ∃ place, Vma.vmaPlace s.region (pageAlignUp areaSize) = some place ∧
      ∀ start, place = some start → 4096 ∣ start ∧ kernelVmmap ≤ start ∧
        start + pageAlignUp areaSize ≤ kernelOffset ∧
        Gaps.Free (l.map s.region.span) start (pageAlignUp areaSize) := by
  have hoff : kernelOffset < 2 ^ 64 := by decide
  have hbase : kernelVmmap < kernelOffset := by decide
  have hwr : Vma.WellFormed s.region s.region.rStart kernelOffset l := by
    rw [show s.region.rStart = kernelVmmap from h.start_eq]
    exact hw
  have hend : s.region.rEnd = 2 ^ 64 % 2 ^ 64 := by
    rw [show s.region.rEnd = 0 from h.end_eq]
    decide
  have heq := Vma.vmaPlace_eq (pageAlignUp areaSize) hwr hend
    (by rw [show s.region.rStart = kernelVmmap from h.start_eq]; exact hbase.le) hoff.le hoff
    (by rw [show s.region.rStart = kernelVmmap from h.start_eq]; decide) le_rfl
  rw [show s.region.rStart = kernelVmmap from h.start_eq] at heq
  refine ⟨_, heq, fun start hstart => ?_⟩
  split_ifs at hstart with hdepth
  obtain ⟨hends, hlo, hhi, hfree⟩ := Gaps.place_spec (hw.ordered.mono hoff.le) (by omega) hstart
  refine ⟨hw.dvd_place (by decide) hends, hlo, ?_, hfree⟩
  have hle : start ≤ Vma.used (s.areas vc) := by
    obtain ⟨hlo', hends'⟩ := Vma.used_le_iff.1 (le_refl (Vma.used (s.areas vc)))
    rcases hends with rfl | ⟨i, hi, rfl⟩
    · exact hlo'
    · obtain ⟨a, ha, rfl⟩ := List.mem_map.1 hi
      exact hends' a (hperm.mem_iff.1 ha)
  rcases hb with hb | hb
  · omega
  · by_cases hlast : start = Vma.used (s.areas vc)
    · omega
    · -- the place is in a gap before the highest area
      obtain ⟨a, ha, hend⟩ := exists_end_eq_used (S := s.areas vc) (by omega)
      have hal := hperm.mem_iff.2 ha
      have hfa := hfree (s.region.span a) (List.mem_map_of_mem hal)
      have hsa := hw.ordered.le (s.region.span a) (List.mem_map_of_mem hal)
      have hea := hw.ordered.le_hi (s.region.span a) (List.mem_map_of_mem hal)
      change (s.region.vma a).vmEnd = _ at hend
      dsimp only [Vma.VmaRegion.span] at hfa hsa hea
      omega

end Place

/-! ### Keeping the region -/

section Keep

variable {vc : ι} {s s' : AreaSys ι}

/-- The structures that stay in use with their words. -/
theorem words_fields (hr : Roomy s.sys vc) {a : ℕ}
    (hwords : ∀ x, s.sys.Covers (Piece.object vc a) x → s'.sys.m.words x = s.sys.m.words x) (f : VmaField) :
    s'.sys.m.words (a + f.offset) = s.sys.m.words (a + f.offset) := hwords _ (covers_field hr a f)

/-- **The rule for a step that keeps the region**: the structures in use are the same, with the same
words. -/
theorem Ready.keep (h : Ready vc s) (hroot : s'.root = s.root) (hstart : s'.rStart = s.rStart)
    (hend : s'.rEnd = s.rEnd) (hobjs : s'.sys.objs vc = s.sys.objs vc)
    (hsize : (s'.sys.m.caches vc).cache.objSize = (s.sys.m.caches vc).cache.objSize)
    (hwords : ∀ a ∈ s.sys.objs vc, ∀ x, s.sys.Covers (Piece.object vc a) x →
      s'.sys.m.words x = s.sys.m.words x) :
    Ready vc s' ∧ Agrees s.region s'.region (s.sys.objs vc) := by
  obtain ⟨l, hperm, hw⟩ := h.tree
  have hagree : Agrees s.region s'.region (s.sys.objs vc) :=
    agrees_of_words hroot fun a ha => words_fields h.roomy (hwords a ha)
  refine ⟨⟨?_, hstart.trans h.start_eq, hend.trans h.end_eq, l, hobjs ▸ hperm,
    (hagree.perm hperm.symm).wellFormed hw⟩, hagree⟩
  unfold Roomy
  rw [hsize]
  exact h.roomy

/-- The areas of a region are apart, found and below the kernel image. -/
theorem Ready.sound (h : Ready vc s) : Vma.Sound (s.areas vc) := by
  obtain ⟨l, hperm, hw⟩ := h.tree
  have hoff : kernelOffset < 2 ^ 64 := by decide
  refine ⟨hw.apart hoff hperm, fun a ha x hx => ?_⟩
  have hal := hperm.mem_iff.2 ha
  obtain ⟨hsx, hxe⟩ := (hw.covers_iff hoff hal).1 hx
  have hle := hw.ordered.le_hi (s.region.span a) (List.mem_map_of_mem hal)
  exact ⟨Vma.vmaSearch_spec hw hal hsx hxe, lt_of_lt_of_le hxe hle⟩

theorem AreasOk.sound (h : AreasOk vc s) : AreasSound vc s := fun hc => ⟨(h.ready hc).tree, (h.ready hc).sound⟩

end Keep

/-! ### What the operations do -/

section Steps

variable [DecidableEq ι] {vc : ι} {s : AreaSys ι}

/-- **An operation of another part of the kernel.** -/
theorem AreasOk.other (h : AreasOk vc s) {o : Op ι} (hf : Foreign vc o) (hp : Promised s.sys o) :
    ∃ s', areaStep vc s (AreaOp.other o) = some s' ∧ AreasKept vc s (AreaOp.other o) s' ∧ AreasOk vc s' := by
  obtain ⟨sys, hs, hok, hintact⟩ := h.ok.step hp
  obtain ⟨hc, ho⟩ := hf.keeps hs
  have hagree : s.sys.created vc = some 0 → Ready vc { s with sys := sys } ∧
      Agrees s.region (AreaSys.region { s with sys := sys }) (s.sys.objs vc) := fun hi =>
    (h.ready hi).keep rfl rfl rfl ho (hintact.sizes vc hi) fun a ha x hx => hf.words hs hintact ha hx
  refine ⟨{ s with sys := sys }, by rw [areaStep, hs, Option.map_some], ⟨fun a ha => Or.inl ⟨?_, ?_⟩,
    fun _ _ heq => (by cases heq), fun a ha hno => absurd (ho ▸ ha) hno, fun _ _ _ heq => (by cases heq),
    fun hno => absurd rfl (hno o)⟩, hok, ?_, ?_⟩
  · exact ho.symm ▸ ha
  · exact (hagree (h.ok.created_of_mem ha)).2.areas a ha
  · intro hno
    exact h.idle (hc ▸ hno)
  · intro hi
    exact (hagree (hc ▸ hi)).1

/-- **Setting up the subsystem.** -/
theorem AreasOk.init (h : AreasOk vc s) {junk : ℕ → ℕ} (hp : s.sys.created vc = none) :
    ∃ s', areaStep vc s (AreaOp.init junk) = some s' ∧ AreasKept vc s (AreaOp.init junk) s' ∧ AreasOk vc s' := by
  have hpr : Promised s.sys (Op.create vc vmaSize vmaAlign 0 junk) := ⟨hp, by decide, by decide, by decide⟩
  obtain ⟨sys, hs, hok, hintact⟩ := h.ok.create hpr
  have hne : s.sys.created vc ≠ some 0 := by
    rw [hp]
    simp
  have hroot := h.idle hne
  have hnone := ((h.ok.caches vc).idle hne).2
  have hobjs : sys.objs vc = [] := by
    obtain ⟨r, -, rfl⟩ := Option.map_eq_some_iff.1 hs
    exact hnone
  have hothers : Untouched vc s.sys sys :=
    hintact.untouched (fun _ _ hfree => hfree) fun _ _ _ heq => by cases heq
  have hkept : ∀ {s' : AreaSys ι}, s'.sys = sys → AreasKept vc s (AreaOp.init junk) s' := by
    intro s' hsys
    refine ⟨fun a ha => ?_, fun _ _ heq => (by cases heq), fun a ha _ => ?_, fun _ _ _ heq => (by cases heq),
      fun _ => hsys ▸ hothers⟩
    · rw [hnone] at ha
      exact absurd ha List.not_mem_nil
    · rw [hsys, hobjs] at ha
      exact absurd ha List.not_mem_nil
  by_cases hc : sys.created vc = some 0
  · refine ⟨{ s with sys := sys, rStart := kernelVmmap, rEnd := Word.add kernelVmmap Vma.kernelVmmapLen }, ?_,
      hkept rfl, hok, fun hno => absurd hc hno, fun _ => ⟨?_, rfl, ?_, [], ?_, ?_⟩⟩
    · rw [areaStep, AreaSys.vmaSubsystemInit, hs, Option.bind_eq_bind, Option.bind_some, if_pos hc]
    · exact (create_objSize (by decide) hs hc).ge
    · exact show Word.add kernelVmmap Vma.kernelVmmapLen = 0 by decide
    · rw [hobjs]
    · exact Vma.wellFormed_empty (congrArg structOf hroot)
  · refine ⟨{ s with sys := sys }, ?_, hkept rfl, hok, fun _ => hroot, fun hi => absurd hi hc⟩
    rw [areaStep, AreaSys.vmaSubsystemInit, hs, Option.bind_eq_bind, Option.bind_some, if_neg hc]

end Steps

/-! ### Allocating an area -/

section Alloc

variable {vc : ι} {s : AreaSys ι}

/-- What `vma_assign_struct` does: there is no structure, or a new one, filled in. -/
structure Assigned (vc : ι) (s : AreaSys ι) (area : Vma.KernelVma) (v : ℕ) (s' : AreaSys ι) : Prop where
  ok : Ok s'.sys
  roomy : Roomy s'.sys vc
  start_eq : s'.rStart = s.rStart
  end_eq : s'.rEnd = s.rEnd
  created : s'.sys.created = s.sys.created
  others : Untouched vc s.sys s'.sys
  agrees : Agrees s.region s'.region (s.sys.objs vc)
  none : v = kpageErr → s'.sys.objs vc = s.sys.objs vc
  some : v ≠ kpageErr → v ∉ s.sys.objs vc ∧ s'.sys.objs vc = v :: s.sys.objs vc ∧ s'.region.vma v = area

variable [DecidableEq ι]

/-- **`vma_assign_struct`.** -/
theorem Ready.assign (h : Ready vc s) (hok : Ok s.sys) (hc : s.sys.created vc = some 0) (start size flags : ℕ)
    (junk : ℕ → ℕ) : ∃ v s', s.vmaAssignStruct vc start size flags junk = some (v, s') ∧
      Assigned vc s ⟨start, Word.add start size, flags⟩ v s' := by
  obtain ⟨sys₁, hs₁, hok₁, hint⟩ : ∃ sys₁, step s.sys (Op.alloc vc junk) = some sys₁ ∧ Ok sys₁ ∧
    Intact s.sys (Op.alloc vc junk) sys₁ := hok.alloc hc
  obtain ⟨⟨v, m⟩, hrun, rfl⟩ := Option.map_eq_some_iff.1 hs₁
  dsimp only at hok₁ hint
  have hothers : Untouched vc s.sys (s.sys.allocated vc v m) :=
    hint.untouched (fun _ _ hfree => hfree) fun _ _ _ heq => by cases heq
  have hroomy₁ : Roomy (s.sys.allocated vc v m) vc := h.roomy.trans (hint.sizes vc hc).ge
  -- the structures in use keep their words
  have hkeep : ∀ a ∈ s.sys.objs vc, ∀ f : VmaField,
      (s.sys.allocated vc v m).m.words (a + f.offset) = s.sys.m.words (a + f.offset) := by
    intro a ha f
    have hstay := (hint.stays (Piece.object vc a) ha).resolve_right fun hfree => hfree
    refine (hint.words (Piece.object vc a) ha hstay _ (covers_field h.roomy a f)).2.resolve_right ?_
    rintro ⟨w, heq, -⟩
    cases heq
  by_cases hv : v = kpageErr
  · refine ⟨v, { s with sys := s.sys.allocated vc v m }, ?_, hok₁, hroomy₁, rfl, rfl, rfl, hothers,
      agrees_of_words (by rfl) hkeep, fun _ => ?_, fun hne => absurd hv hne⟩
    · rw [AreaSys.vmaAssignStruct, hrun, Option.bind_eq_bind, Option.bind_some]
      exact if_pos hv
    · rw [Sys.allocated, if_pos hv]
  · have hobjs : (s.sys.allocated vc v m).objs vc = v :: s.sys.objs vc := by
      rw [Sys.allocated, if_neg hv]
      exact Function.update_self ..
    have hnd : (v :: s.sys.objs vc).Nodup := hobjs ▸ hok₁.objs_nodup (i := vc) hc
    have hnew : v ∉ s.sys.objs vc := (List.nodup_cons.1 hnd).1
    have hmem : ∀ a ∈ s.sys.objs vc, a ∈ (s.sys.allocated vc v m).objs vc := fun a ha =>
      hobjs ▸ List.mem_cons_of_mem _ ha
    have hself : v ∈ (s.sys.allocated vc v m).objs vc := hobjs ▸ List.mem_cons_self
    -- the structure is zeroed
    have hzeros : OwnWrites vc (s.sys.allocated vc v m)
        ((s.sys.allocated vc v m).puts ((List.range 8).map fun i => (v + 8 * i, 0))) := by
      refine ownWrites_puts hok₁ fun w hw => ?_
      obtain ⟨i, hi, rfl⟩ := List.mem_map.1 hw
      have hlt := List.mem_range.1 hi
      exact ⟨v, hself, covers_of_lt hroomy₁ (by unfold vmaSize; omega)⟩
    generalize hsys₂ : (s.sys.allocated vc v m).puts ((List.range 8).map fun i => (v + 8 * i, 0)) = sys₂ at hzeros
    have hroomy₂ : Roomy sys₂ vc := by
      unfold Roomy
      rw [hzeros.caches]
      exact hroomy₁
    have hagree₂ : Agrees s.region (AreaSys.region { s with sys := sys₂ }) (s.sys.objs vc) := by
      refine agrees_of_words (by rfl) fun a ha f => Eq.trans ?_ (hkeep a ha f)
      rw [← hsys₂]
      refine Fields.put_of_notMem fun w hw => ?_
      obtain ⟨i, hi, rfl⟩ := List.mem_map.1 hw
      have hlt := List.mem_range.1 hi
      have hf := f.offset_lt
      have hva : v ≠ a := fun heq => hnew (heq ▸ ha)
      exact hok₁.fields_apart hroomy₁ hself (hmem a ha) hva (by unfold vmaSize; omega) (by omega)
    -- the structure is filled in
    generalize hR : (AreaSys.region { s with sys := sys₂ }).assign v start size flags = R
    have hRt : R.rTree = (AreaSys.region { s with sys := sys₂ }).rTree := by
      rw [← hR]
      rfl
    have hown := AreaSys.store_keeps (s := { s with sys := sys₂ }) hzeros.ok hroomy₂ R
    have hagree₃ := AreaSys.store_agrees (s := { s with sys := sys₂ }) hzeros.ok hroomy₂ R
    have hobjs₂ : sys₂.objs vc = v :: s.sys.objs vc := (congrFun hzeros.objs vc).trans hobjs
    dsimp only at hagree₃
    rw [hobjs₂] at hagree₃
    refine ⟨v, AreaSys.store { s with sys := sys₂ } vc R, ?_, hown.ok, ?_, rfl, rfl, hown.created.trans hzeros.created,
      (hothers.trans (hzeros.untouched hok₁)).trans (hown.untouched hzeros.ok), ⟨?_, ?_, ?_⟩,
      fun heq => absurd heq hv, fun _ => ⟨hnew, (congrFun hown.objs vc).trans hobjs₂, ?_⟩⟩
    · rw [AreaSys.vmaAssignStruct, hrun, Option.bind_eq_bind, Option.bind_some]
      dsimp only
      rw [if_neg hv, hsys₂, hR]
    · unfold Roomy
      rw [hown.caches]
      exact hroomy₂
    · rw [hagree₃.root, hRt]
      exact hagree₂.root
    · intro a ha
      obtain ⟨hchild, hparent, hcolor⟩ := hagree₃.nodes a (List.mem_cons_of_mem _ ha)
      obtain ⟨hchild', hparent', hcolor'⟩ := hagree₂.nodes a ha
      rw [hRt] at hchild hparent hcolor
      exact ⟨fun d => (hchild d).trans (hchild' d), hparent.trans hparent', hcolor.trans hcolor'⟩
    · intro a ha
      refine (hagree₃.areas a (List.mem_cons_of_mem _ ha)).trans ?_
      rw [← hR, Vma.assign_vma_of_ne (ne_of_mem_of_not_mem ha hnew), hagree₂.areas a ha]
    · refine (hagree₃.areas v List.mem_cons_self).trans ?_
      rw [← hR]
      exact Function.update_self ..

/-- **Allocating an area.** -/
theorem AreasOk.alloc (h : AreasOk vc s) {areaSize flags : ℕ} {junk : ℕ → ℕ} (hc : s.sys.created vc = some 0)
    (hsize : areaSize < 2 ^ 64) (hb : s.Below vc areaSize) :
    ∃ s', areaStep vc s (AreaOp.alloc areaSize flags junk) = some s' ∧
      AreasKept vc s (AreaOp.alloc areaSize flags junk) s' ∧ AreasOk vc s' := by
  have hr := h.ready hc
  obtain ⟨l, hperm, hw⟩ := hr.tree
  obtain ⟨place, hplace, hstart⟩ := hr.place hb hperm hw
  have hoff : kernelOffset < 2 ^ 64 := by decide
  cases place with
  | none =>
      -- there is no room
      have hcall : s.vmaAllocArea vc areaSize flags junk = some (Vma.vmaInvalidPtr, s) := by
        rw [AreaSys.vmaAllocArea, hplace]
        rfl
      refine ⟨s, ?_, ⟨fun a ha => Or.inl ⟨ha, rfl⟩, fun _ _ heq => (by cases heq), fun a ha hno => absurd ha hno,
        fun _ _ _ heq => ?_, fun _ => Untouched.refl _⟩, h⟩
      · rw [areaStep, hcall, Option.map_some]
      · obtain ⟨rfl, rfl, rfl⟩ := AreaOp.alloc.inj heq
        exact ⟨Vma.vmaInvalidPtr, hcall, Or.inl ⟨rfl, rfl⟩⟩
  | some start =>
      obtain ⟨hdvd, hlo, hhi, hfree⟩ := hstart start rfl
      have hadd : Word.add start (pageAlignUp areaSize) = start + pageAlignUp areaSize :=
        Word.add_of_lt (by omega)
      obtain ⟨v, s₁, hrun, ha⟩ := hr.assign h.ok hc start (pageAlignUp areaSize) flags junk
      have hc₁ : s₁.sys.created vc = some 0 := (congrFun ha.created vc).trans hc
      have hw₁ := (ha.agrees.perm hperm.symm).wellFormed hw
      by_cases hv : v = kpageErr
      · -- there is no structure
        have hobjs := ha.none hv
        have hcall : s.vmaAllocArea vc areaSize flags junk = some (v, s₁) := by
          rw [AreaSys.vmaAllocArea, hplace, Option.bind_eq_bind, Option.bind_some, Option.elim_some, hrun,
            Option.bind_eq_bind, Option.bind_some]
          exact if_pos (show v = Vma.vmaInvalidPtr from hv)
        refine ⟨s₁, ?_, ⟨fun a hal => Or.inl ⟨hobjs ▸ hal, ha.agrees.areas a hal⟩, fun _ _ heq => (by cases heq),
          fun a hal hno => ?_, fun _ _ _ heq => ?_, fun _ => ha.others⟩, ha.ok, fun hno => absurd hc₁ hno,
          fun _ => ⟨ha.roomy, ha.start_eq.trans hr.start_eq, ha.end_eq.trans hr.end_eq, l, hobjs ▸ hperm, hw₁⟩⟩
        · rw [areaStep, hcall, Option.map_some]
        · exact absurd (hobjs ▸ hal) hno
        · obtain ⟨rfl, rfl, rfl⟩ := AreaOp.alloc.inj heq
          exact ⟨v, hcall, Or.inl ⟨hv, hobjs⟩⟩
      · -- the new area is inserted
        obtain ⟨hnew, hobjs, hvma⟩ := ha.some hv
        rw [hadd] at hvma
        have hptr := ha.ok.object_ptr (i := vc) (o := v) (hobjs ▸ List.mem_cons_self)
        have hnl : v ∉ l := fun hm => hnew (hperm.mem_iff.1 hm)
        obtain ⟨t, l₁, l₂, hins, hl, hwf⟩ := Vma.vmaInsert_spec hw₁ hnl hptr
          (by rw [hvma]; exact hlo) (by rw [hvma]; exact Nat.le_add_right _ _) (by rw [hvma]; exact hhi)
          (by rw [hvma]; exact ⟨hdvd, (Nat.dvd_add_right hdvd).2 (Vma.dvd_pageAlignUp hsize)⟩)
          (fun a hal => by
            rw [hvma, ha.agrees.areas a (hperm.mem_iff.1 hal)]
            exact hfree (s.region.span a) (List.mem_map_of_mem hal))
        have hown := AreaSys.store_keeps ha.ok ha.roomy { s₁.region with rTree := t }
        have hagree := AreaSys.store_agrees ha.ok ha.roomy { s₁.region with rTree := t }
        have hobjs' : (s₁.store vc { s₁.region with rTree := t }).sys.objs vc = v :: s.sys.objs vc :=
          (congrFun hown.objs vc).trans hobjs
        have hperm' : (l₁ ++ v :: l₂).Perm (v :: s.sys.objs vc) :=
          List.perm_middle.trans (List.Perm.cons v (hl ▸ hperm))
        rw [hobjs] at hagree
        have hnewArea : (s₁.store vc { s₁.region with rTree := t }).region.vma v =
            ⟨start, start + pageAlignUp areaSize, flags⟩ :=
          (hagree.areas v List.mem_cons_self).trans hvma
        have hcall : s.vmaAllocArea vc areaSize flags junk =
            some (v, s₁.store vc { s₁.region with rTree := t }) := by
          rw [AreaSys.vmaAllocArea, hplace, Option.bind_eq_bind, Option.bind_some, Option.elim_some, hrun,
            Option.bind_eq_bind, Option.bind_some]
          dsimp only
          rw [if_neg (show v ≠ Vma.vmaInvalidPtr from hv), hins]
          rfl
        refine ⟨s₁.store vc { s₁.region with rTree := t }, ?_, ⟨fun a hal => Or.inl ⟨?_, ?_⟩,
          fun _ _ heq => (by cases heq), fun a hal hno => ?_, fun _ _ _ heq => ?_,
          fun _ => ha.others.trans (hown.untouched ha.ok)⟩, hown.ok, fun hno => ?_, fun _ => ⟨?_,
          ha.start_eq.trans hr.start_eq, ha.end_eq.trans hr.end_eq, l₁ ++ v :: l₂, ?_, ?_⟩⟩
        · rw [areaStep, hcall, Option.map_some]
        · rw [hobjs']
          exact List.mem_cons_of_mem _ hal
        · rw [hagree.areas a (List.mem_cons_of_mem _ hal)]
          exact ha.agrees.areas a hal
        · rw [hobjs'] at hal
          obtain rfl := (List.mem_cons.1 hal).resolve_right hno
          exact ⟨areaSize, flags, junk, start, rfl, hnewArea⟩
        · obtain ⟨rfl, rfl, rfl⟩ := AreaOp.alloc.inj heq
          exact ⟨v, hcall, Or.inr ⟨hv, hnew, hobjs', start, hnewArea⟩⟩
        · exact absurd ((congrFun hown.created vc).trans hc₁) hno
        · unfold Roomy
          rw [hown.caches]
          exact ha.roomy
        · rw [hobjs']
          exact hperm'
        · exact (hagree.perm hperm'.symm).wellFormed hwf

end Alloc

/-! ### Freeing an area -/

section Free

variable {vc : ι} {s : AreaSys ι}

/-- A region without one of its areas. -/
theorem wellFormed_erase {R : Vma.VmaRegion} {lo hi a : ℕ} {l : List ℕ} (h : Vma.WellFormed R lo hi l)
    {tree : Store ℕ} {t : RbTree ℕ} {k : ℕ} (hat : At tree [] t) (hbal : Balanced t Color.black k)
    (helems : t.elems = l.erase a) : Vma.WellFormed { R with rTree := tree } lo hi (l.erase a) := by
  have hsub : ∀ b ∈ l.erase a, b ∈ l := fun b hb => List.mem_of_mem_erase hb
  have hspan : ∀ i ∈ (l.erase a).map R.span, i ∈ l.map R.span := by
    intro i hi
    obtain ⟨b, hb, rfl⟩ := List.mem_map.1 hi
    exact List.mem_map_of_mem (hsub b hb)
  refine ⟨⟨⟨t, k, hat, hbal, helems⟩, fun b hb => h.holds.ptr b (hsub b hb)⟩, ?_, fun b hb =>
    h.aligned b (hsub b hb)⟩
  refine Gaps.ordered_of_pairwise (fun i hi => h.ordered.lo_le i (hspan i hi))
    (fun i hi => h.ordered.le i (hspan i hi)) (fun i hi => h.ordered.le_hi i (hspan i hi)) ?_
  exact h.ordered.pairwise.sublist (List.erase_sublist.map _)

/-- What `vma_search` finds in a well-formed region. -/
theorem search_cases {R : Vma.VmaRegion} {lo hi : ℕ} {l : List ℕ} (h : Vma.WellFormed R lo hi l) (addr : ℕ) :
    Vma.vmaSearch R addr = some none ∧ (∀ a ∈ l, ¬ R.Contains a addr) ∨
      ∃ a ∈ l, R.Contains a addr ∧ Vma.vmaSearch R addr = some (some a) := by
  by_cases hex : ∃ a ∈ l, R.Contains a addr
  · obtain ⟨a, ha, hc⟩ := hex
    exact Or.inr ⟨a, ha, hc, Vma.vmaSearch_spec h ha hc.1 hc.2⟩
  · have hnone : ∀ a ∈ l, ¬ R.Contains a addr := fun a ha hc => hex ⟨a, ha, hc⟩
    obtain ⟨t, k, hat, -, rfl⟩ := h.holds.tree
    refine Or.inl ⟨?_, hnone⟩
    rw [Vma.vmaSearch, show R.rTree.root = t.top from hat.path]
    exact Vma.searchLoop_none hat.tree h.holds.length_lt
      (fun a ha => h.ordered.le _ (List.mem_map_of_mem ha)) hnone

/-- **`rb_remove` of an area** whose node is removable. -/
theorem rbRemove_area {R : Vma.VmaRegion} {lo hi a : ℕ} {l : List ℕ} (h : Vma.WellFormed R lo hi l)
    (ha : a ∈ l) (hrem : ∀ ctx c u v, At R.rTree ctx (node c u a v) → Removable ctx c u a v) :
    ∃ tree, rbRemove R.rTree a = some (a, tree) ∧
      Vma.WellFormed { R with rTree := tree } lo hi (l.erase a) := by
  obtain ⟨t, k, hat, hbal, rfl⟩ := h.holds.tree
  obtain ⟨ctx, c, u, v, hplug⟩ := exists_plug [] ha
  change t = _ at hplug
  have hlen := h.holds.length_lt
  rw [hplug] at hat hbal hlen
  have hat' := at_plug.2 hat
  obtain ⟨tree, t', hrun, hat₁, helems, k', hbal'⟩ :=
    (removeLoop_iff (n := addrSpace - 2) hat' hbal hlen.le).2 (hrem ctx c u v hat')
  rw [← elems_erase (hat.nodup : (Ctx.plug ctx (node c u a v)).elems.Nodup), ← hplug] at helems
  exact ⟨tree, rbRemove_eq_some.2 hrun, wellFormed_erase h hat₁ hbal' helems⟩

variable [DecidableEq ι]

/-- **Freeing an area.** -/
theorem AreasOk.free (h : AreasOk vc s) {addr : ℕ} {junk : ℕ → ℕ}
    (hp : AreaPromised vc s (AreaOp.free addr junk)) :
    ∃ s', areaStep vc s (AreaOp.free addr junk) = some s' ∧
      AreasKept vc s (AreaOp.free addr junk) s' ∧ AreasOk vc s' := by
  obtain ⟨hc, hrem⟩ := hp
  have hr := h.ready hc
  obtain ⟨l, hperm, hw⟩ := hr.tree
  rcases search_cases hw addr with ⟨hsearch, hnone⟩ | ⟨v, hvl, hcontains, hsearch⟩
  · -- no area has this address
    refine ⟨s, ?_, ⟨fun a ha => Or.inl ⟨ha, rfl⟩, fun _ _ heq a ha hca => ?_, fun a ha hno => absurd ha hno,
      fun _ _ _ heq => (by cases heq), fun _ => Untouched.refl _⟩, h⟩
    · rw [areaStep, AreaSys.vmaFreeArea, hsearch]
      rfl
    · obtain ⟨rfl, rfl⟩ := AreaOp.free.inj heq
      exact absurd hca (hnone a (hperm.mem_iff.2 ha))
  · have hv := hperm.mem_iff.1 hvl
    obtain ⟨tree, hrun, hwt⟩ := rbRemove_area hw hvl (hrem v hv hcontains)
    generalize hR : ({ s.region with rTree := tree } : Vma.VmaRegion) = R at hwt
    have hRv : R.vma = s.region.vma := by
      rw [← hR]
    have hown := AreaSys.store_keeps h.ok hr.roomy R
    have hagree := AreaSys.store_agrees h.ok hr.roomy R
    generalize hs₁ : s.store vc R = s₁ at hown hagree
    have hobjs₁ : s₁.sys.objs vc = s.sys.objs vc := congrFun hown.objs vc
    have hc₁ : s₁.sys.created vc = some 0 := (congrFun hown.created vc).trans hc
    have hroomy₁ : Roomy s₁.sys vc := by
      unfold Roomy
      rw [hown.caches]
      exact hr.roomy
    -- the structure goes back to the cache
    have hpr : Promised s₁.sys (Op.free vc v junk) := by
      change v ∈ s₁.sys.objs vc
      rw [hobjs₁]
      exact hv
    obtain ⟨sys, hfree, hok, hint⟩ := hown.ok.free hpr
    have hkeep : sys.created = s₁.sys.created ∧ sys.objs vc = (s.sys.objs vc).erase v := by
      obtain ⟨m, -, rfl⟩ := Option.map_eq_some_iff.1 hfree
      refine ⟨rfl, ?_⟩
      dsimp only
      rw [Function.update_self, hobjs₁]
    have hnd := h.ok.objs_nodup hc
    have hwords : ∀ a ∈ (s.sys.objs vc).erase v, ∀ f : VmaField,
        sys.m.words (a + f.offset) = s₁.sys.m.words (a + f.offset) := by
      intro a ha f
      have hin : a ∈ s₁.sys.objs vc := hobjs₁ ▸ List.mem_of_mem_erase ha
      have hstay : a ∈ sys.objs vc := hkeep.2 ▸ ha
      refine (hint.words (Piece.object vc a) hin hstay _ (covers_field hroomy₁ a f)).2.resolve_right ?_
      rintro ⟨w, heq, -⟩
      cases heq
    have hagree' : Agrees s₁.region (AreaSys.region { s₁ with sys := sys }) ((s.sys.objs vc).erase v) :=
      agrees_of_words (by rfl) hwords
    have hareas : ∀ a ∈ (s.sys.objs vc).erase v,
        (AreaSys.region { s₁ with sys := sys }).vma a = s.region.vma a := by
      intro a ha
      rw [hagree'.areas a ha, hagree.areas a (List.mem_of_mem_erase ha), hRv]
    have hperm' : (l.erase v).Perm ((s.sys.objs vc).erase v) := hperm.erase v
    have hw₁ : Vma.WellFormed s₁.region kernelVmmap kernelOffset (l.erase v) := by
      refine Agrees.wellFormed (Agrees.perm ?_ hperm'.symm) hwt
      exact ⟨hagree.root, hagree.nodes.sub fun a ha => List.mem_of_mem_erase ha,
        fun a ha => hagree.areas a (List.mem_of_mem_erase ha)⟩
    refine ⟨{ s₁ with sys := sys }, ?_, ⟨fun a ha => ?_, fun _ _ heq a ha hca => ?_, fun a ha hno => ?_,
      fun _ _ _ heq => (by cases heq), fun _ => ?_⟩, hok, fun hno => ?_,
      fun _ => ⟨?_, ?_, ?_, l.erase v, ?_, ?_⟩⟩
    · rw [areaStep, AreaSys.vmaFreeArea, hsearch, Option.bind_eq_bind, Option.bind_some, Option.elim_some, hrun,
        Option.bind_eq_bind, Option.bind_some]
      dsimp only
      rw [hR, hs₁, hfree]
      rfl
    · by_cases hav : a = v
      · exact Or.inr ⟨addr, junk, rfl, hav ▸ hcontains⟩
      · have hmem : a ∈ (s.sys.objs vc).erase v := (List.mem_erase_of_ne hav).2 ha
        refine Or.inl ⟨?_, hareas a hmem⟩
        dsimp only
        rw [hkeep.2]
        exact hmem
    · obtain ⟨rfl, rfl⟩ := AreaOp.free.inj heq
      have hfound := Vma.vmaSearch_spec hw (hperm.mem_iff.2 ha) hca.1 hca.2
      obtain rfl : v = a := Option.some_inj.1 (Option.some_inj.1 (hsearch.symm.trans hfound))
      dsimp only
      rw [hkeep.2]
      exact hnd.not_mem_erase
    · dsimp only at ha
      rw [hkeep.2] at ha
      exact absurd (List.mem_of_mem_erase ha) hno
    · refine (hown.untouched h.ok).trans (hint.untouched (fun u ho hfr => ho ?_) fun _ _ _ heq => by cases heq)
      rw [show u = Piece.object vc v from hfr]
      rfl
    · exact absurd ((congrFun hkeep.1 vc).trans hc₁) hno
    · exact hroomy₁.trans (hint.sizes vc hc₁).ge
    · rw [← hs₁]
      exact hr.start_eq
    · rw [← hs₁]
      exact hr.end_eq
    · dsimp only
      rw [hkeep.2]
      exact hperm'
    · exact (hagree'.perm hperm'.symm).wellFormed hw₁

end Free

/-! ### A run -/

section Trace

/-- The node is a red leaf, or it has one child. -/
def Simple (s : Store ℕ) (a : ℕ) : Prop :=
  s.child Dir.left a = none ∧ s.child Dir.right a = none ∧ s.color a = Color.red ∨
    (s.child Dir.left a).isSome ≠ (s.child Dir.right a).isSome

instance (s : Store ℕ) (a : ℕ) : Decidable (Simple s a) := inferInstanceAs (Decidable (_ ∨ _))

/-- `rb_remove` removes such a node, wherever it is. -/
theorem Simple.removable {s : Store ℕ} {ctx : Ctx ℕ} {c : Color} {l r : RbTree ℕ} {a : ℕ} (h : Simple s a)
    (hat : At s ctx (node c l a r)) : Removable ctx c l a r := by
  obtain ⟨-, hc, hl, hr, -⟩ := hat.tree
  cases l with
  | nil =>
      cases r with
      | nil =>
          rcases h with ⟨-, -, hred⟩ | hone
          · exact Or.inl (hc.symm.trans hred)
          · rw [hl, hr] at hone
            exact absurd rfl hone
      | node => trivial
  | node =>
      cases r with
      | nil => trivial
      | node =>
          rcases h with ⟨hnone, -⟩ | hone
          · rw [hl] at hnone
            cases hnone
          · rw [hl, hr] at hone
            exact absurd rfl hone

instance [DecidableEq ι] (vc : ι) : ∀ o, Decidable (Foreign vc o)
  | Op.donate .. => isTrue trivial
  | Op.allocPages .. => isTrue trivial
  | Op.freePages .. => isTrue trivial
  | Op.create .. => inferInstanceAs (Decidable (_ ≠ _))
  | Op.alloc .. => inferInstanceAs (Decidable (_ ≠ _))
  | Op.free .. => inferInstanceAs (Decidable (_ ≠ _))
  | Op.write (Piece.block _) .. => isTrue trivial
  | Op.write (Piece.object ..) .. => inferInstanceAs (Decidable (_ ≠ _))

instance (s : AreaSys ι) (vc : ι) (areaSize : ℕ) : Decidable (s.Below vc areaSize) :=
  inferInstanceAs (Decidable (_ ∨ _))

/-- The promises, with a condition on the areas that are freed that can be evaluated. -/
def AreaSimple (vc : ι) (s : AreaSys ι) : AreaOp ι → Prop
  | AreaOp.free addr _ => s.sys.created vc = some 0 ∧
      ∀ a ∈ s.sys.objs vc, s.region.Contains a addr → Simple s.region.rTree a
  | o => AreaPromised vc s o

instance [DecidableEq ι] (vc : ι) (s : AreaSys ι) : ∀ o, Decidable (AreaSimple vc s o)
  | AreaOp.other _ => inferInstanceAs (Decidable (_ ∧ _))
  | AreaOp.init _ => inferInstanceAs (Decidable (_ = _))
  | AreaOp.alloc .. => inferInstanceAs (Decidable (_ ∧ _ ∧ _))
  | AreaOp.free .. => inferInstanceAs (Decidable (_ ∧ _))

theorem AreaSimple.promised {vc : ι} {s : AreaSys ι} {o : AreaOp ι} (h : AreaSimple vc s o) : AreaPromised vc s o := by
  cases o with
  | free addr junk => exact ⟨h.1, fun a ha hc ctx c l r hat => (h.2 a ha hc).removable hat⟩
  | _ => exact h

/-- Two areas, between which the page allocator is called and a page is written; the second one is freed, its
structure is used again, and the first one is freed. -/
def areaOps : List (AreaOp Bool) :=
  let page := 0xFFFF800000114000
  let junk := fun _ => 7
  [AreaOp.other (Op.donate (physToVirtPm 0x107000) 0x10000 junk), AreaOp.init junk,
    AreaOp.alloc 0x1000 3 junk, AreaOp.other (Op.allocPages 0 junk), AreaOp.alloc 0x1801 3 junk,
    AreaOp.other (Op.write (Piece.block (page, 0)) page 9), AreaOp.free (kernelVmmap + 0x1800) junk,
    AreaOp.alloc 0x800 1 junk, AreaOp.free kernelVmmap junk]

theorem areaOps_along : Run.Along (areaStep true) (AreaPromised true) AreaSys.init areaOps := by
  refine Run.Along.mono (fun _ _ h => AreaSimple.promised h) ?_
  decide +kernel

end Trace

/-! ### Runs -/

section Runs

variable {vc : ι} {s : AreaSys ι}

/-- Before any operation. -/
theorem AreasOk.start : AreasOk vc AreaSys.init where
  ok := Ok.init
  idle _ := rfl
  ready h := by cases h

variable [DecidableEq ι]

/-- **What an operation does.** -/
theorem AreasOk.step (h : AreasOk vc s) {o : AreaOp ι} (hp : AreaPromised vc s o) :
    ∃ s', areaStep vc s o = some s' ∧ AreasKept vc s o s' ∧ AreasOk vc s' := by
  cases o with
  | other o => exact h.other hp.1 hp.2
  | init junk => exact h.init hp
  | alloc areaSize flags junk => exact h.alloc hp.1 hp.2.1 hp.2.2
  | free addr junk => exact h.free hp

/-- **The areas in every run**: no call faults, and in every state the tree is well formed, its structures
are the objects of `vma_cache` that are in use, and `vma_search` finds each area at its addresses, which are
in no other one and below the kernel image. -/
theorem run_areas {os : List (AreaOp ι)} (hos : Run.Along (areaStep vc) (AreaPromised vc) AreaSys.init os) :
    Run.Every (areaStep vc) (fun _ _ s' => AreasSound vc s') AreaSys.init os := by
  refine Run.every_of_along (I := AreasOk vc) (fun s o h hp => ?_) AreasOk.start hos
  obtain ⟨s', hs', -, h'⟩ := h.step hp
  exact ⟨s', hs', h'.sound, h'⟩

theorem run_areas_trace : Run.Every (areaStep true) (fun _ _ s' => AreasSound true s') AreaSys.init areaOps :=
  run_areas areaOps_along

/-- **What a step keeps**, in every run: an area stays where it is until it is freed by one of its addresses,
whatever the other callers of the allocators do; `vma_alloc_area` returns the one new area, or the last address
and there is none; and the functions of `vma.c` leave what the other callers hold as it is. -/
theorem run_areas_kept {os : List (AreaOp ι)}
    (hos : Run.Along (areaStep vc) (AreaPromised vc) AreaSys.init os) :
    Run.Every (areaStep vc) (AreasKept vc) AreaSys.init os := by
  refine Run.every_of_along (I := AreasOk vc) (fun s o h hp => ?_) AreasOk.start hos
  obtain ⟨s', hs', hkept, h'⟩ := h.step hp
  exact ⟨s', hs', hkept, h'⟩

theorem run_areas_kept_trace : Run.Every (areaStep true) (AreasKept true) AreaSys.init areaOps :=
  run_areas_kept areaOps_along

end Runs

end Mm

end SyncKernel
