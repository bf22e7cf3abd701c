/-
**The counter of empty slabs.**

`empty_slabs` is meant to be the length of the empty list.  The code adjusts it in five places, and
three of them miss: `kslab_cache_create` counts its slab before it has one, `kslab_new_slab` does
not count the slab it adds, and `kslab_free` counts an emptied slab twice.  This module determines
exactly which runs keep the counter right.

Main definitions:

* `Slab.CountsOk` — the property of a step: the counter is the length of the empty list, did not
  wrap, and is within its bound after `kslab_free`;
* `Slab.Counted` — the condition of a step under which the code meets it.

Main results:

* `Slab.chooseGeometry_isSome` — with an alignment and a size the geometry is well defined;
* `Slab.emptySlabs_iff` — **a run keeps the counter right exactly when no step of it is one of the
  three that miss**.
-/

import SyncKernel.Slab.System

set_option relaxedAutoImplicit false
set_option autoImplicit false

namespace SyncKernel

namespace Slab

/-! ### Creation does not fault -/

theorem exists_ite_some {α : Type*} {p : Prop} [Decidable p] {x y : Option α}
    (hx : ∃ a, x = some a) (hy : ∃ a, y = some a) : ∃ a, (if p then x else y) = some a := by
  by_cases hp : p
  · rwa [if_pos hp]
  · rwa [if_neg hp]

theorem tryOrder_isSome {objsize alignment : ℕ} (hobj : 0 < objsize) (ha : 0 < alignment) (c : Ctx)
    (i : ℕ) : ∃ c', tryOrder objsize alignment c i = some c' := by
  have ha' : alignment ≠ 0 := by omega
  have hobj' : objsize ≠ 0 := by omega
  simp only [tryOrder, if_neg ha', if_neg hobj']
  repeat' apply exists_ite_some
  all_goals exact ⟨_, rfl⟩

/-- The geometry is well defined when neither the size nor the alignment is zero. -/
theorem chooseGeometry_isSome {objsize alignment : ℕ} (hobj : 0 < objsize) (ha : 0 < alignment) :
    ∃ c, chooseGeometry objsize alignment = some c := by
  unfold chooseGeometry
  generalize (⟨0, 0, 0, noWaste⟩ : Ctx) = c
  generalize List.range 4 = is
  induction is generalizing c with
  | nil => exact ⟨c, rfl⟩
  | cons i is ih =>
      obtain ⟨c', hc'⟩ := tryOrder_isSome hobj ha c i
      rw [List.foldlM_cons, hc', Option.bind_eq_bind, Option.bind_some]
      exact ih c'

/-! ### An allocation from a zeroed cache -/

/-- Without objects in a slab and without a size, the loop of `kslab_new_slab` writes one word over
and over. -/
theorem linkSlots_zero {b : ℕ} (hb : b < 2 ^ 64) :
    ∀ (n : ℕ) (mem : Loc → ℕ), ∃ mem', linkSlots 0 n b mem = (b, mem') ∧
      ∀ l, l ≠ Loc.addr b → mem' l = mem l := by
  intro n
  induction n with
  | zero => intro mem; exact ⟨mem, rfl, fun _ _ => rfl⟩
  | succ n ih =>
      intro mem
      have hadd : Word.add b 0 = b := Word.add_of_lt hb
      obtain ⟨mem', hrun, hframe⟩ := ih (Function.update mem (Loc.addr b) b)
      refine ⟨mem', by rw [linkSlots, hadd, hrun], fun l hl => ?_⟩
      rw [hframe l hl, Function.update_of_ne hl]

/-- The slab that `kslab_new_slab` makes for a zeroed cache. -/
theorem kslabNewSlab_zeroed {st : State} (hc : st.cache = KslabCache.zeroed) (hno : NoSlabs st)
    {b : ℕ} (hb : Fresh st (some b)) :
    ∃ mem', kslabNewSlab st (some b) = some (b, { st with mem := mem', owned := b :: st.owned }) ∧
      ListsOk mem' [] [] [b] ∧ mem' (freelistOf b) = b := by
  obtain ⟨hpos, -, hle, -⟩ := hb b rfl
  have h64 : b + 4096 ≤ 2 ^ 64 := by
    rw [hc] at hle
    exact hle
  have hadd : Word.add b 0 = b := Word.add_of_lt (by omega)
  have hsize : buddyOrderToVal 0 = 4096 := by decide
  have hz : zeroBlock b 4096 st.mem (nextOf b) = 0 := zeroBlock_inside _ (by omega) (by omega)
  set mem₀ := zeroBlock b 4096 st.mem with hmem₀
  have hempty : mem₀ Loc.listEmpty = 0 := hno.empty
  have hfind : findLink nextOf 0 mem₀ 0 addrSpace Loc.listEmpty = some Loc.listEmpty :=
    findLink_end (l := []) hempty (by simp) (by decide)
  have hval : st.cache.order = 0 ∧ st.cache.reserved = 0 ∧ st.cache.slabObjsPer = 0 ∧
      st.cache.objSize = 0 := by
    rw [hc]
    exact ⟨rfl, rfl, rfl, rfl⟩
  obtain ⟨hord, hres, hobjs, hsz⟩ := hval
  obtain ⟨mem₁, hlink, hframe⟩ := linkSlots_zero (b := b) (by omega) (Word.dec32 0)
    (Function.update (Function.update (Function.update (Function.update mem₀ Loc.listEmpty b)
      (poolOf b) b) (freelistOf b) b) (freeCountOf b) 0)
  have hout : ∀ l, l ≠ Loc.addr b → Function.update mem₁ (Loc.addr b) 0 l =
      Function.update (Function.update (Function.update (Function.update mem₀ Loc.listEmpty b)
        (poolOf b) b) (freelistOf b) b) (freeCountOf b) 0 l := fun l hl => by
    rw [Function.update_of_ne hl, hframe l hl]
  refine ⟨Function.update mem₁ (Loc.addr b) 0, ?_, ⟨?_, ?_, ?_, by omega, ?_⟩, ?_⟩
  · unfold kslabNewSlab
    rw [hord, kbudAlloc_some (by decide)]
    simp only [if_neg hb.ne_kpageErr, hsize, ← hmem₀, hfind, Option.bind_eq_bind, Option.bind_some,
      hres, hadd, hobjs, hsz, hlink]
  · rw [chain_nil, hout _ (by simp)]
    exact hno.full
  · rw [chain_nil, hout _ (by simp)]
    exact hno.part
  · rw [hout _ (by simp)]
    rfl
  · rw [chain_nil, hout _ (by simp [nextOf])]
    simpa [nextOf, freeCountOf, freelistOf, poolOf, Function.update_apply] using hz
  · rw [hout _ (by simp [freelistOf])]
    simp [freelistOf, freeCountOf]

/-- The first object of the only slab, when its free list starts at its base. -/
theorem kslabEmptyAlloc_base (st : State) {b : ℕ} (hb : b ≠ 0) (hlists : ListsOk st.mem [] [] [b])
    (hfl : st.mem (freelistOf b) = b) :
    ∃ st', kslabEmptyAlloc st = some (b, st') ∧ st'.cache = (decEmptySlabs st).cache ∧
      st'.mem Loc.listEmpty = 0 := by
  obtain ⟨mem₂, hrel, hstart, -, -, hframe⟩ := kslabRelinkNode_spec st []
    (Or.inr (Or.inr rfl)) (Or.inr (Or.inl rfl)) (Or.inl rfl) (by decide) (by decide)
    (by decide) hlists.empty hlists.part hlists.full (by simp) (by simp [addrSpace])
  have hfl₂ : mem₂ (freelistOf b) = b := by
    rw [hframe _ (fun l' hl' => ?_) fun a ha => ?_, hfl]
    · rcases hl' with rfl | rfl | rfl <;> simp [freelistOf]
    · simp only [List.append_nil, List.nil_append, List.mem_singleton] at ha
      subst ha
      simp [freelistOf, nextOf]
  have htake := takeObject_mem (decEmptySlabs { st with mem := mem₂ }) hfl₂ hb
  refine ⟨decFreeCount { decEmptySlabs { st with mem := mem₂ } with
    mem := Function.update mem₂ (freelistOf b) (mem₂ (Loc.addr b)) } b, ?_, ?_, hstart⟩
  · unfold kslabEmptyAlloc
    rw [hlists.empty.1]
    simp only [if_neg hb, hrel, Option.bind_eq_bind, Option.bind_some]
    rw [htake]
    rfl
  · exact decEmptySlabs_cache rfl

/-- Allocating from a zeroed cache takes the counter below zero. -/
theorem kslabAlloc_zeroed {st : State} (hc : st.cache = KslabCache.zeroed) (hno : NoSlabs st)
    {b : ℕ} (hb : Fresh st (some b)) :
    ∃ st', kslabAlloc st (some b) = some (b, st') ∧ st'.cache.emptySlabs = 2 ^ 32 - 1 ∧
      st'.mem Loc.listEmpty = 0 := by
  obtain ⟨hpos, -, -, -⟩ := hb b rfl
  obtain ⟨mem₁, hnew, hlists, hfl⟩ := kslabNewSlab_zeroed hc hno hb
  obtain ⟨st', hemp, hcache, hhead⟩ := kslabEmptyAlloc_base
    { st with mem := mem₁, owned := b :: st.owned } (by omega) hlists hfl
  refine ⟨st', ?_, ?_, hhead⟩
  · have h₁ : kslabPartialAlloc st = some (kpageErr, st) := if_pos hno.part
    have h₂ : kslabEmptyAlloc st = some (kpageErr, st) := if_pos hno.empty
    have h₃ : kslabNewAlloc (some b) st = some (b, st') := by
      rw [kslabNewAlloc, hnew, Option.bind_eq_bind, Option.bind_some]
      exact (if_neg hb.ne_kpageErr).trans hemp
    simp only [kslabAlloc, firstAlloc, h₁, h₂, h₃, Option.bind_eq_bind, Option.bind_some, ne_eq,
      not_true_eq_false, if_false, hb.ne_kpageErr, not_false_eq_true, if_true]
  · rw [hcache]
    change Word.dec32 st.cache.emptySlabs = 2 ^ 32 - 1
    rw [hc]
    rfl

/-! ### The exact condition -/

/-- The slab that `kslab_free` finds for an object. -/
def slabBase (c : KslabCache) (obj : ℕ) : ℕ :=
  obj &&& Word.not (Word.sub (buddyOrderToVal c.order) 1)

/-- The runs in question: the cache is created while it is zeroed, and is not destroyed. -/
def CounterRun (s : Sys) : Op → Prop
  | Op.create objsize alignment flags blk =>
      s.st.cache = KslabCache.zeroed ∧ Promised s (Op.create objsize alignment flags blk)
  | Op.destroy _ => False
  | o => Promised s o

instance (s : Sys) : ∀ o, Decidable (CounterRun s o)
  | Op.create .. => inferInstanceAs (Decidable (_ ∧ _))
  | Op.destroy _ => isFalse id
  | Op.alloc blk => inferInstanceAs (Decidable (Promised s (Op.alloc blk)))
  | Op.free obj junk => inferInstanceAs (Decidable (Promised s (Op.free obj junk)))
  | Op.write a v => inferInstanceAs (Decidable (Promised s (Op.write a v)))

/-- The counter after a step is the length of the empty list; the step did not take it below zero,
and `kslab_free` leaves it within its bound. -/
structure CountsOk (s : Sys) (o : Op) (s' : Sys) : Prop where
  exact : ∃ l, Chain nextOf 0 s'.st.mem Loc.listEmpty l ∧ s'.st.cache.emptySlabs = l.length
  noWrap : s'.st.cache.emptySlabs ≤ s.st.cache.emptySlabs + 2
  bound : ∀ obj junk, o = Op.free obj junk → s'.st.cache.emptySlabs ≤ s'.st.cache.maxEmptySlabs

/-- The steps that keep the counter right: a creation that does not fail for want of a block, an
allocation that adds no slab, and a free that does not empty a slab. -/
def Counted (s : Sys) : Op → Prop
  | Op.create objsize alignment _ blk =>
      blk = none → ∀ c ∈ chooseGeometry objsize alignment, c.waste = noWaste
  | Op.alloc blk => blk = none ∨ s.st.mem Loc.listPartial ≠ 0 ∨ s.st.mem Loc.listEmpty ≠ 0
  | Op.free obj _ =>
      s.st.mem (freeCountOf (slabBase s.st.cache obj)) + 1 ≠ s.st.cache.slabObjsPer
  | _ => True

instance (s : Sys) : ∀ o, Decidable (Counted s o)
  | Op.create objsize alignment _ blk =>
      inferInstanceAs (Decidable (blk = none → ∀ c ∈ chooseGeometry objsize alignment, _))
  | Op.alloc _ => inferInstanceAs (Decidable (_ ∨ _ ∨ _))
  | Op.free _ _ => inferInstanceAs (Decidable (_ ≠ _))
  | Op.write _ _ => isTrue trivial
  | Op.destroy _ => isTrue trivial

/-- A cache that is zeroed still, or well formed and counted. -/
def CounterInv (s : Sys) : Prop :=
  (s.st.cache = KslabCache.zeroed ∧ NoSlabs s.st ∧ s.st.owned = [] ∧ s.live = []) ∨
    ∃ sh, Ok s sh ∧ s.st.cache.emptySlabs = sh.empty.length ∧ s.st.cache.emptySlabs ≤ 4 ∧
      s.st.cache.maxEmptySlabs = 4

theorem Ok.cache_ne_zeroed {s : Sys} {sh : Shape} (h : Ok s sh) :
    s.st.cache ≠ KslabCache.zeroed := by
  intro hz
  have hobjs := h.inv.geom.objs_ge
  change 8 ≤ s.st.cache.slabObjsPer at hobjs
  rw [hz] at hobjs
  exact absurd hobjs (by decide)

/-- A promised creation finds a geometry, with blocks that are fresh for it. -/
theorem Promised.geometry {s : Sys} {objsize alignment flags : ℕ} {blk : Option ℕ}
    (h : Promised s (Op.create objsize alignment flags blk)) :
    ∃ c, chooseGeometry objsize alignment = some c ∧ 8 ≤ objsize ∧ alignment < 2 ^ 64 ∧
      Fresh (setGeometry s.st c objsize alignment flags) blk := by
  obtain ⟨hobj, ha, ha', hb⟩ := h
  obtain ⟨c, hc⟩ := chooseGeometry_isSome (Nat.lt_of_lt_of_le (by decide) hobj) ha
  exact ⟨c, hc, hobj, ha', hb c hc⟩

/-- The lists of a cache that is zeroed still are right. -/
theorem CountsOk.zeroed {s s' : Sys} {o : Op} (hz : s'.st.cache = KslabCache.zeroed) (hno : NoSlabs s'.st)
    (hfree : ∀ obj junk, o ≠ Op.free obj junk) : CountsOk s o s' := by
  have hzero : s'.st.cache.emptySlabs = 0 := by rw [hz]; rfl
  exact ⟨⟨[], hno.empty, hzero⟩, hzero ▸ Nat.zero_le _, fun obj junk he => absurd he (hfree obj junk)⟩

/-- Allocating from a zeroed cache fails without a block. -/
theorem kslabAlloc_zeroed_none {st : State} (hno : NoSlabs st) : kslabAlloc st none = some (kpageErr, st) := by
  have h₁ : kslabPartialAlloc st = some (kpageErr, st) := if_pos hno.part
  have h₂ : kslabEmptyAlloc st = some (kpageErr, st) := if_pos hno.empty
  have h₃ : kslabNewAlloc none st = some (kpageErr, st) := by
    rw [kslabNewAlloc, kslabNewSlab_none, Option.bind_eq_bind, Option.bind_some]
    exact if_pos rfl
  simp only [kslabAlloc, firstAlloc, h₁, h₂, h₃, Option.bind_eq_bind, Option.bind_some,
    ne_eq, not_true_eq_false, if_false]

namespace CounterInv

variable {s s' : Sys}

/-- A zeroed cache has no slabs. -/
theorem zeroed (h : CounterInv s) (hz : s.st.cache = KslabCache.zeroed) :
    NoSlabs s.st ∧ s.st.owned = [] ∧ s.live = [] := by
  rcases h with ⟨-, hrest⟩ | ⟨sh, hok, -⟩
  · exact hrest
  · exact absurd hz hok.cache_ne_zeroed

/-- An object in use is one of a cache that is well formed. -/
theorem of_live (h : CounterInv s) {obj : ℕ} (hobj : obj ∈ s.live) :
    ∃ sh, Ok s sh ∧ s.st.cache.emptySlabs = sh.empty.length ∧ s.st.cache.emptySlabs ≤ 4 ∧
      s.st.cache.maxEmptySlabs = 4 := by
  rcases h with ⟨-, -, -, hlive⟩ | h
  · rw [hlive] at hobj
    exact absurd hobj List.not_mem_nil
  · exact h

/-! A step that meets the condition keeps the counter right. -/

theorem good_create (h : CounterInv s) {objsize alignment flags : ℕ} {blk : Option ℕ}
    (ho : CounterRun s (Op.create objsize alignment flags blk))
    (hc : Counted s (Op.create objsize alignment flags blk)) :
    ∃ s', step s (Op.create objsize alignment flags blk) = some s' ∧
      CountsOk s (Op.create objsize alignment flags blk) s' ∧ CounterInv s' := by
  obtain ⟨hz, hprom⟩ := ho
  obtain ⟨c, hgeom, hobj, ha, hb⟩ := hprom.geometry
  obtain ⟨hno, howned, hlive⟩ := h.zeroed hz
  rcases kslabCacheCreate_cases hno howned hobj ha hgeom hb with ⟨-, hrun⟩ | ⟨hw, hbn, -⟩ |
    ⟨b, st', sh, -, -, hrun, hinv, hcache, -, -, -, -, hempty⟩
  · exact ⟨⟨s.st, s.live, some 1⟩, by rw [step, hrun, Option.map_some],
      CountsOk.zeroed hz hno (fun _ _ he => by cases he), Or.inl ⟨hz, hno, howned, hlive⟩⟩
  · exact absurd (hc hbn c hgeom) hw
  · have hcount : st'.cache.emptySlabs = 1 ∧ st'.cache.maxEmptySlabs = 4 := by
      rw [hcache]
      simp [setGeometry, hz, KslabCache.zeroed]
    refine ⟨⟨st', s.live, some 0⟩, by rw [step, hrun, Option.map_some],
      ⟨⟨[b], hempty ▸ hinv.lists.empty, hcount.1⟩, ?_, fun _ _ he => by cases he⟩,
      Or.inr ⟨sh, ⟨hinv, by simp [hlive], by simp [hlive]⟩, ?_, ?_, hcount.2⟩⟩
    · change st'.cache.emptySlabs ≤ _
      omega
    · rw [hempty]
      exact hcount.1
    · change st'.cache.emptySlabs ≤ 4
      omega

theorem good_write (h : CounterInv s) {a v : ℕ} (ho : CounterRun s (Op.write a v)) :
    ∃ s', step s (Op.write a v) = some s' ∧ CountsOk s (Op.write a v) s' ∧ CounterInv s' := by
  refine ⟨_, rfl, ?_⟩
  rcases h with ⟨hz, hno, howned, hlive⟩ | ⟨sh, hok, hcnt, hle, hmax⟩
  · have hno' : NoSlabs (s.st.store (Loc.addr a) v) :=
      ListsOk.congr hno (fun l hl => Function.update_of_ne
        (by rcases hl with rfl | rfl | rfl <;> simp) _ _) (by simp)
    exact ⟨CountsOk.zeroed hz hno' (fun _ _ he => by cases he), Or.inl ⟨hz, hno', howned, hlive⟩⟩
  · have hok' := hok.write (v := v) ho
    exact ⟨⟨⟨sh.empty, hok'.inv.lists.empty, hcnt⟩, Nat.le_add_right _ _,
      fun _ _ he => by cases he⟩, Or.inr ⟨sh, hok', hcnt, hle, hmax⟩⟩

theorem good_alloc (h : CounterInv s) {blk : Option ℕ} (ho : CounterRun s (Op.alloc blk))
    (hc : Counted s (Op.alloc blk)) :
    ∃ s', step s (Op.alloc blk) = some s' ∧ CountsOk s (Op.alloc blk) s' ∧ CounterInv s' := by
  rcases h with ⟨hz, hno, howned, hlive⟩ | ⟨sh, hok, hcnt, hle, hmax⟩
  · obtain rfl : blk = none := by
      rcases hc with hc | hc | hc
      · exact hc
      · exact absurd hno.part hc
      · exact absurd hno.empty hc
    exact ⟨s, by rw [step, kslabAlloc_zeroed_none hno, Option.map_some, if_pos rfl],
      CountsOk.zeroed hz hno (fun _ _ he => by cases he), Or.inl ⟨hz, hno, howned, hlive⟩⟩
  · obtain ⟨s', sh', hrun, hok', -, -, -, hcases⟩ := hok.alloc blk ho
    have hcnt' : s'.st.cache.emptySlabs = sh'.empty.length ∧
        s'.st.cache.emptySlabs ≤ s.st.cache.emptySlabs ∧
          s'.st.cache.maxEmptySlabs = s.st.cache.maxEmptySlabs := by
      rcases hcases with ⟨-, hcache, he⟩ | ⟨-, ⟨t, he⟩, hcache⟩ | ⟨-, -, -, rfl, rfl⟩ |
        ⟨hp, he, hb, -⟩
      · rw [hcache, he]
        exact ⟨hcnt, le_rfl, rfl⟩
      · rw [he, List.length_cons] at hcnt
        rw [hcache]
        simp [decEmptySlabs, hcnt]
      · exact ⟨hcnt, le_rfl, rfl⟩
      · rcases hc with hc | hc | hc
        · exact absurd hc hb
        · exact absurd (hok.inv.lists.part.null_iff.2 hp) hc
        · exact absurd (hok.inv.lists.empty.null_iff.2 he) hc
    exact ⟨s', hrun, ⟨⟨sh'.empty, hok'.inv.lists.empty, hcnt'.1⟩, by omega,
      fun _ _ he => by cases he⟩, Or.inr ⟨sh', hok', hcnt'.1, by omega, by omega⟩⟩

theorem good_free (h : CounterInv s) {obj : ℕ} {junk : ℕ → ℕ} (ho : CounterRun s (Op.free obj junk))
    (hc : Counted s (Op.free obj junk)) :
    ∃ s', step s (Op.free obj junk) = some s' ∧ CountsOk s (Op.free obj junk) s' ∧ CounterInv s' := by
  obtain ⟨sh, hok, hcnt, hle, hmax⟩ := h.of_live ho
  obtain ⟨t, s', sh', ht, hslot, hrun, hok', -, hcases⟩ := hok.free ho junk
  have hmask : slabBase s.st.cache obj = t :=
    slot_mask hok.inv.geom (hok.inv.blocks.dvd t ht) (hok.inv.blocks.le t ht) hslot
  rcases hcases with ⟨-, hcache, -, he⟩ | ⟨hlast, -⟩
  · have hcnt' : s'.st.cache.emptySlabs = sh'.empty.length := by rw [hcache, he, hcnt]
    refine ⟨s', hrun, ⟨⟨sh'.empty, hok'.inv.lists.empty, hcnt'⟩, ?_, fun _ _ _ => ?_⟩,
      Or.inr ⟨sh', hok', hcnt', ?_, ?_⟩⟩ <;> rw [hcache] <;> omega
  · refine absurd hlast ?_
    rw [← hmask]
    exact hc

theorem good (h : CounterInv s) {o : Op} (ho : CounterRun s o) (hc : Counted s o) :
    ∃ s', step s o = some s' ∧ CountsOk s o s' ∧ CounterInv s' := by
  cases o with
  | destroy junk => exact absurd ho id
  | create objsize alignment flags blk => exact h.good_create ho hc
  | write a v => exact h.good_write ho
  | alloc blk => exact h.good_alloc ho hc
  | free obj junk => exact h.good_free ho hc

/-! A step that does not meet the condition leaves the counter wrong. -/

/-- The counter was incremented for a slab that there is not. -/
theorem bad_create (h : CounterInv s) {objsize alignment flags : ℕ} {blk : Option ℕ}
    (ho : CounterRun s (Op.create objsize alignment flags blk))
    (hc : ¬ Counted s (Op.create objsize alignment flags blk))
    (hrun : step s (Op.create objsize alignment flags blk) = some s') {l : List ℕ}
    (hl : Chain nextOf 0 s'.st.mem Loc.listEmpty l) : s'.st.cache.emptySlabs ≠ l.length := by
  obtain ⟨hz, hprom⟩ := ho
  obtain ⟨c, hgeom, hobj, ha, hb⟩ := hprom.geometry
  obtain ⟨hno, howned, -⟩ := h.zeroed hz
  rcases kslabCacheCreate_cases hno howned hobj ha hgeom hb with ⟨hw, -⟩ | ⟨-, -, hrun'⟩ |
    ⟨b, -, -, -, hbs, -⟩
  · refine absurd (fun _ c' hc' => ?_) hc
    obtain rfl : c = c' := Option.some_inj.1 (hgeom.symm.trans hc')
    exact hw
  · rw [step, hrun', Option.map_some] at hrun
    obtain rfl := Option.some_inj.1 hrun
    obtain rfl : l = [] := hl.null_iff.1 hno.empty
    simp [setGeometry, hz, KslabCache.zeroed]
  · exact absurd (fun hbn => by cases hbs.symm.trans hbn) hc

/-- The counter was decremented for a slab that it did not count. -/
theorem bad_alloc (h : CounterInv s) {blk : Option ℕ} (ho : CounterRun s (Op.alloc blk))
    (hc : ¬ Counted s (Op.alloc blk)) (hrun : step s (Op.alloc blk) = some s') {l : List ℕ}
    (hl : Chain nextOf 0 s'.st.mem Loc.listEmpty l) : s'.st.cache.emptySlabs ≠ l.length := by
  intro hlen
  simp only [Counted, not_or, not_not] at hc
  obtain ⟨hbn, hpart, hempty⟩ := hc
  rcases h with ⟨hz, hno, -, -⟩ | ⟨sh, hok, hcnt, -, -⟩
  · cases blk with
    | none => exact hbn rfl
    | some b =>
        obtain ⟨st', hrun', hcount, hhead⟩ := kslabAlloc_zeroed hz hno ho
        rw [step, hrun', Option.map_some] at hrun
        obtain rfl := Option.some_inj.1 hrun
        obtain rfl : l = [] := hl.null_iff.1 hhead
        exact absurd (hcount.symm.trans hlen) (by decide)
  · obtain ⟨s₁, sh₁, hrun₁, hok₁, -, -, -, hcases⟩ := hok.alloc blk ho
    obtain rfl := Option.some_inj.1 (hrun₁.symm.trans hrun)
    obtain rfl := hl.unique hok₁.inv.lists.empty
    have hp := hok.inv.lists.part.null_iff.1 hpart
    have he := hok.inv.lists.empty.null_iff.1 hempty
    rcases hcases with ⟨hp', -⟩ | ⟨-, ⟨t, he'⟩, -⟩ | ⟨-, -, hbn', -⟩ | ⟨-, -, -, he₁, hcache⟩
    · exact hp' hp
    · cases he.symm.trans he'
    · exact hbn hbn'
    · rw [hcache, he₁] at hlen
      rw [he] at hcnt
      simp [decEmptySlabs, hcnt, Word.dec32] at hlen

/-- The slab was counted twice. -/
theorem bad_free (h : CounterInv s) {obj : ℕ} {junk : ℕ → ℕ} (ho : CounterRun s (Op.free obj junk))
    (hc : ¬ Counted s (Op.free obj junk)) (hrun : step s (Op.free obj junk) = some s') {l : List ℕ}
    (hl : Chain nextOf 0 s'.st.mem Loc.listEmpty l) : s'.st.cache.emptySlabs ≠ l.length := by
  intro hlen
  obtain ⟨sh, hok, hcnt, hle, -⟩ := h.of_live ho
  obtain ⟨t, s₁, sh₁, ht, hslot, hrun₁, hok₁, -, hcases⟩ := hok.free ho junk
  have hmask : slabBase s.st.cache obj = t :=
    slot_mask hok.inv.geom (hok.inv.blocks.dvd t ht) (hok.inv.blocks.le t ht) hslot
  obtain rfl := Option.some_inj.1 (hrun₁.symm.trans hrun)
  obtain rfl := hl.unique hok₁.inv.lists.empty
  simp only [Counted, not_not, hmask] at hc
  rcases hcases with ⟨hlt, -⟩ | ⟨-, ⟨hcache, -, he⟩ | ⟨hcache, he, -⟩⟩
  · omega
  · rw [hcache, he] at hlen
    simp only [incEmptySlabs] at hlen
    omega
  · rw [hcache, he] at hlen
    have htwo : ((s.st.cache.emptySlabs + 1) % 2 ^ 32 + 1) % 2 ^ 32 =
        s.st.cache.emptySlabs + 1 + 1 := by omega
    simp only [decEmptySlabs, incEmptySlabs, htwo, Word.dec32_succ] at hlen
    omega

theorem bad (h : CounterInv s) {o : Op} (ho : CounterRun s o) (hc : ¬ Counted s o)
    (hrun : step s o = some s') : ¬ CountsOk s o s' := by
  rintro ⟨⟨l, hl, hlen⟩, -, -⟩
  cases o with
  | destroy junk => exact ho
  | write a v => exact hc trivial
  | create objsize alignment flags blk => exact h.bad_create ho hc hrun hl hlen
  | alloc blk => exact h.bad_alloc ho hc hrun hl hlen
  | free obj junk => exact h.bad_free ho hc hrun hl hlen

end CounterInv

/-- **The counter of empty slabs is right exactly when no step of the run is one of three**: a
creation that fails for want of a block, an allocation that adds a slab, and a free that empties
one. -/
theorem emptySlabs_iff {m : ℕ → ℕ} {os : List Op}
    (hos : Run.Along step CounterRun (Sys.zeroed m) os) :
    Run.Every step CountsOk (Sys.zeroed m) os ↔ Run.Along step Counted (Sys.zeroed m) os :=
  Run.every_iff_along (I := CounterInv) (fun _ _ h hV hC => h.good hV hC)
    (fun _ _ _ h hV hC hrun => h.bad hV hC hrun) (Or.inl ⟨rfl, ⟨rfl, rfl, rfl⟩, rfl, rfl⟩) hos

/-- A creation, two allocations and a free of the first object. -/
theorem emptySlabs_iff_trace :
    Run.Every step CountsOk (Sys.zeroed fun _ => 0)
      [Op.create 64 8 0 (some 0x10000), Op.alloc none, Op.alloc none, Op.free 0x10030 fun _ => 1] :=
  (emptySlabs_iff (by decide +kernel)).2 (by decide +kernel)

/-- A slab whose only object comes back is counted twice. -/
theorem emptySlabs_drift :
    Run.Along step CounterRun (Sys.zeroed fun _ => 0)
        [Op.create 64 8 0 (some 0x10000), Op.alloc none, Op.free 0x10030 fun _ => 1] ∧
      ¬ Run.Every step CountsOk (Sys.zeroed fun _ => 0)
        [Op.create 64 8 0 (some 0x10000), Op.alloc none, Op.free 0x10030 fun _ => 1] := by
  refine ⟨by decide +kernel, fun h => ?_⟩
  have hend : ((Run.exec step (Sys.zeroed fun _ => 0)
      [Op.create 64 8 0 (some 0x10000), Op.alloc none]).bind fun s =>
        (step s (Op.free 0x10030 fun _ => 1)).map fun s' => (s'.st.cache.emptySlabs,
          s'.st.mem Loc.listEmpty, s'.st.mem (nextOf 0x10000))) = some (2, 0x10000, 0) := by
    decide +kernel
  obtain ⟨s₁, s₂, hs₁, hs₂, ⟨⟨l, hl, hlen⟩, -, -⟩⟩ := Run.Every.last [_, _] h
  rw [hs₁, Option.bind_some, hs₂, Option.map_some] at hend
  obtain ⟨hcnt, hhead, hnext⟩ : s₂.st.cache.emptySlabs = 2 ∧ s₂.st.mem Loc.listEmpty = 0x10000 ∧
      s₂.st.mem (nextOf 0x10000) = 0 := by simpa using hend
  have hone : Chain nextOf 0 s₂.st.mem Loc.listEmpty [0x10000] := ⟨hhead, by decide, hnext⟩
  rw [hl.unique hone, hcnt] at hlen
  exact absurd hlen (by decide)

end Slab

end SyncKernel
