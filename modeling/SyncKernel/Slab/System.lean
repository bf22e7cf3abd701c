/-
**A slab cache and its clients.**

The system is a cache, the objects that its clients hold, and the operations of both sides: a
client creates and destroys the cache, allocates and frees, and writes into the objects it holds.
This module states the invariant of that system and proves, for each operation, what it does to
it.

Main definitions:

* `Slab.Sys`, `Slab.Op`, `Slab.step` — the system and its operations;
* `Slab.Ok` — **the invariant**: the cache is as `Slab.Inv` says, and the objects in use are
  different slots of its slabs that are on no free list.

Main results:

* `Slab.Ok.alloc`, `Slab.Ok.free`, `Slab.Ok.write` — what each operation does to the invariant.
-/

import SyncKernel.Lib.Run
import SyncKernel.Slab.Release

set_option relaxedAutoImplicit false
set_option autoImplicit false

namespace SyncKernel

namespace Slab

/-! ### The system -/

/-- A cache and the objects in use. -/
structure Sys where
  st : State
  live : List ℕ
  /-- what the last `kslab_cache_create` returned, if the cache was not destroyed since -/
  created : Option ℤ

/-- An operation, with the answer of `kbud_alloc` if it is asked and the words that `kbud_free`
writes if it is called. -/
inductive Op
  | create (objsize alignment flags : ℕ) (blk : Option ℕ)
  | alloc (blk : Option ℕ)
  | free (obj : ℕ) (junk : ℕ → ℕ)
  | write (a v : ℕ)
  | destroy (junk : ℕ → ℕ)

/-- A zeroed cache over the memory `m`. -/
def Sys.zeroed (m : ℕ → ℕ) : Sys := ⟨State.zeroed m, [], none⟩

/-- One operation. -/
def step (s : Sys) : Op → Option Sys
  | Op.create objsize alignment flags blk =>
      (kslabCacheCreate s.st objsize alignment flags blk).map fun r => ⟨r.2, s.live, some r.1⟩
  | Op.alloc blk =>
      (kslabAlloc s.st blk).map fun r =>
        ⟨r.2, if r.1 = kpageErr then s.live else r.1 :: s.live, s.created⟩
  | Op.free obj junk =>
      (kslabFree s.st obj junk).map fun st => ⟨st, s.live.erase obj, s.created⟩
  | Op.write a v => some { s with st := s.st.store (Loc.addr a) v }
  | Op.destroy junk => (kslabCacheDestroy s.st junk).map fun st => ⟨st, [], none⟩

/-- What the callers and the buddy allocator promise about an operation: an object holds a pointer
and has an alignment, blocks are fresh, a freed object is in use, and a write goes into an object
in use or to memory that the cache does not own. -/
def Promised (s : Sys) : Op → Prop
  | Op.create objsize alignment flags blk =>
      8 ≤ objsize ∧ 0 < alignment ∧ alignment < 2 ^ 64 ∧
        ∀ c ∈ chooseGeometry objsize alignment,
          Fresh (setGeometry s.st c objsize alignment flags) blk
  | Op.alloc blk => Fresh s.st blk
  | Op.free obj _ => obj ∈ s.live
  | Op.write a _ =>
      (∃ o ∈ s.live, o ≤ a ∧ a < o + s.st.cache.objSize) ∨
        ∀ b ∈ s.st.owned, a < b ∨ b + 2 ^ (12 + s.st.cache.order) ≤ a
  | Op.destroy _ => True

instance (s : Sys) : ∀ o, Decidable (Promised s o)
  | Op.create .. => inferInstanceAs (Decidable (_ ∧ _ ∧ _ ∧ _))
  | Op.alloc _ => inferInstanceAs (Decidable (Fresh _ _))
  | Op.free _ _ => inferInstanceAs (Decidable (_ ∈ _))
  | Op.write _ _ => inferInstanceAs (Decidable (_ ∨ _))
  | Op.destroy _ => isTrue trivial

/-- **The invariant**: the cache represents the shape, and the objects in use are different slots
of its slabs that are on no free list. -/
structure Ok (s : Sys) (sh : Shape) : Prop where
  inv : Inv s.st sh
  nodup : s.live.Nodup
  live : ∀ o ∈ s.live, ∃ t ∈ s.st.owned, o ∈ slotsOf s.st.cache.layout t ∧ o ∉ sh.free t

namespace Ok

variable {s : Sys} {sh : Shape}

/-! ### Allocating -/

/-- Handing out a free slot keeps the invariant. -/
theorem take (h : Ok s sh) {st' : State} {sh' : Shape} {free : ℕ → List ℕ} {o : ℕ}
    (hinv : Inv st' sh') (hlay : st'.cache.layout = s.st.cache.layout)
    (hown : ∀ t ∈ s.st.owned, t ∈ st'.owned) (hfree : ∀ t ∈ s.st.owned, free t = sh.free t)
    (ho : Taken s.st.cache.layout st'.owned free sh'.free o)
    (hnew : ∀ t ∈ st'.owned, o ∈ slotsOf s.st.cache.layout t → o ∈ free t) :
    Ok ⟨st', o :: s.live, s.created⟩ sh' where
  inv := hinv
  nodup := by
    refine List.nodup_cons.2 ⟨fun hmem => ?_, h.nodup⟩
    obtain ⟨t, ht, hslot, hnf⟩ := h.live o hmem
    exact hnf (hfree t ht ▸ hnew t (hown t ht) hslot)
  live a ha := by
    change ∃ t ∈ st'.owned, a ∈ slotsOf st'.cache.layout t ∧ a ∉ sh'.free t
    rw [hlay]
    rcases List.mem_cons.1 ha with rfl | ha
    · obtain ⟨t, ht, hslot, -, hnf⟩ := ho.slab
      exact ⟨t, ht, hslot, hnf⟩
    · obtain ⟨t, ht, hslot, hnf⟩ := h.live a ha
      exact ⟨t, hown t ht, hslot, fun hmem => hnf (hfree t ht ▸ ho.sub t (hown t ht) a hmem)⟩

/-- The slab of the slot that is handed out is the only one with that slot. -/
theorem taken_mem {c : Layout} {owned : List ℕ} (hb : Blocks c owned) (g : Geom c)
    {free free' : ℕ → List ℕ} {o : ℕ} (ho : Taken c owned free free' o) :
    ∀ t ∈ owned, o ∈ slotsOf c t → o ∈ free t := by
  intro t ht hslot
  obtain ⟨u, hu, huslot, huf, -⟩ := ho.slab
  obtain rfl := hb.slot_unique g ht hu hslot huslot
  exact huf

/-- **What an allocation does**: it hands out an object of a partial slab; or of the first empty
one, and decrements the counter; or it fails and changes nothing; or it hands out an object of a
fresh slab and decrements the counter. -/
theorem alloc (h : Ok s sh) (blk : Option ℕ) (hb : Fresh s.st blk) :
    ∃ s' sh', step s (Op.alloc blk) = some s' ∧ Ok s' sh' ∧ s'.created = s.created ∧
      s'.st.freed = s.st.freed ∧
      (∀ st', kslabAlloc s.st blk = some (kpageErr, st') → st' = s.st) ∧
      ((sh.part ≠ [] ∧ s'.st.cache = s.st.cache ∧ sh'.empty = sh.empty) ∨
        (sh.part = [] ∧ (∃ t, sh.empty = t :: sh'.empty) ∧
          s'.st.cache = (decEmptySlabs s.st).cache) ∨
        (sh.part = [] ∧ sh.empty = [] ∧ blk = none ∧ s' = s ∧ sh' = sh) ∨
        (sh.part = [] ∧ sh.empty = [] ∧ blk ≠ none ∧ sh'.empty = [] ∧
          s'.st.cache = (decEmptySlabs s.st).cache)) := by
  rcases kslabAlloc_cases h.inv hb with ⟨o, mem', sh', hp, hrun, hinv, he, ho⟩ |
    ⟨o, t, mem', sh', hp, he, hrun, hinv, ho⟩ | ⟨hp, he, hbn, hrun⟩ |
    ⟨b, o, mem', sh', hp, he, hbs, he', hrun, hinv, ho⟩
  · have hne := ho.ne_kpageErr h.inv
    refine ⟨⟨{ s.st with mem := mem' }, o :: s.live, s.created⟩, sh', ?_, ?_, rfl, rfl, ?_,
      Or.inl ⟨hp, rfl, he⟩⟩
    · rw [step, hrun, Option.map_some, if_neg hne]
    · exact h.take hinv rfl (fun _ ht => ht) (fun _ _ => rfl) ho
        (taken_mem h.inv.blocks h.inv.geom ho)
    · intro st' hst'
      exact absurd (Prod.mk.inj (Option.some_inj.1 (hrun.symm.trans hst'))).1 hne
  · have hne := ho.ne_kpageErr h.inv
    refine ⟨⟨decEmptySlabs { s.st with mem := mem' }, o :: s.live, s.created⟩, sh', ?_, ?_, rfl,
      decEmptySlabs_freed _, ?_, Or.inr (Or.inl ⟨hp, ⟨t, he⟩, decEmptySlabs_cache rfl⟩)⟩
    · rw [step, hrun, Option.map_some, if_neg hne]
    · exact h.take hinv.dec rfl (fun _ ht => ht) (fun _ _ => rfl) ho
        (taken_mem h.inv.blocks h.inv.geom ho)
    · intro st' hst'
      exact absurd (Prod.mk.inj (Option.some_inj.1 (hrun.symm.trans hst'))).1 hne
  · refine ⟨s, sh, ?_, h, rfl, rfl, ?_, Or.inr (Or.inr (Or.inl ⟨hp, he, hbn, rfl, rfl⟩))⟩
    · rw [step, hrun, Option.map_some, if_pos rfl]
    · intro st' hst'
      exact (Prod.mk.inj (Option.some_inj.1 (hrun.symm.trans hst'))).2.symm
  · subst hbs
    have hbo : b ∉ s.st.owned := fun hm =>
      (List.nodup_cons.1 hinv.blocks.nodup).1 hm
    have hupd : ∀ t ∈ s.st.owned,
        Function.update sh.free b (slotsOf s.st.cache.layout b) t = sh.free t :=
      fun t ht => Function.update_of_ne (fun he : t = b => hbo (he ▸ ht)) _ _
    have hne : o ≠ kpageErr := by
      obtain ⟨t, ht, hslot, -, -⟩ := ho.slab
      have hbd := h.inv.geom.slot_bounds hslot
      have hle := hinv.blocks.le t ht
      have hobj := h.inv.geom.objSize_ge
      change t + 2 ^ (12 + s.st.cache.layout.order) ≤ 2 ^ 64 at hle
      unfold kpageErr
      omega
    refine ⟨⟨decEmptySlabs { s.st with mem := mem', owned := b :: s.st.owned }, o :: s.live,
      s.created⟩, sh', ?_, ?_, rfl, decEmptySlabs_freed _, ?_,
      Or.inr (Or.inr (Or.inr ⟨hp, he, by simp, he', decEmptySlabs_cache rfl⟩))⟩
    · rw [step, hrun, Option.map_some, if_neg hne]
    · exact h.take hinv.dec rfl (fun _ ht => List.mem_cons_of_mem _ ht) hupd ho
        (taken_mem hinv.blocks h.inv.geom ho)
    · intro st' hst'
      exact absurd (Prod.mk.inj (Option.some_inj.1 (hrun.symm.trans hst'))).1 hne

/-! ### Freeing -/

/-- A slab all of whose slots are free holds no object in use. -/
theorem notMem_of_length (h : Ok s sh) {t : ℕ} (ht : t ∈ s.st.owned)
    (hlen : (sh.free t).length = s.st.cache.slabObjsPer) {o : ℕ} (ho : o ∈ s.live) :
    o ∉ slotsOf s.st.cache.layout t := by
  intro hslot
  obtain ⟨u, hu, huslot, hnf⟩ := h.live o ho
  obtain rfl := h.inv.blocks.slot_unique h.inv.geom ht hu hslot huslot
  have hok := h.inv.slab t ht
  have hperm := (hok.nodup.subperm hok.slots).perm_of_length_le (by
    rw [length_slotsOf, hlen]; exact le_rfl)
  exact hnf (hperm.symm.subset hslot)

/-- An object in use lies outside the slabs that it is no slot of. -/
theorem apart_of_notMem (h : Ok s sh) {f : ℕ} (hf : f ∈ s.st.owned) {a : ℕ} (ha : a ∈ s.live)
    (hnf : a ∉ slotsOf s.st.cache.layout f) :
    a + s.st.cache.objSize ≤ f ∨ f + buddyOrderToVal s.st.cache.order ≤ a := by
  obtain ⟨u, hu, huslot, -⟩ := h.live a ha
  have huf : u ≠ f := fun he => hnf (he ▸ huslot)
  have hsize : buddyOrderToVal s.st.cache.order = 2 ^ (12 + s.st.cache.layout.order) :=
    h.inv.geom.buddyOrderToVal_eq
  have hb := h.inv.geom.slot_bounds huslot
  change u + 48 ≤ a ∧ a + s.st.cache.objSize ≤ u + 2 ^ (12 + s.st.cache.layout.order) at hb
  rw [hsize]
  rcases h.inv.blocks.apart_of_ne hu hf huf with hap | hap <;> omega

/-- Putting an object back keeps the invariant, when the slabs that leave the cache have only free
slots. -/
theorem put (h : Ok s sh) {st' : State} {sh' : Shape} {t o : ℕ} (ht : t ∈ s.st.owned)
    (hslot : o ∈ slotsOf s.st.cache.layout t) (hinv : Inv st' sh')
    (hlay : st'.cache.layout = s.st.cache.layout)
    (hown : ∀ u ∈ s.st.owned, (∃ a ∈ s.live, a ≠ o ∧ a ∈ slotsOf s.st.cache.layout u) →
      u ∈ st'.owned)
    (hfree : sh'.free = Function.update sh.free t (o :: sh.free t)) :
    Ok ⟨st', s.live.erase o, s.created⟩ sh' where
  inv := hinv
  nodup := h.nodup.erase o
  live a ha := by
    have hne : a ≠ o := ((h.nodup.mem_erase_iff).1 ha).1
    obtain ⟨u, hu, huslot, hnf⟩ := h.live a (List.mem_of_mem_erase ha)
    refine ⟨u, hown u hu ⟨a, List.mem_of_mem_erase ha, hne, huslot⟩, hlay ▸ huslot, ?_⟩
    rw [hfree]
    by_cases hut : u = t
    · subst hut
      rw [Function.update_self, List.mem_cons, not_or]
      exact ⟨hne, hnf⟩
    · rwa [Function.update_of_ne hut]

/-- **What freeing an object does**: the object's slab is not emptied by it, and the empty slabs
and the counter stay as they are; or it is, and then the counter is incremented twice and the slab
is empty, unless that makes the counter exceed its maximum: then one of the empty slabs, which
holds no object in use, is given back and the counter decremented. -/
theorem free (h : Ok s sh) {o : ℕ} (ho : o ∈ s.live) (junk : ℕ → ℕ) :
    ∃ t s' sh', t ∈ s.st.owned ∧ o ∈ slotsOf s.st.cache.layout t ∧
      step s (Op.free o junk) = some s' ∧ Ok s' sh' ∧ s'.created = s.created ∧
      ((s.st.mem (freeCountOf t) + 1 < s.st.cache.slabObjsPer ∧ s'.st.cache = s.st.cache ∧
          s'.st.freed = s.st.freed ∧ sh'.empty = sh.empty) ∨
        (s.st.mem (freeCountOf t) + 1 = s.st.cache.slabObjsPer ∧
          ((s'.st.cache = (incEmptySlabs (incEmptySlabs s.st)).cache ∧
              s'.st.freed = s.st.freed ∧ sh'.empty.length = sh.empty.length + 1) ∨
            (s'.st.cache = (decEmptySlabs (incEmptySlabs (incEmptySlabs s.st))).cache ∧
              sh'.empty.length = sh.empty.length ∧
              ∃ f, s'.st.freed = s.st.freed ++ [(f, s.st.cache.order)] ∧ f ∈ s.st.owned ∧
                ∀ a ∈ s'.live, a + s.st.cache.objSize ≤ f ∨
                  f + buddyOrderToVal s.st.cache.order ≤ a)))) := by
  obtain ⟨t, ht, hslot, hnf⟩ := h.live o ho
  have hcount := (h.inv.slab t ht).count
  rcases kslabFree_cases h.inv ht hslot hnf junk with ⟨mem', sh', hlt, hrun, hinv, he, hfree⟩ |
    ⟨mem', sh', hlast, hinv, he, hfree, ⟨-, hrun⟩ | ⟨f, e, mem'', -, hfe, hrun, hinv'⟩⟩
  · refine ⟨t, ⟨{ s.st with mem := mem' }, s.live.erase o, s.created⟩, sh', ht, hslot, ?_, ?_, rfl,
      Or.inl ⟨by omega, rfl, rfl, he⟩⟩
    · rw [step, hrun, Option.map_some]
    · exact h.put ht hslot hinv rfl (fun u hu _ => hu) hfree
  · refine ⟨t, ⟨incEmptySlabs (incEmptySlabs { s.st with mem := mem' }), s.live.erase o, s.created⟩,
      sh', ht, hslot, ?_, ?_, rfl, Or.inr ⟨by omega, Or.inl
        ⟨incEmptySlabs_cache (incEmptySlabs_cache rfl), rfl, ?_⟩⟩⟩
    · rw [step, hrun, Option.map_some]
    · exact h.put ht hslot hinv.inc.inc rfl (fun u hu _ => hu) hfree
    · rw [he, List.length_append, List.length_singleton]
  · -- the slab that goes back has only free slots once the object is put back
    have hok' : Ok ⟨{ s.st with mem := mem' }, s.live.erase o, s.created⟩ sh' :=
      h.put ht hslot hinv rfl (fun u hu _ => hu) hfree
    have hf : f ∈ s.st.owned := hinv.mem_owned.2 (by simp [Shape.slabs, hfe])
    have hflen := hinv.empty f (by simp [hfe])
    have hgone : ∀ a ∈ s.live.erase o, a ∉ slotsOf s.st.cache.layout f := fun a ha =>
      hok'.notMem_of_length hf hflen ha
    refine ⟨t, ⟨decEmptySlabs (incEmptySlabs (incEmptySlabs { s.st with
        mem := mem'', owned := s.st.owned.erase f
        freed := s.st.freed ++ [(f, s.st.cache.order)] })), s.live.erase o, s.created⟩,
      ⟨sh'.full, sh'.part, e, sh'.free⟩, ht, hslot, ?_, ?_, rfl,
      Or.inr ⟨by omega, Or.inr ⟨decEmptySlabs_cache (incEmptySlabs_cache (incEmptySlabs_cache rfl)),
        ?_, f, decEmptySlabs_freed _, hf, fun a ha => ?_⟩⟩⟩
    · rw [step, hrun, Option.map_some]
    · refine h.put ht hslot hinv'.inc.inc.dec rfl ?_ hfree
      rintro u hu ⟨a, ha, hne, haslot⟩
      refine (h.inv.blocks.nodup.mem_erase_iff).2 ⟨?_, hu⟩
      rintro rfl
      exact hgone a ((h.nodup.mem_erase_iff).2 ⟨hne, ha⟩) haslot
    · have hlen := congrArg List.length (he.symm.trans hfe)
      rw [List.length_append, List.length_singleton, List.length_cons] at hlen
      change e.length = sh.empty.length
      omega
    · exact h.apart_of_notMem hf (List.mem_of_mem_erase ha) (hgone a ha)

/-! ### Writing -/

/-- Clients do not disturb the cache when they write into their objects, or outside its blocks. -/
theorem write (h : Ok s sh) {a v : ℕ} (ha : Promised s (Op.write a v)) :
    Ok { s with st := s.st.store (Loc.addr a) v } sh := by
  have g := h.inv.geom
  have hfit := g.fits
  have hres := g.reserved_ge
  have hout : ∀ t ∈ s.st.owned, ∀ b, t ≤ b → b < t + 48 → b ≠ a := by
    intro t ht b h₁ h₂ hba
    rcases ha with ⟨o, ho, hoa, hao⟩ | hfar
    · obtain ⟨u, hu, huslot, -⟩ := h.live o ho
      have hb := g.slot_bounds huslot
      change a < o + s.st.cache.layout.objSize at hao
      by_cases htu : t = u
      · omega
      · rcases h.inv.blocks.apart_of_ne ht hu htu with hap | hap <;> omega
    · have := hfar t ht
      change a < t ∨ t + 2 ^ (12 + s.st.cache.layout.order) ≤ a at this
      omega
  have hslot : ∀ t ∈ s.st.owned, ∀ b ∈ sh.free t, b ≠ a := by
    intro t ht b hbf hba
    have hbslot := (h.inv.slab t ht).slots b hbf
    have hbb := g.slot_bounds hbslot
    rcases ha with ⟨o, ho, hoa, hao⟩ | hfar
    · obtain ⟨u, hu, huslot, hnf⟩ := h.live o ho
      have hb := g.slot_bounds huslot
      change a < o + s.st.cache.layout.objSize at hao
      by_cases htu : t = u
      · subst htu
        have hne : b ≠ o := fun he => hnf (he ▸ hbf)
        have hobj := g.objSize_ge
        rcases Geom.slot_apart hbslot huslot hne with hap | hap <;> omega
      · rcases h.inv.blocks.apart_of_ne ht hu htu with hap | hap <;> omega
    · have := hfar t ht
      have hobj := g.objSize_ge
      change a < t ∨ t + 2 ^ (12 + s.st.cache.layout.order) ≤ a at this
      omega
  have hne : ∀ b, b ≠ a → Function.update s.st.mem (Loc.addr a) v (Loc.addr b) =
      s.st.mem (Loc.addr b) := fun b hb =>
    Function.update_of_ne (fun he => hb (Loc.addr.inj he)) _ _
  refine ⟨⟨g, h.inv.blocks, h.inv.perm, ?_, ?_, h.inv.full, h.inv.part, h.inv.empty⟩, h.nodup,
    h.live⟩
  · refine h.inv.lists.congr (fun l hl => ?_) fun t ht =>
      hne _ (hout t (h.inv.mem_owned.2 ht) _ (by omega) (by omega))
    refine Function.update_of_ne ?_ _ _
    rcases hl with rfl | rfl | rfl <;> simp
  · intro t ht
    have hok := h.inv.slab t ht
    exact ⟨hok.chain.congr (hne _ (hout t ht _ (by omega) (by omega)))
        fun b hb => hne b (hslot t ht b hb),
      hok.nodup, hok.slots, (hne _ (hout t ht _ (by omega) (by omega))).trans hok.count⟩

end Ok

end Slab

end SyncKernel
