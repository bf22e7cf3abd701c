/-
**The invariant of a slab cache.**

The three lists of a cache, the free lists of its slabs and the counters describe one partition:
every block that the cache owns is on exactly one list, the list says how many of its slots are
free, and the free list of a slab runs through that many different slots.  This module states that
invariant over the memory of the model and proves one lemma for every function of `slab.c` that
changes the memory.

Main definitions:

* `Slab.Shape` — the abstract cache: the three lists, and the free slots of every slab;
* `Slab.SlabOk`, `Slab.ListsOk` — a slab and the lists in memory;
* `Slab.Inv` — **the invariant**: the memory represents the shape.

Main results:

* `Slab.kslabRelinkNode_spec`, `Slab.kslabRemoveNode_spec` — moving and removing a slab;
* `Slab.Inv.change` — the rule for an operation that changes one slab and the lists.
-/

import SyncKernel.Slab.Layout

set_option relaxedAutoImplicit false
set_option autoImplicit false

namespace SyncKernel

namespace Slab

/-- The abstract cache: the slabs on each list, and the free slots of every slab. -/
structure Shape where
  full : List ℕ
  part : List ℕ
  empty : List ℕ
  free : ℕ → List ℕ

/-- All slabs of a cache. -/
def Shape.slabs (sh : Shape) : List ℕ := sh.full ++ sh.part ++ sh.empty

/-- The slab at `s` in memory: its free list is a duplicate-free chain through the slots `fl`, and
its counter is their number. -/
structure SlabOk (c : Layout) (mem : Loc → ℕ) (s : ℕ) (fl : List ℕ) : Prop where
  chain : Chain Loc.addr 0 mem (freelistOf s) fl
  nodup : fl.Nodup
  slots : ∀ a ∈ fl, a ∈ slotsOf c s
  count : mem (freeCountOf s) = fl.length

/-- The three lists in memory. -/
structure ListsOk (mem : Loc → ℕ) (full part empty : List ℕ) : Prop where
  full : Chain nextOf 0 mem Loc.listFull full
  part : Chain nextOf 0 mem Loc.listPartial part
  empty : Chain nextOf 0 mem Loc.listEmpty empty

/-- **The invariant**: the memory of the state represents the shape, the blocks on the lists are
the blocks the cache owns, and the list of a slab says how many of its slots are free. -/
structure Inv (st : State) (sh : Shape) : Prop where
  geom : Geom st.cache.layout
  blocks : Blocks st.cache.layout st.owned
  perm : st.owned.Perm sh.slabs
  lists : ListsOk st.mem sh.full sh.part sh.empty
  slab : ∀ s ∈ st.owned, SlabOk st.cache.layout st.mem s (sh.free s)
  full : ∀ s ∈ sh.full, (sh.free s).length = 0
  part : ∀ s ∈ sh.part, 0 < (sh.free s).length ∧ (sh.free s).length < st.cache.slabObjsPer
  empty : ∀ s ∈ sh.empty, (sh.free s).length = st.cache.slabObjsPer

/-! ### Frames -/

/-- A slab depends on its own body only. -/
theorem SlabOk.congr {c : Layout} {mem mem' : Loc → ℕ} {s : ℕ} {fl : List ℕ}
    (h : SlabOk c mem s fl) (heq : ∀ l, IsBody c s l → mem' l = mem l) : SlabOk c mem' s fl where
  chain := h.chain.congr (heq _ (Or.inl rfl))
    fun a ha => heq _ (Or.inr (Or.inr ⟨a, h.slots a ha, rfl⟩))
  nodup := h.nodup
  slots := h.slots
  count := (heq _ (Or.inr (Or.inl rfl))).trans h.count

/-- The lists depend on their heads and on the link fields of their slabs only. -/
theorem ListsOk.congr {mem mem' : Loc → ℕ} {full part empty : List ℕ}
    (h : ListsOk mem full part empty) (hhead : ∀ l, IsHead l → mem' l = mem l)
    (hnext : ∀ s ∈ full ++ part ++ empty, mem' (nextOf s) = mem (nextOf s)) :
    ListsOk mem' full part empty where
  full := h.full.congr (hhead _ (Or.inl rfl)) fun s hs => hnext s (by simp [hs])
  part := h.part.congr (hhead _ (Or.inr (Or.inl rfl))) fun s hs => hnext s (by simp [hs])
  empty := h.empty.congr (hhead _ (Or.inr (Or.inr rfl))) fun s hs => hnext s (by simp [hs])

/-- The counter is part of the cache and of nothing else. -/
theorem decEmptySlabs_cache {st st' : State} (h : st.cache = st'.cache) :
    (decEmptySlabs st).cache = (decEmptySlabs st').cache := by
  simp only [decEmptySlabs, h]

@[simp] theorem decEmptySlabs_freed (st : State) : (decEmptySlabs st).freed = st.freed := by
  simp only [decEmptySlabs]

theorem incEmptySlabs_cache {st st' : State} (h : st.cache = st'.cache) :
    (incEmptySlabs st).cache = (incEmptySlabs st').cache := by
  simp only [incEmptySlabs, h]

namespace Inv

variable {st : State} {sh : Shape}

theorem mem_owned (h : Inv st sh) {s : ℕ} : s ∈ st.owned ↔ s ∈ sh.slabs := h.perm.mem_iff

theorem nodup_slabs (h : Inv st sh) : sh.slabs.Nodup := h.perm.nodup_iff.1 h.blocks.nodup

theorem length_slabs_lt (h : Inv st sh) : sh.slabs.length < addrSpace :=
  h.perm.length_eq ▸ h.blocks.length_lt

theorem notMem_of_full (h : Inv st sh) {s : ℕ} (hs : s ∈ sh.full) : s ∉ sh.part ∧ s ∉ sh.empty := by
  have hnd := h.nodup_slabs
  rw [Shape.slabs, List.append_assoc, List.nodup_append] at hnd
  exact ⟨fun hp => hnd.2.2 s hs s (by simp [hp]) rfl, fun he => hnd.2.2 s hs s (by simp [he]) rfl⟩

theorem notMem_of_part (h : Inv st sh) {s : ℕ} (hs : s ∈ sh.part) : s ∉ sh.full ∧ s ∉ sh.empty := by
  have hnd := h.nodup_slabs
  rw [Shape.slabs, List.nodup_append] at hnd
  exact ⟨fun hf => (List.nodup_append.1 hnd.1).2.2 s hf s hs rfl,
    fun he => hnd.2.2 s (by simp [hs]) s he rfl⟩

theorem notMem_of_empty (h : Inv st sh) {s : ℕ} (hs : s ∈ sh.empty) :
    s ∉ sh.full ∧ s ∉ sh.part := by
  have hnd := h.nodup_slabs
  rw [Shape.slabs, List.nodup_append] at hnd
  exact ⟨fun hf => hnd.2.2 s (by simp [hf]) s hs rfl, fun hp => hnd.2.2 s (by simp [hp]) s hs rfl⟩

/-- The counter `empty_slabs` plays no part in the invariant. -/
theorem setEmptySlabs (h : Inv st sh) (n : ℕ) :
    Inv { st with cache := { st.cache with emptySlabs := n } } sh :=
  ⟨h.geom, h.blocks, h.perm, h.lists, h.slab, h.full, h.part, h.empty⟩

theorem dec (h : Inv st sh) : Inv (decEmptySlabs st) sh := h.setEmptySlabs _

theorem inc (h : Inv st sh) : Inv (incEmptySlabs st) sh := h.setEmptySlabs _

/-- **The rule for a change at one slab**: the lists may be rearranged and the free list of the
slab `t` may change, while the bodies of the other slabs stay as they are. -/
theorem change (h : Inv st sh) {t : ℕ} {mem' : Loc → ℕ} {full part empty fl : List ℕ}
    (hperm : sh.slabs.Perm (full ++ part ++ empty)) (hlists : ListsOk mem' full part empty)
    (hslab : SlabOk st.cache.layout mem' t fl)
    (hbody : ∀ s ∈ st.owned, s ≠ t → ∀ l, IsBody st.cache.layout s l → mem' l = st.mem l)
    (hfull : ∀ s ∈ full, s ≠ t → s ∈ sh.full) (htfull : t ∈ full → fl.length = 0)
    (hpart : ∀ s ∈ part, s ≠ t → s ∈ sh.part)
    (htpart : t ∈ part → 0 < fl.length ∧ fl.length < st.cache.slabObjsPer)
    (hempty : ∀ s ∈ empty, s ≠ t → s ∈ sh.empty)
    (htempty : t ∈ empty → fl.length = st.cache.slabObjsPer) :
    Inv { st with mem := mem' } ⟨full, part, empty, Function.update sh.free t fl⟩ where
  geom := h.geom
  blocks := h.blocks
  perm := h.perm.trans hperm
  lists := hlists
  slab s hs := by
    change SlabOk st.cache.layout mem' s (Function.update sh.free t fl s)
    by_cases hst : s = t
    · subst hst
      rw [Function.update_self]
      exact hslab
    · rw [Function.update_of_ne hst]
      exact (h.slab s hs).congr (hbody s hs hst)
  full s hs := by
    dsimp only
    by_cases hst : s = t
    · subst hst; rw [Function.update_self]; exact htfull hs
    · rw [Function.update_of_ne hst]; exact h.full s (hfull s hs hst)
  part s hs := by
    dsimp only
    by_cases hst : s = t
    · subst hst; rw [Function.update_self]; exact htpart hs
    · rw [Function.update_of_ne hst]; exact h.part s (hpart s hs hst)
  empty s hs := by
    dsimp only
    by_cases hst : s = t
    · subst hst; rw [Function.update_self]; exact htempty hs
    · rw [Function.update_of_ne hst]; exact h.empty s (hempty s hs hst)

end Inv

/-! ### Moving and removing a slab -/

/-- The first half of `kslab_relink_node` and of `kslab_remove_node`: the walk stops at the link
that holds the slab, and that link takes the slab's own. -/
theorem unlink_spec {st : State} {start : Loc} (l₁ : List ℕ) {l₂ : List ℕ} {t : ℕ} (hs : IsHead start)
    (hchain : Chain nextOf 0 st.mem start (l₁ ++ t :: l₂)) (hnd : (l₁ ++ t :: l₂).Nodup)
    (hlen : (l₁ ++ t :: l₂).length < addrSpace) :
    findLink nextOf 0 st.mem t addrSpace start = some (linkOf nextOf start l₁) ∧
      st.mem (linkOf nextOf start l₁) ≠ 0 ∧
      Chain nextOf 0 (Function.update st.mem (linkOf nextOf start l₁) (st.mem (nextOf t))) start
        (l₁ ++ l₂) := by
  have ht : t ∉ l₁ := fun hmem => (List.nodup_append.1 hnd).2.2 t hmem t (by simp) rfl
  refine ⟨findLink_mem hchain ht ?_, ?_, ?_⟩
  · rw [List.length_append] at hlen
    omega
  · rw [hchain.drop.1]
    exact hchain.drop.2.1
  · exact hchain.unlink (fun b _ => hs.nextOf_ne b) (hnd.map nextOf_injective)

/-- **Moving a slab** to the end of another list, while the third list stays as it is. -/
theorem kslabRelinkNode_spec (st : State) {start dest other : Loc} (l₁ : List ℕ)
    {l₂ k m : List ℕ} {t : ℕ}
    (hs : IsHead start) (hd : IsHead dest) (ho : IsHead other) (hsd : start ≠ dest)
    (hso : start ≠ other) (hdo : dest ≠ other)
    (hstart : Chain nextOf 0 st.mem start (l₁ ++ t :: l₂)) (hdest : Chain nextOf 0 st.mem dest k)
    (hother : Chain nextOf 0 st.mem other m) (hnd : (l₁ ++ t :: l₂ ++ (k ++ m)).Nodup)
    (hlen : (l₁ ++ t :: l₂ ++ (k ++ m)).length < addrSpace) :
    ∃ mem', kslabRelinkNode st start dest t = some { st with mem := mem' } ∧
      Chain nextOf 0 mem' start (l₁ ++ l₂) ∧ Chain nextOf 0 mem' dest (k ++ [t]) ∧
      Chain nextOf 0 mem' other m ∧
      ∀ l, (∀ l', IsHead l' → l ≠ l') → (∀ b ∈ l₁ ++ t :: l₂ ++ (k ++ m), l ≠ nextOf b) →
        mem' l = st.mem l := by
  obtain ⟨hnd₁, hnd₂, hdisj⟩ := List.nodup_append.1 hnd
  simp only [List.length_append, List.length_cons] at hlen
  obtain ⟨hfind, hp0, hchain⟩ := unlink_spec l₁ hs hstart hnd₁ (by simp; omega)
  set p := linkOf nextOf start l₁ with hp
  set mem₁ := Function.update st.mem p (st.mem (nextOf t)) with hmem₁
  have htkm : t ∉ k ++ m := fun hmem => hdisj t (by simp) t hmem rfl
  -- the two links that are written, `p` and `q`, belong to the first two lists
  have hpne : ∀ l, l ≠ start → (∀ b ∈ l₁, l ≠ nextOf b) → l ≠ p := by
    intro l hl hb
    rcases linkOf_eq nextOf start l₁ with he | ⟨b, hbl, he⟩
    · rw [hp, he]; exact hl
    · rw [hp, he]; exact hb b hbl
  set q := linkOf nextOf dest k with hq
  have hqne : ∀ l, l ≠ dest → (∀ b ∈ k, l ≠ nextOf b) → l ≠ q := by
    intro l hl hb
    rcases linkOf_eq nextOf dest k with he | ⟨b, hbl, he⟩
    · rw [hq, he]; exact hl
    · rw [hq, he]; exact hb b hbl
  have hl₁ : ∀ b ∈ k ++ m, ∀ a ∈ l₁, nextOf b ≠ nextOf a := fun b hb a ha hab =>
    hdisj a (by simp [ha]) b hb (nextOf_injective hab).symm
  have hk₁ : Chain nextOf 0 mem₁ dest k :=
    hdest.update_of_notMem _ (hpne dest hsd.symm fun b _ => (hd.nextOf_ne b).symm).symm
      fun b hb => (hpne _ (hs.nextOf_ne b) (hl₁ b (by simp [hb]))).symm
  have hk₂ : Chain nextOf 0 (Function.update mem₁ (nextOf t) 0) dest k :=
    hk₁.update_of_notMem _ (hd.nextOf_ne t) fun b hb hbt =>
      htkm (by simp [nextOf_injective hbt, hb])
  have hfind' : findLink nextOf 0 (Function.update mem₁ (nextOf t) 0) 0 addrSpace dest = some q :=
    findLink_end hk₂ (fun h0 => hk₂.ne_null 0 h0 rfl) (by omega)
  refine ⟨Function.update (Function.update mem₁ (nextOf t) 0) q t, ?_, ?_, ?_, ?_, ?_⟩
  · unfold kslabRelinkNode
    rw [hfind, Option.bind_eq_bind, Option.bind_some]
    simp only [if_neg hp0, State.store, ← hmem₁]
    rw [hfind', Option.bind_some]
  · have htl : t ∉ l₁ ++ l₂ := (List.nodup_middle.1 hnd₁ |> List.nodup_cons.1).1
    refine (hchain.update_of_notMem _ (hs.nextOf_ne t) fun b hb hbt =>
      htl (nextOf_injective hbt ▸ hb)).update_of_notMem _
        (hqne start hsd fun b _ => (hs.nextOf_ne b).symm).symm fun b hb => ?_
    refine (hqne _ (hd.nextOf_ne b) fun a ha hab => hdisj b ?_ a (by simp [ha])
      (nextOf_injective hab)).symm
    rcases List.mem_append.1 hb with hb | hb <;> simp [hb]
  · refine hk₁.append hstart.drop.2.1 (hd.nextOf_ne t) (fun b _ => hd.nextOf_ne b) ?_
    refine (List.nodup_cons.2 ⟨fun hmem => htkm (by simp [hmem]), ?_⟩).map nextOf_injective
    exact (List.nodup_append.1 hnd₂).1
  · refine ((hother.update_of_notMem _ (hpne other hso.symm fun b _ => (ho.nextOf_ne b).symm).symm
      fun b hb => (hpne _ (hs.nextOf_ne b) (hl₁ b (by simp [hb]))).symm).update_of_notMem _
        (ho.nextOf_ne t) fun b hb hbt => htkm (by simp [nextOf_injective hbt, hb])).update_of_notMem
          _ (hqne other hdo.symm fun b _ => (ho.nextOf_ne b).symm).symm fun b hb => ?_
    exact (hqne _ (hd.nextOf_ne b) fun a ha hab => (List.nodup_append.1 hnd₂).2.2 a ha b hb
      (nextOf_injective hab).symm).symm
  · intro l hhead hnext
    rw [Function.update_of_ne (hqne l (hhead _ hd) fun b hb => hnext b (by simp [hb])),
      Function.update_of_ne (hnext t (by simp)), hmem₁,
      Function.update_of_ne (hpne l (hhead _ hs) fun b hb => hnext b (by simp [hb]))]

/-- **Removing the first slab** of a list and giving it back. -/
theorem kslabRemoveNode_spec {st : State} {start : Loc} {t : ℕ} {l : List ℕ} (junk : ℕ → ℕ)
    (hs : IsHead start) (hchain : Chain nextOf 0 st.mem start (t :: l)) (hnd : (t :: l).Nodup)
    (hlen : (t :: l).length < addrSpace) :
    kslabRemoveNode st start t junk =
        some (kbudFree (st.store start (st.mem (nextOf t))) t st.cache.order junk) ∧
      Chain nextOf 0 (Function.update st.mem start (st.mem (nextOf t))) start l := by
  obtain ⟨hfind, hp0, hl⟩ := unlink_spec [] hs hchain hnd hlen
  refine ⟨?_, hl⟩
  unfold kslabRemoveNode
  rw [hfind, Option.bind_eq_bind, Option.bind_some, linkOf_nil] at *
  simp only [if_neg hp0]

end Slab

end SyncKernel
