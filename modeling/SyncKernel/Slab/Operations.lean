/-
**Allocating an object from a slab of the cache.**

One specification for each function: from a state with the invariant, what it returns and what
becomes of the lists and of the free slots.

Main results:

* `Slab.SlabOk.take`, `Slab.SlabOk.put` — taking a slot off a free list and putting one on;
* `Slab.Inv.relink` — moving a slab to another list leaves the bodies alone;
* `Slab.kslabPartialAlloc_spec`, `Slab.kslabEmptyAlloc_spec` — the first two ways to allocate.
-/

import SyncKernel.Slab.Invariant

set_option relaxedAutoImplicit false
set_option autoImplicit false

namespace SyncKernel

namespace Slab

/-! ### One slot -/

/-- Taking the first free slot off a slab. -/
theorem SlabOk.take {c : Layout} {mem mem' : Loc → ℕ} {s o : ℕ} {fl : List ℕ}
    (h : SlabOk c mem s (o :: fl)) (hhead : mem' (freelistOf s) = mem (Loc.addr o))
    (hcount : mem' (freeCountOf s) = fl.length)
    (hslots : ∀ a ∈ slotsOf c s, mem' (Loc.addr a) = mem (Loc.addr a)) : SlabOk c mem' s fl where
  chain := h.chain.2.2.move hhead
    fun a ha => hslots a (h.slots a (List.mem_cons_of_mem _ ha))
  nodup := (List.nodup_cons.1 h.nodup).2
  slots a ha := h.slots a (List.mem_cons_of_mem _ ha)
  count := hcount

/-- Putting a slot on the front of the free list of its slab. -/
theorem SlabOk.put {c : Layout} {mem mem' : Loc → ℕ} {s o : ℕ} {fl : List ℕ}
    (h : SlabOk c mem s fl) (ho : o ∈ slotsOf c s) (hno : o ∉ fl) (h0 : o ≠ 0)
    (hhead : mem' (freelistOf s) = o) (hlink : mem' (Loc.addr o) = mem (freelistOf s))
    (hcount : mem' (freeCountOf s) = fl.length + 1)
    (hslots : ∀ a ∈ slotsOf c s, a ≠ o → mem' (Loc.addr a) = mem (Loc.addr a)) :
    SlabOk c mem' s (o :: fl) where
  chain := ⟨hhead, h0, h.chain.move hlink
    fun a ha => hslots a (h.slots a ha) fun hao => hno (hao ▸ ha)⟩
  nodup := List.nodup_cons.2 ⟨hno, h.nodup⟩
  slots a ha := by
    rcases List.mem_cons.1 ha with rfl | ha
    · exact ho
    · exact h.slots a ha
  count := hcount

theorem freelistOf_ne_freeCountOf (s : ℕ) : freelistOf s ≠ freeCountOf s := by
  simp [freelistOf, freeCountOf]

theorem slot_ne_freelistOf {c : Layout} (g : Geom c) {s a : ℕ} (ha : a ∈ slotsOf c s) :
    Loc.addr a ≠ freelistOf s := by
  have hb := g.slot_bounds ha
  intro heq
  have := Loc.addr.inj heq
  omega

theorem slot_ne_freeCountOf {c : Layout} (g : Geom c) {s a : ℕ} (ha : a ∈ slotsOf c s) :
    Loc.addr a ≠ freeCountOf s := by
  have hb := g.slot_bounds ha
  intro heq
  have := Loc.addr.inj heq
  omega

namespace Inv

variable {st : State} {sh : Shape}

/-- Writing into the body of a slab leaves the lists alone. -/
theorem lists_update (h : Inv st sh) {t : ℕ} (ht : t ∈ st.owned) {l : Loc} {mem : Loc → ℕ} (v : ℕ)
    (hl : IsBody st.cache.layout t l) (hlists : ListsOk mem sh.full sh.part sh.empty) :
    ListsOk (Function.update mem l v) sh.full sh.part sh.empty :=
  hlists.congr (fun _ hl' => Function.update_of_ne (hl.ne_head hl').symm _ _)
    fun _ hs => Function.update_of_ne
      (h.blocks.body_ne_next h.geom ht (h.mem_owned.2 hs) hl).symm _ _

/-- Writing into the body of a slab leaves the bodies of the other slabs alone. -/
theorem body_update (h : Inv st sh) {s t : ℕ} (hs : s ∈ st.owned) (ht : t ∈ st.owned) (hne : s ≠ t)
    {l l' : Loc} (mem : Loc → ℕ) (v : ℕ) (hl : IsBody st.cache.layout t l)
    (hl' : IsBody st.cache.layout s l') : Function.update mem l v l' = mem l' :=
  Function.update_of_ne (h.blocks.body_ne_body h.geom hs ht hne hl' hl) _ _

theorem free_length_lt (h : Inv st sh) {s : ℕ} (hs : s ∈ st.owned) :
    (sh.free s).length < 2 ^ 32 := by
  have hlt := h.geom.objs_lt
  have hcases : s ∈ sh.full ∨ s ∈ sh.part ∨ s ∈ sh.empty := by
    have hmem := h.mem_owned.1 hs
    simpa [Shape.slabs, or_assoc] using hmem
  change st.cache.slabObjsPer < 2 ^ 32 at hlt
  rcases hcases with hs | hs | hs
  · rw [h.full s hs]; decide
  · exact (h.part s hs).2.trans hlt
  · rw [h.empty s hs]; exact hlt

/-- Moving a slab of the cache from one of its lists to another: the bodies stay as they are. -/
theorem relink (h : Inv st sh) {mem : Loc → ℕ} {start dest other : Loc} (l₁ : List ℕ)
    {l₂ k m : List ℕ} {t : ℕ} (hs : IsHead start) (hd : IsHead dest) (ho : IsHead other) (hsd : start ≠ dest)
    (hso : start ≠ other) (hdo : dest ≠ other) (hstart : Chain nextOf 0 mem start (l₁ ++ t :: l₂))
    (hdest : Chain nextOf 0 mem dest k) (hother : Chain nextOf 0 mem other m)
    (hperm : sh.slabs.Perm (l₁ ++ t :: l₂ ++ (k ++ m))) :
    ∃ mem', kslabRelinkNode { st with mem := mem } start dest t = some { st with mem := mem' } ∧
      Chain nextOf 0 mem' start (l₁ ++ l₂) ∧ Chain nextOf 0 mem' dest (k ++ [t]) ∧
      Chain nextOf 0 mem' other m ∧
      ∀ s ∈ st.owned, ∀ l, IsBody st.cache.layout s l → mem' l = mem l := by
  obtain ⟨mem', hrun, hstart', hdest', hother', hframe⟩ :=
    kslabRelinkNode_spec { st with mem := mem } l₁ hs hd ho hsd hso hdo hstart hdest hother
      (hperm.nodup_iff.1 h.nodup_slabs) (hperm.length_eq ▸ h.length_slabs_lt)
  refine ⟨mem', hrun, hstart', hdest', hother', fun s hs' l hl => ?_⟩
  refine hframe l (fun l' hl' => hl.ne_head hl') fun b hb => ?_
  exact h.blocks.body_ne_next h.geom hs' (h.mem_owned.2 (hperm.mem_iff.2 hb)) hl

end Inv

/-- A list that a slab has left. -/
theorem mem_of_left {l l₁ l₂ : List ℕ} {t : ℕ} (hl : l = l₁ ++ t :: l₂) : ∀ s ∈ l₁ ++ l₂, s ≠ t → s ∈ l := by
  intro s hs _
  rw [hl]
  rcases List.mem_append.1 hs with hs | hs
  · exact List.mem_append_left _ hs
  · exact List.mem_append_right _ (List.mem_cons_of_mem _ hs)

/-- A list that a slab has come to. -/
theorem mem_of_joined {l : List ℕ} {t : ℕ} : ∀ s ∈ l ++ [t], s ≠ t → s ∈ l := by
  intro s hs hst
  rcases List.mem_append.1 hs with hs | hs
  · exact hs
  · exact absurd (List.mem_singleton.1 hs) hst

/-- A slab is not in the list that it has left. -/
theorem notMem_left {l₁ l₂ : List ℕ} {t : ℕ} (hnd : (l₁ ++ t :: l₂).Nodup) : t ∉ l₁ ++ l₂ :=
  (List.nodup_cons.1 (List.nodup_middle.1 hnd)).1

/-- The lists have no slab twice. -/
theorem Inv.nodup_lists {st : State} {sh : Shape} (h : Inv st sh) :
    sh.full.Nodup ∧ sh.part.Nodup ∧ sh.empty.Nodup := by
  have hnd := h.nodup_slabs
  rw [Shape.slabs, List.nodup_append, List.nodup_append] at hnd
  exact ⟨hnd.1.1, hnd.1.2.1, hnd.2.1⟩

/-! ### Allocating from a slab -/

theorem decFreeCount_mem (st : State) {s n : ℕ} (h : st.mem (freeCountOf s) = n + 1) :
    decFreeCount st s = { st with mem := Function.update st.mem (freeCountOf s) n } := by
  rw [decFreeCount, h, Word.dec32_succ]
  rfl

theorem takeObject_mem (st : State) {s o : ℕ} (h : st.mem (freelistOf s) = o) (h0 : o ≠ 0) :
    takeObject st s = some (o, { st with
      mem := Function.update st.mem (freelistOf s) (st.mem (Loc.addr o)) }) := by
  rw [takeObject, h]
  simp only [if_neg h0, State.store]

/-- **The first partial slab**, when its counter has been written: it stays where it is, or moves to the full
list if it has no free slot left. -/
theorem Inv.fill {st : State} {sh : Shape} (h : Inv st sh) {t n : ℕ} {p : List ℕ} (hp : sh.part = t :: p)
    (hn : n < st.cache.slabObjsPer) {mem : Loc → ℕ} (hlists : ListsOk mem sh.full sh.part sh.empty) :
    ∃ mem' full part,
      (if n = 0 then kslabRelinkNode { st with mem := mem } Loc.listPartial Loc.listFull t
        else some { st with mem := mem }) = some { st with mem := mem' } ∧
      ListsOk mem' full part sh.empty ∧
      (∀ s ∈ st.owned, ∀ l, IsBody st.cache.layout s l → mem' l = mem l) ∧
      sh.slabs.Perm (full ++ part ++ sh.empty) ∧
      (∀ s ∈ full, s ≠ t → s ∈ sh.full) ∧ (t ∈ full → n = 0) ∧
      (∀ s ∈ part, s ≠ t → s ∈ sh.part) ∧ (t ∈ part → 0 < n ∧ n < st.cache.slabObjsPer) := by
  have htp : t ∈ sh.part := by simp [hp]
  by_cases hzero : n = 0
  · rw [if_pos hzero]
    have hpart := hlists.part
    rw [hp] at hpart
    obtain ⟨mem', hrun, hstart, hdest, hother, hframe⟩ :=
      h.relink [] (Or.inr (Or.inl rfl)) (Or.inl rfl) (Or.inr (Or.inr rfl)) (by decide)
        (by decide) (by decide) hpart hlists.full hlists.empty (List.perm_iff_count.2 fun a => by
          simp only [Shape.slabs, hp, List.count_append, List.count_nil]; omega)
    have htn : t ∉ p := (List.nodup_cons.1 (hp ▸ h.nodup_lists.2.1)).1
    refine ⟨mem', sh.full ++ [t], p, hrun, ⟨hdest, hstart, hother⟩, hframe, ?_, mem_of_joined, fun _ => hzero,
      mem_of_left (show sh.part = [] ++ t :: p from hp), fun htm => absurd htm htn⟩
    exact List.perm_iff_count.2 fun a => by
      simp only [Shape.slabs, hp, List.count_append, List.count_cons, List.count_nil]; omega
  · rw [if_neg hzero]
    exact ⟨mem, sh.full, sh.part, rfl, hlists, fun _ _ _ _ => rfl, List.Perm.refl _,
      fun _ hs _ => hs, fun htm => absurd htm (h.notMem_of_part htp).1, fun _ hs _ => hs,
      fun _ => ⟨Nat.pos_of_ne_zero hzero, hn⟩⟩

/-- **Allocating from the first partial slab**: the slab gives its first free slot, and moves to
the full list when that was its last. -/
theorem kslabPartialAlloc_spec {st : State} {sh : Shape} (h : Inv st sh) {t : ℕ} {p : List ℕ}
    (hp : sh.part = t :: p) :
    ∃ o fl mem' sh', sh.free t = o :: fl ∧
      kslabPartialAlloc st = some (o, { st with mem := mem' }) ∧
      Inv { st with mem := mem' } sh' ∧ sh'.free = Function.update sh.free t fl ∧
      sh'.empty = sh.empty := by
  have htp : t ∈ sh.part := by simp [hp]
  have ht : t ∈ st.owned := h.mem_owned.2 (by simp [Shape.slabs, htp])
  obtain ⟨-, htempty⟩ := h.notMem_of_part htp
  obtain ⟨hpos, hlt⟩ := h.part t htp
  obtain ⟨o, fl, hfl⟩ := List.exists_cons_of_length_pos hpos
  have hslab := h.slab t ht
  rw [hfl] at hslab hlt
  rw [List.length_cons] at hlt
  have hchain := h.lists.part
  rw [hp] at hchain
  have hcnt := decFreeCount_mem st (n := fl.length) hslab.count
  have hbc : IsBody st.cache.layout t (freeCountOf t) := Or.inr (Or.inl rfl)
  have hbf : IsBody st.cache.layout t (freelistOf t) := Or.inl rfl
  set mem₁ := Function.update st.mem (freeCountOf t) fl.length with hmem₁
  have hlists₁ : ListsOk mem₁ sh.full sh.part sh.empty := h.lists_update ht _ hbc h.lists
  have hc : mem₁ (freeCountOf t) = fl.length := Function.update_self ..
  obtain ⟨mem₂, full, part, hrun, hlists₂, hframe, hperm, hfull, hfull0, hpart, hpart0⟩ :=
    h.fill hp (show fl.length < st.cache.slabObjsPer by omega) hlists₁
  have hmem₂f : mem₂ (freelistOf t) = o := by
    rw [hframe t ht _ hbf, hmem₁, Function.update_of_ne (freelistOf_ne_freeCountOf t)]
    exact hslab.chain.1
  have hmem₂s : ∀ a ∈ slotsOf st.cache.layout t, mem₂ (Loc.addr a) = st.mem (Loc.addr a) := by
    intro a ha
    rw [hframe t ht _ (Or.inr (Or.inr ⟨a, ha, rfl⟩)), hmem₁,
      Function.update_of_ne (slot_ne_freeCountOf h.geom ha)]
  have ho : o ∈ slotsOf st.cache.layout t := hslab.slots o (by simp)
  refine ⟨o, fl, Function.update mem₂ (freelistOf t) (mem₂ (Loc.addr o)),
    ⟨full, part, sh.empty, Function.update sh.free t fl⟩, hfl, ?_, ?_, rfl, rfl⟩
  · unfold kslabPartialAlloc
    rw [hchain.1]
    simp only [if_neg hchain.2.1, hcnt, hc]
    rw [hrun, Option.bind_eq_bind, Option.bind_some]
    exact takeObject_mem { st with mem := mem₂ } hmem₂f hslab.chain.2.1
  · refine h.change hperm ?_ (hslab.take ?_ ?_ ?_) ?_ hfull hfull0 hpart hpart0
      (fun _ hs _ => hs) fun htm => absurd htm htempty
    · refine hlists₂.congr (fun l hl => Function.update_of_ne (hbf.ne_head hl).symm _ _) ?_
      intro s hs
      exact Function.update_of_ne (h.blocks.body_ne_next h.geom ht
        (h.mem_owned.2 (hperm.mem_iff.2 hs)) hbf).symm _ _
    · rw [Function.update_self, hmem₂s o ho]
    · rw [Function.update_of_ne (freelistOf_ne_freeCountOf t).symm, hframe t ht _ hbc, hmem₁,
        Function.update_self]
    · intro a ha
      rw [Function.update_of_ne (slot_ne_freelistOf h.geom ha), hmem₂s a ha]
    · intro s hs hst l hl
      rw [h.body_update hs ht hst _ _ hbf hl, hframe s hs l hl, hmem₁,
        h.body_update hs ht hst _ _ hbc hl]

/-- **Allocating from the first empty slab**: the slab gives its first slot and moves to the
partial list, and the counter of empty slabs is decremented. -/
theorem kslabEmptyAlloc_spec {st : State} {sh : Shape} (h : Inv st sh) {t : ℕ} {e : List ℕ}
    (he : sh.empty = t :: e) :
    ∃ o fl mem' sh', sh.free t = o :: fl ∧
      kslabEmptyAlloc st = some (o, decEmptySlabs { st with mem := mem' }) ∧
      Inv { st with mem := mem' } sh' ∧ sh'.free = Function.update sh.free t fl ∧
      sh'.empty = e := by
  have hte : t ∈ sh.empty := by simp [he]
  have ht : t ∈ st.owned := h.mem_owned.2 (by simp [Shape.slabs, hte])
  obtain ⟨htfull, htpart⟩ := h.notMem_of_empty hte
  have hobjs := h.geom.objs_ge
  have hfull := h.empty t hte
  change 8 ≤ st.cache.slabObjsPer at hobjs
  obtain ⟨o, fl, hfl⟩ := List.exists_cons_of_length_pos (l := sh.free t) (by omega)
  have hslab := h.slab t ht
  rw [hfl] at hslab hfull
  rw [List.length_cons] at hfull
  have hchain := h.lists.empty
  rw [he] at hchain
  have hbc : IsBody st.cache.layout t (freeCountOf t) := Or.inr (Or.inl rfl)
  have hbf : IsBody st.cache.layout t (freelistOf t) := Or.inl rfl
  obtain ⟨mem₁, hrun, hstart, hdest, hother, hframe⟩ :=
    h.relink [] (Or.inr (Or.inr rfl)) (Or.inr (Or.inl rfl)) (Or.inl rfl) (by decide)
      (by decide) (by decide) hchain h.lists.part h.lists.full (List.perm_iff_count.2 fun a => by
        simp only [Shape.slabs, he, List.count_append, List.count_nil]; omega)
  have hmem₁f : mem₁ (freelistOf t) = o := (hframe t ht _ hbf).trans hslab.chain.1
  have ho : o ∈ slotsOf st.cache.layout t := hslab.slots o (by simp)
  have hbs : ∀ a ∈ slotsOf st.cache.layout t, IsBody st.cache.layout t (Loc.addr a) :=
    fun a ha => Or.inr (Or.inr ⟨a, ha, rfl⟩)
  set mem₂ := Function.update mem₁ (freelistOf t) (mem₁ (Loc.addr o)) with hmem₂
  have hmem₂c : mem₂ (freeCountOf t) = fl.length + 1 := by
    rw [hmem₂, Function.update_of_ne (freelistOf_ne_freeCountOf t).symm, hframe t ht _ hbc]
    exact hslab.count
  refine ⟨o, fl, Function.update mem₂ (freeCountOf t) fl.length,
    ⟨sh.full, sh.part ++ [t], e, Function.update sh.free t fl⟩, hfl, ?_, ?_, rfl, rfl⟩
  · unfold kslabEmptyAlloc
    rw [hchain.1]
    simp only [if_neg hchain.2.1]
    rw [hrun, Option.bind_eq_bind, Option.bind_some,
      takeObject_mem (decEmptySlabs { st with mem := mem₁ }) hmem₁f hslab.chain.2.1,
      Option.bind_eq_bind, Option.bind_some]
    exact congrArg (fun st' => some (o, st'))
      (decFreeCount_mem (decEmptySlabs { st with mem := mem₂ }) hmem₂c)
  · have hperm : sh.slabs.Perm (sh.full ++ (sh.part ++ [t]) ++ e) := List.perm_iff_count.2 fun a => by
      simp only [Shape.slabs, he, List.count_append, List.count_cons, List.count_nil]; omega
    have hte' : t ∉ e := (List.nodup_cons.1 (he ▸ h.nodup_lists.2.2)).1
    refine h.change hperm ?_ (hslab.take ?_ ?_ ?_) ?_ (fun _ hs _ => hs) (fun htm => absurd htm htfull)
      mem_of_joined (fun _ => ⟨by omega, by omega⟩) (mem_of_left (show sh.empty = [] ++ t :: e from he)) fun htm => absurd htm hte'
    · have hnext : ∀ (mem : Loc → ℕ) (v : ℕ) (l : Loc), IsBody st.cache.layout t l →
          ListsOk mem sh.full (sh.part ++ [t]) e →
            ListsOk (Function.update mem l v) sh.full (sh.part ++ [t]) e := by
        intro mem v l hl hlists
        refine hlists.congr (fun l' hl' => Function.update_of_ne (hl.ne_head hl').symm _ _) ?_
        intro s hs
        exact Function.update_of_ne (h.blocks.body_ne_next h.geom ht
          (h.mem_owned.2 (hperm.mem_iff.2 hs)) hl).symm _ _
      exact hnext _ _ _ hbc (hnext _ _ _ hbf ⟨hother, hdest, hstart⟩)
    · rw [Function.update_of_ne (freelistOf_ne_freeCountOf t), hmem₂, Function.update_self,
        hframe t ht _ (hbs o ho)]
    · rw [Function.update_self]
    · intro a ha
      rw [Function.update_of_ne (slot_ne_freeCountOf h.geom ha), hmem₂,
        Function.update_of_ne (slot_ne_freelistOf h.geom ha), hframe t ht _ (hbs a ha)]
    · intro s hs hst l hl
      rw [h.body_update hs ht hst _ _ hbc hl, hmem₂, h.body_update hs ht hst _ _ hbf hl,
        hframe s hs l hl]

end Slab

end SyncKernel
