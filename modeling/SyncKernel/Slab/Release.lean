/-
**Giving objects and slabs back.**

`kslab_free` puts an object on the free list of its slab.  A slab that was full becomes partial;
a slab whose last object comes back becomes empty, and when the cache then counts too many empty
slabs the first of them goes back to the buddy allocator.  `kslab_cache_destroy` gives all slabs
back.

Main results:

* `Slab.trim_spec` — the first empty slab goes back to the buddy allocator;
* `Slab.kslabFree_cases` — **everything `kslab_free` can do** with an object that is in use;
* `Slab.kslabCacheDestroy_spec` — **every slab is given back exactly once**, in the order of the
  lists, and the heads of the lists keep their values.
-/

import SyncKernel.Slab.Growth

set_option relaxedAutoImplicit false
set_option autoImplicit false

namespace SyncKernel

namespace Slab

/-! ### Putting a slot back -/

/-- The three writes with which `kslab_free` puts the object `o` on the free list of the slab
`t`. -/
def putObject (st : State) (t o : ℕ) : State :=
  let st₁ := st.store (Loc.addr o) (st.mem (freelistOf t))
  let st₂ := st₁.store (freelistOf t) o
  st₂.store (freeCountOf t) ((st₂.mem (freeCountOf t) + 1) % 2 ^ 32)

theorem putObject_spec {st : State} {sh : Shape} (h : Inv st sh) {t o : ℕ} (ht : t ∈ st.owned)
    (ho : o ∈ slotsOf st.cache.layout t) (hno : o ∉ sh.free t) :
    ∃ mem', putObject st t o = { st with mem := mem' } ∧
      SlabOk st.cache.layout mem' t (o :: sh.free t) ∧
      ListsOk mem' sh.full sh.part sh.empty ∧
      ∀ s ∈ st.owned, s ≠ t → ∀ l, IsBody st.cache.layout s l → mem' l = st.mem l := by
  have hslab := h.slab t ht
  have hlen := h.free_length_lt ht
  have hobjs := h.geom.objs_lt
  change st.cache.slabObjsPer < 2 ^ 32 at hobjs
  have hb := h.geom.slot_bounds ho
  have hbc : IsBody st.cache.layout t (freeCountOf t) := Or.inr (Or.inl rfl)
  have hbf : IsBody st.cache.layout t (freelistOf t) := Or.inl rfl
  have hbo : IsBody st.cache.layout t (Loc.addr o) := Or.inr (Or.inr ⟨o, ho, rfl⟩)
  have hof := slot_ne_freelistOf h.geom ho
  have hoc := slot_ne_freeCountOf h.geom ho
  have hcount : Function.update (Function.update st.mem (Loc.addr o) (st.mem (freelistOf t)))
      (freelistOf t) o (freeCountOf t) = (sh.free t).length := by
    rw [Function.update_of_ne (freelistOf_ne_freeCountOf t).symm, Function.update_of_ne hoc.symm]
    exact hslab.count
  -- the slot that comes back is not on the list, so the list does not have all slots
  have hlt : (sh.free t).length + 1 < 2 ^ 32 := by
    have hnd : (o :: sh.free t).Nodup := List.nodup_cons.2 ⟨hno, hslab.nodup⟩
    have hsub : (o :: sh.free t).length ≤ (slotsOf st.cache.layout t).length := by
      refine (hnd.subperm fun a ha => ?_).length_le
      rcases List.mem_cons.1 ha with rfl | ha
      · exact ho
      · exact hslab.slots a ha
    rw [length_slotsOf, List.length_cons] at hsub
    exact Nat.lt_of_le_of_lt hsub hobjs
  refine ⟨_, rfl, ?_, ?_, ?_⟩
  · dsimp only [State.store]
    rw [hcount, Nat.mod_eq_of_lt hlt]
    refine hslab.put ho hno (by omega) ?_ ?_ (Function.update_self ..) ?_
    · rw [Function.update_of_ne (freelistOf_ne_freeCountOf t), Function.update_self]
    · rw [Function.update_of_ne hoc, Function.update_of_ne hof, Function.update_self]
    · intro a ha hao
      rw [Function.update_of_ne (slot_ne_freeCountOf h.geom ha),
        Function.update_of_ne (slot_ne_freelistOf h.geom ha),
        Function.update_of_ne fun he => hao (Loc.addr.inj he)]
  · exact h.lists_update ht _ hbc (h.lists_update ht _ hbf (h.lists_update ht _ hbo h.lists))
  · intro s hs hst l hl
    dsimp only [State.store]
    rw [h.body_update hs ht hst _ _ hbc hl, h.body_update hs ht hst _ _ hbf hl,
      h.body_update hs ht hst _ _ hbo hl]

/-! ### Trimming -/

/-- **The first empty slab goes back** to the buddy allocator. -/
theorem trim_spec {st : State} {sh : Shape} (h : Inv st sh) {f : ℕ} {e : List ℕ}
    (he : sh.empty = f :: e) (junk : ℕ → ℕ) :
    ∃ mem', kslabRemoveNode st Loc.listEmpty (st.mem Loc.listEmpty) junk =
        some { st with
          mem := mem', owned := st.owned.erase f, freed := st.freed ++ [(f, st.cache.order)] } ∧
      Inv { st with
          mem := mem', owned := st.owned.erase f, freed := st.freed ++ [(f, st.cache.order)] }
        ⟨sh.full, sh.part, e, sh.free⟩ := by
  have hf : f ∈ st.owned := h.mem_owned.2 (by simp [Shape.slabs, he])
  have hchain := h.lists.empty
  rw [he] at hchain
  have hnd := h.nodup_slabs
  have hlen := h.length_slabs_lt
  rw [Shape.slabs, he] at hnd hlen
  obtain ⟨hrun, hrest⟩ := kslabRemoveNode_spec junk (Or.inr (Or.inr rfl)) hchain
    (List.nodup_append.1 hnd).2.1 (by rw [List.length_append] at hlen; omega)
  rw [hchain.1, hrun]
  have g := h.geom
  have hfit := g.fits
  have hres := g.reserved_ge
  -- the two words that `kbud_free` writes lie in the block it takes
  have hjunk : ∀ (mem : Loc → ℕ) (l : Loc),
      (∀ a, l = Loc.addr a → a < f ∨ f + 2 ^ (12 + st.cache.layout.order) ≤ a) →
        Function.update (Function.update mem (Loc.addr f) (junk f)) (Loc.addr (f + 16))
          (junk (f + 16)) l = mem l := by
    intro mem l hl
    rw [Function.update_of_ne, Function.update_of_ne]
    · rintro rfl
      have := hl f rfl
      omega
    · rintro rfl
      have := hl (f + 16) rfl
      omega
  have hout : ∀ s ∈ st.owned, s ≠ f → ∀ a, s ≤ a → a < s + 2 ^ (12 + st.cache.layout.order) →
      a < f ∨ f + 2 ^ (12 + st.cache.layout.order) ≤ a := by
    intro s hs hsf a h₁ h₂
    rcases h.blocks.apart_of_ne hs hf hsf with hap | hap <;> omega
  have hmemE : ∀ {s}, s ∈ st.owned.erase f → s ∈ st.owned ∧ s ≠ f := fun hs =>
    ⟨List.mem_of_mem_erase hs, ((h.blocks.nodup.mem_erase_iff).1 hs).1⟩
  have hperm : (st.owned.erase f).Perm (sh.full ++ sh.part ++ e) := by
    refine (h.perm.erase f).trans ?_
    rw [Shape.slabs, he]
    exact (List.perm_middle.erase f).trans (by rw [List.erase_cons_head])
  have hnext : ∀ s ∈ st.owned, s ≠ f → ∀ mem : Loc → ℕ, Function.update (Function.update mem
      (Loc.addr f) (junk f)) (Loc.addr (f + 16)) (junk (f + 16)) (nextOf s) = mem (nextOf s) := by
    intro s hs hsf mem
    refine hjunk mem _ fun a ha => hout s hs hsf a ?_ ?_ <;>
    · have := Loc.addr.inj ha
      omega
  have hheads : ∀ (l : Loc), IsHead l → ∀ mem : Loc → ℕ, Function.update (Function.update mem
      (Loc.addr f) (junk f)) (Loc.addr (f + 16)) (junk (f + 16)) l = mem l := by
    intro l hl mem
    refine hjunk mem _ fun a ha => ?_
    rcases hl with rfl | rfl | rfl <;> exact Loc.noConfusion ha
  have hne : ∀ s ∈ sh.full ++ sh.part ++ e, s ∈ st.owned ∧ s ≠ f := fun s hs =>
    hmemE (hperm.mem_iff.2 hs)
  refine ⟨_, rfl, ⟨g, h.blocks.erase f, hperm, ?_, ?_, h.full, h.part, ?_⟩⟩
  · have hlists : ListsOk (Function.update st.mem Loc.listEmpty (st.mem (nextOf f))) sh.full sh.part
        e :=
      ⟨h.lists.full.update_of_notMem _ (by decide) fun s _ => by simp [nextOf],
        h.lists.part.update_of_notMem _ (by decide) fun s _ => by simp [nextOf], hrest⟩
    exact hlists.congr (fun l hl => hheads l hl _) fun s hs => hnext s (hne s hs).1 (hne s hs).2 _
  · intro s hs
    obtain ⟨hs, hsf⟩ := hmemE hs
    refine (h.slab s hs).congr fun l hl => ?_
    obtain ⟨a, rfl, h₁, h₂⟩ := hl.exists_addr g
    refine (hjunk _ _ fun a' ha' => ?_).trans
      (Function.update_of_ne (hl.ne_head (Or.inr (Or.inr rfl))) (st.mem (nextOf f)) _)
    obtain rfl := Loc.addr.inj ha'
    exact hout s hs hsf _ (by omega) h₂
  · intro s hs
    exact h.empty s (by rw [he]; exact List.mem_cons_of_mem _ hs)

/-! ### Freeing an object -/

/-- `kslab_free` in terms of the object's slab. -/
theorem kslabFree_eq {st : State} {sh : Shape} (h : Inv st sh) {t o : ℕ} (ht : t ∈ st.owned)
    (ho : o ∈ slotsOf st.cache.layout t) (junk : ℕ → ℕ) :
    kslabFree st o junk =
      if st.mem (freeCountOf t) = 0 then
        kslabRelinkNode (putObject st t o) Loc.listFull Loc.listPartial t
      else if (putObject st t o).mem (freeCountOf t) = st.cache.slabObjsPer then
        (kslabRelinkNode (putObject st t o) Loc.listPartial Loc.listEmpty t).bind fun st₄ =>
          let st₅ := incEmptySlabs (incEmptySlabs st₄)
          if st₅.cache.emptySlabs > st₅.cache.maxEmptySlabs then
            (kslabRemoveNode st₅ Loc.listEmpty (st₅.mem Loc.listEmpty) junk).bind fun st₆ =>
              some (decEmptySlabs st₆)
          else some st₅
      else some (putObject st t o) := by
  have hmask := slot_mask h.geom (h.blocks.dvd t ht) (h.blocks.le t ht) ho
  change o &&& Word.not (Word.sub (buddyOrderToVal st.cache.order) 1) = t at hmask
  have hpos := h.blocks.pos t ht
  have hb := h.geom.slot_bounds ho
  have hnull : ¬ (t = 0 ∨ o = 0) := by omega
  rw [kslabFree, hmask]
  simp only [if_neg hnull]
  rfl

section Freed

variable {st : State} {sh : Shape} {t o : ℕ} {mem : Loc → ℕ}

/-- A slab with an object in use is not empty. -/
theorem Inv.notMem_empty (h : Inv st sh) (ht : t ∈ st.owned) (ho : o ∈ slotsOf st.cache.layout t)
    (hno : o ∉ sh.free t) : t ∉ sh.empty := by
  intro hte
  have hperm := ((h.slab t ht).nodup.subperm (h.slab t ht).slots).perm_of_length_le (by
    rw [length_slotsOf, h.empty t hte]; exact le_rfl)
  exact hno (hperm.symm.subset ho)

/-- The slab was full and becomes partial. -/
theorem Inv.free_full (h : Inv st sh) (htf : t ∈ sh.full)
    (hslab : SlabOk st.cache.layout mem t (o :: sh.free t)) (hlists : ListsOk mem sh.full sh.part sh.empty)
    (hbody : ∀ s ∈ st.owned, s ≠ t → ∀ l, IsBody st.cache.layout s l → mem l = st.mem l) :
    ∃ mem' sh', kslabRelinkNode { st with mem := mem } Loc.listFull Loc.listPartial t =
        some { st with mem := mem' } ∧
      Inv { st with mem := mem' } sh' ∧ sh'.empty = sh.empty ∧
      sh'.free = Function.update sh.free t (o :: sh.free t) := by
  have ht : t ∈ st.owned := h.mem_owned.2 (by simp [Shape.slabs, htf])
  have hobjs := h.geom.objs_ge
  change 8 ≤ st.cache.slabObjsPer at hobjs
  obtain ⟨l₁, l₂, hl⟩ := List.append_of_mem htf
  have hfl := h.full t htf
  have hstart := hlists.full
  rw [hl] at hstart
  obtain ⟨mem', hrun, hfull, hpart, hempty, hframe⟩ := h.relink l₁ (Or.inl rfl)
    (Or.inr (Or.inl rfl)) (Or.inr (Or.inr rfl)) (by decide) (by decide) (by decide) hstart
    hlists.part hlists.empty (List.perm_iff_count.2 fun a => by
      simp only [Shape.slabs, hl, List.count_append]; omega)
  have htl : t ∉ l₁ ++ l₂ := notMem_left (hl ▸ h.nodup_lists.1)
  refine ⟨mem', ⟨l₁ ++ l₂, sh.part ++ [t], sh.empty, _⟩, hrun, ?_, rfl, rfl⟩
  refine h.change (List.perm_iff_count.2 fun a => by
    simp only [Shape.slabs, hl, List.count_append, List.count_cons, List.count_nil]; omega)
    ⟨hfull, hpart, hempty⟩ (hslab.congr (hframe t ht)) ?_ (mem_of_left hl) (fun htm => absurd htm htl)
    mem_of_joined (fun _ => by rw [List.length_cons]; omega) (fun _ hs _ => hs)
    fun htm => absurd htm (h.notMem_of_full htf).2
  intro s hs hst l hbl
  rw [hframe s hs l hbl, hbody s hs hst l hbl]

/-- The slab was partial and becomes empty. -/
theorem Inv.free_last (h : Inv st sh) (htp : t ∈ sh.part) (hlast : (sh.free t).length + 1 = st.cache.slabObjsPer)
    (hslab : SlabOk st.cache.layout mem t (o :: sh.free t)) (hlists : ListsOk mem sh.full sh.part sh.empty)
    (hbody : ∀ s ∈ st.owned, s ≠ t → ∀ l, IsBody st.cache.layout s l → mem l = st.mem l) :
    ∃ mem' sh', kslabRelinkNode { st with mem := mem } Loc.listPartial Loc.listEmpty t =
        some { st with mem := mem' } ∧
      Inv { st with mem := mem' } sh' ∧ sh'.empty = sh.empty ++ [t] ∧
      sh'.free = Function.update sh.free t (o :: sh.free t) := by
  have ht : t ∈ st.owned := h.mem_owned.2 (by simp [Shape.slabs, htp])
  obtain ⟨l₁, l₂, hl⟩ := List.append_of_mem htp
  have hstart := hlists.part
  rw [hl] at hstart
  obtain ⟨mem', hrun, hpart, hempty, hfull, hframe⟩ := h.relink l₁ (Or.inr (Or.inl rfl))
    (Or.inr (Or.inr rfl)) (Or.inl rfl) (by decide) (by decide) (by decide) hstart
    hlists.empty hlists.full (List.perm_iff_count.2 fun a => by
      simp only [Shape.slabs, hl, List.count_append]; omega)
  have htl : t ∉ l₁ ++ l₂ := notMem_left (hl ▸ h.nodup_lists.2.1)
  refine ⟨mem', ⟨sh.full, l₁ ++ l₂, sh.empty ++ [t], _⟩, hrun, ?_, rfl, rfl⟩
  refine h.change (List.perm_iff_count.2 fun a => by
    simp only [Shape.slabs, hl, List.count_append, List.count_cons, List.count_nil]; omega)
    ⟨hfull, hpart, hempty⟩ (hslab.congr (hframe t ht)) ?_ (fun _ hs _ => hs)
    (fun htm => absurd htm (h.notMem_of_part htp).1) (mem_of_left hl) (fun htm => absurd htm htl) mem_of_joined
    fun _ => by rw [List.length_cons]; exact hlast
  intro s hs hst l hbl
  rw [hframe s hs l hbl, hbody s hs hst l hbl]

/-- The slab stays partial. -/
theorem Inv.free_part (h : Inv st sh) (htp : t ∈ sh.part) (hmore : (sh.free t).length + 1 < st.cache.slabObjsPer)
    (hslab : SlabOk st.cache.layout mem t (o :: sh.free t)) (hlists : ListsOk mem sh.full sh.part sh.empty)
    (hbody : ∀ s ∈ st.owned, s ≠ t → ∀ l, IsBody st.cache.layout s l → mem l = st.mem l) :
    Inv { st with mem := mem }
      ⟨sh.full, sh.part, sh.empty, Function.update sh.free t (o :: sh.free t)⟩ := by
  obtain ⟨htf, hte⟩ := h.notMem_of_part htp
  exact h.change (List.Perm.refl _) hlists hslab hbody (fun _ hs _ => hs)
    (fun htm => absurd htm htf) (fun _ hs _ => hs)
    (fun _ => by rw [List.length_cons]; omega) (fun _ hs _ => hs) fun htm => absurd htm hte

end Freed

/-- **Everything `kslab_free` can do** with an object of the slab `t` that is not free.  The object
becomes the first free slot of its slab, and unless that was the last object of the slab, the
empty slabs and the counter stay as they are.  Otherwise the slab joins the empty ones and the
counter is incremented twice; and if it then exceeds the maximum, the first empty slab goes back to
the buddy allocator and the counter is decremented. -/
theorem kslabFree_cases {st : State} {sh : Shape} (h : Inv st sh) {t o : ℕ} (ht : t ∈ st.owned)
    (ho : o ∈ slotsOf st.cache.layout t) (hno : o ∉ sh.free t) (junk : ℕ → ℕ) :
    (∃ mem' sh', (sh.free t).length + 1 < st.cache.slabObjsPer ∧
      kslabFree st o junk = some { st with mem := mem' } ∧ Inv { st with mem := mem' } sh' ∧
      sh'.empty = sh.empty ∧ sh'.free = Function.update sh.free t (o :: sh.free t)) ∨
    (∃ mem' sh', (sh.free t).length + 1 = st.cache.slabObjsPer ∧
      Inv { st with mem := mem' } sh' ∧ sh'.empty = sh.empty ++ [t] ∧
      sh'.free = Function.update sh.free t (o :: sh.free t) ∧
      ((¬ (incEmptySlabs (incEmptySlabs st)).cache.emptySlabs > st.cache.maxEmptySlabs ∧
        kslabFree st o junk = some (incEmptySlabs (incEmptySlabs { st with mem := mem' }))) ∨
      (∃ f e mem'', (incEmptySlabs (incEmptySlabs st)).cache.emptySlabs > st.cache.maxEmptySlabs ∧
        sh'.empty = f :: e ∧
        kslabFree st o junk = some (decEmptySlabs (incEmptySlabs (incEmptySlabs { st with
          mem := mem'', owned := st.owned.erase f, freed := st.freed ++ [(f, st.cache.order)] }))) ∧
        Inv { st with
          mem := mem'', owned := st.owned.erase f, freed := st.freed ++ [(f, st.cache.order)] }
          ⟨sh'.full, sh'.part, e, sh'.free⟩))) := by
  obtain ⟨mem₁, hput, hslab, hlists, hbody⟩ := putObject_spec h ht ho hno
  have heq := kslabFree_eq h ht ho junk
  have hcount : mem₁ (freeCountOf t) = (sh.free t).length + 1 := hslab.count
  rw [hput, (h.slab t ht).count] at heq
  have hobjs := h.geom.objs_ge
  change 8 ≤ st.cache.slabObjsPer at hobjs
  have hmem := h.mem_owned.1 ht
  rw [Shape.slabs, List.mem_append, List.mem_append] at hmem
  rcases hmem.resolve_right (h.notMem_empty ht ho hno) with htf | htp
  · have hzero := h.full t htf
    obtain ⟨mem₂, sh', hrun, hinv, hempty, hfree⟩ := h.free_full htf hslab hlists hbody
    rw [if_pos hzero] at heq
    exact Or.inl ⟨mem₂, sh', by omega, heq.trans hrun, hinv, hempty, hfree⟩
  · obtain ⟨hpos, hlt⟩ := h.part t htp
    rw [if_neg (by omega)] at heq
    dsimp only at heq
    by_cases hlast : (sh.free t).length + 1 = st.cache.slabObjsPer
    · obtain ⟨mem₂, sh', hrun, hinv, hempty, hfree⟩ := h.free_last htp hlast hslab hlists hbody
      rw [if_pos (hcount.trans hlast), hrun, Option.bind_some] at heq
      refine Or.inr ⟨mem₂, sh', hlast, hinv, hempty, hfree, ?_⟩
      by_cases hmax : (incEmptySlabs (incEmptySlabs st)).cache.emptySlabs > st.cache.maxEmptySlabs
      · -- the first of the empty slabs goes back
        obtain ⟨f, e, hfe⟩ := List.exists_cons_of_ne_nil (l := sh'.empty) (by rw [hempty]; simp)
        obtain ⟨mem₃, hrem, hinv'⟩ := trim_spec hinv.inc.inc hfe junk
        refine Or.inr ⟨f, e, mem₃, hmax, hfe, ?_, hinv'.setEmptySlabs st.cache.emptySlabs⟩
        rw [heq]
        refine (if_pos hmax).trans ?_
        rw [hrem]
        rfl
      · exact Or.inl ⟨hmax, heq.trans (if_neg hmax)⟩
    · rw [if_neg fun hc => hlast (hcount.symm.trans hc)] at heq
      exact Or.inl ⟨mem₁, _, by omega, heq, h.free_part htp (by omega) hslab hlists hbody, rfl, rfl⟩

/-! ### Destroying a cache -/

/-- The link fields of the slabs, and the location `p`, are none of the words that `kbud_free`
writes into the blocks `l`. -/
def JunkApart (p : Loc) (l : List ℕ) : Prop :=
  ∀ s ∈ l, (p ≠ Loc.addr s ∧ p ≠ Loc.addr (s + 16)) ∧
    ∀ t ∈ l, nextOf t ≠ Loc.addr s ∧ nextOf t ≠ Loc.addr (s + 16)

theorem JunkApart.of_blocks {c : Layout} (g : Geom c) {bs l : List ℕ} (h : Blocks c bs)
    (hl : ∀ s ∈ l, s ∈ bs) {p : Loc} (hp : IsHead p) : JunkApart p l := by
  have hfit := g.fits
  have hres := g.reserved_ge
  refine fun s hs => ⟨?_, fun t ht => ?_⟩
  · rcases hp with rfl | rfl | rfl <;> simp
  · have hap : s = t ∨ s + 2 ^ (12 + c.order) ≤ t ∨ t + 2 ^ (12 + c.order) ≤ s := by
      by_cases hst : s = t
      · exact Or.inl hst
      · exact Or.inr (h.apart_of_ne (hl s hs) (hl t ht) hst)
    constructor
    · intro heq
      have := Loc.addr.inj heq
      rcases hap with rfl | hap | hap <;> omega
    · intro heq
      have := Loc.addr.inj heq
      rcases hap with rfl | hap | hap <;> omega

/-- The loop over one list gives each of its slabs back once, in order, and writes only the two
words that `kbud_free` writes into each. -/
theorem destroyList_spec (junk : ℕ → ℕ) :
    ∀ {l : List ℕ} {p : Loc} (st : State) {n : ℕ}, Chain nextOf 0 st.mem p l → JunkApart p l →
      l.length < n →
      ∃ mem', destroyList junk n p st = some { st with
          mem := mem', owned := st.owned.diff l
          freed := st.freed ++ l.map fun s => (s, st.cache.order) } ∧
        ∀ loc, (∀ s ∈ l, loc ≠ Loc.addr s ∧ loc ≠ Loc.addr (s + 16)) → mem' loc = st.mem loc := by
  intro l
  induction l with
  | nil =>
      intro p st n hch _ hn
      obtain ⟨n, rfl⟩ : ∃ k, n = k + 1 := ⟨n - 1, by simp at hn; omega⟩
      refine ⟨st.mem, ?_, fun _ _ => rfl⟩
      rw [destroyList, if_pos (chain_nil.1 hch)]
      simp
  | cons s l ih =>
      intro p st n hch hap hn
      obtain ⟨n, rfl⟩ : ∃ k, n = k + 1 := ⟨n - 1, by simp at hn; omega⟩
      have hkeep : ∀ loc, loc ≠ Loc.addr s → loc ≠ Loc.addr (s + 16) →
          (kbudFree st s st.cache.order junk).mem loc = st.mem loc := by
        intro loc h₁ h₂
        exact (Function.update_of_ne h₂ _ _).trans (Function.update_of_ne h₁ _ _)
      have hnext : ∀ t ∈ s :: l, (kbudFree st s st.cache.order junk).mem (nextOf t) =
          st.mem (nextOf t) := fun t ht =>
        hkeep _ ((hap s (by simp)).2 t ht).1 ((hap s (by simp)).2 t ht).2
      have hrest : Chain nextOf 0 (kbudFree st s st.cache.order junk).mem (nextOf s) l :=
        hch.2.2.congr (hnext s (by simp)) fun t ht => hnext t (List.mem_cons_of_mem _ ht)
      obtain ⟨mem', hrun, hframe⟩ := ih _ (n := n) hrest (fun t ht =>
        ⟨(hap t (List.mem_cons_of_mem _ ht)).2 s (by simp), fun u hu =>
          (hap t (List.mem_cons_of_mem _ ht)).2 u (List.mem_cons_of_mem _ hu)⟩)
        (by simpa using hn)
      refine ⟨mem', ?_, fun loc hloc => ?_⟩
      · rw [destroyList, hch.1, if_neg hch.2.1]
        refine hrun.trans ?_
        simp [kbudFree, List.diff_cons]
      · rw [hframe loc fun t ht => hloc t (List.mem_cons_of_mem _ ht)]
        exact hkeep loc (hloc s (by simp)).1 (hloc s (by simp)).2

/-- **Destroying a cache gives each of its slabs back exactly once**, in the order of the lists;
the heads of the lists and the link fields of the slabs keep their values. -/
theorem kslabCacheDestroy_spec {st : State} {full part empty : List ℕ} (junk : ℕ → ℕ)
    (hlists : ListsOk st.mem full part empty)
    (hap : ∀ p, IsHead p → JunkApart p (full ++ part ++ empty))
    (hlen : (full ++ part ++ empty).length < addrSpace) :
    ∃ mem', kslabCacheDestroy st junk = some
        { cache := { st.cache with objSize := 2 ^ 64 - 1, slabPages := 0, order := 2 ^ 32 - 1 }
          mem := mem'
          owned := ((st.owned.diff full).diff part).diff empty
          freed := st.freed ++ (full ++ part ++ empty).map fun s => (s, st.cache.order) } ∧
      (∀ l, IsHead l → mem' l = st.mem l) ∧
      ∀ s ∈ full ++ part ++ empty, mem' (nextOf s) = st.mem (nextOf s) := by
  simp only [List.length_append] at hlen
  have hsub : ∀ {p l}, IsHead p → (∀ s ∈ l, s ∈ full ++ part ++ empty) → JunkApart p l := by
    intro p l hp hl s hs
    exact ⟨(hap p hp s (hl s hs)).1, fun t ht => (hap p hp s (hl s hs)).2 t (hl t ht)⟩
  -- the locations of the lists survive the loop over any of them
  have hkeep : ∀ {mem mem' : Loc → ℕ} {l : List ℕ}, (∀ s ∈ l, s ∈ full ++ part ++ empty) →
      (∀ loc, (∀ s ∈ l, loc ≠ Loc.addr s ∧ loc ≠ Loc.addr (s + 16)) → mem' loc = mem loc) →
      (∀ p, IsHead p → mem' p = mem p) ∧
        ∀ s ∈ full ++ part ++ empty, mem' (nextOf s) = mem (nextOf s) := by
    intro mem mem' l hl hframe
    exact ⟨fun p hp => hframe p fun s hs => (hap p hp s (hl s hs)).1,
      fun t ht => hframe _ fun s hs => (hap _ (Or.inl rfl) s (hl s hs)).2 t ht⟩
  have hf : ∀ s ∈ full, s ∈ full ++ part ++ empty := fun s hs => by simp [hs]
  have hp : ∀ s ∈ part, s ∈ full ++ part ++ empty := fun s hs => by simp [hs]
  have he : ∀ s ∈ empty, s ∈ full ++ part ++ empty := fun s hs => by simp [hs]
  obtain ⟨mem₁, hrun₁, hframe₁⟩ := destroyList_spec junk st (n := addrSpace) hlists.full
    (hsub (Or.inl rfl) hf) (by omega)
  obtain ⟨hh₁, hn₁⟩ := hkeep hf hframe₁
  have hlists₁ := hlists.congr hh₁ hn₁
  obtain ⟨mem₂, hrun₂, hframe₂⟩ := destroyList_spec junk
    { st with
      mem := mem₁, owned := st.owned.diff full
      freed := st.freed ++ full.map fun s => (s, st.cache.order) } (n := addrSpace) hlists₁.part
    (hsub (Or.inr (Or.inl rfl)) hp) (by omega)
  obtain ⟨hh₂, hn₂⟩ := hkeep hp hframe₂
  have hlists₂ := hlists₁.congr hh₂ hn₂
  obtain ⟨mem₃, hrun₃, hframe₃⟩ := destroyList_spec junk
    { st with
      mem := mem₂, owned := (st.owned.diff full).diff part
      freed := st.freed ++ full.map (fun s => (s, st.cache.order)) ++
        part.map fun s => (s, st.cache.order) } (n := addrSpace) hlists₂.empty
    (hsub (Or.inr (Or.inr rfl)) he) (by omega)
  obtain ⟨hh₃, hn₃⟩ := hkeep he hframe₃
  refine ⟨mem₃, ?_, fun l hl => ?_, fun s hs => ?_⟩
  · rw [kslabCacheDestroy, hrun₁, Option.bind_eq_bind, Option.bind_some, hrun₂, Option.bind_some,
      hrun₃, Option.bind_some]
    simp only [List.map_append, List.append_assoc]
  · exact (hh₃ l hl).trans ((hh₂ l hl).trans (hh₁ l hl))
  · exact (hn₃ s hs).trans ((hn₂ s hs).trans (hn₁ s hs))

end Slab

end SyncKernel
