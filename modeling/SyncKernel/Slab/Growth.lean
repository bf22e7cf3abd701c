/-
**Growing a slab cache.**

A slab cache asks the buddy allocator for a block when it is created and when it has no free slot
left.  This module says what a block that the buddy allocator hands out is relied on to be, what
`kslab_new_slab` makes of it, and with that everything that `kslab_alloc` and `kslab_cache_create`
can do.

Main definitions:

* `Slab.Fresh` — an answer of `kbud_alloc`: a block that is aligned to its size and apart from the
  blocks of the cache, or a failure.

Main results:

* `Slab.kslabNewSlab_spec` — **a fresh block becomes an empty slab** with all its slots free;
* `Slab.kslabAlloc_cases` — **everything `kslab_alloc` can do**;
* `Slab.kslabCacheCreate_cases` — everything `kslab_cache_create` can do on empty lists.
-/

import SyncKernel.Slab.Operations

set_option relaxedAutoImplicit false
set_option autoImplicit false

namespace SyncKernel

namespace Slab

/-! ### Fresh blocks -/

/-- What the cache relies on about the answer of `kbud_alloc`: a block is aligned to its size, not
null, inside the address space, and apart from the blocks that the cache owns. -/
def Fresh (st : State) (blk : Option ℕ) : Prop :=
  ∀ b ∈ blk, 0 < b ∧ 2 ^ (12 + st.cache.order) ∣ b ∧
    b + 2 ^ (12 + st.cache.order) ≤ 2 ^ 64 ∧
      ∀ s ∈ st.owned, b + 2 ^ (12 + st.cache.order) ≤ s ∨ s + 2 ^ (12 + st.cache.order) ≤ b

instance (st : State) (blk : Option ℕ) : Decidable (Fresh st blk) :=
  inferInstanceAs (Decidable (∀ b ∈ blk, _))

theorem Fresh.blocks {st : State} {b : ℕ} (hb : Fresh st (some b))
    (h : Blocks st.cache.layout st.owned) : Blocks st.cache.layout (b :: st.owned) := by
  obtain ⟨hpos, hdvd, hle, hap⟩ := hb b rfl
  refine ⟨?_, ?_, ?_, List.pairwise_cons.2 ⟨hap, h.apart⟩⟩
  · intro s hs
    rcases List.mem_cons.1 hs with rfl | hs
    · exact hpos
    · exact h.pos s hs
  · intro s hs
    rcases List.mem_cons.1 hs with rfl | hs
    · exact hdvd
    · exact h.dvd s hs
  · intro s hs
    rcases List.mem_cons.1 hs with rfl | hs
    · exact hle
    · exact h.le s hs

/-- A block is not the error value. -/
theorem Fresh.ne_kpageErr {st : State} {b : ℕ} (hb : Fresh st (some b)) : b ≠ kpageErr := by
  obtain ⟨-, -, hle, -⟩ := hb b rfl
  have hpos : 2 ^ 12 ≤ 2 ^ (12 + st.cache.order) := Nat.pow_le_pow_right (by decide) (by omega)
  unfold kpageErr
  omega

theorem zeroBlock_inside {s size a : ℕ} (mem : Loc → ℕ) (h₁ : s ≤ a) (h₂ : a < s + size) :
    zeroBlock s size mem (Loc.addr a) = 0 := if_pos ⟨h₁, h₂⟩

theorem zeroBlock_outside {s size a : ℕ} (mem : Loc → ℕ) (h : a < s ∨ s + size ≤ a) :
    zeroBlock s size mem (Loc.addr a) = mem (Loc.addr a) := if_neg (by omega)

theorem zeroBlock_head {s size : ℕ} (mem : Loc → ℕ) {l : Loc} (h : IsHead l) :
    zeroBlock s size mem l = mem l := by
  rcases h with rfl | rfl | rfl <;> rfl

theorem kbudAlloc_some {order b : ℕ} (h : order < pframeMaxOrder) : kbudAlloc order (some b) = b :=
  if_neg (by omega)

theorem kbudAlloc_none {order : ℕ} : kbudAlloc order none = kpageErr := by
  unfold kbudAlloc
  by_cases h : order ≥ pframeMaxOrder
  · rw [if_pos h]
  · rw [if_neg h, Option.getD_none]

/-- Without a block, `kslab_new_slab` fails and changes nothing. -/
theorem kslabNewSlab_none (st : State) : kslabNewSlab st none = some (kpageErr, st) := by
  unfold kslabNewSlab
  rw [kbudAlloc_none]
  exact if_pos rfl

/-- Writing the header and the slots of the block at `b`: the free list has all slots, and every
location outside the header fields and the slots keeps its value. -/
theorem initSlab_spec {c : Layout} (g : Geom c) {b : ℕ} (hb : 0 < b)
    (hle : b + 2 ^ (12 + c.order) ≤ 2 ^ 64) (mem : Loc → ℕ) :
    ∃ mem', (let pool := Word.add b c.reserved
        let mem := Function.update mem (poolOf b) pool
        let mem := Function.update mem (freelistOf b) pool
        let mem := Function.update mem (freeCountOf b) c.slabObjsPer
        let last := linkSlots c.objSize (Word.dec32 c.slabObjsPer) pool mem
        Function.update last.2 (Loc.addr last.1) 0) = mem' ∧
      SlabOk c mem' b (slotsOf c b) ∧
      ∀ l, l ≠ poolOf b → ¬ IsBody c b l → mem' l = mem l := by
  have hfit := g.fits
  have hres := g.reserved_ge
  have hobj := g.objSize_ge
  have hcnt := g.objs_ge
  have hlt := g.objs_lt
  have hpool : Word.add b c.reserved = b + c.reserved := Word.add_of_lt (by
    have hpos : 0 < c.objSize * c.slabObjsPer := Nat.mul_pos (by omega) (by omega)
    omega)
  obtain ⟨n, hn⟩ : ∃ n, c.slabObjsPer = n + 1 := ⟨c.slabObjsPer - 1, by omega⟩
  have hrounds : Word.dec32 c.slabObjsPer = n := by rw [hn, Word.dec32_succ]
  have hslots : slotsOf c b = List.range' (b + c.reserved) (n + 1) c.objSize := by
    rw [slotsOf, hn]
  have hend : b + c.reserved + c.objSize * n < 2 ^ 64 := by
    rw [hn, Nat.mul_succ] at hfit
    omega
  have hlast : b + c.reserved + c.objSize * n ∈ slotsOf c b :=
    mem_slotsOf.2 ⟨n, by omega, rfl⟩
  refine ⟨_, rfl, ⟨?_, g.nodup_slotsOf b, fun _ ha => ha, ?_⟩, ?_⟩
  · simp only [hpool, hrounds]
    rw [hslots]
    refine linkSlots_chain (by omega) n _ _ _ (by omega) hend ?_ fun a ha =>
      (slot_ne_freelistOf g (by rw [hslots]; exact ha)).symm
    rw [Function.update_of_ne (freelistOf_ne_freeCountOf b), Function.update_self]
  · simp only [hpool, hrounds]
    rw [linkSlots_fst n _ _ hend, Function.update_of_ne (slot_ne_freeCountOf g hlast).symm,
      linkSlots_of_notMem n _ _ hend, Function.update_self, length_slotsOf]
    intro a ha
    refine (slot_ne_freeCountOf g ?_).symm
    rw [hslots, List.range'_concat]
    exact List.mem_append_left _ ha
  · intro l hl hbody
    have hslot : ∀ a ∈ slotsOf c b, l ≠ Loc.addr a := fun a ha he =>
      hbody (Or.inr (Or.inr ⟨a, ha, he⟩))
    simp only [hpool, hrounds]
    rw [linkSlots_fst n _ _ hend, Function.update_of_ne (hslot _ hlast),
      linkSlots_of_notMem n _ _ hend, Function.update_of_ne fun he => hbody (Or.inr (Or.inl he)),
      Function.update_of_ne fun he => hbody (Or.inl he), Function.update_of_ne hl]
    intro a ha
    refine hslot a ?_
    rw [hslots, List.range'_concat]
    exact List.mem_append_left _ ha

section NewSlab

variable {st : State} {sh : Shape} {b : ℕ}

/-- A fresh block is none of the blocks of the cache. -/
theorem Fresh.notMem (hb : Fresh st (some b)) : b ∉ st.owned := by
  obtain ⟨-, -, -, hap⟩ := hb b rfl
  have hpos : 0 < 2 ^ (12 + st.cache.order) := Nat.two_pow_pos _
  intro hm
  rcases hap b hm with hle | hle <;> omega

/-- Clearing the block touches no location of the slabs. -/
theorem Fresh.clear (h : Inv st sh) (hb : Fresh st (some b)) :
    (∀ s ∈ st.owned, ∀ l, IsBody st.cache.layout s l →
      zeroBlock b (buddyOrderToVal st.cache.order) st.mem l = st.mem l) ∧
      ListsOk (zeroBlock b (buddyOrderToVal st.cache.order) st.mem) sh.full sh.part sh.empty ∧
      zeroBlock b (buddyOrderToVal st.cache.order) st.mem (nextOf b) = 0 := by
  obtain ⟨-, -, -, hap⟩ := hb b rfl
  have g := h.geom
  have hfit := g.fits
  have hres := g.reserved_ge
  have hsize : buddyOrderToVal st.cache.order = 2 ^ (12 + st.cache.order) := g.buddyOrderToVal_eq
  have hbig : 48 ≤ 2 ^ (12 + st.cache.order) := by
    change 48 ≤ 2 ^ (12 + st.cache.layout.order)
    omega
  refine ⟨fun s hs l hl => ?_, h.lists.congr (fun l hl => zeroBlock_head _ hl) fun s hs => ?_,
    zeroBlock_inside _ (by omega) (by rw [hsize]; omega)⟩
  · obtain ⟨a, rfl, h₁, h₂⟩ := hl.exists_addr g
    change a < s + 2 ^ (12 + st.cache.order) at h₂
    exact zeroBlock_outside _ (by rw [hsize]; rcases hap s hs with h' | h' <;> omega)
  · have hs' := h.mem_owned.2 hs
    exact zeroBlock_outside _ (by rw [hsize]; rcases hap s hs' with h' | h' <;> omega)

/-- The block is appended to the list of empty slabs. -/
theorem Inv.join (h : Inv st sh) (hpos : 0 < b) (hbo : b ∉ st.owned) {mem : Loc → ℕ}
    (hlists : ListsOk mem sh.full sh.part sh.empty) (hzero : mem (nextOf b) = 0) :
    ∃ p, findLink nextOf 0 mem 0 addrSpace Loc.listEmpty = some p ∧
      ListsOk (Function.update mem p b) sh.full sh.part (sh.empty ++ [b]) ∧
      ∀ s ∈ st.owned, ∀ l, IsBody st.cache.layout s l → Function.update mem p b l = mem l := by
  have hlen := h.length_slabs_lt
  have hnd := h.nodup_slabs
  have hbsh : b ∉ sh.full ++ sh.part ++ sh.empty := fun hm => hbo (h.mem_owned.2 hm)
  have hfind : findLink nextOf 0 mem 0 addrSpace Loc.listEmpty =
      some (linkOf nextOf Loc.listEmpty sh.empty) :=
    findLink_end hlists.empty (fun h0 => hlists.empty.ne_null 0 h0 rfl) (by
      rw [Shape.slabs, List.length_append] at hlen; omega)
  -- the last link belongs to the list of empty slabs
  have hpne : ∀ l, l ≠ Loc.listEmpty → (∀ s ∈ sh.empty, l ≠ nextOf s) →
      l ≠ linkOf nextOf Loc.listEmpty sh.empty := by
    intro l hl hs
    rcases linkOf_eq nextOf Loc.listEmpty sh.empty with he | ⟨s, hsl, he⟩
    · rw [he]; exact hl
    · rw [he]; exact hs s hsl
  have hdisj : ∀ s ∈ sh.full ++ sh.part, ∀ a ∈ sh.empty, nextOf s ≠ nextOf a :=
    fun s hs a ha he => (List.nodup_append.1 hnd).2.2 s hs a ha (nextOf_injective he)
  refine ⟨_, hfind, ⟨?_, ?_, ?_⟩, fun s hs l hl => ?_⟩
  · exact hlists.full.update_of_notMem _ (hpne _ (by decide) fun s _ => by simp [nextOf]).symm
      fun s hs => (hpne _ (by simp [nextOf]) (hdisj s (by simp [hs]))).symm
  · exact hlists.part.update_of_notMem _ (hpne _ (by decide) fun s _ => by simp [nextOf]).symm
      fun s hs => (hpne _ (by simp [nextOf]) (hdisj s (by simp [hs]))).symm
  · have hsame : Function.update mem (nextOf b) 0 = mem := by
      rw [← hzero, Function.update_eq_self]
    have hnd' : ((b :: sh.empty).map nextOf).Nodup :=
      (List.nodup_cons.2 ⟨fun hm => hbsh (by simp [hm]), h.nodup_lists.2.2⟩).map nextOf_injective
    have happ := hlists.empty.append (a := b) (by omega) (by simp [nextOf])
      (fun s _ => by simp [nextOf]) hnd'
    rwa [hsame] at happ
  · exact Function.update_of_ne (hpne l (hl.ne_head (Or.inr (Or.inr rfl))) fun a ha =>
      h.blocks.body_ne_next h.geom hs (h.mem_owned.2 (by simp [Shape.slabs, ha])) hl) _ _

/-- The header and the slots of the new slab leave the lists and the other slabs alone. -/
theorem Inv.lists_init (h : Inv st sh) (hb : Fresh st (some b)) {mem mem' : Loc → ℕ}
    (hlists : ListsOk mem sh.full sh.part (sh.empty ++ [b]))
    (hframe : ∀ l, l ≠ poolOf b → ¬ IsBody st.cache.layout b l → mem' l = mem l) :
    ListsOk mem' sh.full sh.part (sh.empty ++ [b]) ∧
      ∀ s ∈ st.owned, ∀ l, IsBody st.cache.layout s l → mem' l = mem l := by
  obtain ⟨-, -, -, hap⟩ := hb b rfl
  have hblocks := hb.blocks h.blocks
  have g := h.geom
  have hfit := g.fits
  have hres := g.reserved_ge
  change _ ≤ 2 ^ (12 + st.cache.order) at hfit
  have hpool : ∀ a, (a < b + 24 ∨ b + 2 ^ (12 + st.cache.order) ≤ a) → Loc.addr a ≠ poolOf b := by
    intro a ha he
    have haddr := Loc.addr.inj he
    omega
  have hnext : ∀ s ∈ b :: st.owned, mem' (nextOf s) = mem (nextOf s) := by
    intro s hs
    refine hframe _ ?_ fun hb' => hblocks.body_ne_next g (by simp) hs hb' rfl
    rcases List.mem_cons.1 hs with rfl | hs
    · exact hpool _ (by omega)
    · exact hpool _ (by rcases hap s hs with h' | h' <;> omega)
  refine ⟨hlists.congr (fun l hl => ?_) fun s hs => hnext s ?_, fun s hs l hl => ?_⟩
  · exact hframe l (by rcases hl with rfl | rfl | rfl <;> simp [poolOf]) fun hb' => hb'.ne_head hl rfl
  · rw [← List.append_assoc, List.mem_append, List.mem_singleton] at hs
    rcases hs with hs | rfl
    · exact List.mem_cons_of_mem _ (h.mem_owned.2 hs)
    · simp
  · have hne : s ≠ b := fun he => hb.notMem (he ▸ hs)
    refine hframe l ?_ fun hb' => hblocks.body_ne_body g (List.mem_cons_of_mem _ hs) (by simp) hne hl hb' rfl
    obtain ⟨a, rfl, h₁, h₂⟩ := hl.exists_addr g
    change a < s + 2 ^ (12 + st.cache.order) at h₂
    exact hpool _ (by rcases hap s hs with h' | h' <;> omega)

/-- **The rule for a new slab**, all of whose slots are free. -/
theorem Inv.grow (h : Inv st sh) (hb : Fresh st (some b)) {mem : Loc → ℕ}
    (hlists : ListsOk mem sh.full sh.part (sh.empty ++ [b]))
    (hslab : SlabOk st.cache.layout mem b (slotsOf st.cache.layout b))
    (hbody : ∀ s ∈ st.owned, ∀ l, IsBody st.cache.layout s l → mem l = st.mem l) :
    Inv { st with mem := mem, owned := b :: st.owned }
      ⟨sh.full, sh.part, sh.empty ++ [b], Function.update sh.free b (slotsOf st.cache.layout b)⟩ := by
  have hne : ∀ s ∈ sh.slabs, s ≠ b := fun s hs he => hb.notMem (he ▸ h.mem_owned.2 hs)
  refine ⟨h.geom, hb.blocks h.blocks, ?_, hlists, fun s hs => ?_, fun s hs => ?_, fun s hs => ?_, fun s hs => ?_⟩
  · refine (List.Perm.cons b h.perm).trans (List.perm_iff_count.2 fun a => ?_)
    simp only [Shape.slabs, List.count_append, List.count_cons, List.count_nil]
    omega
  · rcases List.mem_cons.1 hs with rfl | hs
    · change SlabOk st.cache.layout mem s (Function.update sh.free s _ s)
      rw [Function.update_self]
      exact hslab
    · change SlabOk st.cache.layout mem s (Function.update sh.free b _ s)
      rw [Function.update_of_ne (hne s (h.mem_owned.1 hs))]
      exact (h.slab s hs).congr (hbody s hs)
  · dsimp only
    rw [Function.update_of_ne (hne s (by simp [Shape.slabs, hs]))]
    exact h.full s hs
  · dsimp only
    rw [Function.update_of_ne (hne s (by simp [Shape.slabs, hs]))]
    exact h.part s hs
  · dsimp only
    rcases List.mem_append.1 hs with hs | hs
    · rw [Function.update_of_ne (hne s (by simp [Shape.slabs, hs]))]
      exact h.empty s hs
    · rw [List.mem_singleton.1 hs, Function.update_self, length_slotsOf]
      rfl

/-- **A fresh block becomes an empty slab**: it is appended to the empty list, and all its slots
are free. -/
theorem kslabNewSlab_spec (h : Inv st sh) (hb : Fresh st (some b)) :
    ∃ mem', kslabNewSlab st (some b) =
        some (b, { st with mem := mem', owned := b :: st.owned }) ∧
      Inv { st with mem := mem', owned := b :: st.owned }
        ⟨sh.full, sh.part, sh.empty ++ [b],
          Function.update sh.free b (slotsOf st.cache.layout b)⟩ := by
  obtain ⟨hpos, -, hle, -⟩ := hb b rfl
  have hord : st.cache.order < 4 := h.geom.order_lt
  obtain ⟨hbody₀, hlists₀, hzero⟩ := hb.clear h
  obtain ⟨p, hfind, hlists₁, hbody₁⟩ := h.join hpos hb.notMem hlists₀ hzero
  obtain ⟨mem', hrun, hslab, hframe⟩ := initSlab_spec h.geom hpos hle
    (Function.update (zeroBlock b (buddyOrderToVal st.cache.order) st.mem) p b)
  obtain ⟨hlists, hbody⟩ := h.lists_init hb hlists₁ hframe
  refine ⟨mem', ?_, h.grow hb hlists hslab fun s hs l hl =>
    (hbody s hs l hl).trans ((hbody₁ s hs l hl).trans (hbody₀ s hs l hl))⟩
  unfold kslabNewSlab
  rw [kbudAlloc_some (by unfold pframeMaxOrder; omega)]
  simp only [if_neg hb.ne_kpageErr]
  rw [hfind, Option.bind_eq_bind, Option.bind_some, ← hrun]
  rfl

end NewSlab

/-! ### Allocating -/

/-- The new free lists after the slot `o` was handed out: `o` was the first free slot of one slab
and is taken off its list. -/
structure Taken (c : Layout) (owned : List ℕ) (free free' : ℕ → List ℕ) (o : ℕ) : Prop where
  slab : ∃ t ∈ owned, o ∈ slotsOf c t ∧ o ∈ free t ∧ o ∉ free' t
  sub : ∀ s ∈ owned, ∀ a ∈ free' s, a ∈ free s

theorem Taken.of_update {st : State} {sh : Shape} (h : Inv st sh) {t o : ℕ} {fl : List ℕ}
    (ht : t ∈ st.owned) (hfl : sh.free t = o :: fl) :
    Taken st.cache.layout st.owned sh.free (Function.update sh.free t fl) o where
  slab := by
    have hok := h.slab t ht
    rw [hfl] at hok
    refine ⟨t, ht, hok.slots o (by simp), by simp [hfl], ?_⟩
    rw [Function.update_self]
    exact (List.nodup_cons.1 hok.nodup).1
  sub s _ a ha := by
    by_cases hst : s = t
    · subst hst
      rw [Function.update_self] at ha
      simp [hfl, ha]
    · rwa [Function.update_of_ne hst] at ha

/-- An object is not the error value. -/
theorem Taken.ne_kpageErr {st : State} {sh : Shape} (h : Inv st sh) {free' : ℕ → List ℕ} {o : ℕ}
    (ho : Taken st.cache.layout st.owned sh.free free' o) : o ≠ kpageErr := by
  obtain ⟨t, ht, hslot, -, -⟩ := ho.slab
  have hb := h.geom.slot_bounds hslot
  have hle := h.blocks.le t ht
  have hobj := h.geom.objSize_ge
  unfold kpageErr
  omega

/-- **Everything `kslab_alloc` can do.**  It takes a slot of a partial slab; or, when there is
none, of an empty slab, and then decrements the counter; or, when there is neither, it fails and
changes nothing, or takes a slot of a fresh slab and decrements the counter. -/
theorem kslabAlloc_cases {st : State} {sh : Shape} (h : Inv st sh) {blk : Option ℕ}
    (hb : Fresh st blk) :
    (∃ o mem' sh', sh.part ≠ [] ∧ kslabAlloc st blk = some (o, { st with mem := mem' }) ∧
      Inv { st with mem := mem' } sh' ∧ sh'.empty = sh.empty ∧
      Taken st.cache.layout st.owned sh.free sh'.free o) ∨
    (∃ o t mem' sh', sh.part = [] ∧ sh.empty = t :: sh'.empty ∧
      kslabAlloc st blk = some (o, decEmptySlabs { st with mem := mem' }) ∧
      Inv { st with mem := mem' } sh' ∧ Taken st.cache.layout st.owned sh.free sh'.free o) ∨
    (sh.part = [] ∧ sh.empty = [] ∧ blk = none ∧ kslabAlloc st blk = some (kpageErr, st)) ∨
    (∃ b o mem' sh', sh.part = [] ∧ sh.empty = [] ∧ blk = some b ∧ sh'.empty = [] ∧
      kslabAlloc st blk =
        some (o, decEmptySlabs { st with mem := mem', owned := b :: st.owned }) ∧
      Inv { st with mem := mem', owned := b :: st.owned } sh' ∧
      Taken st.cache.layout (b :: st.owned)
        (Function.update sh.free b (slotsOf st.cache.layout b)) sh'.free o) := by
  have howned : ∀ {s}, s ∈ sh.slabs → s ∈ st.owned := fun hs => h.mem_owned.2 hs
  cases hp : sh.part with
  | cons t p =>
      obtain ⟨o, fl, mem', sh', hfl, hrun, hinv, hfree, hempty⟩ := kslabPartialAlloc_spec h hp
      have htk : Taken st.cache.layout st.owned sh.free sh'.free o :=
        hfree ▸ Taken.of_update h (howned (by simp [Shape.slabs, hp])) hfl
      refine Or.inl ⟨o, mem', sh', by simp, ?_, hinv, hempty, htk⟩
      rw [kslabAlloc, firstAlloc, hrun, Option.bind_eq_bind, Option.bind_some]
      exact if_pos (htk.ne_kpageErr h)
  | nil =>
      have hpart : kslabPartialAlloc st = some (kpageErr, st) := by
        have hl := h.lists.part
        rw [hp, chain_nil] at hl
        exact if_pos hl
      have hfirst : kslabAlloc st blk = firstAlloc [kslabEmptyAlloc, kslabNewAlloc blk] st := by
        rw [kslabAlloc, firstAlloc, hpart, Option.bind_eq_bind, Option.bind_some]
        exact if_neg (by simp)
      cases he : sh.empty with
      | cons t e =>
          obtain ⟨o, fl, mem', sh', hfl, hrun, hinv, hfree, hempty⟩ := kslabEmptyAlloc_spec h he
          have htk : Taken st.cache.layout st.owned sh.free sh'.free o :=
            hfree ▸ Taken.of_update h (howned (by simp [Shape.slabs, he])) hfl
          refine Or.inr (Or.inl ⟨o, t, mem', sh', rfl, by rw [hempty], ?_, hinv, htk⟩)
          rw [hfirst, firstAlloc, hrun, Option.bind_eq_bind, Option.bind_some]
          exact if_pos (htk.ne_kpageErr h)
      | nil =>
          have hempty : kslabEmptyAlloc st = some (kpageErr, st) := by
            have hl := h.lists.empty
            rw [he, chain_nil] at hl
            exact if_pos hl
          have hnew : kslabAlloc st blk = firstAlloc [kslabNewAlloc blk] st := by
            rw [hfirst, firstAlloc, hempty, Option.bind_eq_bind, Option.bind_some]
            exact if_neg (by simp)
          cases blk with
          | none =>
              refine Or.inr (Or.inr (Or.inl ⟨rfl, rfl, rfl, ?_⟩))
              have hfail : kslabNewAlloc none st = some (kpageErr, st) := by
                rw [kslabNewAlloc, kslabNewSlab_none, Option.bind_eq_bind, Option.bind_some]
                exact if_pos rfl
              rw [hnew, firstAlloc, hfail, Option.bind_eq_bind, Option.bind_some]
              exact if_neg (by simp)
          | some b =>
              obtain ⟨mem₁, hrun₁, hinv₁⟩ := kslabNewSlab_spec h hb
              obtain ⟨o, fl, mem', sh', hfl, hrun, hinv, hfree, hemp⟩ :=
                kslabEmptyAlloc_spec hinv₁ (t := b) (e := []) (by simp [he])
              have htk : Taken st.cache.layout (b :: st.owned)
                  (Function.update sh.free b (slotsOf st.cache.layout b)) sh'.free o :=
                hfree ▸ Taken.of_update hinv₁ (by simp) hfl
              refine Or.inr (Or.inr (Or.inr ⟨b, o, mem', sh', rfl, rfl, rfl, hemp, ?_, hinv, htk⟩))
              have hnewAlloc : kslabNewAlloc (some b) st = some (o, decEmptySlabs
                  { st with mem := mem', owned := b :: st.owned }) := by
                rw [kslabNewAlloc, hrun₁, Option.bind_eq_bind, Option.bind_some]
                exact (if_neg hb.ne_kpageErr).trans hrun
              rw [hnew, firstAlloc, hnewAlloc, Option.bind_eq_bind, Option.bind_some]
              exact if_pos (htk.ne_kpageErr hinv₁)

/-! ### Creating a cache -/

/-- The three lists of the cache are empty. -/
def NoSlabs (st : State) : Prop := ListsOk st.mem [] [] []

/-- **Everything `kslab_cache_create` can do** to a cache without slabs: it finds no geometry and
changes nothing, or sets the geometry and fails for want of a block, or ends with one slab, which
is empty. -/
theorem kslabCacheCreate_cases {st : State} {objsize alignment flags : ℕ} {blk : Option ℕ}
    {c : Ctx} (hno : NoSlabs st) (howned : st.owned = []) (hobj : 8 ≤ objsize)
    (ha : alignment < 2 ^ 64) (hc : chooseGeometry objsize alignment = some c)
    (hb : Fresh (setGeometry st c objsize alignment flags) blk) :
    (c.waste = noWaste ∧ kslabCacheCreate st objsize alignment flags blk = some (1, st)) ∨
    (c.waste ≠ noWaste ∧ blk = none ∧ kslabCacheCreate st objsize alignment flags blk =
      some (-1, setGeometry st c objsize alignment flags)) ∨
    (∃ b st' sh, c.waste ≠ noWaste ∧ blk = some b ∧
      kslabCacheCreate st objsize alignment flags blk = some (0, st') ∧ Inv st' sh ∧
      st'.cache = (setGeometry st c objsize alignment flags).cache ∧ st'.freed = st.freed ∧
      st'.owned = [b] ∧ sh.full = [] ∧ sh.part = [] ∧ sh.empty = [b]) := by
  have hstart : kslabCacheCreate st objsize alignment flags blk =
      if c.waste = noWaste then some (1, st)
      else (kslabNewSlab (setGeometry st c objsize alignment flags) blk).bind fun r =>
        if r.1 = kpageErr then some (-1, r.2) else some (0, r.2) := by
    rw [kslabCacheCreate, hc]
    rfl
  by_cases hw : c.waste = noWaste
  · exact Or.inl ⟨hw, hstart.trans (if_pos hw)⟩
  rw [if_neg hw] at hstart
  cases blk with
  | none =>
      refine Or.inr (Or.inl ⟨hw, rfl, ?_⟩)
      rw [hstart, kslabNewSlab_none, Option.bind_some]
      exact if_pos rfl
  | some b =>
      have hinv : Inv (setGeometry st c objsize alignment flags) ⟨[], [], [], fun _ => []⟩ := by
        refine ⟨geom_of_chooseGeometry hobj ha hc hw, ?_, ?_, hno, ?_, ?_, ?_, ?_⟩
        · change Blocks _ st.owned
          rw [howned]
          exact ⟨by simp, by simp, by simp, List.Pairwise.nil⟩
        · change st.owned.Perm _
          rw [howned]
          exact List.Perm.refl _
        · intro s hs
          change s ∈ st.owned at hs
          simp [howned] at hs
        all_goals simp
      obtain ⟨mem', hrun, hinv'⟩ := kslabNewSlab_spec hinv hb
      refine Or.inr (Or.inr ⟨b, _, _, hw, rfl, ?_, hinv', rfl, rfl, ?_, rfl, rfl, rfl⟩)
      · rw [hstart, hrun, Option.bind_some]
        exact if_neg hb.ne_kpageErr
      · change b :: st.owned = [b]
        rw [howned]

end Slab

end SyncKernel
