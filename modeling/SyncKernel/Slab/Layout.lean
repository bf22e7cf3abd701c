/-
**The layout of a slab.**

`kslab_cache_create` chooses an order, the room for the header and the number of objects; a slab
then is a header at the base of an aligned block and an arithmetic progression of slots behind it.
This module shows that every geometry the function accepts fits, that headers and slots of the
slabs of a cache never overlap, and that the loop of `kslab_new_slab` threads a list through all
slots of a slab.

Main definitions:

* `Slab.Layout` — the fields of a cache that place the slots;
* `Slab.Geom` — what the chosen geometry satisfies;
* `Slab.slotsOf` — the addresses of the slots of a slab;
* `Slab.Blocks` — the blocks of a cache: aligned, not null, pairwise apart;
* `Slab.IsBody` — the locations that belong to a slab but not to the lists of slabs.

Main results:

* `Slab.geom_of_chooseGeometry` — **the chosen geometry fits its block**;
* `Slab.slot_mask` — masking the address of an object gives its slab;
* `Slab.linkSlots_chain` — the initial free list has exactly the slots, in order;
* `Slab.Blocks.body_ne_next`, `Slab.Blocks.body_ne_body` — nothing overlaps.
-/

import Mathlib.Data.List.Pairwise
import SyncKernel.Slab.Basic

set_option relaxedAutoImplicit false
set_option autoImplicit false

namespace SyncKernel

namespace Slab

/-! ### The geometry -/

/-- The fields of a cache that say where the slots of a slab are. -/
structure Layout where
  order : ℕ
  objSize : ℕ
  slabObjsPer : ℕ
  reserved : ℕ

/-- The layout of a cache's slabs. -/
def KslabCache.layout (c : KslabCache) : Layout :=
  ⟨c.order, c.objSize, c.slabObjsPer, c.reserved⟩

/-- What a chosen geometry satisfies: the order is below 4, the header has room, and at least eight
objects of a pointer's size or more fit behind it. -/
structure Geom (c : Layout) : Prop where
  order_lt : c.order < 4
  reserved_ge : 48 ≤ c.reserved
  objSize_ge : 8 ≤ c.objSize
  objs_ge : 8 ≤ c.slabObjsPer
  fits : c.reserved + c.objSize * c.slabObjsPer ≤ 2 ^ (12 + c.order)

/-- The candidates that the loop keeps: none yet, or one that fits. -/
def CtxOk (objsize : ℕ) (c : Ctx) : Prop :=
  c.waste = noWaste ∨
    (c.order < 4 ∧ 48 ≤ c.reserved ∧ 8 ≤ c.count ∧
      c.reserved + objsize * c.count ≤ 2 ^ (12 + c.order))

theorem reserved_ge {alignment : ℕ} (h0 : 0 < alignment) (h : alignment < 2 ^ 64) :
    slabHdrSz ≤ Word.add slabHdrSz ((alignment - slabHdrSz % alignment) % alignment) := by
  have hsum : slabHdrSz + (alignment - slabHdrSz % alignment) % alignment < 2 ^ 64 := by
    rcases Nat.lt_or_ge slabHdrSz alignment with hlt | hge
    · have hpos : 0 < slabHdrSz := by decide
      rw [Nat.mod_eq_of_lt hlt, Nat.mod_eq_of_lt (Nat.sub_lt h0 hpos)]
      omega
    · have hmod : (alignment - slabHdrSz % alignment) % alignment < alignment := Nat.mod_lt _ h0
      have h48 : slabHdrSz = 48 := rfl
      omega
  rw [Word.add_of_lt hsum]
  exact Nat.le_add_right _ _

/-- The bytes before the first slot of a slab. -/
def headRoom (alignment : ℕ) : ℕ :=
  Word.add slabHdrSz ((alignment - slabHdrSz % alignment) % alignment)

/-- **One round** keeps the candidate, or takes the order `i` with all objects that fit. -/
theorem tryOrder_cases {objsize alignment : ℕ} {c c' : Ctx} {i : ℕ}
    (h : tryOrder objsize alignment c i = some c') :
    c' = c ∨ alignment ≠ 0 ∧ headRoom alignment < 2 ^ i * pageSize ∧
      ¬ ((2 ^ i * pageSize - headRoom alignment) / objsize < 8 ∧ i < 4) ∧
      c' = ⟨i, headRoom alignment % 2 ^ 32, (2 ^ i * pageSize - headRoom alignment) / objsize,
        2 ^ i * pageSize - (headRoom alignment +
          (2 ^ i * pageSize - headRoom alignment) / objsize * objsize)⟩ := by
  unfold tryOrder at h
  by_cases h0 : alignment = 0
  · simp [h0] at h
  rw [if_neg h0] at h
  change (if 2 ^ i * pageSize ≤ headRoom alignment then some c else _) = _ at h
  by_cases h1 : 2 ^ i * pageSize ≤ headRoom alignment
  · rw [if_pos h1] at h
    exact Or.inl (Option.some_inj.1 h).symm
  rw [if_neg h1] at h
  by_cases h2 : objsize = 0
  · simp [h2] at h
  rw [if_neg h2] at h
  change (if (2 ^ i * pageSize - headRoom alignment) / objsize < 8 ∧ i < 4 then some c else
    if (2 ^ i * pageSize - headRoom alignment) / objsize = 0 then some c else _) = _ at h
  by_cases h3 : (2 ^ i * pageSize - headRoom alignment) / objsize < 8 ∧ i < 4
  · rw [if_pos h3] at h
    exact Or.inl (Option.some_inj.1 h).symm
  rw [if_neg h3] at h
  by_cases h4 : (2 ^ i * pageSize - headRoom alignment) / objsize = 0
  · rw [if_pos h4] at h
    exact Or.inl (Option.some_inj.1 h).symm
  rw [if_neg h4] at h
  change (if 2 ^ i * pageSize - (headRoom alignment +
    (2 ^ i * pageSize - headRoom alignment) / objsize * objsize) < c.waste then _ else _) = _ at h
  by_cases h5 : 2 ^ i * pageSize - (headRoom alignment +
      (2 ^ i * pageSize - headRoom alignment) / objsize * objsize) < c.waste
  · rw [if_pos h5] at h
    exact Or.inr ⟨h0, Nat.not_le.1 h1, h3, (Option.some_inj.1 h).symm⟩
  · rw [if_neg h5] at h
    exact Or.inl (Option.some_inj.1 h).symm

theorem tryOrder_ok {objsize alignment : ℕ} (ha : alignment < 2 ^ 64) {c c' : Ctx} {i : ℕ}
    (hi : i < 4) (hc : CtxOk objsize c) (h : tryOrder objsize alignment c i = some c') :
    CtxOk objsize c' := by
  rcases tryOrder_cases h with rfl | ⟨h0, hlt, h8, rfl⟩
  · exact hc
  -- the order was accepted
  have hres : slabHdrSz ≤ headRoom alignment := reserved_ge (Nat.pos_of_ne_zero h0) ha
  revert hlt h8 hres
  generalize headRoom alignment = r
  intro hlt h8 hres
  have hsize : 2 ^ i * pageSize = 2 ^ (12 + i) := by
    rw [show pageSize = 2 ^ 12 from rfl, ← Nat.pow_add, Nat.add_comm]
  have hpow : 2 ^ (12 + i) < 2 ^ 32 := Nat.pow_lt_pow_right (by decide) (by omega)
  have hdiv := Nat.div_mul_le_self (2 ^ i * pageSize - r) objsize
  have hr : r % 2 ^ 32 = r := Nat.mod_eq_of_lt (by omega)
  refine Or.inr ?_
  dsimp only
  rw [hr, Nat.mul_comm objsize, ← hsize]
  unfold slabHdrSz at hres
  refine ⟨hi, hres, ?_, by omega⟩
  by_contra hlt8
  exact h8 ⟨by omega, hi⟩

/-- What holds before the loop and is kept by each round holds of the chosen geometry. -/
theorem chooseGeometry_induct {objsize alignment : ℕ} {P : Ctx → Prop}
    (hstep : ∀ {c c' : Ctx} {i : ℕ}, i < 4 → P c → tryOrder objsize alignment c i = some c' → P c')
    (h0 : P ⟨0, 0, 0, noWaste⟩) {c : Ctx} (h : chooseGeometry objsize alignment = some c) : P c := by
  have hrun : ∀ (is : List ℕ) {c c' : Ctx}, (∀ i ∈ is, i < 4) → P c →
      is.foldlM (tryOrder objsize alignment) c = some c' → P c' := by
    intro is
    induction is with
    | nil =>
        intro c c' _ hc h
        simp only [List.foldlM_nil, Option.pure_def, Option.some.injEq] at h
        exact h ▸ hc
    | cons i is ih =>
        intro c c' his hc h
        rw [List.foldlM_cons] at h
        obtain ⟨c₁, hc₁, h⟩ := Option.bind_eq_some_iff.1 h
        exact ih (fun j hj => his j (List.mem_cons_of_mem _ hj)) (hstep (his i (by simp)) hc hc₁) h
  exact hrun (List.range 4) (fun i hi => List.mem_range.1 hi) h0 h

/-- **The chosen geometry fits its block**, when the cache has objects of a pointer's size. -/
theorem geom_of_chooseGeometry {objsize alignment flags : ℕ} {st : State} {c : Ctx}
    (hobj : 8 ≤ objsize) (ha : alignment < 2 ^ 64)
    (h : chooseGeometry objsize alignment = some c) (hw : c.waste ≠ noWaste) :
    Geom (setGeometry st c objsize alignment flags).cache.layout := by
  have hok := chooseGeometry_induct (P := CtxOk objsize) (tryOrder_ok ha) (Or.inl rfl) h
  obtain ⟨hord, hres, hcnt, hfit⟩ := hok.resolve_left hw
  have hle : 2 ^ (12 + c.order) ≤ 2 ^ 15 := Nat.pow_le_pow_right (by decide) (by omega)
  have hcount : c.count ≤ objsize * c.count := Nat.le_mul_of_pos_left _ (by omega)
  have hmod : c.count % 2 ^ 32 = c.count := Nat.mod_eq_of_lt (by omega)
  refine ⟨hord, hres, hobj, ?_, ?_⟩
  · change 8 ≤ c.count % 2 ^ 32
    rwa [hmod]
  · change c.reserved + objsize * (c.count % 2 ^ 32) ≤ 2 ^ (12 + c.order)
    rwa [hmod]

/-! ### Slots -/

/-- The addresses of the slots of the slab at `s`. -/
def slotsOf (c : Layout) (s : ℕ) : List ℕ :=
  List.range' (s + c.reserved) c.slabObjsPer c.objSize

theorem mem_slotsOf {c : Layout} {s a : ℕ} :
    a ∈ slotsOf c s ↔ ∃ i < c.slabObjsPer, a = s + c.reserved + c.objSize * i := List.mem_range'

@[simp] theorem length_slotsOf (c : Layout) (s : ℕ) :
    (slotsOf c s).length = c.slabObjsPer := List.length_range'

namespace Geom

variable {c : Layout}

theorem buddyOrderToVal_eq (g : Geom c) : buddyOrderToVal c.order = 2 ^ (12 + c.order) := by
  have hord := g.order_lt
  rw [buddyOrderToVal, if_neg (by unfold pframeMaxOrder; omega), show pageSize = 2 ^ 12 from rfl,
    ← Nat.pow_add]

/-- The number of objects fits the `u32` counters. -/
theorem objs_lt (g : Geom c) : c.slabObjsPer < 2 ^ 32 := by
  have hord := g.order_lt
  have hle : 2 ^ (12 + c.order) ≤ 2 ^ 15 := Nat.pow_le_pow_right (by decide) (by omega)
  have hobj := g.objSize_ge
  have hmul : c.slabObjsPer ≤ c.objSize * c.slabObjsPer := Nat.le_mul_of_pos_left _ (by omega)
  have hfit := g.fits
  omega

theorem nodup_slotsOf (g : Geom c) (s : ℕ) : (slotsOf c s).Nodup :=
  List.nodup_range' _ (Nat.lt_of_lt_of_le (by decide) g.objSize_ge)

/-- A slot lies behind the header and inside the block. -/
theorem slot_bounds (g : Geom c) {s a : ℕ} (ha : a ∈ slotsOf c s) :
    s + 48 ≤ a ∧ a + c.objSize ≤ s + 2 ^ (12 + c.order) := by
  obtain ⟨i, hi, rfl⟩ := mem_slotsOf.1 ha
  have hmul : c.objSize * (i + 1) ≤ c.objSize * c.slabObjsPer := Nat.mul_le_mul_left _ hi
  have hfit := g.fits
  have hres := g.reserved_ge
  rw [Nat.mul_succ] at hmul
  omega

/-- Two slots of a slab do not overlap. -/
theorem slot_apart {s a a' : ℕ} (ha : a ∈ slotsOf c s) (ha' : a' ∈ slotsOf c s)
    (hne : a ≠ a') : a + c.objSize ≤ a' ∨ a' + c.objSize ≤ a := by
  obtain ⟨i, hi, rfl⟩ := mem_slotsOf.1 ha
  obtain ⟨j, hj, rfl⟩ := mem_slotsOf.1 ha'
  rcases Nat.lt_trichotomy i j with h | h | h
  · have hmul : c.objSize * (i + 1) ≤ c.objSize * j := Nat.mul_le_mul_left _ h
    rw [Nat.mul_succ] at hmul
    exact Or.inl (by omega)
  · exact absurd (by rw [h]) hne
  · have hmul : c.objSize * (j + 1) ≤ c.objSize * i := Nat.mul_le_mul_left _ h
    rw [Nat.mul_succ] at hmul
    exact Or.inr (by omega)

end Geom

/-- **Masking the address of an object gives its slab.** -/
theorem slot_mask {c : Layout} (g : Geom c) {s a : ℕ} (hs : 2 ^ (12 + c.order) ∣ s)
    (hend : s + 2 ^ (12 + c.order) ≤ 2 ^ 64) (ha : a ∈ slotsOf c s) :
    a &&& Word.not (Word.sub (buddyOrderToVal c.order) 1) = s := by
  have hb := g.slot_bounds ha
  have hobj := g.objSize_ge
  have hord := g.order_lt
  have hlt : 2 ^ (12 + c.order) < 2 ^ 64 := Nat.pow_lt_pow_right (by decide) (by omega)
  have hpos : 0 < 2 ^ (12 + c.order) := Nat.two_pow_pos _
  rw [g.buddyOrderToVal_eq, Word.sub_of_le hpos hlt, Word.and_not_mask (by omega) (by omega)]
  obtain ⟨q, rfl⟩ := hs
  have hq : a / 2 ^ (12 + c.order) = q := by
    refine Nat.div_eq_of_lt_le ?_ ?_
    · rw [Nat.mul_comm]; omega
    · rw [Nat.succ_mul, Nat.mul_comm q]; omega
  rw [hq, Nat.mul_comm]

/-! ### The initial free list -/

/-- The loop leaves every location alone that is not one of the slots it visits. -/
theorem linkSlots_of_notMem {d : ℕ} {l : Loc} :
    ∀ (n curr : ℕ) (mem : Loc → ℕ), curr + d * n < 2 ^ 64 →
      (∀ a ∈ List.range' curr n d, l ≠ Loc.addr a) → (linkSlots d n curr mem).2 l = mem l := by
  intro n
  induction n with
  | zero => intro curr mem _ _; rfl
  | succ n ih =>
      intro curr mem hlt hl
      rw [Nat.mul_succ] at hlt
      have hadd : Word.add curr d = curr + d := Word.add_of_lt (by omega)
      rw [List.range'_succ] at hl
      rw [linkSlots, hadd, ih _ _ (by omega) fun a ha => hl a (List.mem_cons_of_mem _ ha),
        Function.update_of_ne (hl curr (by simp))]

theorem linkSlots_fst {d : ℕ} :
    ∀ (n curr : ℕ) (mem : Loc → ℕ), curr + d * n < 2 ^ 64 →
      (linkSlots d n curr mem).1 = curr + d * n := by
  intro n
  induction n with
  | zero => intro curr mem _; rfl
  | succ n ih =>
      intro curr mem hlt
      rw [Nat.mul_succ] at hlt ⊢
      have hadd : Word.add curr d = curr + d := Word.add_of_lt (by omega)
      rw [linkSlots, hadd, ih _ _ (by omega)]
      omega

/-- **The initial free list** has exactly the slots, in order: `l` is the location that holds the
first slot, and no slot itself. -/
theorem linkSlots_chain {d : ℕ} (hd : 0 < d) :
    ∀ (n curr : ℕ) (mem : Loc → ℕ) (l : Loc), 0 < curr → curr + d * n < 2 ^ 64 → mem l = curr →
      (∀ a ∈ List.range' curr (n + 1) d, l ≠ Loc.addr a) →
      Chain Loc.addr 0
        (Function.update (linkSlots d n curr mem).2 (Loc.addr (linkSlots d n curr mem).1) 0) l
        (List.range' curr (n + 1) d) := by
  intro n
  induction n with
  | zero =>
      intro curr mem l h0 _ hl hne
      have hlc : l ≠ Loc.addr curr := hne curr (by simp)
      refine ⟨?_, by omega, Function.update_self ..⟩
      simpa [linkSlots, Function.update_of_ne hlc] using hl
  | succ n ih =>
      intro curr mem l h0 hlt hl hne
      rw [Nat.mul_succ] at hlt
      have hadd : Word.add curr d = curr + d := Word.add_of_lt (by omega)
      have hfst := linkSlots_fst (d := d) n (curr + d)
        (Function.update mem (Loc.addr curr) (curr + d)) (by omega)
      have hlc : l ≠ Loc.addr curr := hne curr (by simp [List.range'_succ])
      rw [List.range'_succ, linkSlots, hadd]
      refine ⟨?_, by omega, ih (curr + d) _ (Loc.addr curr) (by omega) (by omega) (by simp) ?_⟩
      · have hrest : ∀ a ∈ List.range' (curr + d) (n + 1) d, l ≠ Loc.addr a := fun a ha =>
          hne a (by rw [List.range'_succ]; exact List.mem_cons_of_mem _ ha)
        have hlast : l ≠ Loc.addr (curr + d + d * n) :=
          hrest _ (List.mem_range'.2 ⟨n, by omega, rfl⟩)
        rw [hfst, Function.update_of_ne hlast, linkSlots_of_notMem n _ _ (by omega)
          (fun a ha => hrest a ?_), Function.update_of_ne hlc, hl]
        rw [List.range'_concat]
        exact List.mem_append_left _ ha
      · intro a ha haddr
        obtain ⟨i, -, rfl⟩ := List.mem_range'.1 ha
        have := Loc.addr.inj haddr
        omega

/-! ### Blocks, headers and bodies -/

theorem nextOf_injective : Function.Injective nextOf := by
  intro s t h
  have := Loc.addr.inj h
  omega

/-- The heads of the lists of a cache. -/
def IsHead (l : Loc) : Prop := l = Loc.listFull ∨ l = Loc.listPartial ∨ l = Loc.listEmpty

theorem IsHead.nextOf_ne {l : Loc} (h : IsHead l) (s : ℕ) : nextOf s ≠ l := by
  rcases h with rfl | rfl | rfl <;> simp [nextOf]

/-- The locations of the slab at `s` other than its `next` field: the free list, the counter and
the first word of every slot. -/
def IsBody (c : Layout) (s : ℕ) (l : Loc) : Prop :=
  l = freelistOf s ∨ l = freeCountOf s ∨ ∃ a ∈ slotsOf c s, l = Loc.addr a

/-- The blocks of a cache: aligned to their size, not null, inside the address space and pairwise
apart. -/
structure Blocks (c : Layout) (bs : List ℕ) : Prop where
  pos : ∀ b ∈ bs, 0 < b
  dvd : ∀ b ∈ bs, 2 ^ (12 + c.order) ∣ b
  le : ∀ b ∈ bs, b + 2 ^ (12 + c.order) ≤ 2 ^ 64
  apart : bs.Pairwise fun b b' => b + 2 ^ (12 + c.order) ≤ b' ∨ b' + 2 ^ (12 + c.order) ≤ b

theorem IsBody.ne_head {c : Layout} {s : ℕ} {l l' : Loc} (h : IsBody c s l) (h' : IsHead l') :
    l ≠ l' := by
  rcases h with rfl | rfl | ⟨a, -, rfl⟩ <;> rcases h' with rfl | rfl | rfl <;>
    simp [freelistOf, freeCountOf]

/-- A body lies inside its block. -/
theorem IsBody.exists_addr {c : Layout} (g : Geom c) {s : ℕ} {l : Loc} (h : IsBody c s l) :
    ∃ a, l = Loc.addr a ∧ s + 32 ≤ a ∧ a < s + 2 ^ (12 + c.order) := by
  have hfit := g.fits
  have hres := g.reserved_ge
  have hobj := g.objSize_ge
  rcases h with rfl | rfl | ⟨a, ha, rfl⟩
  · exact ⟨s + 32, rfl, by omega, by omega⟩
  · exact ⟨s + 40, rfl, by omega, by omega⟩
  · have hb := g.slot_bounds ha
    exact ⟨a, rfl, by omega, by omega⟩

namespace Blocks

variable {c : Layout} {bs : List ℕ}

theorem nodup (h : Blocks c bs) : bs.Nodup := by
  have hpos : 0 < 2 ^ (12 + c.order) := Nat.two_pow_pos _
  exact h.apart.imp fun hab heq => by omega

theorem apart_of_ne (h : Blocks c bs) {s t : ℕ} (hs : s ∈ bs) (ht : t ∈ bs) (hne : s ≠ t) :
    s + 2 ^ (12 + c.order) ≤ t ∨ t + 2 ^ (12 + c.order) ≤ s := by
  have : Std.Symm fun b b' : ℕ => b + 2 ^ (12 + c.order) ≤ b' ∨ b' + 2 ^ (12 + c.order) ≤ b :=
    ⟨fun _ _ => Or.symm⟩
  exact h.apart.forall hs ht hne

/-- A body is apart from the link fields of all slabs. -/
theorem body_ne_next (h : Blocks c bs) (g : Geom c) {s t : ℕ} (hs : s ∈ bs) (ht : t ∈ bs)
    {l : Loc} (hl : IsBody c s l) : l ≠ nextOf t := by
  obtain ⟨a, rfl, h₁, h₂⟩ := hl.exists_addr g
  intro heq
  have ha : a = t + 8 := Loc.addr.inj heq
  have hfit := g.fits
  have hres := g.reserved_ge
  by_cases hne : s = t
  · omega
  · rcases h.apart_of_ne hs ht hne with hap | hap <;> omega

/-- The bodies of two slabs are apart. -/
theorem body_ne_body (h : Blocks c bs) (g : Geom c) {s t : ℕ} (hs : s ∈ bs) (ht : t ∈ bs)
    (hne : s ≠ t) {l l' : Loc} (hl : IsBody c s l) (hl' : IsBody c t l') : l ≠ l' := by
  obtain ⟨a, rfl, h₁, h₂⟩ := hl.exists_addr g
  obtain ⟨a', rfl, h₁', h₂'⟩ := hl'.exists_addr g
  intro heq
  have ha : a = a' := Loc.addr.inj heq
  rcases h.apart_of_ne hs ht hne with hap | hap <;> omega

/-- Two slabs do not share a slot. -/
theorem slot_unique (h : Blocks c bs) (g : Geom c) {s t a : ℕ} (hs : s ∈ bs) (ht : t ∈ bs)
    (ha : a ∈ slotsOf c s) (ha' : a ∈ slotsOf c t) : s = t := by
  by_contra hne
  exact h.body_ne_body g hs ht hne (Or.inr (Or.inr ⟨a, ha, rfl⟩)) (Or.inr (Or.inr ⟨a, ha', rfl⟩)) rfl

theorem erase (h : Blocks c bs) (s : ℕ) : Blocks c (bs.erase s) where
  pos b hb := h.pos b (List.mem_of_mem_erase hb)
  dvd b hb := h.dvd b (List.mem_of_mem_erase hb)
  le b hb := h.le b (List.mem_of_mem_erase hb)
  apart := h.apart.sublist List.erase_sublist

/-- The blocks fit the bound that the walks are run with. -/
theorem length_lt (h : Blocks c bs) : bs.length < addrSpace := by
  have hpos : 0 < 2 ^ (12 + c.order) := Nat.two_pow_pos _
  have hnd : ((bs.map Nat.pred)).Nodup := by
    refine List.Nodup.map_on (fun a ha b hb hab => ?_) h.nodup
    have := h.pos a ha
    have := h.pos b hb
    simp only [Nat.pred_eq_sub_one] at hab
    omega
  have hle : (bs.map Nat.pred).length ≤ 2 ^ 64 - 1 := by
    refine length_le_of_nodup_of_lt hnd fun a ha => ?_
    obtain ⟨b, hb, rfl⟩ := List.mem_map.1 ha
    have := h.pos b hb
    have := h.le b hb
    simp only [Nat.pred_eq_sub_one]
    omega
  rw [List.length_map] at hle
  unfold addrSpace
  omega

end Blocks

end Slab

end SyncKernel
