/-
**The slots of a slab, in bytes.**

`kslab_new_slab` threads the free list of a slab through its slots: it writes a pointer of eight
bytes at the start of each slot, and goes on by the size of an object.  Objects may be smaller than a
pointer or no multiple of the alignment, so this module follows the writes byte by byte.

The pointers are intact exactly when an object holds a pointer: the eight bytes written at a slot
are partly overwritten by the write at the next one otherwise, and the free list leaves the block
within three steps.  All slots are aligned exactly when the first one is and the size of an object
is a multiple of the alignment; `kslab_cache_create` sees to neither.

Main definitions:

* `Slab.emptyEnd`, `Slab.kslabNewSlabBytes` — what `kslab_new_slab` writes;
* `Slab.SlabGeometry` — what the slots of a slab should be.

Main results:

* `Slab.CacheShape` — the geometry that `kslab_cache_create` chooses;
* `Slab.linkSlotsBytes_low` — the bytes of each link that survive;
* `Slab.linkSlotsBytes_agrees` — the words that the slots hold;
* `Slab.slabGeometry_iff` — **when the slots of a slab are as they should be**.
-/

import SyncKernel.Lib.Bytes
import SyncKernel.Slab.Layout

set_option relaxedAutoImplicit false
set_option autoImplicit false

namespace SyncKernel

namespace Slab

/-! ### Building a slab, in bytes -/

/-- The link at the end of the list of empty slabs of the cache at `cache`: the walk of
`kslab_new_slab` over the `next` fields, which starts with `cache->empty`. -/
def emptyEnd (mem : ℕ → UInt8) (cache : ℕ) : Option ℕ :=
  findLink (fun slab => slab + 8) 0 (fun a => Bytes.read mem a 8) 0 addrSpace (cache + 56)

/-- The loop of `kslab_new_slab` that links each slot to the next, for the given number of rounds,
and the null pointer in the last slot. -/
def linkSlotsBytes (objSize : ℕ) : ℕ → ℕ → (ℕ → UInt8) → ℕ → UInt8
  | 0, curr, mem => Bytes.write mem curr 0 8
  | n + 1, curr, mem =>
      linkSlotsBytes objSize n (Word.add curr objSize)
        (Bytes.write mem curr (Word.add curr objSize) 8)

/-- What `kslab_new_slab` writes, with the fields of `struct kslab` at their offsets, for the block
`s` and the cache at the address `cache`. -/
def kslabNewSlabBytes (c : KslabCache) (cache s : ℕ) (mem : ℕ → UInt8) : Option (ℕ → UInt8) := do
  let mem := Bytes.fill mem s (buddyOrderToVal c.order) 0
  let pe ← emptyEnd mem cache
  let mem := Bytes.write mem pe s 8
  let mem := Bytes.write mem s cache 8
  let pool := Word.add s c.reserved
  let mem := Bytes.write mem (s + 24) pool 8
  let mem := Bytes.write mem (s + 32) pool 8
  let mem := Bytes.write mem (s + 40) c.slabObjsPer 4
  some (linkSlotsBytes c.objSize (Word.dec32 c.slabObjsPer) pool mem)

/-- **The slots of the slab at `s`**: following its free list gives as many slots as the cache has
objects per slab and then null; they lie in the block behind the header, apart from each other, and
start at multiples of the alignment. -/
def SlabGeometry (mem : ℕ → UInt8) (c : KslabCache) (s : ℕ) : Prop :=
  ∃ slots : List ℕ, Chain id 0 (fun a => Bytes.read mem a 8) (s + 32) slots ∧
    slots.length = c.slabObjsPer ∧
    (∀ a ∈ slots, s + slabHdrSz ≤ a ∧ a + c.objSize ≤ s + buddyOrderToVal c.order) ∧
    slots.Pairwise (fun a b => a + c.objSize ≤ b ∨ b + c.objSize ≤ a) ∧
    ∀ a ∈ slots, c.alignment ∣ a

/-! ### The geometry of a cache -/

/-- The geometry of a cache with objects of `objsize` bytes: as many objects as fit behind a header
that is padded to the alignment, and at least eight. -/
structure CacheShape (c : KslabCache) (objsize alignment : ℕ) : Prop where
  objSize_eq : c.objSize = objsize
  alignment_eq : c.alignment = alignment
  order_lt : c.order < 4
  reserved_ge : slabHdrSz ≤ c.reserved
  reserved_lt : c.reserved < 2 ^ (12 + c.order)
  dvd_reserved : alignment ∣ c.reserved
  objs : c.slabObjsPer = (2 ^ (12 + c.order) - c.reserved) / objsize
  objs_ge : 8 ≤ c.slabObjsPer

/-- The candidates that the loop keeps: none yet, or all objects that fit. -/
def CtxFull (objsize alignment : ℕ) (c : Ctx) : Prop :=
  c.waste = noWaste ∨
    (c.order < 4 ∧ alignment ≠ 0 ∧ c.reserved = headRoom alignment ∧
      headRoom alignment < 2 ^ (12 + c.order) ∧ 8 ≤ c.count ∧
      c.count = (2 ^ (12 + c.order) - headRoom alignment) / objsize)

theorem tryOrder_full {objsize alignment : ℕ} {c c' : Ctx} {i : ℕ} (hi : i < 4)
    (hc : CtxFull objsize alignment c) (h : tryOrder objsize alignment c i = some c') :
    CtxFull objsize alignment c' := by
  rcases tryOrder_cases h with rfl | ⟨h0, hlt, h8, rfl⟩
  · exact hc
  · have hsize : 2 ^ i * pageSize = 2 ^ (12 + i) := by
      rw [show pageSize = 2 ^ 12 from rfl, ← Nat.pow_add, Nat.add_comm]
    have hpow : 2 ^ (12 + i) < 2 ^ 32 := Nat.pow_lt_pow_right (by decide) (by omega)
    rw [hsize] at hlt h8 ⊢
    refine Or.inr ⟨hi, h0, Nat.mod_eq_of_lt (by omega), hlt, ?_, rfl⟩
    dsimp only
    omega

/-- The header and its padding are a multiple of the alignment. -/
theorem dvd_headRoom {alignment : ℕ} (h0 : alignment ≠ 0) (ha : alignment < 2 ^ 64) :
    alignment ∣ headRoom alignment := by
  have h48 : (48 : ℕ) % alignment + alignment * (48 / alignment) = 48 := Nat.mod_add_div 48 alignment
  have hmod : 48 % alignment < alignment := Nat.mod_lt _ (Nat.pos_of_ne_zero h0)
  have hle : 48 % alignment ≤ 48 := Nat.mod_le _ _
  have hpad := Nat.mod_lt (alignment - 48 % alignment) (Nat.pos_of_ne_zero h0)
  unfold headRoom slabHdrSz
  by_cases hz : 48 % alignment = 0
  · rw [hz, Nat.sub_zero, Nat.mod_self, Word.add_of_lt (by decide)]
    exact Nat.dvd_of_mod_eq_zero hz
  · rw [Nat.mod_eq_of_lt (show alignment - 48 % alignment < alignment by omega)]
    rcases Nat.lt_or_ge 48 alignment with hlt | hge
    · rw [Nat.mod_eq_of_lt hlt, Word.add_of_lt (by omega), Nat.add_sub_cancel' hlt.le]
    · rw [Word.add_of_lt (by omega)]
      refine ⟨48 / alignment + 1, ?_⟩
      rw [Nat.mul_succ]
      omega

theorem kslabNewSlab_cache {st st' : State} {blk : Option ℕ} {s : ℕ}
    (h : kslabNewSlab st blk = some (s, st')) : st'.cache = st.cache := by
  unfold kslabNewSlab at h
  by_cases herr : kbudAlloc st.cache.order blk = kpageErr
  · rw [if_pos herr] at h
    rw [← (Prod.mk.inj (Option.some_inj.1 h)).2]
  · rw [if_neg herr] at h
    obtain ⟨pe, -, h⟩ := Option.bind_eq_some_iff.1 h
    rw [← (Prod.mk.inj (Option.some_inj.1 h)).2]

/-- **The geometry that `kslab_cache_create` chooses.** -/
theorem shape_of_create {st st' : State} {objsize alignment flags : ℕ} {blk : Option ℕ}
    (ha : alignment < 2 ^ 64)
    (h : kslabCacheCreate st objsize alignment flags blk = some (0, st')) :
    CacheShape st'.cache objsize alignment := by
  unfold kslabCacheCreate at h
  obtain ⟨c, hc, h⟩ := Option.bind_eq_some_iff.1 h
  by_cases hw : c.waste = noWaste
  · rw [if_pos hw] at h
    exact absurd (Prod.mk.inj (Option.some_inj.1 h)).1 (by decide)
  rw [if_neg hw] at h
  obtain ⟨⟨s, st₁⟩, hs, h⟩ := Option.bind_eq_some_iff.1 h
  dsimp only at h
  by_cases hfail : s = kpageErr
  · rw [if_pos hfail] at h
    exact absurd (Prod.mk.inj (Option.some_inj.1 h)).1 (by decide)
  rw [if_neg hfail] at h
  have hcache := kslabNewSlab_cache hs
  rw [(Prod.mk.inj (Option.some_inj.1 h)).2] at hcache
  have hfull := chooseGeometry_induct (P := CtxFull objsize alignment) tryOrder_full (Or.inl rfl) hc
  obtain ⟨hord, h0, hres, hlt, hcnt, hobjs⟩ := hfull.resolve_left hw
  have hpow : 2 ^ (12 + c.order) ≤ 2 ^ 15 := Nat.pow_le_pow_right (by decide) (by omega)
  have hdiv : (2 ^ (12 + c.order) - headRoom alignment) / objsize ≤
      2 ^ (12 + c.order) - headRoom alignment := Nat.div_le_self _ _
  have hmod : c.count % 2 ^ 32 = c.count := Nat.mod_eq_of_lt (by omega)
  rw [hcache]
  refine ⟨rfl, rfl, hord, ?_, ?_, ?_, ?_, ?_⟩
  · exact (reserved_ge (Nat.pos_of_ne_zero h0) ha).trans_eq hres.symm
  · exact hres.trans_lt hlt
  · exact (dvd_headRoom h0 ha).trans (dvd_of_eq hres.symm)
  · change c.count % 2 ^ 32 = (2 ^ (12 + c.order) - c.reserved) / objsize
    rw [hmod, hobjs, hres]
  · change 8 ≤ c.count % 2 ^ 32
    rwa [hmod]

/-! ### What the loop leaves -/

section Threaded

variable {d : ℕ}

theorem linkSlotsBytes_below {b : ℕ} :
    ∀ (n curr : ℕ) (mem : ℕ → UInt8), curr + d * n < 2 ^ 64 → b < curr →
      linkSlotsBytes d n curr mem b = mem b := by
  intro n
  induction n with
  | zero => intro curr mem _ hb; exact Bytes.write_of_notMem (Or.inl hb)
  | succ n ih =>
      intro curr mem hlt hb
      rw [Nat.mul_succ] at hlt
      have hadd : Word.add curr d = curr + d := Word.add_of_lt (by omega)
      rw [linkSlotsBytes, hadd, ih _ _ (by omega) (by omega)]
      exact Bytes.write_of_notMem (Or.inl hb)

/-- **The low bytes of each link**, as many as an object has, are those of the next slot. -/
theorem linkSlotsBytes_low {m : ℕ} (hm : m ≤ 8) (hmd : m ≤ d) :
    ∀ (n curr : ℕ) (mem : ℕ → UInt8), curr + d * n < 2 ^ 64 → ∀ k < n,
      Bytes.read (linkSlotsBytes d n curr mem) (curr + d * k) m = (curr + d * (k + 1)) % 256 ^ m := by
  intro n
  induction n with
  | zero => intro curr mem _ k hk; omega
  | succ n ih =>
      intro curr mem hlt k hk
      rw [Nat.mul_succ] at hlt
      have hadd : Word.add curr d = curr + d := Word.add_of_lt (by omega)
      rw [linkSlotsBytes, hadd]
      cases k with
      | zero =>
          rw [Nat.mul_zero, Nat.add_zero, Nat.zero_add, Nat.mul_one, ← Bytes.read_write_self hm]
          exact Bytes.read_congr fun b _ hb => linkSlotsBytes_below n _ _ (by omega) (by omega)
      | succ k =>
          have hih := ih (curr + d) (Bytes.write mem curr (curr + d) 8) (by omega) k (by omega)
          have hstart : curr + d * (k + 1) = curr + d + d * k := by
            rw [Nat.mul_succ]
            omega
          have hnext : curr + d * (k + 1 + 1) = curr + d + d * (k + 1) := by
            rw [Nat.mul_succ d (k + 1)]
            omega
          rw [hnext, ← hih, hstart]

/-- The last link is null. -/
theorem linkSlotsBytes_last {m : ℕ} (hm : m ≤ 8) :
    ∀ (n curr : ℕ) (mem : ℕ → UInt8), curr + d * n < 2 ^ 64 →
      Bytes.read (linkSlotsBytes d n curr mem) (curr + d * n) m = 0 := by
  intro n
  induction n with
  | zero =>
      intro curr mem _
      rw [linkSlotsBytes, Nat.mul_zero, Nat.add_zero, Bytes.read_write_self hm, Nat.zero_mod]
  | succ n ih =>
      intro curr mem hlt
      rw [Nat.mul_succ] at hlt ⊢
      have hadd : Word.add curr d = curr + d := Word.add_of_lt (by omega)
      have hih := ih (curr + d) (Bytes.write mem curr (curr + d) 8) (by omega)
      have hend : curr + (d * n + d) = curr + d + d * n := by omega
      rw [linkSlotsBytes, hadd, hend]
      exact hih

/-- A list of links from one slot to the next, with null in the last. -/
theorem chain_range' (mem : ℕ → ℕ) (hd : 0 < d) :
    ∀ (n p curr : ℕ), mem p = curr → 0 < curr → (∀ k < n, mem (curr + d * k) = curr + d * (k + 1)) →
      mem (curr + d * n) = 0 → Chain id 0 mem p (List.range' curr (n + 1) d) := by
  intro n
  induction n with
  | zero =>
      intro p curr hp h0 _ hlast
      exact ⟨hp, by omega, hlast⟩
  | succ n ih =>
      intro p curr hp h0 hlinks hlast
      have hfirst := hlinks 0 (Nat.succ_pos n)
      rw [List.range'_succ]
      refine ⟨hp, by omega, ih curr (curr + d) ?_ (by omega) (fun k hk => ?_) ?_⟩
      · simpa using hfirst
      · have hlink := hlinks (k + 1) (Nat.succ_lt_succ hk)
        rw [Nat.mul_succ, Nat.mul_succ d (k + 1)] at hlink
        rw [show curr + d + d * k = curr + (d * k + d) by omega, hlink]
        omega
      · rw [← hlast, Nat.mul_succ]
        exact congrArg mem (by omega)

/-- **The words of a slab**: where an object holds a pointer, the bytes of the links are the words
that `linkSlots` writes. -/
theorem linkSlotsBytes_agrees (hd : 8 ≤ d) :
    ∀ (n curr : ℕ) (mem : ℕ → UInt8) (m : Loc → ℕ), curr + d * n < 2 ^ 64 →
      ∀ a ∈ List.range' curr (n + 1) d, Bytes.read (linkSlotsBytes d n curr mem) a 8 =
        Function.update (linkSlots d n curr m).2 (Loc.addr (linkSlots d n curr m).1) 0
          (Loc.addr a) := by
  intro n
  induction n with
  | zero =>
      intro curr mem m _ a ha
      obtain rfl : a = curr := List.mem_singleton.1 ha
      rw [linkSlotsBytes, Bytes.read_write_self le_rfl, Nat.zero_mod]
      exact (Function.update_self (Loc.addr a) 0 m).symm
  | succ n ih =>
      intro curr mem m hlt a ha
      have hlt' := hlt
      rw [Nat.mul_succ] at hlt
      have hadd : Word.add curr d = curr + d := Word.add_of_lt (by omega)
      rw [List.range'_succ] at ha
      rcases List.mem_cons.1 ha with rfl | ha
      · have hlink := linkSlotsBytes_low le_rfl hd (n + 1) a mem hlt' 0 (Nat.succ_pos n)
        simp only [Nat.mul_zero, Nat.add_zero, Nat.zero_add, Nat.mul_one] at hlink
        rw [Nat.mod_eq_of_lt (by omega)] at hlink
        rw [hlink, linkSlots, hadd, linkSlots_fst n _ _ (by omega),
          Function.update_of_ne (fun h => by have := Loc.addr.inj h; omega),
          linkSlots_of_notMem n _ _ (by omega) fun b hb h => ?_, Function.update_self]
        have hlow := (List.mem_range'.1 hb).choose_spec.2
        have := Loc.addr.inj h
        omega
      · rw [linkSlotsBytes, linkSlots, hadd]
        exact ih _ _ _ (by omega) a ha

end Threaded

/-! ### A slab that has been built -/

namespace CacheShape

variable {c : KslabCache} {objsize alignment : ℕ}

theorem objSize_pos (h : CacheShape c objsize alignment) : 0 < c.objSize := by
  have hobjs := h.objs
  have hge := h.objs_ge
  rw [h.objSize_eq]
  refine Nat.pos_of_ne_zero fun h0 => ?_
  rw [h0, Nat.div_zero] at hobjs
  omega

theorem fits (h : CacheShape c objsize alignment) :
    c.reserved + c.objSize * c.slabObjsPer ≤ 2 ^ (12 + c.order) := by
  have hlt := h.reserved_lt
  have hdiv := Nat.div_mul_le_self (2 ^ (12 + c.order) - c.reserved) objsize
  rw [h.objSize_eq, h.objs, Nat.mul_comm]
  omega

theorem size_le (h : CacheShape c objsize alignment) : 2 ^ (12 + c.order) ≤ 2 ^ 15 :=
  Nat.pow_le_pow_right (by decide) (by have := h.order_lt; omega)

theorem buddyOrderToVal_eq (h : CacheShape c objsize alignment) :
    buddyOrderToVal c.order = 2 ^ (12 + c.order) := by
  have hord := h.order_lt
  rw [buddyOrderToVal, if_neg (by unfold pframeMaxOrder; omega), show pageSize = 2 ^ 12 from rfl,
    ← Nat.pow_add]

/-- An aligned block ends inside the address space. -/
theorem end_le (h : CacheShape c objsize alignment) {s : ℕ} (hs : 2 ^ (12 + c.order) ∣ s)
    (hs64 : s < 2 ^ 64) : s + 2 ^ (12 + c.order) ≤ 2 ^ 64 := by
  have hord := h.order_lt
  have hpow : 2 ^ 64 = 2 ^ (12 + c.order) * 2 ^ (52 - c.order) := by
    rw [← Nat.pow_add]
    exact congrArg _ (by omega)
  obtain ⟨q, rfl⟩ := hs
  rw [hpow] at hs64 ⊢
  rw [← Nat.mul_succ]
  exact Nat.mul_le_mul_left _ (Nat.lt_of_mul_lt_mul_left hs64)

/-- Each slot ends inside the block. -/
theorem slot_le (h : CacheShape c objsize alignment) {k : ℕ} (hk : k < c.slabObjsPer) :
    c.reserved + c.objSize * k + c.objSize ≤ 2 ^ (12 + c.order) := by
  have hmul : c.objSize * (k + 1) ≤ c.objSize * c.slabObjsPer := Nat.mul_le_mul_left _ hk
  have hfits := h.fits
  rw [Nat.mul_succ] at hmul
  omega

end CacheShape

/-- The slot `k` of the slab at `s`. -/
def KslabCache.slot (c : KslabCache) (s k : ℕ) : ℕ := s + c.reserved + c.objSize * k

theorem KslabCache.slot_succ (c : KslabCache) (s k : ℕ) :
    c.slot s (k + 1) = c.slot s k + c.objSize := by
  unfold KslabCache.slot
  rw [Nat.mul_succ]
  omega

/-- What `kslab_new_slab` leaves in a block: the head of the free list, the low bytes of the links,
the null in the last slot, and zeroes between the header and the first slot. -/
structure Built (mem : ℕ → UInt8) (c : KslabCache) (s : ℕ) : Prop where
  first : Bytes.read mem (s + 32) 8 = c.slot s 0
  low : ∀ m ≤ 8, m ≤ c.objSize → ∀ k, k + 1 < c.slabObjsPer →
    Bytes.read mem (c.slot s k) m = c.slot s (k + 1) % 256 ^ m
  last : ∀ m ≤ 8, Bytes.read mem (c.slot s (c.slabObjsPer - 1)) m = 0
  pad : ∀ b, s + slabHdrSz ≤ b → b < c.slot s 0 → mem b = 0

/-- **What `kslab_new_slab` leaves**, when the list of empty slabs ends outside the new block. -/
theorem kslabNewSlabBytes_built {c : KslabCache} {objsize alignment : ℕ}
    (sh : CacheShape c objsize alignment) {cache s pe : ℕ} {mem mem' : ℕ → UInt8}
    (hs : 2 ^ (12 + c.order) ∣ s) (hs64 : s < 2 ^ 64)
    (hpe : emptyEnd (Bytes.fill mem s (buddyOrderToVal c.order) 0) cache = some pe)
    (hout : pe + 8 ≤ s ∨ s + buddyOrderToVal c.order ≤ pe)
    (h : kslabNewSlabBytes c cache s mem = some mem') : Built mem' c s := by
  have hend := sh.end_le hs hs64
  have hres : 48 ≤ c.reserved := sh.reserved_ge
  have hge := sh.objs_ge
  have hle := sh.size_le
  have hslot := sh.slot_le (k := c.slabObjsPer - 1) (by omega)
  have hpos := sh.objSize_pos
  have hval := sh.buddyOrderToVal_eq
  have hpool : Word.add s c.reserved = s + c.reserved := Word.add_of_lt (by omega)
  have hdec : Word.dec32 c.slabObjsPer = c.slabObjsPer - 1 := if_neg (by omega)
  unfold kslabNewSlabBytes at h
  obtain ⟨pe', hpe', h⟩ := Option.bind_eq_some_iff.1 h
  obtain rfl : pe = pe' := Option.some_inj.1 (hpe.symm.trans hpe')
  change some (linkSlotsBytes c.objSize (Word.dec32 c.slabObjsPer) (Word.add s c.reserved)
    (Bytes.write (Bytes.write (Bytes.write (Bytes.write (Bytes.write
      (Bytes.fill mem s (buddyOrderToVal c.order) 0) pe s 8) s cache 8) (s + 24)
      (Word.add s c.reserved) 8) (s + 32) (Word.add s c.reserved) 8) (s + 40) c.slabObjsPer 4)) =
    some mem' at h
  rw [hdec, hpool] at h
  rw [← Option.some_inj.1 h]
  have hlt : s + c.reserved + c.objSize * (c.slabObjsPer - 1) < 2 ^ 64 := by omega
  refine ⟨?_, fun m hm hmd k hk => ?_, fun m hm => ?_, fun b hb₁ hb₂ => ?_⟩
  · rw [Bytes.read_congr fun b _ hb => linkSlotsBytes_below _ _ _ hlt (by omega),
      Bytes.read_write_apart (Or.inl (by omega)), Bytes.read_write_self le_rfl]
    exact Nat.mod_eq_of_lt (by omega)
  · exact linkSlotsBytes_low hm hmd _ _ _ hlt k (by omega)
  · exact linkSlotsBytes_last hm _ _ _ hlt
  · unfold KslabCache.slot slabHdrSz at *
    rw [linkSlotsBytes_below _ _ _ hlt (by omega), Bytes.write_of_notMem (by omega),
      Bytes.write_of_notMem (by omega), Bytes.write_of_notMem (by omega),
      Bytes.write_of_notMem (by omega), Bytes.write_of_notMem (by omega)]
    exact Bytes.fill_of_mem (by omega) (by omega)

namespace Built

variable {mem : ℕ → UInt8} {c : KslabCache} {objsize alignment s : ℕ}

/-- The links are intact when an object holds a pointer. -/
theorem link (h : Built mem c s) (sh : CacheShape c objsize alignment)
    (hend : s + 2 ^ (12 + c.order) ≤ 2 ^ 64) (h8 : 8 ≤ objsize) {k : ℕ}
    (hk : k + 1 < c.slabObjsPer) : Bytes.read mem (c.slot s k) 8 = c.slot s (k + 1) := by
  have hle := sh.slot_le hk
  have hpos := sh.objSize_pos
  rw [h.low 8 le_rfl (by rw [sh.objSize_eq]; exact h8) k hk]
  refine Nat.mod_eq_of_lt ?_
  unfold KslabCache.slot
  omega

/-- **The slots are as they should be**, when an object holds a pointer and its size and the block
are multiples of the alignment. -/
theorem slabGeometry (h : Built mem c s) (sh : CacheShape c objsize alignment)
    (hend : s + 2 ^ (12 + c.order) ≤ 2 ^ 64) (h8 : 8 ≤ objsize) (hobj : alignment ∣ objsize)
    (hs : alignment ∣ s) : SlabGeometry mem c s := by
  have hge := sh.objs_ge
  have hres : 48 ≤ c.reserved := sh.reserved_ge
  have g : Geom c.layout :=
    ⟨sh.order_lt, sh.reserved_ge, by change 8 ≤ c.objSize; rw [sh.objSize_eq]; exact h8, hge, sh.fits⟩
  have hn : c.slabObjsPer - 1 + 1 = c.slabObjsPer := by omega
  refine ⟨slotsOf c.layout s, ?_, length_slotsOf _ _, fun a ha => ?_, ?_, fun a ha => ?_⟩
  · have hchain := chain_range' (fun a => Bytes.read mem a 8) sh.objSize_pos
      (c.slabObjsPer - 1) (s + 32) (c.slot s 0) h.first (by unfold KslabCache.slot; omega)
      (fun k hk => ?_) (h.last 8 le_rfl)
    · rwa [hn] at hchain
    · exact h.link sh hend h8 (by omega)
  · have hb := g.slot_bounds ha
    exact ⟨hb.1, by rw [sh.buddyOrderToVal_eq]; exact hb.2⟩
  · exact (g.nodup_slotsOf s).pairwise_of_forall_ne fun a ha b hb hne => Geom.slot_apart ha hb hne
  · obtain ⟨k, -, rfl⟩ := mem_slotsOf.1 ha
    rw [sh.alignment_eq]
    refine Nat.dvd_add (Nat.dvd_add hs sh.dvd_reserved) (Dvd.dvd.mul_right ?_ _)
    exact hobj.trans (dvd_of_eq sh.objSize_eq.symm)

/-- The bits above the sixteen lowest are the same for all addresses of a block. -/
theorem div_eq_of_block (sh : CacheShape c objsize alignment) (hs : 2 ^ (12 + c.order) ∣ s) {a b : ℕ}
    (ha : s ≤ a ∧ a < s + 2 ^ (12 + c.order)) (hb : s ≤ b ∧ b < s + 2 ^ (12 + c.order)) :
    a / 2 ^ 16 = b / 2 ^ 16 := by
  have hord := sh.order_lt
  obtain ⟨q, rfl⟩ := hs
  have hpow : 2 ^ 16 = 2 ^ (12 + c.order) * 2 ^ (4 - c.order) := by
    rw [← Nat.pow_add]
    exact congrArg _ (by omega)
  have hdiv : ∀ x, 2 ^ (12 + c.order) * q ≤ x → x < 2 ^ (12 + c.order) * q + 2 ^ (12 + c.order) →
      x / 2 ^ (12 + c.order) = q := fun x h₁ h₂ =>
    Nat.div_eq_of_lt_le (by rw [Nat.mul_comm]; exact h₁) (by rw [Nat.succ_mul, Nat.mul_comm q]; exact h₂)
  rw [hpow, ← Nat.div_div_eq_div_mul, ← Nat.div_div_eq_div_mul, hdiv a ha.1 ha.2, hdiv b hb.1 hb.2]

/-- A link of which two bytes or more survive is right, or leads out of the block. -/
theorem next_eq (h : Built mem c s) (sh : CacheShape c objsize alignment) (hs : 2 ^ (12 + c.order) ∣ s)
    (h2 : 2 ≤ objsize) {k : ℕ} (hk : k + 1 < c.slabObjsPer)
    (hin : s ≤ Bytes.read mem (c.slot s k) 8 ∧
      Bytes.read mem (c.slot s k) 8 < s + 2 ^ (12 + c.order)) :
    Bytes.read mem (c.slot s k) 8 = c.slot s (k + 1) := by
  have hle := sh.slot_le hk
  have hpos := sh.objSize_pos
  have hslot : s ≤ c.slot s (k + 1) ∧ c.slot s (k + 1) < s + 2 ^ (12 + c.order) := by
    unfold KslabCache.slot
    omega
  have hhigh := div_eq_of_block sh hs hin hslot
  have hlow : Bytes.read mem (c.slot s k) 8 % 2 ^ 16 = c.slot s (k + 1) % 2 ^ 16 :=
    calc Bytes.read mem (c.slot s k) (2 + 6) % 256 ^ 2
        = Bytes.read mem (c.slot s k) 2 := Bytes.read_mod mem _ 2 6
      _ = c.slot s (k + 1) % 256 ^ 2 := h.low 2 (by decide) (by rw [sh.objSize_eq]; exact h2) k hk
  rw [← Nat.div_add_mod (Bytes.read mem (c.slot s k) 8) (2 ^ 16), hhigh, hlow, Nat.div_add_mod]

/-- The high bytes of a link are the low bytes of the next one. -/
theorem high_eq_low (mem : ℕ → UInt8) (c : KslabCache) (s k : ℕ) {d : ℕ} (hd : c.objSize = d)
    (h8 : d < 8) :
    Bytes.read mem (c.slot s k) 8 / 256 ^ d =
      Bytes.read mem (c.slot s (k + 1)) 8 % 256 ^ (8 - d) := by
  have hhigh := Bytes.read_div mem (c.slot s k) d (8 - d)
  have hlow := Bytes.read_mod mem (c.slot s (k + 1)) (8 - d) d
  rw [Nat.add_sub_cancel' h8.le] at hhigh
  rw [Nat.sub_add_cancel h8.le] at hlow
  rw [hhigh, hlow, c.slot_succ, hd]

/-- The first four slots of a slab that is as it should be. -/
theorem first_slots (h : Built mem c s) (sh : CacheShape c objsize alignment) (hg : SlabGeometry mem c s) :
    ∃ a₁ a₂ a₃, Bytes.read mem (c.slot s 0) 8 = a₁ ∧ Bytes.read mem a₁ 8 = a₂ ∧
      Bytes.read mem a₂ 8 = a₃ ∧ ∀ a ∈ [c.slot s 0, a₁, a₂, a₃],
        s + slabHdrSz ≤ a ∧ a + c.objSize ≤ s + 2 ^ (12 + c.order) ∧ alignment ∣ a := by
  obtain ⟨slots, hchain, hlen, hin, -, hal⟩ := hg
  have hge := sh.objs_ge
  rcases slots with _ | ⟨a₀, _ | ⟨a₁, _ | ⟨a₂, _ | ⟨a₃, rest⟩⟩⟩⟩ <;>
    simp only [List.length_cons, List.length_nil] at hlen
  iterate 4 omega
  simp only [chain_cons, id] at hchain
  obtain ⟨h₀, -, h₁, -, h₂, -, h₃, -⟩ := hchain
  have ha₀ : a₀ = c.slot s 0 := h₀.symm.trans h.first
  subst ha₀
  refine ⟨a₁, a₂, a₃, h₁, h₂, h₃, fun a ha => ?_⟩
  have hmem : a ∈ c.slot s 0 :: a₁ :: a₂ :: a₃ :: rest := List.mem_append_left rest ha
  obtain ⟨hlow, hhigh⟩ := hin a hmem
  rw [sh.buddyOrderToVal_eq] at hhigh
  exact ⟨hlow, hhigh, (dvd_of_eq sh.alignment_eq.symm).trans (hal a hmem)⟩

/-- **Objects of two to seven bytes**: the second link would have to be the third one. -/
theorem objsize_ne_small (h : Built mem c s) (sh : CacheShape c objsize alignment)
    (hs : 2 ^ (12 + c.order) ∣ s) (hg : SlabGeometry mem c s) (h2 : 2 ≤ objsize) : 8 ≤ objsize := by
  by_contra h8
  have hge := sh.objs_ge
  have hpos := sh.objSize_pos
  obtain ⟨a₁, a₂, a₃, h₁, h₂, h₃, hin⟩ := h.first_slots sh hg
  have hblock : ∀ a ∈ [c.slot s 0, a₁, a₂, a₃], s ≤ a ∧ a < s + 2 ^ (12 + c.order) := by
    intro a ha
    obtain ⟨hlow, hhigh, -⟩ := hin a ha
    omega
  have hb₁ := hblock a₁ (by simp)
  have hb₂ := hblock a₂ (by simp)
  have hb₃ := hblock a₃ (by simp)
  obtain rfl : a₁ = c.slot s 1 := h₁ ▸ h.next_eq sh hs h2 (by omega) (h₁ ▸ hb₁)
  obtain rfl : a₂ = c.slot s 2 := h₂ ▸ h.next_eq sh hs h2 (by omega) (h₂ ▸ hb₂)
  obtain rfl : a₃ = c.slot s 3 := h₃ ▸ h.next_eq sh hs h2 (by omega) (h₃ ▸ hb₃)
  have hlt : objsize < 8 := Nat.not_le.1 h8
  have hfirst := high_eq_low mem c s 0 sh.objSize_eq hlt
  have hsecond := high_eq_low mem c s 1 sh.objSize_eq hlt
  rw [h₁, h₂] at hfirst
  rw [h₂, h₃] at hsecond
  have hhigh : c.slot s 1 / 256 ^ objsize = c.slot s 2 / 256 ^ objsize := by
    have hdiv := div_eq_of_block sh hs hb₁ hb₂
    have hpow : 256 ^ objsize = 2 ^ 16 * 256 ^ (objsize - 2) := by
      rw [show (2 : ℕ) ^ 16 = 256 ^ 2 by decide, ← Nat.pow_add]
      exact congrArg _ (by omega)
    rw [hpow, ← Nat.div_div_eq_div_mul, ← Nat.div_div_eq_div_mul, hdiv]
  have hlow : c.slot s 2 % 256 ^ (8 - objsize) = c.slot s 3 % 256 ^ (8 - objsize) := by
    rw [← hfirst, ← hsecond, hhigh]
  have hmod : c.slot s 2 % 256 = c.slot s 3 % 256 := by
    have hdvd : 256 ∣ 256 ^ (8 - objsize) := dvd_pow_self 256 (by omega)
    rw [← Nat.mod_mod_of_dvd _ hdvd, hlow, Nat.mod_mod_of_dvd _ hdvd]
  rw [c.slot_succ s 2, sh.objSize_eq] at hmod
  omega

/-- The slots of a slab with objects of one byte: the low bytes of the links, and the null behind
them. -/
theorem byte_of_one (h : Built mem c s) (sh : CacheShape c objsize alignment) (h1 : objsize = 1) :
    (∀ k, k + 1 < c.slabObjsPer → (mem (c.slot s 0 + k)).toNat = (c.slot s 0 + k + 1) % 256) ∧
    (∀ k, c.slabObjsPer - 1 ≤ k → k < c.slabObjsPer + 7 → (mem (c.slot s 0 + k)).toNat = 0) := by
  have hone : c.objSize = 1 := sh.objSize_eq.trans h1
  have hslot : ∀ k, c.slot s k = c.slot s 0 + k := by
    intro k
    unfold KslabCache.slot
    rw [hone]
    omega
  refine ⟨fun k hk => ?_, fun k hk hk' => ?_⟩
  · have hlow := h.low 1 (by decide) hone.ge k hk
    rw [hslot k, hslot (k + 1), Bytes.read, Bytes.read] at hlow
    omega
  · have hge := sh.objs_ge
    have hlast := h.last 8 le_rfl
    have hbyte := Bytes.read_byte mem (c.slot s (c.slabObjsPer - 1)) (n := 8)
      (i := k - (c.slabObjsPer - 1)) (by omega)
    rw [hlast, Nat.zero_div, Nat.zero_mod, hslot, Nat.add_assoc,
      show c.slabObjsPer - 1 + (k - (c.slabObjsPer - 1)) = k by omega] at hbyte
    exact hbyte.symm

/-- **Objects of one byte**: the first link would have to be a byte behind itself. -/
theorem objsize_ne_one (h : Built mem c s) (sh : CacheShape c objsize alignment)
    (hs : 2 ^ (12 + c.order) ∣ s) (hg : SlabGeometry mem c s) : objsize ≠ 1 := by
  intro h1
  have hge := sh.objs_ge
  have hobjs := sh.objs
  have hlt := sh.reserved_lt
  have hone : c.objSize = 1 := sh.objSize_eq.trans h1
  rw [h1, Nat.div_one] at hobjs
  obtain ⟨hlink, hnull⟩ := h.byte_of_one sh h1
  obtain ⟨a₁, a₂, a₃, h₁, h₂, -, hin⟩ := h.first_slots sh hg
  obtain ⟨hlow₁, hhigh₁, -⟩ := hin a₁ (by simp)
  obtain ⟨hlow₂, hhigh₂, -⟩ := hin a₂ (by simp)
  have hblock := div_eq_of_block sh hs (a := a₁) (b := a₂) (by omega) (by omega)
  -- the bytes 0, 2 and 3 of the first two links
  have hbyte : ∀ i < 8, a₁ / 256 ^ i % 256 = (mem (c.slot s 0 + i)).toNat := fun i hi => by
    rw [← h₁]
    exact Bytes.read_byte mem _ hi
  have hbyte' : ∀ i < 8, a₂ / 256 ^ i % 256 = (mem (a₁ + i)).toNat := fun i hi => by
    rw [← h₂]
    exact Bytes.read_byte mem _ hi
  have h0 := hbyte 0 (by decide)
  have h2 : (mem (c.slot s 0 + 2)).toNat = (mem (a₁ + 2)).toNat := by
    rw [← hbyte 2 (by decide), ← hbyte' 2 (by decide)]
    omega
  have h3 : (mem (c.slot s 0 + 3)).toNat = (mem (a₁ + 3)).toNat := by
    rw [← hbyte 3 (by decide), ← hbyte' 3 (by decide)]
    omega
  rw [hlink 0 (by omega)] at h0
  rw [hlink 2 (by omega)] at h2
  rw [hlink 3 (by omega)] at h3
  rcases Nat.lt_or_ge a₁ (c.slot s 0) with hbefore | hbehind
  · have hzero : ∀ i < 4, mem (a₁ + i) = 0 := fun i hi =>
      h.pad (a₁ + i) (by omega) (by omega)
    rw [hzero 2 (by decide)] at h2
    rw [hzero 3 (by decide)] at h3
    simp only [UInt8.toNat_zero] at h2 h3
    omega
  · obtain ⟨t, rfl⟩ := Nat.exists_eq_add_of_le hbehind
    have hend : t < c.slabObjsPer := by
      unfold KslabCache.slot at hhigh₁
      omega
    rw [Nat.add_assoc (c.slot s 0) t] at h2 h3
    by_cases hlast : t + 2 + 1 < c.slabObjsPer
    · rw [hlink (t + 2) hlast] at h2
      omega
    · rw [hnull (t + 2) (by omega) (by omega)] at h2
      rw [hnull (t + 3) (by omega) (by omega)] at h3
      omega

/-- The slots of a slab are aligned only if the size of an object is a multiple of the alignment. -/
theorem dvd_of_slabGeometry (h : Built mem c s) (sh : CacheShape c objsize alignment)
    (hend : s + 2 ^ (12 + c.order) ≤ 2 ^ 64) (hg : SlabGeometry mem c s) (h8 : 8 ≤ objsize) :
    alignment ∣ objsize ∧ alignment ∣ s := by
  have hge := sh.objs_ge
  obtain ⟨a₁, a₂, a₃, h₁, -, -, hin⟩ := h.first_slots sh hg
  obtain ⟨-, -, hdvd₀⟩ := hin (c.slot s 0) (by simp)
  obtain ⟨-, -, hdvd₁⟩ := hin a₁ (by simp)
  rw [h.link sh hend h8 (by omega)] at h₁
  rw [← h₁, c.slot_succ, sh.objSize_eq] at hdvd₁
  refine ⟨(Nat.dvd_add_right hdvd₀).1 hdvd₁, ?_⟩
  have hfirst : c.slot s 0 = s + c.reserved := rfl
  rw [hfirst] at hdvd₀
  exact (Nat.dvd_add_left sh.dvd_reserved).1 hdvd₀

end Built

/-- **When the slots of a slab are as they should be**: exactly when an object holds a pointer and
both its size and the address of the block are multiples of the alignment. -/
theorem slabGeometry_iff {st st' : State} {objsize alignment flags : ℕ} {blk : Option ℕ}
    (ha : alignment < 2 ^ 64)
    (hcreate : kslabCacheCreate st objsize alignment flags blk = some (0, st'))
    {mem mem' : ℕ → UInt8} {cache s pe : ℕ} (hs : buddyOrderToVal st'.cache.order ∣ s)
    (hs64 : s < 2 ^ 64)
    (hpe : emptyEnd (Bytes.fill mem s (buddyOrderToVal st'.cache.order) 0) cache = some pe)
    (hout : pe + 8 ≤ s ∨ s + buddyOrderToVal st'.cache.order ≤ pe)
    (hbuilt : kslabNewSlabBytes st'.cache cache s mem = some mem') :
    SlabGeometry mem' st'.cache s ↔ 8 ≤ objsize ∧ alignment ∣ objsize ∧ alignment ∣ s := by
  have sh := shape_of_create ha hcreate
  rw [sh.buddyOrderToVal_eq] at hs
  have hend := sh.end_le hs hs64
  have hb := kslabNewSlabBytes_built sh hs hs64 hpe hout hbuilt
  constructor
  · intro hg
    have h8 : 8 ≤ objsize := by
      have h1 := hb.objsize_ne_one sh hs hg
      have hpos := sh.objSize_pos
      rw [sh.objSize_eq] at hpos
      exact hb.objsize_ne_small sh hs hg (by omega)
    exact ⟨h8, hb.dvd_of_slabGeometry sh hend hg h8⟩
  · rintro ⟨h8, hobj, hdvd⟩
    exact hb.slabGeometry sh hend h8 hobj hdvd

theorem kslabNewSlabBytes_total {c : KslabCache} {cache s pe : ℕ} {mem : ℕ → UInt8}
    (hpe : emptyEnd (Bytes.fill mem s (buddyOrderToVal c.order) 0) cache = some pe) :
    ∃ mem', kslabNewSlabBytes c cache s mem = some mem' := by
  unfold kslabNewSlabBytes
  exact ⟨_, Option.bind_eq_some_iff.2 ⟨pe, hpe, rfl⟩⟩

/-- A cache on zeroed memory with a slab at `0x100000`. -/
theorem exists_slab (objsize alignment : ℕ) {pe : ℕ} {c : KslabCache}
    (hcreate : (kslabCacheCreate (State.zeroed fun _ => 0) objsize alignment 0 (some 0x100000)).map
      (fun r => (r.1, r.2.cache)) = some (0, c))
    (hpe : emptyEnd (Bytes.fill (fun _ => 0) 0x100000 (buddyOrderToVal c.order) 0) 0x200000 =
      some pe) :
    ∃ st' mem', kslabCacheCreate (State.zeroed fun _ => 0) objsize alignment 0 (some 0x100000) =
      some (0, st') ∧ st'.cache = c ∧
      kslabNewSlabBytes st'.cache 0x200000 0x100000 (fun _ => 0) = some mem' := by
  obtain ⟨⟨r, st'⟩, hrun, heq⟩ := Option.map_eq_some_iff.1 hcreate
  obtain ⟨rfl, rfl⟩ := Prod.mk.inj heq
  obtain ⟨mem', hbuilt⟩ := kslabNewSlabBytes_total hpe
  exact ⟨st', mem', hrun, rfl, hbuilt⟩

/-- Objects of 64 bytes, aligned to 64 bytes. -/
theorem slabGeometry_iff_line :
    ∃ st' mem', kslabCacheCreate (State.zeroed fun _ => 0) 64 64 0 (some 0x100000) = some (0, st') ∧
      kslabNewSlabBytes st'.cache 0x200000 0x100000 (fun _ => 0) = some mem' ∧
      SlabGeometry mem' st'.cache 0x100000 := by
  have hpe : emptyEnd (Bytes.fill (fun _ => 0) 0x100000 (buddyOrderToVal 0) 0) 0x200000 =
      some 0x200038 := by decide +kernel
  obtain ⟨st', mem', hcreate, hcache, hbuilt⟩ := exists_slab 64 64
    (c := ⟨0, 64, 64, 1, 1, 63, 0, 64, 0, 4⟩) (by decide +kernel) hpe
  have halign : buddyOrderToVal st'.cache.order ∣ 0x100000 := by
    rw [hcache]
    decide
  have hempty : emptyEnd (Bytes.fill (fun _ => 0) 0x100000 (buddyOrderToVal st'.cache.order) 0)
      0x200000 = some 0x200038 := by
    rw [hcache]
    exact hpe
  have hout : 0x100000 + buddyOrderToVal st'.cache.order ≤ 0x200038 := by
    rw [hcache]
    decide
  exact ⟨st', mem', hcreate, hbuilt, (slabGeometry_iff (by decide) hcreate halign (by decide) hempty
    (Or.inr hout) hbuilt).2 ⟨by decide, by decide, by decide⟩⟩

/-- Objects of 24 bytes, to be aligned to 16 bytes: the second slot is 24 bytes behind the first. -/
theorem not_slabGeometry_24 :
    ∃ st' mem', kslabCacheCreate (State.zeroed fun _ => 0) 24 16 0 (some 0x100000) = some (0, st') ∧
      kslabNewSlabBytes st'.cache 0x200000 0x100000 (fun _ => 0) = some mem' ∧
      ¬ SlabGeometry mem' st'.cache 0x100000 := by
  have hpe : emptyEnd (Bytes.fill (fun _ => 0) 0x100000 (buddyOrderToVal 1) 0) 0x200000 =
      some 0x200038 := by decide +kernel
  obtain ⟨st', mem', hcreate, hcache, hbuilt⟩ := exists_slab 24 16
    (c := ⟨1, 24, 16, 2, 1, 339, 8, 48, 0, 4⟩) (by decide +kernel) hpe
  refine ⟨st', mem', hcreate, hbuilt, fun hg => ?_⟩
  have sh := shape_of_create (by decide) hcreate
  have hsize : 2 ^ (12 + st'.cache.order) = 0x2000 := by
    rw [hcache]
    rfl
  have hdvd : 2 ^ (12 + st'.cache.order) ∣ 0x100000 := by
    rw [hsize]
    decide
  have hempty : emptyEnd (Bytes.fill (fun _ => 0) 0x100000 (buddyOrderToVal st'.cache.order) 0)
      0x200000 = some 0x200038 := by
    rw [hcache]
    exact hpe
  have hb := kslabNewSlabBytes_built sh hdvd (by decide) hempty (by rw [hcache]; decide) hbuilt
  exact absurd (hb.dvd_of_slabGeometry sh (by rw [hsize]; decide) hg (by decide)).1 (by decide)

end Slab

end SyncKernel
