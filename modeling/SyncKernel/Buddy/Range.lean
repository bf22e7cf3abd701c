/-
**Allocating a number of bytes** (`mm/buddy.c`).

`kbud_alloc_range` rounds the size up to pages, takes the order of the smallest block that holds them,
and goes on as `kbud_alloc` does.  The rounding wraps for the last page of the 64-bit range: such a size
is served with a single page.

Main definitions:

* `Buddy.kbudByteOrder`, `Buddy.kbudAllocRange`;
* `Buddy.HandsOut` — a call takes a block of `2 ^ k` pages;
* `Buddy.RangeServes` — the call fails, or takes a block that is large enough.

Main results:

* `Buddy.le_byteOrder` — **the order** is large enough;
* `Buddy.rangeServes_iff` — **the exact condition**.
-/

import SyncKernel.Buddy.FirstFit

set_option relaxedAutoImplicit false
set_option autoImplicit false

namespace SyncKernel

namespace Buddy

variable {st : State} {sz : ℕ}

/-! ### The order of a size -/

/-- `kbud_byte_order`. -/
def kbudByteOrder (sz : ℕ) : ℕ :=
  let frames := Word.add sz (pageSize - 1) / 4096
  if frames ≤ 1 then 0 else 63 - Word.clz (frames - 1) + 1

/-- `kbud_alloc_range`.  The loop over the regions is the one of `kbud_alloc`. -/
def kbudAllocRange (st : State) (sz : ℕ) : Option (ℕ × State) :=
  let req := kbudByteOrder (pageAlignUp sz)
  if req ≥ pframeMaxOrder then some (kpageErr, st)
  else allocLoop req st.regionCount 0 st

/-- **The order is large enough**, where the last page of the range does not wrap. -/
theorem le_byteOrder (hsz : sz + 4095 < 2 ^ 64) : sz ≤ pageSize * 2 ^ kbudByteOrder sz := by
  have hframes : Word.add sz (pageSize - 1) / 4096 = (sz + 4095) / 4096 := by
    rw [pageSize, Word.add_of_lt hsz]
  unfold kbudByteOrder
  rw [hframes, pageSize]
  by_cases hle : (sz + 4095) / 4096 ≤ 1
  · rw [if_pos hle]
    omega
  · rw [if_neg hle, Word.sub_clz (by omega) (by omega)]
    have hlog := Nat.lt_log2_self (n := (sz + 4095) / 4096 - 1)
    omega

/-- A size is rounded up, or to zero. -/
theorem byteOrder_alignUp (hsz : sz ≤ 2 ^ 64 - 4096) :
    sz ≤ pageSize * 2 ^ kbudByteOrder (pageAlignUp sz) := by
  have halign := pageAlignUp_eq (x := sz) (by omega)
  have hle : pageAlignUp sz ≤ pageSize * 2 ^ kbudByteOrder (pageAlignUp sz) := le_byteOrder (by omega)
  omega

/-! ### The block -/

/-- The call that returns `a` takes a block of `2 ^ k` pages there: the first block in one of the lists of
a region, of the order `k` or a larger one, all upper halves of which are given back. -/
def HandsOut (st : State) (k a : ℕ) (st' : State) : Prop :=
  ∃ i < st.regionCount, ∃ order < pframeMaxOrder, k ≤ order ∧ ∃ st₁,
    kbudPopHead st (st.regions i) order = some (a, st₁) ∧
      splitLoop (st.regions i) a k (order - k) st₁ = some st'

/-- `kbud_alloc_range` returns the error pointer, or a block of at least `sz` bytes. -/
def RangeServes (st : State) (sz : ℕ) : Prop :=
  ∃ a st', kbudAllocRange st sz = some (a, st') ∧
    (a = kpageErr ∨ ∃ k, sz ≤ pageSize * 2 ^ k ∧ HandsOut st k a st')

/-- What is returned is a block of the order that was asked for. -/
theorem allocLoop_handsOut (h : Lists st) {req : ℕ} (hreq : req < pframeMaxOrder) {a : ℕ} {st' : State}
    (ha : a ≠ kpageErr) : ∀ (n i : ℕ), i + n = st.regionCount →
      allocLoop req n i st = some (a, st') → HandsOut st req a st' := by
  intro n
  induction n with
  | zero =>
      intro i _ hrun
      exact absurd (Prod.mk.inj (Option.some_inj.1 hrun)).1.symm ha
  | succ n ih =>
      intro i hi hrun
      obtain ⟨g, hg⟩ := h i (by omega)
      obtain ⟨hge, hlt, -, -⟩ := findOrder_spec (s := st.slaves (st.regions i))
        (Nat.lt_succ_of_le hg.header.maxOrder_le) pframeMaxOrder req (by omega) hreq
      generalize horder : findOrder (st.slaves (st.regions i)) pframeMaxOrder req = order at hge hlt
      simp only [allocLoop, hg.ne_kpageErr, if_false, horder,
        show ¬ (order = pframeMaxOrder ∨ order < req) by omega] at hrun
      obtain ⟨⟨p, st₁⟩, hpop, hrun⟩ := Option.bind_eq_some_iff.1 hrun
      by_cases hhas : HasBlock st (st.regions i) order
      · obtain ⟨bits, hpop', hne⟩ := hg.popHead_cons hlt hhas
        obtain ⟨rfl, -⟩ := Prod.mk.inj (Option.some_inj.1 (hpop.symm.trans hpop'))
        rw [if_neg hne] at hrun
        obtain ⟨st₂, hsplit, hrun⟩ := Option.bind_eq_some_iff.1 hrun
        obtain ⟨rfl, rfl⟩ := Prod.mk.inj (Option.some_inj.1 hrun)
        exact ⟨i, by omega, order, hlt, hge, st₁, hpop, hsplit⟩
      · -- the head of an empty list is refused, and nothing has changed
        obtain ⟨rfl, rfl⟩ := Prod.mk.inj (Option.some_inj.1 (hpop.symm.trans (hg.popHead_nil hhas)))
        rw [if_pos rfl] at hrun
        exact ih (i + 1) (by omega) hrun

/-- Without a free block every size fails. -/
theorem allocRange_exhausted (h : Lists st) (hex : Exhausted st 0) (sz : ℕ) :
    kbudAllocRange st sz = some (kpageErr, st) := by
  by_cases hreq : kbudByteOrder (pageAlignUp sz) ≥ pframeMaxOrder
  · exact if_pos hreq
  have hrun : kbudAllocRange st sz = allocLoop (kbudByteOrder (pageAlignUp sz)) st.regionCount 0 st :=
    if_neg hreq
  rcases allocLoop_firstFit h (Nat.lt_of_not_le hreq) st.regionCount 0 (Nat.zero_add _)
    (fun j hj => absurd hj (Nat.not_lt_zero j)) with ⟨-, hloop⟩ | ⟨i, order, -, hfit, -⟩
  · exact hrun.trans hloop
  · exact absurd hfit.has (hex i hfit.lt order hfit.order_lt (Nat.zero_le _))

/-- **The exact condition**: the size is not in the last page of the range, or there is no free block at
all. -/
theorem rangeServes_iff (h : Lists st) (hsz : sz < 2 ^ 64) :
    RangeServes st sz ↔ sz ≤ 2 ^ 64 - 4096 ∨ Exhausted st 0 := by
  constructor
  · rintro ⟨a, st', hrun, hserves⟩
    by_contra hnot
    push Not at hnot
    obtain ⟨hlarge, hblock⟩ := hnot
    have hzero : kbudByteOrder (pageAlignUp sz) = 0 := by
      rw [pageAlignUp_wrap hsz (by omega)]
      decide
    rcases hserves with rfl | ⟨k, hle, i, -, order, horder, hk, -⟩
    · rw [kbudAllocRange, hzero] at hrun
      rcases allocLoop_firstFit h (show 0 < pframeMaxOrder by decide) st.regionCount 0 (Nat.zero_add _)
        (fun j hj => absurd hj (Nat.not_lt_zero j)) with ⟨hex, -⟩ | ⟨i, order, st₁, -, hloop, hne, -⟩
      · exact hblock hex
      · exact hne (Prod.mk.inj (Option.some_inj.1 (hloop.symm.trans hrun))).1
    · -- no block is as large as the size
      have hpow : 2 ^ k ≤ 2 ^ 10 := Nat.pow_le_pow_right (by decide) (by unfold pframeMaxOrder at horder; omega)
      rw [pageSize] at hle
      omega
  · rintro (hle | hex)
    swap
    · exact ⟨kpageErr, st, allocRange_exhausted h hex sz, Or.inl rfl⟩
    by_cases hreq : kbudByteOrder (pageAlignUp sz) ≥ pframeMaxOrder
    · exact ⟨kpageErr, st, if_pos hreq, Or.inl rfl⟩
    have hrun : kbudAllocRange st sz = allocLoop (kbudByteOrder (pageAlignUp sz)) st.regionCount 0 st :=
      if_neg hreq
    rcases allocLoop_firstFit h (Nat.lt_of_not_le hreq) st.regionCount 0 (Nat.zero_add _)
      (fun j hj => absurd hj (Nat.not_lt_zero j)) with ⟨-, hloop⟩ | ⟨i, order, st', -, hloop, hne, -⟩
    · exact ⟨kpageErr, st, hrun.trans hloop, Or.inl rfl⟩
    · exact ⟨_, st', hrun.trans hloop, Or.inr ⟨_, byteOrder_alignUp hle,
        allocLoop_handsOut h (Nat.lt_of_not_le hreq) hne st.regionCount 0 (Nat.zero_add _) hloop⟩⟩

end Buddy

end SyncKernel
