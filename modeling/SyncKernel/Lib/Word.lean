/-
**Arithmetic of 64-bit words, on natural numbers.**

A machine word is a natural number below `2 ^ 64`.  Sums and differences wrap; masks with the
complement of a power of two, or of a power of two less one, are what C code uses to align an
address or to clear a bit.  This module states the wrapping operations and what the masks compute.

Main definitions:

* `Word.add`, `Word.sub`, `Word.not` — the wrapping sum and difference, and the complement;
* `Word.add32`, `Word.sub32`, `Word.dec32` — the same for a `u32`, and its decrement;
* `Word.alignDown`, `Word.alignUp` — rounding to a multiple of a power of two by masking;
* `Word.ctz`, `Word.clz` — the number of trailing and of leading zero bits.

Main results:

* `Word.and_not_mask` — masking the low bits off is rounding down;
* `Word.and_not_two_pow`, `Word.xor_two_pow` — clearing and flipping one bit;
* `Word.two_pow_ctz_dvd`, `Word.sub_clz` — what the zero counts say about divisors and size.
-/

import Mathlib.Data.Nat.Bitwise
import Mathlib.Data.Nat.Log

set_option relaxedAutoImplicit false
set_option autoImplicit false

namespace SyncKernel

namespace Word

/-! ### Wrapping arithmetic -/

/-- The sum of two words. -/
def add (a b : ℕ) : ℕ := (a + b) % 2 ^ 64

/-- The difference of two words. -/
def sub (a b : ℕ) : ℕ := (a + (2 ^ 64 - b)) % 2 ^ 64

/-- The complement of a word. -/
def not (a : ℕ) : ℕ := 2 ^ 64 - (a + 1)

/-- The sum of two `u32`. -/
def add32 (a b : ℕ) : ℕ := (a + b) % 2 ^ 32

/-- The difference of two `u32`. -/
def sub32 (a b : ℕ) : ℕ := (a + (2 ^ 32 - b)) % 2 ^ 32

/-- `n - 1` of a `u32`. -/
def dec32 (n : ℕ) : ℕ := if n = 0 then 2 ^ 32 - 1 else n - 1

@[simp] theorem dec32_succ (n : ℕ) : dec32 (n + 1) = n := if_neg (Nat.succ_ne_zero n)

theorem add_lt (a b : ℕ) : add a b < 2 ^ 64 := Nat.mod_lt _ (by decide)

theorem sub_lt (a b : ℕ) : sub a b < 2 ^ 64 := Nat.mod_lt _ (by decide)

theorem add_of_lt {a b : ℕ} (h : a + b < 2 ^ 64) : add a b = a + b := Nat.mod_eq_of_lt h

theorem sub_of_le {a b : ℕ} (h : b ≤ a) (ha : a < 2 ^ 64) : sub a b = a - b := by
  unfold sub; omega

theorem sub_of_lt {a b : ℕ} (h : a < b) (hb : b < 2 ^ 64) : sub a b = 2 ^ 64 - (b - a) := by
  unfold sub; omega

theorem sub_add_self {a b : ℕ} (ha : a < 2 ^ 64) (hb : b < 2 ^ 64) : sub (add a b) b = a := by
  unfold sub add; omega

theorem add_sub_self {a b : ℕ} (ha : a < 2 ^ 64) (hb : b < 2 ^ 64) : add (sub a b) b = a := by
  unfold sub add; omega

theorem add32_of_lt {a b : ℕ} (h : a + b < 2 ^ 32) : add32 a b = a + b := Nat.mod_eq_of_lt h

theorem sub32_of_le {a b : ℕ} (h : b ≤ a) (ha : a < 2 ^ 32) : sub32 a b = a - b := by
  unfold sub32; omega

/-! ### Masks -/

/-- `a & ~(n - 1)`. -/
def alignDown (a n : ℕ) : ℕ := a &&& not (n - 1)

/-- `(a + (n - 1)) & ~(n - 1)`. -/
def alignUp (a n : ℕ) : ℕ := add a (n - 1) &&& not (n - 1)

theorem testBit_of_le {a i : ℕ} (ha : a < 2 ^ 64) (hi : 64 ≤ i) : a.testBit i = false :=
  Nat.testBit_lt_two_pow (lt_of_lt_of_le ha (Nat.pow_le_pow_right (by decide) hi))

theorem testBit_not {a : ℕ} (ha : a < 2 ^ 64) (i : ℕ) :
    (not a).testBit i = (decide (i < 64) && !a.testBit i) := Nat.testBit_two_pow_sub_succ ha i

/-- **Masking the low bits off is rounding down.** -/
theorem and_not_mask {a k : ℕ} (ha : a < 2 ^ 64) (hk : k ≤ 64) :
    a &&& not (2 ^ k - 1) = a / 2 ^ k * 2 ^ k := by
  have hle : 2 ^ k ≤ 2 ^ 64 := Nat.pow_le_pow_right (by decide) hk
  have hpos : 0 < 2 ^ k := Nat.two_pow_pos k
  refine Nat.eq_of_testBit_eq fun i => ?_
  rw [Nat.testBit_and, testBit_not (by omega), Nat.testBit_two_pow_sub_one, Nat.testBit_mul_two_pow,
    Nat.testBit_div_two_pow]
  by_cases hi : i < k
  · simp [hi]
  · have hik : i - k + k = i := by omega
    by_cases hi' : i < 64
    · simp [hi, hi', hik, Nat.le_of_not_lt hi]
    · simp [testBit_of_le ha (Nat.le_of_not_lt hi'), hik]

theorem alignDown_eq {a k : ℕ} (ha : a < 2 ^ 64) (hk : k ≤ 64) :
    alignDown a (2 ^ k) = a / 2 ^ k * 2 ^ k := and_not_mask ha hk

theorem alignUp_eq {a k : ℕ} (ha : a + (2 ^ k - 1) < 2 ^ 64) (hk : k ≤ 64) :
    alignUp a (2 ^ k) = (a + (2 ^ k - 1)) / 2 ^ k * 2 ^ k := by
  rw [alignUp, add_of_lt ha, and_not_mask ha hk]

/-! ### Single bits -/

/-- Adding a power of two whose bit is clear sets that bit and no other. -/
theorem testBit_add_two_pow {a k : ℕ} (h : a.testBit k = false) (i : ℕ) :
    (a + 2 ^ k).testBit i = (a.testBit i || decide (k = i)) := by
  have hsplit : a = 2 ^ (k + 1) * (a / 2 ^ (k + 1)) + a % 2 ^ (k + 1) := (Nat.div_add_mod _ _).symm
  have hr : a % 2 ^ (k + 1) < 2 ^ k := by
    have hlt : a % 2 ^ (k + 1) < 2 ^ (k + 1) := Nat.mod_lt _ (Nat.two_pow_pos _)
    rw [Nat.testBit_eq_decide_div_mod_eq, decide_eq_false_iff_not] at h
    rw [Nat.pow_succ, Nat.mod_mul] at hlt ⊢
    have hmod : a % 2 ^ k < 2 ^ k := Nat.mod_lt _ (Nat.two_pow_pos _)
    have hz : a / 2 ^ k % 2 = 0 := by omega
    rw [hz]; omega
  generalize a / 2 ^ (k + 1) = q at hsplit
  generalize a % 2 ^ (k + 1) = r at hsplit hr
  have hr' : r < 2 ^ (k + 1) := by rw [Nat.pow_succ]; omega
  have hs : 2 ^ k + r < 2 ^ (k + 1) := by rw [Nat.pow_succ]; omega
  have hsum : a + 2 ^ k = 2 ^ (k + 1) * q + (2 ^ k + r) := by omega
  rw [hsum, Nat.testBit_two_pow_mul_add _ hs, hsplit, Nat.testBit_two_pow_mul_add _ hr']
  rcases Nat.lt_trichotomy i k with hik | rfl | hik
  · have hne : k ≠ i := by omega
    simp [Nat.lt_succ_of_lt hik, Nat.testBit_two_pow_add_gt hik, hne]
  · simp [Nat.testBit_two_pow_add_eq, Nat.testBit_lt_two_pow hr]
  · have hne : k ≠ i := by omega
    have hge : ¬ i < k + 1 := by omega
    simp [hge, hne]

/-- A number with a bit set is a number with the bit clear, plus the power of two. -/
theorem exists_of_testBit {a k : ℕ} (h : a.testBit k = true) :
    ∃ b, a = b + 2 ^ k ∧ b.testBit k = false := by
  refine ⟨a - 2 ^ k, (Nat.sub_add_cancel (Nat.ge_two_pow_of_testBit h)).symm, ?_⟩
  have hadd : a = 2 ^ k + (a - 2 ^ k) := by
    have := Nat.ge_two_pow_of_testBit h
    omega
  rw [hadd, Nat.testBit_two_pow_add_eq] at h
  simpa using h

/-- A multiple of the next power of two has the bit clear. -/
theorem testBit_of_dvd {a k : ℕ} (h : 2 ^ (k + 1) ∣ a) : a.testBit k = false := by
  obtain ⟨q, rfl⟩ := h
  rw [Nat.testBit_eq_decide_div_mod_eq, Nat.pow_succ, Nat.mul_assoc,
    Nat.mul_div_cancel_left _ (Nat.two_pow_pos k), Nat.mul_mod_right]
  rfl

/-- A multiple of a power of two is one of the next, or its bit is set. -/
theorem dvd_of_testBit {a k : ℕ} (h : 2 ^ k ∣ a) (hb : a.testBit k = false) : 2 ^ (k + 1) ∣ a := by
  obtain ⟨q, rfl⟩ := h
  rw [Nat.testBit_eq_decide_div_mod_eq, Nat.mul_div_cancel_left _ (Nat.two_pow_pos k),
    decide_eq_false_iff_not] at hb
  rw [Nat.pow_succ]
  exact Nat.mul_dvd_mul_left _ (Nat.dvd_of_mod_eq_zero (by omega))

/-- **Flipping a bit** adds the power of two or takes it away. -/
theorem xor_two_pow (a k : ℕ) :
    a ^^^ 2 ^ k = if a.testBit k then a - 2 ^ k else a + 2 ^ k := by
  cases hb : a.testBit k with
  | false =>
      refine Nat.eq_of_testBit_eq fun i => ?_
      rw [if_neg (by simp), testBit_add_two_pow hb, Nat.testBit_xor, Nat.testBit_two_pow]
      by_cases hik : k = i
      · subst hik; simp [hb]
      · simp [hik]
  | true =>
      obtain ⟨b, rfl, hbk⟩ := exists_of_testBit hb
      refine Nat.eq_of_testBit_eq fun i => ?_
      rw [if_pos rfl, Nat.add_sub_cancel, Nat.testBit_xor, testBit_add_two_pow hbk,
        Nat.testBit_two_pow]
      by_cases hik : k = i
      · subst hik; simp [hbk]
      · simp [hik]

/-- **Clearing a bit** takes the power of two away when the bit is set. -/
theorem and_not_two_pow {a k : ℕ} (ha : a < 2 ^ 64) (hk : k < 64) :
    a &&& not (2 ^ k) = if a.testBit k then a - 2 ^ k else a := by
  have hlt : 2 ^ k < 2 ^ 64 := Nat.pow_lt_pow_right (by decide) hk
  have key : ∀ i, (a &&& not (2 ^ k)).testBit i = (a.testBit i && !decide (k = i)) := by
    intro i
    rw [Nat.testBit_and, testBit_not hlt, Nat.testBit_two_pow]
    by_cases hi : i < 64
    · simp [hi]
    · simp [testBit_of_le ha (Nat.le_of_not_lt hi)]
  refine Nat.eq_of_testBit_eq fun i => ?_
  rw [key i]
  cases hb : a.testBit k with
  | false =>
      rw [if_neg (by simp)]
      by_cases hik : k = i
      · subst hik; simp [hb]
      · simp [hik]
  | true =>
      obtain ⟨b, rfl, hbk⟩ := exists_of_testBit hb
      rw [if_pos rfl, Nat.add_sub_cancel, testBit_add_two_pow hbk]
      by_cases hik : k = i
      · subst hik; simp [hbk]
      · simp [hik]

/-! ### Counting zero bits -/

/-- The number of trailing zero bits, counted up to a bound. -/
def ctzAux : ℕ → ℕ → ℕ
  | 0, _ => 0
  | n + 1, a => if a % 2 = 1 then 0 else ctzAux n (a / 2) + 1

/-- The number of trailing zero bits of a word other than zero. -/
def ctz (a : ℕ) : ℕ := ctzAux 64 a

/-- The number of leading zero bits of a word other than zero. -/
def clz (a : ℕ) : ℕ := 63 - a.log2

theorem two_pow_ctzAux_dvd (n a : ℕ) : 2 ^ ctzAux n a ∣ a := by
  induction n generalizing a with
  | zero => simp [ctzAux]
  | succ n ih =>
      rw [ctzAux]
      by_cases ha : a % 2 = 1
      · simp [ha]
      · rw [if_neg ha, Nat.pow_succ]
        have hdvd : 2 ^ ctzAux n (a / 2) * 2 ∣ a / 2 * 2 := Nat.mul_dvd_mul_right (ih (a / 2)) 2
        rwa [show a / 2 * 2 = a by omega] at hdvd

/-- A word is a multiple of the power of two that its trailing zeros name. -/
theorem two_pow_ctz_dvd (a : ℕ) : 2 ^ ctz a ∣ a := two_pow_ctzAux_dvd 64 a

theorem not_two_pow_ctzAux_dvd :
    ∀ (n : ℕ) {a : ℕ}, a ≠ 0 → a < 2 ^ n → ¬ 2 ^ (ctzAux n a + 1) ∣ a := by
  intro n
  induction n with
  | zero => intro a h0 ha; omega
  | succ n ih =>
      intro a h0 ha
      rw [ctzAux]
      by_cases hodd : a % 2 = 1
      · rw [if_pos hodd]
        omega
      · rw [if_neg hodd]
        intro hdvd
        refine ih (a := a / 2) (by omega) (by omega) ?_
        rw [Nat.pow_succ] at hdvd
        exact Nat.dvd_div_of_mul_dvd ((Nat.mul_comm _ _).dvd.trans hdvd)

/-- The trailing zeros of a word name the largest power of two that divides it. -/
theorem not_two_pow_ctz_dvd {a : ℕ} (h0 : a ≠ 0) (ha : a < 2 ^ 64) : ¬ 2 ^ (ctz a + 1) ∣ a :=
  not_two_pow_ctzAux_dvd 64 h0 ha

/-- The leading zeros of a word name the highest power of two below it. -/
theorem sub_clz {a : ℕ} (h0 : a ≠ 0) (ha : a < 2 ^ 64) : 63 - clz a = a.log2 := by
  have hlt : a.log2 < 64 := (Nat.log2_lt h0).2 ha
  unfold clz; omega

end Word

end SyncKernel
