/-
**Dyadic blocks.**

A dyadic block of order `k` is an interval of `2 ^ k` numbers that starts at a multiple of `2 ^ k`.
Two of them are nested or apart.  The blocks of an interval that are in no larger block of it, up to
a largest order, cover the interval without overlap, and a greedy walk from the left meets exactly
these.

Main definitions:

* `Dyad.base` — where the block of an order around a number starts;
* `Dyad.Fits`, `Dyad.Maximal` — the blocks of an interval, and the largest of them;
* `Dyad.Greedy` — the order of the block that a greedy walk takes next.

Main results:

* `Dyad.exists_maximal`, `Dyad.Maximal.unique` — **the maximal blocks partition the interval**;
* `Dyad.Greedy.maximal_iff` — **the greedy walk takes the maximal blocks**.
-/

import Mathlib.Data.Nat.Find
import Mathlib.Algebra.Order.Ring.Nat

set_option relaxedAutoImplicit false
set_option autoImplicit false

namespace SyncKernel

namespace Dyad

/-! ### Blocks around a number -/

/-- The start of the block of order `k` around `a`. -/
def base (k a : ℕ) : ℕ := a / 2 ^ k * 2 ^ k

theorem dvd_base (k a : ℕ) : 2 ^ k ∣ base k a := Nat.dvd_mul_left _ _

theorem base_le (k a : ℕ) : base k a ≤ a := Nat.div_mul_le_self _ _

theorem lt_base_add (k a : ℕ) : a < base k a + 2 ^ k := by
  have hlt := Nat.lt_div_mul_add (a := a) (Nat.two_pow_pos k)
  exact hlt

/-- A multiple of `2 ^ k` up to `a` is not behind the start of the block around `a`. -/
theorem le_base {k a c : ℕ} (hc : 2 ^ k ∣ c) (hle : c ≤ a) : c ≤ base k a := by
  obtain ⟨e, rfl⟩ := hc
  rw [base, Nat.mul_comm]
  exact Nat.mul_le_mul_right _ ((Nat.le_div_iff_mul_le (Nat.two_pow_pos k)).2 (by
    rw [Nat.mul_comm]; exact hle))

/-- A multiple of `2 ^ k` above `a` is not before the end of the block around `a`. -/
theorem base_add_le {k a c : ℕ} (hc : 2 ^ k ∣ c) (hlt : a < c) : base k a + 2 ^ k ≤ c := by
  obtain ⟨e, rfl⟩ := hc
  have hdiv : a / 2 ^ k < e := Nat.div_lt_of_lt_mul hlt
  calc base k a + 2 ^ k = (a / 2 ^ k + 1) * 2 ^ k := by rw [base, Nat.succ_mul]
    _ ≤ e * 2 ^ k := Nat.mul_le_mul_right _ hdiv
    _ = 2 ^ k * e := Nat.mul_comm _ _

/-- The block of order `k` that contains `a` is the one around `a`. -/
theorem base_eq {k a b : ℕ} (hb : 2 ^ k ∣ b) (hle : b ≤ a) (hlt : a < b + 2 ^ k) : base k a = b := by
  have h₁ := le_base hb hle
  have h₂ := base_add_le (Nat.dvd_add hb (Nat.dvd_refl _)) hlt
  omega

/-- The block of a smaller order around a number of a block lies in that block. -/
theorem nested {j k a b : ℕ} (hjk : j ≤ k) (hb : 2 ^ k ∣ b) (hle : b ≤ a) (hlt : a < b + 2 ^ k) :
    b ≤ base j a ∧ base j a + 2 ^ j ≤ b + 2 ^ k := by
  have hpow : 2 ^ j ∣ 2 ^ k := Nat.pow_dvd_pow 2 hjk
  exact ⟨le_base (hpow.trans hb) hle, base_add_le (Nat.dvd_add (hpow.trans hb) hpow) hlt⟩

/-! ### The maximal blocks of an interval -/

/-- The block of order `k` at `b` lies in the interval from `lo` to `hi`. -/
structure Fits (lo hi k b : ℕ) : Prop where
  dvd : 2 ^ k ∣ b
  le : lo ≤ b
  end_le : b + 2 ^ k ≤ hi

instance (lo hi k b : ℕ) : Decidable (Fits lo hi k b) :=
  decidable_of_iff (2 ^ k ∣ b ∧ lo ≤ b ∧ b + 2 ^ k ≤ hi)
    ⟨fun ⟨h₁, h₂, h₃⟩ => ⟨h₁, h₂, h₃⟩, fun ⟨h₁, h₂, h₃⟩ => ⟨h₁, h₂, h₃⟩⟩

/-- The block lies in the interval, and the block of the next order around it does not, unless the
order is the largest one. -/
structure Maximal (lo hi cap k b : ℕ) : Prop where
  fits : Fits lo hi k b
  le_cap : k ≤ cap
  top : k < cap → ¬ Fits lo hi (k + 1) (base (k + 1) b)

instance (lo hi cap k b : ℕ) : Decidable (Maximal lo hi cap k b) :=
  decidable_of_iff
    (Fits lo hi k b ∧ k ≤ cap ∧ (k < cap → ¬ Fits lo hi (k + 1) (base (k + 1) b)))
    ⟨fun ⟨h₁, h₂, h₃⟩ => ⟨h₁, h₂, h₃⟩, fun ⟨h₁, h₂, h₃⟩ => ⟨h₁, h₂, h₃⟩⟩

/-- A block that is inside a larger block of the interval is not maximal. -/
theorem Maximal.not_lt {lo hi cap k b k' b' : ℕ} (h : Maximal lo hi cap k b)
    (h' : Fits lo hi k' b') (hcap : k' ≤ cap) (hle : b' ≤ b) (hlt : b < b' + 2 ^ k') : k' ≤ k := by
  by_contra hkk
  obtain ⟨h₁, h₂⟩ := nested (j := k + 1) (by omega) h'.dvd hle hlt
  exact h.top (by omega) ⟨dvd_base _ _, h'.le.trans h₁, h₂.trans h'.end_le⟩

/-- **No overlap**: a number is in one maximal block only. -/
theorem Maximal.unique {lo hi cap k b k' b' a : ℕ} (h : Maximal lo hi cap k b)
    (h' : Maximal lo hi cap k' b') (hle : b ≤ a) (hlt : a < b + 2 ^ k) (hle' : b' ≤ a)
    (hlt' : a < b' + 2 ^ k') : k = k' ∧ b = b' := by
  have hb := base_eq h.fits.dvd hle hlt
  have hb' := base_eq h'.fits.dvd hle' hlt'
  have hpos : 0 < 2 ^ k := Nat.two_pow_pos k
  have hpos' : 0 < 2 ^ k' := Nat.two_pow_pos k'
  rcases Nat.le_total k k' with hkk | hkk
  · obtain ⟨h₁, h₂⟩ := nested hkk h'.fits.dvd hle' hlt'
    rw [hb] at h₁ h₂
    have hk := h.not_lt h'.fits h'.le_cap h₁ (by omega)
    obtain rfl : k = k' := by omega
    exact ⟨rfl, hb.symm.trans hb'⟩
  · obtain ⟨h₁, h₂⟩ := nested hkk h.fits.dvd hle hlt
    rw [hb'] at h₁ h₂
    have hk := h'.not_lt h.fits h.le_cap h₁ (by omega)
    obtain rfl : k = k' := by omega
    exact ⟨rfl, hb.symm.trans hb'⟩

/-- **Cover**: every number of the interval is in a maximal block. -/
theorem exists_maximal {lo hi a : ℕ} (cap : ℕ) (hlo : lo ≤ a) (hhi : a < hi) :
    ∃ k b, Maximal lo hi cap k b ∧ b ≤ a ∧ a < b + 2 ^ k := by
  have hzero : Fits lo hi 0 (base 0 a) := by
    have hbase : base 0 a = a := by simp [base]
    rw [hbase]
    exact ⟨Nat.one_dvd _, hlo, hhi⟩
  set k := Nat.findGreatest (fun k => Fits lo hi k (base k a)) cap with hk
  have hfits : Fits lo hi k (base k a) :=
    Nat.findGreatest_spec (P := fun k => Fits lo hi k (base k a)) (Nat.zero_le cap) hzero
  refine ⟨k, base k a, ⟨hfits, Nat.findGreatest_le cap, fun hlt hnext => ?_⟩, base_le _ _,
    lt_base_add _ _⟩
  have hbase : base (k + 1) (base k a) = base (k + 1) a := by
    obtain ⟨h₁, -⟩ := nested (Nat.le_succ k) (dvd_base (k + 1) a) (base_le _ _) (lt_base_add _ _)
    exact base_eq (dvd_base _ _) h₁ ((base_le _ _).trans_lt (lt_base_add _ _))
  rw [hbase] at hnext
  exact Nat.findGreatest_is_greatest (P := fun k => Fits lo hi k (base k a)) (Nat.lt_succ_self k)
    hlt hnext

/-! ### The greedy walk -/

/-- The largest order up to `cap` of a block that starts at `cur` and has at most `m` numbers. -/
structure Greedy (cap cur m k : ℕ) : Prop where
  le_cap : k ≤ cap
  dvd : 2 ^ k ∣ cur
  le : 2 ^ k ≤ m
  top : k < cap → 2 ^ (k + 1) ∣ cur → m < 2 ^ (k + 1)

namespace Greedy

variable {cap cur m k : ℕ}

/-- A block at the start of the interval has at most the greedy order. -/
theorem le_of_fits (h : Greedy cap cur m k) {j : ℕ} (hj : Fits cur (cur + m) j cur)
    (hcap : j ≤ cap) : j ≤ k := by
  by_contra hlt
  have hle : 2 ^ (k + 1) ≤ 2 ^ j := Nat.pow_le_pow_right (by decide) (by omega)
  have hm := h.top (by omega) ((Nat.pow_dvd_pow 2 (by omega)).trans hj.dvd)
  have hend := hj.end_le
  omega

/-- The greedy block is maximal. -/
theorem maximal (h : Greedy cap cur m k) : Maximal cur (cur + m) cap k cur := by
  refine ⟨⟨h.dvd, le_rfl, Nat.add_le_add_left h.le cur⟩, h.le_cap, fun hlt hnext => ?_⟩
  have hbase : base (k + 1) cur = cur := Nat.le_antisymm (base_le _ _) hnext.le
  rw [hbase] at hnext
  have hle := h.le_of_fits hnext hlt
  omega

/-- A maximal block of what the greedy block leaves is a maximal block. -/
theorem maximal_of_rest (h : Greedy cap cur m k) {j b : ℕ}
    (hb : Maximal (cur + 2 ^ k) (cur + m) cap j b) : Maximal cur (cur + m) cap j b := by
  have hle : cur + 2 ^ k ≤ b := hb.fits.le
  refine ⟨⟨hb.fits.dvd, (Nat.le_add_right _ _).trans hle, hb.fits.end_le⟩, hb.le_cap, fun hlt hnext => hb.top hlt ?_⟩
  refine ⟨hnext.dvd, ?_, hnext.end_le⟩
  -- otherwise the larger block starts in the greedy block and ends in it
  by_contra hin
  have hmem := lt_base_add (j + 1) b
  rcases Nat.eq_or_lt_of_le hnext.le with heq | hgt
  · have hk := h.le_of_fits (j := j + 1) (by rw [heq]; exact heq ▸ hnext) hlt
    have hpow : 2 ^ (j + 1) ≤ 2 ^ k := Nat.pow_le_pow_right (by decide) hk
    omega
  · rcases Nat.lt_or_ge (j + 1) k with hjk | hjk
    · have hnest := nested (Nat.le_of_lt hjk) h.dvd hnext.le (by omega)
      rw [base_eq hnext.dvd le_rfl (Nat.lt_add_of_pos_right (Nat.two_pow_pos _))] at hnest
      omega
    · have hdvd : 2 ^ k ∣ base (j + 1) b := (Nat.pow_dvd_pow 2 hjk).trans hnext.dvd
      have hge := base_add_le hdvd hgt
      rw [base_eq h.dvd le_rfl (Nat.lt_add_of_pos_right (Nat.two_pow_pos _))] at hge
      omega

/-- **The greedy walk takes the maximal blocks**: they are the greedy block and those of the rest. -/
theorem maximal_iff (h : Greedy cap cur m k) {j b : ℕ} :
    Maximal cur (cur + m) cap j b ↔
      (j = k ∧ b = cur) ∨ Maximal (cur + 2 ^ k) (cur + m) cap j b := by
  constructor
  · intro hb
    have hpos : 0 < 2 ^ k := Nat.two_pow_pos k
    rcases Nat.lt_or_ge b (cur + 2 ^ k) with hlt | hge
    · have hposj : 0 < 2 ^ j := Nat.two_pow_pos j
      obtain ⟨rfl, rfl⟩ := hb.unique h.maximal le_rfl (by omega) hb.fits.le hlt
      exact Or.inl ⟨rfl, rfl⟩
    · refine Or.inr ⟨⟨hb.fits.dvd, hge, hb.fits.end_le⟩, hb.le_cap, fun hlt hnext =>
        hb.top hlt ⟨hnext.dvd, ?_, hnext.end_le⟩⟩
      have hle := hnext.le
      omega
  · rintro (⟨rfl, rfl⟩ | hb)
    · exact h.maximal
    · exact h.maximal_of_rest hb

end Greedy

end Dyad

end SyncKernel
