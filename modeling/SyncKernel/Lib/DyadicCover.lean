/-
**Reduced covers by dyadic blocks.**

A set of numbers may be written as a union of dyadic blocks, up to a largest order, in many ways.  A
cover by blocks without overlap is reduced when it has no two blocks that are the halves of a block
of the next order.  There is one reduced cover only: its blocks are the maximal ones of the set.
So any two procedures that keep a cover reduced agree, however they arrived at it, and a block lies in
the set only if one block of the cover contains all of it.

Main definitions:

* `Dyad.block` — the numbers of a block;
* `Dyad.MaximalIn` — a block of a set that is in no larger block of it;
* `Dyad.Reduced` — the reduced covers of a set.

Main results:

* `Dyad.Reduced.exists_super` — **a block of the set lies in a block of the cover**;
* `Dyad.Reduced.iff_maximalIn` — **the reduced cover consists of the maximal blocks**;
* `Dyad.Maximal.not_pair` — the maximal blocks of an interval.
-/

import Mathlib.Order.Interval.Set.Basic
import SyncKernel.Lib.Dyadic

set_option relaxedAutoImplicit false
set_option autoImplicit false

namespace SyncKernel

namespace Dyad

/-! ### Blocks as sets -/

/-- The numbers of the block of order `k` at `b`. -/
def block (k b : ℕ) : Set ℕ := Set.Ico b (b + 2 ^ k)

@[simp] theorem mem_block {k b a : ℕ} : a ∈ block k b ↔ b ≤ a ∧ a < b + 2 ^ k := Iff.rfl

theorem self_mem_block (k b : ℕ) : b ∈ block k b :=
  ⟨le_rfl, Nat.lt_add_of_pos_right (Nat.two_pow_pos k)⟩

/-- A block is the union of its halves. -/
theorem block_succ (k b : ℕ) : block (k + 1) b = block k b ∪ block k (b + 2 ^ k) := by
  have hpow : 2 ^ (k + 1) = 2 ^ k + 2 ^ k := by rw [Nat.pow_succ]; omega
  ext a
  simp only [Set.mem_union, mem_block, hpow]
  omega

/-- A block that meets a larger one lies in it. -/
theorem block_subset {j k a b c : ℕ} (hjk : j ≤ k) (hc : 2 ^ j ∣ c) (hb : 2 ^ k ∣ b)
    (hac : a ∈ block j c) (hab : a ∈ block k b) : block j c ⊆ block k b := by
  obtain ⟨h₁, h₂⟩ := nested hjk hb hab.1 hab.2
  rw [base_eq hc hac.1 hac.2] at h₁ h₂
  intro x hx
  exact ⟨h₁.trans hx.1, lt_of_lt_of_le hx.2 h₂⟩

/-- Blocks of one order that meet are equal. -/
theorem block_eq {k a b c : ℕ} (hb : 2 ^ k ∣ b) (hc : 2 ^ k ∣ c) (hab : a ∈ block k b)
    (hac : a ∈ block k c) : b = c :=
  (base_eq hb hab.1 hab.2).symm.trans (base_eq hc hac.1 hac.2)

/-- A block is one of the halves of the block around it. -/
theorem eq_base_or (k b : ℕ) (hb : 2 ^ k ∣ b) :
    b = base (k + 1) b ∨ b = base (k + 1) b + 2 ^ k := by
  have hpow : 2 ^ (k + 1) = 2 ^ k + 2 ^ k := by rw [Nat.pow_succ]; omega
  have hmem : b ∈ block (k + 1) (base (k + 1) b) := ⟨base_le _ _, lt_base_add _ _⟩
  have hdvd : 2 ^ k ∣ base (k + 1) b := (Nat.pow_dvd_pow 2 (Nat.le_succ k)).trans (dvd_base _ _)
  rw [block_succ] at hmem
  rcases hmem with hmem | hmem
  · exact Or.inl (block_eq hb hdvd (self_mem_block k b) hmem)
  · exact Or.inr (block_eq hb (Nat.dvd_add hdvd (Nat.dvd_refl _)) (self_mem_block k b) hmem)

/-! ### Maximal blocks of a set -/

/-- The block lies in the set, and the block of the next order around it does not, unless the order
is the largest one. -/
structure MaximalIn (S : Set ℕ) (cap k b : ℕ) : Prop where
  dvd : 2 ^ k ∣ b
  sub : block k b ⊆ S
  le_cap : k ≤ cap
  top : k < cap → ¬ block (k + 1) (base (k + 1) b) ⊆ S

/-- Two maximal blocks of an interval are not the halves of a block below the largest order. -/
theorem Maximal.not_pair {lo hi cap k b b' : ℕ} (h : Maximal lo hi cap k b)
    (h' : Maximal lo hi cap k b') (hk : k < cap) (hbase : base (k + 1) b = base (k + 1) b') :
    b = b' := by
  have hpow : 2 ^ (k + 1) = 2 ^ k + 2 ^ k := by rw [Nat.pow_succ]; omega
  -- the block around both would lie in the interval
  have hno : ∀ c c', Maximal lo hi cap k c → Maximal lo hi cap k c' → base (k + 1) c = c →
      c' ≠ c + 2 ^ k := by
    rintro c c' hc hc' hcb rfl
    refine hc.top hk ⟨dvd_base _ _, ?_, ?_⟩
    · rw [hcb]
      exact hc.fits.le
    · have hend := hc'.fits.end_le
      rw [hcb]
      omega
  rcases eq_base_or k b h.fits.dvd with hb | hb <;> rcases eq_base_or k b' h'.fits.dvd with hb' | hb'
  · rw [hb, hb', hbase]
  · exact absurd (by rw [hb', ← hbase, ← hb]) (hno b b' h h' hb.symm)
  · exact absurd (by rw [hb, hbase, ← hb']) (hno b' b h' h hb'.symm)
  · rw [hb, hb', hbase]

/-! ### Reduced covers -/

/-- The blocks `F` cover the set without overlap, and no two of them are the halves of a block of the
next order, up to the largest one. -/
structure Reduced (cap : ℕ) (S : Set ℕ) (F : ℕ → ℕ → Prop) : Prop where
  dvd : ∀ k b, F k b → 2 ^ k ∣ b
  le_cap : ∀ k b, F k b → k ≤ cap
  sub : ∀ k b, F k b → block k b ⊆ S
  cover : ∀ a ∈ S, ∃ k b, F k b ∧ a ∈ block k b
  apart : ∀ k b k' b' a, F k b → F k' b' → a ∈ block k b → a ∈ block k' b' → k = k' ∧ b = b'
  no_pair : ∀ k < cap, ∀ b, 2 ^ (k + 1) ∣ b → F k b → ¬ F k (b + 2 ^ k)

namespace Reduced

variable {cap : ℕ} {S : Set ℕ} {F : ℕ → ℕ → Prop}

/-- **A block of the set lies in a block of the cover**, by induction on its order: the blocks that
contain its halves are not the halves themselves. -/
theorem exists_super (h : Reduced cap S F) :
    ∀ {j c : ℕ}, j ≤ cap → 2 ^ j ∣ c → block j c ⊆ S →
      ∃ k b, F k b ∧ j ≤ k ∧ block j c ⊆ block k b := by
  intro j
  induction j with
  | zero =>
      intro c _ hc hsub
      obtain ⟨k, b, hF, hmem⟩ := h.cover c (hsub (self_mem_block 0 c))
      exact ⟨k, b, hF, Nat.zero_le k,
        block_subset (Nat.zero_le k) hc (h.dvd k b hF) (self_mem_block 0 c) hmem⟩
  | succ j ih =>
      intro c hj hc hsub
      have hdvd : 2 ^ j ∣ c := (Nat.pow_dvd_pow 2 (Nat.le_succ j)).trans hc
      rw [block_succ] at hsub
      obtain ⟨hlo, hhi⟩ := Set.union_subset_iff.1 hsub
      obtain ⟨k, b, hF, hjk, hb⟩ := ih (by omega) hdvd hlo
      obtain ⟨k', b', hF', hjk', hb'⟩ := ih (by omega) (Nat.dvd_add hdvd (Nat.dvd_refl _)) hhi
      have hmem : c ∈ block k b := hb (self_mem_block j c)
      have hmem' : c + 2 ^ j ∈ block k' b' := hb' (self_mem_block j _)
      have hin : c + 2 ^ j ∈ block (j + 1) c := by
        rw [block_succ]
        exact Or.inr (self_mem_block j _)
      rcases Nat.eq_or_lt_of_le hjk with rfl | hlt
      · rcases Nat.eq_or_lt_of_le hjk' with rfl | hlt'
        · -- both halves are in the cover
          obtain rfl := block_eq (h.dvd _ b hF) hdvd hmem (self_mem_block j c)
          obtain rfl := block_eq (h.dvd _ b' hF') (Nat.dvd_add hdvd (Nat.dvd_refl _)) hmem'
            (self_mem_block j _)
          exact absurd hF' (h.no_pair _ (by omega) _ hc hF)
        · exact ⟨k', b', hF', hlt', block_subset hlt' hc (h.dvd k' b' hF') hin hmem'⟩
      · exact ⟨k, b, hF, hlt, block_subset hlt hc (h.dvd k b hF) (self_mem_block _ c) hmem⟩

/-- **The reduced cover consists of the maximal blocks** of the set. -/
theorem iff_maximalIn (h : Reduced cap S F) (k b : ℕ) : F k b ↔ MaximalIn S cap k b := by
  constructor
  · intro hF
    refine ⟨h.dvd k b hF, h.sub k b hF, h.le_cap k b hF, fun hlt hsub => ?_⟩
    obtain ⟨k', b', hF', hle, hsup⟩ := h.exists_super hlt (dvd_base _ _) hsub
    have hmem : b ∈ block k' b' := hsup ⟨base_le _ _, lt_base_add _ _⟩
    have hkk := (h.apart k b k' b' b hF hF' (self_mem_block k b) hmem).1
    omega
  · intro hmax
    obtain ⟨k', b', hF, hle, hsup⟩ := h.exists_super hmax.le_cap hmax.dvd hmax.sub
    have hmem : b ∈ block k' b' := hsup (self_mem_block k b)
    rcases Nat.eq_or_lt_of_le hle with rfl | hlt
    · rwa [block_eq hmax.dvd (h.dvd k b' hF) (self_mem_block k b) hmem]
    · have hcap := h.le_cap k' b' hF
      refine absurd ?_ (hmax.top (by omega))
      exact (block_subset hlt (dvd_base _ _) (h.dvd k' b' hF) ⟨base_le _ _, lt_base_add _ _⟩
        hmem).trans (h.sub k' b' hF)

/-- A set has one reduced cover only. -/
theorem unique {F' : ℕ → ℕ → Prop} (h : Reduced cap S F) (h' : Reduced cap S F') (k b : ℕ) :
    F k b ↔ F' k b := (h.iff_maximalIn k b).trans (h'.iff_maximalIn k b).symm

end Reduced

end Dyad

end SyncKernel
