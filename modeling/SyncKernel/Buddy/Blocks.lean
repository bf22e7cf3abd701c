/-
**Blocks in hand.**

A block that the code holds counts as one in use, and it may be cut in half, merged with its buddy
or dropped without any change of memory.  This module proves these rules of the invariant, and
counts the pages of a region: those on its free lists and those in its blocks in use.

Main definitions:

* `Buddy.Shape.pages` — the pages of a region that are free or in use.

Main results:

* `Buddy.Inv.halve`, `Buddy.Inv.merge`, `Buddy.Inv.drop` — the rules for a block in hand;
* `Buddy.pages_push`, `Buddy.pages_unlink`, `Buddy.pages_halve` — the pages that they keep.
-/

import Mathlib.Algebra.BigOperators.Group.Finset.Basic
import Mathlib.Algebra.BigOperators.Group.List.Basic
import SyncKernel.Buddy.Invariant

set_option relaxedAutoImplicit false
set_option autoImplicit false

namespace SyncKernel

namespace Buddy

variable {st : State} {regs : List Region} {free : ℕ → ℕ → List ℕ} {live : List Blk}

/-! ### Cutting, merging and dropping -/

/-- What is apart from a block is apart from any block inside it. -/
theorem Apart.of_sub {b c f : Blk} (h : Apart b f) (h₁ : b.pg ≤ c.pg)
    (h₂ : c.pg + 2 ^ c.ord ≤ b.pg + 2 ^ b.ord) : Apart c f := by
  unfold Apart at h ⊢
  omega

/-- Forgetting a block in hand. -/
theorem Inv.drop {b : Blk} (h : Inv st ⟨regs, free, b :: live⟩) : Inv st ⟨regs, free, live⟩ :=
  ⟨h.count, h.le, h.table, h.sorted, h.valid, h.header, h.list, h.sepFree,
    (List.pairwise_cons.1 h.sepLive).2, fun a ha => h.sepMix a (List.mem_cons_of_mem _ ha),
    fun a ha => h.live a (List.mem_cons_of_mem _ ha)⟩

/-- The order of the blocks in use does not matter. -/
theorem Inv.perm {live' : List Blk} (h : Inv st ⟨regs, free, live⟩) (hp : live.Perm live') :
    Inv st ⟨regs, free, live'⟩ :=
  ⟨h.count, h.le, h.table, h.sorted, h.valid, h.header, h.list, h.sepFree,
    (hp.pairwise_iff fun hab => Apart.symm hab).1 h.sepLive,
    fun a ha => h.sepMix a (hp.mem_iff.2 ha), fun a ha => h.live a (hp.mem_iff.2 ha)⟩

/-- **A block in hand may be cut in half.** -/
theorem Inv.halve {k pg : ℕ} (h : Inv st ⟨regs, free, ⟨k + 1, pg⟩ :: live⟩) :
    Inv st ⟨regs, free, ⟨k, pg + 2 ^ k⟩ :: ⟨k, pg⟩ :: live⟩ := by
  obtain ⟨hord, hdvd, g, hg, hin⟩ := h.live ⟨k + 1, pg⟩ (by simp)
  obtain ⟨hlive, hrest⟩ := List.pairwise_cons.1 h.sepLive
  dsimp only at hord hdvd
  have hpow : 2 ^ (k + 1) = 2 ^ k + 2 ^ k := by rw [Nat.pow_succ]; omega
  have hdvd' : 2 ^ k ∣ pg := Nat.dvd_trans (Nat.pow_dvd_pow 2 (Nat.le_succ k)) hdvd
  have hlo : ∀ f, Apart ⟨k + 1, pg⟩ f → Apart ⟨k, pg⟩ f := fun f hf =>
    hf.of_sub le_rfl (by dsimp only; omega)
  have hhi : ∀ f, Apart ⟨k + 1, pg⟩ f → Apart ⟨k, pg + 2 ^ k⟩ f := fun f hf =>
    hf.of_sub (Nat.le_add_right _ _) (by dsimp only; omega)
  have hin' : g.start ≤ pg ∧ pg + 2 ^ (k + 1) ≤ g.start + g.pages := hin
  refine ⟨h.count, h.le, h.table, h.sorted, h.valid, h.header, h.list, h.sepFree, ?_, ?_, ?_⟩
  · refine List.pairwise_cons.2 ⟨fun a ha => ?_, List.pairwise_cons.2 ⟨fun a ha => hlo a (hlive a ha),
      hrest⟩⟩
    rcases List.mem_cons.1 ha with rfl | ha
    · exact Or.inr le_rfl
    · exact hhi a (hlive a ha)
  · intro a ha f hf
    have hmix := h.sepMix ⟨k + 1, pg⟩ (by simp) f hf
    rcases List.mem_cons.1 ha with rfl | ha
    · exact hhi f hmix
    rcases List.mem_cons.1 ha with rfl | ha
    · exact hlo f hmix
    · exact h.sepMix a (List.mem_cons_of_mem _ ha) f hf
  · intro a ha
    rcases List.mem_cons.1 ha with rfl | ha
    · refine ⟨by dsimp only; omega, (Nat.dvd_add_right hdvd').2 (dvd_refl _), g, hg, ?_, ?_⟩ <;>
      · dsimp only
        omega
    rcases List.mem_cons.1 ha with rfl | ha
    · refine ⟨by dsimp only; omega, hdvd', g, hg, ?_, ?_⟩ <;>
      · dsimp only
        omega
    · exact h.live a (List.mem_cons_of_mem _ ha)

/-- **A block in hand and its buddy may be merged**, when the pair is aligned to its size. -/
theorem Inv.merge {k pg : ℕ} {g : Region} (h : Inv st ⟨regs, free, ⟨k, pg + 2 ^ k⟩ :: ⟨k, pg⟩ :: live⟩)
    (hk : k < 10) (hdvd : 2 ^ (k + 1) ∣ pg) (hg : g ∈ regs) (hin : g.In ⟨k + 1, pg⟩) :
    Inv st ⟨regs, free, ⟨k + 1, pg⟩ :: live⟩ := by
  have hpow : 2 ^ (k + 1) = 2 ^ k + 2 ^ k := by rw [Nat.pow_succ]; omega
  have hboth : ∀ f, Apart ⟨k, pg⟩ f → Apart ⟨k, pg + 2 ^ k⟩ f → Apart ⟨k + 1, pg⟩ f := by
    intro f h₁ h₂
    have hpos : 0 < 2 ^ f.ord := Nat.two_pow_pos _
    unfold Apart at h₁ h₂ ⊢
    dsimp only at h₁ h₂ ⊢
    omega
  obtain ⟨hhi, hlive⟩ := List.pairwise_cons.1 h.sepLive
  obtain ⟨hlo, hrest⟩ := List.pairwise_cons.1 hlive
  refine ⟨h.count, h.le, h.table, h.sorted, h.valid, h.header, h.list, h.sepFree, ?_, ?_, ?_⟩
  · exact List.pairwise_cons.2 ⟨fun a ha => hboth a (hlo a ha) (hhi a (List.mem_cons_of_mem _ ha)),
      hrest⟩
  · intro a ha f hf
    rcases List.mem_cons.1 ha with rfl | ha
    · exact hboth f (h.sepMix _ (by simp) f hf) (h.sepMix _ (by simp) f hf)
    · exact h.sepMix a (by simp [ha]) f hf
  · intro a ha
    rcases List.mem_cons.1 ha with rfl | ha
    · exact ⟨hk, hdvd, g, hg, hin⟩
    · exact h.live a (by simp [ha])

/-! ### Counting pages -/

/-- The pages on the free lists of a region. -/
def freePages (free : ℕ → ℕ → List ℕ) (g : Region) : ℕ :=
  ∑ k ∈ Finset.range pframeMaxOrder, 2 ^ k * (free g.head k).length

/-- The pages of a region in the blocks in use. -/
def livePages (live : List Blk) (g : Region) : ℕ :=
  ((live.filter fun b => g.In b).map fun b => 2 ^ b.ord).sum

/-- The pages of a region, free and in use. -/
def Shape.pages (sh : Shape) (g : Region) : ℕ := freePages sh.free g + livePages sh.live g

theorem livePages_cons_in {g : Region} {b : Blk} (hin : g.In b) :
    livePages (b :: live) g = 2 ^ b.ord + livePages live g := by
  simp [livePages, hin]

theorem livePages_cons_out {g : Region} {b : Blk} (hout : ¬ g.In b) :
    livePages (b :: live) g = livePages live g := by
  simp [livePages, hout]

theorem livePages_eq_zero {g : Region} (hout : ∀ b ∈ live, ¬ g.In b) : livePages live g = 0 := by
  have hnil : live.filter (fun b => g.In b) = [] :=
    List.filter_eq_nil_iff.2 fun b hb hin => hout b hb (of_decide_eq_true hin)
  rw [livePages, hnil]
  rfl

theorem livePages_perm {live' : List Blk} (hp : live.Perm live') (g : Region) :
    livePages live g = livePages live' g :=
  ((hp.filter _).map _).sum_eq

/-- Changing the list of one order changes the free pages by that list. -/
theorem freePages_setFree (free : ℕ → ℕ → List ℕ) (g : Region) {k : ℕ} (hk : k ≤ 10)
    (l : List ℕ) :
    freePages (setFree free g k l) g + 2 ^ k * (free g.head k).length =
      freePages free g + 2 ^ k * l.length := by
  have hmem : k ∈ Finset.range pframeMaxOrder := Finset.mem_range.2 (by unfold pframeMaxOrder; omega)
  unfold freePages
  rw [← Finset.add_sum_erase _ _ hmem, ← Finset.add_sum_erase _ _ hmem, setFree_self]
  have hrest : ∑ j ∈ (Finset.range pframeMaxOrder).erase k,
      2 ^ j * (setFree free g k l g.head j).length =
        ∑ j ∈ (Finset.range pframeMaxOrder).erase k, 2 ^ j * (free g.head j).length :=
    Finset.sum_congr rfl fun j hj => by rw [setFree_of_ne (Or.inr (Finset.ne_of_mem_erase hj))]
  rw [hrest]
  omega

theorem freePages_setFree_of_ne {g g' : Region} (hne : g'.head ≠ g.head) (k : ℕ) (l : List ℕ) :
    freePages (setFree free g k l) g' = freePages free g' :=
  Finset.sum_congr rfl fun j _ => by rw [setFree_of_ne (Or.inl hne)]

theorem Inv.not_in (h : Inv st ⟨regs, free, live⟩) {g g' : Region} (hg : g ∈ regs) (hg' : g' ∈ regs)
    {b : Blk} (hin : g.In b) (hne : g' ≠ g) : ¬ g'.In b := fun hin' =>
  hne (h.eq_of_in hg' hg hin' hin rfl)

/-- Pushing a block in hand keeps the pages of every region. -/
theorem pages_push {b : Blk} (h : Inv st ⟨regs, free, b :: live⟩) {g : Region} (hg : g ∈ regs)
    (hin : g.In b) {g' : Region} (hg' : g' ∈ regs) :
    (⟨regs, setFree free g b.ord (b.pg :: free g.head b.ord), live⟩ : Shape).pages g' =
      (⟨regs, free, b :: live⟩ : Shape).pages g' := by
  have hord := (h.live b (by simp)).1
  unfold Shape.pages
  dsimp only
  by_cases hgg : g' = g
  · subst hgg
    have hset := freePages_setFree free g' hord (b.pg :: free g'.head b.ord)
    rw [List.length_cons, Nat.mul_succ] at hset
    rw [livePages_cons_in hin]
    omega
  · rw [freePages_setFree_of_ne fun he => hgg (h.eq_of_head hg' hg he),
      livePages_cons_out (h.not_in hg hg' hin hgg)]

/-- Unlinking a free block keeps the pages of every region. -/
theorem pages_unlink (h : Inv st ⟨regs, free, live⟩) {g : Region} (hg : g ∈ regs) {k pg : ℕ}
    (hk : k ≤ 10) (l₁ : List ℕ) {l₂ : List ℕ} (hlist : free g.head k = l₁ ++ pg :: l₂) {g' : Region}
    (hg' : g' ∈ regs) :
    (⟨regs, setFree free g k (l₁ ++ l₂), ⟨k, pg⟩ :: live⟩ : Shape).pages g' =
      (⟨regs, free, live⟩ : Shape).pages g' := by
  have hin : g.In ⟨k, pg⟩ := (h.list g hg k hk).mem_in pg (by simp [hlist])
  unfold Shape.pages
  dsimp only
  by_cases hgg : g' = g
  · subst hgg
    have hset := freePages_setFree free g' hk (l₁ ++ l₂)
    rw [hlist] at hset
    simp only [List.length_append, List.length_cons, Nat.mul_add, Nat.mul_succ] at hset
    rw [livePages_cons_in hin]
    dsimp only
    omega
  · rw [freePages_setFree_of_ne fun he => hgg (h.eq_of_head hg' hg he),
      livePages_cons_out (h.not_in hg hg' hin hgg)]

/-- Cutting a block in hand in half keeps the pages of every region, and so does merging one with
its buddy. -/
theorem pages_halve {k pg : ℕ} (h : Inv st ⟨regs, free, ⟨k + 1, pg⟩ :: live⟩) {g' : Region}
    (hg' : g' ∈ regs) :
    (⟨regs, free, ⟨k, pg + 2 ^ k⟩ :: ⟨k, pg⟩ :: live⟩ : Shape).pages g' =
      (⟨regs, free, ⟨k + 1, pg⟩ :: live⟩ : Shape).pages g' := by
  obtain ⟨-, -, g, hg, hin⟩ := h.live ⟨k + 1, pg⟩ (by simp)
  have hpow : 2 ^ (k + 1) = 2 ^ k + 2 ^ k := by rw [Nat.pow_succ]; omega
  have hpos : 0 < 2 ^ k := Nat.two_pow_pos k
  have hin' : g.start ≤ pg ∧ pg + 2 ^ (k + 1) ≤ g.start + g.pages := hin
  have hlo : g.In ⟨k, pg⟩ := ⟨hin'.1, by dsimp only; omega⟩
  have hhi : g.In ⟨k, pg + 2 ^ k⟩ := ⟨by dsimp only; omega, by dsimp only; omega⟩
  unfold Shape.pages
  dsimp only
  by_cases hgg : g' = g
  · subst hgg
    rw [livePages_cons_in hin, livePages_cons_in hhi, livePages_cons_in hlo]
    dsimp only
    omega
  · rw [livePages_cons_out (h.not_in hg hg' hin hgg), livePages_cons_out (h.halve.not_in hg hg' hhi hgg),
      livePages_cons_out (h.halve.not_in hg hg' hlo hgg)]

end Buddy

end SyncKernel
