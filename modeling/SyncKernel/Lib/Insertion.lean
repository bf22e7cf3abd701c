/-
**Insertion into an array that is in order.**

An array is a function of the index.  The inner loop of an insertion sort moves the elements at the end
with a larger key up by one place, and puts the new element in the place that becomes free.

Main definitions:

* `Insertion.sink` — the inner loop;
* `Insertion.sort` — the sort of the first elements.

Main results:

* `Insertion.sink_spec` — where the new element stands;
* `Insertion.pairwise_sink` — the elements stay in order;
* `Insertion.sort_spec` — **the sort** keeps the elements and puts them in order;
* `Insertion.sort_stable` — elements with one key keep their order.
-/

import Mathlib.Data.List.Range
import Mathlib.Order.Lattice

set_option relaxedAutoImplicit false
set_option autoImplicit false

namespace SyncKernel

namespace Insertion

variable {α β : Type*} [LinearOrder β] (key : α → β)

/-- The element `x` goes to the first `n` elements of the array. -/
def sink (x : α) : ℕ → (ℕ → α) → ℕ → α
  | 0, f => Function.update f 0 x
  | n + 1, f =>
      if key x < key (f n) then sink x n (Function.update f (n + 1) (f n))
      else Function.update f (n + 1) x

/-- The insertion sort of the first `n` elements. -/
def sort (n : ℕ) (f : ℕ → α) : ℕ → α :=
  (List.range' 1 (n - 1)).foldl (fun f i => sink key (f i) i f) f

variable {key}

theorem sink_of_lt (x : α) (n : ℕ) (f : ℕ → α) {j : ℕ} (hj : n < j) : sink key x n f j = f j := by
  induction n generalizing f with
  | zero => exact Function.update_of_ne (by omega) _ _
  | succ n ih =>
      rw [sink]
      by_cases hlt : key x < key (f n)
      · rw [if_pos hlt, ih _ (by omega), Function.update_of_ne (by omega)]
      · rw [if_neg hlt, Function.update_of_ne (by omega)]

/-- An element behind the first ones does not change them. -/
theorem map_range_update (f : ℕ → α) {n j : ℕ} (x : α) (h : n ≤ j) :
    (List.range n).map (Function.update f j x) = (List.range n).map f :=
  List.map_congr_left fun _ hi => Function.update_of_ne
    (Nat.ne_of_lt (Nat.lt_of_lt_of_le (List.mem_range.1 hi) h)) _ _

variable (key) in
/-- **The new element** stands before the elements at the end that are larger, and behind one that is
not. -/
theorem sink_spec (x : α) (n : ℕ) (f : ℕ → α) :
    ∃ l₁ l₂, (List.range n).map f = l₁ ++ l₂ ∧ (∀ y ∈ l₂, key x < key y) ∧
      (l₁ = [] ∨ ∃ l y, l₁ = l ++ [y] ∧ key y ≤ key x) ∧
      (List.range (n + 1)).map (sink key x n f) = l₁ ++ x :: l₂ := by
  induction n generalizing f with
  | zero => exact ⟨[], [], rfl, by simp, Or.inl rfl, by simp [sink]⟩
  | succ n ih =>
      rw [sink]
      by_cases hlt : key x < key (f n)
      · rw [if_pos hlt]
        obtain ⟨l₁, l₂, hl, hbig, hsmall, hins⟩ := ih (Function.update f (n + 1) (f n))
        rw [map_range_update f (f n) (Nat.le_succ n)] at hl
        refine ⟨l₁, l₂ ++ [f n], ?_, ?_, hsmall, ?_⟩
        · rw [List.range_succ, List.map_append, hl, List.append_assoc]
          rfl
        · intro y hy
          rcases List.mem_append.1 hy with hy | hy
          · exact hbig y hy
          · rw [List.mem_singleton.1 hy]
            exact hlt
        · rw [List.range_succ, List.map_append, hins]
          simp [sink_of_lt x n _ (Nat.lt_succ_self n)]
      · rw [if_neg hlt]
        refine ⟨(List.range (n + 1)).map f, [], by simp, by simp, Or.inr ⟨(List.range n).map f, f n, ?_,
          not_lt.1 hlt⟩, ?_⟩
        · rw [List.range_succ, List.map_append]
          rfl
        · rw [List.range_succ, List.map_append, List.map_singleton, Function.update_self,
            map_range_update f x le_rfl]

/-- The elements are the old ones and the new one. -/
theorem perm_sink (x : α) (n : ℕ) (f : ℕ → α) :
    ((List.range (n + 1)).map (sink key x n f)).Perm (x :: (List.range n).map f) := by
  obtain ⟨l₁, l₂, hl, -, -, hins⟩ := sink_spec key x n f
  rw [hins, hl]
  exact List.perm_middle

/-- **The elements stay in order.** -/
theorem pairwise_sink {x : α} {n : ℕ} {f : ℕ → α}
    (h : ((List.range n).map f).Pairwise fun a b => key a ≤ key b) :
    ((List.range (n + 1)).map (sink key x n f)).Pairwise fun a b => key a ≤ key b := by
  obtain ⟨l₁, l₂, hl, hbig, hsmall, hins⟩ := sink_spec key x n f
  rw [hl] at h
  obtain ⟨h₁, h₂, hcross⟩ := List.pairwise_append.1 h
  have hbelow : ∀ y ∈ l₁, key y ≤ key x := by
    intro y hy
    rcases hsmall with rfl | ⟨l, z, rfl, hz⟩
    · exact absurd hy List.not_mem_nil
    · rcases List.mem_append.1 hy with hy | hy
      · exact ((List.pairwise_append.1 h₁).2.2 y hy z (by simp)).trans hz
      · rw [List.mem_singleton.1 hy]
        exact hz
  rw [hins]
  refine List.pairwise_append.2 ⟨h₁, List.pairwise_cons.2 ⟨fun y hy => (hbig y hy).le, h₂⟩,
    fun y hy z hz => ?_⟩
  rcases List.mem_cons.1 hz with rfl | hz
  · exact hbelow y hy
  · exact hcross y hy z hz

/-- What the loop of the sort has done, once the first `n + 1` elements are in order. -/
theorem sort_succ (n : ℕ) (f : ℕ → α) : sort key (n + 2) f =
    sink key (sort key (n + 1) f (n + 1)) (n + 1) (sort key (n + 1) f) := by
  have hrange : List.range' 1 (n + 2 - 1) = List.range' 1 (n + 1 - 1) ++ [n + 1] := by
    rw [show n + 2 - 1 = n + 1 from rfl, List.range'_concat, Nat.one_mul, Nat.add_comm 1 n]
    rfl
  rw [sort, hrange, List.foldl_append, ← sort]
  rfl

variable (key) in
/-- **The sort** keeps the elements, puts them in order, and leaves what is behind them. -/
theorem sort_spec (n : ℕ) (f : ℕ → α) :
    ((List.range n).map (sort key n f)).Perm ((List.range n).map f) ∧
      ((List.range n).map (sort key n f)).Pairwise (fun a b => key a ≤ key b) ∧
      ∀ j, n ≤ j → sort key n f j = f j := by
  induction n with
  | zero => exact ⟨List.Perm.refl _, List.Pairwise.nil, fun _ _ => rfl⟩
  | succ n ih =>
      cases n with
      | zero => exact ⟨List.Perm.refl _, List.pairwise_singleton _ _, fun _ _ => rfl⟩
      | succ n =>
          obtain ⟨hperm, hsorted, hrest⟩ := ih
          rw [sort_succ]
          refine ⟨?_, pairwise_sink hsorted, fun j hj => ?_⟩
          · have hlast : (List.range (n + 2)).map f = (List.range (n + 1)).map f ++ [f (n + 1)] := by
              rw [List.range_succ, List.map_append, List.map_singleton]
            refine (perm_sink _ _ _).trans ?_
            rw [hrest (n + 1) le_rfl, hlast]
            exact (hperm.cons _).trans (List.perm_append_singleton _ _).symm
          · rw [sink_of_lt _ _ _ (by omega), hrest j (by omega)]

/-- **The new element** comes behind those with its key. -/
theorem filter_sink (x : α) (n : ℕ) (f : ℕ → α) (b : β) :
    ((List.range (n + 1)).map (sink key x n f)).filter (fun y => key y = b) =
      ((List.range n).map f ++ [x]).filter fun y => key y = b := by
  obtain ⟨l₁, l₂, hl, hbig, -, hins⟩ := sink_spec key x n f
  rw [hins, hl, List.append_assoc, List.filter_append, List.filter_append, List.filter_append]
  by_cases hx : key x = b
  · have hnone : l₂.filter (fun y => key y = b) = [] := by
      refine List.filter_eq_nil_iff.2 fun y hy => ?_
      rw [decide_eq_true_eq, ← hx]
      exact (hbig y hy).ne'
    simp [hx, hnone]
  · simp [hx]

variable (key) in
/-- **The sort is stable**: the elements with one key are in their old order. -/
theorem sort_stable (n : ℕ) (f : ℕ → α) (b : β) :
    ((List.range n).map (sort key n f)).filter (fun y => key y = b) =
      ((List.range n).map f).filter fun y => key y = b := by
  induction n with
  | zero => rfl
  | succ n ih =>
      cases n with
      | zero => rfl
      | succ n =>
          have hlast : (List.range (n + 2)).map f = (List.range (n + 1)).map f ++ [f (n + 1)] := by
            rw [List.range_succ, List.map_append, List.map_singleton]
          rw [sort_succ, filter_sink, List.filter_append, ih, (sort_spec key (n + 1) f).2.2 (n + 1) le_rfl,
            hlast, List.filter_append]

end Insertion

end SyncKernel
