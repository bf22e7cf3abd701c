/-
**Free places between intervals.**

A list of intervals of numbers, each with a start and an end, in order between two bounds.  A place
for a new interval is looked for before the first one, behind the last one, and then between
neighbours.

Main definitions:

* `Gaps.Ordered` — the intervals are in order and inside the bounds;
* `Gaps.firstGap`, `Gaps.place` — the search for a place;
* `Gaps.Free` — an interval that meets none of the list;
* `Gaps.gaps` — all gaps between the bounds.

Main results:

* `Gaps.Ordered.pairwise` — intervals in order are pairwise in order;
* `Gaps.place_spec` — **the place that is found is free**;
* `Gaps.place_eq_none` — **no place is found** exactly when every gap is too short.
-/

import Mathlib.Data.List.Chain

set_option relaxedAutoImplicit false
set_option autoImplicit false

namespace SyncKernel

namespace Gaps

/-- The intervals lie between the bounds, and each one ends before the next one starts. -/
structure Ordered (lo hi : ℕ) (l : List (ℕ × ℕ)) : Prop where
  lo_le : ∀ i ∈ l, lo ≤ i.1
  le : ∀ i ∈ l, i.1 ≤ i.2
  le_hi : ∀ i ∈ l, i.2 ≤ hi
  chain : l.IsChain fun i j => i.2 ≤ j.1

/-- The interval of `size` numbers at `b` meets no interval of the list. -/
def Free (l : List (ℕ × ℕ)) (b size : ℕ) : Prop := ∀ i ∈ l, b + size ≤ i.1 ∨ i.2 ≤ b

/-- The end of the first interval with enough room before the next one. -/
def firstGap (size : ℕ) : List (ℕ × ℕ) → Option ℕ
  | [] => none
  | i :: l =>
      match l with
      | [] => none
      | j :: _ => if size ≤ j.1 - i.2 then some i.2 else firstGap size l

/-- A place for `size` numbers between the bounds. -/
def place (lo hi size : ℕ) (l : List (ℕ × ℕ)) : Option ℕ :=
  match l.head?, l.getLast? with
  | some i, some j =>
      if size ≤ i.1 - lo then some lo
      else if size ≤ hi - j.2 then some j.2
      else firstGap size l
  | _, _ => some lo

variable {lo hi size : ℕ} {l : List (ℕ × ℕ)}

theorem Ordered.tail {i : ℕ × ℕ} (h : Ordered lo hi (i :: l)) : Ordered lo hi l :=
  ⟨fun j hj => h.lo_le j (List.mem_cons_of_mem _ hj), fun j hj => h.le j (List.mem_cons_of_mem _ hj),
    fun j hj => h.le_hi j (List.mem_cons_of_mem _ hj), h.chain.tail⟩

/-- The upper bound may be raised. -/
theorem Ordered.mono {hi' : ℕ} (h : Ordered lo hi l) (hle : hi ≤ hi') : Ordered lo hi' l :=
  ⟨h.lo_le, h.le, fun i hi => (h.le_hi i hi).trans hle, h.chain⟩

/-- **Intervals in order** are pairwise in order. -/
theorem Ordered.pairwise (h : Ordered lo hi l) : l.Pairwise fun i j => i.2 ≤ j.1 := by
  induction l with
  | nil => exact List.Pairwise.nil
  | cons i l ih =>
      have hl := ih h.tail
      refine List.pairwise_cons.2 ⟨fun k hk => ?_, hl⟩
      cases l with
      | nil => exact absurd hk List.not_mem_nil
      | cons j l =>
          have hij : i.2 ≤ j.1 := (List.isChain_cons_cons.1 h.chain).1
          rcases List.mem_cons.1 hk with rfl | hk
          · exact hij
          · exact (hij.trans (h.le j (by simp))).trans ((List.pairwise_cons.1 hl).1 k hk)

/-- Pairwise order is order. -/
theorem ordered_of_pairwise (hlo : ∀ i ∈ l, lo ≤ i.1) (hle : ∀ i ∈ l, i.1 ≤ i.2)
    (hhi : ∀ i ∈ l, i.2 ≤ hi) (h : l.Pairwise fun i j => i.2 ≤ j.1) : Ordered lo hi l :=
  ⟨hlo, hle, hhi, h.isChain⟩

/-- The intervals before the last one end before its end. -/
theorem Ordered.le_last (h : Ordered lo hi l) {j : ℕ × ℕ} (hj : l.getLast? = some j) :
    ∀ i ∈ l, i.2 ≤ j.2 := by
  intro i hi
  obtain ⟨l', rfl⟩ : ∃ l', l = l' ++ [j] := by
    obtain ⟨l', rfl⟩ := List.getLast?_eq_some_iff.1 hj
    exact ⟨l', rfl⟩
  rcases List.mem_append.1 hi with hi | hi
  · have hij := (List.pairwise_append.1 h.pairwise).2.2 i hi j (by simp)
    exact hij.trans (h.le j (by simp))
  · rw [List.mem_singleton.1 hi]

/-- The intervals behind the first one start behind its start. -/
theorem Ordered.head_le (h : Ordered lo hi l) {i : ℕ × ℕ} (hi : l.head? = some i) :
    ∀ j ∈ l, i.1 ≤ j.1 := by
  intro j hj
  cases l with
  | nil => exact absurd hj List.not_mem_nil
  | cons k l =>
      obtain rfl := Option.some_inj.1 hi
      rcases List.mem_cons.1 hj with rfl | hj
      · exact le_rfl
      · exact (h.le k (by simp)).trans ((List.pairwise_cons.1 h.pairwise).1 j hj)

/-- A gap between neighbours is free. -/
theorem firstGap_spec (h : Ordered lo hi l) {b : ℕ} (hb : firstGap size l = some b) :
    (∃ i ∈ l, b = i.2) ∧ b + size ≤ hi ∧ Free l b size := by
  induction l with
  | nil => cases hb
  | cons i l ih =>
      cases l with
      | nil => cases hb
      | cons j l =>
          have hpair := List.pairwise_cons.1 h.pairwise
          have hij := hpair.1 j (by simp)
          rw [firstGap] at hb
          by_cases hgap : size ≤ j.1 - i.2
          · rw [if_pos hgap] at hb
            obtain rfl := Option.some_inj.1 hb
            have hj := h.le j (by simp)
            have hj' := h.le_hi j (by simp)
            refine ⟨⟨i, by simp, rfl⟩, by omega, fun k hk => ?_⟩
            rcases List.mem_cons.1 hk with rfl | hk
            · exact Or.inr le_rfl
            · have hjk := h.tail.head_le rfl k hk
              exact Or.inl (by omega)
          · rw [if_neg hgap] at hb
            obtain ⟨⟨k, hk, rfl⟩, hend, hfree⟩ := ih h.tail hb
            refine ⟨⟨k, List.mem_cons_of_mem _ hk, rfl⟩, hend, fun m hm => ?_⟩
            rcases List.mem_cons.1 hm with rfl | hm
            · exact Or.inr ((hpair.1 k hk).trans (h.le k (List.mem_cons_of_mem _ hk)))
            · exact hfree m hm

/-- **The place that is found is free**, between the bounds, and starts at the lower bound or at the
end of an interval. -/
theorem place_spec (h : Ordered lo hi l) (hsize : lo + size ≤ hi) {b : ℕ}
    (hb : place lo hi size l = some b) :
    (b = lo ∨ ∃ i ∈ l, b = i.2) ∧ lo ≤ b ∧ b + size ≤ hi ∧ Free l b size := by
  cases hhead : l.head? with
  | none =>
      have hnil : l = [] := List.head?_eq_none_iff.1 hhead
      subst hnil
      obtain rfl : lo = b := Option.some_inj.1 hb
      exact ⟨Or.inl rfl, le_rfl, hsize, fun i hi => absurd hi List.not_mem_nil⟩
  | some i =>
      cases hlast : l.getLast? with
      | none =>
          have hnil : l = [] := List.getLast?_eq_none_iff.1 hlast
          subst hnil
          cases hhead
      | some j =>
          have hfirst := List.mem_of_head? hhead
          have hj := List.mem_of_getLast? hlast
          have hiLo := h.lo_le i hfirst
          have hjLo := (h.lo_le j hj).trans (h.le j hj)
          have hjHi := h.le_hi j hj
          simp only [place, hhead, hlast] at hb
          by_cases hlow : size ≤ i.1 - lo
          · rw [if_pos hlow] at hb
            obtain rfl := Option.some_inj.1 hb
            refine ⟨Or.inl rfl, le_rfl, hsize, fun k hk => Or.inl ?_⟩
            have hik := h.head_le hhead k hk
            omega
          · rw [if_neg hlow] at hb
            by_cases hhigh : size ≤ hi - j.2
            · rw [if_pos hhigh] at hb
              obtain rfl := Option.some_inj.1 hb
              exact ⟨Or.inr ⟨j, hj, rfl⟩, hjLo, by omega, fun k hk => Or.inr (h.le_last hlast k hk)⟩
            · rw [if_neg hhigh] at hb
              obtain ⟨⟨k, hk, rfl⟩, hend, hfree⟩ := firstGap_spec h hb
              exact ⟨Or.inr ⟨k, hk, rfl⟩, (h.lo_le k hk).trans (h.le k hk), hend, hfree⟩

/-- There is a place when there is room behind the last interval. -/
theorem place_ne_none (h : ∀ i ∈ l, size ≤ hi - i.2) : place lo hi size l ≠ none := by
  cases hhead : l.head? with
  | none => simp [place, hhead]
  | some i =>
      cases hlast : l.getLast? with
      | none => simp [place, hhead, hlast]
      | some j =>
          have hj := h j (List.mem_of_getLast? hlast)
          simp only [place, hhead, hlast, if_pos hj]
          split_ifs <;> simp

/-! ### All gaps -/

/-- The gaps between neighbours. -/
def between : List (ℕ × ℕ) → List (ℕ × ℕ)
  | [] => []
  | i :: l =>
      match l with
      | [] => []
      | j :: _ => (i.2, j.1) :: between l

/-- The gaps of the list between the bounds: before the first interval, between neighbours and behind
the last one, or everything. -/
def gaps (lo hi : ℕ) (l : List (ℕ × ℕ)) : List (ℕ × ℕ) :=
  match l.head?, l.getLast? with
  | some i, some j => (lo, i.1) :: (between l ++ [(j.2, hi)])
  | _, _ => [(lo, hi)]

theorem firstGap_eq_none {l : List (ℕ × ℕ)} :
    firstGap size l = none ↔ ∀ g ∈ between l, g.2 - g.1 < size := by
  induction l with
  | nil => exact ⟨fun _ g hg => absurd hg List.not_mem_nil, fun _ => rfl⟩
  | cons i l ih =>
      cases l with
      | nil => exact ⟨fun _ g hg => absurd hg List.not_mem_nil, fun _ => rfl⟩
      | cons j l =>
          rw [firstGap, between, List.forall_mem_cons, ← ih]
          by_cases hgap : size ≤ j.1 - i.2
          · rw [if_pos hgap]
            exact iff_of_false nofun fun h => absurd h.1 (by omega)
          · rw [if_neg hgap]
            exact (and_iff_right (by omega)).symm

theorem firstGap_mem {l : List (ℕ × ℕ)} {b : ℕ} (hb : firstGap size l = some b) :
    ∃ g ∈ between l, b = g.1 ∧ size ≤ g.2 - g.1 := by
  induction l with
  | nil => cases hb
  | cons i l ih =>
      cases l with
      | nil => cases hb
      | cons j l =>
          rw [firstGap] at hb
          rw [between]
          by_cases hgap : size ≤ j.1 - i.2
          · rw [if_pos hgap] at hb
            exact ⟨_, List.mem_cons_self, (Option.some_inj.1 hb).symm, hgap⟩
          · rw [if_neg hgap] at hb
            obtain ⟨g, hg, heq, hsize⟩ := ih hb
            exact ⟨g, List.mem_cons_of_mem _ hg, heq, hsize⟩

/-- **No place is found** exactly when every gap is too short. -/
theorem place_eq_none (hfits : size ≤ hi - lo) :
    place lo hi size l = none ↔ ∀ g ∈ gaps lo hi l, g.2 - g.1 < size := by
  cases hhead : l.head? with
  | none =>
      simp only [place, gaps, hhead]
      exact iff_of_false nofun fun h => absurd (h _ (List.mem_singleton_self _)) (by omega)
  | some i =>
      cases hlast : l.getLast? with
      | none =>
          simp only [place, gaps, hhead, hlast]
          exact iff_of_false nofun fun h => absurd (h _ (List.mem_singleton_self _)) (by omega)
      | some j =>
          simp only [place, gaps, hhead, hlast, List.forall_mem_cons, List.forall_mem_append]
          by_cases hlow : size ≤ i.1 - lo
          · rw [if_pos hlow]
            exact iff_of_false nofun fun h => absurd h.1 (by omega)
          · rw [if_neg hlow]
            by_cases hhigh : size ≤ hi - j.2
            · rw [if_pos hhigh]
              exact iff_of_false nofun fun h => absurd h.2.2 (by omega)
            · rw [if_neg hhigh, firstGap_eq_none]
              exact ⟨fun h => ⟨by omega, h, by omega, fun _ hg => absurd hg List.not_mem_nil⟩,
                fun h => h.2.1⟩

/-- **The place that is found** is the start of a gap with enough room. -/
theorem place_mem (hfits : size ≤ hi - lo) {b : ℕ} (hb : place lo hi size l = some b) :
    ∃ g ∈ gaps lo hi l, b = g.1 ∧ size ≤ g.2 - g.1 := by
  cases hhead : l.head? with
  | none =>
      simp only [place, gaps, hhead] at hb ⊢
      exact ⟨_, List.mem_singleton_self _, (Option.some_inj.1 hb).symm, hfits⟩
  | some i =>
      cases hlast : l.getLast? with
      | none =>
          simp only [place, gaps, hhead, hlast] at hb ⊢
          exact ⟨_, List.mem_singleton_self _, (Option.some_inj.1 hb).symm, hfits⟩
      | some j =>
          simp only [place, gaps, hhead, hlast] at hb ⊢
          by_cases hlow : size ≤ i.1 - lo
          · rw [if_pos hlow] at hb
            exact ⟨_, List.mem_cons_self, (Option.some_inj.1 hb).symm, hlow⟩
          · rw [if_neg hlow] at hb
            by_cases hhigh : size ≤ hi - j.2
            · rw [if_pos hhigh] at hb
              exact ⟨(j.2, hi), by simp, (Option.some_inj.1 hb).symm, hhigh⟩
            · rw [if_neg hhigh] at hb
              obtain ⟨g, hg, heq, hsize⟩ := firstGap_mem hb
              exact ⟨g, List.mem_cons_of_mem _ (List.mem_append_left _ hg), heq, hsize⟩

theorem mem_between {l : List (ℕ × ℕ)} {g : ℕ × ℕ} (hg : g ∈ between l) :
    ∃ i j, [i, j].Sublist l ∧ g = (i.2, j.1) := by
  induction l with
  | nil => exact absurd hg List.not_mem_nil
  | cons i l ih =>
      cases l with
      | nil => exact absurd hg List.not_mem_nil
      | cons j l =>
          rw [between] at hg
          rcases List.mem_cons.1 hg with rfl | hg
          · exact ⟨i, j, by simp, rfl⟩
          · obtain ⟨i', j', hsub, rfl⟩ := ih hg
            exact ⟨i', j', hsub.cons i, rfl⟩

/-- A gap lies between the bounds. -/
theorem gap_between (h : Ordered lo hi l) (hle : lo ≤ hi) {g : ℕ × ℕ} (hg : g ∈ gaps lo hi l) :
    lo ≤ g.1 ∧ g.1 ≤ g.2 ∧ g.2 ≤ hi := by
  cases hhead : l.head? with
  | none =>
      simp only [gaps, hhead, List.mem_singleton] at hg
      subst hg
      exact ⟨le_rfl, hle, le_rfl⟩
  | some i =>
      cases hlast : l.getLast? with
      | none =>
          simp only [gaps, hhead, hlast, List.mem_singleton] at hg
          subst hg
          exact ⟨le_rfl, hle, le_rfl⟩
      | some j =>
          have hi := List.mem_of_head? hhead
          have hj := List.mem_of_getLast? hlast
          simp only [gaps, hhead, hlast, List.mem_cons, List.mem_append, List.not_mem_nil, or_false] at hg
          rcases hg with rfl | hg | rfl
          · exact ⟨le_rfl, h.lo_le i hi, (h.le i hi).trans (h.le_hi i hi)⟩
          · obtain ⟨a, b, hsub, rfl⟩ := mem_between hg
            have ha : a ∈ l := hsub.subset (by simp)
            have hb : b ∈ l := hsub.subset (by simp)
            have hab := (List.pairwise_cons.1 (h.pairwise.sublist hsub)).1 b (by simp)
            exact ⟨(h.lo_le a ha).trans (h.le a ha), hab, (h.le b hb).trans (h.le_hi b hb)⟩
          · exact ⟨(h.lo_le j hj).trans (h.le j hj), h.le_hi j hj, le_rfl⟩

end Gaps

end SyncKernel
