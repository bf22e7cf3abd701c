/-
**Allocating areas.**

`vma_alloc_area` chooses the place that `Gaps.place` chooses for the areas in order, so the new area
meets none of the others, and `vma_insert` never refuses it.  The ends of the region and of the areas
are compared after wrapping, so the search is stated for a bound `top` of which `r_end` is the
remainder.

Main definitions:

* `Vma.VmaRegion.Covers` — the addresses of an area;
* `Vma.Fresh` — the answer of `kslab_alloc` is no area of the list;
* `Vma.System`, `Vma.step` — a run of requests.

Main results:

* `Vma.vmaPlace_eq` — **the search for a place** is the one of `Gaps.place`;
* `Vma.allocAt_spec` — **inserting the new area**;
* `Vma.vmaAllocArea_wellFormed` — **well-formed regions stay well-formed**, and in every run from the
  empty tree no two areas overlap;
* `Vma.vmaAllocArea_complete` — **a request is refused** only when no gap is long enough or there is no
  structure.
-/

import SyncKernel.Lib.Run
import SyncKernel.Vma.Tree

set_option relaxedAutoImplicit false
set_option autoImplicit false

namespace SyncKernel

namespace Vma

open RbTree Store Rbtree

/-! ### The search for a place -/

section Place

variable {R : VmaRegion} {lo hi top size : ℕ} {l : List ℕ}

/-- The loop over the gaps goes on with the next area. -/
theorem gapLoop_next {t : RbTree ℕ} (hat : At R.rTree [] t) (hn : t.elems.length ≤ addrSpace)
    {l₁ l₂ : List ℕ} {n node b highest : ℕ} (hsplit : t.elems = l₁ ++ node :: b :: l₂)
    (hne : node ≠ highest) :
    gapLoop R size highest (n + 1) node =
      if Word.sub (R.vma b).vmStart (R.vma node).vmEnd ≥ size then some (some (R.vma node).vmEnd)
      else gapLoop R size highest n b := by
  have hnext : rbNext R.rTree node = some (some b) := rbNext_spec hat hsplit hn
  rw [gapLoop, if_neg hne]
  simp only [hnext, Option.bind_eq_bind, Option.bind_some]

/-- **The loop over the gaps** finds the first one with enough room. -/
theorem gapLoop_spec {t : RbTree ℕ} (hat : At R.rTree [] t) (hn : t.elems.length ≤ addrSpace)
    (h : Gaps.Ordered lo hi (t.elems.map R.span)) (hhi : hi < 2 ^ 64) {highest : ℕ}
    (hlast : t.elems.getLast? = some highest) (l₂ : List ℕ) :
    ∀ (l₁ : List ℕ) {n node : ℕ}, t.elems = l₁ ++ node :: l₂ → l₂.length < n →
      gapLoop R size highest n node = some (Gaps.firstGap size ((node :: l₂).map R.span)) := by
  induction l₂ with
  | nil =>
      intro l₁ n node hsplit hlen
      cases n with
      | zero => exact absurd hlen (Nat.not_lt_zero _)
      | succ n =>
          have hnode : node = highest := by
            rw [hsplit, List.getLast?_concat] at hlast
            exact Option.some_inj.1 hlast
          rw [gapLoop, if_pos hnode]
          rfl
  | cons b l₂ ih =>
      intro l₁ n node hsplit hlen
      cases n with
      | zero => exact absurd hlen (Nat.not_lt_zero _)
      | succ n =>
          have hne : node ≠ highest := by
            have hnd := hat.nodup
            rintro rfl
            rw [show Ctx.plug [] t = t from rfl, hsplit] at hnd
            rw [hsplit, List.getLast?_append, List.getLast?_cons_cons,
              Option.or_of_isSome (by simp)] at hlast
            exact (List.nodup_cons.1 (List.nodup_append.1 hnd).2.1).1 (List.mem_of_getLast? hlast)
          have hpair : (R.vma node).vmEnd ≤ (R.vma b).vmStart := by
            have hp := List.pairwise_map.1 h.pairwise
            rw [hsplit] at hp
            exact (List.pairwise_cons.1 (List.pairwise_append.1 hp).2.1).1 b (by simp)
          have hbhi : (R.vma b).vmEnd ≤ hi := h.le_hi (R.span b) (List.mem_map_of_mem (by simp [hsplit]))
          have hble : (R.vma b).vmStart ≤ (R.vma b).vmEnd :=
            h.le (R.span b) (List.mem_map_of_mem (by simp [hsplit]))
          rw [gapLoop_next hat hn hsplit hne]
          rw [Word.sub_of_le hpair (by omega), List.map_cons, List.map_cons, Gaps.firstGap]
          by_cases hgap : size ≤ (R.vma b).vmStart - (R.vma node).vmEnd
          · rw [if_pos hgap, if_pos (show size ≤ (R.span b).1 - (R.span node).2 from hgap)]
            rfl
          · rw [if_neg hgap, if_neg (show ¬ size ≤ (R.span b).1 - (R.span node).2 from hgap)]
            exact ih (l₁ ++ [node]) (by rw [hsplit]; simp) (by simpa using hlen)

/-- **The search for a place** is the one of `Gaps.place`. -/
theorem vmaPlace_eq (size : ℕ) (h : WellFormed R R.rStart hi l) (hend : R.rEnd = top % 2 ^ 64)
    (hlo : R.rStart ≤ hi) (hhi : hi ≤ top) (hlt : hi < 2 ^ 64) (htop : top - R.rStart < 2 ^ 64)
    (htop' : top ≤ 2 ^ 64) :
    vmaPlace R size =
      some (if top - R.rStart < size then none else Gaps.place R.rStart top size (l.map R.span)) := by
  obtain ⟨t, k, hat, -, rfl⟩ := h.holds.tree
  have hlen := h.holds.length_lt.le
  have hroot : R.rTree.root = t.top := hat.path
  have hdepth : Word.sub R.rEnd R.rStart = top - R.rStart := by
    rw [hend]
    unfold Word.sub
    omega
  rw [vmaPlace, hdepth]
  by_cases hbig : top - R.rStart < size
  · rw [if_pos hbig, if_pos hbig]
  · rw [if_neg hbig, if_neg hbig, hroot]
    cases hhead : t.elems.head? with
    | none =>
        have hnil : t.elems = [] := List.head?_eq_none_iff.1 hhead
        have htn : t.top = none := by
          cases t with
          | nil => rfl
          | node c l a r => simp at hnil
        rw [if_pos htn, hnil]
        rfl
    | some lowest =>
        cases hlast : t.elems.getLast? with
        | none =>
            have hnil : t.elems = [] := List.getLast?_eq_none_iff.1 hlast
            rw [hnil] at hhead
            cases hhead
        | some highest =>
            obtain ⟨l₂, hl₂⟩ : ∃ l₂, t.elems = lowest :: l₂ := by
              obtain ⟨l₂, hl₂⟩ := List.head?_eq_some_iff.1 hhead
              exact ⟨l₂, hl₂⟩
            have htn : t.top ≠ none := by
              cases t with
              | nil => simp at hhead
              | node c l a r => simp
            have hlowest := List.mem_of_head? hhead
            have hhighest := List.mem_of_getLast? hlast
            have h₁ := h.ordered.lo_le (R.span lowest) (List.mem_map_of_mem hlowest)
            have h₂ := h.ordered.le (R.span lowest) (List.mem_map_of_mem hlowest)
            have h₃ := h.ordered.le_hi (R.span lowest) (List.mem_map_of_mem hlowest)
            have h₄ := h.ordered.le_hi (R.span highest) (List.mem_map_of_mem hhighest)
            have h₅ := h.ordered.lo_le (R.span highest) (List.mem_map_of_mem hhighest)
            have h₆ := h.ordered.le (R.span highest) (List.mem_map_of_mem hhighest)
            dsimp only [VmaRegion.span] at h₁ h₂ h₃ h₄ h₅ h₆
            have hlow : Word.sub (R.vma lowest).vmStart R.rStart =
                (R.vma lowest).vmStart - R.rStart := Word.sub_of_le h₁ (by omega)
            have hhigh : Word.sub R.rEnd (R.vma highest).vmEnd = top - (R.vma highest).vmEnd := by
              rw [hend]
              unfold Word.sub
              omega
            have hgaps : gapLoop R size highest addrSpace lowest =
                some (Gaps.firstGap size (t.elems.map R.span)) := by
              rw [hl₂]
              exact gapLoop_spec hat hlen h.ordered hlt hlast l₂ [] hl₂ (by
                have := h.holds.length_lt
                rw [hl₂, List.length_cons] at this
                omega)
            have hplace : Gaps.place R.rStart top size (t.elems.map R.span) =
                if size ≤ (R.vma lowest).vmStart - R.rStart then some R.rStart
                else if size ≤ top - (R.vma highest).vmEnd then some (R.vma highest).vmEnd
                else Gaps.firstGap size (t.elems.map R.span) := by
              simp only [Gaps.place, List.head?_map, List.getLast?_map, hhead, hlast, Option.map_some]
              rfl
            rw [if_neg htn, rbFirst_spec hat hlen, rbLast_spec hat hlen, hhead, hlast, hplace]
            simp only [Option.bind_eq_bind, Option.bind_some, placeIn, hlow, hhigh, hgaps, ge_iff_le]
            split_ifs <;> rfl

end Place

/-! ### Inserting the new area -/

/-- The answer of `kslab_alloc` is the error pointer, or a structure that is no area of the list. -/
def Fresh (answer : Option ℕ) (l : List ℕ) : Prop := ∀ p ∈ answer, (0 < p ∧ p < 2 ^ 64) ∧ p ∉ l

instance (answer : Option ℕ) (l : List ℕ) : Decidable (Fresh answer l) :=
  inferInstanceAs (Decidable (∀ p ∈ answer, (0 < p ∧ p < 2 ^ 64) ∧ p ∉ l))

theorem Fresh.perm {answer : Option ℕ} {l l' : List ℕ} (h : Fresh answer l') (hperm : l.Perm l') :
    Fresh answer l := fun p hp => ⟨(h p hp).1, fun hm => (h p hp).2 (hperm.mem_iff.1 hm)⟩

section Insert

variable {R : VmaRegion} {lo hi : ℕ} {l : List ℕ}

theorem assign_vma_of_ne {p a : ℕ} (h : a ≠ p) (start size flags : ℕ) :
    (R.assign p start size flags).vma a = R.vma a := Function.update_of_ne h _ _

/-- Filling in a structure that is no area of the tree. -/
theorem WellFormed.assign (h : WellFormed R lo hi l) {p : ℕ} (hp : p ∉ l) (start size flags : ℕ) :
    WellFormed (R.assign p start size flags) lo hi l := by
  have hsame : ∀ a ∈ l, (R.assign p start size flags).vma a = R.vma a := fun a ha =>
    assign_vma_of_ne (ne_of_mem_of_not_mem ha hp) _ _ _
  have hspan : l.map (R.assign p start size flags).span = l.map R.span :=
    List.map_congr_left fun a ha => by rw [VmaRegion.span, VmaRegion.span, hsame a ha]
  refine ⟨⟨h.holds.tree, h.holds.ptr⟩, by rw [hspan]; exact h.ordered, fun a ha => ?_⟩
  rw [hsame a ha]
  exact h.aligned a ha

/-- **Inserting the new area** at a free place. -/
theorem allocAt_spec (h : WellFormed R lo hi l) {p start size : ℕ} (flags : ℕ) (hp : p ∉ l)
    (hptr : 0 < p ∧ p < 2 ^ 64) (hlo : lo ≤ start) (hhi : start + size ≤ hi) (hlt : hi < 2 ^ 64)
    (hstart : 4096 ∣ start) (hsize : 4096 ∣ size)
    (hfree : Gaps.Free (l.map R.span) start size) :
    ∃ R' l₁ l₂, vmaInsert (R.assign p start size flags) p = some (0, R') ∧ l = l₁ ++ l₂ ∧
      R'.rStart = R.rStart ∧ R'.rEnd = R.rEnd ∧
      R'.vma = Function.update R.vma p ⟨start, start + size, flags⟩ ∧
      WellFormed R' lo hi (l₁ ++ p :: l₂) := by
  have hadd : Word.add start size = start + size := Word.add_of_lt (by omega)
  have hvp : (R.assign p start size flags).vma p = ⟨start, start + size, flags⟩ := by
    rw [← hadd]
    exact Function.update_self _ _ _
  obtain ⟨t, l₁, l₂, hins, hl, hwf⟩ := vmaInsert_spec (h.assign hp start size flags) hp hptr
    (by rw [hvp]; exact hlo) (by rw [hvp]; exact Nat.le_add_right _ _) (by rw [hvp]; exact hhi)
    (by rw [hvp]; exact ⟨hstart, (Nat.dvd_add_right hstart).2 hsize⟩) (fun a ha => by
      rw [hvp, assign_vma_of_ne (ne_of_mem_of_not_mem ha hp)]
      exact hfree (R.span a) (List.mem_map_of_mem ha))
  refine ⟨_, l₁, l₂, hins, hl, rfl, rfl, ?_, hwf⟩
  rw [← hadd]
  rfl

/-- Rounding up gives whole pages. -/
theorem dvd_pageAlignUp {x : ℕ} (hx : x < 2 ^ 64) : 4096 ∣ pageAlignUp x := by
  by_cases hw : x + 4095 < 2 ^ 64
  · rw [pageAlignUp_eq hw]
    exact Dvd.intro_left _ rfl
  · rw [pageAlignUp_wrap hx (by omega)]
    exact Nat.dvd_zero _

/-- A place starts on a page. -/
theorem WellFormed.dvd_place (h : WellFormed R lo hi l) (hlo : 4096 ∣ lo) {start : ℕ}
    (hstart : start = lo ∨ ∃ i ∈ l.map R.span, start = i.2) : 4096 ∣ start := by
  rcases hstart with rfl | ⟨i, hi, rfl⟩
  · exact hlo
  · obtain ⟨a, ha, rfl⟩ := List.mem_map.1 hi
    exact (h.aligned a ha).2

end Insert

/-! ### The addresses of the areas -/

/-- The addresses of an area, from its start on. -/
def VmaRegion.Covers (R : VmaRegion) (a x : ℕ) : Prop :=
  x < 2 ^ 64 ∧ Word.sub x (R.vma a).vmStart < Word.sub (R.vma a).vmEnd (R.vma a).vmStart

/-- No two of the areas have an address in common. -/
def Apart (R : VmaRegion) (l : List ℕ) : Prop :=
  l.Pairwise fun a b => ∀ x, ¬ (R.Covers a x ∧ R.Covers b x)

section Covers

variable {R : VmaRegion} {lo hi : ℕ} {l : List ℕ}

theorem WellFormed.covers_iff (h : WellFormed R lo hi l) (hlt : hi < 2 ^ 64) {a x : ℕ} (ha : a ∈ l) :
    R.Covers a x ↔ (R.vma a).vmStart ≤ x ∧ x < (R.vma a).vmEnd := by
  have hle := h.ordered.le (R.span a) (List.mem_map_of_mem ha)
  have hhi := h.ordered.le_hi (R.span a) (List.mem_map_of_mem ha)
  dsimp only [VmaRegion.span] at hle hhi
  unfold VmaRegion.Covers
  rw [Word.sub_of_le hle (by omega)]
  by_cases hx : (R.vma a).vmStart ≤ x ∧ x < 2 ^ 64
  · rw [Word.sub_of_le hx.1 hx.2]
    omega
  · by_cases hx' : x < (R.vma a).vmStart
    · rw [Word.sub_of_lt hx' (by omega)]
      omega
    · omega

/-- **The areas of a well-formed region** have no address in common. -/
theorem WellFormed.apart (h : WellFormed R lo hi l) (hlt : hi < 2 ^ 64) {l' : List ℕ}
    (hperm : l.Perm l') : Apart R l' := by
  have hl : Apart R l := by
    refine List.Pairwise.imp_of_mem (fun {a b} ha hb hab x hx => ?_)
      (List.pairwise_map.1 h.ordered.pairwise)
    rw [h.covers_iff hlt ha, h.covers_iff hlt hb] at hx
    dsimp only [VmaRegion.span] at hab
    omega
  exact (hperm.pairwise_iff fun hab x hx => hab x hx.symm).1 hl

end Covers

/-! ### Runs -/

/-- A call of `vma_alloc_area`, with the answer of `kslab_alloc` in it. -/
structure Request where
  areaSize : ℕ
  flags : ℕ
  answer : Option ℕ

/-- A region, and the areas that the calls returned. -/
structure System where
  region : VmaRegion
  granted : List ℕ

/-- One call of `vma_alloc_area`. -/
def step (S : System) (r : Request) : Option System :=
  (vmaAllocArea S.region r.areaSize r.flags r.answer).map fun out =>
    ⟨out.2, out.1.toList ++ S.granted⟩

/-- A request that the code can receive: `kslab_alloc` returns no structure that is in use. -/
def Request.Valid (S : System) (r : Request) : Prop :=
  r.areaSize < 2 ^ 64 ∧ Fresh r.answer S.granted

instance (S : System) (r : Request) : Decidable (r.Valid S) :=
  inferInstanceAs (Decidable (r.areaSize < 2 ^ 64 ∧ Fresh r.answer S.granted))

/-- The bounds of a region. -/
structure Bounds (R : VmaRegion) : Prop where
  le : R.rStart ≤ R.rEnd
  lt : R.rEnd < 2 ^ 64
  aligned : 4096 ∣ R.rStart ∧ 4096 ∣ R.rEnd

/-- What a call of `vma_alloc_area` leaves: the old areas and the returned one, which `vma_insert` did
not refuse. -/
def Allocated (R : VmaRegion) (l : List ℕ) (r : Request) (result : Option ℕ) (R' : VmaRegion) : Prop :=
  R'.rStart = R.rStart ∧ R'.rEnd = R.rEnd ∧ (∀ a ∈ l, R'.vma a = R.vma a) ∧
    (∃ l₁ l₂, l = l₁ ++ l₂ ∧ WellFormed R' R.rStart R.rEnd (l₁ ++ result.toList ++ l₂)) ∧
    ∀ p ∈ result, r.answer = some p ∧ ∃ start, vmaPlace R (pageAlignUp r.areaSize) = some (some start) ∧
      vmaInsert (R.assign p start (pageAlignUp r.areaSize) r.flags) p = some (0, R') ∧
      R'.vma p = ⟨start, start + pageAlignUp r.areaSize, r.flags⟩

section Run

variable {R : VmaRegion} {l : List ℕ}

/-- **One call** on a well-formed region. -/
theorem vmaAllocArea_spec (hB : Bounds R) (h : WellFormed R R.rStart R.rEnd l) {r : Request}
    (hsize : r.areaSize < 2 ^ 64) (hfresh : Fresh r.answer l) :
    ∃ result R', vmaAllocArea R r.areaSize r.flags r.answer = some (result, R') ∧
      Allocated R l r result R' := by
  have hlt := hB.lt
  have hle := hB.le
  have hplace := vmaPlace_eq (pageAlignUp r.areaSize) h (Nat.mod_eq_of_lt hlt).symm hle
    le_rfl hlt (by omega) hlt.le
  have hkeep : Allocated R l r none R :=
    ⟨rfl, rfl, fun _ _ => rfl, ⟨l, [], by simp, by simpa using h⟩, fun p hp => by cases hp⟩
  cases hstart : (if R.rEnd - R.rStart < pageAlignUp r.areaSize then none
      else Gaps.place R.rStart R.rEnd (pageAlignUp r.areaSize) (l.map R.span)) with
  | none =>
      refine ⟨none, R, ?_, hkeep⟩
      simp only [vmaAllocArea, hplace, hstart, Option.bind_eq_bind, Option.bind_some, allocAt]
  | some start =>
      rw [hstart] at hplace
      split_ifs at hstart with hdepth
      obtain ⟨hends, hlo, hhi, hfree⟩ := Gaps.place_spec h.ordered (by omega) hstart
      cases hans : r.answer with
      | none =>
          refine ⟨none, R, ?_, hkeep⟩
          simp only [vmaAllocArea, hplace, Option.bind_eq_bind, Option.bind_some, allocAt]
      | some p =>
          obtain ⟨hptr, hp⟩ := hfresh p hans
          obtain ⟨R', l₁, l₂, hins, hl, hs, he, hvma, hwf⟩ := allocAt_spec h r.flags hp hptr hlo hhi hlt
            (h.dvd_place hB.aligned.1 hends) (dvd_pageAlignUp hsize) hfree
          refine ⟨some p, R', ?_, hs, he, fun a ha => ?_, ⟨l₁, l₂, hl, by simpa using hwf⟩, ?_⟩
          · simp only [vmaAllocArea, hplace, Option.bind_eq_bind, Option.bind_some, allocAt, hins]
          · rw [hvma, Function.update_of_ne (ne_of_mem_of_not_mem ha hp)]
          · rintro q hq
            obtain rfl := Option.some_inj.1 hq
            exact ⟨hans, start, hplace, hins, by rw [hvma, Function.update_self]⟩

/-- An empty tree. -/
theorem wellFormed_empty {lo hi : ℕ} (hroot : R.rTree.root = none) : WellFormed R lo hi [] where
  holds := ⟨⟨nil, 0, ⟨hroot, trivial, List.nodup_nil⟩, Balanced.nil, rfl⟩, fun a ha => by cases ha⟩
  ordered := Gaps.ordered_of_pairwise (by simp) (by simp) (by simp) List.Pairwise.nil
  aligned := fun a ha => by cases ha

/-- The areas that were returned are the ones in the tree. -/
def Inv (R : VmaRegion) (S : System) : Prop :=
  S.region.rStart = R.rStart ∧ S.region.rEnd = R.rEnd ∧
    ∃ l, l.Perm S.granted ∧ WellFormed S.region R.rStart R.rEnd l

/-- **One step** keeps the region well-formed. -/
theorem step_spec (hB : Bounds R) {S : System} {r : Request} (h : Inv R S) (hr : r.Valid S) :
    ∃ S', step S r = some S' ∧ Apart S'.region S'.granted ∧ Inv R S' := by
  obtain ⟨hs, he, l, hperm, hwf⟩ := h
  have hB' : Bounds S.region := ⟨by rw [hs, he]; exact hB.le, by rw [he]; exact hB.lt, by
    rw [hs, he]; exact hB.aligned⟩
  obtain ⟨result, R', halloc, hs', he', -, ⟨l₁, l₂, hl, hwf'⟩, -⟩ := vmaAllocArea_spec hB'
    (by rw [hs, he]; exact hwf) hr.1 (hr.2.perm hperm)
  rw [hs, he] at hwf'
  have hperm' : (l₁ ++ result.toList ++ l₂).Perm (result.toList ++ S.granted) := by
    rw [List.append_assoc]
    exact (List.perm_append_comm_assoc _ _ _).trans (List.Perm.append_left _ (hl ▸ hperm))
  exact ⟨⟨R', result.toList ++ S.granted⟩, by rw [step, halloc, Option.map_some],
    hwf'.apart hB.lt hperm', hs'.trans hs, he'.trans he, _, hperm', hwf'⟩

/-- **Well-formed regions stay well-formed**: a call of `vma_alloc_area` leaves the old areas and the
returned one in order, `vma_insert` does not return `-1`, and in every run from the empty tree no two
of the areas in the tree overlap. -/
theorem vmaAllocArea_wellFormed (hB : Bounds R) :
    (∀ (l : List ℕ) (r : Request), WellFormed R R.rStart R.rEnd l → r.areaSize < 2 ^ 64 →
      Fresh r.answer l → ∃ result R', vmaAllocArea R r.areaSize r.flags r.answer = some (result, R') ∧
        Allocated R l r result R') ∧
    (R.rTree.root = none → ∀ rs, Run.Along step (fun S r => r.Valid S) ⟨R, []⟩ rs →
      Run.Every step (fun _ _ S' => Apart S'.region S'.granted ∧
        ∃ l, l.Perm S'.granted ∧ WellFormed S'.region R.rStart R.rEnd l) ⟨R, []⟩ rs) := by
  constructor
  · intro l r h hsize hfresh
    exact vmaAllocArea_spec hB h hsize hfresh
  · intro hroot rs hrs
    refine Run.every_of_along (I := Inv R) (fun S r hI hr => ?_)
      ⟨rfl, rfl, [], List.Perm.refl _, wellFormed_empty hroot⟩ hrs
    obtain ⟨S', hstep, hapart, hI'⟩ := step_spec hB hI hr
    exact ⟨S', hstep, ⟨hapart, hI'.2.2⟩, hI'⟩

/-- Three requests in a region of four pages, the third of which is refused. -/
theorem vmaAllocArea_wellFormed_pages :
    let R : VmaRegion := ⟨0x1000, 0x5000, ⟨none, fun _ _ => none, fun _ => none, fun _ => Color.red⟩,
      fun _ => ⟨0, 0, 0⟩⟩
    (∃ result R', vmaAllocArea R 0x800 3 (some 0x40) = some (result, R') ∧
      Allocated R [] ⟨0x800, 3, some 0x40⟩ result R') ∧
    Run.Every step (fun _ _ S' => Apart S'.region S'.granted ∧
      ∃ l, l.Perm S'.granted ∧ WellFormed S'.region 0x1000 0x5000 l) ⟨R, []⟩
      [⟨0x800, 3, some 0x40⟩, ⟨0x2001, 3, some 0x80⟩, ⟨0x1000, 3, some 0xC0⟩] := by
  intro R
  have hspec := vmaAllocArea_wellFormed (R := R) ⟨by decide, by decide, by decide⟩
  exact ⟨hspec.1 [] ⟨0x800, 3, some 0x40⟩ (wellFormed_empty rfl) (by decide) (by decide),
    hspec.2 rfl _ (by decide +kernel)⟩

end Run

/-! ### Completeness -/

section Complete

variable {R : VmaRegion} {l : List ℕ}

/-- The gaps of a region: before the first area, between neighbours and behind the last one, or the
whole region. -/
def VmaRegion.gaps (R : VmaRegion) (l : List ℕ) : List (ℕ × ℕ) :=
  Gaps.gaps R.rStart R.rEnd (l.map R.span)

/-- The structure is filled in and inserted where a gap starts. -/
theorem allocAt_gap {lo hi p start size : ℕ} (h : WellFormed R lo hi l) (flags : ℕ) (hp : p ∉ l)
    (hptr : 0 < p ∧ p < 2 ^ 64) (hhi : start + size < 2 ^ 64)
    (hfree : Gaps.Free (l.map R.span) start size) :
    ∃ R', allocAt R size flags (some start) (some p) = some (some p, R') ∧
      R'.vma p = ⟨start, start + size, flags⟩ := by
  have hvp : (R.assign p start size flags).vma p = ⟨start, start + size, flags⟩ := by
    rw [← Word.add_of_lt hhi]
    exact Function.update_self _ _ _
  have hwf := h.assign hp start size flags
  obtain ⟨t, l₁, l₂, hins, -, -, -, -⟩ := vmaInsert_free hwf.holds hp hptr
    (fun a ha => hwf.ordered.le _ (List.mem_map_of_mem ha)) (List.pairwise_map.1 hwf.ordered.pairwise)
    (fun a ha => by
      rw [hvp, assign_vma_of_ne (ne_of_mem_of_not_mem ha hp)]
      exact hfree (R.span a) (List.mem_map_of_mem ha))
  refine ⟨{ R.assign p start size flags with rTree := t }, ?_, hvp⟩
  rw [allocAt, hins]
  rfl

/-- **`vma_alloc_area` is complete**: it returns `VMA_INVALID_PTR` exactly when there is no structure
or every gap is too short, and then the region stays as it is; otherwise the area that it returns has
the rounded size and lies in a gap. -/
theorem vmaAllocArea_complete (hle : R.rStart ≤ R.rEnd) (hlt : R.rEnd < 2 ^ 64)
    (h : WellFormed R R.rStart R.rEnd l) {r : Request} (hsize : r.areaSize + 4095 < 2 ^ 64)
    (hfresh : Fresh r.answer l) :
    ∃ result R', vmaAllocArea R r.areaSize r.flags r.answer = some (result, R') ∧
      (result = none ↔ r.answer = none ∨ ∀ g ∈ R.gaps l, g.2 - g.1 < (r.areaSize + 4095) / 4096 * 4096) ∧
      (result = none → R' = R) ∧
      ∀ p ∈ result, (R'.vma p).vmEnd = (R'.vma p).vmStart + (r.areaSize + 4095) / 4096 * 4096 ∧
        ∃ g ∈ R.gaps l, g.1 ≤ (R'.vma p).vmStart ∧ (R'.vma p).vmEnd ≤ g.2 := by
  rw [← pageAlignUp_eq hsize]
  have hplace := vmaPlace_eq (pageAlignUp r.areaSize) h (Nat.mod_eq_of_lt hlt).symm hle le_rfl hlt
    (by omega) hlt.le
  -- no gap is longer than the region
  have hlong : ∀ g ∈ R.gaps l, g.2 - g.1 ≤ R.rEnd - R.rStart := by
    intro g hg
    obtain ⟨h₁, -, h₂⟩ := Gaps.gap_between h.ordered hle hg
    omega
  by_cases hdepth : R.rEnd - R.rStart < pageAlignUp r.areaSize
  · rw [if_pos hdepth] at hplace
    refine ⟨none, R, ?_, ⟨fun _ => Or.inr fun g hg => (hlong g hg).trans_lt hdepth, fun _ => rfl⟩,
      fun _ => rfl, fun p hp => by cases hp⟩
    simp only [vmaAllocArea, hplace, Option.bind_eq_bind, Option.bind_some, allocAt]
  · rw [if_neg hdepth] at hplace
    have hfits : pageAlignUp r.areaSize ≤ R.rEnd - R.rStart := by omega
    cases hstart : Gaps.place R.rStart R.rEnd (pageAlignUp r.areaSize) (l.map R.span) with
    | none =>
        rw [hstart] at hplace
        refine ⟨none, R, ?_, ⟨fun _ => Or.inr ((Gaps.place_eq_none hfits).1 hstart), fun _ => rfl⟩,
          fun _ => rfl, fun p hp => by cases hp⟩
        simp only [vmaAllocArea, hplace, Option.bind_eq_bind, Option.bind_some, allocAt]
    | some start =>
        rw [hstart] at hplace
        obtain ⟨g, hg, rfl, hroom⟩ := Gaps.place_mem hfits hstart
        cases hans : r.answer with
        | none =>
            refine ⟨none, R, ?_, ⟨fun _ => Or.inl rfl, fun _ => rfl⟩, fun _ => rfl, fun p hp => by cases hp⟩
            simp only [vmaAllocArea, hplace, Option.bind_eq_bind, Option.bind_some, allocAt]
        | some p =>
            obtain ⟨hptr, hp⟩ := hfresh p hans
            obtain ⟨-, hlo, hhi, hfree⟩ := Gaps.place_spec h.ordered (by omega) hstart
            obtain ⟨R', hrun, hvp⟩ := allocAt_gap h r.flags hp hptr (by omega) hfree
            refine ⟨some p, R', ?_, ?_, nofun, ?_⟩
            · simp only [vmaAllocArea, hplace, Option.bind_eq_bind, Option.bind_some, hrun]
            · exact iff_of_false nofun fun hshort => hshort.elim nofun fun hshort =>
                absurd (hshort g hg) (by omega)
            · rintro q hq
              obtain rfl := Option.some_inj.1 hq
              have hend : g.1 + pageAlignUp r.areaSize ≤ g.2 := by
                have hgap := Gaps.gap_between h.ordered hle hg
                omega
              rw [hvp]
              exact ⟨rfl, g, hg, le_rfl, hend⟩

/-- Three areas in a region of eight pages, with a gap of one page and one of three. -/
def gappyPages : VmaRegion :=
  { threePages with
    rStart := 0x1000
    rEnd := 0x9000
    vma := fun a => if a = 1 then ⟨0x1000, 0x2000, 0⟩ else if a = 2 then ⟨0x3000, 0x4000, 0⟩
      else ⟨0x7000, 0x9000, 0⟩ }

theorem gappyPages_wellFormed : WellFormed gappyPages 0x1000 0x9000 threePagesTree.elems where
  holds := ⟨threePages_wellFormed.holds.tree, by decide⟩
  ordered := Gaps.ordered_of_pairwise (by decide) (by decide) (by decide) (by decide)
  aligned := by decide

/-- Two pages are put in the second gap, and four pages fit in none. -/
theorem vmaAllocArea_complete_pages :
    (∃ result R', vmaAllocArea gappyPages 0x1001 3 (some 0x40) = some (result, R') ∧ result ≠ none) ∧
      vmaAllocArea gappyPages 0x3001 3 (some 0x40) = some (none, gappyPages) := by
  obtain ⟨result, R', hrun, hnone, -⟩ := vmaAllocArea_complete (by decide) (by decide) gappyPages_wellFormed
    (r := ⟨0x1001, 3, some 0x40⟩) (by decide) (by decide)
  obtain ⟨result', R'', hrun', hnone', hkeep, -⟩ := vmaAllocArea_complete (by decide) (by decide)
    gappyPages_wellFormed (r := ⟨0x3001, 3, some 0x40⟩) (by decide) (by decide)
  refine ⟨⟨result, R', hrun, fun h => ?_⟩, ?_⟩
  · rcases hnone.1 h with h | h
    · cases h
    · exact absurd (h (0x4000, 0x7000) (by decide)) (by decide)
  · have hshort := hnone'.2 (Or.inr (by decide))
    rw [hrun', hshort, hkeep hshort]

end Complete

end Vma

end SyncKernel
