/-
**Allocating a block.**

`kbud_alloc` takes the first block of the first list that is long enough and gives the upper halves
back until the block has the order that was asked for.

Main definitions:

* `Buddy.allocPick` — the block that `kbud_alloc` takes;
* `Buddy.SplitFits` — the region has a bit for every half that is given back.

Main results:

* `Buddy.kbudPush_cases` — pushing a block in hand, whether or not the region has a bit for it;
* `Buddy.splitLoop_spec` — **the halves that are given back**;
* `Buddy.kbudAlloc_spec` — **an allocation turns free pages into a block in use**.
-/

import SyncKernel.Buddy.Blocks

set_option relaxedAutoImplicit false
set_option autoImplicit false

namespace SyncKernel

namespace Buddy

variable {st : State} {regs : List Region} {free : ℕ → ℕ → List ℕ} {live : List Blk}

/-! ### Pushing a block in hand -/

/-- A block that the region has no bit for is not pushed. -/
theorem kbudPush_refused (h : Inv st ⟨regs, free, live⟩) {g : Region} (hg : g ∈ regs) {b : Blk}
    (hin : g.In b) (hacc : ¬ g.Accepts b) :
    kbudPush st (ptr g.head) (4096 * b.pg) b.ord = some (false, st) := by
  have hs := h.header g hg
  have hlt := (hin.pg_lt (h.valid g hg)).2
  have hpfn := kbudPfnum_page hs hin.1 (by omega : b.pg < 2 ^ 35)
  have hchk : ¬ buddyBitChk (st.slaves (ptr g.head)) (b.pg - g.start) b.ord = true := fun hc =>
    hacc ((hs.chk _ _).1 hc)
  unfold kbudPush
  simp only [hpfn, hchk, Bool.false_eq_true, not_false_eq_true, if_true]

/-- **A block in hand is pushed or lost**; the region that lost it is the only one whose pages do not
stay as they are, and no other block becomes free. -/
theorem kbudPush_cases {b : Blk} (h : Inv st ⟨regs, free, b :: live⟩) {g : Region} (hg : g ∈ regs)
    (hin : g.In b) :
    ∃ a st' free', kbudPush st (ptr g.head) (4096 * b.pg) b.ord = some (a, st') ∧
      Inv st' ⟨regs, free', live⟩ ∧
      (∀ g' ∈ regs, (g' = g → g.Accepts b) →
        (⟨regs, free', live⟩ : Shape).pages g' = (⟨regs, free, b :: live⟩ : Shape).pages g') ∧
      ∀ f, (⟨regs, free', live⟩ : Shape).IsFree f →
        f = b ∨ (⟨regs, free, live⟩ : Shape).IsFree f := by
  by_cases hacc : g.Accepts b
  · obtain ⟨c, bits, mem, hrun, hinv⟩ := kbudPush_spec h hg hin hacc
    exact ⟨true, _, _, hrun, hinv, fun g' hg' _ => pages_push h hg hin hg',
      fun _ hf => isFree_push hg hf⟩
  · refine ⟨false, st, free, kbudPush_refused h hg hin hacc, h.drop, fun g' hg' hc => ?_,
      fun _ hf => Or.inr hf⟩
    have hne : g' ≠ g := fun he => hacc (hc he)
    unfold Shape.pages
    rw [livePages_cons_out (h.not_in hg hg' hin hne)]

/-! ### Splitting -/

/-- The physical buddy of the lower half of a block is the upper half. -/
theorem xor_buddy {pg k : ℕ} (h : 2 ^ (k + 1) ∣ pg) :
    4096 * pg ^^^ pageSize * 2 ^ k = 4096 * (pg + 2 ^ k) := by
  have hpow : pageSize * 2 ^ k = 2 ^ (12 + k) := by
    rw [show pageSize = 2 ^ 12 from rfl, ← Nat.pow_add]
  have hdvd : 2 ^ (12 + k + 1) ∣ 4096 * pg := by
    rw [Nat.add_assoc, Nat.pow_add]
    exact Nat.mul_dvd_mul_left _ h
  rw [hpow, Word.xor_two_pow, Word.testBit_of_dvd hdvd, if_neg (by simp), Nat.mul_add, Nat.pow_add]

/-- **The halves that are given back**: a block in hand shrinks to its first pages. -/
theorem splitLoop_spec {g : Region} {pg : ℕ} (req : ℕ) :
    ∀ (n : ℕ) {st : State} {free : ℕ → ℕ → List ℕ}, Inv st ⟨regs, free, ⟨req + n, pg⟩ :: live⟩ →
      g ∈ regs → g.In ⟨req + n, pg⟩ →
      ∃ st' free', splitLoop (ptr g.head) (ptr pg) req n st = some st' ∧
        Inv st' ⟨regs, free', ⟨req, pg⟩ :: live⟩ ∧
        ∀ g' ∈ regs, (g' = g → ∀ j < n, g.Accepts ⟨req + j, pg + 2 ^ (req + j)⟩) →
          (⟨regs, free', ⟨req, pg⟩ :: live⟩ : Shape).pages g' =
            (⟨regs, free, ⟨req + n, pg⟩ :: live⟩ : Shape).pages g' := by
  intro n
  induction n with
  | zero => intro st free h _ _; exact ⟨st, free, rfl, h, fun _ _ _ => rfl⟩
  | succ n ih =>
      intro st free h hg hin
      obtain ⟨-, hdvd, -⟩ := h.live ⟨req + (n + 1), pg⟩ (by simp)
      have hpow : 2 ^ (req + (n + 1)) = 2 ^ (req + n) + 2 ^ (req + n) := by
        rw [← Nat.add_assoc, Nat.pow_succ]; omega
      have hpos : 0 < 2 ^ (req + n) := Nat.two_pow_pos _
      have hlt := (hin.pg_lt (h.valid g hg)).2
      have hhalve := Inv.halve (k := req + n) h
      have hin' : g.start ≤ pg ∧ pg + 2 ^ (req + (n + 1)) ≤ g.start + g.pages := hin
      have hhi : g.In ⟨req + n, pg + 2 ^ (req + n)⟩ :=
        ⟨by dsimp only; omega, by dsimp only; omega⟩
      have hlo : g.In ⟨req + n, pg⟩ := ⟨hin'.1, by dsimp only; omega⟩
      dsimp only at hlt
      obtain ⟨a, st₁, free₁, hpush, hinv₁, hpages₁, -⟩ := kbudPush_cases hhalve hg hhi
      obtain ⟨st', free', hrun, hinv', hpages'⟩ := ih hinv₁ hg hlo
      refine ⟨st', free', ?_, hinv', fun g' hg' hacc => ?_⟩
      · rw [splitLoop, virtToPhysPm_ptr (by omega), xor_buddy (k := req + n) hdvd, hpush,
          Option.bind_eq_bind, Option.bind_some]
        exact hrun
      · rw [hpages' g' hg' fun he j hj => hacc he j (by omega),
          hpages₁ g' hg' fun he => hacc he n (by omega)]
        exact pages_halve (k := req + n) h hg'

/-! ### Choosing a block -/

/-- The block that `kbud_alloc` takes, from the index `i` of the table on: the region, the order and
the pointer. -/
def allocPick (st : State) (req : ℕ) : ℕ → ℕ → Option (ℕ × ℕ × ℕ)
  | 0, _ => none
  | n + 1, i =>
      let r := st.regions i
      let s := st.slaves r
      let order := findOrder s pframeMaxOrder req
      let blk := st.mem (Loc.free r order)
      if r = kpageErr ∨ order = pframeMaxOrder ∨ order < req ∨
          ¬ buddyBitChk s (kbudPfnum (virtToPhysPm blk) s) order then
        allocPick st req n (i + 1)
      else some (r, order, blk)

/-- The region has a bit for each half of the block that `kbud_alloc` takes. -/
def SplitFits (st : State) (req : ℕ) : Prop :=
  match allocPick st req st.regionCount 0 with
  | none => True
  | some (r, order, blk) => ∀ j < order - req, buddyBitChk (st.slaves r)
      (kbudPfnum (virtToPhysPm blk ^^^ pageSize * 2 ^ (req + j)) (st.slaves r)) (req + j) = true

instance (st : State) (req : ℕ) : Decidable (SplitFits st req) := by
  unfold SplitFits
  cases allocPick st req st.regionCount 0 with
  | none => exact isTrue trivial
  | some p => exact Nat.decidableBallLT _ _

theorem findOrder_bounds {s : SlaveBuddy} (hs : s.maxOrder ≤ 10) :
    ∀ (n req : ℕ), req ≤ 10 → req ≤ findOrder s n req ∧ findOrder s n req ≤ 10 := by
  intro n
  induction n with
  | zero => intro req hreq; exact ⟨le_rfl, hreq⟩
  | succ n ih =>
      intro req hreq
      rw [findOrder]
      by_cases hc : req < pframeMaxOrder ∧ s.orderBlkCnt req = 0 ∧ req < s.maxOrder
      · rw [if_pos hc]
        obtain ⟨h₁, h₂⟩ := ih (req + 1) (by omega)
        exact ⟨by omega, h₂⟩
      · rw [if_neg hc]
        exact ⟨le_rfl, hreq⟩

/-- The regions of the table. -/
theorem Inv.region {sh : Shape} (h : Inv st sh) {i : ℕ} (hi : i < st.regionCount) :
    ∃ g ∈ sh.regs, st.regions i = ptr g.head := by
  have hmem : st.regions i ∈ (List.range st.regionCount).map st.regions :=
    List.mem_map.2 ⟨i, List.mem_range.2 hi, rfl⟩
  rw [h.table] at hmem
  obtain ⟨g, hg, he⟩ := List.mem_map.1 hmem
  exact ⟨g, hg, he.symm⟩

/-- The turn of the loop that finds a block. -/
theorem allocLoop_take {req n i r addr : ℕ} {st₁ st₂ : State} (hr : st.regions i = r)
    (hne : r ≠ kpageErr)
    (hord : ¬ (findOrder (st.slaves r) pframeMaxOrder req = pframeMaxOrder ∨
      findOrder (st.slaves r) pframeMaxOrder req < req))
    (hpop : kbudPopHead st r (findOrder (st.slaves r) pframeMaxOrder req) = some (addr, st₁))
    (haddr : addr ≠ kpageErr)
    (hsplit : splitLoop r addr req (findOrder (st.slaves r) pframeMaxOrder req - req) st₁ =
      some st₂) : allocLoop req (n + 1) i st = some (addr, st₂) := by
  simp only [allocLoop, hr, hne, if_false, hord, hpop, Option.bind_eq_bind, Option.bind_some,
    haddr, hsplit]

/-- **What `kbud_alloc` does**: without a block to take it fails and changes nothing; with one, the
first pages of that block are in use afterwards. -/
theorem allocLoop_spec (h : Inv st ⟨regs, free, live⟩) {req : ℕ} (hreq : req ≤ 10) :
    ∀ (n i : ℕ), i + n = st.regionCount →
      (allocPick st req n i = none ∧ allocLoop req n i st = some (kpageErr, st)) ∨
      ∃ g pg order st' free', g ∈ regs ∧ allocPick st req n i = some (ptr g.head, order, ptr pg) ∧
        allocLoop req n i st = some (ptr pg, st') ∧ g.In ⟨req, pg⟩ ∧ g.Accepts ⟨order, pg⟩ ∧
        req ≤ order ∧ 2 ^ order ∣ pg ∧
        Inv st' ⟨regs, free', ⟨req, pg⟩ :: live⟩ ∧
        ∀ g' ∈ regs, (g' = g → ∀ j < order - req, g.Accepts ⟨req + j, pg + 2 ^ (req + j)⟩) →
          (⟨regs, free', ⟨req, pg⟩ :: live⟩ : Shape).pages g' =
            (⟨regs, free, live⟩ : Shape).pages g' := by
  intro n
  induction n with
  | zero => intro i _; exact Or.inl ⟨rfl, rfl⟩
  | succ n ih =>
      intro i hi
      obtain ⟨g, hg, hr⟩ := h.region (i := i) (by omega)
      have hs := h.header g hg
      obtain ⟨hge, hle⟩ := findOrder_bounds hs.maxOrder_le pframeMaxOrder req hreq
      have hne : ¬ (findOrder (st.slaves (ptr g.head)) pframeMaxOrder req = pframeMaxOrder ∨
          findOrder (st.slaves (ptr g.head)) pframeMaxOrder req < req) := by
        unfold pframeMaxOrder at hge hle ⊢
        omega
      set order := findOrder (st.slaves (ptr g.head)) pframeMaxOrder req with horder
      have hrest := ih (i + 1) (by omega)
      cases hlist : free g.head order with
      | nil =>
          -- the region has no block, and the head of its list is refused
          have hchk := h.head_refused hg hle hlist
          have hp : allocPick st req (n + 1) i = allocPick st req n (i + 1) := by
            simp only [allocPick, hr, ← horder, hchk, Bool.false_eq_true, not_false_eq_true,
              or_true, if_true]
          have ha : allocLoop req (n + 1) i st = allocLoop req n (i + 1) st := by
            simp only [allocLoop, hr, ptr_ne_kpageErr, if_false, ← horder, hne, kbudPopHead, hchk,
              Bool.false_eq_true, not_false_eq_true, Option.bind_eq_bind, Option.bind_some, if_true]
          rw [hp, ha]
          exact hrest
      | cons pg l =>
          obtain ⟨c, bits, mem, hpop, hinv⟩ := kbudPopHead_spec h hg hle hlist
          have hmem : pg ∈ free g.head order := by simp [hlist]
          obtain ⟨hpfn, -, hphys, hchk, -, -⟩ := h.block_facts hg hle hmem
          have hl : ListOk st g order (free g.head order) := h.list g hg order hle
          have hin := hl.mem_in pg hmem
          have hlt := (hin.pg_lt (h.valid g hg)).2
          have hhead : st.mem (Loc.free (ptr g.head) order) = ptr pg := by
            have hchain := hl.chain
            rw [hlist] at hchain
            exact hchain.1
          have hsum : req + (order - req) = order := by omega
          rw [← hsum] at hin
          obtain ⟨st', free', hrun, hinv', hpages⟩ := splitLoop_spec req (order - req)
            (by rw [hsum]; exact hinv) hg hin
          refine Or.inr ⟨g, pg, order, st', free', hg, ?_, ?_, ?_, hl.accepts pg hmem, hge,
            hl.dvd pg hmem, hinv', ?_⟩
          · rw [allocPick, hr]
            simp only [← horder, hhead, hphys, hpfn, hchk, ptr_ne_kpageErr, false_or,
              not_true_eq_false, or_false, if_neg hne]
          · exact allocLoop_take hr (ptr_ne_kpageErr _) hne hpop (ptr_ne_kpageErr _) hrun
          · obtain ⟨h₁, h₂⟩ := hin
            have hmono : 2 ^ req ≤ 2 ^ (req + (order - req)) :=
              Nat.pow_le_pow_right (by decide) (Nat.le_add_right _ _)
            exact ⟨h₁, by dsimp only at h₂ ⊢; omega⟩
          · intro g' hg' hacc
            rw [hpages g' hg' hacc, hsum]
            exact pages_unlink h hg hle [] hlist hg'

/-- **An allocation turns free pages into a block in use**, or fails and changes nothing. -/
theorem kbudAlloc_spec (h : Inv st ⟨regs, free, live⟩) (req : ℕ) :
    kbudAlloc st req = some (kpageErr, st) ∨
      ∃ g pg st' free', kbudAlloc st req = some (ptr pg, st') ∧ g ∈ regs ∧ g.Accepts ⟨req, pg⟩ ∧
        g.In ⟨req, pg⟩ ∧ Inv st' ⟨regs, free', ⟨req, pg⟩ :: live⟩ ∧
        (SplitFits st req → ∀ g' ∈ regs,
          (⟨regs, free', ⟨req, pg⟩ :: live⟩ : Shape).pages g' =
            (⟨regs, free, live⟩ : Shape).pages g') := by
  by_cases hreq : req ≥ pframeMaxOrder
  · exact Or.inl (if_pos hreq)
  have hrun : kbudAlloc st req = allocLoop req st.regionCount 0 st := if_neg hreq
  unfold pframeMaxOrder at hreq
  rw [hrun]
  rcases allocLoop_spec h (by omega : req ≤ 10) st.regionCount 0 (Nat.zero_add _) with
    ⟨-, hnone⟩ | ⟨g, pg, order, st', free', hg, hpick, hloop, hin, hacc, hle, hdvd, hinv, hpages⟩
  · exact Or.inl hnone
  refine Or.inr ⟨g, pg, st', free', hloop, hg, hacc.of_le hle, hin, hinv, fun hfits g' hg' =>
    hpages g' hg' fun _ j hj => ?_⟩
  -- the code looks at the buddy by its physical address
  have hlt := (hin.pg_lt (h.valid g hg)).2
  dsimp only at hlt
  rw [SplitFits, hpick] at hfits
  have hbit := hfits j hj
  have hdvd' : 2 ^ (req + j + 1) ∣ pg := Nat.dvd_trans (Nat.pow_dvd_pow 2 (by omega)) hdvd
  have hs := h.header g hg
  have hord : order ≤ 10 := hacc.1
  have hpow : 2 ^ (req + j) ≤ 2 ^ 10 := Nat.pow_le_pow_right (by decide) (by omega)
  have hstart : g.start ≤ pg := hin.1
  rw [virtToPhysPm_ptr (by omega), xor_buddy hdvd', kbudPfnum_page hs (by omega) (by omega)] at hbit
  exact (hs.chk _ _).1 hbit

end Buddy

end SyncKernel
