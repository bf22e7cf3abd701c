/-
**Freeing a block.**

`kbud_free` merges a block with its buddy as long as the bit of the pair says that the buddy is on
its list, and pushes what it ends with.  The pairs are pairs of frame numbers relative to the first
page of the region, while the blocks are aligned to their size as physical memory is; where the two
disagree, the merged block is no longer aligned.

Main definitions:

* `Buddy.Merges` — every merge that freeing a block brings about has a property;
* `Buddy.sameBit`, `Buddy.mergeFits` — the merged block is aligned; the region has a bit for it.

Main results:

* `Buddy.buddy_of_pair` — **a free block in the pair of a block is its buddy**;
* `Buddy.Inv.mergeTurn`, `Buddy.coalesce_spec` — **the merges**;
* `Buddy.kbudFree_spec` — **freeing a block in use**.
-/

import Mathlib.Data.Nat.ModEq
import SyncKernel.Buddy.Alloc
import SyncKernel.Buddy.Find

set_option relaxedAutoImplicit false
set_option autoImplicit false

namespace SyncKernel

namespace Buddy

variable {st : State} {regs : List Region} {free : ℕ → ℕ → List ℕ} {live : List Blk}

/-! ### Conditions on the merges -/

/-- Every merge that the loop of `kbud_free` does, from the block at `pfn` on, has the property `P`
of the frame number and the order of the block that is merged. -/
def Merges (P : ℕ → ℕ → Bool) (s : SlaveBuddy) : ℕ → ℕ → ℕ → Bool
  | 0, _, _ => true
  | n + 1, pfn, k =>
      if buddyFree s pfn k = some true then
        P pfn k && Merges P s n (pfn &&& Word.not (2 ^ k)) (k + 1)
      else true

/-- The frame number relative to the region and the frame number of the page agree about which half
of its pair a block is. -/
def sameBit (s : SlaveBuddy) (pfn k : ℕ) : Bool :=
  pfn.testBit k == (s.mbase / pageSize + pfn).testBit k

/-- The region has a bit for the merged block. -/
def mergeFits (s : SlaveBuddy) (pfn k : ℕ) : Bool :=
  buddyBitChk s (pfn &&& Word.not (2 ^ k)) (k + 1)

/-- Whether a block is merged depends on the bits of its order and of the larger ones. -/
theorem buddyFree_congr (s s' : SlaveBuddy) {k : ℕ} (htotal : s'.totalPages = s.totalPages)
    (hmax : s'.maxOrder = s.maxOrder) (hbits : s'.maxbits = s.maxbits)
    (harr : s'.bitmapArr = s.bitmapArr) (hmap : s'.bitmap k = s.bitmap k) (pfn : ℕ) :
    buddyFree s' pfn k = buddyFree s pfn k := by
  unfold buddyFree buddyBitChk buddyBitGet
  rw [htotal, hmax, hbits, harr, hmap]

theorem Merges.and {P Q : ℕ → ℕ → Bool} {s : SlaveBuddy} :
    ∀ {n pfn k : ℕ}, Merges P s n pfn k = true → Merges Q s n pfn k = true →
      Merges (fun pfn k => P pfn k && Q pfn k) s n pfn k = true := by
  intro n
  induction n with
  | zero => intros; rfl
  | succ n ih =>
      intro pfn k hP hQ
      rw [Merges] at hP hQ ⊢
      by_cases hgo : buddyFree s pfn k = some true
      · rw [if_pos hgo, Bool.and_eq_true] at hP hQ ⊢
        exact ⟨Bool.and_eq_true_iff.2 ⟨hP.1, hQ.1⟩, ih hP.2 hQ.2⟩
      · rw [if_neg hgo]

/-- A change of the bits of one order does not change the merges of larger orders. -/
theorem Merges.set {P : ℕ → ℕ → Bool} {s : SlaveBuddy} {j c : ℕ} {bits : ℕ → Bool} :
    ∀ {n pfn k : ℕ}, j < k → Merges P (s.set j c bits) n pfn k = Merges P s n pfn k := by
  intro n
  induction n with
  | zero => intros; rfl
  | succ n ih =>
      intro pfn k hk
      have hcongr : buddyFree (s.set j c bits) pfn k = buddyFree s pfn k :=
        buddyFree_congr s (s.set j c bits) rfl rfl rfl rfl
          (Function.update_of_ne (Nat.ne_of_gt hk) _ _) pfn
      rw [Merges, Merges, hcongr, ih (Nat.lt_succ_of_lt hk)]

/-! ### Buddies -/

/-- **A block in the pair of another one is its buddy**, when both are aligned to their size. -/
theorem buddy_of_pair {s a b k : ℕ} (ha : 2 ^ k ∣ s + a) (hb : 2 ^ k ∣ s + b) (hne : a ≠ b)
    (hpair : a / 2 ^ (k + 1) = b / 2 ^ (k + 1)) : a = b ^^^ 2 ^ k := by
  have hmod : a % 2 ^ k = b % 2 ^ k := by
    have h : (s + a) % 2 ^ k = (s + b) % 2 ^ k := by
      rw [Nat.mod_eq_zero_of_dvd ha, Nat.mod_eq_zero_of_dvd hb]
    exact Nat.ModEq.add_left_cancel' s h
  have hdiv : a / 2 ^ k / 2 = b / 2 ^ k / 2 := by
    rwa [Nat.div_div_eq_div_mul, Nat.div_div_eq_div_mul, ← Nat.pow_succ]
  have ha' := Nat.div_add_mod a (2 ^ k)
  have hb' := Nat.div_add_mod b (2 ^ k)
  have hq : a / 2 ^ k ≠ b / 2 ^ k := fun hq => hne (by rw [← ha', ← hb', hq, hmod])
  rw [Word.xor_two_pow, Nat.testBit_eq_decide_div_mod_eq]
  by_cases hbit : b / 2 ^ k % 2 = 1
  · have hstep : b / 2 ^ k = a / 2 ^ k + 1 := by omega
    rw [hstep, Nat.mul_succ] at hb'
    simp only [hbit, decide_true, if_true]
    omega
  · have hstep : a / 2 ^ k = b / 2 ^ k + 1 := by omega
    rw [hstep, Nat.mul_succ] at ha'
    simp only [hbit, decide_false, Bool.false_eq_true, if_false]
    omega

/-- A block in the pair of its buddy. -/
theorem xor_div (a k : ℕ) : (a ^^^ 2 ^ k) / 2 ^ (k + 1) = a / 2 ^ (k + 1) := by
  rw [← Nat.shiftRight_eq_div_pow, ← Nat.shiftRight_eq_div_pow, Nat.shiftRight_xor_distrib,
    Nat.shiftRight_eq_div_pow (2 ^ k), Nat.div_eq_of_lt (Nat.pow_lt_pow_right (by decide) (by omega)),
    Nat.xor_zero]

/-- **Merging a block with its buddy**: when the frame numbers agree about the halves of the pair, the
lower block starts a block of the next order. -/
theorem Inv.mergeBuddy {g : Region} {k pg pg' : ℕ}
    (h : Inv st ⟨regs, free, ⟨k, pg'⟩ :: ⟨k, pg⟩ :: live⟩) (hg : g ∈ regs) (hk : k < 10)
    (hin : g.In ⟨k, pg⟩) (hin' : g.In ⟨k, pg'⟩) (hbuddy : pg' - g.start = (pg - g.start) ^^^ 2 ^ k)
    (hbit : (pg - g.start).testBit k = pg.testBit k) :
    ∃ q, q - g.start = (pg - g.start) &&& Word.not (2 ^ k) ∧ g.In ⟨k + 1, q⟩ ∧
      Inv st ⟨regs, free, ⟨k + 1, q⟩ :: live⟩ ∧ ∀ g' ∈ regs,
        (⟨regs, free, ⟨k + 1, q⟩ :: live⟩ : Shape).pages g' =
          (⟨regs, free, ⟨k, pg'⟩ :: ⟨k, pg⟩ :: live⟩ : Shape).pages g' := by
  obtain ⟨-, hdvd, -⟩ := h.live ⟨k, pg⟩ (by simp)
  obtain ⟨-, hdvd', -⟩ := h.live ⟨k, pg'⟩ (by simp)
  have hlt := (hin.pg_lt (h.valid g hg)).2
  have hpow : 2 ^ (k + 1) = 2 ^ k + 2 ^ k := by rw [Nat.pow_succ]; omega
  have h₁ : g.start ≤ pg ∧ pg + 2 ^ k ≤ g.start + g.pages := hin
  have h₁' : g.start ≤ pg' ∧ pg' + 2 ^ k ≤ g.start + g.pages := hin'
  dsimp only at hdvd hdvd' hlt
  have hand : (pg - g.start) &&& Word.not (2 ^ k) =
      if (pg - g.start).testBit k then pg - g.start - 2 ^ k else pg - g.start :=
    Word.and_not_two_pow (by omega) (by omega)
  rw [Word.xor_two_pow] at hbuddy
  cases hhalf : (pg - g.start).testBit k with
  | false =>
      -- the block in hand is the lower one
      rw [hhalf] at hand hbuddy hbit
      simp only [Bool.false_eq_true, if_false] at hand hbuddy
      obtain rfl : pg' = pg + 2 ^ k := by omega
      have hin₂ : g.In ⟨k + 1, pg⟩ := ⟨h₁.1, by dsimp only; omega⟩
      have hmerge := h.merge hk (Word.dvd_of_testBit hdvd hbit.symm) hg hin₂
      exact ⟨pg, hand.symm, hin₂, hmerge, fun g' hg' => (pages_halve hmerge hg').symm⟩
  | true =>
      -- the buddy is the lower one
      rw [hhalf] at hand hbuddy hbit
      simp only [if_true] at hand hbuddy
      have hge := Nat.ge_two_pow_of_testBit hhalf
      obtain rfl : pg = pg' + 2 ^ k := by omega
      have hin₂ : g.In ⟨k + 1, pg'⟩ := ⟨h₁'.1, by dsimp only; omega⟩
      have hclear : pg'.testBit k = false := by
        obtain ⟨q, hq, hqk⟩ := Word.exists_of_testBit hbit.symm
        rwa [Nat.add_right_cancel hq]
      have hswap : (⟨k, pg'⟩ :: ⟨k, pg' + 2 ^ k⟩ :: live).Perm (⟨k, pg' + 2 ^ k⟩ :: ⟨k, pg'⟩ :: live) :=
        List.Perm.swap _ _ _
      have hmerge := (h.perm hswap).merge hk (Word.dvd_of_testBit hdvd' hclear) hg hin₂
      refine ⟨pg', by omega, hin₂, hmerge, fun g' hg' => ?_⟩
      unfold Shape.pages
      rw [livePages_perm hswap g']
      exact (pages_halve hmerge hg').symm

/-! ### The loop of merges -/

/-- Popping a block leaves its bit clear, so that clearing it again changes nothing. -/
theorem buddyBitClr_again {g : Region} (hs : HeaderOk (st.slaves (ptr g.head)) g) (k c pfn : ℕ)
    (bits : ℕ → Bool) (mem : Loc → ℕ) :
    buddyBitClr ((st.setList (ptr g.head) k c (Function.update bits (pfn / 2 ^ (k + 1)) false)
        mem).slaves (ptr g.head)) pfn k =
      some ((st.setList (ptr g.head) k c (Function.update bits (pfn / 2 ^ (k + 1)) false)
        mem).slaves (ptr g.head)) ∧
    (st.setList (ptr g.head) k c (Function.update bits (pfn / 2 ^ (k + 1)) false) mem).setSlave
        (ptr g.head) ((st.setList (ptr g.head) k c (Function.update bits (pfn / 2 ^ (k + 1)) false)
        mem).slaves (ptr g.head)) =
      st.setList (ptr g.head) k c (Function.update bits (pfn / 2 ^ (k + 1)) false) mem := by
  constructor
  · rw [State.setList_slaves_self, buddyBitClr, SlaveBuddy.set, buddyBitPut_ok (hs.congr _ _),
      kbudPairIdx]
    simp only [Function.update_self, Function.update_idem]
  · simp only [State.setSlave, Function.update_eq_self]

/-- Whether the loop goes on is a bit of the block's pair. -/
theorem buddyFree_cases {s : SlaveBuddy} {g : Region} (hs : HeaderOk s g) (pfn k : ℕ) :
    buddyFree s pfn k = some false ∨
      buddyFree s pfn k = some true ∧ k ≤ 10 ∧ s.bitmap k (pfn / 2 ^ (k + 1)) = true := by
  unfold buddyFree
  dsimp only
  by_cases htotal : pfn ^^^ 2 ^ k ≥ s.totalPages
  · exact Or.inl (if_pos htotal)
  rw [if_neg htotal]
  by_cases hchk : buddyBitChk s (pfn ^^^ 2 ^ k) k = true
  · rw [if_neg (not_not.2 hchk), buddyBitGet, if_neg (hs.arr k), kbudPairIdx, xor_div]
    cases hbit : s.bitmap k (pfn / 2 ^ (k + 1)) with
    | false => exact Or.inl rfl
    | true => exact Or.inr ⟨rfl, ((hs.chk _ _).1 hchk).1, rfl⟩
  · exact Or.inl (if_pos hchk)

/-- The turn of the loop that merges. -/
theorem coalesce_merge {r n pfn k bpfn addr : ℕ} {a : Bool} {st₁ : State} {s' : SlaveBuddy}
    (hgo : buddyFree (st.slaves r) pfn k = some true) (hbuddy : pfn ^^^ 2 ^ k = bpfn)
    (haddr : Word.add (st.slaves r).mbase (bpfn * 4096) = addr)
    (hpop : kbudPop st r addr k = some (a, st₁))
    (hclr : buddyBitClr (st₁.slaves r) bpfn k = some s') :
    coalesce r (n + 1) st pfn k =
      coalesce r n (st₁.setSlave r s') (pfn &&& Word.not (2 ^ k)) (k + 1) := by
  simp only [coalesce, hgo, Option.bind_eq_bind, Option.bind_some, if_true, hbuddy, haddr, hpop,
    hclr]

/-- **A merge**: the bit says that the pair has a free block, which can only be the buddy, and the loop
takes it from its list. -/
theorem Inv.mergeTurn {g : Region} {k pg : ℕ} (h : Inv st ⟨regs, free, ⟨k, pg⟩ :: live⟩) (hg : g ∈ regs)
    (hin : g.In ⟨k, pg⟩) (hk : k < 10)
    (hbit : (st.slaves (ptr g.head)).bitmap k ((pg - g.start) / 2 ^ (k + 1)) = true)
    (hsame : (pg - g.start).testBit k = (g.start + (pg - g.start)).testBit k) :
    ∃ pg' q st₁ s' free', pg' ∈ free g.head k ∧ pg' - g.start = (pg - g.start) ^^^ 2 ^ k ∧
      Word.add (st.slaves (ptr g.head)).mbase ((pg' - g.start) * 4096) = 4096 * pg' ∧
      kbudPop st (ptr g.head) (4096 * pg') k = some (true, st₁) ∧
      buddyBitClr (st₁.slaves (ptr g.head)) (pg' - g.start) k = some s' ∧
      q - g.start = (pg - g.start) &&& Word.not (2 ^ k) ∧ g.In ⟨k + 1, q⟩ ∧
      Inv (st₁.setSlave (ptr g.head) s') ⟨regs, free', ⟨k + 1, q⟩ :: live⟩ ∧
      (∀ g' ∈ regs, (⟨regs, free', ⟨k + 1, q⟩ :: live⟩ : Shape).pages g' =
        (⟨regs, free, ⟨k, pg⟩ :: live⟩ : Shape).pages g') ∧
      ∀ P n pfn, Merges P ((st₁.setSlave (ptr g.head) s').slaves (ptr g.head)) n pfn (k + 1) =
        Merges P (st.slaves (ptr g.head)) n pfn (k + 1) := by
  have hs := h.header g hg
  have hl : ListOk st g k (free g.head k) := h.list g hg k (by omega)
  obtain ⟨pg', hpg', hpair⟩ := hl.bit _ hbit
  have hin' : g.In ⟨k, pg'⟩ := hl.mem_in pg' hpg'
  have hstart : g.start ≤ pg := hin.1
  have hstart' : g.start ≤ pg' := hin'.1
  have hne : pg' - g.start ≠ pg - g.start := by
    have hap := (h.sepMix ⟨k, pg⟩ (by simp) ⟨k, pg'⟩ ⟨g, hg, by dsimp only; omega, hpg'⟩).pg_ne
    dsimp only at hap
    omega
  have hdvd : 2 ^ k ∣ pg := (h.live ⟨k, pg⟩ (by simp)).2.1
  have hbuddy : pg' - g.start = (pg - g.start) ^^^ 2 ^ k := by
    refine buddy_of_pair (s := g.start) ?_ ?_ hne hpair
    · rw [Nat.add_sub_of_le hstart']
      exact hl.dvd pg' hpg'
    · rw [Nat.add_sub_of_le hstart]
      exact hdvd
  obtain ⟨l₁, l₂, mem, hlist, hpop, hinv⟩ := kbudPop_spec h hg (by omega) hpg'
  obtain ⟨hclr, hstate⟩ := buddyBitClr_again hs k (l₁ ++ l₂).length (pg' - g.start)
    ((st.slaves (ptr g.head)).bitmap k) mem
  have haddr : Word.add (st.slaves (ptr g.head)).mbase ((pg' - g.start) * 4096) = 4096 * pg' := by
    have hlt := (hin'.pg_lt (h.valid g hg)).2
    dsimp only at hlt
    rw [hs.mbase, Word.add_of_lt (by omega)]
    omega
  rw [Nat.add_sub_of_le hstart] at hsame
  obtain ⟨q, hq, hinq, hinvq, hpagesq⟩ := hinv.mergeBuddy hg hk hin hin' hbuddy hsame
  refine ⟨pg', q, _, _, _, hpg', hbuddy, haddr, hpop, hclr, hq, hinq, by rwa [hstate], fun g' hg' => ?_,
    fun P n pfn => ?_⟩
  · rw [hpagesq g' hg']
    exact pages_unlink h hg (by omega) l₁ hlist hg'
  · rw [hstate, State.setList_slaves_self]
    exact Merges.set (Nat.lt_succ_self k)

/-- **The merges**: a block in hand grows by its buddies. -/
theorem coalesce_spec {g : Region} {P : ℕ → ℕ → Bool}
    (hP : ∀ pfn k, P pfn k = true → pfn.testBit k = (g.start + pfn).testBit k) :
    ∀ (n : ℕ) {st : State} {free : ℕ → ℕ → List ℕ} {k pg : ℕ},
      Inv st ⟨regs, free, ⟨k, pg⟩ :: live⟩ → g ∈ regs → g.In ⟨k, pg⟩ → k + n = 10 →
      Merges P (st.slaves (ptr g.head)) n (pg - g.start) k = true →
      ∃ pg' k' st' free', coalesce (ptr g.head) n st (pg - g.start) k =
          some (pg' - g.start, k', st') ∧
        Inv st' ⟨regs, free', ⟨k', pg'⟩ :: live⟩ ∧ g.In ⟨k', pg'⟩ ∧
        (∀ g' ∈ regs, (⟨regs, free', ⟨k', pg'⟩ :: live⟩ : Shape).pages g' =
          (⟨regs, free, ⟨k, pg⟩ :: live⟩ : Shape).pages g') ∧
        ((∀ pfn k, P pfn k = true → k + 1 ≤ 10 ∧
            (pfn &&& Word.not (2 ^ k)) / 2 ^ (k + 2) < g.rpages / 2 ^ (k + 2)) →
          g.Accepts ⟨k, pg⟩ → g.Accepts ⟨k', pg'⟩) := by
  intro n
  induction n with
  | zero =>
      intro st free k pg h hg hin _ _
      exact ⟨pg, k, st, free, rfl, h, hin, fun _ _ => rfl, fun _ hacc => hacc⟩
  | succ n ih =>
      intro st free k pg h hg hin hkn hmerges
      rcases buddyFree_cases (h.header g hg) (pg - g.start) k with hstop | ⟨hgo, -, hbit⟩
      · refine ⟨pg, k, st, free, ?_, h, hin, fun _ _ => rfl, fun _ hacc => hacc⟩
        simp only [coalesce, hstop, Option.bind_eq_bind, Option.bind_some, Bool.false_eq_true,
          if_false]
      rw [Merges, if_pos hgo, Bool.and_eq_true] at hmerges
      obtain ⟨hPk, hrest⟩ := hmerges
      obtain ⟨pg', q, st₁, s', free', -, hbuddy, haddr, hpop, hclr, hq, hinq, hinvq, hpagesq, hset⟩ :=
        h.mergeTurn hg hin (by omega) hbit (hP _ _ hPk)
      obtain ⟨pg₂, k₂, st₂, free₂, hrun, hinv₂, hin₂, hpages₂, hacc₂⟩ :=
        ih hinvq hg hinq (by omega) (by rwa [hset, hq])
      refine ⟨pg₂, k₂, st₂, free₂, ?_, hinv₂, hin₂, fun g' hg' => ?_, fun hfit _ => ?_⟩
      · rw [coalesce_merge hgo hbuddy.symm haddr hpop hclr, ← hq]
        exact hrun
      · rw [hpages₂ g' hg', hpagesq g' hg']
      · refine hacc₂ hfit ?_
        have hfits := hfit _ _ hPk
        rw [← hq] at hfits
        exact hfits

/-! ### Freeing -/

/-- The merges that freeing the block at `vaddr` brings about have the property `P`. -/
def FreeMerges (P : SlaveBuddy → ℕ → ℕ → Bool) (st : State) (vaddr order : ℕ) : Prop :=
  let s := st.slaves (findValidSlave st (virtToPhysPm vaddr))
  Merges (P s) s (pframeMaxOrder - 1 - order) (kbudPfnum (virtToPhysPm vaddr) s) order = true

instance (P : SlaveBuddy → ℕ → ℕ → Bool) (st : State) (vaddr order : ℕ) :
    Decidable (FreeMerges P st vaddr order) := inferInstanceAs (Decidable (_ = _))

theorem kbudFree_eq {vaddr order r pfn k addr : ℕ} {a : Bool} {st₁ st₂ : State}
    (hfind : findValidSlave st (virtToPhysPm vaddr) = r) (hr : r ≠ kpageErr)
    (hmerge : coalesce r (pframeMaxOrder - 1 - order) st
      (kbudPfnum (virtToPhysPm vaddr) (st.slaves r)) order = some (pfn, k, st₁))
    (haddr : Word.add (st₁.slaves r).mbase (pfn * 4096) = addr)
    (hpush : kbudPush st₁ r addr k = some (a, st₂)) : kbudFree st vaddr order = some st₂ := by
  simp only [kbudFree, hfind, hr, if_false, hmerge, Option.bind_eq_bind, Option.bind_some, haddr,
    hpush]

/-- A block in use is found in its region. -/
theorem Inv.find_block {b : Blk} (h : Inv st ⟨regs, free, b :: live⟩) :
    ∃ g ∈ regs, g.In b ∧ findValidSlave st (virtToPhysPm (ptr b.pg)) = ptr g.head ∧
      kbudPfnum (virtToPhysPm (ptr b.pg)) (st.slaves (ptr g.head)) = b.pg - g.start := by
  obtain ⟨-, -, g, hg, hin⟩ := h.live b (by simp)
  have hlt := hin.pg_lt (h.valid g hg)
  have hpos : 0 < 2 ^ b.ord := Nat.two_pow_pos _
  have hstart : g.start ≤ b.pg := hin.1
  have hend := hin.2
  have hphys : virtToPhysPm (ptr b.pg) = 4096 * b.pg := virtToPhysPm_ptr (by omega)
  refine ⟨g, hg, hin, ?_, ?_⟩
  · rw [hphys]
    exact findValidSlave_in h hg (by omega) (by omega)
  · rw [hphys]
    exact kbudPfnum_page (h.header g hg) hstart (by omega)

theorem HeaderOk.testBit_eq {s : SlaveBuddy} {g : Region} (hs : HeaderOk s g) {pfn k : ℕ}
    (h : sameBit s pfn k = true) : pfn.testBit k = (g.start + pfn).testBit k := by
  rwa [sameBit, hs.mbase, show pageSize = 4096 from rfl, Nat.mul_div_cancel_left _ (by decide),
    beq_iff_eq] at h

/-- **Freeing a block in use** turns its pages into free pages; none is lost when the region has a
bit for the block and for each merged block. -/
theorem kbudFree_spec {P : SlaveBuddy → ℕ → ℕ → Bool} {b : Blk}
    (h : Inv st ⟨regs, free, b :: live⟩)
    (hP : ∀ s pfn k, P s pfn k = true → sameBit s pfn k = true)
    (hmerges : FreeMerges P st (ptr b.pg) b.ord) :
    ∃ st' free', kbudFree st (ptr b.pg) b.ord = some st' ∧ Inv st' ⟨regs, free', live⟩ ∧
      ((∀ s pfn k, P s pfn k = true → mergeFits s pfn k = true) →
        (∀ g ∈ regs, g.In b → g.Accepts b) → ∀ g ∈ regs,
          (⟨regs, free', live⟩ : Shape).pages g = (⟨regs, free, b :: live⟩ : Shape).pages g) := by
  have hord : b.ord ≤ 10 := (h.live b (by simp)).1
  obtain ⟨g, hg, hin, hfind, hpfn⟩ := h.find_block
  have hs := h.header g hg
  have hmerges' : Merges (P (st.slaves (ptr g.head))) (st.slaves (ptr g.head))
      (pframeMaxOrder - 1 - b.ord) (b.pg - g.start) b.ord = true := by
    rw [FreeMerges, hfind, hpfn] at hmerges
    exact hmerges
  obtain ⟨pg', k', st₁, free₁, hrun, hinv, hin', hpages, hacc⟩ :=
    coalesce_spec (fun pfn k hPk => hs.testBit_eq (hP _ pfn k hPk)) (pframeMaxOrder - 1 - b.ord) h hg hin
      (by unfold pframeMaxOrder; omega) hmerges'
  obtain ⟨a, st₂, free₂, hpush, hinv₂, hpages₂, -⟩ := kbudPush_cases hinv hg hin'
  have hlt' := (hin'.pg_lt (h.valid g hg)).2
  have hstart' : g.start ≤ pg' := hin'.1
  dsimp only at hlt'
  have haddr : Word.add (st₁.slaves (ptr g.head)).mbase ((pg' - g.start) * 4096) = 4096 * pg' := by
    rw [(hinv.header g hg).mbase, Word.add_of_lt (by omega)]
    omega
  refine ⟨st₂, free₂, kbudFree_eq hfind (ptr_ne_kpageErr _) (by rw [hpfn]; exact hrun) haddr hpush,
    hinv₂, fun hfit haccept g' hg' => ?_⟩
  have hfit' : ∀ pfn k, P (st.slaves (ptr g.head)) pfn k = true → k + 1 ≤ 10 ∧
      (pfn &&& Word.not (2 ^ k)) / 2 ^ (k + 2) < g.rpages / 2 ^ (k + 2) := fun pfn k hPk =>
    (hs.chk _ _).1 (hfit _ _ _ hPk)
  rw [hpages₂ g' hg' fun _ => hacc hfit' (haccept g hg hin), hpages g' hg']

end Buddy

end SyncKernel
