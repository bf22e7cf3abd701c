/-
**Regions whose pairs are those of memory.**

The bits of a region stand for pairs of frames, counted from its first page, while blocks are aligned
as physical memory is.  In a regular region the two agree: its first page is a multiple of its largest
block, and every block inside it has a bit.  There a bit says exactly that one block of its pair is
free, no two halves of a block are free together, and neither a split nor a merge ever loses a block.

Main definitions:

* `Buddy.Region.Regular` — a region whose pairs are those of memory;
* `Buddy.Shape.Holds` — a page is in a block;
* `Buddy.Canon` — **the bits are exact and the free blocks are reduced**.

Main results:

* `Buddy.kbudPush_canon`, `Buddy.kbudPop_canon`, `Buddy.kbudPopHead_canon` — the lists;
* `Buddy.kbudAlloc_canon`, `Buddy.kbudFree_canon` — **allocating and freeing**.
-/

import SyncKernel.Lib.DyadicCover
import SyncKernel.Buddy.Carve
import SyncKernel.Buddy.Frame
import SyncKernel.Buddy.Layout

set_option relaxedAutoImplicit false
set_option autoImplicit false

namespace SyncKernel

namespace Buddy

open Dyad (base block)

variable {st : State} {regs : List Region} {free : ℕ → ℕ → List ℕ} {live : List Blk}

/-! ### Regular regions -/

/-- The region hands out pages, its first page is a multiple of the largest block, every pair of the
region has a bit, and the region has no room for two blocks of its largest order unless that is the
largest of all. -/
structure Region.Regular (g : Region) : Prop where
  pos : 0 < g.pages
  start : 2 ^ topOrder g.rpages ∣ g.start
  bits : g.pages ≤ g.rpages / 2 ^ (topOrder g.rpages + 1) * 2 ^ (topOrder g.rpages + 1)
  small : topOrder g.rpages = 10 ∨ g.pages < 2 ^ (topOrder g.rpages + 1)

instance (g : Region) : Decidable g.Regular :=
  decidable_of_iff (0 < g.pages ∧ 2 ^ topOrder g.rpages ∣ g.start ∧
      g.pages ≤ g.rpages / 2 ^ (topOrder g.rpages + 1) * 2 ^ (topOrder g.rpages + 1) ∧
      (topOrder g.rpages = 10 ∨ g.pages < 2 ^ (topOrder g.rpages + 1)))
    ⟨fun h => ⟨h.1, h.2.1, h.2.2.1, h.2.2.2⟩, fun h => ⟨h.pos, h.start, h.bits, h.small⟩⟩

theorem topOrder_le (m : ℕ) : topOrder m ≤ 10 := Nat.min_le_left _ _

/-- The pair of a block in a region is the block around it. -/
def Region.pair (g : Region) (k pg : ℕ) : ℕ := (pg - g.start) / 2 ^ (k + 1)

namespace Region.Regular

variable {g : Region} {k pg pg' : ℕ}

/-- No block of the region is larger than its largest order. -/
theorem le_top (hr : g.Regular) (hin : g.In ⟨k, pg⟩) (hk : k ≤ 10) : k ≤ topOrder g.rpages := by
  rcases hr.small with htop | hsmall
  · omega
  · obtain ⟨h₁, h₂⟩ := hin
    dsimp only at h₁ h₂
    by_contra hlt
    have hpow : 2 ^ (topOrder g.rpages + 1) ≤ 2 ^ k := Nat.pow_le_pow_right (by decide) (by omega)
    omega

/-- Every block of the region has a bit. -/
theorem accepts (hr : g.Regular) (hin : g.In ⟨k, pg⟩) (hk : k ≤ 10) : g.Accepts ⟨k, pg⟩ := by
  have htop := hr.le_top hin hk
  obtain ⟨h₁, h₂⟩ := hin
  have hpos : 0 < 2 ^ k := Nat.two_pow_pos k
  dsimp only at h₁ h₂
  refine ⟨hk, ?_⟩
  dsimp only
  obtain ⟨d, hd⟩ := Nat.exists_eq_add_of_le htop
  set q := g.rpages / 2 ^ (topOrder g.rpages + 1) with hq
  have hmul : q * 2 ^ (topOrder g.rpages + 1) = q * 2 ^ d * 2 ^ (k + 1) := by
    rw [hd, show k + d + 1 = d + (k + 1) by omega, Nat.pow_add, Nat.mul_assoc]
  have hlt : (pg - g.start) / 2 ^ (k + 1) < q * 2 ^ d := by
    refine Nat.div_lt_of_lt_mul ?_
    have hbits := hr.bits
    rw [hmul] at hbits
    rw [Nat.mul_comm]
    omega
  refine lt_of_lt_of_le hlt ((Nat.le_div_iff_mul_le (Nat.two_pow_pos _)).2 ?_)
  rw [← hmul]
  exact Nat.div_mul_le_self _ _

theorem dvd_start (hr : g.Regular) (hk : k < topOrder g.rpages) : 2 ^ (k + 1) ∣ g.start :=
  (Nat.pow_dvd_pow 2 hk).trans hr.start

/-- Two blocks are in the same pair when the block around them is the same. -/
theorem pair_iff (hr : g.Regular) (hk : k < topOrder g.rpages) (hpg : g.start ≤ pg)
    (hpg' : g.start ≤ pg') : g.pair k pg = g.pair k pg' ↔ base (k + 1) pg = base (k + 1) pg' := by
  obtain ⟨c, hc⟩ := hr.dvd_start hk
  have hpos : 0 < 2 ^ (k + 1) := Nat.two_pow_pos _
  have hle : c ≤ pg / 2 ^ (k + 1) := (Nat.le_div_iff_mul_le hpos).2 (by rw [Nat.mul_comm, ← hc]; exact hpg)
  have hle' : c ≤ pg' / 2 ^ (k + 1) :=
    (Nat.le_div_iff_mul_le hpos).2 (by rw [Nat.mul_comm, ← hc]; exact hpg')
  unfold Region.pair base
  rw [hc, Nat.sub_mul_div, Nat.sub_mul_div, Nat.mul_left_inj (Nat.ne_of_gt hpos)]
  omega

/-- The frame number and the page number agree about the half of a pair that a block is. -/
theorem testBit_eq (hr : g.Regular) (hk : k < topOrder g.rpages) (pfn : ℕ) :
    pfn.testBit k = (g.start + pfn).testBit k := by
  have hmod : (g.start + pfn) % 2 ^ (k + 1) = pfn % 2 ^ (k + 1) := by
    rw [Nat.add_mod, Nat.mod_eq_zero_of_dvd (hr.dvd_start hk), Nat.zero_add, Nat.mod_mod]
  have hbit := congrArg (fun n => n.testBit k) hmod
  simpa [Nat.testBit_mod_two_pow] using hbit.symm

end Region.Regular

/-! ### The pages in blocks -/

/-- The page is in a block, free or in use. -/
def Shape.Holds (sh : Shape) (a : ℕ) : Prop :=
  ∃ b, (sh.IsFree b ∨ b ∈ sh.live) ∧ a ∈ block b.ord b.pg

/-- A block in hand becomes free. -/
theorem holds_push {g : Region} {b : Blk} (hg : g ∈ regs) (hord : b.ord ≤ 10)
    {a : ℕ} (h : (⟨regs, free, b :: live⟩ : Shape).Holds a) :
    (⟨regs, setFree free g b.ord (b.pg :: free g.head b.ord), live⟩ : Shape).Holds a := by
  obtain ⟨c, hc, ha⟩ := h
  rcases hc with ⟨g', hg', hk, hpg⟩ | hc
  · refine ⟨c, Or.inl ⟨g', hg', hk, ?_⟩, ha⟩
    dsimp only at hpg ⊢
    by_cases hsame : g'.head = g.head ∧ c.ord = b.ord
    · rw [hsame.1, hsame.2, setFree_self]
      rw [hsame.1, hsame.2] at hpg
      exact List.mem_cons_of_mem _ hpg
    · rw [setFree_of_ne (by tauto)]
      exact hpg
  · rcases List.mem_cons.1 hc with rfl | hc
    · exact ⟨c, Or.inl ⟨g, hg, hord, by dsimp only; rw [setFree_self]; exact List.mem_cons_self⟩, ha⟩
    · exact ⟨c, Or.inr hc, ha⟩

/-- A free block comes into use. -/
theorem holds_unlink {g : Region} {k pg : ℕ} (l₁ : List ℕ) {l₂ : List ℕ}
    (hlist : free g.head k = l₁ ++ pg :: l₂) {a : ℕ}
    (h : (⟨regs, free, live⟩ : Shape).Holds a) :
    (⟨regs, setFree free g k (l₁ ++ l₂), ⟨k, pg⟩ :: live⟩ : Shape).Holds a := by
  obtain ⟨c, hc, ha⟩ := h
  rcases hc with ⟨g', hg', hk, hpg⟩ | hc
  · dsimp only at hpg
    by_cases hsame : g'.head = g.head ∧ c.ord = k
    · rw [hsame.1, hsame.2, hlist, List.mem_append, List.mem_cons] at hpg
      by_cases hcp : c.pg = pg
      · refine ⟨c, Or.inr (List.mem_cons.2 (Or.inl ?_)), ha⟩
        cases c
        simp_all
      · refine ⟨c, Or.inl ⟨g', hg', hk, ?_⟩, ha⟩
        dsimp only
        rw [hsame.1, hsame.2, setFree_self, List.mem_append]
        tauto
    · refine ⟨c, Or.inl ⟨g', hg', hk, ?_⟩, ha⟩
      dsimp only
      rw [setFree_of_ne (by tauto)]
      exact hpg
  · exact ⟨c, Or.inr (List.mem_cons_of_mem _ hc), ha⟩

/-- A change of the blocks in hand that keeps their pages. -/
theorem holds_live {live' : List Blk} {a : ℕ}
    (hlive : ∀ b ∈ live, a ∈ block b.ord b.pg → ∃ b' ∈ live', a ∈ block b'.ord b'.pg)
    (h : (⟨regs, free, live⟩ : Shape).Holds a) : (⟨regs, free, live'⟩ : Shape).Holds a := by
  obtain ⟨c, hc | hc, ha⟩ := h
  · exact ⟨c, Or.inl hc, ha⟩
  · obtain ⟨c', hc', ha'⟩ := hlive c hc ha
    exact ⟨c', Or.inr hc', ha'⟩

/-- A block in hand and its buddy hold the pages of the merged block. -/
theorem holds_halves {k pg : ℕ} {rest : List Blk} (a : ℕ) :
    (⟨regs, free, ⟨k, pg + 2 ^ k⟩ :: ⟨k, pg⟩ :: rest⟩ : Shape).Holds a ↔
      (⟨regs, free, ⟨k + 1, pg⟩ :: rest⟩ : Shape).Holds a := by
  constructor
  · refine holds_live fun b hb ha => ?_
    rcases List.mem_cons.1 hb with rfl | hb
    · exact ⟨_, List.mem_cons_self, by rw [Dyad.block_succ]; exact Or.inr ha⟩
    rcases List.mem_cons.1 hb with rfl | hb
    · exact ⟨_, List.mem_cons_self, by rw [Dyad.block_succ]; exact Or.inl ha⟩
    · exact ⟨b, List.mem_cons_of_mem _ hb, ha⟩
  · refine holds_live fun b hb ha => ?_
    rcases List.mem_cons.1 hb with rfl | hb
    · rw [Dyad.block_succ] at ha
      rcases ha with ha | ha
      · exact ⟨⟨k, pg⟩, by simp, ha⟩
      · exact ⟨⟨k, pg + 2 ^ k⟩, by simp, ha⟩
    · exact ⟨b, by simp [hb], ha⟩

/-! ### The invariant -/

/-- **The bits are exact and the free blocks are reduced**: all regions are regular, the bit of each
free block is set, and no two free blocks are in one pair; orders above the largest one of a region
have no blocks, and at the largest one blocks are not merged. -/
structure Canon (st : State) (sh : Shape) : Prop where
  regular : ∀ g ∈ sh.regs, g.Regular
  maxOrder : ∀ g ∈ sh.regs, (st.slaves (ptr g.head)).maxOrder = topOrder g.rpages
  bit : ∀ g ∈ sh.regs, ∀ k < topOrder g.rpages, ∀ pg ∈ sh.free g.head k,
    (st.slaves (ptr g.head)).bitmap k (g.pair k pg) = true
  lone : ∀ g ∈ sh.regs, ∀ k < topOrder g.rpages, ∀ pg ∈ sh.free g.head k,
    ∀ pg' ∈ sh.free g.head k, g.pair k pg = g.pair k pg' → pg = pg'

/-- The blocks in use do not matter. -/
theorem Canon.live_irrel {live' : List Blk} (hc : Canon st ⟨regs, free, live⟩) :
    Canon st ⟨regs, free, live'⟩ := ⟨hc.regular, hc.maxOrder, hc.bit, hc.lone⟩

/-- **The rule for a change of one free list.** -/
theorem Canon.setList (hc : Canon st ⟨regs, free, live⟩) (h : Inv st ⟨regs, free, live⟩) {g : Region}
    (hg : g ∈ regs) {k c : ℕ} {bits : ℕ → Bool} {mem : Loc → ℕ} {l : List ℕ} {live' : List Blk}
    (hbit : k < topOrder g.rpages → ∀ pg ∈ l, bits (g.pair k pg) = true)
    (hlone : k < topOrder g.rpages → ∀ pg ∈ l, ∀ pg' ∈ l, g.pair k pg = g.pair k pg' → pg = pg') :
    Canon (st.setList (ptr g.head) k c bits mem) ⟨regs, setFree free g k l, live'⟩ := by
  have hsplit : ∀ g' ∈ regs, ∀ j, (g' = g ∧ j = k) ∨ (g'.head ≠ g.head ∨ j ≠ k) := by
    intro g' hg' j
    by_cases hgg : g' = g
    · by_cases hj : j = k
      · exact Or.inl ⟨hgg, hj⟩
      · exact Or.inr (Or.inr hj)
    · exact Or.inr (Or.inl fun he => hgg (h.eq_of_head hg' hg he))
  refine ⟨hc.regular, fun g' hg' => ?_, fun g' hg' j hj pg hpg => ?_,
    fun g' hg' j hj pg hpg pg' hpg' hpair => ?_⟩
  · by_cases hgg : g' = g
    · rw [hgg, State.setList_slaves_self]
      exact hc.maxOrder g hg
    · rw [State.setList_slaves_of_ne (h.head_ne hg' hg hgg)]
      exact hc.maxOrder g' hg'
  · dsimp only at hpg
    rcases hsplit g' hg' j with ⟨rfl, rfl⟩ | hne
    · rw [setFree_self] at hpg
      rw [State.setList_slaves_self, SlaveBuddy.set_bitmap]
      exact hbit hj pg hpg
    · rw [setFree_of_ne hne] at hpg
      have hold := hc.bit g' hg' j hj pg hpg
      by_cases hgg : g' = g
      · subst hgg
        rw [State.setList_slaves_self, SlaveBuddy.set]
        dsimp only
        rw [Function.update_of_ne (hne.resolve_left fun he => he rfl)]
        exact hold
      · rw [State.setList_slaves_of_ne (h.head_ne hg' hg hgg)]
        exact hold
  · dsimp only at hpg hpg'
    rcases hsplit g' hg' j with ⟨rfl, rfl⟩ | hne
    · rw [setFree_self] at hpg hpg'
      exact hlone hj pg hpg pg' hpg' hpair
    · rw [setFree_of_ne hne] at hpg hpg'
      exact hc.lone g' hg' j hj pg hpg pg' hpg' hpair

/-! ### The lists -/

/-- Writing a bit changes the bits of its order in that place. -/
theorem buddyBitPut_bitmap {s s' : SlaveBuddy} {pfn ord : ℕ} {b : Bool}
    (h : buddyBitPut s pfn ord b = some s') :
    s'.bitmap ord = Function.update (s.bitmap ord) (kbudPairIdx pfn ord) b := by
  unfold buddyBitPut at h
  by_cases harr : s.bitmapArr ord = kpageErr
  · rw [if_pos harr] at h
    cases h
  · rw [if_neg harr] at h
    obtain rfl := Option.some_inj.1 h
    exact Function.update_self ..

/-- The bit that a push sets. -/
theorem kbudPush_bitmap {r phy ord : ℕ} {st' : State}
    (h : kbudPush st r phy ord = some (true, st')) :
    (st'.slaves r).bitmap ord = Function.update ((st.slaves r).bitmap ord)
      (kbudPairIdx (kbudPfnum phy (st.slaves r)) ord) true := by
  unfold kbudPush at h
  dsimp only at h
  split_ifs at h with hchk
  · obtain ⟨s', hs', hst⟩ := Option.bind_eq_some_iff.1 h
    obtain rfl := (Prod.mk.inj (Option.some_inj.1 hst)).2
    have hbits := buddyBitPut_bitmap hs'
    rw [setSlave_self]
    exact hbits
  · exact absurd (Prod.mk.inj (Option.some_inj.1 h)).1 (by decide)

/-- The bit that taking the first block of a list clears. -/
theorem kbudPopHead_bitmap {r ord blk : ℕ} {st' : State}
    (h : kbudPopHead st r ord = some (blk, st')) (hne : blk ≠ kpageErr) :
    (st'.slaves r).bitmap ord = Function.update ((st.slaves r).bitmap ord)
      (kbudPairIdx (kbudPfnum (virtToPhysPm blk) (st.slaves r)) ord) false := by
  unfold kbudPopHead at h
  dsimp only at h
  split_ifs at h with hchk
  · obtain ⟨s', hs', hst⟩ := Option.bind_eq_some_iff.1 h
    obtain ⟨rfl, rfl⟩ := Prod.mk.inj (Option.some_inj.1 hst)
    have hbits := buddyBitPut_bitmap hs'
    rw [setSlave_self]
    exact hbits
  · exact absurd (Prod.mk.inj (Option.some_inj.1 h)).1.symm hne

/-- **Pushing a block in hand** whose pair has no free block. -/
theorem kbudPush_canon {b : Blk} (h : Inv st ⟨regs, free, b :: live⟩)
    (hc : Canon st ⟨regs, free, b :: live⟩) {g : Region} (hg : g ∈ regs) (hin : g.In b)
    (hlone : b.ord < topOrder g.rpages → ∀ pg ∈ free g.head b.ord,
      g.pair b.ord pg ≠ g.pair b.ord b.pg) :
    ∃ st', kbudPush st (ptr g.head) (4096 * b.pg) b.ord = some (true, st') ∧
      Inv st' ⟨regs, setFree free g b.ord (b.pg :: free g.head b.ord), live⟩ ∧
      Canon st' ⟨regs, setFree free g b.ord (b.pg :: free g.head b.ord), live⟩ ∧
      Keeps live st st' := by
  have hord : b.ord ≤ 10 := (h.live b (by simp)).1
  have hlt := (hin.pg_lt (h.valid g hg)).2
  obtain ⟨c, bits, mem, hrun, hinv⟩ :=
    kbudPush_spec h hg hin ((hc.regular g hg).accepts hin hord)
  have hbits := kbudPush_bitmap hrun
  rw [State.setList_slaves_self, SlaveBuddy.set_bitmap, kbudPfnum_page (h.header g hg) hin.1 (by omega)]
    at hbits
  refine ⟨_, hrun, hinv, hc.setList h hg (fun hk pg hpg => ?_) (fun hk pg hpg pg' hpg' hpair => ?_),
    kbudPush_keeps (by omega) hrun (List.pairwise_cons.1 h.sepLive).1⟩
  · rw [hbits, Function.update_apply]
    rcases List.mem_cons.1 hpg with rfl | hpg
    · exact if_pos rfl
    · rw [hc.bit g hg b.ord hk pg hpg, ite_self]
  · rcases List.mem_cons.1 hpg with rfl | hpg
    · rcases List.mem_cons.1 hpg' with rfl | hpg'
      · rfl
      · exact absurd hpair.symm (hlone hk pg' hpg')
    · rcases List.mem_cons.1 hpg' with rfl | hpg'
      · exact absurd hpair (hlone hk pg hpg)
      · exact hc.lone g hg b.ord hk pg hpg pg' hpg' hpair

/-- What is left of a list after one of its blocks is gone has its bits. -/
theorem Canon.unlinked {g : Region} {k pg : ℕ} (hc : Canon st ⟨regs, free, live⟩)
    (h : Inv st ⟨regs, free, live⟩) (hg : g ∈ regs) (hk : k ≤ 10) (l₁ : List ℕ)
    {l₂ : List ℕ} (hlist : free g.head k = l₁ ++ pg :: l₂) {c : ℕ} {bits : ℕ → Bool} {mem : Loc → ℕ}
    (hbits : bits = Function.update ((st.slaves (ptr g.head)).bitmap k) (g.pair k pg) false) :
    Canon (st.setList (ptr g.head) k c bits mem)
      ⟨regs, setFree free g k (l₁ ++ l₂), ⟨k, pg⟩ :: live⟩ := by
  have hsub : ∀ p ∈ l₁ ++ l₂, p ∈ free g.head k := by
    intro p hp
    rw [hlist]
    rcases List.mem_append.1 hp with hp | hp <;> simp [hp]
  have hmem : pg ∈ free g.head k := by simp [hlist]
  have hnodup : (free g.head k).Nodup := (h.list g hg k hk).nodup
  rw [hlist] at hnodup
  have hnotmem : pg ∉ l₁ ++ l₂ := (List.nodup_cons.1 (List.nodup_middle.1 hnodup)).1
  refine hc.setList h hg (fun hkt p hp => ?_) fun hkt p hp p' hp' hpair =>
    hc.lone g hg k hkt p (hsub p hp) p' (hsub p' hp') hpair
  have hne : g.pair k p ≠ g.pair k pg := by
    intro hpair
    rw [hc.lone g hg k hkt p (hsub p hp) pg hmem hpair] at hp
    exact hnotmem hp
  rw [hbits, Function.update_of_ne hne]
  exact hc.bit g hg k hkt p (hsub p hp)

/-- **Popping a free block** by its address. -/
theorem kbudPop_canon (h : Inv st ⟨regs, free, live⟩) (hc : Canon st ⟨regs, free, live⟩) {g : Region}
    (hg : g ∈ regs) {k pg : ℕ} (hk : k ≤ 10) (hpg : pg ∈ free g.head k) :
    ∃ l₁ l₂ st', free g.head k = l₁ ++ pg :: l₂ ∧
      kbudPop st (ptr g.head) (4096 * pg) k = some (true, st') ∧
      buddyBitClr (st'.slaves (ptr g.head)) (pg - g.start) k = some (st'.slaves (ptr g.head)) ∧
      Inv st' ⟨regs, setFree free g k (l₁ ++ l₂), ⟨k, pg⟩ :: live⟩ ∧
      Canon st' ⟨regs, setFree free g k (l₁ ++ l₂), ⟨k, pg⟩ :: live⟩ ∧ Keeps live st st' := by
  obtain ⟨l₁, l₂, mem, hlist, hrun, hinv⟩ := kbudPop_spec h hg hk hpg
  exact ⟨l₁, l₂, _, hlist, hrun, (buddyBitClr_again (h.header g hg) k _ _ _ mem).1, hinv,
    hc.unlinked h hg hk l₁ hlist rfl, kbudPop_keeps h hg hk hpg hrun⟩

/-- **Popping the first block** of a list. -/
theorem kbudPopHead_canon (h : Inv st ⟨regs, free, live⟩) (hc : Canon st ⟨regs, free, live⟩)
    {g : Region} (hg : g ∈ regs) {k pg : ℕ} (hk : k ≤ 10) {l : List ℕ}
    (hlist : free g.head k = pg :: l) :
    ∃ st', kbudPopHead st (ptr g.head) k = some (ptr pg, st') ∧
      Inv st' ⟨regs, setFree free g k l, ⟨k, pg⟩ :: live⟩ ∧
      Canon st' ⟨regs, setFree free g k l, ⟨k, pg⟩ :: live⟩ ∧ Keeps live st st' := by
  obtain ⟨c, bits, mem, hrun, hinv⟩ := kbudPopHead_spec h hg hk hlist
  have hmem : pg ∈ free g.head k := by simp [hlist]
  obtain ⟨hpfn, -, hphys, -, -, -⟩ := h.block_facts hg hk hmem
  have hbits := kbudPopHead_bitmap hrun (ptr_ne_kpageErr pg)
  rw [State.setList_slaves_self, SlaveBuddy.set_bitmap, hphys, hpfn] at hbits
  exact ⟨_, hrun, hinv, hc.unlinked h hg hk [] hlist hbits, kbudPopHead_keeps hrun⟩

/-! ### Allocating -/

/-- The upper half of a block in hand has no free block in its pair. -/
theorem Inv.upper_lone {g : Region} {k pg : ℕ} (hr : g.Regular) (hk : k < topOrder g.rpages)
    (hg : g ∈ regs) (h : Inv st ⟨regs, free, ⟨k, pg + 2 ^ k⟩ :: ⟨k, pg⟩ :: live⟩) (hin : g.In ⟨k, pg⟩)
    (hdvd : 2 ^ (k + 1) ∣ pg) :
    ∀ q ∈ free g.head k, g.pair k q ≠ g.pair k (pg + 2 ^ k) := by
  intro q hq hpair
  have htop := topOrder_le g.rpages
  have hl : ListOk st g k (free g.head k) := h.list g hg k (by omega)
  have hstart : g.start ≤ pg := hin.1
  have hstart' : g.start ≤ q := (hl.mem_in q hq).1
  rw [hr.pair_iff hk hstart' (hstart.trans (Nat.le_add_right _ _)),
    Dyad.base_eq (b := pg) hdvd (Nat.le_add_right _ _) (by rw [Nat.pow_succ]; have := Nat.two_pow_pos k; omega)]
    at hpair
  have hfree : (⟨regs, free, ⟨k, pg + 2 ^ k⟩ :: ⟨k, pg⟩ :: live⟩ : Shape).IsFree ⟨k, q⟩ :=
    ⟨g, hg, by dsimp only; omega, hq⟩
  rcases Dyad.eq_base_or k q (hl.dvd q hq) with heq | heq
  · rw [hpair] at heq
    exact (h.sepMix ⟨k, pg⟩ (by simp) _ hfree).pg_ne heq.symm
  · rw [hpair] at heq
    exact (h.sepMix ⟨k, pg + 2 ^ k⟩ (by simp) _ hfree).pg_ne heq.symm

/-- **The halves that are given back** are all pushed. -/
theorem splitLoop_canon {g : Region} {pg : ℕ} (req : ℕ) (hg : g ∈ regs) :
    ∀ (n : ℕ) {st : State} {free : ℕ → ℕ → List ℕ}, Inv st ⟨regs, free, ⟨req + n, pg⟩ :: live⟩ →
      Canon st ⟨regs, free, ⟨req + n, pg⟩ :: live⟩ → g.In ⟨req + n, pg⟩ →
      ∃ st' free', splitLoop (ptr g.head) (ptr pg) req n st = some st' ∧
        Inv st' ⟨regs, free', ⟨req, pg⟩ :: live⟩ ∧ Canon st' ⟨regs, free', ⟨req, pg⟩ :: live⟩ ∧
        (∀ a, (⟨regs, free, ⟨req + n, pg⟩ :: live⟩ : Shape).Holds a →
          (⟨regs, free', ⟨req, pg⟩ :: live⟩ : Shape).Holds a) ∧ Keeps live st st' := by
  intro n
  induction n with
  | zero => intro st free h hc _; exact ⟨st, free, rfl, h, hc, fun _ ha => ha, Keeps.refl _ _⟩
  | succ n ih =>
      intro st free h hc hin
      obtain ⟨hord, hdvd, -⟩ := h.live ⟨req + (n + 1), pg⟩ (by simp)
      have hpow : 2 ^ (req + (n + 1)) = 2 ^ (req + n) + 2 ^ (req + n) := by
        rw [← Nat.add_assoc, Nat.pow_succ]; omega
      have hpos : 0 < 2 ^ (req + n) := Nat.two_pow_pos _
      have hlt := (hin.pg_lt (h.valid g hg)).2
      have hr := hc.regular g hg
      have htop := hr.le_top hin hord
      have hhalve := Inv.halve (k := req + n) h
      have hin' : g.start ≤ pg ∧ pg + 2 ^ (req + (n + 1)) ≤ g.start + g.pages := hin
      have hhi : g.In ⟨req + n, pg + 2 ^ (req + n)⟩ :=
        ⟨by dsimp only; omega, by dsimp only; omega⟩
      have hlo : g.In ⟨req + n, pg⟩ := ⟨hin'.1, by dsimp only; omega⟩
      dsimp only at hlt
      obtain ⟨st₁, hpush, hinv₁, hc₁, hkeep₁⟩ := kbudPush_canon hhalve hc.live_irrel hg hhi fun hk =>
        hhalve.upper_lone hr hk hg hlo hdvd
      obtain ⟨st', free', hrun, hinv', hc', hholds, hkeep⟩ := ih hinv₁ hc₁ hlo
      refine ⟨st', free', ?_, hinv', hc', fun a ha => hholds a ?_,
        (hkeep₁.mono (List.subset_cons_self _ _)).trans hkeep⟩
      · rw [splitLoop, virtToPhysPm_ptr (by omega), xor_buddy (k := req + n) hdvd, hpush,
          Option.bind_eq_bind, Option.bind_some]
        exact hrun
      · exact holds_push hg (hhalve.live _ (by simp)).1 ((holds_halves (k := req + n) a).2 ha)

/-- **An allocation** of a region without a fault: it fails and changes nothing, or a block comes into
use and every page stays in a block. -/
theorem allocLoop_canon (h : Inv st ⟨regs, free, live⟩) (hc : Canon st ⟨regs, free, live⟩) {req : ℕ}
    (hreq : req ≤ 10) :
    ∀ (n i : ℕ), i + n = st.regionCount →
      allocLoop req n i st = some (kpageErr, st) ∨
      ∃ g pg st' free', g ∈ regs ∧ allocLoop req n i st = some (ptr pg, st') ∧ g.In ⟨req, pg⟩ ∧
        Inv st' ⟨regs, free', ⟨req, pg⟩ :: live⟩ ∧ Canon st' ⟨regs, free', ⟨req, pg⟩ :: live⟩ ∧
        (∀ a, (⟨regs, free, live⟩ : Shape).Holds a →
          (⟨regs, free', ⟨req, pg⟩ :: live⟩ : Shape).Holds a) ∧ Keeps live st st' := by
  intro n
  induction n with
  | zero => intro i _; exact Or.inl rfl
  | succ n ih =>
      intro i hi
      obtain ⟨g, hg, hr⟩ := h.region (i := i) (by omega)
      have hs := h.header g hg
      obtain ⟨hge, hle⟩ := findOrder_bounds hs.maxOrder_le pframeMaxOrder req hreq
      have hne : ¬ (findOrder (st.slaves (ptr g.head)) pframeMaxOrder req = pframeMaxOrder ∨
          findOrder (st.slaves (ptr g.head)) pframeMaxOrder req < req) := by
        unfold pframeMaxOrder at hge hle ⊢
        omega
      set order := findOrder (st.slaves (ptr g.head)) pframeMaxOrder req with horder
      cases hlist : free g.head order with
      | nil =>
          -- the region has no block, and the head of its list is refused
          have hchk := h.head_refused hg hle hlist
          have ha : allocLoop req (n + 1) i st = allocLoop req n (i + 1) st := by
            simp only [allocLoop, hr, ptr_ne_kpageErr, if_false, ← horder, hne, kbudPopHead, hchk,
              Bool.false_eq_true, not_false_eq_true, Option.bind_eq_bind, Option.bind_some, if_true]
          rw [ha]
          exact ih (i + 1) (by omega)
      | cons pg l =>
          obtain ⟨st₁, hpop, hinv, hc₁, hkeep₁⟩ := kbudPopHead_canon h hc hg hle hlist
          have hl : ListOk st g order (free g.head order) := h.list g hg order hle
          have hin := hl.mem_in pg (by simp [hlist])
          have hsum : req + (order - req) = order := by omega
          rw [← hsum] at hin
          obtain ⟨st', free', hrun, hinv', hc', hholds, hkeep⟩ := splitLoop_canon req hg (order - req)
            (by rw [hsum]; exact hinv) (by rw [hsum]; exact hc₁) hin
          refine Or.inr ⟨g, pg, st', free', hg, ?_, ?_, hinv', hc', fun a ha => hholds a ?_,
            hkeep₁.trans hkeep⟩
          · exact allocLoop_take hr (ptr_ne_kpageErr _) hne hpop (ptr_ne_kpageErr _) hrun
          · obtain ⟨h₁, h₂⟩ := hin
            have hmono : 2 ^ req ≤ 2 ^ (req + (order - req)) :=
              Nat.pow_le_pow_right (by decide) (Nat.le_add_right _ _)
            exact ⟨h₁, by dsimp only at h₂ ⊢; omega⟩
          · rw [hsum]
            exact holds_unlink [] hlist ha

/-- **`kbud_alloc`** in regular regions. -/
theorem kbudAlloc_canon (h : Inv st ⟨regs, free, live⟩) (hc : Canon st ⟨regs, free, live⟩) (req : ℕ) :
    kbudAlloc st req = some (kpageErr, st) ∨
      ∃ g pg st' free', g ∈ regs ∧ kbudAlloc st req = some (ptr pg, st') ∧ g.In ⟨req, pg⟩ ∧
        Inv st' ⟨regs, free', ⟨req, pg⟩ :: live⟩ ∧ Canon st' ⟨regs, free', ⟨req, pg⟩ :: live⟩ ∧
        (∀ a, (⟨regs, free, live⟩ : Shape).Holds a →
          (⟨regs, free', ⟨req, pg⟩ :: live⟩ : Shape).Holds a) ∧ Keeps live st st' := by
  by_cases hreq : req ≥ pframeMaxOrder
  · exact Or.inl (if_pos hreq)
  have hrun : kbudAlloc st req = allocLoop req st.regionCount 0 st := if_neg hreq
  unfold pframeMaxOrder at hreq
  rw [hrun]
  exact allocLoop_canon h hc (by omega) st.regionCount 0 (Nat.zero_add _)

/-! ### Freeing -/

/-- A free block of the pair of a block in hand is its buddy. -/
theorem Inv.buddy_free {g : Region} {k pg q : ℕ} (h : Inv st ⟨regs, free, ⟨k, pg⟩ :: live⟩)
    (hg : g ∈ regs) (hin : g.In ⟨k, pg⟩) (hq : q ∈ free g.head k) (hpair : g.pair k q = g.pair k pg) :
    q - g.start = (pg - g.start) ^^^ 2 ^ k := by
  obtain ⟨hord, hdvd, -⟩ := h.live ⟨k, pg⟩ (by simp)
  have hl : ListOk st g k (free g.head k) := h.list g hg k hord
  have hstart : g.start ≤ pg := hin.1
  have hstart' : g.start ≤ q := (hl.mem_in q hq).1
  have hap := (h.sepMix ⟨k, pg⟩ (by simp) ⟨k, q⟩ ⟨g, hg, hord, hq⟩).pg_ne
  dsimp only at hap
  refine buddy_of_pair (s := g.start) ?_ ?_ (by omega) hpair
  · rw [Nat.add_sub_of_le hstart']
    exact hl.dvd q hq
  · rw [Nat.add_sub_of_le hstart]
    exact hdvd

/-- **The loop goes on exactly at a free buddy**, below the largest order. -/
theorem Canon.buddyFree_true {g : Region} {k pg : ℕ} (h : Inv st ⟨regs, free, ⟨k, pg⟩ :: live⟩)
    (hc : Canon st ⟨regs, free, ⟨k, pg⟩ :: live⟩) (hg : g ∈ regs) (hin : g.In ⟨k, pg⟩)
    (hk : k < topOrder g.rpages) {q : ℕ} (hq : q ∈ free g.head k) (hpair : g.pair k q = g.pair k pg) :
    buddyFree (st.slaves (ptr g.head)) (pg - g.start) k = some true := by
  have hs := h.header g hg
  have htop := topOrder_le g.rpages
  have hl : ListOk st g k (free g.head k) := h.list g hg k (by omega)
  have hbuddy := h.buddy_free hg hin hq hpair
  have hinq := hl.mem_in q hq
  obtain ⟨h₁, h₂⟩ := hinq
  have hpos : 0 < 2 ^ k := Nat.two_pow_pos k
  dsimp only at h₁ h₂
  have hlt : ¬ q - g.start ≥ (st.slaves (ptr g.head)).totalPages := by
    rw [hs.totalPages]
    omega
  have hchk : buddyBitChk (st.slaves (ptr g.head)) (q - g.start) k = true :=
    (hs.chk _ _).2 (hl.accepts q hq)
  have hbit := hc.bit g hg k hk q hq
  unfold buddyFree
  simp only [← hbuddy, hlt, if_false, hchk, not_true_eq_false]
  rw [buddyBitGet, if_neg (hs.arr k), kbudPairIdx]
  exact congrArg some hbit

/-- The loop stops at the largest order of a small region. -/
theorem Canon.buddyFree_top {g : Region} {k pg : ℕ} (h : Inv st ⟨regs, free, ⟨k, pg⟩ :: live⟩)
    (hc : Canon st ⟨regs, free, ⟨k, pg⟩ :: live⟩) (hg : g ∈ regs) (hin : g.In ⟨k, pg⟩) (hk : k < 10)
    (htop : ¬ k < topOrder g.rpages) :
    buddyFree (st.slaves (ptr g.head)) (pg - g.start) k = some false := by
  have hr := hc.regular g hg
  have hle := hr.le_top hin (by omega)
  rcases buddyFree_cases (h.header g hg) (pg - g.start) k with hstop | ⟨-, -, hbit⟩
  · exact hstop
  -- two blocks of the largest order do not fit
  have hl : ListOk st g k (free g.head k) := h.list g hg k (by omega)
  obtain ⟨q, hq, -⟩ := hl.bit _ hbit
  have hap := h.sepMix ⟨k, pg⟩ (by simp) ⟨k, q⟩ ⟨g, hg, by dsimp only; omega, hq⟩
  obtain ⟨h₁, h₂⟩ := hl.mem_in q hq
  obtain ⟨h₃, h₄⟩ := hin
  have hpow : 2 ^ (k + 1) = 2 ^ k + 2 ^ k := by rw [Nat.pow_succ]; omega
  have hktop : k = topOrder g.rpages := by omega
  have hsmall := hr.small
  rw [← hktop, hpow] at hsmall
  unfold Apart at hap
  dsimp only at h₁ h₂ h₃ h₄ hap
  omega

/-- A block and its buddy lie in the merged block. -/
theorem merged_subset {s k pg pg' q : ℕ} (hlt : pg - s < 2 ^ 64) (hk : k < 64) (hpg : s ≤ pg)
    (hpg' : s ≤ pg') (hsq : s ≤ q) (hbuddy : pg' - s = (pg - s) ^^^ 2 ^ k)
    (hq : q - s = (pg - s) &&& Word.not (2 ^ k)) :
    block k pg' ⊆ block (k + 1) q ∧ block k pg ⊆ block (k + 1) q := by
  rw [Word.xor_two_pow] at hbuddy
  rw [Word.and_not_two_pow hlt hk] at hq
  rw [Dyad.block_succ]
  cases hbit : (pg - s).testBit k with
  | false =>
      rw [hbit] at hbuddy hq
      simp only [Bool.false_eq_true, if_false] at hbuddy hq
      obtain rfl : q = pg := by omega
      obtain rfl : pg' = q + 2 ^ k := by omega
      exact ⟨Set.subset_union_right, Set.subset_union_left⟩
  | true =>
      have hge := Nat.ge_two_pow_of_testBit hbit
      rw [hbit] at hbuddy hq
      simp only [if_true] at hbuddy hq
      obtain rfl : q = pg' := by omega
      obtain rfl : pg = q + 2 ^ k := by omega
      exact ⟨Set.subset_union_left, Set.subset_union_right⟩

/-- **A merge** takes the buddy from its list. -/
theorem Canon.mergeTurn {g : Region} {k pg : ℕ} (h : Inv st ⟨regs, free, ⟨k, pg⟩ :: live⟩)
    (hc : Canon st ⟨regs, free, ⟨k, pg⟩ :: live⟩) (hg : g ∈ regs) (hin : g.In ⟨k, pg⟩)
    (hk : k < topOrder g.rpages) (hgo : buddyFree (st.slaves (ptr g.head)) (pg - g.start) k = some true)
    (n : ℕ) :
    ∃ q st' free', coalesce (ptr g.head) (n + 1) st (pg - g.start) k =
        coalesce (ptr g.head) n st' (q - g.start) (k + 1) ∧ g.In ⟨k + 1, q⟩ ∧
      Inv st' ⟨regs, free', ⟨k + 1, q⟩ :: live⟩ ∧ Canon st' ⟨regs, free', ⟨k + 1, q⟩ :: live⟩ ∧
      (∀ a, (⟨regs, free, ⟨k, pg⟩ :: live⟩ : Shape).Holds a →
        (⟨regs, free', ⟨k + 1, q⟩ :: live⟩ : Shape).Holds a) ∧ Keeps live st st' := by
  have hs := h.header g hg
  have htop := topOrder_le g.rpages
  have hl : ListOk st g k (free g.head k) := h.list g hg k (by omega)
  have hbit : (st.slaves (ptr g.head)).bitmap k ((pg - g.start) / 2 ^ (k + 1)) = true := by
    rcases buddyFree_cases hs (pg - g.start) k with hstop | ⟨-, -, hbit⟩
    · rw [hgo] at hstop
      cases hstop
    · exact hbit
  obtain ⟨pg', hpg', hpair⟩ := hl.bit _ hbit
  have hbuddy := h.buddy_free hg hin hpg' hpair
  have hin' := hl.mem_in pg' hpg'
  have hlt := (hin'.pg_lt (h.valid g hg)).2
  have hstart : g.start ≤ pg := hin.1
  dsimp only at hlt
  obtain ⟨l₁, l₂, st₁, hlist, hpop, hclr, hinv₁, hc₁, hkeep⟩ :=
    kbudPop_canon h hc hg (by omega) hpg'
  have haddr : Word.add (st.slaves (ptr g.head)).mbase ((pg' - g.start) * 4096) = 4096 * pg' := by
    have hle : g.start ≤ pg' := hin'.1
    rw [hs.mbase, Word.add_of_lt (by omega)]
    omega
  have hbits := (hc.regular g hg).testBit_eq hk (pg - g.start)
  rw [Nat.add_sub_of_le hstart] at hbits
  obtain ⟨q, hq, hinq, hinvq, -⟩ := hinv₁.mergeBuddy hg (by omega) hin hin' hbuddy hbits
  refine ⟨q, st₁, _, ?_, hinq, hinvq, hc₁.live_irrel, fun a ha => ?_,
    hkeep.mono (List.subset_cons_self _ _)⟩
  · rw [coalesce_merge hgo hbuddy.symm haddr hpop hclr, hq, State.setSlave, Function.update_eq_self]
  · have hltpg := (hin.pg_lt (h.valid g hg)).2
    dsimp only at hltpg
    obtain ⟨hsub', hsub⟩ :=
      merged_subset (by omega) (by omega) hstart hin'.1 hinq.1 hbuddy hq
    refine holds_live (fun b hb hab => ?_) (holds_unlink l₁ hlist ha)
    rcases List.mem_cons.1 hb with rfl | hb
    · exact ⟨⟨k + 1, q⟩, by simp, hsub' hab⟩
    rcases List.mem_cons.1 hb with rfl | hb
    · exact ⟨⟨k + 1, q⟩, by simp, hsub hab⟩
    · exact ⟨b, by simp [hb], hab⟩

/-- **The merges** end with a block whose pair has no free block. -/
theorem coalesce_canon {g : Region} (hg : g ∈ regs) :
    ∀ (n : ℕ) {st : State} {free : ℕ → ℕ → List ℕ} {k pg : ℕ},
      Inv st ⟨regs, free, ⟨k, pg⟩ :: live⟩ → Canon st ⟨regs, free, ⟨k, pg⟩ :: live⟩ →
      g.In ⟨k, pg⟩ → k + n = 10 →
      ∃ pg' k' st' free', coalesce (ptr g.head) n st (pg - g.start) k =
          some (pg' - g.start, k', st') ∧ g.In ⟨k', pg'⟩ ∧
        Inv st' ⟨regs, free', ⟨k', pg'⟩ :: live⟩ ∧ Canon st' ⟨regs, free', ⟨k', pg'⟩ :: live⟩ ∧
        (k' < topOrder g.rpages → ∀ q ∈ free' g.head k', g.pair k' q ≠ g.pair k' pg') ∧
        (∀ a, (⟨regs, free, ⟨k, pg⟩ :: live⟩ : Shape).Holds a →
          (⟨regs, free', ⟨k', pg'⟩ :: live⟩ : Shape).Holds a) ∧ Keeps live st st' := by
  intro n
  induction n with
  | zero =>
      intro st free k pg h hc hin hkn
      have htop := topOrder_le g.rpages
      exact ⟨pg, k, st, free, rfl, hin, h, hc, fun hk => by omega, fun _ ha => ha, Keeps.refl _ _⟩
  | succ n ih =>
      intro st free k pg h hc hin hkn
      have hstop : buddyFree (st.slaves (ptr g.head)) (pg - g.start) k = some false →
          coalesce (ptr g.head) (n + 1) st (pg - g.start) k = some (pg - g.start, k, st) := by
        intro hfalse
        simp only [coalesce, hfalse, Option.bind_eq_bind, Option.bind_some, Bool.false_eq_true,
          if_false]
      by_cases hk : k < topOrder g.rpages
      · rcases buddyFree_cases (h.header g hg) (pg - g.start) k with hfalse | ⟨hgo, -, -⟩
        · refine ⟨pg, k, st, free, hstop hfalse, hin, h, hc, fun _ q hq hpair => ?_, fun _ ha => ha,
            Keeps.refl _ _⟩
          rw [hc.buddyFree_true h hg hin hk hq hpair] at hfalse
          cases hfalse
        · obtain ⟨q, st₁, free₁, hturn, hinq, hinvq, hcq, hholds, hkeep⟩ :=
            hc.mergeTurn h hg hin hk hgo n
          obtain ⟨pg', k', st', free', hrun, hin', hinv', hc', hlone, hholds', hkeep'⟩ :=
            ih hinvq hcq hinq (by omega)
          exact ⟨pg', k', st', free', hturn.trans hrun, hin', hinv', hc', hlone,
            fun a ha => hholds' a (hholds a ha), hkeep.trans hkeep'⟩
      · exact ⟨pg, k, st, free, hstop (hc.buddyFree_top h hg hin (by omega) hk), hin, h, hc,
          fun hk' => absurd hk' hk, fun _ ha => ha, Keeps.refl _ _⟩

/-- **`kbud_free`** in regular regions: the block is free afterwards, merged as far as it goes. -/
theorem kbudFree_canon {b : Blk} (h : Inv st ⟨regs, free, b :: live⟩)
    (hc : Canon st ⟨regs, free, b :: live⟩) :
    ∃ st' free', kbudFree st (ptr b.pg) b.ord = some st' ∧ Inv st' ⟨regs, free', live⟩ ∧
      Canon st' ⟨regs, free', live⟩ ∧
      (∀ a, (⟨regs, free, b :: live⟩ : Shape).Holds a → (⟨regs, free', live⟩ : Shape).Holds a) ∧
      Keeps live st st' := by
  have hord : b.ord ≤ 10 := (h.live b (by simp)).1
  obtain ⟨g, hg, hin, hfind, hpfn⟩ := h.find_block
  obtain ⟨pg', k', st₁, free₁, hrun, hin', hinv, hc₁, hlone, hholds, hkeep⟩ :=
    coalesce_canon hg (pframeMaxOrder - 1 - b.ord) h hc hin (by unfold pframeMaxOrder; omega)
  obtain ⟨st₂, hpush, hinv₂, hc₂, hkeep'⟩ := kbudPush_canon hinv hc₁ hg hin' hlone
  have hlt' := (hin'.pg_lt (h.valid g hg)).2
  have hstart' : g.start ≤ pg' := hin'.1
  dsimp only at hlt'
  have haddr : Word.add (st₁.slaves (ptr g.head)).mbase ((pg' - g.start) * 4096) = 4096 * pg' := by
    rw [(hinv.header g hg).mbase, Word.add_of_lt (by omega)]
    omega
  exact ⟨st₂, _, kbudFree_eq hfind (ptr_ne_kpageErr _) (by rw [hpfn]; exact hrun) haddr hpush, hinv₂,
    hc₂, fun a ha => holds_push hg (hinv.live _ (by simp)).1 (hholds a ha), hkeep.trans hkeep'⟩

end Buddy

end SyncKernel
