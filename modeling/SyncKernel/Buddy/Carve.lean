/-
**Which pages a donation loses.**

`kbud_free_range` walks a range from its first page behind the header and pushes the largest aligned
block each time, up to the largest order of the region: it pushes the maximal dyadic blocks of the
range.  A push is refused when the bitmap has no bit for the pair of the block, and the number of
pairs is that of the whole region, header included, rounded down.  So a donation is complete exactly
when no maximal block starts in the pages of the region that have no whole pair.

Main definitions:

* `Buddy.topOrder` — the largest order of a region;
* `Buddy.kbudFreeRangeAnswers` — the answers of the pushes of a call;
* `Buddy.Complete` — what a complete donation leaves;
* `Buddy.TailFree` — every maximal block of the range has a pair.

Main results:

* `Buddy.rangeOrder_greedy` — the loop takes the greedy order;
* `Buddy.carve_spec` — **the loop pushes the maximal blocks**;
* `Buddy.donation_complete_iff` — **the complete donations**.
-/

import SyncKernel.Lib.Dyadic
import SyncKernel.Buddy.System

set_option relaxedAutoImplicit false
set_option autoImplicit false

namespace SyncKernel

namespace Buddy

open Dyad (Maximal Greedy)

variable {st : State}

/-! ### The largest order -/

/-- The largest order of a region of `rpages` pages. -/
def topOrder (rpages : ℕ) : ℕ := min 10 (rpages.log2 - 1)

/-- The largest order that the loop of `kbud_init_region` leaves in a header. -/
theorem initBitmaps_maxOrder (rpages : ℕ) :
    ∀ (n i : ℕ) (s : SlaveBuddy) (cur : ℕ), i + n = pframeMaxOrder →
      (n = 0 ∨ rpages / 2 ^ (i + 1) = 0 → (initBitmaps rpages n i s cur).1.maxOrder = s.maxOrder) ∧
      (n ≠ 0 → rpages / 2 ^ (i + 1) ≠ 0 →
        (initBitmaps rpages n i s cur).1.maxOrder = topOrder rpages) := by
  intro n
  induction n with
  | zero => intro i s cur _; exact ⟨fun _ => rfl, fun h => absurd rfl h⟩
  | succ n ih =>
      intro i s cur hi
      unfold pframeMaxOrder at hi ih
      constructor
      · intro h
        have hzero : rpages / 2 ^ (i + 1) = 0 := h.resolve_left (Nat.succ_ne_zero n)
        simp only [initBitmaps, hzero, if_true]
      · intro _ hbits
        have hrun : (initBitmaps rpages (n + 1) i s cur).1.maxOrder =
            (initBitmaps rpages n (i + 1)
              { s with
                bitmapArr := Function.update s.bitmapArr i cur
                maxbits := Function.update s.maxbits i (rpages / 2 ^ (i + 1))
                maxOrder := i }
              (Word.add cur (Word.alignUp ((rpages / 2 ^ (i + 1) + 7) / 8) bitmapAlign))).1.maxOrder := by
          simp only [initBitmaps, hbits, if_false]
        rw [hrun]
        have hge : 2 ^ (i + 1) ≤ rpages := by
          by_contra hlt
          exact hbits (Nat.div_eq_of_lt (by omega))
        have hne : rpages ≠ 0 := by
          have hpos := Nat.two_pow_pos (i + 1)
          omega
        have hlog : i + 1 ≤ rpages.log2 := (Nat.le_log2 hne).2 hge
        obtain ⟨hstop, hgo⟩ := ih (i + 1)
          { s with
            bitmapArr := Function.update s.bitmapArr i cur
            maxbits := Function.update s.maxbits i (rpages / 2 ^ (i + 1))
            maxOrder := i }
          (Word.add cur (Word.alignUp ((rpages / 2 ^ (i + 1) + 7) / 8) bitmapAlign)) (by omega)
        by_cases hlast : n = 0 ∨ rpages / 2 ^ (i + 1 + 1) = 0
        · rw [hstop hlast, topOrder]
          dsimp only
          rcases hlast with hn | hzero
          · omega
          · have hlt : rpages < 2 ^ (i + 1 + 1) :=
              (Nat.div_eq_zero_iff_lt (Nat.two_pow_pos _)).1 hzero
            have hlog' := (Nat.log2_lt hne).2 hlt
            omega
        · rw [not_or] at hlast
          exact hgo hlast.1 hlast.2

/-- The largest order of a region that was set up. -/
theorem kbudInitRegion_maxOrder (st : State) (phy len : ℕ)
    (hle : ((kbudInitRegion st phy len).slaves (physToVirtPm phy)).maxOrder ≤ 10)
    (hlen : 2 ≤ pageAlignDown len / 4096) :
    ((kbudInitRegion st phy len).slaves (physToVirtPm phy)).maxOrder =
      topOrder (pageAlignDown len / 4096) := by
  have hbits : pageAlignDown len / 4096 / 2 ^ (0 + 1) ≠ 0 := by omega
  have hmax := fun s cur => (initBitmaps_maxOrder (pageAlignDown len / 4096) pframeMaxOrder 0 s cur
    (Nat.zero_add _)).2 (by decide) hbits
  generalize hrun : (kbudInitRegion st phy len).slaves (physToVirtPm phy) = s' at hle ⊢
  unfold kbudInitRegion at hrun
  dsimp only at hrun
  split_ifs at hrun with hrej
  · -- a rejected region has an order that is too large
    rw [kbudMarkInvalid] at hrun
    dsimp only at hrun
    rw [Function.update_self] at hrun
    rw [← hrun] at hle
    exact absurd (show 2 ^ 32 - 1 ≤ 10 from hle) (by decide)
  · rw [State.setSlave] at hrun
    dsimp only at hrun
    rw [Function.update_self] at hrun
    rw [← hrun]
    exact hmax _ _

/-! ### The greedy order -/

/-- **The loop takes the greedy order.** -/
theorem rangeOrder_greedy {s : SlaveBuddy} (hs : s.maxOrder ≤ 10) {cur m : ℕ} (hcur : 0 < cur)
    (hcur' : cur < 2 ^ 35) (hm : 0 < m) (hm' : m < 2 ^ 35) :
    Greedy s.maxOrder cur m (rangeOrder s (4096 * cur) (4096 * m)) := by
  obtain ⟨-, hdvd, hle⟩ := rangeOrder_spec s cur hm hm'
  refine ⟨Nat.min_le_left _ _, hdvd, hle, fun hlt hnext => ?_⟩
  by_contra hge
  have hlen : 63 - Word.clz (4096 * m / pageSize) = m.log2 := by
    rw [show pageSize = 4096 from rfl, Nat.mul_div_cancel_left _ (by decide)]
    exact Word.sub_clz (by omega) (by omega)
  have hlog : rangeOrder s (4096 * cur) (4096 * m) + 1 ≤ m.log2 :=
    (Nat.le_log2 (by omega)).2 (by omega)
  have hptr : rangeOrder s (4096 * cur) (4096 * m) + 1 ≤ kbudOrderIdx (4096 * cur) := by
    have hdvd' : 2 ^ (12 + (rangeOrder s (4096 * cur) (4096 * m) + 1)) ∣ 4096 * cur := by
      rw [Nat.pow_add]
      exact Nat.mul_dvd_mul_left _ hnext
    unfold kbudOrderIdx
    by_contra hlt'
    refine Word.not_two_pow_ctz_dvd (a := 4096 * cur) (by omega) (by omega)
      ((Nat.pow_dvd_pow 2 ?_).trans hdvd')
    omega
  have hdef : rangeOrder s (4096 * cur) (4096 * m) = min s.maxOrder (min (pframeMaxOrder - 1)
      (min m.log2 (kbudOrderIdx (4096 * cur)))) := by
    unfold rangeOrder
    rw [hlen]
  unfold pframeMaxOrder at hdef
  omega

/-! ### The answers of the pushes -/

/-- The answers of the pushes that the loop of `kbud_free_range` makes. -/
def freeRangeAnswers (r : ℕ) : ℕ → State → ℕ → ℕ → List Bool
  | 0, _, _, _ => []
  | n + 1, st, phys, size =>
      if size = 0 then []
      else
        match kbudPush st r phys (rangeOrder (st.slaves r) phys size) with
        | none => [false]
        | some (a, st₁) =>
            a :: freeRangeAnswers r n st₁
              (Word.add phys (pageSize * 2 ^ rangeOrder (st.slaves r) phys size))
              (Word.sub size (pageSize * 2 ^ rangeOrder (st.slaves r) phys size))

theorem freeRangeAnswers_step {r n phys size : ℕ} {a : Bool} {st₁ : State} (hsize : size ≠ 0)
    (hpush : kbudPush st r phys (rangeOrder (st.slaves r) phys size) = some (a, st₁)) :
    freeRangeAnswers r (n + 1) st phys size = a :: freeRangeAnswers r n st₁
      (Word.add phys (pageSize * 2 ^ rangeOrder (st.slaves r) phys size))
      (Word.sub size (pageSize * 2 ^ rangeOrder (st.slaves r) phys size)) := by
  rw [freeRangeAnswers, if_neg hsize, hpush]

/-! ### The loop -/

/-- **A push of a block in hand** says whether the region has a bit for it, and puts it on its list
exactly then. -/
theorem kbudPush_answer {g : Region} {free : ℕ → ℕ → List ℕ} {b : Blk}
    (h : Inv st ⟨[g], free, [b]⟩) (hin : g.In b) :
    ∃ a st₁ free₁, kbudPush st (ptr g.head) (4096 * b.pg) b.ord = some (a, st₁) ∧
      Inv st₁ ⟨[g], free₁, []⟩ ∧
      (st₁.slaves (ptr g.head)).maxOrder = (st.slaves (ptr g.head)).maxOrder ∧
      (a = true ↔ g.Accepts b) ∧
      ∀ k pg, pg ∈ free₁ g.head k ↔
        pg ∈ free g.head k ∨ (k = b.ord ∧ pg = b.pg) ∧ g.Accepts b := by
  have hg : g ∈ [g] := List.mem_cons_self
  by_cases hacc : g.Accepts b
  · obtain ⟨c, bits, mem, hpush, hinv⟩ := kbudPush_spec h hg hin hacc
    refine ⟨true, _, _, hpush, hinv, by rw [State.setList_slaves_self]; rfl,
      ⟨fun _ => hacc, fun _ => rfl⟩, fun k pg => ?_⟩
    by_cases hk : k = b.ord
    · rw [hk, setFree_self, List.mem_cons]
      simp only [true_and, hacc, and_true]
      exact Or.comm
    · rw [setFree_of_ne (Or.inr hk)]
      simp only [hk, false_and, or_false]
  · refine ⟨false, st, free, kbudPush_refused h hg hin hacc, h.drop, rfl,
      ⟨fun he => (by cases he), fun ha => absurd ha hacc⟩, fun k pg => ?_⟩
    simp only [hacc, and_false, or_false]

/-- **The loop pushes the maximal blocks** of the pages that are left; it loses those that the region
has no bit for, and only those. -/
theorem carve_spec {g : Region} :
    ∀ (n m cur : ℕ) {st : State} {free : ℕ → ℕ → List ℕ}, Inv st ⟨[g], free, []⟩ →
      cur + m = g.start + g.pages → g.start ≤ cur → m < n →
      (∀ b, (⟨[g], free, []⟩ : Shape).IsFree b → b.pg + 2 ^ b.ord ≤ cur) →
      ∃ st' free', freeRangeLoop (ptr g.head) n st (4096 * cur) (4096 * m) = some st' ∧
        Inv st' ⟨[g], free', []⟩ ∧
        (∀ k ≤ 10, ∀ pg, pg ∈ free' g.head k ↔ pg ∈ free g.head k ∨
          Maximal cur (cur + m) (st.slaves (ptr g.head)).maxOrder k pg ∧ g.Accepts ⟨k, pg⟩) ∧
        ((∀ a ∈ freeRangeAnswers (ptr g.head) n st (4096 * cur) (4096 * m), a = true) ↔
          ∀ k pg, Maximal cur (cur + m) (st.slaves (ptr g.head)).maxOrder k pg →
            g.Accepts ⟨k, pg⟩) := by
  intro n
  induction n with
  | zero => intro m cur st free _ _ _ hm _; exact absurd hm (Nat.not_lt_zero m)
  | succ n ih =>
      intro m cur st free h hsum hstart hm hbelow
      have hg : g ∈ [g] := List.mem_cons_self
      have hv := h.valid g hg
      have hs := h.header g hg
      have hsum' := hv.sum
      have hle := hv.le
      have hlt := hv.lt
      rcases Nat.eq_zero_or_pos m with rfl | hpos
      · have hnone : ∀ k pg, ¬ Maximal cur (cur + 0) (st.slaves (ptr g.head)).maxOrder k pg := by
          intro k pg hmax
          have h₁ := hmax.fits.le
          have h₂ := hmax.fits.end_le
          have h₃ := Nat.two_pow_pos k
          omega
        refine ⟨st, free, rfl, h, fun k _ pg => ⟨Or.inl, ?_⟩,
          ⟨fun _ k pg hmax => absurd hmax (hnone k pg), fun _ a ha => absurd ha List.not_mem_nil⟩⟩
        rintro (hpg | ⟨hmax, -⟩)
        · exact hpg
        · exact absurd hmax (hnone k pg)
      obtain ⟨hord, hdvd, hfits⟩ :=
        rangeOrder_spec (st.slaves (ptr g.head)) cur hpos (by omega)
      have hgreedy := rangeOrder_greedy hs.maxOrder_le (by omega : 0 < cur) (by omega) hpos (by omega)
      generalize horder : rangeOrder (st.slaves (ptr g.head)) (4096 * cur) (4096 * m) = ord
        at hord hdvd hfits hgreedy
      have hin : g.In ⟨ord, cur⟩ := ⟨hstart, by dsimp only; omega⟩
      have htake := h.take hg hin hord hdvd (fun f hf => Or.inr (hbelow f hf)) fun a ha =>
        absurd ha List.not_mem_nil
      have hadd := add_block (show 4096 * (cur + 2 ^ ord) < 2 ^ 64 by omega)
      have hsub := sub_block (show 2 ^ ord ≤ m by omega) (show 4096 * m < 2 ^ 64 by omega)
      have hpow := Nat.two_pow_pos ord
      have hrest : cur + 2 ^ ord + (m - 2 ^ ord) = cur + m := by omega
      obtain ⟨a, st₁, free₁, hpush, hinv₁, hmax₁, ha, hmem₁⟩ := kbudPush_answer htake hin
      have hbelow₁ : ∀ b, (⟨[g], free₁, []⟩ : Shape).IsFree b → b.pg + 2 ^ b.ord ≤ cur + 2 ^ ord := by
        rintro b ⟨g', hg', hk, hpg⟩
        obtain rfl := List.mem_singleton.1 hg'
        rcases (hmem₁ _ _).1 hpg with hpg | ⟨⟨hk', hpg'⟩, -⟩
        · exact (hbelow b ⟨g', hg', hk, hpg⟩).trans (Nat.le_add_right _ _)
        · rw [hk', hpg']
      obtain ⟨st', free', hrun, hinv', hmem', hans⟩ :=
        ih (m - 2 ^ ord) (cur + 2 ^ ord) hinv₁ (by omega) (by omega) (by omega) hbelow₁
      rw [hmax₁, hrest] at hmem' hans
      have hcons := fun k pg => hgreedy.maximal_iff (j := k) (b := pg)
      refine ⟨st', free', ?_, hinv', fun k hk pg => ?_, ?_⟩
      · rw [freeRangeLoop_step (by omega) (by rw [horder]; exact hpush), horder, hadd, hsub]
        exact hrun
      · rw [hmem' k hk, hmem₁, hcons]
        constructor
        · rintro ((hpg | ⟨⟨rfl, rfl⟩, hacc⟩) | ⟨hmax, hacc⟩)
          · exact Or.inl hpg
          · exact Or.inr ⟨Or.inl ⟨rfl, rfl⟩, hacc⟩
          · exact Or.inr ⟨Or.inr hmax, hacc⟩
        · rintro (hpg | ⟨⟨rfl, rfl⟩ | hmax, hacc⟩)
          · exact Or.inl (Or.inl hpg)
          · exact Or.inl (Or.inr ⟨⟨rfl, rfl⟩, hacc⟩)
          · exact Or.inr ⟨hmax, hacc⟩
      · rw [freeRangeAnswers_step (by omega) (by rw [horder]; exact hpush), horder, hadd, hsub,
          List.forall_mem_cons, ha, hans]
        constructor
        · rintro ⟨hfirst, hall⟩ k pg hmax
          rcases (hcons k pg).1 hmax with ⟨rfl, rfl⟩ | hmax
          · exact hfirst
          · exact hall k pg hmax
        · intro hall
          exact ⟨hall ord cur hgreedy.maximal, fun k pg hmax => hall k pg ((hcons k pg).2 (Or.inr hmax))⟩

/-! ### The table -/

/-- The state with another table of regions. -/
def State.withTable (st : State) (regions : ℕ → ℕ) (count : ℕ) : State :=
  { st with regions := regions, regionCount := count }

/-- A push does not look at the table. -/
theorem kbudPush_withTable (st : State) (f : ℕ → ℕ) (c r phy ord : ℕ) :
    kbudPush (st.withTable f c) r phy ord =
      (kbudPush st r phy ord).map fun x => (x.1, x.2.withTable f c) := by
  unfold kbudPush
  dsimp only [State.withTable]
  split_ifs
  · generalize buddyBitSet _ _ _ = s'
    cases s' with
    | none => rfl
    | some s' => rfl
  · rfl

/-- The loop does not look at the table. -/
theorem freeRangeLoop_withTable (f : ℕ → ℕ) (c r : ℕ) :
    ∀ (n : ℕ) (st : State) (phys size : ℕ),
      freeRangeLoop r n (st.withTable f c) phys size =
          (freeRangeLoop r n st phys size).map (fun st => st.withTable f c) ∧
        freeRangeAnswers r n (st.withTable f c) phys size = freeRangeAnswers r n st phys size := by
  intro n
  induction n with
  | zero => intro st phys size; exact ⟨rfl, rfl⟩
  | succ n ih =>
      intro st phys size
      have hpush := kbudPush_withTable st f c r phys (rangeOrder (st.slaves r) phys size)
      have hslaves : (st.withTable f c).slaves r = st.slaves r := rfl
      rw [freeRangeLoop, freeRangeLoop, freeRangeAnswers, freeRangeAnswers, hslaves]
      dsimp only
      rw [hpush]
      split_ifs
      · exact ⟨rfl, rfl⟩
      · cases kbudPush st r phys (rangeOrder (st.slaves r) phys size) with
        | none => exact ⟨rfl, rfl⟩
        | some x =>
            obtain ⟨a, st₁⟩ := x
            exact ⟨(ih st₁ _ _).1, congrArg (a :: ·) (ih st₁ _ _).2⟩

/-- The loop leaves the table alone. -/
theorem freeRangeLoop_table {r n phys size : ℕ} {st' : State}
    (h : freeRangeLoop r n st phys size = some st') :
    st'.regions = st.regions ∧ st'.regionCount = st.regionCount := by
  have hsame := (freeRangeLoop_withTable st.regions st.regionCount r n st phys size).1
  rw [show st.withTable st.regions st.regionCount = st from rfl, h, Option.map_some] at hsame
  have heq : st' = st'.withTable st.regions st.regionCount := Option.some_inj.1 hsame
  rw [heq]
  exact ⟨rfl, rfl⟩

/-! ### The donation -/

/-- The answers of the pushes that a call of `kbud_free_range` makes. -/
def kbudFreeRangeAnswers (st : State) (vaddr len : ℕ) : List Bool :=
  let phys := pageAlignDown (virtToPhysPm vaddr)
  let s := findValidSlave st phys
  let size := pageAlignDown len
  if s = kpageErr then
    match kbudAddRegion st phys len with
    | none => []
    | some (r, st₁) =>
        if r = kpageErr then []
        else
          let s := st₁.slaves r
          let offs := Word.alignUp (Word.sub s.mbase s.rbase) pageSize
          freeRangeAnswers r addrSpace st₁ (Word.add phys offs) (Word.sub size offs)
  else freeRangeAnswers s addrSpace st phys size

/-- The page `a` lies in the block, which is on the free list of its order in the region at `r`. -/
def OnList (st : State) (r a : ℕ) (b : ℕ × ℕ) : Prop :=
  b.2 < pframeMaxOrder ∧ b.1 ∈ freeList st r b.2 ∧
    virtToPhysPm b.1 ≤ pageSize * a ∧ pageSize * a < virtToPhysPm b.1 + pageSize * 2 ^ b.2

/-- **A complete donation** of the range at `phy`: the call added the region, each page that the
region hands out lies in exactly one block of exactly one of its free lists, and no push was
refused. -/
structure Complete (st : State) (phy len : ℕ) (st' : State) : Prop where
  added : st'.regionCount = st.regionCount + 1 ∧
    physToVirtPm phy ∈ (List.range st'.regionCount).map st'.regions
  once : ∀ a, (st'.slaves (physToVirtPm phy)).mbase ≤ pageSize * a →
    pageSize * a < (st'.slaves (physToVirtPm phy)).mbase +
      (st'.slaves (physToVirtPm phy)).totalPages * pageSize →
    ∃! b, OnList st' (physToVirtPm phy) a b
  nodup : ∀ k < pframeMaxOrder, (freeList st' (physToVirtPm phy) k).Nodup
  accepted : ∀ a ∈ kbudFreeRangeAnswers st (physToVirtPm phy) len, a = true

/-- Every maximal block of the pages behind the header of a range of `m` pages at the page `p` starts
in a pair of its order that lies in the first `m` pages behind the header. -/
def TailFree (p m : ℕ) : Prop :=
  ∀ k < pframeMaxOrder, ∀ pg < p + m, Maximal (p + headerPages m) (p + m) (topOrder m) k pg →
    (pg - (p + headerPages m)) / 2 ^ (k + 1) < m / 2 ^ (k + 1)

instance (p m : ℕ) : Decidable (TailFree p m) :=
  inferInstanceAs (Decidable (∀ k < pframeMaxOrder, ∀ pg < p + m, _ → _))

/-- **The new region** before the loop, seen as the only one: its lists are empty. -/
theorem newRegion_spec {p m : ℕ} (hend : 4096 * p + 4096 * m ≤ 2 ^ 46) (hfit : headerPages m < m)
    (hroom : st.regionCount + 1 < pframeMaxRegions) :
    ∃ st₁, kbudAddRegion st (4096 * p) (4096 * m) = some (ptr p, st₁) ∧
      Inv (st₁.withTable (fun _ => ptr p) 1) ⟨[donated p (4096 * m)], fun _ _ => [], []⟩ ∧
      (st₁.slaves (ptr p)).maxOrder = topOrder m ∧ st₁.regionCount = st.regionCount + 1 ∧
      ptr p ∈ (List.range st₁.regionCount).map st₁.regions := by
  have hphys : physToVirtPm (4096 * p) = ptr p := physToVirtPm_page (by omega)
  have hm : 4096 * m / 4096 = m := Nat.mul_div_cancel_left m (by decide)
  have hfit' : 4096 * headerPages (4096 * m / 4096) < 4096 * m := by
    rw [hm]
    omega
  obtain ⟨s, hinit, hadd, hok, hcnt, hbits⟩ :=
    kbudAddRegion_accept (p := p) (by omega) (by omega) hfit' hroom
  have hself : ((st.enter (ptr p)).setSlave (ptr p) s).slaves (ptr p) = s := Function.update_self ..
  have hmax := kbudInitRegion_maxOrder (st.enter (ptr p)) (4096 * p) (4096 * m)
  rw [hphys, hinit, hself, pageAlignDown_eq (by omega), hm, Nat.mul_div_cancel _ (by decide)] at hmax
  have hpos := headerPages_pos m
  refine ⟨(st.enter (ptr p)).setSlave (ptr p) s, hadd, ?_, ?_, rfl, ?_⟩
  · have hmem : ∀ g ∈ [donated p (4096 * m)], g = donated p (4096 * m) := fun g hg =>
      List.mem_singleton.1 hg
    refine ⟨rfl, show 1 < 128 by decide, rfl, List.pairwise_singleton _ _, fun g hg => ?_, fun g hg => ?_,
      fun g hg k _ => ?_, ?_, List.Pairwise.nil, by simp, by simp⟩
    · rw [hmem g hg]
      exact donated_valid hend hfit'
    · rw [hmem g hg]
      exact (congrArg (HeaderOk · _) hself).mpr hok
    · rw [hmem g hg]
      refine ⟨if_pos rfl, ?_, List.nodup_nil, by simp, by simp, by simp, fun j hj => ?_⟩
      · exact (congrArg (SlaveBuddy.orderBlkCnt · k) hself).trans (congrFun hcnt k)
      · have hfalse := (congrArg (SlaveBuddy.bitmap · k j) hself).trans
          (congrFun (congrFun hbits k) j)
        exact absurd (hfalse.symm.trans hj) (by decide)
    · rintro b b' ⟨g, -, -, hpg⟩
      exact absurd hpg List.not_mem_nil
  · rw [hself]
    exact hmax hok.maxOrder_le (by omega)
  · exact mem_enter.2 (Or.inl rfl)

/-- The maximal blocks of the region are accepted exactly when the tail is free. -/
theorem tailFree_iff {p m : ℕ} :
    TailFree p m ↔ ∀ k pg, Maximal (p + headerPages m) (p + m) (topOrder m) k pg →
      (donated p (4096 * m)).Accepts ⟨k, pg⟩ := by
  have hm : 4096 * m / 4096 = m := Nat.mul_div_cancel_left m (by decide)
  have htop : topOrder m ≤ 10 := Nat.min_le_left _ _
  have hacc : ∀ k pg, (donated p (4096 * m)).Accepts ⟨k, pg⟩ ↔
      k ≤ 10 ∧ (pg - (p + headerPages m)) / 2 ^ (k + 1) < m / 2 ^ (k + 1) := by
    intro k pg
    unfold Region.Accepts donated
    rw [hm]
  constructor
  · intro h k pg hmax
    have hle := hmax.le_cap
    have hend := hmax.fits.end_le
    have hpow := Nat.two_pow_pos k
    exact (hacc k pg).2 ⟨by omega, h k (by unfold pframeMaxOrder; omega) pg (by omega) hmax⟩
  · intro h k _ pg _ hmax
    exact ((hacc k pg).1 (h k pg hmax)).2

/-- The address of a range, as the allocator computes it. -/
theorem pageAlignDown_page {p : ℕ} (hp : 4096 * p < 2 ^ 46) :
    pageAlignDown (virtToPhysPm (physToVirtPm (4096 * p))) = 4096 * p := by
  rw [virtToPhysPm_physToVirtPm (by omega), pageAlignDown_eq (by omega)]
  omega

/-- A call that finds no region and has room for a new one. -/
theorem kbudFreeRange_new {p m : ℕ} (hend : 4096 * p + 4096 * m ≤ 2 ^ 46) (hfit : headerPages m < m)
    (hroom : st.regionCount + 1 < pframeMaxRegions)
    (hfind : findValidSlave st (4096 * p) = kpageErr) :
    ∃ st' free', kbudFreeRange st (physToVirtPm (4096 * p)) (4096 * m) = some st' ∧
      st'.regionCount = st.regionCount + 1 ∧
      ptr p ∈ (List.range st'.regionCount).map st'.regions ∧
      Inv (st'.withTable (fun _ => ptr p) 1) ⟨[donated p (4096 * m)], free', []⟩ ∧
      (∀ k ≤ 10, ∀ pg, pg ∈ free' p k ↔
        Maximal (p + headerPages m) (p + m) (topOrder m) k pg ∧
          (donated p (4096 * m)).Accepts ⟨k, pg⟩) ∧
      ((∀ a ∈ kbudFreeRangeAnswers st (physToVirtPm (4096 * p)) (4096 * m), a = true) ↔
        TailFree p m) := by
  obtain ⟨st₁, hadd, hinv₁, hmax, hcount, hmem⟩ := newRegion_spec hend hfit hroom
  have hm : 4096 * m / 4096 = m := Nat.mul_div_cancel_left m (by decide)
  have hphys := pageAlignDown_page (show 4096 * p < 2 ^ 46 by omega)
  have hs : HeaderOk (st₁.slaves (ptr p)) (donated p (4096 * m)) := hinv₁.header _ List.mem_cons_self
  obtain ⟨hoffs, hstart, hsize⟩ := hs.carve_start (by omega) (by omega) (by rw [hm]; omega)
  rw [hm] at hoffs hstart hsize
  have hsum : p + headerPages (4096 * m / 4096) + (4096 * m / 4096 - headerPages (4096 * m / 4096)) =
      p + m := by
    rw [hm]
    omega
  have hend' : p + headerPages m + (m - headerPages m) = p + m := by omega
  obtain ⟨st₂, free', hrun, hinv', hfree, hans⟩ := carve_spec addrSpace (m - headerPages m)
    (p + headerPages m) hinv₁ (by dsimp only [donated]; rw [hsum, hend'])
    (by dsimp only [donated]; rw [hm]) (by unfold addrSpace; omega) (by
      rintro b ⟨g, -, -, hpg⟩
      exact absurd hpg List.not_mem_nil)
  rw [show (donated p (4096 * m)).head = p from rfl] at hrun hfree hans
  rw [(freeRangeLoop_withTable _ _ _ _ _ _ _).1] at hrun
  rw [(freeRangeLoop_withTable _ _ _ _ _ _ _).2] at hans
  obtain ⟨st', hrun', rfl⟩ := Option.map_eq_some_iff.1 hrun
  obtain ⟨hregs, hrc⟩ := freeRangeLoop_table hrun'
  have hmax' : ((st₁.withTable (fun _ => ptr p) 1).slaves (ptr p)).maxOrder = topOrder m := hmax
  rw [hmax', hend'] at hfree hans
  refine ⟨st', free', ?_, hrc.trans hcount, ?_, hinv', fun k hk pg => ?_, ?_⟩
  · rw [kbudFreeRange_eq hphys hfind hadd (ptr_ne_kpageErr p), hoffs, hstart, hsize]
    exact hrun'
  · rw [hregs, hrc]
    exact hmem
  · rw [hfree k hk pg]
    simp only [List.not_mem_nil, false_or]
  · have hrest : kbudFreeRangeAnswers st (physToVirtPm (4096 * p)) (4096 * m) =
        freeRangeAnswers (ptr p) addrSpace st₁ (4096 * (p + headerPages m))
          (4096 * (m - headerPages m)) := by
      simp only [kbudFreeRangeAnswers, hphys, hfind, if_true, hadd, ptr_ne_kpageErr, if_false, hoffs,
        hstart, hsize]
    rw [hrest, hans, tailFree_iff]

/-- A call that finds a region adds none. -/
theorem kbudFreeRange_found {vaddr len : ℕ} {st' : State}
    (hfind : findValidSlave st (pageAlignDown (virtToPhysPm vaddr)) ≠ kpageErr)
    (hrun : kbudFreeRange st vaddr len = some st') : st'.regionCount = st.regionCount := by
  simp only [kbudFreeRange, hfind, if_false] at hrun
  exact (freeRangeLoop_table hrun).2

/-- The call that would fill the table writes behind it. -/
theorem kbudFreeRange_last {vaddr len : ℕ}
    (hfind : findValidSlave st (pageAlignDown (virtToPhysPm vaddr)) = kpageErr)
    (hlast : st.regionCount + 1 = pframeMaxRegions) : kbudFreeRange st vaddr len = none := by
  have hadd : kbudAddRegion st (pageAlignDown (virtToPhysPm vaddr)) len = none := by
    rw [kbudAddRegion, if_neg (by omega), if_pos (by omega)]
  simp only [kbudFreeRange, hfind, if_true, hadd, Option.bind_eq_bind, Option.bind_none]

/-- A call that finds no region and no room for one adds none. -/
theorem kbudFreeRange_full {vaddr len : ℕ} {st' : State}
    (hfind : findValidSlave st (pageAlignDown (virtToPhysPm vaddr)) = kpageErr)
    (hroom : ¬ st.regionCount + 1 < pframeMaxRegions)
    (hrun : kbudFreeRange st vaddr len = some st') : st' = st := by
  rcases Nat.lt_or_ge pframeMaxRegions (st.regionCount + 1) with hfull | hlast
  · have hadd : kbudAddRegion st (pageAlignDown (virtToPhysPm vaddr)) len = some (kpageErr, st) :=
      if_pos hfull
    simp only [kbudFreeRange, hfind, if_true, hadd, Option.bind_eq_bind, Option.bind_some] at hrun
    exact (Option.some_inj.1 hrun).symm
  · rw [kbudFreeRange_last hfind (by omega)] at hrun
    cases hrun

/-- A range without a maximal block in its tail is carved up as it should be. -/
theorem kbudFreeRange_complete {p m : ℕ} (hend : 4096 * p + 4096 * m ≤ 2 ^ 46) (hfit : headerPages m < m)
    (hfind : findValidSlave st (4096 * p) = kpageErr) (hroom : st.regionCount + 1 < pframeMaxRegions)
    (htail : TailFree p m) :
    ∃ st', kbudFreeRange st (physToVirtPm (4096 * p)) (4096 * m) = some st' ∧
      Complete st (4096 * p) (4096 * m) st' := by
  have hptr : physToVirtPm (4096 * p) = ptr p := physToVirtPm_page (by omega)
  have hm : 4096 * m / 4096 = m := Nat.mul_div_cancel_left m (by decide)
  obtain ⟨st', free', hrun, hcount, hmem, hinv, hfree, hans⟩ :=
    kbudFreeRange_new hend hfit hroom hfind
  have hg : donated p (4096 * m) ∈ [donated p (4096 * m)] := List.mem_cons_self
  have hs := hinv.header _ hg
  have hlist : ∀ k ≤ 10, freeList st' (ptr p) k = (free' p k).map ptr := fun k hk =>
    hinv.freeList_eq hg hk
  have hon : ∀ k ≤ 10, ∀ q, q ∈ freeList st' (ptr p) k ↔
      ∃ pg, Maximal (p + headerPages m) (p + m) (topOrder m) k pg ∧ q = ptr pg := by
    intro k hk q
    rw [hlist k hk, List.mem_map]
    constructor
    · rintro ⟨pg, hpg, rfl⟩
      exact ⟨pg, ((hfree k hk pg).1 hpg).1, rfl⟩
    · rintro ⟨pg, hmax, rfl⟩
      exact ⟨pg, (hfree k hk pg).2 ⟨hmax, tailFree_iff.1 htail k pg hmax⟩, rfl⟩
  have hphysptr : ∀ {k pg}, Maximal (p + headerPages m) (p + m) (topOrder m) k pg →
      virtToPhysPm (ptr pg) = 4096 * pg := by
    intro k pg hmax
    have hle := hmax.fits.end_le
    have hpow := Nat.two_pow_pos k
    exact virtToPhysPm_ptr (by omega)
  refine ⟨st', hrun, ⟨hcount, by rw [hptr]; exact hmem⟩, fun a hlo hhi => ?_, fun k hk => ?_,
    hans.2 htail⟩
  · rw [hptr] at hlo hhi ⊢
    have hmb : (st'.slaves (ptr p)).mbase = 4096 * (p + headerPages (4096 * m / 4096)) := hs.mbase
    have htp : (st'.slaves (ptr p)).totalPages = 4096 * m / 4096 - headerPages (4096 * m / 4096) :=
      hs.totalPages
    rw [hm] at hmb htp
    rw [hmb] at hlo hhi
    rw [htp] at hhi
    unfold pageSize at hlo hhi
    obtain ⟨k, pg, hmax, hle, hlt⟩ := Dyad.exists_maximal (topOrder m)
      (by omega : p + headerPages m ≤ a) (by omega : a < p + m)
    have htop : k ≤ 10 := hmax.le_cap.trans (Nat.min_le_left _ _)
    refine ⟨(ptr pg, k), ⟨by unfold pframeMaxOrder; dsimp only; omega,
      (hon k htop _).2 ⟨pg, hmax, rfl⟩, ?_, ?_⟩, ?_⟩
    · dsimp only
      rw [hphysptr hmax]
      unfold pageSize
      omega
    · dsimp only
      rw [hphysptr hmax]
      unfold pageSize
      omega
    · rintro ⟨q, j⟩ ⟨hj, hq, hle', hlt'⟩
      unfold pframeMaxOrder at hj
      dsimp only at hj hq hle' hlt'
      obtain ⟨pg', hmax', rfl⟩ := (hon j (by omega) q).1 hq
      rw [hphysptr hmax'] at hle' hlt'
      unfold pageSize at hle' hlt'
      obtain ⟨rfl, rfl⟩ := hmax'.unique hmax (a := a) (by omega) (by omega) hle hlt
      rfl
  · unfold pframeMaxOrder at hk
    rw [hptr, hlist k (by omega)]
    exact (hinv.list _ hg k (by omega)).nodup.map ptr_injective

/-- **The complete donations**: of the page-aligned ranges that are larger than their header, those
that no region covers, for which the table has room, and in whose tail no maximal block starts. -/
theorem donation_complete_iff {p m : ℕ} (hend : 4096 * p + 4096 * m ≤ 2 ^ 46)
    (hfit : headerPages m < m) :
    (∃ st', kbudFreeRange st (physToVirtPm (4096 * p)) (4096 * m) = some st' ∧
        Complete st (4096 * p) (4096 * m) st') ↔
      findValidSlave st (4096 * p) = kpageErr ∧ st.regionCount + 1 < pframeMaxRegions ∧
        TailFree p m := by
  have hphys := pageAlignDown_page (show 4096 * p < 2 ^ 46 by omega)
  constructor
  · rintro ⟨st', hrun, hc⟩
    by_cases hfind : findValidSlave st (4096 * p) = kpageErr
    · by_cases hroom : st.regionCount + 1 < pframeMaxRegions
      · obtain ⟨-, -, -, -, -, -, -, hans⟩ := kbudFreeRange_new hend hfit hroom hfind
        exact ⟨hfind, hroom, hans.1 hc.accepted⟩
      · have hsame := kbudFreeRange_full (by rw [hphys]; exact hfind) hroom hrun
        have hadded := hc.added.1
        rw [hsame] at hadded
        omega
    · have hsame := kbudFreeRange_found (by rw [hphys]; exact hfind) hrun
      have hadded := hc.added.1
      omega
  · rintro ⟨hfind, hroom, htail⟩
    exact kbudFreeRange_complete hend hfit hfind hroom htail

/-- A range of 16 pages at one megabyte. -/
theorem donation_complete_iff_mega :
    ∃ st', kbudFreeRange State.init (physToVirtPm (4096 * 0x100)) (4096 * 16) = some st' ∧
      Complete State.init (4096 * 0x100) (4096 * 16) st' :=
  (donation_complete_iff (by decide) (by decide +kernel)).2
    ⟨by decide +kernel, by decide, by decide +kernel⟩

/-- **A donation loses two pages.**  The range of 19 pages at `0x103000` has its header in the first
one.  The last maximal block behind it, two pages at `0x114000`, are the frames 16 and 17 of the
region, and the first 19 frames have only four whole pairs of two-page blocks. -/
theorem donation_incomplete :
    headerPages 19 < 19 ∧ findValidSlave State.init (4096 * 0x103) = kpageErr ∧
      ¬ ∃ st', kbudFreeRange State.init (physToVirtPm (4096 * 0x103)) (4096 * 19) = some st' ∧
        Complete State.init (4096 * 0x103) (4096 * 19) st' := by
  refine ⟨by decide +kernel, by decide +kernel, ?_⟩
  rintro ⟨st', -, hc⟩
  have hfalse : false ∈
      kbudFreeRangeAnswers State.init (physToVirtPm (4096 * 0x103)) (4096 * 19) := by
    decide +kernel
  exact absurd (hc.accepted false hfalse) (by decide)

end Buddy

end SyncKernel
