/-
**An allocation fails only when it must.**

`kbud_alloc` goes through the regions of the table and takes the first block of the first region
that has one, from the list of the smallest order that is large enough.  The search for the order
can end at an empty list: its head is null, whose frame number is larger than the bitmap of any
region, so that `kbud_pop_head` refuses it.  Nothing is assumed of the lists but that they are
chains of the blocks that the header counts, and that the region has a bit for each.

Main definitions:

* `Buddy.RegionLists`, `Buddy.Lists` — the headers and the lists of the table;
* `Buddy.HasBlock` — a list has a block;
* `Buddy.FirstFit` — the region and the order that `kbud_alloc` takes its block from.

Main results:

* `Buddy.RegionLists.popHead_nil`, `Buddy.RegionLists.popHead_cons` — the head of a list;
* `Buddy.findOrder_spec` — the order of the block;
* `Buddy.kbudAlloc_firstFit` — **the block that an allocation returns**.
-/

import SyncKernel.Buddy.Donate

set_option relaxedAutoImplicit false
set_option autoImplicit false

namespace SyncKernel

namespace Buddy

variable {st : State}

/-! ### Consistent lists -/

/-- The region at `r` has a valid header, ends below the limit of the direct map, and its lists are
chains of the blocks that the header counts, each of which passes `buddy_bit_chk`. -/
structure RegionLists (st : State) (r : ℕ) (g : Region) : Prop where
  base : r = ptr g.head
  valid : g.Valid
  start_lt : g.start < 2 ^ 34
  header : HeaderOk (st.slaves r) g
  list : ∀ k < pframeMaxOrder, ∃ l, Chain Loc.next 0 st.mem (Loc.free r k) l ∧
    (st.slaves r).orderBlkCnt k = l.length ∧
    ∀ p ∈ l, buddyBitChk (st.slaves r) (kbudPfnum (virtToPhysPm p) (st.slaves r)) k = true

/-- All regions of the table have consistent lists. -/
def Lists (st : State) : Prop := ∀ i < st.regionCount, ∃ g, RegionLists st (st.regions i) g

/-- The list of the order `k` in the region at `r` has a block. -/
def HasBlock (st : State) (r k : ℕ) : Prop := st.mem (Loc.free r k) ≠ 0

/-- No region of the table has a block of the order `req` or of a larger one. -/
def Exhausted (st : State) (req : ℕ) : Prop :=
  ∀ i < st.regionCount, ∀ k < pframeMaxOrder, req ≤ k → ¬ HasBlock st (st.regions i) k

/-- The first region of the table with a block that is large enough, at the smallest order. -/
structure FirstFit (st : State) (req i order : ℕ) : Prop where
  lt : i < st.regionCount
  first : ∀ j < i, ∀ k < pframeMaxOrder, req ≤ k → ¬ HasBlock st (st.regions j) k
  order_lt : order < pframeMaxOrder
  le : req ≤ order
  has : HasBlock st (st.regions i) order
  smallest : ∀ k, req ≤ k → k < order → ¬ HasBlock st (st.regions i) k

/-! ### The head of a list -/

/-- A pointer from the last page of the direct map on is no block of a region. -/
theorem chk_far {s : SlaveBuddy} {g : Region} (hs : HeaderOk s g) {d k : ℕ} (hd : g.rpages ≤ d) :
    buddyBitChk s d k = false := by
  rw [← Bool.not_eq_true, hs.chk]
  rintro ⟨-, hlt⟩
  have hmono : g.rpages / 2 ^ (k + 1) ≤ d / 2 ^ (k + 1) := Nat.div_le_div_right hd
  omega

namespace RegionLists

variable {r : ℕ} {g : Region}

theorem ne_kpageErr (h : RegionLists st r g) : r ≠ kpageErr := h.base ▸ ptr_ne_kpageErr g.head

/-- The null pointer is refused. -/
theorem chk_null (h : RegionLists st r g) (k : ℕ) :
    buddyBitChk (st.slaves r) (kbudPfnum (virtToPhysPm 0) (st.slaves r)) k = false := by
  have hle := h.valid.le
  have hlt := h.start_lt
  have hzero : virtToPhysPm 0 = 4096 * 2 ^ 35 := by decide
  have hpfn : kbudPfnum (virtToPhysPm 0) (st.slaves r) = 2 ^ 35 - g.start := by
    rw [hzero, kbudPfnum, h.header.mbase, Word.sub_of_le (by omega) (by decide), ← Nat.mul_sub,
      Nat.mul_div_cancel_left _ (by decide)]
  rw [hpfn]
  exact chk_far h.header (by omega)

/-- The error pointer is refused. -/
theorem chk_kpageErr (h : RegionLists st r g) (k : ℕ) :
    buddyBitChk (st.slaves r) (kbudPfnum (virtToPhysPm kpageErr) (st.slaves r)) k = false := by
  have hle := h.valid.le
  have hlt := h.start_lt
  have hphys : virtToPhysPm kpageErr = 4096 * (2 ^ 35 - 1) + 4095 := by decide
  have hpfn : kbudPfnum (virtToPhysPm kpageErr) (st.slaves r) = 2 ^ 35 - 1 - g.start := by
    rw [hphys, kbudPfnum, h.header.mbase, Word.sub_of_le (by omega) (by decide)]
    omega
  rw [hpfn]
  exact chk_far h.header (by omega)

/-- A list has a block exactly when the header counts one. -/
theorem count_ne_zero_iff (h : RegionLists st r g) {k : ℕ} (hk : k < pframeMaxOrder) :
    (st.slaves r).orderBlkCnt k ≠ 0 ↔ HasBlock st r k := by
  obtain ⟨l, hchain, hcnt, -⟩ := h.list k hk
  rw [hcnt, HasBlock, not_iff_not, hchain.null_iff, List.length_eq_zero_iff]

/-- There are no blocks above the largest order. -/
theorem le_maxOrder (h : RegionLists st r g) {k : ℕ} (hk : k < pframeMaxOrder)
    (hhas : HasBlock st r k) : k ≤ (st.slaves r).maxOrder := by
  obtain ⟨l, hchain, -, hchk⟩ := h.list k hk
  cases l with
  | nil => exact absurd hchain hhas
  | cons p l =>
      have hbit := hchk p List.mem_cons_self
      by_contra hlt
      rw [buddyBitChk, if_pos (by omega)] at hbit
      cases hbit

/-- The head of an empty list is refused. -/
theorem popHead_nil (h : RegionLists st r g) {k : ℕ} (hnone : ¬ HasBlock st r k) :
    kbudPopHead st r k = some (kpageErr, st) := by
  have hhead : st.mem (Loc.free r k) = 0 := not_not.1 hnone
  unfold kbudPopHead
  simp only [hhead, h.chk_null k, Bool.false_eq_true, not_false_eq_true, if_true]

/-- The head of a list with a block is taken. -/
theorem popHead_cons (h : RegionLists st r g) {k : ℕ} (hk : k < pframeMaxOrder)
    (hhas : HasBlock st r k) :
    ∃ bits, kbudPopHead st r k = some (st.mem (Loc.free r k),
        st.setList r k (Word.sub ((st.slaves r).orderBlkCnt k) 1) bits
          (Function.update st.mem (Loc.free r k) (st.mem (Loc.next (st.mem (Loc.free r k)))))) ∧
      st.mem (Loc.free r k) ≠ kpageErr := by
  obtain ⟨l, hchain, -, hchk⟩ := h.list k hk
  cases l with
  | nil => exact absurd hchain hhas
  | cons p l =>
      have hhead : st.mem (Loc.free r k) = p := hchain.1
      have hbit := hchk p List.mem_cons_self
      rw [hhead]
      refine ⟨Function.update ((st.slaves r).bitmap k)
        (kbudPairIdx (kbudPfnum (virtToPhysPm p) (st.slaves r)) k) false, ?_, ?_⟩
      · unfold kbudPopHead
        simp only [hhead, hbit, not_true_eq_false, if_false]
        rw [buddyBitClr, buddyBitPut_ok (h.header.congr _ _), Option.bind_eq_bind, Option.bind_some]
        rfl
      · rintro rfl
        rw [h.chk_kpageErr k] at hbit
        cases hbit

end RegionLists

/-! ### The order -/

/-- **The order of the block** that the loop stops at: no smaller list has a block, and if this one
has none either then it is the last one that the region can serve. -/
theorem findOrder_spec {s : SlaveBuddy} (hs : s.maxOrder < pframeMaxOrder) :
    ∀ (n req : ℕ), pframeMaxOrder ≤ req + n → req < pframeMaxOrder →
      req ≤ findOrder s n req ∧ findOrder s n req < pframeMaxOrder ∧
      (∀ k, req ≤ k → k < findOrder s n req → s.orderBlkCnt k = 0) ∧
      (s.orderBlkCnt (findOrder s n req) = 0 → s.maxOrder ≤ findOrder s n req) := by
  intro n
  induction n with
  | zero => intro req hn hreq; omega
  | succ n ih =>
      intro req hn hreq
      rw [findOrder]
      by_cases hc : req < pframeMaxOrder ∧ s.orderBlkCnt req = 0 ∧ req < s.maxOrder
      · rw [if_pos hc]
        obtain ⟨hle, hlt, hzero, hend⟩ := ih (req + 1) (by omega) (by omega)
        refine ⟨by omega, hlt, fun k hk hk' => ?_, hend⟩
        rcases Nat.eq_or_lt_of_le hk with rfl | hk
        · exact hc.2.1
        · exact hzero k hk hk'
      · rw [if_neg hc]
        refine ⟨le_rfl, hreq, fun k hk hk' => by omega, fun hzero => ?_⟩
        by_contra hlt
        exact hc ⟨hreq, hzero, by omega⟩

/-! ### Splitting -/

/-- The header at `r` keeps its bitmaps, its lists from the order `n` on stay as they are, and so do
the other headers. -/
structure SameFrom (n r : ℕ) (st st' : State) : Prop where
  arr : (st'.slaves r).bitmapArr = (st.slaves r).bitmapArr
  other : ∀ r', r' ≠ r → st'.slaves r' = st.slaves r'
  list : ∀ k, n ≤ k → st'.mem (Loc.free r k) = st.mem (Loc.free r k) ∧
    (st'.slaves r).orderBlkCnt k = (st.slaves r).orderBlkCnt k

theorem setList_arr {r : ℕ} (harr : ∀ k, (st.slaves r).bitmapArr k ≠ kpageErr) (k c : ℕ)
    (bits : ℕ → Bool) (mem : Loc → ℕ) :
    ∀ j, ((st.setList r k c bits mem).slaves r).bitmapArr j ≠ kpageErr := by
  intro j
  rw [State.setList_slaves_self]
  exact harr j

/-- A push does not fault in a region with bitmaps, and changes the list of its own order only. -/
theorem kbudPush_total {r : ℕ} (harr : ∀ k, (st.slaves r).bitmapArr k ≠ kpageErr) (phy ord : ℕ) :
    ∃ a st', kbudPush st r phy ord = some (a, st') ∧ SameFrom (ord + 1) r st st' := by
  by_cases hchk : buddyBitChk (st.slaves r) (kbudPfnum phy (st.slaves r)) ord = true
  · refine ⟨true, st.setList r ord (Word.add ((st.slaves r).orderBlkCnt ord) 1)
      (Function.update ((st.slaves r).bitmap ord)
        (kbudPairIdx (kbudPfnum phy (st.slaves r)) ord) true)
      (Function.update (Function.update st.mem (Loc.next (physToVirtPm phy))
        (st.mem (Loc.free r ord))) (Loc.free r ord) (physToVirtPm phy)), ?_, ?_, ?_, ?_⟩
    · unfold kbudPush
      simp only [hchk, not_true_eq_false, if_false]
      rw [buddyBitSet, buddyBitPut, if_neg (harr ord), Option.bind_eq_bind, Option.bind_some]
      rfl
    · rw [State.setList_slaves_self]
      rfl
    · exact fun r' hr' => State.setList_slaves_of_ne hr'
    · intro k hk
      have hne : k ≠ ord := by omega
      rw [State.setList_slaves_self, State.setList_mem]
      refine ⟨?_, Function.update_of_ne hne _ _⟩
      rw [Function.update_of_ne (by simp [hne]), Function.update_of_ne (by simp)]
  · refine ⟨false, st, ?_, rfl, fun _ _ => rfl, fun _ _ => ⟨rfl, rfl⟩⟩
    unfold kbudPush
    simp only [hchk, Bool.false_eq_true, not_false_eq_true, if_true]

/-- The loop that gives the upper halves back does not fault, and changes smaller orders only. -/
theorem splitLoop_total (r addr req : ℕ) :
    ∀ (n : ℕ) {st : State}, (∀ k, (st.slaves r).bitmapArr k ≠ kpageErr) →
      ∃ st', splitLoop r addr req n st = some st' ∧ SameFrom (req + n) r st st' := by
  intro n
  induction n with
  | zero =>
      intro st _
      exact ⟨st, rfl, rfl, fun _ _ => rfl, fun _ _ => ⟨rfl, rfl⟩⟩
  | succ n ih =>
      intro st harr
      obtain ⟨a, st₁, hpush, hsame₁⟩ :=
        kbudPush_total harr (virtToPhysPm addr ^^^ pageSize * 2 ^ (req + n)) (req + n)
      obtain ⟨st', hrun, hsame⟩ := ih fun k => (congrFun hsame₁.arr k).trans_ne (harr k)
      refine ⟨st', ?_, hsame.arr.trans hsame₁.arr, fun r' hr' => ?_, fun k hk => ?_⟩
      · rw [splitLoop, hpush, Option.bind_eq_bind, Option.bind_some]
        exact hrun
      · rw [hsame.other r' hr', hsame₁.other r' hr']
      · obtain ⟨hmem, hcnt⟩ := hsame.list k (by omega)
        obtain ⟨hmem₁, hcnt₁⟩ := hsame₁.list k (by omega)
        exact ⟨hmem.trans hmem₁, hcnt.trans hcnt₁⟩

/-! ### The allocation -/

/-- The block at the head of the list of the order `order` in the region at `r` left its list, and
the other regions stay as they are. -/
structure Taken (st : State) (r order : ℕ) (st' : State) : Prop where
  head : st'.mem (Loc.free r order) = st.mem (Loc.next (st.mem (Loc.free r order)))
  count : (st'.slaves r).orderBlkCnt order = Word.sub ((st.slaves r).orderBlkCnt order) 1
  other : ∀ r', r' ≠ r → st'.slaves r' = st.slaves r'

/-- The turn of the loop at a region without a block that is large enough. -/
theorem allocLoop_skip {req n i : ℕ} {g : Region} (hreq : req < pframeMaxOrder)
    (h : RegionLists st (st.regions i) g)
    (hnone : ∀ k < pframeMaxOrder, req ≤ k → ¬ HasBlock st (st.regions i) k) :
    allocLoop req (n + 1) i st = allocLoop req n (i + 1) st := by
  obtain ⟨hle, hlt, -, -⟩ := findOrder_spec (s := st.slaves (st.regions i))
    (Nat.lt_succ_of_le h.header.maxOrder_le) pframeMaxOrder req (by omega) hreq
  have hpop := h.popHead_nil (hnone _ hlt hle)
  have hord : ¬ (findOrder (st.slaves (st.regions i)) pframeMaxOrder req = pframeMaxOrder ∨
      findOrder (st.slaves (st.regions i)) pframeMaxOrder req < req) := by omega
  simp only [allocLoop, h.ne_kpageErr, if_false, hord, hpop, Option.bind_eq_bind,
    Option.bind_some, if_true]

/-- The turn of the loop at a region with a block that is large enough. -/
theorem allocLoop_found {req n i k : ℕ} {g : Region} (hreq : req < pframeMaxOrder)
    (h : RegionLists st (st.regions i) g) (hk : k < pframeMaxOrder) (hle : req ≤ k)
    (hhas : HasBlock st (st.regions i) k) :
    ∃ order st', req ≤ order ∧ order < pframeMaxOrder ∧ HasBlock st (st.regions i) order ∧
      (∀ j, req ≤ j → j < order → ¬ HasBlock st (st.regions i) j) ∧
      allocLoop req (n + 1) i st = some (st.mem (Loc.free (st.regions i) order), st') ∧
      st.mem (Loc.free (st.regions i) order) ≠ kpageErr ∧ Taken st (st.regions i) order st' := by
  obtain ⟨hge, hlt, hzero, hend⟩ := findOrder_spec (s := st.slaves (st.regions i))
    (Nat.lt_succ_of_le h.header.maxOrder_le) pframeMaxOrder req (by omega) hreq
  generalize horder : findOrder (st.slaves (st.regions i)) pframeMaxOrder req = order
    at hge hlt hzero hend
  have hsmall : ∀ j, req ≤ j → j < order → ¬ HasBlock st (st.regions i) j := fun j hj hj' hjb =>
    (h.count_ne_zero_iff (by omega)).2 hjb (hzero j hj hj')
  -- a list that ends the search is empty only when every list from `req` on is
  have hfound : HasBlock st (st.regions i) order := by
    rw [← h.count_ne_zero_iff hlt]
    intro hcnt
    have hmax := hend hcnt
    have hkmax := h.le_maxOrder hk hhas
    rcases Nat.lt_or_ge k order with hko | hko
    · exact hsmall k hle hko hhas
    · obtain rfl : k = order := by omega
      exact (h.count_ne_zero_iff hk).2 hhas hcnt
  obtain ⟨bits, hpop, hne⟩ := h.popHead_cons hlt hfound
  obtain ⟨st', hsplit, hsame⟩ := splitLoop_total (st.regions i)
    (st.mem (Loc.free (st.regions i) order)) req (order - req) (setList_arr h.header.arr _ _ bits _)
  refine ⟨order, st', hge, hlt, hfound, hsmall, ?_, hne, ?_⟩
  · exact allocLoop_take rfl h.ne_kpageErr (by rw [horder]; omega) (by rw [horder]; exact hpop) hne
      (by rw [horder]; exact hsplit)
  · obtain ⟨hmem, hcnt⟩ := hsame.list order (by omega)
    refine ⟨?_, ?_, fun r' hr' => ?_⟩
    · rw [hmem, State.setList_mem, Function.update_self]
    · rw [hcnt, State.setList_slaves_self, SlaveBuddy.set_orderBlkCnt]
    · rw [hsame.other r' hr', State.setList_slaves_of_ne hr']

/-- The loop over the regions from the index `i` on, when those before have no block. -/
theorem allocLoop_firstFit (h : Lists st) {req : ℕ} (hreq : req < pframeMaxOrder) :
    ∀ (n i : ℕ), i + n = st.regionCount →
      (∀ j < i, ∀ k < pframeMaxOrder, req ≤ k → ¬ HasBlock st (st.regions j) k) →
      (Exhausted st req ∧ allocLoop req n i st = some (kpageErr, st)) ∨
        ∃ i' order st', FirstFit st req i' order ∧
          allocLoop req n i st = some (st.mem (Loc.free (st.regions i') order), st') ∧
          st.mem (Loc.free (st.regions i') order) ≠ kpageErr ∧
          Taken st (st.regions i') order st' := by
  intro n
  induction n with
  | zero =>
      intro i hi hbefore
      exact Or.inl ⟨fun j hj => hbefore j (by omega), rfl⟩
  | succ n ih =>
      intro i hi hbefore
      obtain ⟨g, hg⟩ := h i (by omega)
      by_cases hnone : ∀ k < pframeMaxOrder, req ≤ k → ¬ HasBlock st (st.regions i) k
      · rw [allocLoop_skip hreq hg hnone]
        refine ih (i + 1) (by omega) fun j hj => ?_
        rcases Nat.lt_succ_iff_lt_or_eq.1 hj with hj | rfl
        · exact hbefore j hj
        · exact hnone
      · push Not at hnone
        obtain ⟨k, hk, hle, hhas⟩ := hnone
        obtain ⟨order, st', hge, hlt, hfound, hsmall, hrun, hne, htaken⟩ :=
          allocLoop_found (n := n) hreq hg hk hle hhas
        exact Or.inr ⟨i, order, st', ⟨by omega, hbefore, hlt, hge, hfound, hsmall⟩, hrun, hne, htaken⟩

/-- **An allocation fails only when it must**: it returns the error pointer exactly when the order is
too large or no region has a block that is large enough, and then changes nothing; otherwise it
takes the first block of the smallest order of the first region that has one. -/
theorem kbudAlloc_firstFit (h : Lists st) (req : ℕ) :
    ((∃ st', kbudAlloc st req = some (kpageErr, st')) ↔ pframeMaxOrder ≤ req ∨ Exhausted st req) ∧
      (pframeMaxOrder ≤ req ∨ Exhausted st req → kbudAlloc st req = some (kpageErr, st)) ∧
      (¬ (pframeMaxOrder ≤ req ∨ Exhausted st req) →
        ∃ i order st', FirstFit st req i order ∧
          kbudAlloc st req = some (st.mem (Loc.free (st.regions i) order), st') ∧
          st.mem (Loc.free (st.regions i) order) ≠ kpageErr ∧
          Taken st (st.regions i) order st') := by
  by_cases hreq : pframeMaxOrder ≤ req
  · have hrun : kbudAlloc st req = some (kpageErr, st) := if_pos hreq
    exact ⟨⟨fun _ => Or.inl hreq, fun _ => ⟨st, hrun⟩⟩, fun _ => hrun,
      fun hne => absurd (Or.inl hreq) hne⟩
  have hrun : kbudAlloc st req = allocLoop req st.regionCount 0 st := if_neg hreq
  rw [hrun]
  rcases allocLoop_firstFit h (Nat.lt_of_not_le hreq) st.regionCount 0 (Nat.zero_add _)
    (fun j hj => absurd hj (Nat.not_lt_zero j)) with ⟨hex, hloop⟩ |
      ⟨i, order, st', hfit, hloop, hne, htaken⟩
  · exact ⟨⟨fun _ => Or.inr hex, fun _ => ⟨st, hloop⟩⟩, fun _ => hloop,
      fun hn => absurd (Or.inr hex) hn⟩
  · have hnot : ¬ (pframeMaxOrder ≤ req ∨ Exhausted st req) := by
      rintro (hle | hex)
      · exact hreq hle
      · exact hex i hfit.lt order hfit.order_lt hfit.le hfit.has
    refine ⟨⟨?_, fun he => absurd he hnot⟩, fun he => absurd he hnot,
      fun _ => ⟨i, order, st', hfit, hloop, hne, htaken⟩⟩
    rintro ⟨st₁, hfail⟩
    exact absurd (Prod.mk.inj (Option.some_inj.1 (hloop.symm.trans hfail))).1 hne

/-- The lists of an allocator whose regions hand out pages are consistent. -/
theorem Inv.lists {sh : Shape} (h : Inv st sh) (hstart : ∀ g ∈ sh.regs, g.start < 2 ^ 34) :
    Lists st := by
  obtain ⟨regs, free, live⟩ := sh
  intro i hi
  obtain ⟨g, hg, hr⟩ := h.region hi
  rw [hr]
  refine ⟨g, rfl, h.valid g hg, hstart g hg, h.header g hg, fun k hk => ?_⟩
  unfold pframeMaxOrder at hk
  have hl := h.list g hg k (by omega)
  refine ⟨_, hl.chain, by rw [List.length_map]; exact hl.count, fun p hp => ?_⟩
  obtain ⟨pg, hpg, rfl⟩ := List.mem_map.1 hp
  obtain ⟨hpfn, -, hphys, hchk, -, -⟩ := h.block_facts hg (by omega) hpg
  rw [hphys, hpfn]
  exact hchk

/-- The first allocation after a donation of 16 pages. -/
theorem kbudAlloc_firstFit_donated :
    ∃ st, kbudFreeRange State.init (physToVirtPm 0x101000) 0x10000 = some st ∧
      ((∃ st', kbudAlloc st 1 = some (kpageErr, st')) ↔ pframeMaxOrder ≤ 1 ∨ Exhausted st 1) ∧
      (pframeMaxOrder ≤ 1 ∨ Exhausted st 1 → kbudAlloc st 1 = some (kpageErr, st)) ∧
      (¬ (pframeMaxOrder ≤ 1 ∨ Exhausted st 1) →
        ∃ i order st', FirstFit st 1 i order ∧
          kbudAlloc st 1 = some (st.mem (Loc.free (st.regions i) order), st') ∧
          st.mem (Loc.free (st.regions i) order) ≠ kpageErr ∧
          Taken st (st.regions i) order st') := by
  obtain ⟨st, regs, free, hrun, hinv, hmem, -⟩ := kbudFreeRange_spec Inv.init
    (show pageAlignDown (virtToPhysPm (physToVirtPm 0x101000)) = 4096 * 0x101 by decide +kernel)
    (show 4096 * 0x101 + 0x10000 ≤ 2 ^ 46 by decide) (by decide +kernel) (by decide) (by simp)
  refine ⟨st, hrun, kbudAlloc_firstFit (hinv.lists fun g hg => ?_) 1⟩
  rcases (hmem g).1 hg with rfl | hg
  · decide +kernel
  · exact absurd hg List.not_mem_nil

end Buddy

end SyncKernel
