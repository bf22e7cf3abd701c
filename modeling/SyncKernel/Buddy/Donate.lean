/-
**Donating a range.**

The first pages of a range hold the header of a new region: the record and one bitmap for each
order.  The region takes its place in the table, which stays in order, and the pages behind the
header are pushed as the largest aligned blocks that fit.

Main definitions:

* `Buddy.headerBytes`, `Buddy.headerPages` — the header of a region of a given number of pages;
* `Buddy.donated` — the region that a range becomes.

Main results:

* `Buddy.insertRegion_spec` — the place in the table;
* `Buddy.initBitmaps_spec` — the bitmaps;
* `Buddy.kbudFreeRange_spec` — **a donation adds a region**.
-/

import SyncKernel.Buddy.Alloc
import SyncKernel.Buddy.Find
import SyncKernel.Lib.Insertion

set_option relaxedAutoImplicit false
set_option autoImplicit false

namespace SyncKernel

namespace Buddy

variable {st : State} {regs : List Region} {free : ℕ → ℕ → List ℕ} {live : List Blk}

/-! ### The place in the table -/

/-- The table is an array into which the region goes as in an insertion sort. -/
theorem insertRegion_eq_sink (r : ℕ) : ∀ (n : ℕ) (f : ℕ → ℕ), insertRegion r n f = Insertion.sink id r n f := by
  intro n
  induction n with
  | zero => intro f; rfl
  | succ n ih =>
      intro f
      rw [insertRegion, Insertion.sink, ih]
      rfl

/-- **The new entry** stands before the entries at the end of the table that are larger, and behind
one that is not. -/
theorem insertRegion_spec (r n : ℕ) (f : ℕ → ℕ) :
    ∃ l₁ l₂, (List.range n).map f = l₁ ++ l₂ ∧ (∀ x ∈ l₂, r < x) ∧
      (l₁ = [] ∨ ∃ l x, l₁ = l ++ [x] ∧ x ≤ r) ∧
      (List.range (n + 1)).map (insertRegion r n f) = l₁ ++ r :: l₂ := by
  rw [insertRegion_eq_sink]
  exact Insertion.sink_spec id r n f

/-- The terminator stands behind the entries. -/
theorem enter_regions (st : State) (r : ℕ) :
    (List.range (st.enter r).regionCount).map (st.enter r).regions =
      (List.range (st.regionCount + 1)).map (insertRegion r st.regionCount st.regions) :=
  Insertion.map_range_update _ _ le_rfl

/-- The entries are the old ones and the new one. -/
theorem perm_enter (st : State) (r : ℕ) :
    ((List.range (st.enter r).regionCount).map (st.enter r).regions).Perm
      (r :: (List.range st.regionCount).map st.regions) := by
  rw [enter_regions, insertRegion_eq_sink]
  exact Insertion.perm_sink r st.regionCount st.regions

theorem mem_enter {r x : ℕ} : x ∈ (List.range (st.enter r).regionCount).map (st.enter r).regions ↔
    x = r ∨ x ∈ (List.range st.regionCount).map st.regions := by
  rw [(perm_enter st r).mem_iff, List.mem_cons]

/-- The entries stay in order. -/
theorem pairwise_enter {r : ℕ} (h : ((List.range st.regionCount).map st.regions).Pairwise (· ≤ ·)) :
    ((List.range (st.enter r).regionCount).map (st.enter r).regions).Pairwise (· ≤ ·) := by
  rw [enter_regions, insertRegion_eq_sink]
  exact Insertion.pairwise_sink h

/-! ### The header -/

/-- The bytes of the bitmaps of `n` orders from the order `i` on. -/
def bitmapBytes (rpages : ℕ) : ℕ → ℕ → ℕ
  | 0, _ => 0
  | n + 1, i => ((rpages / 2 ^ (i + 1) + 7) / 8 + 63) / 64 * 64 + bitmapBytes rpages n (i + 1)

/-- The bytes of the header of a region of `rpages` pages. -/
def headerBytes (rpages : ℕ) : ℕ := slaveSz + bitmapBytes rpages pframeMaxOrder 0

/-- The pages of the header of a region of `rpages` pages. -/
def headerPages (rpages : ℕ) : ℕ := (headerBytes rpages + 4095) / 4096

theorem div_pow_eq_zero {a i j : ℕ} (h : a / 2 ^ (i + 1) = 0) (hij : i ≤ j) : a / 2 ^ (j + 1) = 0 := by
  have hmono : a / 2 ^ (j + 1) ≤ a / 2 ^ (i + 1) :=
    Nat.div_le_div_left (Nat.pow_le_pow_right (by decide) (by omega)) (Nat.two_pow_pos _)
  rw [h] at hmono
  exact Nat.le_zero.1 hmono

theorem bitmapBytes_eq_zero {rpages : ℕ} :
    ∀ (n : ℕ) {i : ℕ}, rpages / 2 ^ (i + 1) = 0 → bitmapBytes rpages n i = 0 := by
  intro n
  induction n with
  | zero => intros; rfl
  | succ n ih =>
      intro i h
      rw [bitmapBytes, h, ih (div_pow_eq_zero h (Nat.le_succ i))]

theorem bitmapBytes_le (rpages : ℕ) : ∀ n i, bitmapBytes rpages n i ≤ n * (rpages + 71) := by
  intro n
  induction n with
  | zero => intro i; exact Nat.zero_le _
  | succ n ih =>
      intro i
      have hdiv : rpages / 2 ^ (i + 1) ≤ rpages := Nat.div_le_self _ _
      have hih := ih (i + 1)
      rw [bitmapBytes, Nat.succ_mul]
      omega

/-- The loop stops at the first order without pairs. -/
theorem initBitmaps_stop {rpages i : ℕ} (h : rpages / 2 ^ (i + 1) = 0) (n : ℕ) (s : SlaveBuddy) (cur : ℕ) :
    initBitmaps rpages (n + 1) i s cur = (s, cur) := by
  simp only [initBitmaps, h, if_true]

/-- The loop at an order with pairs. -/
theorem initBitmaps_next {rpages i : ℕ} (h : rpages / 2 ^ (i + 1) ≠ 0) (hr : rpages < 2 ^ 52) (n : ℕ)
    (s : SlaveBuddy) (cur : ℕ) : initBitmaps rpages (n + 1) i s cur = initBitmaps rpages n (i + 1)
      { s with
        bitmapArr := Function.update s.bitmapArr i cur
        maxbits := Function.update s.maxbits i (rpages / 2 ^ (i + 1))
        maxOrder := i }
      ((cur + ((rpages / 2 ^ (i + 1) + 7) / 8 + 63) / 64 * 64) % 2 ^ 64) := by
  have hdiv : rpages / 2 ^ (i + 1) ≤ rpages := Nat.div_le_self _ _
  have halign : Word.alignUp ((rpages / 2 ^ (i + 1) + 7) / 8) bitmapAlign =
      ((rpages / 2 ^ (i + 1) + 7) / 8 + 63) / 64 * 64 :=
    Word.alignUp_eq (k := 6) (by omega) (by decide)
  simp only [initBitmaps, h, if_false, halign, Word.add]

/-- What the loop over the orders leaves in the header `s`. -/
structure BitmapsOk (rpages i : ℕ) (s s' : SlaveBuddy) : Prop where
  orderBlkCnt : s'.orderBlkCnt = s.orderBlkCnt
  rbase : s'.rbase = s.rbase
  arr : ∀ j, s'.bitmapArr j ≠ kpageErr
  maxbits_lt : ∀ j < i, s'.maxbits j = s.maxbits j
  maxbits : ∀ j, i ≤ j → j ≤ 10 → s'.maxbits j = rpages / 2 ^ (j + 1)
  maxOrder_le : s'.maxOrder ≤ 10
  le_maxOrder : s.maxOrder ≤ s'.maxOrder
  maxOrder : ∀ j, i ≤ j → j ≤ 10 → rpages / 2 ^ (j + 1) ≠ 0 → j ≤ s'.maxOrder

/-- **The bitmaps** of all orders that have pairs follow each other behind the record. -/
theorem initBitmaps_spec (rpages : ℕ) (hr : rpages ≤ 2 ^ 34) :
    ∀ (n i : ℕ) (s : SlaveBuddy) (cur : ℕ), i + n = 11 → cur + bitmapBytes rpages n i < 2 ^ 64 - 1 →
      (∀ j, s.bitmapArr j ≠ kpageErr) → (∀ j, i ≤ j → s.maxbits j = 0) → s.maxOrder ≤ i →
      s.maxOrder ≤ 10 →
      (initBitmaps rpages n i s cur).2 = cur + bitmapBytes rpages n i ∧
        BitmapsOk rpages i s (initBitmaps rpages n i s cur).1 := by
  intro n
  induction n with
  | zero =>
      intro i s cur hi _ harr _ hmax hmax'
      exact ⟨rfl, rfl, rfl, harr, fun _ _ => rfl, fun j h₁ h₂ => absurd h₂ (by omega), hmax', le_rfl,
        fun j h₁ h₂ => absurd h₂ (by omega)⟩
  | succ n ih =>
      intro i s cur hi hcur harr hbits hmax hmax'
      by_cases hzero : rpages / 2 ^ (i + 1) = 0
      · rw [initBitmaps_stop hzero, bitmapBytes_eq_zero (n + 1) hzero]
        refine ⟨rfl, rfl, rfl, harr, fun _ _ => rfl, fun j h₁ _ => ?_, hmax', le_rfl,
          fun j h₁ _ hne => absurd (div_pow_eq_zero hzero h₁) hne⟩
        rw [hbits j h₁, div_pow_eq_zero hzero h₁]
      · rw [bitmapBytes] at hcur
        have hne : cur ≠ kpageErr := by
          unfold kpageErr
          omega
        obtain ⟨hend, hok⟩ := ih (i + 1)
          { s with
            bitmapArr := Function.update s.bitmapArr i cur
            maxbits := Function.update s.maxbits i (rpages / 2 ^ (i + 1))
            maxOrder := i }
          (cur + ((rpages / 2 ^ (i + 1) + 7) / 8 + 63) / 64 * 64) (by omega) (by omega)
          (fun j => by
            dsimp only
            by_cases hj : j = i
            · rw [hj, Function.update_self]
              exact hne
            · rw [Function.update_of_ne hj]
              exact harr j)
          (fun j hj => by
            dsimp only
            rw [Function.update_of_ne (by omega)]
            exact hbits j (by omega))
          (Nat.le_succ i) (by dsimp only; omega)
        rw [initBitmaps_next hzero (by omega), Nat.mod_eq_of_lt (by omega), hend, bitmapBytes, Nat.add_assoc]
        refine ⟨rfl, hok.orderBlkCnt, hok.rbase, hok.arr, fun j hj => ?_, fun j h₁ h₂ => ?_,
          hok.maxOrder_le, hmax.trans hok.le_maxOrder, fun j h₁ h₂ hj => ?_⟩
        · rw [hok.maxbits_lt j (by omega)]
          exact Function.update_of_ne (by omega) _ _
        · rcases Nat.eq_or_lt_of_le h₁ with rfl | h₁
          · rw [hok.maxbits_lt i (Nat.lt_succ_self i)]
            exact Function.update_self ..
          · exact hok.maxbits j h₁ h₂
        · rcases Nat.eq_or_lt_of_le h₁ with rfl | h₁
          · exact hok.le_maxOrder
          · exact hok.maxOrder j h₁ h₂ hj

/-- The region has a bit for the pairs that lie in it. -/
theorem BitmapsOk.chk {rpages : ℕ} {s s' : SlaveBuddy} (h : BitmapsOk rpages 0 s s') (pfn k : ℕ) :
    buddyBitChk s' pfn k = true ↔ k ≤ 10 ∧ pfn / 2 ^ (k + 1) < rpages / 2 ^ (k + 1) := by
  have hmax := h.maxOrder_le
  unfold buddyBitChk kbudPairIdx
  by_cases hk : k > s'.maxOrder
  · rw [if_pos hk]
    simp only [Bool.false_eq_true, false_iff, not_and, Nat.not_lt]
    intro hk'
    have hzero : rpages / 2 ^ (k + 1) = 0 := by
      by_contra hne
      exact absurd (h.maxOrder k (Nat.zero_le _) hk' hne) (by omega)
    rw [hzero]
    exact Nat.zero_le _
  · rw [if_neg hk, h.maxbits k (Nat.zero_le _) (by omega)]
    by_cases hidx : pfn / 2 ^ (k + 1) ≥ rpages / 2 ^ (k + 1)
    · simp [hidx]
    · simp only [hidx, if_false, true_iff]
      exact ⟨by omega, Nat.not_le.1 hidx⟩

/-- The region that a range of `len` bytes from the page `p` on becomes. -/
def donated (p len : ℕ) : Region where
  head := p
  start := p + headerPages (len / 4096)
  pages := len / 4096 - headerPages (len / 4096)
  rpages := len / 4096

theorem ptr_bounds (p : ℕ) : ptr p % 8 = 0 ∧ ptr p + 2 ^ 47 = 4096 * p + 2 ^ 64 := by
  unfold ptr kernelPhmap
  omega

theorem headerPages_pos (rpages : ℕ) : 0 < headerPages rpages := by
  unfold headerPages headerBytes slaveSz
  omega

theorem headerBytes_le (rpages : ℕ) (h : rpages ≤ 2 ^ 34) : headerBytes rpages < 2 ^ 38 := by
  have hle := bitmapBytes_le rpages pframeMaxOrder 0
  unfold pframeMaxOrder at hle
  unfold headerBytes slaveSz pframeMaxOrder
  omega

theorem donated_valid {p len : ℕ} (hend : 4096 * p + len ≤ 2 ^ 46)
    (hfit : 4096 * headerPages (len / 4096) < len) : (donated p len).Valid where
  lt := Nat.lt_add_of_pos_right (headerPages_pos _)
  sum := by
    dsimp only [donated]
    omega
  le := by
    dsimp only [donated]
    omega

theorem kbudInitRegion_eq {phy len r rpages cur cur' mb : ℕ} {s : SlaveBuddy}
    (hr : physToVirtPm phy = r) (hpages : pageAlignDown len / 4096 = rpages)
    (hcur : Word.alignUp (Word.add r slaveSz) 8 = cur)
    (hmaps : initBitmaps rpages pframeMaxOrder 0
      { st.slaves r with totalPages := rpages, rbase := phy } cur = (s, cur'))
    (hmb : pageAlignUp (Word.add phy (Word.sub cur' r)) = mb) (hlt : mb < Word.add phy len) :
    kbudInitRegion st phy len = st.setSlave r { s with
      mbase := mb
      bitmapReserved := reservedPages mb (Word.add phy pageSize)
      totalPages := Word.sub (Word.add phy len) mb / 4096
      bitmap := fun _ _ => false } := by
  simp only [kbudInitRegion, hr, hpages, hcur, hmaps, hmb, Nat.not_le.2 hlt, if_false]

theorem kbudInitRegion_reject {phy len r rpages cur cur' mb : ℕ} {s : SlaveBuddy}
    (hr : physToVirtPm phy = r) (hpages : pageAlignDown len / 4096 = rpages)
    (hcur : Word.alignUp (Word.add r slaveSz) 8 = cur)
    (hmaps : initBitmaps rpages pframeMaxOrder 0
      { st.slaves r with totalPages := rpages, rbase := phy } cur = (s, cur'))
    (hmb : pageAlignUp (Word.add phy (Word.sub cur' r)) = mb) (hge : Word.add phy len ≤ mb) :
    kbudInitRegion st phy len = kbudMarkInvalid (st.setSlave r { s with mbase := mb }) r phy := by
  simp only [kbudInitRegion, hr, hpages, hcur, hmaps, hmb, ge_iff_le, hge, if_true]

/-- What `kbud_init_region` computes for a range whose header does not wrap: the bitmaps start behind the
record, and the header ends after `headerPages` pages. -/
theorem headerLayout (st : State) {p len : ℕ} (hzero : st.slaves (ptr p) = SlaveBuddy.zeroed)
    (hlen : len ≤ 2 ^ 46) (hend : p + headerPages (len / 4096) < 2 ^ 35) :
    physToVirtPm (4096 * p) = ptr p ∧ pageAlignDown len / 4096 = len / 4096 ∧
      Word.alignUp (Word.add (ptr p) slaveSz) 8 = ptr p + slaveSz ∧
      ∃ s cur, initBitmaps (len / 4096) pframeMaxOrder 0
          { st.slaves (ptr p) with totalPages := len / 4096, rbase := 4096 * p }
          (ptr p + slaveSz) = (s, cur) ∧
        BitmapsOk (len / 4096) 0
          { st.slaves (ptr p) with totalPages := len / 4096, rbase := 4096 * p } s ∧
        pageAlignUp (Word.add (4096 * p) (Word.sub cur (ptr p))) =
          4096 * (p + headerPages (len / 4096)) := by
  obtain ⟨hmod, hptr⟩ := ptr_bounds p
  have hbytes := headerBytes_le (len / 4096) (by omega)
  have hcover : headerBytes (len / 4096) ≤ 4096 * headerPages (len / 4096) := by
    unfold headerPages
    omega
  have hparts : headerBytes (len / 4096) = slaveSz + bitmapBytes (len / 4096) pframeMaxOrder 0 := rfl
  refine ⟨physToVirtPm_page (by omega), ?_, ?_, ?_⟩
  · rw [pageAlignDown_eq (by omega), Nat.mul_div_cancel _ (by decide)]
  · have hslave : slaveSz = 400 := rfl
    rw [Word.add_of_lt (by omega)]
    refine (Word.alignUp_eq (k := 3) (by omega) (by decide)).trans ?_
    unfold slaveSz
    omega
  obtain ⟨hcur', hok⟩ := initBitmaps_spec (len / 4096) (by omega) pframeMaxOrder 0
    { SlaveBuddy.zeroed with totalPages := len / 4096, rbase := 4096 * p } (ptr p + slaveSz) rfl
    (by omega) (fun j => by unfold kpageErr SlaveBuddy.zeroed; simp)
    (fun _ _ => rfl) le_rfl (Nat.zero_le _)
  rw [← hzero] at hcur' hok
  generalize initBitmaps (len / 4096) pframeMaxOrder 0
    { st.slaves (ptr p) with totalPages := len / 4096, rbase := 4096 * p } (ptr p + slaveSz) = out
    at hcur' hok
  obtain ⟨s, cur⟩ := out
  refine ⟨s, cur, rfl, hok, ?_⟩
  have hsub : Word.sub cur (ptr p) = headerBytes (len / 4096) := by
    have hc : cur = ptr p + slaveSz + bitmapBytes (len / 4096) pframeMaxOrder 0 := hcur'
    rw [Word.sub_of_le (by omega) (by omega)]
    omega
  rw [hsub, Word.add_of_lt (by omega), pageAlignUp_eq (by omega)]
  unfold headerPages
  omega

/-- **The header of a new region**, when it leaves something of the region. -/
theorem kbudInitRegion_spec (st : State) {p len : ℕ} (hzero : st.slaves (ptr p) = SlaveBuddy.zeroed)
    (hlen : len ≤ 2 ^ 46) (hend : 4096 * p + len ≤ 2 ^ 47) (hfit : 4096 * headerPages (len / 4096) < len) :
    ∃ s, kbudInitRegion st (4096 * p) len = st.setSlave (ptr p) s ∧ HeaderOk s (donated p len) ∧
      s.orderBlkCnt = (fun _ => 0) ∧ s.bitmap = fun _ _ => false := by
  obtain ⟨hphys, hrpages, hcur, s, cur, hout, hok, hmb⟩ := headerLayout st hzero hlen (by omega)
  have hadd : Word.add (4096 * p) len = 4096 * p + len := Word.add_of_lt (by omega)
  refine ⟨_, kbudInitRegion_eq hphys hrpages hcur hout hmb (by rw [hadd]; omega), ?_, ?_, rfl⟩
  · refine ⟨hok.rbase, rfl, ?_, hok.maxOrder_le, fun pfn k => hok.chk pfn k, hok.arr⟩
    dsimp only [donated]
    rw [hadd, Word.sub_of_le (by omega) (by omega)]
    omega
  · exact hok.orderBlkCnt.trans (by rw [hzero]; rfl)

/-- The call that adds a region whose header leaves something of it. -/
theorem kbudAddRegion_accept {p len : ℕ} (hlen : len ≤ 2 ^ 46) (hend : 4096 * p + len ≤ 2 ^ 47)
    (hfit : 4096 * headerPages (len / 4096) < len) (hroom : st.regionCount + 1 < pframeMaxRegions) :
    ∃ s, kbudInitRegion (st.enter (ptr p)) (4096 * p) len = (st.enter (ptr p)).setSlave (ptr p) s ∧
      kbudAddRegion st (4096 * p) len = some (ptr p, (st.enter (ptr p)).setSlave (ptr p) s) ∧
      HeaderOk s (donated p len) ∧ s.orderBlkCnt = (fun _ => 0) ∧ s.bitmap = fun _ _ => false := by
  have hpos := headerPages_pos (len / 4096)
  have hphys : physToVirtPm (4096 * p) = ptr p := physToVirtPm_page (by omega)
  obtain ⟨s, hinit, hok, hcnt, hbits⟩ :=
    kbudInitRegion_spec (st.enter (ptr p)) (Function.update_self ..) hlen hend hfit
  refine ⟨s, hinit, ?_, hok, hcnt, hbits⟩
  simp only [kbudAddRegion, hphys, hinit]
  rw [if_neg (by omega), if_neg (by omega)]

/-- The memory of a new region starts behind its header. -/
theorem HeaderOk.carve_start {s : SlaveBuddy} {p len : ℕ} (hs : HeaderOk s (donated p len)) (hlen : len ≤ 2 ^ 46)
    (hend : 4096 * p + len ≤ 2 ^ 47) (hfit : 4096 * headerPages (len / 4096) < len) :
    Word.alignUp (Word.sub s.mbase s.rbase) pageSize = 4096 * headerPages (len / 4096) ∧
      Word.add (4096 * p) (4096 * headerPages (len / 4096)) = 4096 * (p + headerPages (len / 4096)) ∧
      Word.sub (pageAlignDown len) (4096 * headerPages (len / 4096)) =
        4096 * (len / 4096 - headerPages (len / 4096)) := by
  refine ⟨?_, ?_, ?_⟩
  · have hm : s.mbase = 4096 * (p + headerPages (len / 4096)) := hs.mbase
    have hr : s.rbase = 4096 * p := hs.rbase
    rw [hm, hr, Word.sub_of_le (by omega) (by omega), ← Nat.mul_sub, Nat.add_sub_cancel_left]
    refine (Word.alignUp_eq (k := 12) (by omega) (by decide)).trans ?_
    omega
  · rw [Word.add_of_lt (by omega), Nat.mul_add]
  · rw [pageAlignDown_eq (by omega), Word.sub_of_le (by omega) (by omega)]
    omega

/-! ### The new region -/

/-- **The place of a new region** keeps the table in order, when the region is apart from the others. -/
theorem sorted_insert (h : Inv st ⟨regs, free, live⟩) {g : Region} (hpos : 0 < g.rpages)
    (hout : ∀ g' ∈ regs, g'.head + g'.rpages ≤ g.head ∨ g.head + g.rpages ≤ g'.head) :
    ∃ regs₁ regs₂, regs = regs₁ ++ regs₂ ∧
      (List.range (st.regionCount + 1)).map (insertRegion (ptr g.head) st.regionCount st.regions) =
        (regs₁ ++ g :: regs₂).map (fun g => ptr g.head) ∧
      (regs₁ ++ g :: regs₂).Pairwise fun g g' => g.head + g.rpages ≤ g'.head := by
  obtain ⟨l₁, l₂, hl, hbig, hsmall, hins⟩ :=
    insertRegion_spec (ptr g.head) st.regionCount st.regions
  have htable := h.table
  dsimp only at htable
  rw [hl] at htable
  obtain ⟨regs₁, regs₂, rfl, rfl, rfl⟩ := List.map_eq_append_iff.1 htable.symm
  have hsorted := h.sorted
  obtain ⟨hp₁, hp₂, hp₁₂⟩ := List.pairwise_append.1 hsorted
  have hlow : ∀ a ∈ regs₁, a.head + a.rpages ≤ g.head := by
    intro a ha
    rcases hout a (List.mem_append_left _ ha) with hlt | hge
    · exact hlt
    · rcases hsmall with hnil | ⟨l, x, heq, hx⟩
      · rw [List.map_eq_nil_iff.1 hnil] at ha
        exact absurd ha List.not_mem_nil
      · -- the last of the entries before the new one starts at or below it
        obtain ⟨r₀, r₁, rfl, -, hr₁⟩ := List.map_eq_append_iff.1 heq
        obtain ⟨y, rfl, rfl⟩ := List.map_eq_singleton_iff.1 hr₁
        have hy := ptr_le_ptr.1 hx
        rcases List.mem_append.1 ha with ha | ha
        · have hay := (List.pairwise_append.1 hp₁).2.2 a ha y (by simp)
          omega
        · rw [List.mem_singleton.1 ha] at hge
          omega
  have hhigh : ∀ a ∈ regs₂, g.head + g.rpages ≤ a.head := by
    intro a ha
    have hgt := hbig _ (List.mem_map_of_mem ha)
    have hgt' : ¬ a.head ≤ g.head := fun hle => absurd (ptr_le_ptr.2 hle) (by omega)
    rcases hout a (List.mem_append_right _ ha) with hlt | hge
    · omega
    · exact hge
  refine ⟨regs₁, regs₂, rfl, by rw [hins]; simp, ?_⟩
  refine List.pairwise_append.2 ⟨hp₁, List.pairwise_cons.2 ⟨hhigh, hp₂⟩, fun a ha b hb => ?_⟩
  rcases List.mem_cons.1 hb with rfl | hb
  · exact hlow a ha
  · exact hp₁₂ a ha b hb

/-- The free lists after a region without free blocks took its place. -/
def addFree (free : ℕ → ℕ → List ℕ) (g : Region) : ℕ → ℕ → List ℕ :=
  Function.update free g.head fun _ => []

@[simp] theorem addFree_self (free : ℕ → ℕ → List ℕ) (g : Region) (k : ℕ) :
    addFree free g g.head k = [] := by
  rw [addFree, Function.update_self]

theorem addFree_of_ne {g : Region} {p : ℕ} (hne : p ≠ g.head) (k : ℕ) :
    addFree free g p k = free p k := by
  rw [addFree, Function.update_of_ne hne]

/-- A new region has no free blocks. -/
theorem isFree_add {regs' : List Region} {g : Region} {f : Blk} (hne : ∀ g' ∈ regs, g'.head ≠ g.head)
    (hmem : ∀ g', g' ∈ regs' ↔ g' = g ∨ g' ∈ regs)
    (hf : (⟨regs', addFree free g, live⟩ : Shape).IsFree f) :
    (⟨regs, free, live⟩ : Shape).IsFree f := by
  obtain ⟨g', hg', hk, hpg⟩ := hf
  dsimp only at hpg
  rcases (hmem g').1 hg' with rfl | hg'
  · rw [addFree_self] at hpg
    exact absurd hpg List.not_mem_nil
  · rw [addFree_of_ne (hne g' hg')] at hpg
    exact ⟨g', hg', hk, hpg⟩

/-- **The rule for a new region**: its header and its empty lists are in memory, and the other
headers and links keep their values. -/
theorem Inv.addRegion (h : Inv st ⟨regs, free, live⟩) (st' : State) {g : Region} (hv : g.Valid)
    (hroom : regs.length + 1 < pframeMaxRegions)
    (hout : ∀ g' ∈ regs, g'.head + g'.rpages ≤ g.head ∨ g.head + g.rpages ≤ g'.head)
    (hcount : st'.regionCount = st.regionCount + 1)
    (htable : (List.range (st.regionCount + 1)).map st'.regions =
      (List.range (st.regionCount + 1)).map (insertRegion (ptr g.head) st.regionCount st.regions))
    (hslave : ∀ r, r ≠ ptr g.head → st'.slaves r = st.slaves r)
    (hheader : HeaderOk (st'.slaves (ptr g.head)) g)
    (hcnt : (st'.slaves (ptr g.head)).orderBlkCnt = fun _ => 0)
    (hbits : (st'.slaves (ptr g.head)).bitmap = fun _ _ => false)
    (hnull : ∀ k, st'.mem (Loc.free (ptr g.head) k) = 0)
    (hfree : ∀ r k, r ≠ ptr g.head → st'.mem (Loc.free r k) = st.mem (Loc.free r k))
    (hnext : ∀ p, st'.mem (Loc.next p) = st.mem (Loc.next p)) :
    ∃ regs', Inv st' ⟨regs', addFree free g, live⟩ ∧ ∀ g', g' ∈ regs' ↔ g' = g ∨ g' ∈ regs := by
  have hpos : 0 < g.rpages := by
    have hlt := hv.lt
    have hsum := hv.sum
    omega
  obtain ⟨regs₁, regs₂, rfl, htable', hsorted⟩ := sorted_insert h hpos hout
  have hmem : ∀ g', g' ∈ regs₁ ++ g :: regs₂ ↔ g' = g ∨ g' ∈ regs₁ ++ regs₂ := by
    intro g'
    simp only [List.mem_append, List.mem_cons]
    tauto
  have hne : ∀ g' ∈ regs₁ ++ regs₂, g'.head ≠ g.head := by
    intro g' hg' he
    have hlt := (h.valid g' hg').lt
    have hsum := (h.valid g' hg').sum
    rcases hout g' hg' with hle | hle <;> omega
  have hptr : ∀ g' ∈ regs₁ ++ regs₂, ptr g'.head ≠ ptr g.head := fun g' hg' he =>
    hne g' hg' (ptr_injective he)
  have hlen : (regs₁ ++ g :: regs₂).length = (regs₁ ++ regs₂).length + 1 := by simp; omega
  have hold : ∀ f, (⟨regs₁ ++ g :: regs₂, addFree free g, live⟩ : Shape).IsFree f →
      (⟨regs₁ ++ regs₂, free, live⟩ : Shape).IsFree f := fun _ hf => isFree_add hne hmem hf
  refine ⟨regs₁ ++ g :: regs₂, ⟨?_, ?_, ?_, hsorted, ?_, ?_, ?_, ?_, h.sepLive, ?_, ?_⟩, hmem⟩
  · rw [hcount, h.count, hlen]
  · rw [hlen]
    exact hroom
  · rw [hcount, htable, htable']
  · intro g' hg'
    rcases (hmem g').1 hg' with rfl | hg'
    · exact hv
    · exact h.valid g' hg'
  · intro g' hg'
    rcases (hmem g').1 hg' with rfl | hg'
    · exact hheader
    · rw [hslave _ (hptr g' hg')]
      exact h.header g' hg'
  · intro g' hg' k hk
    rcases (hmem g').1 hg' with rfl | hg'
    · dsimp only
      rw [addFree_self]
      exact ⟨hnull k, by rw [hcnt]; rfl, List.nodup_nil, by simp, by simp, by simp,
        fun j hj => by rw [hbits] at hj; exact absurd hj (by simp)⟩
    · dsimp only
      rw [addFree_of_ne (hne g' hg')]
      have hsame := hslave _ (hptr g' hg')
      exact (h.list g' hg' k hk).congr (by rw [hsame]) (by rw [hsame]) (hfree _ _ (hptr g' hg'))
        fun pg _ => hnext _
  · exact fun b b' hb hb' => h.sepFree b b' (hold b hb) (hold b' hb')
  · exact fun b hb f hf => h.sepMix b hb f (hold f hf)
  · intro b hb
    obtain ⟨hord, hdvd, g', hg', hin⟩ := h.live b hb
    exact ⟨hord, hdvd, g', (hmem g').2 (Or.inr hg'), hin⟩

/-- **Adding a region** that is apart from the others. -/
theorem kbudAddRegion_spec (h : Inv st ⟨regs, free, live⟩) {p len : ℕ}
    (hend : 4096 * p + len ≤ 2 ^ 46) (hfit : 4096 * headerPages (len / 4096) < len)
    (hroom : regs.length + 1 < pframeMaxRegions)
    (hout : ∀ g ∈ regs, g.head + g.rpages ≤ p ∨ p + len / 4096 ≤ g.head) :
    ∃ st' regs', kbudAddRegion st (4096 * p) len = some (ptr p, st') ∧
      Inv st' ⟨regs', addFree free (donated p len), live⟩ ∧
      ∀ g, g ∈ regs' ↔ g = donated p len ∨ g ∈ regs := by
  have hcount := h.count
  dsimp only at hcount
  obtain ⟨s, -, hrun, hok, hcnt, hbits⟩ :=
    kbudAddRegion_accept (p := p) (by omega) (by omega) hfit
      (show st.regionCount + 1 < pframeMaxRegions by omega)
  have hself : ((st.enter (ptr p)).setSlave (ptr p) s).slaves (ptr p) = s := Function.update_self ..
  obtain ⟨regs', hinv, hmem⟩ := h.addRegion ((st.enter (ptr p)).setSlave (ptr p) s)
    (donated_valid hend hfit) hroom hout rfl
    (enter_regions st (ptr p))
    (fun r hr => (Function.update_of_ne hr _ _).trans (Function.update_of_ne hr _ _))
    (by rw [show (donated p len).head = p from rfl, hself]; exact hok)
    (by rw [show (donated p len).head = p from rfl, hself]; exact hcnt)
    (by rw [show (donated p len).head = p from rfl, hself]; exact hbits)
    (fun k => if_pos rfl) (fun r k hr => if_neg hr) (fun q => rfl)
  exact ⟨_, regs', hrun, hinv, hmem⟩

/-! ### Carving the range -/

/-- **The order of the next block**: the block is aligned to its size and lies in the range. -/
theorem rangeOrder_spec (s : SlaveBuddy) (cur : ℕ) {m : ℕ} (hm : 0 < m) (hlt : m < 2 ^ 35) :
    rangeOrder s (4096 * cur) (4096 * m) ≤ 10 ∧
      2 ^ rangeOrder s (4096 * cur) (4096 * m) ∣ cur ∧
      2 ^ rangeOrder s (4096 * cur) (4096 * m) ≤ m := by
  have hlen : 63 - Word.clz (4096 * m / pageSize) = m.log2 := by
    rw [show pageSize = 4096 from rfl, Nat.mul_div_cancel_left _ (by decide)]
    exact Word.sub_clz (by omega) (by omega)
  have hptr : 2 ^ kbudOrderIdx (4096 * cur) ∣ cur := by
    have hdvd := Word.two_pow_ctz_dvd (4096 * cur)
    unfold kbudOrderIdx
    by_cases hc : 12 ≤ Word.ctz (4096 * cur)
    · obtain ⟨d, hd⟩ := Nat.exists_eq_add_of_le hc
      rw [hd, Nat.pow_add] at hdvd
      rw [hd, Nat.add_sub_cancel_left]
      exact Nat.dvd_of_mul_dvd_mul_left (by decide) hdvd
    · rw [Nat.sub_eq_zero_of_le (by omega)]
      exact Nat.one_dvd _
  have hle : rangeOrder s (4096 * cur) (4096 * m) ≤ min (63 - Word.clz (4096 * m / pageSize))
      (kbudOrderIdx (4096 * cur)) := (Nat.min_le_right _ _).trans (Nat.min_le_right _ _)
  refine ⟨(Nat.min_le_right _ _).trans (Nat.min_le_left _ _), ?_, ?_⟩
  · exact Nat.dvd_trans (Nat.pow_dvd_pow 2 (hle.trans (Nat.min_le_right _ _))) hptr
  · rw [hlen] at hle
    exact (Nat.pow_le_pow_right (by decide) (hle.trans (Nat.min_le_left _ _))).trans
      (Nat.log2_self_le (by omega))

/-- **Taking pages in hand** that belong to no block. -/
theorem Inv.take {b : Blk} {g : Region} (h : Inv st ⟨regs, free, live⟩) (hg : g ∈ regs)
    (hin : g.In b) (hord : b.ord ≤ 10) (hdvd : 2 ^ b.ord ∣ b.pg)
    (hfree : ∀ f, (⟨regs, free, live⟩ : Shape).IsFree f → Apart b f)
    (hlive : ∀ a ∈ live, Apart b a) : Inv st ⟨regs, free, b :: live⟩ := by
  refine ⟨h.count, h.le, h.table, h.sorted, h.valid, h.header, h.list, h.sepFree,
    List.pairwise_cons.2 ⟨hlive, h.sepLive⟩, fun a ha f hf => ?_, fun a ha => ?_⟩
  · rcases List.mem_cons.1 ha with rfl | ha
    · exact hfree f hf
    · exact h.sepMix a ha f hf
  · rcases List.mem_cons.1 ha with rfl | ha
    · exact ⟨hord, hdvd, g, hg, hin⟩
    · exact h.live a ha

/-- Blocks of different regions are apart. -/
theorem Inv.apart_of_in {sh : Shape} (h : Inv st sh) {g g' : Region} (hg : g ∈ sh.regs)
    (hg' : g' ∈ sh.regs) {b b' : Blk} (hin : g.In b) (hin' : g'.In b') (hne : g ≠ g') :
    Apart b b' := by
  have hap := h.region_apart hg hg' hne
  have h₁ := (h.valid g hg).lt
  have h₂ := (h.valid g hg).sum
  have h₁' := (h.valid g' hg').lt
  have h₂' := (h.valid g' hg').sum
  obtain ⟨h₃, h₄⟩ := hin
  obtain ⟨h₃', h₄'⟩ := hin'
  unfold Apart
  omega

/-- The address behind a block. -/
theorem add_block {cur ord : ℕ} (h : 4096 * (cur + 2 ^ ord) < 2 ^ 64) :
    Word.add (4096 * cur) (pageSize * 2 ^ ord) = 4096 * (cur + 2 ^ ord) := by
  unfold pageSize
  rw [Word.add_of_lt (by omega)]
  omega

/-- The bytes that remain behind a block. -/
theorem sub_block {m ord : ℕ} (hle : 2 ^ ord ≤ m) (hlt : 4096 * m < 2 ^ 64) :
    Word.sub (4096 * m) (pageSize * 2 ^ ord) = 4096 * (m - 2 ^ ord) := by
  unfold pageSize
  rw [Word.sub_of_le (by omega) (by omega)]
  omega

theorem freeRangeLoop_step {r n phys size : ℕ} {a : Bool} {st₁ : State} (hsize : size ≠ 0)
    (hpush : kbudPush st r phys (rangeOrder (st.slaves r) phys size) = some (a, st₁)) :
    freeRangeLoop r (n + 1) st phys size = freeRangeLoop r n st₁
      (Word.add phys (pageSize * 2 ^ rangeOrder (st.slaves r) phys size))
      (Word.sub size (pageSize * 2 ^ rangeOrder (st.slaves r) phys size)) := by
  simp only [freeRangeLoop, hsize, if_false, hpush, Option.bind_eq_bind, Option.bind_some]

/-- **Carving a range**: the pages of the region from `cur` on, which belong to no block, become
free blocks or are lost; the other regions keep theirs. -/
theorem freeRangeLoop_spec {g : Region} (hg : g ∈ regs) :
    ∀ (n m cur : ℕ) {st : State} {free : ℕ → ℕ → List ℕ}, Inv st ⟨regs, free, live⟩ →
      cur + m = g.start + g.pages → g.start ≤ cur → m < n →
      (∀ b, (⟨regs, free, live⟩ : Shape).IsFree b ∨ b ∈ live → g.In b → b.pg + 2 ^ b.ord ≤ cur) →
      ∃ st' free', freeRangeLoop (ptr g.head) n st (4096 * cur) (4096 * m) = some st' ∧
        Inv st' ⟨regs, free', live⟩ ∧ ∀ g' ∈ regs, g' ≠ g →
          (⟨regs, free', live⟩ : Shape).pages g' = (⟨regs, free, live⟩ : Shape).pages g' := by
  intro n
  induction n with
  | zero => intro m cur st free _ _ _ hm _; exact absurd hm (Nat.not_lt_zero m)
  | succ n ih =>
      intro m cur st free h hsum hstart hm hbelow
      have hv := h.valid g hg
      have hsum' := hv.sum
      have hle := hv.le
      rcases Nat.eq_zero_or_pos m with rfl | hpos
      · exact ⟨st, free, rfl, h, fun _ _ _ => rfl⟩
      obtain ⟨hord, hdvd, hfits⟩ :=
        rangeOrder_spec (st.slaves (ptr g.head)) cur hpos (by omega)
      generalize horder : rangeOrder (st.slaves (ptr g.head)) (4096 * cur) (4096 * m) = ord
        at hord hdvd hfits
      have hin : g.In ⟨ord, cur⟩ := ⟨hstart, by dsimp only; omega⟩
      have hap : ∀ b, (⟨regs, free, live⟩ : Shape).IsFree b ∨ b ∈ live → Apart ⟨ord, cur⟩ b := by
        intro b hb
        have hb' : ∃ g' ∈ regs, g'.In b := by
          rcases hb with hb | hb
          · exact (h.free_in hb).2
          · exact (h.live b hb).2.2
        obtain ⟨g', hg', hin'⟩ := hb'
        by_cases hgg : g = g'
        · subst hgg
          exact Or.inr (hbelow b hb hin')
        · exact h.apart_of_in hg hg' hin hin' hgg
      have htake := h.take hg hin hord hdvd (fun f hf => hap f (Or.inl hf)) fun a ha => hap a (Or.inr ha)
      obtain ⟨a, st₁, free₁, hpush, hinv₁, hpages₁, hold⟩ := kbudPush_cases htake hg hin
      have hbelow₁ : ∀ b, (⟨regs, free₁, live⟩ : Shape).IsFree b ∨ b ∈ live → g.In b →
          b.pg + 2 ^ b.ord ≤ cur + 2 ^ ord := by
        rintro b hb hinb
        rcases hb with hb | hb
        · rcases hold b hb with rfl | hb
          · exact le_rfl
          · exact (hbelow b (Or.inl hb) hinb).trans (Nat.le_add_right _ _)
        · exact (hbelow b (Or.inr hb) hinb).trans (Nat.le_add_right _ _)
      have hpow := Nat.two_pow_pos ord
      obtain ⟨st', free', hrun, hinv', hpages'⟩ := ih (m - 2 ^ ord) (cur + 2 ^ ord) hinv₁ (by omega)
        (by omega) (by omega) hbelow₁
      refine ⟨st', free', ?_, hinv', fun g' hg' hne => ?_⟩
      · have hadd := add_block (show 4096 * (cur + 2 ^ ord) < 2 ^ 64 by omega)
        have hsub := sub_block (show 2 ^ ord ≤ m by omega) (show 4096 * m < 2 ^ 64 by omega)
        rw [freeRangeLoop_step (by omega) (by rw [horder]; exact hpush), horder, hadd, hsub]
        exact hrun
      · rw [hpages' g' hg' hne, hpages₁ g' hg' fun he => absurd he hne]
        unfold Shape.pages
        rw [livePages_cons_out (h.not_in hg hg' hin hne)]

/-! ### The donation -/

theorem kbudFreeRange_eq {vaddr len phys r : ℕ} {st₁ : State}
    (hphys : pageAlignDown (virtToPhysPm vaddr) = phys)
    (hfind : findValidSlave st phys = kpageErr)
    (hadd : kbudAddRegion st phys len = some (r, st₁)) (hr : r ≠ kpageErr) :
    kbudFreeRange st vaddr len = freeRangeLoop r addrSpace st₁
      (Word.add phys (Word.alignUp (Word.sub (st₁.slaves r).mbase (st₁.slaves r).rbase) pageSize))
      (Word.sub (pageAlignDown len)
        (Word.alignUp (Word.sub (st₁.slaves r).mbase (st₁.slaves r).rbase) pageSize)) := by
  simp only [kbudFreeRange, hphys, hfind, if_true, hadd, Option.bind_eq_bind, Option.bind_some, hr,
    if_false]

/-- **A donation adds a region**, and the blocks of the other regions stay as they are. -/
theorem kbudFreeRange_spec (h : Inv st ⟨regs, free, live⟩) {vaddr p len : ℕ}
    (hphys : pageAlignDown (virtToPhysPm vaddr) = 4096 * p) (hend : 4096 * p + len ≤ 2 ^ 46)
    (hfit : 4096 * headerPages (len / 4096) < len) (hroom : regs.length + 1 < pframeMaxRegions)
    (hout : ∀ g ∈ regs, g.head + g.rpages ≤ p ∨ p + len / 4096 ≤ g.head) :
    ∃ st' regs' free', kbudFreeRange st vaddr len = some st' ∧ Inv st' ⟨regs', free', live⟩ ∧
      (∀ g, g ∈ regs' ↔ g = donated p len ∨ g ∈ regs) ∧
      (∀ b ∈ live, ¬ (donated p len).In b) ∧
      ∀ g ∈ regs,
        (⟨regs', free', live⟩ : Shape).pages g = (⟨regs, free, live⟩ : Shape).pages g := by
  have hv := donated_valid hend hfit
  have hlt : p < p + headerPages (len / 4096) := hv.lt
  have hsum : p + headerPages (len / 4096) + (len / 4096 - headerPages (len / 4096)) =
      p + len / 4096 := hv.sum
  have hne : ∀ g ∈ regs, g.head ≠ p := by
    intro g hg he
    have hlt' := (h.valid g hg).lt
    have hsum' := (h.valid g hg).sum
    rcases hout g hg with hle | hle <;> omega
  have hfind : findValidSlave st (4096 * p) = kpageErr := findValidSlave_out h fun g hg => by
    rcases hout g hg with hle | hle
    · exact Or.inr hle
    · exact Or.inl (by omega)
  obtain ⟨st₁, regs', hadd, hinv₁, hmem⟩ := kbudAddRegion_spec h hend hfit hroom hout
  have hg : donated p len ∈ regs' := (hmem _).2 (Or.inl rfl)
  have hs : HeaderOk (st₁.slaves (ptr p)) (donated p len) := hinv₁.header _ hg
  have hold : ∀ b, (⟨regs', addFree free (donated p len), live⟩ : Shape).IsFree b ∨ b ∈ live →
      ¬ (donated p len).In b := by
    intro b hb hin
    have hb' : ∃ g' ∈ regs, g'.In b := by
      rcases hb with hb | hb
      · exact (h.free_in (isFree_add hne hmem hb)).2
      · exact (h.live b hb).2.2
    obtain ⟨g', hg', hin'⟩ := hb'
    exact hne g' hg' (congrArg Region.head
      (hinv₁.eq_of_in ((hmem g').2 (Or.inr hg')) hg hin' hin rfl))
  obtain ⟨hoffs, hstart, hsize⟩ := hs.carve_start (by omega) (by omega) hfit
  obtain ⟨st', free', hrun, hinv', hpages⟩ := freeRangeLoop_spec hg addrSpace
    (len / 4096 - headerPages (len / 4096)) (p + headerPages (len / 4096)) hinv₁ rfl le_rfl
    (by unfold addrSpace; omega) fun b hb hin => absurd hin (hold b hb)
  refine ⟨st', regs', free', ?_, hinv', hmem, fun b hb => hold b (Or.inr hb), fun g hg' => ?_⟩
  · rw [kbudFreeRange_eq hphys hfind hadd (ptr_ne_kpageErr p), hoffs, hstart, hsize]
    exact hrun
  · rw [hpages g ((hmem g).2 (Or.inr hg')) fun he => hne g hg' (congrArg Region.head he)]
    have hfree : freePages (addFree free (donated p len)) g = freePages free g :=
      Finset.sum_congr rfl fun k _ => by rw [addFree_of_ne (hne g hg')]
    unfold Shape.pages
    dsimp only
    rw [hfree]

end Buddy

end SyncKernel
