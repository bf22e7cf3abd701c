/-
**Finding the region of an address.**

`find_buddy_slave` searches the table, which lists the regions by address, for the last one that
starts at or below an address; `find_valid_slave` then checks the end of that region.

Main definitions:

* `Buddy.TableOrdered`, `Buddy.ValidTable` — a table in order, and one of valid regions that are apart.

Main results:

* `Buddy.searchSlave_spec`, `Buddy.searchSlaveLoop_eq` — the binary search, and that it ends;
* `Buddy.findValidSlave_region` — **an address is found exactly in its region**;
* `Buddy.findBuddySlave_spec` — the last region that starts at or below a page;
* `Buddy.findValidSlave_in`, `Buddy.findValidSlave_out` — **a page is found exactly in its region**.
-/

import SyncKernel.Buddy.Invariant

set_option relaxedAutoImplicit false
set_option autoImplicit false

namespace SyncKernel

namespace Buddy

variable {st : State} {sh : Shape}

/-! ### The binary search -/

/-- **The binary search** ends with the last index of the table whose region starts at or below the
address, when the regions that do are the first ones of the table. -/
theorem searchSlave_spec {regions : ℕ → ℕ} {phy c : ℕ}
    (hmono : ∀ i j : ℕ, i ≤ j → j < c → virtToPhysPm (regions j) ≤ phy →
      virtToPhysPm (regions i) ≤ phy) :
    ∀ (n : ℕ) (lo hi : ℤ), 0 ≤ lo → lo ≤ hi + 1 → hi < c → hi + 1 - lo ≤ n →
      lo - 1 ≤ searchSlave regions phy n lo hi (lo - 1) ∧
      searchSlave regions phy n lo hi (lo - 1) ≤ hi ∧
      ∀ i : ℕ, lo ≤ i → (i : ℤ) ≤ hi →
        (virtToPhysPm (regions i) ≤ phy ↔ (i : ℤ) ≤ searchSlave regions phy n lo hi (lo - 1)) := by
  intro n
  induction n with
  | zero =>
      intro lo hi _ hle _ hn
      simp only [searchSlave]
      refine ⟨le_rfl, by omega, fun i h₁ h₂ => ?_⟩
      omega
  | succ n ih =>
      intro lo hi hlo hle hhi hn
      rw [searchSlave]
      by_cases hc : lo ≤ hi
      · rw [if_pos hc]
        dsimp only
        set mid := (lo + hi) / 2 with hmid
        have h₁ : lo ≤ mid := by omega
        have h₂ : mid ≤ hi := by omega
        have hnat : ((mid.toNat : ℕ) : ℤ) = mid := Int.toNat_of_nonneg (by omega)
        by_cases hm : virtToPhysPm (regions mid.toNat) ≤ phy
        · rw [if_pos hm]
          have hih := ih (mid + 1) hi (by omega) (by omega) hhi (by omega)
          rw [Int.add_sub_cancel] at hih
          obtain ⟨ha, hb, hiff⟩ := hih
          refine ⟨by omega, hb, fun i hi₁ hi₂ => ?_⟩
          by_cases him : mid + 1 ≤ (i : ℤ)
          · exact hiff i him hi₂
          · exact ⟨fun _ => by omega, fun _ => hmono i mid.toNat (by omega) (by omega) hm⟩
        · rw [if_neg hm]
          obtain ⟨ha, hb, hiff⟩ := ih lo (mid - 1) hlo (by omega) (by omega) (by omega)
          refine ⟨ha, by omega, fun i hi₁ hi₂ => ?_⟩
          by_cases him : (i : ℤ) ≤ mid - 1
          · exact hiff i hi₁ him
          · exact ⟨fun hp => absurd (hmono mid.toNat i (by omega) (by omega) hp) hm, fun _ => by omega⟩
      · rw [if_neg hc]
        refine ⟨le_rfl, by omega, fun i h₁ h₂ => ?_⟩
        omega

/-- The loop of `find_buddy_slave`, which may not end. -/
def searchSlaveLoop (regions : ℕ → ℕ) (phy : ℕ) : ℕ → ℤ → ℤ → ℤ → Option ℤ
  | 0, _, _, _ => none
  | n + 1, lo, hi, owner =>
      if lo ≤ hi then
        let mid := (lo + hi) / 2
        if virtToPhysPm (regions mid.toNat) ≤ phy then searchSlaveLoop regions phy n (mid + 1) hi mid
        else searchSlaveLoop regions phy n lo (mid - 1) owner
      else some owner

/-- **The search ends**: each turn takes an index away. -/
theorem searchSlaveLoop_eq (regions : ℕ → ℕ) (phy : ℕ) {n : ℕ} {lo hi : ℤ} (owner : ℤ)
    (hle : lo ≤ hi + 1) (hn : hi + 1 - lo < n) :
    searchSlaveLoop regions phy n lo hi owner = some (searchSlave regions phy n lo hi owner) := by
  induction n generalizing lo hi owner with
  | zero => omega
  | succ n ih =>
      rw [searchSlaveLoop, searchSlave]
      by_cases hc : lo ≤ hi
      · rw [if_pos hc, if_pos hc]
        by_cases hm : virtToPhysPm (regions ((lo + hi) / 2).toNat) ≤ phy
        · simp only [hm, if_true]
          exact ih _ (by omega) (by omega)
        · simp only [hm, if_false]
          exact ih _ (by omega) (by omega)
      · rw [if_neg hc, if_neg hc]

/-! ### A table in order -/

/-- The table is in order, and its entries are addresses of the direct map. -/
structure TableOrdered (st : State) : Prop where
  sorted : ((List.range st.regionCount).map st.regions).Pairwise (· ≤ ·)
  direct : ∀ r ∈ (List.range st.regionCount).map st.regions, kernelPhmap ≤ r ∧ r < 2 ^ 64

namespace TableOrdered

theorem le (h : TableOrdered st) {i j : ℕ} (hij : i ≤ j) (hj : j < st.regionCount) :
    st.regions i ≤ st.regions j := by
  rcases Nat.lt_or_eq_of_le hij with hlt | rfl
  · have hpair := List.pairwise_iff_getElem.1 h.sorted i j (by simp; omega) (by simpa using hj) hlt
    simpa using hpair
  · exact le_rfl

theorem bounds (h : TableOrdered st) {i : ℕ} (hi : i < st.regionCount) :
    kernelPhmap ≤ st.regions i ∧ st.regions i < 2 ^ 64 :=
  h.direct _ (List.mem_map.2 ⟨i, List.mem_range.2 hi, rfl⟩)

theorem phys (h : TableOrdered st) {i : ℕ} (hi : i < st.regionCount) :
    virtToPhysPm (st.regions i) = st.regions i - kernelPhmap := by
  obtain ⟨hlo, hhi⟩ := h.bounds hi
  exact Word.sub_of_le hlo hhi

/-- **The last region** that starts at or below an address. -/
theorem findBuddySlave_last (h : TableOrdered st) (hle : st.regionCount ≤ pframeMaxRegions) (phy : ℕ) :
    (findBuddySlave st phy = kpageErr ∧ ∀ i < st.regionCount, phy < virtToPhysPm (st.regions i)) ∨
      ∃ i < st.regionCount, findBuddySlave st phy = st.regions i ∧
        ∀ j < st.regionCount, (virtToPhysPm (st.regions j) ≤ phy ↔ j ≤ i) := by
  by_cases hzero : st.regionCount = 0
  · left
    rw [findBuddySlave, if_pos (Or.inl hzero)]
    exact ⟨rfl, fun i hi => absurd hi (by omega)⟩
  have hmono : ∀ i j : ℕ, i ≤ j → j < st.regionCount → virtToPhysPm (st.regions j) ≤ phy →
      virtToPhysPm (st.regions i) ≤ phy := by
    intro i j hij hj hp
    have hle := h.le hij hj
    rw [h.phys hj] at hp
    rw [h.phys (by omega)]
    omega
  obtain ⟨hlo, hhi, hiff⟩ := searchSlave_spec hmono (st.regionCount + 1) 0 (st.regionCount - 1)
    le_rfl (by omega) (by omega) (by omega)
  have hrun : findBuddySlave st phy =
      if searchSlave st.regions phy (st.regionCount + 1) 0 (st.regionCount - 1) (-1) ≠ -1
      then st.regions (searchSlave st.regions phy (st.regionCount + 1) 0
        (st.regionCount - 1) (-1)).toNat
      else kpageErr := if_neg (by omega)
  rw [Int.zero_sub] at hlo hhi hiff
  rw [hrun]
  generalize searchSlave st.regions phy (st.regionCount + 1) 0 (st.regionCount - 1) (-1) = o at hlo hhi hiff
  by_cases ho : o = -1
  · refine Or.inl ⟨if_neg fun hne => hne ho, fun i hi => ?_⟩
    by_contra hge
    have hp := (hiff i (by omega) (by omega)).1 (by omega)
    omega
  · refine Or.inr ⟨o.toNat, by omega, if_pos ho, fun j hj => ?_⟩
    rw [hiff j (by omega) (by omega)]
    omega

end TableOrdered

/-! ### A table of valid regions -/

/-- The address is in the span of a region, its header included. -/
def SlaveBuddy.InSpan (s : SlaveBuddy) (phy : ℕ) : Prop :=
  s.rbase ≤ phy ∧ phy < s.mbase + s.totalPages * pageSize

instance (s : SlaveBuddy) (phy : ℕ) : Decidable (s.InSpan phy) := inferInstanceAs (Decidable (_ ∧ _))

/-- A table of valid regions: each header is at the base of its region, and the spans are apart. -/
structure ValidTable (st : State) : Prop extends TableOrdered st where
  pos : 1 ≤ st.regionCount
  few : st.regionCount ≤ pframeMaxRegions
  base : ∀ i < st.regionCount, virtToPhysPm (st.regions i) = (st.slaves (st.regions i)).rbase
  span : ∀ i < st.regionCount, (st.slaves (st.regions i)).rbase < (st.slaves (st.regions i)).mbase ∧
    (st.slaves (st.regions i)).mbase + (st.slaves (st.regions i)).totalPages * pageSize < 2 ^ 64
  apart : ∀ i < st.regionCount, ∀ j < st.regionCount, i ≠ j → ∀ phy,
    (st.slaves (st.regions i)).InSpan phy → ¬ (st.slaves (st.regions j)).InSpan phy

namespace ValidTable

theorem base_mem (h : ValidTable st) {i : ℕ} (hi : i < st.regionCount) :
    (st.slaves (st.regions i)).InSpan (st.slaves (st.regions i)).rbase := by
  obtain ⟨hlt, -⟩ := h.span i hi
  exact ⟨le_rfl, by omega⟩

/-- The check of the end of a region. -/
theorem findValidSlave_eq (h : ValidTable st) {i phy : ℕ} (hi : i < st.regionCount)
    (hfind : findBuddySlave st phy = st.regions i)
    (hbase : (st.slaves (st.regions i)).rbase ≤ phy) :
    ((st.slaves (st.regions i)).InSpan phy ∧ findValidSlave st phy = st.regions i) ∨
      (¬ (st.slaves (st.regions i)).InSpan phy ∧ findValidSlave st phy = kpageErr) := by
  obtain ⟨-, hend⟩ := h.span i hi
  obtain ⟨hlo, hhi⟩ := h.bounds hi
  have hlimit : Word.add (st.slaves (st.regions i)).mbase
      ((st.slaves (st.regions i)).totalPages * pageSize % 2 ^ 64) =
        (st.slaves (st.regions i)).mbase + (st.slaves (st.regions i)).totalPages * pageSize := by
    rw [Nat.mod_eq_of_lt (by omega), Word.add_of_lt hend]
  simp only [findValidSlave, hfind, hlimit]
  by_cases hphy : (st.slaves (st.regions i)).InSpan phy
  · by_cases herr : st.regions i = kpageErr
    · exact Or.inl ⟨hphy, by rw [if_pos (Or.inl herr), herr]⟩
    · refine Or.inl ⟨hphy, if_neg (not_or.2 ⟨herr, ?_⟩)⟩
      exact Nat.not_le.2 hphy.2
  · refine Or.inr ⟨hphy, if_pos (Or.inr ?_)⟩
    by_contra hlt
    exact hphy ⟨hbase, Nat.lt_of_not_le hlt⟩

/-- **An address is found exactly in its region.** -/
theorem findValidSlave_region (h : ValidTable st) (phy : ℕ) :
    searchSlaveLoop st.regions phy (st.regionCount + 1) 0 (st.regionCount - 1) (-1) =
        some (searchSlave st.regions phy (st.regionCount + 1) 0 (st.regionCount - 1) (-1)) ∧
      (∀ i < st.regionCount, (st.slaves (st.regions i)).InSpan phy → findValidSlave st phy = st.regions i) ∧
      ((∀ i < st.regionCount, ¬ (st.slaves (st.regions i)).InSpan phy) →
        findValidSlave st phy = kpageErr) := by
  have hpos := h.pos
  refine ⟨searchSlaveLoop_eq _ _ _ (by omega) (by omega), ?_⟩
  rcases h.findBuddySlave_last h.few phy with ⟨hrun, hnone⟩ | ⟨i, hi, hrun, hiff⟩
  · have herr : findValidSlave st phy = kpageErr := by
      simp only [findValidSlave, hrun, true_or, if_true]
    refine ⟨fun j hj hin => ?_, fun _ => herr⟩
    have hlt := hnone j hj
    rw [h.base j hj] at hlt
    exact absurd hin.1 (Nat.not_le.2 hlt)
  · have hbase := (hiff i hi).2 le_rfl
    rw [h.base i hi] at hbase
    rcases h.findValidSlave_eq hi hrun hbase with ⟨hin, hout⟩ | ⟨hin, hout⟩
    · refine ⟨fun j hj hin' => ?_, fun hnone => absurd hin (hnone i hi)⟩
      by_contra hne
      have hij : i ≠ j := by
        rintro rfl
        exact hne hout
      exact h.apart i hi j hj hij phy hin hin'
    · refine ⟨fun j hj hin' => ?_, fun _ => hout⟩
      -- the base of the last region would be in the span of an earlier one
      have hle : j ≤ i := (hiff j hj).1 (by rw [h.base j hj]; exact hin'.1)
      have hji : j ≠ i := by
        rintro rfl
        exact hin hin'
      have hmem : (st.slaves (st.regions j)).InSpan (st.slaves (st.regions i)).rbase := by
        refine ⟨?_, hbase.trans_lt hin'.2⟩
        rw [← h.base j hj, ← h.base i hi, h.phys hj, h.phys hi]
        exact Nat.sub_le_sub_right (h.le hle hi) _
      exact absurd (h.base_mem hi) (h.apart j hj i hi hji _ hmem)

end ValidTable

/-- Two regions of 16 pages, which begin 1 MiB apart, each with a header of one page. -/
def twoRegions : State where
  regions i := kernelPhmap + 0x100000 * i
  regionCount := 2
  slaves r := { SlaveBuddy.zeroed with
    rbase := r - kernelPhmap
    mbase := r - kernelPhmap + pageSize
    totalPages := 15 }
  mem _ := 0

theorem validTable_twoRegions : ValidTable twoRegions := by
  have hbase : ∀ i, kernelPhmap + 0x100000 * i - kernelPhmap = 0x100000 * i := by omega
  refine ⟨⟨?_, ?_⟩, by decide, by decide, ?_, ?_, ?_⟩
  · decide
  · decide
  · intro i hi
    have hi' : i < 2 := hi
    have hlt : kernelPhmap + 0x100000 * i < 2 ^ 64 := by
      unfold kernelPhmap
      omega
    exact Word.sub_of_le (Nat.le_add_right _ _) hlt
  · intro i hi
    have hi' : i < 2 := hi
    simp only [twoRegions, pageSize, hbase]
    omega
  · rintro i - j - hij phy ⟨hi₁, hi₂⟩ ⟨hj₁, hj₂⟩
    unfold twoRegions pageSize at *
    simp only [hbase] at *
    omega

/-- An address of the second region, and one between the two. -/
theorem findValidSlave_region_two :
    findValidSlave twoRegions 0x10fff0 = twoRegions.regions 1 ∧ findValidSlave twoRegions 0x20000 = kpageErr :=
  ⟨(validTable_twoRegions.findValidSlave_region 0x10fff0).2.1 1 (by decide) (by decide),
    (validTable_twoRegions.findValidSlave_region 0x20000).2.2 (by decide)⟩

/-! ### The table of regions -/

/-- The entries of the table. -/
theorem Inv.regions_eq (h : Inv st sh) {i : ℕ} (hi : i < sh.regs.length) :
    st.regions i = ptr (sh.regs[i]).head := by
  have hlen : i < st.regionCount := by
    rw [h.count]
    exact hi
  have heq := congrArg (fun l : List ℕ => l[i]?) h.table
  simpa [hlen, hi] using heq

theorem Inv.head_le (h : Inv st sh) {i j : ℕ} (hij : i ≤ j) (hj : j < sh.regs.length) :
    (sh.regs[i]).head ≤ (sh.regs[j]).head := by
  rcases Nat.lt_or_eq_of_le hij with hlt | rfl
  · have hpair := List.pairwise_iff_getElem.1 h.sorted i j (by omega) hj hlt
    omega
  · exact le_rfl

theorem Inv.tableOrdered (h : Inv st sh) : TableOrdered st := by
  have hbounds : ∀ g ∈ sh.regs, kernelPhmap ≤ ptr g.head ∧ ptr g.head < 2 ^ 64 := by
    intro g hg
    have hlt := (h.valid g hg).lt
    have hsum := (h.valid g hg).sum
    have hle := (h.valid g hg).le
    unfold ptr kernelPhmap
    omega
  constructor
  · rw [h.table, List.pairwise_map]
    exact h.sorted.imp fun hlt => ptr_le_ptr.2 (by omega)
  · rw [h.table]
    intro r hr
    obtain ⟨g, hg, rfl⟩ := List.mem_map.1 hr
    exact hbounds g hg

/-- **The last region** that starts at or below a page. -/
theorem findBuddySlave_spec (h : Inv st sh) (pg : ℕ) :
    (findBuddySlave st (4096 * pg) = kpageErr ∧ ∀ g ∈ sh.regs, pg < g.head) ∨
      ∃ g ∈ sh.regs, findBuddySlave st (4096 * pg) = ptr g.head ∧ g.head ≤ pg ∧
        ∀ g' ∈ sh.regs, g'.head ≤ pg → g'.head ≤ g.head := by
  have hcount := h.count
  have hle := h.le
  have hbase : ∀ i (hi : i < sh.regs.length),
      (virtToPhysPm (st.regions i) ≤ 4096 * pg ↔ (sh.regs[i]).head ≤ pg) := by
    intro i hi
    have hv := h.valid _ (List.getElem_mem hi)
    have hlt := hv.lt
    have hsum := hv.sum
    have hle := hv.le
    rw [h.regions_eq hi, virtToPhysPm_ptr (by omega)]
    omega
  rcases h.tableOrdered.findBuddySlave_last (by omega) (4096 * pg) with ⟨hrun, hnone⟩ | ⟨i, hi, hrun, hiff⟩
  · refine Or.inl ⟨hrun, fun g hg => ?_⟩
    obtain ⟨i, hi, rfl⟩ := List.mem_iff_getElem.1 hg
    have hlt := hnone i (by omega)
    have hb := hbase i hi
    omega
  · have hi' : i < sh.regs.length := by omega
    refine Or.inr ⟨_, List.getElem_mem hi', ?_, (hbase i hi').1 ((hiff i hi).2 le_rfl), fun g hg hle' => ?_⟩
    · rw [hrun, h.regions_eq hi']
    · obtain ⟨j, hj, rfl⟩ := List.mem_iff_getElem.1 hg
      exact h.head_le ((hiff j (by omega)).1 ((hbase j hj).2 hle')) hi'

/-- The region that a header says. -/
theorem HeaderOk.limit {s : SlaveBuddy} {g : Region} (hs : HeaderOk s g) (hg : g.Valid) :
    Word.add s.mbase (s.totalPages * pageSize % 2 ^ 64) = 4096 * (g.start + g.pages) := by
  have hsum := hg.sum
  have hle := hg.le
  rw [hs.mbase, hs.totalPages, Nat.mod_eq_of_lt (by unfold pageSize; omega),
    Word.add_of_lt (by unfold pageSize; omega)]
  unfold pageSize
  omega

/-- **A page of a region** is found there. -/
theorem findValidSlave_in (h : Inv st sh) {g : Region} (hg : g ∈ sh.regs) {pg : ℕ}
    (hlo : g.head ≤ pg) (hhi : pg < g.start + g.pages) :
    findValidSlave st (4096 * pg) = ptr g.head := by
  rcases findBuddySlave_spec h pg with ⟨-, hnone⟩ | ⟨g', hg', hrun, hle, hmax⟩
  · exact absurd (hnone g hg) (by omega)
  have hgg : g' = g := by
    by_contra hne
    have hap := h.region_apart hg' hg hne
    have hheads := hmax g hg hlo
    have hsum := (h.valid g hg).sum
    have hsum' := (h.valid g' hg').sum
    have hlt' := (h.valid g' hg').lt
    omega
  subst hgg
  unfold findValidSlave
  dsimp only
  rw [hrun, (h.header g' hg').limit (h.valid g' hg')]
  exact if_neg (not_or.2 ⟨ptr_ne_kpageErr _, by omega⟩)

/-- **A page of no region** is not found. -/
theorem findValidSlave_out (h : Inv st sh) {pg : ℕ}
    (hout : ∀ g ∈ sh.regs, pg < g.head ∨ g.head + g.rpages ≤ pg) :
    findValidSlave st (4096 * pg) = kpageErr := by
  unfold findValidSlave
  dsimp only
  rcases findBuddySlave_spec h pg with ⟨hrun, -⟩ | ⟨g, hg, hrun, hle, -⟩
  · exact if_pos (Or.inl hrun)
  · rw [hrun, (h.header g hg).limit (h.valid g hg)]
    have hsum := (h.valid g hg).sum
    rcases hout g hg with hlt | hge
    · omega
    · exact if_pos (Or.inr (by omega))

end Buddy

end SyncKernel
