/-
**A range that is too small for its header.**

`kbud_init_region` rejects a range whose header leaves nothing of it, and fills the header with ones.
The region stays in the table, and `kbud_free_range` goes on as if it had been accepted: the offset
of the memory wraps around to the start of physical memory, where the first push passes the check of
the bit, since all bounds are ones, and then writes through a pointer of ones.  Only the first page
of physical memory, rejected, leaves nothing to push; then an address of that page is resolved to
the rejected region.

Main definitions:

* `Buddy.callStep` — one call of the allocator;
* `Buddy.Unused` — no address is resolved to a region, and no block is taken from it;
* `Buddy.Harmless` — what a rejected donation should leave.

Main results:

* `Buddy.kbudAddRegion_reject` — the rejected region;
* `Buddy.rejected_harmful` — **no rejected range is harmless**.
-/

import SyncKernel.Buddy.Carve

set_option relaxedAutoImplicit false
set_option autoImplicit false

namespace SyncKernel

namespace Buddy

variable {st : State}

/-! ### A harmless donation -/

/-- One call of the allocator, with any arguments. -/
def callStep (st : State) : Op → Option State
  | Op.donate vaddr len => kbudFreeRange st vaddr len
  | Op.alloc order => (kbudAlloc st order).map Prod.snd
  | Op.free vaddr order => kbudFree st vaddr order

/-- No address is resolved to the region at `r`, and `kbud_alloc` takes no block from it. -/
structure Unused (r : ℕ) (st : State) : Prop where
  find : ∀ phy < 2 ^ 64, findValidSlave st phy ≠ r
  pick : ∀ req order blk, allocPick st req st.regionCount 0 ≠ some (r, order, blk)

/-- **A harmless donation**: it pushes no block, writes nothing outside the range, and its region is
not used in any later state. -/
structure Harmless (st : State) (vaddr len : ℕ) (st' : State) : Prop where
  pushed : ∀ a ∈ kbudFreeRangeAnswers st vaddr len, a = false
  next : ∀ p, ¬ (rangeBase vaddr ≤ virtToPhysPm p ∧ virtToPhysPm p < rangeBase vaddr + len) →
    st'.mem (Loc.next p) = st.mem (Loc.next p)
  other : ∀ r, r ≠ physToVirtPm (rangeBase vaddr) →
    st'.slaves r = st.slaves r ∧ ∀ k, st'.mem (Loc.free r k) = st.mem (Loc.free r k)
  later : ∀ os s, Run.exec callStep st' os = some s → Unused (physToVirtPm (rangeBase vaddr)) s

/-! ### The rejected region -/

/-- **The rejected region** in the table: its header is all ones but for its base and its pages. -/
theorem kbudAddRegion_reject {p len : ℕ} (hlen : len ≤ 2 ^ 46) (hend : 4096 * p + len ≤ 2 ^ 47)
    (hhead : p + headerPages (len / 4096) < 2 ^ 35)
    (hrej : len ≤ 4096 * headerPages (len / 4096)) (hroom : st.regionCount + 1 < pframeMaxRegions) :
    ∃ s, kbudAddRegion st (4096 * p) len =
      some (ptr p, kbudMarkInvalid ((st.enter (ptr p)).setSlave (ptr p) s) (ptr p) (4096 * p)) := by
  obtain ⟨hphys, hrpages, hcur, s, cur, hout, -, hmb⟩ :=
    headerLayout (st.enter (ptr p)) (Function.update_self ..) hlen hhead
  have hadd : Word.add (4096 * p) len = 4096 * p + len := Word.add_of_lt (by omega)
  have hinit := kbudInitRegion_reject hphys hrpages hcur hout hmb (by rw [hadd]; omega)
  refine ⟨{ s with mbase := 4096 * (p + headerPages (len / 4096)) }, ?_⟩
  simp only [kbudAddRegion, hphys, hinit]
  rw [if_neg (by omega), if_neg (by omega)]

/-- The header of a rejected region. -/
structure HeaderInvalid (s : SlaveBuddy) (phy : ℕ) : Prop where
  maxOrder : s.maxOrder = 2 ^ 32 - 1
  arr : ∀ k, s.bitmapArr k = kpageErr
  maxbits : ∀ k, s.maxbits k = 2 ^ 64 - 1
  rbase : s.rbase = phy
  mbase : s.mbase = 2 ^ 64 - 1
  totalPages : s.totalPages = 0

theorem headerInvalid_mark (st : State) (r phy : ℕ) :
    HeaderInvalid ((kbudMarkInvalid st r phy).slaves r) phy := by
  unfold kbudMarkInvalid
  dsimp only
  rw [Function.update_self]
  exact ⟨rfl, fun _ => rfl, fun _ => rfl, rfl, rfl, rfl⟩

/-- A push into a rejected region passes the check and writes through an invalid pointer. -/
theorem kbudPush_invalid {r phy ord : ℕ} (hs : HeaderInvalid (st.slaves r) phy) (hord : ord ≤ 10) :
    kbudPush st r 0 ord = none := by
  have hpfn : kbudPfnum 0 (st.slaves r) = 0 := by
    rw [kbudPfnum, hs.mbase]
    decide
  have hchk : buddyBitChk (st.slaves r) 0 ord = true := by
    have hpair : kbudPairIdx 0 ord = 0 := Nat.zero_div _
    rw [buddyBitChk, hs.maxOrder, hs.maxbits, hpair, if_neg (by omega), if_neg (by decide)]
  unfold kbudPush
  simp only [hpfn, hchk, not_true_eq_false, if_false]
  rw [buddyBitSet, buddyBitPut, if_pos (hs.arr ord)]
  rfl

/-- The order of a block is never larger than the largest one. -/
theorem rangeOrder_le (s : SlaveBuddy) (phys size : ℕ) : rangeOrder s phys size ≤ 10 :=
  (Nat.min_le_right _ _).trans (Nat.min_le_left _ _)

/-- **The loop over a rejected range** starts at the page 0 and takes everything up to the end of the
range. -/
theorem kbudFreeRange_reject {vaddr p len : ℕ}
    (hphys : pageAlignDown (virtToPhysPm vaddr) = 4096 * p) (hlen : len ≤ 2 ^ 46)
    (hend : 4096 * p + len ≤ 2 ^ 47) (hhead : p + headerPages (len / 4096) < 2 ^ 35)
    (hrej : len ≤ 4096 * headerPages (len / 4096)) (hroom : st.regionCount + 1 < pframeMaxRegions)
    (hfind : findValidSlave st (4096 * p) = kpageErr) :
    ∃ st₁, kbudFreeRange st vaddr len =
        freeRangeLoop (ptr p) addrSpace st₁ 0 (4096 * (p + len / 4096)) ∧
      HeaderInvalid (st₁.slaves (ptr p)) (4096 * p) ∧ st₁.regions = (st.enter (ptr p)).regions ∧
      st₁.regionCount = (st.enter (ptr p)).regionCount := by
  obtain ⟨s, hadd⟩ := kbudAddRegion_reject hlen hend hhead hrej hroom
  have hinv := headerInvalid_mark ((st.enter (ptr p)).setSlave (ptr p) s) (ptr p) (4096 * p)
  refine ⟨_, ?_, hinv, rfl, rfl⟩
  rw [kbudFreeRange_eq hphys hfind hadd (ptr_ne_kpageErr p), hinv.mbase, hinv.rbase]
  -- the offset is the distance from the range to the end of the address space
  have hloop : Word.add (4096 * p)
        (Word.alignUp (Word.sub (2 ^ 64 - 1) (4096 * p)) pageSize) = 0 ∧
      Word.sub (pageAlignDown len) (Word.alignUp (Word.sub (2 ^ 64 - 1) (4096 * p)) pageSize) =
        4096 * (p + len / 4096) := by
    rw [pageAlignDown_eq (by omega), show Word.alignUp (Word.sub (2 ^ 64 - 1) (4096 * p)) pageSize =
      pageAlignUp (Word.sub (2 ^ 64 - 1) (4096 * p)) from rfl, Word.sub_of_le (by omega) (by omega)]
    rcases Nat.eq_zero_or_pos p with rfl | hpos
    · rw [pageAlignUp_wrap (by omega) (by omega), Word.sub_of_le (Nat.zero_le _) (by omega)]
      exact ⟨rfl, by omega⟩
    · rw [pageAlignUp_eq (by omega)]
      unfold Word.add Word.sub
      omega
  rw [hloop.1, hloop.2]

/-- The header of a range below the limit of the direct map ends before the pointers wrap. -/
theorem head_lt {p len : ℕ} (hend : 4096 * p + len ≤ 2 ^ 46) : p + headerPages (len / 4096) < 2 ^ 35 := by
  have hbytes := headerBytes_le (len / 4096) (by omega)
  unfold headerPages
  omega

/-- The first turn of that loop faults. -/
theorem freeRangeLoop_invalid {r phy n size : ℕ} (hs : HeaderInvalid (st.slaves r) phy)
    (hsize : size ≠ 0) : freeRangeLoop r (n + 1) st 0 size = none := by
  have hpush := kbudPush_invalid hs (rangeOrder_le (st.slaves r) 0 size)
  simp only [freeRangeLoop, hsize, if_false, hpush, Option.bind_eq_bind, Option.bind_none]

/-! ### The first page of memory -/

namespace TableOrdered

/-- A new entry keeps the table in order. -/
theorem enter (h : TableOrdered st) {r : ℕ} (hr : kernelPhmap ≤ r ∧ r < 2 ^ 64) :
    TableOrdered (st.enter r) ∧
      r ∈ (List.range (st.enter r).regionCount).map (st.enter r).regions := by
  refine ⟨⟨pairwise_enter h.sorted, fun x hx => ?_⟩, mem_enter.2 (Or.inl rfl)⟩
  rcases mem_enter.1 hx with rfl | hx
  · exact hr
  · exact h.direct x hx

/-- The first byte of memory is resolved to the region that starts there. -/
theorem findBuddySlave_zero (h : TableOrdered st) (hcount : st.regionCount ≤ pframeMaxRegions)
    (hmem : kernelPhmap ∈ (List.range st.regionCount).map st.regions) :
    findBuddySlave st 0 = kernelPhmap := by
  obtain ⟨i₀, hi₀, hr₀⟩ := List.mem_map.1 hmem
  have hi₀' := List.mem_range.1 hi₀
  have hfirst : virtToPhysPm (st.regions i₀) = 0 := by
    rw [hr₀]
    decide
  rcases h.findBuddySlave_last hcount 0 with ⟨-, hnone⟩ | ⟨i, hi, hrun, hiff⟩
  · exact absurd (hnone i₀ hi₀') (by omega)
  · have hlast := (hiff i hi).2 le_rfl
    obtain ⟨hlo, -⟩ := h.bounds hi
    rw [h.phys hi] at hlast
    rw [hrun]
    omega

end TableOrdered

/-! ### No rejected range is harmless -/

/-- **No rejected range is harmless**: whatever the state, a call of `kbud_free_range` that reaches
`kbud_init_region` with a range that it rejects faults in the first push, or leaves a region that
the first byte of memory is resolved to. -/
theorem rejected_harmful {vaddr p len : ℕ} (htable : TableOrdered st)
    (hphys : pageAlignDown (virtToPhysPm vaddr) = 4096 * p) (hend : 4096 * p + len ≤ 2 ^ 46)
    (hrej : len ≤ 4096 * headerPages (len / 4096)) (hroom : st.regionCount < pframeMaxRegions)
    (hfind : findValidSlave st (4096 * p) = kpageErr) :
    ¬ ∃ st', kbudFreeRange st vaddr len = some st' ∧ Harmless st vaddr len st' := by
  rintro ⟨st', hrun, hharm⟩
  by_cases hroom' : st.regionCount + 1 < pframeMaxRegions
  · obtain ⟨st₁, hloop, hinv, hregs, hcount⟩ := kbudFreeRange_reject hphys (by omega) (by omega)
      (head_lt hend) hrej hroom' hfind
    by_cases hsize : p + len / 4096 = 0
    · obtain ⟨rfl, hlen⟩ : p = 0 ∧ len / 4096 = 0 := by omega
      rw [hloop, hlen, show freeRangeLoop (ptr 0) addrSpace st₁ 0 (4096 * (0 + 0)) = some st₁ from rfl]
        at hrun
      obtain rfl := Option.some_inj.1 hrun
      have hzero : ptr 0 = kernelPhmap := by unfold ptr; omega
      have hbase : physToVirtPm (rangeBase vaddr) = kernelPhmap := by
        rw [rangeBase, hphys]
        decide
      obtain ⟨⟨hsorted, hdirect⟩, hmem⟩ := htable.enter (r := ptr 0) (by rw [hzero]; decide)
      rw [← hregs, ← hcount] at hsorted hdirect hmem
      have hfind₁ : findBuddySlave st₁ 0 = kernelPhmap :=
        TableOrdered.findBuddySlave_zero ⟨hsorted, hdirect⟩ (by
          rw [hcount]
          exact hroom'.le) (hzero ▸ hmem)
      have hvalid : findValidSlave st₁ 0 = kernelPhmap := by
        rw [hzero] at hinv
        unfold findValidSlave
        dsimp only
        rw [hfind₁, hinv.mbase, hinv.totalPages]
        decide
      exact (hharm.later [] st₁ rfl).find 0 (by decide) (by rw [hvalid, hbase])
    · rw [hloop] at hrun
      have hfault := freeRangeLoop_invalid (n := 2 ^ 64 - 1) hinv
        (by omega : 4096 * (p + len / 4096) ≠ 0)
      cases hfault.symm.trans hrun
  · rw [kbudFreeRange_last (by rw [hphys]; exact hfind) (by omega)] at hrun
    cases hrun

/-- The second page of memory alone is rejected: the push at the page 0 faults. -/
theorem rejected_harmful_page :
    ¬ ∃ st', kbudFreeRange State.init (physToVirtPm 0x1000) 0x1000 = some st' ∧
      Harmless State.init (physToVirtPm 0x1000) 0x1000 st' :=
  rejected_harmful (p := 1) ⟨by decide, by decide⟩ (by decide +kernel) (by decide) (by decide +kernel)
    (by decide) (by decide)

/-- **A rejected range is used.**  The first half page of memory is rejected and nothing is pushed;
afterwards an address in it is resolved to its region. -/
theorem rejected_found :
    0x800 ≤ 4096 * headerPages (0x800 / 4096) ∧
      (kbudFreeRange State.init (physToVirtPm 0) 0x800).map (fun st => findValidSlave st 0) =
        some (physToVirtPm 0) ∧
      ¬ ∃ st', kbudFreeRange State.init (physToVirtPm 0) 0x800 = some st' ∧
        Harmless State.init (physToVirtPm 0) 0x800 st' := by
  have hfound : (kbudFreeRange State.init (physToVirtPm 0) 0x800).map (fun st => findValidSlave st 0) =
      some (physToVirtPm 0) := by
    decide +kernel
  refine ⟨by decide +kernel, hfound, ?_⟩
  rintro ⟨st', hrun, hharm⟩
  rw [hrun, Option.map_some] at hfound
  exact (hharm.later [] st' rfl).find 0 (by decide)
    ((Option.some_inj.1 hfound).trans (by decide +kernel))

end Buddy

end SyncKernel
