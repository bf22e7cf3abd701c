/-
**A range beyond the end of memory.**

The allocator takes every address for one of the direct map.  A range at an address behind it becomes a
region like the others, whose blocks are handed out with physical addresses at which there is no memory.

Main definitions:

* `Buddy.FarBlock` — a list of a region begins with a block beyond the limit of the direct map.

Main results:

* `Buddy.freeBlocks_eq_nil` — what no free block means for the lists;
* `Buddy.kbudAlloc_page` — **a page is found exactly when a block is free**;
* `Buddy.kbudFreeRange_beyond` — **a range beyond the memory** gives blocks beyond the memory.
-/

import SyncKernel.Buddy.FirstFit
import SyncKernel.Buddy.Reject
import SyncKernel.Buddy.Safety

set_option relaxedAutoImplicit false
set_option autoImplicit false

namespace SyncKernel

namespace Buddy

variable {st : State}

/-! ### The free blocks -/

theorem freeList_eq_nil {r k : ℕ} : freeList st r k = [] ↔ ¬ HasBlock st r k := by
  have hfuel : addrSpace = 2 ^ 64 - 1 + 1 := rfl
  unfold freeList HasBlock
  rw [hfuel, follow]
  by_cases hzero : st.mem (Loc.free r k) = 0
  · rw [if_pos hzero]
    exact iff_of_true rfl (not_not.2 hzero)
  · rw [if_neg hzero]
    exact iff_of_false (List.cons_ne_nil _ _) (not_not.2 hzero)

theorem head_mem_freeList {r k : ℕ} (h : HasBlock st r k) : st.mem (Loc.free r k) ∈ freeList st r k := by
  have hfuel : addrSpace = 2 ^ 64 - 1 + 1 := rfl
  unfold freeList
  rw [hfuel, follow, if_neg h]
  exact List.mem_cons_self

theorem mem_freeBlocks {b : ℕ × ℕ} : b ∈ st.freeBlocks ↔
    ∃ i < st.regionCount, b.2 < pframeMaxOrder ∧ b.1 ∈ freeList st (st.regions i) b.2 := by
  unfold State.freeBlocks
  rw [List.mem_flatMap]
  constructor
  · rintro ⟨r, hr, hb⟩
    obtain ⟨i, hi, rfl⟩ := List.mem_map.1 hr
    obtain ⟨k, hk, hb⟩ := List.mem_flatMap.1 hb
    obtain ⟨p, hp, rfl⟩ := List.mem_map.1 hb
    exact ⟨i, List.mem_range.1 hi, List.mem_range.1 hk, hp⟩
  · rintro ⟨i, hi, hk, hb⟩
    exact ⟨_, List.mem_map_of_mem (List.mem_range.2 hi), List.mem_flatMap.2 ⟨_, List.mem_range.2 hk,
      List.mem_map.2 ⟨_, hb, rfl⟩⟩⟩

/-- No block is free exactly when all lists are empty. -/
theorem freeBlocks_eq_nil : st.freeBlocks = [] ↔ Exhausted st 0 := by
  constructor
  · intro hnil i hi k hk _ hhas
    have hmem : (st.mem (Loc.free (st.regions i) k), k) ∈ st.freeBlocks :=
      mem_freeBlocks.2 ⟨i, hi, hk, head_mem_freeList hhas⟩
    rw [hnil] at hmem
    exact absurd hmem List.not_mem_nil
  · intro hex
    refine List.eq_nil_iff_forall_not_mem.2 fun b hb => ?_
    obtain ⟨i, hi, hk, hb⟩ := mem_freeBlocks.1 hb
    rw [freeList_eq_nil.2 (hex i hi b.2 hk (Nat.zero_le _))] at hb
    exact absurd hb List.not_mem_nil

/-- **A page is found exactly when a block is free.** -/
theorem kbudAlloc_page (h : Lists st) :
    (st.freeBlocks = [] → kbudAlloc st 0 = some (kpageErr, st)) ∧
      (st.freeBlocks ≠ [] → ∃ a st', kbudAlloc st 0 = some (a, st') ∧ a ≠ kpageErr) := by
  have hrun : kbudAlloc st 0 = allocLoop 0 st.regionCount 0 st := if_neg (by decide)
  rw [Ne, freeBlocks_eq_nil, hrun]
  rcases allocLoop_firstFit h (by decide : 0 < pframeMaxOrder) st.regionCount 0 (Nat.zero_add _)
    (fun j hj => absurd hj (Nat.not_lt_zero j)) with ⟨hex, hnone⟩ | ⟨i, order, st', hfit, hloop, hne, -⟩
  · exact ⟨fun _ => hnone, fun hnot => absurd hex hnot⟩
  · refine ⟨fun hex => ?_, fun _ => ⟨_, st', hloop, hne⟩⟩
    exact absurd hfit.has (hex i hfit.lt order hfit.order_lt (Nat.zero_le _))

/-! ### Donations that return -/

/-- **A donation that returns** has found room in the table and is larger than its header. -/
theorem kbudFreeRange_returns {sh : Shape} (h : Inv st sh) {vaddr p len : ℕ} {st' : State}
    (hphys : pageAlignDown (virtToPhysPm vaddr) = 4096 * p) (hlen : len ≤ 2 ^ 46)
    (hend : 4096 * p + len ≤ 2 ^ 47) (hhead : p + headerPages (len / 4096) < 2 ^ 35)
    (hfind : findValidSlave st (4096 * p) = kpageErr) (hpos : 0 < p + len / 4096)
    (hrun : kbudFreeRange st vaddr len = some st') :
    st.regionCount + 1 < pframeMaxRegions ∧ 4096 * headerPages (len / 4096) < len := by
  have hroom : st.regionCount + 1 < pframeMaxRegions := by
    have hcount := h.count
    have hle := h.le
    by_contra hfull
    rw [kbudFreeRange_last (by rw [hphys]; exact hfind) (by omega)] at hrun
    cases hrun
  refine ⟨hroom, ?_⟩
  by_contra hrej
  obtain ⟨st₁, hloop, hinv, -, -⟩ := kbudFreeRange_reject hphys hlen hend hhead (by omega) hroom hfind
  rw [hloop] at hrun
  have hfault := freeRangeLoop_invalid (n := 2 ^ 64 - 1) hinv (by omega : 4096 * (p + len / 4096) ≠ 0)
  cases hfault.symm.trans hrun

/-- A donation that a caller may make fits, if it returns. -/
theorem Ok.fits_of_returns {s : Sys} {sh : Shape} (h : Ok s sh) {vaddr len : ℕ} {st' : State}
    (hp : Promised s (Op.donate vaddr len)) (hlen : 0 < len) (hdvd : 4096 ∣ len)
    (hrun : kbudFreeRange s.st vaddr len = some st') : Fits s (Op.donate vaddr len) := by
  obtain ⟨hend, hdisj⟩ := hp
  have hlt : virtToPhysPm vaddr < 2 ^ 64 := Word.sub_lt _ _
  have hphys : pageAlignDown (virtToPhysPm vaddr) = 4096 * (virtToPhysPm vaddr / 4096) := by
    rw [pageAlignDown_eq hlt, Nat.mul_comm]
  rw [rangeBase, hphys] at hend hdisj
  have hout : ∀ g ∈ sh.regs, virtToPhysPm vaddr / 4096 < g.head ∨
      g.head + g.rpages ≤ virtToPhysPm vaddr / 4096 := by
    intro g hg
    have hpages := h.pages_out hdisj hg
    omega
  obtain ⟨hroom, hfit⟩ := kbudFreeRange_returns h.inv hphys (by omega) (by omega) (head_lt hend)
    (findValidSlave_out h.inv hout) (by omega) hrun
  exact ⟨hfit, hroom⟩

/-! ### A region beyond the memory -/

/-- A list of the region at `r` begins with a block beyond the limit of the direct map. -/
def FarBlock (st : State) (r : ℕ) : Prop :=
  ∃ k < pframeMaxOrder, HasBlock st r k ∧ 2 ^ 46 ≤ virtToPhysPm (st.mem (Loc.free r k))

/-- What a push does to the heads of the lists. -/
theorem kbudPush_heads {r phy ord : ℕ} {a : Bool} {st₁ : State} (hpush : kbudPush st r phy ord = some (a, st₁))
    (k : ℕ) : st₁.mem (Loc.free r k) =
      if buddyBitChk (st.slaves r) (kbudPfnum phy (st.slaves r)) ord = true ∧ k = ord then physToVirtPm phy
      else st.mem (Loc.free r k) := by
  unfold kbudPush at hpush
  dsimp only at hpush
  by_cases hchk : buddyBitChk (st.slaves r) (kbudPfnum phy (st.slaves r)) ord = true
  · rw [if_neg (not_not.2 hchk)] at hpush
    obtain ⟨s', -, hst⟩ := Option.bind_eq_some_iff.1 hpush
    obtain ⟨-, rfl⟩ := Prod.mk.inj (Option.some_inj.1 hst)
    simp only [hchk, true_and]
    by_cases hk : k = ord
    · rw [if_pos hk, hk]
      exact Function.update_self ..
    · rw [if_neg hk]
      have hfree : Loc.free r k ≠ Loc.free r ord := fun he => hk (Loc.free.inj he).2
      have hnext : Loc.free r k ≠ Loc.next (physToVirtPm phy) := fun he => by cases he
      dsimp only [State.setSlave, State.link]
      rw [Function.update_of_ne hfree, Function.update_of_ne hnext]
  · rw [if_pos hchk] at hpush
    obtain ⟨-, rfl⟩ := Prod.mk.inj (Option.some_inj.1 hpush)
    rw [if_neg fun hc => hchk hc.1]

/-- A pushed block beyond the limit is a head beyond the limit. -/
theorem far_pushed {cur : ℕ} (hcur : 2 ^ 34 ≤ cur) (hlt : cur < 2 ^ 35) :
    physToVirtPm (4096 * cur) ≠ 0 ∧ 2 ^ 46 ≤ virtToPhysPm (physToVirtPm (4096 * cur)) := by
  rw [physToVirtPm_page hlt, virtToPhysPm_ptr hlt]
  exact ⟨ptr_ne_zero cur, by omega⟩

theorem FarBlock.push {r cur ord : ℕ} {a : Bool} {st₁ : State} (h : FarBlock st r) (hcur : 2 ^ 34 ≤ cur)
    (hlt : cur < 2 ^ 35) (hpush : kbudPush st r (4096 * cur) ord = some (a, st₁)) : FarBlock st₁ r := by
  obtain ⟨k, hk, hhas, hfar⟩ := h
  refine ⟨k, hk, ?_⟩
  rw [HasBlock, kbudPush_heads hpush k]
  split
  · exact far_pushed hcur hlt
  · exact ⟨hhas, hfar⟩

/-- A turn of the loop of `kbud_free_range`, in pages. -/
theorem freeRangeLoop_turn {r n cur m : ℕ} {st' : State}
    (hrun : freeRangeLoop r (n + 1) st (4096 * cur) (4096 * m) = some st') (hcur : 0 < cur)
    (hm : 0 < m) (hend : cur + m ≤ 2 ^ 35) :
    ∃ ord a st₁, ord = rangeOrder (st.slaves r) (4096 * cur) (4096 * m) ∧ ord ≤ 10 ∧ 2 ^ ord ≤ m ∧
      kbudPush st r (4096 * cur) ord = some (a, st₁) ∧
      freeRangeLoop r n st₁ (4096 * (cur + 2 ^ ord)) (4096 * (m - 2 ^ ord)) = some st' := by
  obtain ⟨hord, -, hle⟩ := rangeOrder_spec (st.slaves r) cur hm (by omega)
  rw [freeRangeLoop, if_neg (by omega)] at hrun
  obtain ⟨⟨a, st₁⟩, hpush, hrest⟩ := Option.bind_eq_some_iff.1 hrun
  generalize rangeOrder (st.slaves r) (4096 * cur) (4096 * m) = ord at hord hle hpush hrest ⊢
  have hpow : 0 < 2 ^ ord := Nat.two_pow_pos ord
  have hadd := add_block (show 4096 * (cur + 2 ^ ord) < 2 ^ 64 by omega)
  have hsub := sub_block (show 2 ^ ord ≤ m by omega) (show 4096 * m < 2 ^ 64 by omega)
  refine ⟨ord, a, st₁, rfl, hord, hle, hpush, ?_⟩
  dsimp only at hrest
  rwa [hadd, hsub] at hrest

/-- The loop keeps a head beyond the limit. -/
theorem FarBlock.loop {r : ℕ} {st' : State} : ∀ {n m cur : ℕ} {st : State}, FarBlock st r → 2 ^ 34 ≤ cur →
    cur + m ≤ 2 ^ 35 → freeRangeLoop r n st (4096 * cur) (4096 * m) = some st' → FarBlock st' r := by
  intro n
  induction n with
  | zero =>
      intro m cur st _ _ _ hrun
      cases hrun
  | succ n ih =>
      intro m cur st h hcur hend hrun
      rcases Nat.eq_zero_or_pos m with rfl | hm
      · obtain rfl := Option.some_inj.1 ((if_pos rfl).symm.trans hrun)
        exact h
      · obtain ⟨ord, a, st₁, -, -, hle, hpush, hrest⟩ := freeRangeLoop_turn hrun (by omega) hm hend
        have hpow : 0 < 2 ^ ord := Nat.two_pow_pos ord
        exact ih (h.push hcur (by omega) hpush) (by omega) (by omega) hrest

/-- The first block of a new region is pushed. -/
theorem FarBlock.first {p len n : ℕ} {s : SlaveBuddy} {st' : State} (hs : st.slaves (ptr p) = s)
    (hok : HeaderOk s (donated p len)) (hmax : s.maxOrder = topOrder (len / 4096)) (hp : 2 ^ 34 ≤ p)
    (hend : 4096 * p + len ≤ 2 ^ 47) (hfit : headerPages (len / 4096) < len / 4096)
    (hrun : freeRangeLoop (ptr p) (n + 1) st (4096 * (p + headerPages (len / 4096)))
      (4096 * (len / 4096 - headerPages (len / 4096))) = some st') : FarBlock st' (ptr p) := by
  have hpos := headerPages_pos (len / 4096)
  obtain ⟨ord, a, st₁, hord, hle, hlen, hpush, hrest⟩ :=
    freeRangeLoop_turn hrun (by omega) (by omega) (by omega)
  have hpow : 0 < 2 ^ ord := Nat.two_pow_pos ord
  have hpfn : kbudPfnum (4096 * (p + headerPages (len / 4096))) s = 0 := by
    have hpage := kbudPfnum_page hok (show (donated p len).start ≤ p + headerPages (len / 4096) from le_rfl)
      (by omega)
    exact hpage.trans (Nat.sub_self _)
  have hbits : 2 ^ (ord + 1) ≤ len / 4096 := by
    have hcap : ord ≤ topOrder (len / 4096) := by
      rw [hord, hs, ← hmax]
      exact Nat.min_le_left _ _
    have hlog : topOrder (len / 4096) ≤ (len / 4096).log2 - 1 := Nat.min_le_right _ _
    have htwo : 1 ≤ (len / 4096).log2 := (Nat.le_log2 (by omega)).2 (by omega)
    exact (Nat.le_log2 (by omega)).1 (by omega)
  have hchk : buddyBitChk s 0 ord = true := by
    rw [hok.chk, Nat.zero_div]
    exact ⟨hle, Nat.div_pos hbits (Nat.two_pow_pos _)⟩
  have hhead := kbudPush_heads hpush ord
  rw [hs, hpfn, if_pos ⟨hchk, rfl⟩] at hhead
  obtain ⟨hnull, hfar⟩ := far_pushed (show 2 ^ 34 ≤ p + headerPages (len / 4096) by omega) (by omega)
  have hfirst : FarBlock st₁ (ptr p) :=
    ⟨ord, Nat.lt_succ_of_le hle, by rwa [HasBlock, hhead], by rwa [hhead]⟩
  exact hfirst.loop (by omega) (by omega) hrest

/-- A new region has no free blocks yet. -/
theorem freeBlocks_enter {r : ℕ} (s : SlaveBuddy) {b : ℕ × ℕ}
    (hb : b ∈ ((st.enter r).setSlave r s).freeBlocks) : b ∈ st.freeBlocks := by
  obtain ⟨i, hi, hk, hb⟩ := mem_freeBlocks.1 hb
  have hentry : ((st.enter r).setSlave r s).regions i ∈
      (List.range (st.enter r).regionCount).map (st.enter r).regions :=
    List.mem_map_of_mem (List.mem_range.2 hi)
  generalize ((st.enter r).setSlave r s).regions i = r' at hb hentry
  by_cases hr : r' = r
  · rw [hr, freeList_eq_nil.2 (not_not.2 (if_pos rfl))] at hb
    exact absurd hb List.not_mem_nil
  · obtain ⟨j, hj, rfl⟩ := List.mem_map.1 ((mem_enter.1 hentry).resolve_left hr)
    have hhead : ((st.enter r).setSlave r s).mem (Loc.free (st.regions j) b.2) =
        st.mem (Loc.free (st.regions j) b.2) := if_neg hr
    have hnext : ∀ p, ((st.enter r).setSlave r s).mem (Loc.next p) = st.mem (Loc.next p) := fun _ => rfl
    rw [freeList, follow_congr hnext hhead] at hb
    exact mem_freeBlocks.2 ⟨j, List.mem_range.1 hj, hk, hb⟩

/-- **A range beyond the memory**, donated, is a region; the blocks behind its header lie beyond the
memory. -/
theorem kbudFreeRange_beyond {sh : Shape} (h : Inv st sh) {vaddr p len : ℕ} {st' : State}
    (hphys : pageAlignDown (virtToPhysPm vaddr) = 4096 * p) (hp : 2 ^ 34 ≤ p) (hlen : len ≤ 2 ^ 46)
    (hend : 4096 * p + len ≤ 2 ^ 47) (hhead : p + headerPages (len / 4096) < 2 ^ 35)
    (hrun : kbudFreeRange st vaddr len = some st') :
    (len / 4096 ≤ headerPages (len / 4096) ∧ ∀ b ∈ st'.freeBlocks, b ∈ st.freeBlocks) ∨
      (headerPages (len / 4096) < len / 4096 ∧ ∃ b ∈ st'.freeBlocks, 2 ^ 46 ≤ virtToPhysPm b.1) := by
  have hout : ∀ g ∈ sh.regs, p < g.head ∨ g.head + g.rpages ≤ p := fun g hg =>
    Or.inr ((h.valid g hg).le.trans hp)
  have hfind : findValidSlave st (4096 * p) = kpageErr := findValidSlave_out h hout
  obtain ⟨hroom, hfit⟩ := kbudFreeRange_returns h hphys hlen hend hhead hfind (by omega) hrun
  obtain ⟨s, hinit, hadd, hok, -, -⟩ := kbudAddRegion_accept hlen hend hfit hroom
  have hself : ((st.enter (ptr p)).setSlave (ptr p) s).slaves (ptr p) = s := Function.update_self ..
  obtain ⟨hoffs, hstart, hsize⟩ := hok.carve_start hlen hend hfit
  rw [kbudFreeRange_eq hphys hfind hadd (ptr_ne_kpageErr p), hself, hoffs, hstart, hsize] at hrun
  rcases Nat.lt_or_ge (headerPages (len / 4096)) (len / 4096) with hroom' | hsmall
  · right
    have hpos := headerPages_pos (len / 4096)
    have hmax := kbudInitRegion_maxOrder (st.enter (ptr p)) (4096 * p) len
    rw [physToVirtPm_page (by omega), hinit, hself, pageAlignDown_eq (by omega),
      Nat.mul_div_cancel _ (by decide)] at hmax
    obtain ⟨k, hk, hhas, hfar⟩ :=
      FarBlock.first hself hok (hmax hok.maxOrder_le (by omega)) hp hend hroom' hrun
    obtain ⟨hregs, hrc⟩ := freeRangeLoop_table hrun
    have hentry : ptr p ∈ (List.range st'.regionCount).map st'.regions := by
      rw [hregs, hrc]
      exact mem_enter.2 (Or.inl rfl)
    obtain ⟨i, hi, hr⟩ := List.mem_map.1 hentry
    have hmem : (st'.mem (Loc.free (ptr p) k), k) ∈ st'.freeBlocks := by
      refine mem_freeBlocks.2 ⟨i, List.mem_range.1 hi, hk, ?_⟩
      rw [hr]
      exact head_mem_freeList hhas
    exact ⟨hroom', _, hmem, hfar⟩
  · left
    rw [Nat.sub_eq_zero_of_le hsmall] at hrun
    obtain rfl := Option.some_inj.1 ((if_pos rfl).symm.trans hrun)
    exact ⟨hsmall, fun b hb => freeBlocks_enter s hb⟩

end Buddy

end SyncKernel
