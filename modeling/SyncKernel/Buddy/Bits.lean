/-
**What a bit says.**

One bit stands for the two blocks of a pair.  `kbud_push` sets it and `kbud_pop` clears it, so that it
says at most that one of them is free.  `kbud_free` takes it for a statement about the buddy of the
block in hand.  It is one as long as the free blocks are aligned to their size; a merged block that is
not aligned lies in the pair of blocks that are not its buddies, and the walk of `kbud_pop` to the
buddy then runs off the list.

Main definitions:

* `Buddy.ListsCounted` — each header counts the blocks of its free lists;
* `Buddy.BitsSound`, `Buddy.FreeSound` — where the bit is set, the buddy is on its list;
* `Buddy.StepSound` — both, for a step of the system.

Main results:

* `Buddy.Inv.bitsSound` — **the loop of merges meets buddies only**;
* `Buddy.kbud_run_bitsSound` — **the runs**;
* `Buddy.kbud_bit_stray` — a run that walks off a list.
-/

import SyncKernel.Buddy.Safety

set_option relaxedAutoImplicit false
set_option autoImplicit false

namespace SyncKernel

namespace Buddy

variable {st : State} {regs : List Region} {free : ℕ → ℕ → List ℕ} {live : List Blk}

/-! ### Counts and bits -/

/-- The header of each region of the table counts the blocks of its free lists. -/
def ListsCounted (st : State) : Prop :=
  ∀ i < st.regionCount, ∀ k < pframeMaxOrder,
    (st.slaves (st.regions i)).orderBlkCnt k = (freeList st (st.regions i) k).length

/-- In each turn of the loop of `kbud_free` that finds the bit of the buddy set, the buddy is on the
list of its order, and `kbud_pop` takes it off. -/
def BitsSound (r : ℕ) : ℕ → State → ℕ → ℕ → Prop
  | 0, _, _, _ => True
  | n + 1, st, pfn, k =>
      let bpfn := pfn ^^^ 2 ^ k
      let buddy := Word.add (st.slaves r).mbase (bpfn * 4096)
      buddyFree (st.slaves r) pfn k = some true →
        physToVirtPm buddy ∈ freeList st r k ∧
        ∃ st₁ s', kbudPop st r buddy k = some (true, st₁) ∧
          buddyBitClr (st₁.slaves r) bpfn k = some s' ∧
          BitsSound r n (st₁.setSlave r s') (pfn &&& Word.not (2 ^ k)) (k + 1)

/-- The bits are sound in every turn of the call of `kbud_free` for the block at `vaddr`. -/
def FreeSound (st : State) (vaddr order : ℕ) : Prop :=
  let phy := virtToPhysPm vaddr
  let r := findValidSlave st phy
  r ≠ kpageErr → BitsSound r (pframeMaxOrder - 1 - order) st (kbudPfnum phy (st.slaves r)) order

/-- A step leaves the blocks counted, and it meets sound bits if it frees a block. -/
structure StepSound (s : Sys) (o : Op) (s' : Sys) : Prop where
  counted : ListsCounted s'.st
  free : ∀ vaddr order, o = Op.free vaddr order → FreeSound s.st vaddr order

/-! ### The invariant and the bits -/

theorem Inv.listsCounted {sh : Shape} (h : Inv st sh) : ListsCounted st := by
  intro i hi k hk
  rw [h.count] at hi
  unfold pframeMaxOrder at hk
  have hg := List.getElem_mem hi
  rw [h.regions_eq hi, h.freeList_eq hg (by omega), List.length_map]
  exact (h.list _ hg k (by omega)).count

/-- **The loop of merges meets buddies only**, as long as each merged block is aligned to its size. -/
theorem Inv.bitsSound {g : Region} {P : ℕ → ℕ → Bool} (hg : g ∈ regs)
    (hP : ∀ pfn k, P pfn k = true → pfn.testBit k = (g.start + pfn).testBit k) :
    ∀ (n : ℕ) {st : State} {free : ℕ → ℕ → List ℕ} {k pg : ℕ},
      Inv st ⟨regs, free, ⟨k, pg⟩ :: live⟩ → g.In ⟨k, pg⟩ → k + n = 10 →
      Merges P (st.slaves (ptr g.head)) n (pg - g.start) k = true →
      BitsSound (ptr g.head) n st (pg - g.start) k := by
  intro n
  induction n with
  | zero =>
      intros
      trivial
  | succ n ih =>
      intro st free k pg h hin hkn hmerges hgo
      have hs := h.header g hg
      rcases buddyFree_cases hs (pg - g.start) k with hstop | ⟨-, -, hbit⟩
      · rw [hgo] at hstop
        cases hstop
      rw [Merges, if_pos hgo, Bool.and_eq_true] at hmerges
      obtain ⟨hsame, hrest⟩ := hmerges
      obtain ⟨pg', q, st₁, s', free', hpg', hbuddy, haddr, hpop, hclr, hq, hinq, hinvq, -, hset⟩ :=
        h.mergeTurn hg hin (by omega) hbit (hP _ _ hsame)
      have hlt := (((h.list g hg k (by omega)).mem_in pg' hpg').pg_lt (h.valid g hg)).2
      dsimp only at hlt
      rw [← hbuddy, haddr]
      refine ⟨?_, st₁, s', hpop, hclr, ?_⟩
      · rw [physToVirtPm_page (by omega), h.freeList_eq hg (by omega)]
        exact List.mem_map_of_mem hpg'
      · rw [← hq]
        refine ih hinvq hinq (by omega) ?_
        rw [hset, hq]
        exact hrest

theorem Inv.freeSound {b : Blk} (h : Inv st ⟨regs, free, b :: live⟩)
    (hmerges : FreeMerges sameBit st (ptr b.pg) b.ord) : FreeSound st (ptr b.pg) b.ord := by
  have hord : b.ord ≤ 10 := (h.live b (by simp)).1
  obtain ⟨g, hg, hin, hfind, hpfn⟩ := h.find_block
  rw [FreeMerges, hfind, hpfn] at hmerges
  rw [FreeSound, hfind, hpfn]
  intro _
  exact Inv.bitsSound hg (fun pfn k => (h.header g hg).testBit_eq) _ h hin (by unfold pframeMaxOrder; omega) hmerges

/-! ### Runs -/

/-- **A bit that is set stands for the buddy**: in every run whose merges join physical buddies, the
headers count their lists, and `kbud_free` pops only blocks that are on their list. -/
theorem kbud_run_bitsSound {os : List Op}
    (hos : Run.Along Buddy.step (fun s o => Promised s o ∧ Fits s o) Sys.init os) :
    Run.Every Buddy.step StepSound Sys.init os := by
  refine Run.every_of_along (I := fun s => ∃ sh, Ok s sh) ?_ ⟨_, Ok.init⟩ hos
  rintro s o ⟨sh, h⟩ ⟨hp, hf⟩
  obtain ⟨s', sh', hrun, hok⟩ := h.step hp hf
  refine ⟨s', hrun, ⟨hok.inv.listsCounted, ?_⟩, sh', hok⟩
  rintro vaddr order rfl
  obtain ⟨b, -, rfl, rfl, hinv⟩ := h.in_use hp
  exact hinv.freeSound hf

/-- A page is freed and merged with its buddy. -/
theorem kbud_run_bitsSound_trace : Run.Every Buddy.step StepSound Sys.init
    [Op.donate (physToVirtPm 0x101000) 0x10000, Op.alloc 0, Op.alloc 0,
      Op.free (physToVirtPm 0x102000) 0] :=
  kbud_run_bitsSound (by decide +kernel)

/-- The operations before the bit is read. -/
def strayOps : List Op :=
  [Op.donate (physToVirtPm 0x100000) 0x10000, Op.alloc 0, Op.alloc 0, Op.alloc 0, Op.alloc 1,
    Op.free (physToVirtPm 0x102000) 0, Op.free (physToVirtPm 0x101000) 0]

/-- **A bit stands for a block that is no buddy.**  The pages `0x101000` and `0x102000` are the frames 0
and 1 of their region and merge into a block of two pages at `0x101000`, whose pair of order 1 is that
of the frames 0 to 3.  The block of two pages at `0x104000` is the frame 3 and finds the bit of this
pair set, but its buddy is the frame 1, the page `0x102000`, and the list of order 1 ends before it. -/
theorem kbud_bit_stray :
    Run.Along Buddy.step Promised Sys.init (strayOps ++ [Op.free (physToVirtPm 0x104000) 1]) ∧
      (∃ s, Run.exec Buddy.step Sys.init strayOps = some s ∧
        buddyFree (s.st.slaves (physToVirtPm 0x100000)) 3 1 = some true ∧
        physToVirtPm 0x102000 ∉ freeList s.st (physToVirtPm 0x100000) 1 ∧
        ¬ FreeSound s.st (physToVirtPm 0x104000) 1 ∧
        kbudFree s.st (physToVirtPm 0x104000) 1 = none) ∧
      ¬ Run.Every Buddy.step StepSound Sys.init
        (strayOps ++ [Op.free (physToVirtPm 0x104000) 1]) := by
  have hrun : ((Run.exec Buddy.step Sys.init strayOps).any fun s => decide
      (findValidSlave s.st (virtToPhysPm (physToVirtPm 0x104000)) = physToVirtPm 0x100000 ∧
        kbudPfnum (virtToPhysPm (physToVirtPm 0x104000)) (s.st.slaves (physToVirtPm 0x100000)) = 3 ∧
        Word.add (s.st.slaves (physToVirtPm 0x100000)).mbase ((3 ^^^ 2 ^ 1) * 4096) = 0x102000 ∧
        buddyFree (s.st.slaves (physToVirtPm 0x100000)) 3 1 = some true ∧
        physToVirtPm 0x102000 ∉ freeList s.st (physToVirtPm 0x100000) 1 ∧
        (kbudFree s.st (physToVirtPm 0x104000) 1).isNone = true)) = true := by
    decide +kernel
  obtain ⟨s, hs, hs'⟩ := (Option.any_eq_true _ _).1 hrun
  obtain ⟨hfind, hpfn, haddr, hbit, hlist, hfault⟩ := of_decide_eq_true hs'
  rw [Option.isNone_iff_eq_none] at hfault
  refine ⟨by decide +kernel, ⟨s, hs, hbit, hlist, fun hfree => ?_, hfault⟩, fun hevery => ?_⟩
  · rw [FreeSound, hfind, hpfn] at hfree
    obtain ⟨hmem, -⟩ := hfree (by decide) hbit
    rw [haddr] at hmem
    exact hlist hmem
  · obtain ⟨s₁, s₂, hs₁, hs₂, -⟩ := hevery.last
    obtain rfl := Option.some_inj.1 (hs.symm.trans hs₁)
    rw [Buddy.step, hfault] at hs₂
    cases hs₂

end Buddy

end SyncKernel
