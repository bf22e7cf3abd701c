/-
**Blocks do not overlap, and are aligned to their size.**

As long as each merge joins a block with its physical buddy, the blocks in use and the free blocks
stay apart and inside their regions, and every block that is handed out is aligned to its size.  A
region whose first page is not a multiple of the largest block breaks both: the pair of a block,
counted from the first page of the region, need not be its pair in memory.

Main definitions:

* `Buddy.Sys.blocks` — the blocks in use and the free blocks, as read off from memory;
* `Buddy.Separate` — these blocks are apart and inside their regions;
* `Buddy.HandsOutAligned` — what holds of an allocation that returns a block.

Main results:

* `Buddy.Ok.separate` — **the invariant keeps the blocks apart**;
* `Buddy.kbud_run_separate`, `Buddy.kbud_run_aligned` — **the runs**;
* `Buddy.kbud_overlap`, `Buddy.kbud_misaligned` — runs that merge the wrong pages.
-/

import SyncKernel.Buddy.System

set_option relaxedAutoImplicit false
set_option autoImplicit false

namespace SyncKernel

namespace Buddy

/-! ### The blocks in memory -/

/-- The free blocks of all regions of the table, as read off from memory: the address and the order
of each. -/
def State.freeBlocks (st : State) : List (ℕ × ℕ) :=
  ((List.range st.regionCount).map st.regions).flatMap fun r =>
    (List.range pframeMaxOrder).flatMap fun k => (freeList st r k).map fun p => (p, k)

/-- The blocks in use and the free blocks. -/
def Sys.blocks (s : Sys) : List (ℕ × ℕ) := s.live ++ s.st.freeBlocks

/-- Two blocks have no byte in common. -/
def DisjointBytes (b b' : ℕ × ℕ) : Prop :=
  virtToPhysPm b.1 + pageSize * 2 ^ b.2 ≤ virtToPhysPm b'.1 ∨
    virtToPhysPm b'.1 + pageSize * 2 ^ b'.2 ≤ virtToPhysPm b.1

instance (b b' : ℕ × ℕ) : Decidable (DisjointBytes b b') := inferInstanceAs (Decidable (_ ∨ _))

/-- The blocks in use and the free blocks have no byte in common, a block in use lies inside a
region, and a free block lies inside the region whose list it is on. -/
structure Separate (s : Sys) : Prop where
  disjoint : s.blocks.Pairwise DisjointBytes
  live : ∀ b ∈ s.live, ∃ i < s.st.regionCount, InRegion (s.st.slaves (s.st.regions i)) b
  free : ∀ i < s.st.regionCount, ∀ k < pframeMaxOrder, ∀ p ∈ freeList s.st (s.st.regions i) k,
    InRegion (s.st.slaves (s.st.regions i)) (p, k)

/-- The free blocks of the abstract allocator. -/
def Shape.freeBlocks (sh : Shape) : List Blk :=
  sh.regs.flatMap fun g => (List.range pframeMaxOrder).flatMap fun k =>
    (sh.free g.head k).map fun pg => ⟨k, pg⟩

theorem Shape.mem_freeBlocks {sh : Shape} {b : Blk} : b ∈ sh.freeBlocks ↔ sh.IsFree b := by
  unfold Shape.freeBlocks Shape.IsFree
  simp only [List.mem_flatMap, List.mem_range, List.mem_map]
  constructor
  · rintro ⟨g, hg, k, hk, pg, hpg, rfl⟩
    unfold pframeMaxOrder at hk
    exact ⟨g, hg, by dsimp only; omega, hpg⟩
  · rintro ⟨g, hg, hk, hpg⟩
    exact ⟨g, hg, b.ord, by unfold pframeMaxOrder; omega, b.pg, hpg, rfl⟩

theorem freeBlocks_eq {st : State} {sh : Shape} (h : Inv st sh) :
    st.freeBlocks = sh.freeBlocks.map fun b => (ptr b.pg, b.ord) := by
  unfold State.freeBlocks Shape.freeBlocks
  rw [h.table, List.flatMap_map, List.map_flatMap]
  refine List.flatMap_congr fun g hg => ?_
  rw [List.map_flatMap]
  refine List.flatMap_congr fun k hk => ?_
  have hlt := List.mem_range.1 hk
  unfold pframeMaxOrder at hlt
  rw [h.freeList_eq hg (by omega), List.map_map, List.map_map]
  rfl

theorem freeBlocks_nodup {st : State} {sh : Shape} (h : Inv st sh) : sh.freeBlocks.Nodup := by
  refine List.nodup_flatMap.2 ⟨fun g hg => List.nodup_flatMap.2 ⟨fun k hk => ?_, ?_⟩, ?_⟩
  · have hlt := List.mem_range.1 hk
    unfold pframeMaxOrder at hlt
    exact (h.list g hg k (by omega)).nodup.map fun _ _ he => (Blk.mk.inj he).2
  · refine List.nodup_range.imp fun hne b hb hb' => ?_
    obtain ⟨pg, -, rfl⟩ := List.mem_map.1 hb
    obtain ⟨pg', -, he⟩ := List.mem_map.1 hb'
    exact hne (Blk.mk.inj he).1.symm
  · refine h.sorted.imp_of_mem fun {g g'} hg hg' hle b hb hb' => ?_
    obtain ⟨k, hk, hb⟩ := List.mem_flatMap.1 hb
    obtain ⟨k', hk', hb'⟩ := List.mem_flatMap.1 hb'
    obtain ⟨pg, hpg, rfl⟩ := List.mem_map.1 hb
    obtain ⟨pg', hpg', he⟩ := List.mem_map.1 hb'
    obtain ⟨rfl, rfl⟩ := Blk.mk.inj he
    have hlt := List.mem_range.1 hk
    unfold pframeMaxOrder at hlt
    -- the block would lie in both regions
    have hin := (h.list g hg k' (by omega)).mem_in pg' hpg
    have hin' := (h.list g' hg' k' (by omega)).mem_in pg' hpg'
    obtain rfl := h.eq_of_in hg hg' hin hin' rfl
    have hsum := (h.valid g hg).sum
    have hlt' := (h.valid g hg).lt
    omega

/-- **The invariant keeps the blocks apart** and inside their regions. -/
theorem Ok.separate {s : Sys} {sh : Shape} (h : Ok s sh) : Separate s where
  disjoint := by
    have hblocks : s.blocks = (sh.live ++ sh.freeBlocks).map fun b => (ptr b.pg, b.ord) := by
      rw [Sys.blocks, h.live, freeBlocks_eq h.inv, List.map_append]
    have hfree : sh.freeBlocks.Pairwise Apart :=
      (freeBlocks_nodup h.inv).pairwise_of_forall_ne fun b hb b' hb' hne =>
        h.inv.sepFree b b' (Shape.mem_freeBlocks.1 hb) (Shape.mem_freeBlocks.1 hb') hne
    have hall : (sh.live ++ sh.freeBlocks).Pairwise Apart :=
      List.pairwise_append.2 ⟨h.inv.sepLive, hfree, fun b hb f hf =>
        h.inv.sepMix b hb f (Shape.mem_freeBlocks.1 hf)⟩
    have hlt : ∀ b ∈ sh.live ++ sh.freeBlocks, b.pg < 2 ^ 35 := by
      intro b hb
      have hin : ∃ g ∈ sh.regs, g.In b := by
        rcases List.mem_append.1 hb with hb | hb
        · exact (h.inv.live b hb).2.2
        · exact (h.inv.free_in (Shape.mem_freeBlocks.1 hb)).2
      obtain ⟨g, hg, hin⟩ := hin
      have hlt := (hin.pg_lt (h.inv.valid g hg)).2
      omega
    rw [hblocks, List.pairwise_map]
    refine hall.imp_of_mem fun {b b'} hb hb' hap => ?_
    unfold DisjointBytes
    rw [virtToPhysPm_ptr (hlt b hb), virtToPhysPm_ptr (hlt b' hb')]
    unfold Apart at hap
    unfold pageSize
    dsimp only
    omega
  live b hb := by
    rw [h.live] at hb
    obtain ⟨c, hc, rfl⟩ := List.mem_map.1 hb
    obtain ⟨-, -, g, hg, hin⟩ := h.inv.live c hc
    have hlt := (hin.pg_lt (h.inv.valid g hg)).2
    obtain ⟨i, hi, rfl⟩ := List.mem_iff_getElem.1 hg
    refine ⟨i, by rw [h.inv.count]; exact hi, ?_⟩
    rw [h.inv.regions_eq hi]
    exact (inRegion_iff h.inv hg (by omega)).2 hin
  free i hi k hk p hp := by
    rw [h.inv.count] at hi
    unfold pframeMaxOrder at hk
    have hg := List.getElem_mem hi
    rw [h.inv.regions_eq hi] at hp ⊢
    rw [h.inv.freeList_eq hg (by omega)] at hp
    obtain ⟨pg, hpg, rfl⟩ := List.mem_map.1 hp
    have hin := (h.inv.list _ hg k (by omega)).mem_in pg hpg
    have hlt := (hin.pg_lt (h.inv.valid _ hg)).2
    dsimp only at hlt
    exact (inRegion_iff (b := ⟨k, pg⟩) h.inv hg (by dsimp only; omega)).2 hin

/-! ### Runs -/

/-- The system before any donation. -/
theorem Ok.init : Ok Sys.init ⟨[], fun _ _ => [], []⟩ where
  inv := Inv.init
  live := rfl
  ranges := by simp
  accepts := by simp

/-- An operation that fits keeps the invariant. -/
theorem Ok.step {s : Sys} {sh : Shape} (h : Ok s sh) {o : Op} (hp : Promised s o) (hf : Fits s o) :
    ∃ s' sh', Buddy.step s o = some s' ∧ Ok s' sh' := by
  cases o with
  | donate vaddr len =>
      obtain ⟨s', sh', -, hrun, hok, -⟩ := h.donate hp hf
      exact ⟨s', sh', hrun, hok⟩
  | alloc order =>
      obtain ⟨s', sh', hrun, hok, -⟩ := h.alloc order
      exact ⟨s', sh', hrun, hok⟩
  | free vaddr order =>
      obtain ⟨s', sh', hrun, hok, -⟩ := h.free hp hf
      exact ⟨s', sh', hrun, hok⟩

/-- **No block is handed out twice**: in every run whose merges join physical buddies, the blocks in
use and the free blocks stay apart and inside their regions. -/
theorem kbud_run_separate {os : List Op}
    (hos : Run.Along Buddy.step (fun s o => Promised s o ∧ Fits s o) Sys.init os) :
    Run.Every Buddy.step (fun _ _ s' => Separate s') Sys.init os := by
  refine Run.every_of_along (I := fun s => ∃ sh, Ok s sh) ?_ ⟨_, Ok.init⟩ hos
  rintro s o ⟨sh, h⟩ ⟨hp, hf⟩
  obtain ⟨s', sh', hrun, hok⟩ := h.step hp hf
  exact ⟨s', hrun, hok.separate, sh', hok⟩

/-- A block is split for a page, which is freed and merged again. -/
theorem kbud_run_separate_trace : Run.Every Buddy.step (fun _ _ s' => Separate s') Sys.init
    [Op.donate (physToVirtPm 0x101000) 0x10000, Op.alloc 0, Op.alloc 0,
      Op.free (physToVirtPm 0x102000) 0] :=
  kbud_run_separate (by decide +kernel)

/-- **Two blocks share a page.**  The region of 16 pages at `0x100000` hands out the pages from
`0x101000` on.  The pages `0x103000` and `0x104000` are the frames 2 and 3 of the region and merge into
a block of two pages at `0x103000`, whose pair of order 1 holds the block in use at `0x102000`. -/
theorem kbud_overlap :
    4096 * headerPages (0x10000 / 4096) < 0x10000 ∧
      Run.Along Buddy.step Promised Sys.init
        [Op.donate (physToVirtPm 0x100000) 0x10000, Op.alloc 0, Op.alloc 0, Op.alloc 0, Op.alloc 0,
          Op.alloc 0, Op.alloc 0, Op.alloc 0, Op.free (physToVirtPm 0x103000) 0,
          Op.free (physToVirtPm 0x104000) 0, Op.alloc 0] ∧
      ¬ Run.Every Buddy.step (fun _ _ s' => Separate s') Sys.init
        [Op.donate (physToVirtPm 0x100000) 0x10000, Op.alloc 0, Op.alloc 0, Op.alloc 0, Op.alloc 0,
          Op.alloc 0, Op.alloc 0, Op.alloc 0, Op.free (physToVirtPm 0x103000) 0,
          Op.free (physToVirtPm 0x104000) 0, Op.alloc 0] := by
  refine ⟨by decide +kernel, by decide +kernel, Run.not_every_of_last
    (fun _ s' => ! decide (s'.blocks.Pairwise DisjointBytes)) [_, _, _, _, _, _, _, _, _, _]
    (fun _ _ hsep => ?_) (by decide +kernel)⟩
  rw [decide_eq_true hsep.disjoint, Bool.not_true]

/-! ### Alignment -/

/-- An allocation that returns a block returns one whose physical address is a multiple of its
size. -/
def HandsOutAligned (s : Sys) (o : Op) (_ : Sys) : Prop :=
  ∀ order a st', o = Op.alloc order → kbudAlloc s.st order = some (a, st') → a ≠ kpageErr →
    pageSize * 2 ^ order ∣ virtToPhysPm a

/-- **Blocks are aligned to their size** in every run whose merges join physical buddies. -/
theorem kbud_run_aligned {os : List Op}
    (hos : Run.Along Buddy.step (fun s o => Promised s o ∧ Fits s o) Sys.init os) :
    Run.Every Buddy.step HandsOutAligned Sys.init os := by
  refine Run.every_of_along (I := fun s => ∃ sh, Ok s sh) ?_ ⟨_, Ok.init⟩ hos
  rintro s o ⟨sh, h⟩ ⟨hp, hf⟩
  cases o with
  | alloc order =>
      obtain ⟨s', sh', hrun, hok, -, -, halign, -⟩ := h.alloc order
      refine ⟨s', hrun, ?_, sh', hok⟩
      rintro order' a st' he
      obtain rfl := Op.alloc.inj he
      exact halign a st'
  | donate vaddr len =>
      obtain ⟨s', sh', hrun, hok⟩ := h.step hp hf
      exact ⟨s', hrun, fun _ _ _ he => (by cases he), sh', hok⟩
  | free vaddr order =>
      obtain ⟨s', sh', hrun, hok⟩ := h.step hp hf
      exact ⟨s', hrun, fun _ _ _ he => (by cases he), sh', hok⟩

/-- A block of two pages, after a page was freed and merged. -/
theorem kbud_run_aligned_trace : Run.Every Buddy.step HandsOutAligned Sys.init
    [Op.donate (physToVirtPm 0x101000) 0x10000, Op.alloc 0, Op.alloc 0,
      Op.free (physToVirtPm 0x102000) 0, Op.alloc 1] :=
  kbud_run_aligned (by decide +kernel)

/-- **A block is not aligned to its size.**  The pages `0x101000` and `0x102000` are the frames 0 and 1
of their region and merge into a block of two pages at `0x101000`. -/
theorem kbud_misaligned :
    Run.Along Buddy.step Promised Sys.init
        [Op.donate (physToVirtPm 0x100000) 0x10000, Op.alloc 0, Op.alloc 0, Op.alloc 0,
          Op.free (physToVirtPm 0x102000) 0, Op.free (physToVirtPm 0x101000) 0, Op.alloc 1] ∧
      ¬ Run.Every Buddy.step HandsOutAligned Sys.init
        [Op.donate (physToVirtPm 0x100000) 0x10000, Op.alloc 0, Op.alloc 0, Op.alloc 0,
          Op.free (physToVirtPm 0x102000) 0, Op.free (physToVirtPm 0x101000) 0, Op.alloc 1] := by
  refine ⟨by decide +kernel, Run.not_every_of_last
    (fun s _ => (kbudAlloc s.st 1).any fun r =>
      r.1 != kpageErr && ! decide (pageSize * 2 ^ 1 ∣ virtToPhysPm r.1)) [_, _, _, _, _, _]
    (fun s _ halign => ?_) (by decide +kernel)⟩
  cases hrun : kbudAlloc s.st 1 with
  | none => rfl
  | some r =>
      rw [Option.any_some]
      by_cases hr : r.1 = kpageErr
      · rw [hr, bne_self_eq_false, Bool.false_and]
      · rw [decide_eq_true (halign 1 r.1 r.2 rfl hrun hr), Bool.not_true, Bool.and_false]

end Buddy

end SyncKernel
