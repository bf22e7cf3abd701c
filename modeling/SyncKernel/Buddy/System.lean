/-
**The allocator and its callers.**

The system is the allocator with the ranges that were donated to it and the blocks in use, and its
operations are donations, allocations and frees.  The invariant connects it to the abstract
allocator; this module proves what each operation does to it.

Main definitions:

* `Buddy.Sys`, `Buddy.Op`, `Buddy.step` — the system and its operations;
* `Buddy.PagesApart`, `Buddy.Promised` — what the callers promise;
* `Buddy.Fits`, `Buddy.Kept` — conditions on an operation;
* `Buddy.Ok` — **the invariant**.

Main results:

* `Buddy.Ok.freeList_eq` — the free lists read off from memory are those of the abstract allocator;
* `Buddy.Ok.step` — **what an operation does**.
-/

import SyncKernel.Lib.Run
import SyncKernel.Buddy.Donate
import SyncKernel.Buddy.Free

set_option relaxedAutoImplicit false
set_option autoImplicit false

namespace SyncKernel

namespace Buddy

/-! ### The system -/

/-- The blocks on the free list of an order, as read off from memory. -/
def freeList (st : State) (r k : ℕ) : List ℕ := follow Loc.next 0 st.mem addrSpace (Loc.free r k)

/-- The number of pages on the free lists of a region. -/
def pagesFree (st : State) (r : ℕ) : ℕ :=
  ∑ k ∈ Finset.range pframeMaxOrder, 2 ^ k * (freeList st r k).length

/-- A block, given by its address and its order, lies in the memory that a region hands out. -/
def InRegion (s : SlaveBuddy) (b : ℕ × ℕ) : Prop :=
  s.mbase ≤ virtToPhysPm b.1 ∧
    virtToPhysPm b.1 + pageSize * 2 ^ b.2 ≤ s.mbase + s.totalPages * pageSize

instance (s : SlaveBuddy) (b : ℕ × ℕ) : Decidable (InRegion s b) :=
  inferInstanceAs (Decidable (_ ∧ _))

/-- The allocator, the blocks in use with the orders they were allocated with, the donated ranges,
and for each of their regions the number of pages on its free lists right after the donation. -/
structure Sys where
  st : State
  live : List (ℕ × ℕ)
  ranges : List (ℕ × ℕ)
  counts : List (ℕ × ℕ)

/-- The number of pages in the blocks in use of a region. -/
def Sys.pagesLive (s : Sys) (r : ℕ) : ℕ :=
  ((s.live.filter fun b => InRegion (s.st.slaves r) b).map fun b => 2 ^ b.2).sum

/-- The system before any donation. -/
def Sys.init : Sys := ⟨State.init, [], [], []⟩

/-- An operation. -/
inductive Op
  | donate (vaddr len : ℕ)
  | alloc (order : ℕ)
  | free (vaddr order : ℕ)

/-- The physical address of the first page of a donated range. -/
def rangeBase (vaddr : ℕ) : ℕ := pageAlignDown (virtToPhysPm vaddr)

/-- One operation. -/
def step (s : Sys) : Op → Option Sys
  | Op.donate vaddr len => (kbudFreeRange s.st vaddr len).map fun st =>
      { s with
        st := st
        ranges := (rangeBase vaddr, len) :: s.ranges
        counts := (physToVirtPm (rangeBase vaddr), pagesFree st (physToVirtPm (rangeBase vaddr))) ::
          s.counts }
  | Op.alloc order => (kbudAlloc s.st order).map fun r =>
      { s with st := r.2, live := if r.1 = kpageErr then s.live else (r.1, order) :: s.live }
  | Op.free vaddr order => (kbudFree s.st vaddr order).map fun st =>
      { s with st := st, live := s.live.erase (vaddr, order) }

/-- The whole pages of two ranges, given by the address of their first page and their length, are apart. -/
def PagesApart (r r' : ℕ × ℕ) : Prop :=
  r.1 + pageSize * (r.2 / pageSize) ≤ r'.1 ∨ r'.1 + pageSize * (r'.2 / pageSize) ≤ r.1

instance (r r' : ℕ × ℕ) : Decidable (PagesApart r r') := inferInstanceAs (Decidable (_ ∨ _))

/-- What the callers promise: a donated range lies in the direct map and takes no page of the ranges
donated before, and a freed block is in use and of that order. -/
def Promised (s : Sys) : Op → Prop
  | Op.donate vaddr len => rangeBase vaddr + len ≤ 2 ^ 46 ∧ ∀ r ∈ s.ranges, PagesApart r (rangeBase vaddr, len)
  | Op.alloc _ => True
  | Op.free vaddr order => (vaddr, order) ∈ s.live

instance (s : Sys) : ∀ o, Decidable (Promised s o)
  | Op.donate .. => inferInstanceAs (Decidable (_ ∧ _))
  | Op.alloc _ => isTrue trivial
  | Op.free .. => inferInstanceAs (Decidable (_ ∈ _))

/-- A range is larger than its header, the table has room for its region and the terminator, and
every merge joins a block with its physical buddy. -/
def Fits (s : Sys) : Op → Prop
  | Op.donate _ len =>
      4096 * headerPages (len / 4096) < len ∧ s.st.regionCount + 1 < pframeMaxRegions
  | Op.alloc _ => True
  | Op.free vaddr order => FreeMerges sameBit s.st vaddr order

instance (s : Sys) : ∀ o, Decidable (Fits s o)
  | Op.donate .. => inferInstanceAs (Decidable (_ ∧ _))
  | Op.alloc _ => isTrue trivial
  | Op.free .. => inferInstanceAs (Decidable (FreeMerges _ _ _ _))

/-- The region has a bit for each block that the operation cuts off or merges. -/
def Kept (s : Sys) : Op → Prop
  | Op.donate .. => True
  | Op.alloc order => SplitFits s.st order
  | Op.free vaddr order => FreeMerges mergeFits s.st vaddr order

instance (s : Sys) : ∀ o, Decidable (Kept s o)
  | Op.donate .. => isTrue trivial
  | Op.alloc _ => inferInstanceAs (Decidable (SplitFits _ _))
  | Op.free .. => inferInstanceAs (Decidable (FreeMerges _ _ _ _))

/-- **The invariant**: the allocator represents the shape, whose regions are the donated ranges and
whose blocks in use are those of the callers, and a region has a bit for each of its blocks. -/
structure Ok (s : Sys) (sh : Shape) : Prop where
  inv : Inv s.st sh
  live : s.live = sh.live.map fun b => (ptr b.pg, b.ord)
  ranges : ∀ g ∈ sh.regs, ∃ len, (4096 * g.head, len) ∈ s.ranges ∧ g = donated g.head len
  accepts : ∀ b ∈ sh.live, ∀ g ∈ sh.regs, g.In b → g.Accepts b

/-- Ranges without a byte in common take no page in common, wherever in their first page they begin. -/
theorem pagesApart_of_bytes {a l b m : ℕ} (h : a + l ≤ b ∨ b + m ≤ a) :
    PagesApart (a / 4096 * 4096, l) (b / 4096 * 4096, m) := by
  unfold PagesApart pageSize
  dsimp only
  omega

/-! ### What memory says -/

/-- **The free lists** read off from memory are those of the abstract allocator. -/
theorem Inv.freeList_eq {st : State} {sh : Shape} (h : Inv st sh) {g : Region} (hg : g ∈ sh.regs)
    {k : ℕ} (hk : k ≤ 10) : freeList st (ptr g.head) k = (sh.free g.head k).map ptr := by
  have hl := h.list g hg k hk
  have hlen : (sh.free g.head k).length ≤ 2 ^ 34 :=
    length_le_of_nodup_of_lt hl.nodup fun p hp => ((hl.mem_in p hp).pg_lt (h.valid g hg)).2
  refine hl.chain.follow_eq ?_
  rw [List.length_map]
  unfold addrSpace
  omega

theorem Inv.pagesFree_eq {st : State} {sh : Shape} (h : Inv st sh) {g : Region} (hg : g ∈ sh.regs) :
    pagesFree st (ptr g.head) = freePages sh.free g := by
  refine Finset.sum_congr rfl fun k hk => ?_
  have hlt := Finset.mem_range.1 hk
  unfold pframeMaxOrder at hlt
  rw [h.freeList_eq hg (by omega), List.length_map]

/-- A block lies in a region in bytes as it does in pages. -/
theorem inRegion_iff {st : State} {sh : Shape} (h : Inv st sh) {g : Region} (hg : g ∈ sh.regs)
    {b : Blk} (hb : b.pg < 2 ^ 35) :
    InRegion (st.slaves (ptr g.head)) (ptr b.pg, b.ord) ↔ g.In b := by
  have hs := h.header g hg
  unfold InRegion
  dsimp only
  rw [virtToPhysPm_ptr hb, hs.mbase, hs.totalPages]
  unfold pageSize Region.In
  omega

/-! ### What each operation does -/

namespace Ok

variable {s : Sys} {sh : Shape}

/-- The pages of a range that a caller may donate are in none of the regions. -/
theorem pages_out (h : Ok s sh) {p len : ℕ} (hdisj : ∀ r ∈ s.ranges, PagesApart r (4096 * p, len)) {g : Region}
    (hg : g ∈ sh.regs) : g.head + g.rpages ≤ p ∨ p + len / 4096 ≤ g.head := by
  obtain ⟨len', hmem, heq⟩ := h.ranges g hg
  have hrp : g.rpages = len' / 4096 := congrArg Region.rpages heq
  have hap := hdisj _ hmem
  unfold PagesApart pageSize at hap
  dsimp only at hap
  omega

/-- **A donation** adds a region whose blocks in use are none. -/
theorem donate (h : Ok s sh) {vaddr len : ℕ} (hp : Promised s (Op.donate vaddr len))
    (hf : Fits s (Op.donate vaddr len)) :
    ∃ s' sh' g, step s (Op.donate vaddr len) = some s' ∧ Ok s' sh' ∧ g ∈ sh'.regs ∧
      s'.counts = (ptr g.head, sh'.pages g) :: s.counts ∧
      ∀ g' ∈ sh.regs, g' ∈ sh'.regs ∧ sh'.pages g' = sh.pages g' := by
  obtain ⟨hend, hdisj⟩ := hp
  obtain ⟨hfit, hroom⟩ := hf
  set p := virtToPhysPm vaddr / 4096 with hpdef
  have hbase : rangeBase vaddr = 4096 * p := by
    have hlt : virtToPhysPm vaddr < 2 ^ 64 := Word.sub_lt _ _
    rw [rangeBase, pageAlignDown_eq hlt, Nat.mul_comm]
  rw [hbase] at hend hdisj
  have hphys : physToVirtPm (4096 * p) = ptr p := physToVirtPm_page (by omega)
  rw [h.inv.count] at hroom
  obtain ⟨st', regs', free', hrun, hinv, hmem, hnone, hpages⟩ :=
    kbudFreeRange_spec h.inv (show pageAlignDown (virtToPhysPm vaddr) = 4096 * p from hbase) hend
      hfit hroom fun g hg => h.pages_out hdisj hg
  have hg : donated p len ∈ regs' := (hmem _).2 (Or.inl rfl)
  have hcount : pagesFree st' (ptr p) =
      (⟨regs', free', sh.live⟩ : Shape).pages (donated p len) := by
    have hfree : pagesFree st' (ptr p) = freePages free' (donated p len) := hinv.pagesFree_eq hg
    rw [hfree, Shape.pages, livePages_eq_zero hnone, Nat.add_zero]
  refine ⟨_, ⟨regs', free', sh.live⟩, donated p len, by rw [step, hrun, Option.map_some], ?_, hg, ?_,
    fun g' hg' => ⟨(hmem g').2 (Or.inr hg'), hpages g' hg'⟩⟩
  · refine ⟨hinv, h.live, fun g hg => ?_, fun b hb g hg hin => ?_⟩
    · rcases (hmem g).1 hg with rfl | hg
      · exact ⟨len, by rw [hbase]; exact List.mem_cons_self, rfl⟩
      · obtain ⟨len', hmem', heq⟩ := h.ranges g hg
        exact ⟨len', List.mem_cons_of_mem _ hmem', heq⟩
    · rcases (hmem g).1 hg with rfl | hg
      · exact absurd hin (hnone b hb)
      · exact h.accepts b hb g hg hin
  · dsimp only
    rw [hbase, hphys, hcount]
    rfl

theorem step_alloc {order a : ℕ} {st' : State} (hrun : kbudAlloc s.st order = some (a, st')) :
    step s (Op.alloc order) = some
      { s with st := st', live := if a = kpageErr then s.live else (a, order) :: s.live } := by
  rw [step, hrun, Option.map_some]

/-- **An allocation** hands out a block that is aligned to its size, or fails. -/
theorem alloc (h : Ok s sh) (order : ℕ) :
    ∃ s' sh', step s (Op.alloc order) = some s' ∧ Ok s' sh' ∧ s'.counts = s.counts ∧
      sh'.regs = sh.regs ∧
      (∀ a st', kbudAlloc s.st order = some (a, st') → a ≠ kpageErr →
        pageSize * 2 ^ order ∣ virtToPhysPm a) ∧
      (SplitFits s.st order → ∀ g ∈ sh.regs, sh'.pages g = sh.pages g) := by
  rcases kbudAlloc_spec h.inv order with hfail | ⟨g, pg, st', free', hrun, hg, hacc, hin, hinv, hpages⟩
  · refine ⟨_, sh, step_alloc hfail, ⟨h.inv, ?_, h.ranges, h.accepts⟩, rfl, rfl,
      fun a st' hrun ha => ?_, fun _ _ _ => rfl⟩
    · dsimp only
      rw [if_pos rfl]
      exact h.live
    · exact absurd (Prod.mk.inj (Option.some_inj.1 (hfail.symm.trans hrun))).1.symm ha
  · refine ⟨_, ⟨sh.regs, free', ⟨order, pg⟩ :: sh.live⟩, step_alloc hrun,
      ⟨hinv, ?_, h.ranges, fun b hb g' hg' hin' => ?_⟩, rfl, rfl, fun a st₁ hrun₁ _ => ?_, hpages⟩
    · dsimp only
      rw [if_neg (ptr_ne_kpageErr pg), h.live]
      rfl
    · rcases List.mem_cons.1 hb with rfl | hb
      · rw [h.inv.eq_of_in hg' hg hin' hin rfl]
        exact hacc
      · exact h.accepts b hb g' hg' hin'
    · obtain rfl := (Prod.mk.inj (Option.some_inj.1 (hrun.symm.trans hrun₁))).1
      have hlt := (hin.pg_lt (h.inv.valid g hg)).2
      dsimp only at hlt
      rw [virtToPhysPm_ptr (by omega)]
      exact Nat.mul_dvd_mul_left _ (hinv.live ⟨order, pg⟩ (by simp)).2.1

theorem block_injective : Function.Injective fun b : Blk => (ptr b.pg, b.ord) := by
  intro b b' heq
  obtain ⟨hpg, hord⟩ := Prod.mk.inj heq
  cases b
  cases b'
  exact Blk.mk.injEq _ _ _ _ ▸ ⟨hord, ptr_injective hpg⟩

/-- A block that a caller may free is one of the blocks in use. -/
theorem in_use (h : Ok s sh) {vaddr order : ℕ} (hp : Promised s (Op.free vaddr order)) :
    ∃ b ∈ sh.live, vaddr = ptr b.pg ∧ order = b.ord ∧
      Inv s.st ⟨sh.regs, sh.free, b :: sh.live.erase b⟩ := by
  have hmem : (vaddr, order) ∈ s.live := hp
  rw [h.live] at hmem
  obtain ⟨b, hb, heq⟩ := List.mem_map.1 hmem
  obtain ⟨rfl, rfl⟩ := Prod.mk.inj heq
  exact ⟨b, hb, rfl, rfl, h.inv.perm (List.perm_cons_erase hb)⟩

/-- **A free** of a block in use. -/
theorem free (h : Ok s sh) {vaddr order : ℕ} (hp : Promised s (Op.free vaddr order))
    (hf : Fits s (Op.free vaddr order)) :
    ∃ s' sh', step s (Op.free vaddr order) = some s' ∧ Ok s' sh' ∧ s'.counts = s.counts ∧
      sh'.regs = sh.regs ∧
      (Kept s (Op.free vaddr order) → ∀ g ∈ sh.regs, sh'.pages g = sh.pages g) := by
  obtain ⟨b, hb, rfl, rfl, hinv⟩ := h.in_use hp
  have hperm : sh.live.Perm (b :: sh.live.erase b) := List.perm_cons_erase hb
  have hsame : FreeMerges sameBit s.st (ptr b.pg) b.ord := hf
  have hok : ∀ {st' free'}, Inv st' ⟨sh.regs, free', sh.live.erase b⟩ →
      Ok { s with st := st', live := s.live.erase (ptr b.pg, b.ord) }
        ⟨sh.regs, free', sh.live.erase b⟩ := fun hinv' => by
    refine ⟨hinv', ?_, h.ranges, fun c hc => h.accepts c (List.mem_of_mem_erase hc)⟩
    dsimp only
    rw [h.live, List.map_erase block_injective]
  have hstep : ∀ {st'}, kbudFree s.st (ptr b.pg) b.ord = some st' →
      step s (Op.free (ptr b.pg) b.ord) =
        some { s with st := st', live := s.live.erase (ptr b.pg, b.ord) } := fun hrun => by
    rw [step, hrun, Option.map_some]
  by_cases hk : FreeMerges mergeFits s.st (ptr b.pg) b.ord
  · obtain ⟨st', free', hrun, hinv', hpages⟩ := kbudFree_spec
      (P := fun s pfn k => sameBit s pfn k && mergeFits s pfn k) hinv
      (fun _ _ _ hP => (Bool.and_eq_true_iff.1 hP).1) (Merges.and hsame hk)
    refine ⟨_, _, hstep hrun, hok hinv', rfl, rfl, fun _ g hg => ?_⟩
    have hkeep := hpages (fun _ _ _ hP => (Bool.and_eq_true_iff.1 hP).2)
      (fun g hg => h.accepts b hb g hg) g hg
    rw [hkeep, Shape.pages, Shape.pages, livePages_perm hperm]
  · obtain ⟨st', free', hrun, hinv', -⟩ := kbudFree_spec hinv (fun _ _ _ hP => hP) hsame
    exact ⟨_, _, hstep hrun, hok hinv', rfl, rfl, fun hk' => absurd hk' hk⟩

end Ok

end Buddy

end SyncKernel
