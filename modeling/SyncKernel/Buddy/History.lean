/-
**What the free lists hold depends on the blocks in use only.**

When every donated range becomes a regular region, the callers need no further condition: no operation
faults, each page of a region is in exactly one block, and the free blocks are the maximal ones of the
pages that are not in use.  So the history of a region leaves no trace in its free lists, and an
allocation fails only when there is no aligned run of free pages that is long enough.

Main definitions:

* `Buddy.Regular` — the condition on a donation;
* `Buddy.Sys.freePages` — the pages of a region that are in no block in use;
* `Buddy.Canonical` — the free lists hold the maximal blocks of these pages;
* `Buddy.OneBlock` — every page is in exactly one block.

Main results:

* `Buddy.Neat.step` — **what an operation does**;
* `Buddy.kbud_run_canonical`, `Buddy.kbud_run_oneBlock` — **the runs**;
* `Buddy.kbud_history` — **the history does not matter**;
* `Buddy.kbud_alloc_complete` — **an allocation fails only when it must**.
-/

import SyncKernel.Buddy.Canonical
import SyncKernel.Buddy.FirstFit
import SyncKernel.Buddy.Safety

set_option relaxedAutoImplicit false
set_option autoImplicit false

namespace SyncKernel

namespace Buddy

open Dyad (Maximal MaximalIn Reduced block)

/-! ### A regular donation -/

section Donation

variable {st : State} {regs : List Region} {free : ℕ → ℕ → List ℕ} {live : List Blk}

/-- **The loop of `kbud_free_range`** in a regular region: the blocks below `cur` are maximal ones, and
so are those that are pushed. -/
theorem freeRangeLoop_canon {g : Region} (hg : g ∈ regs) (hlive : ∀ b ∈ live, ¬ g.In b) :
    ∀ (n m cur : ℕ) {st : State} {free : ℕ → ℕ → List ℕ}, Inv st ⟨regs, free, live⟩ →
      Canon st ⟨regs, free, live⟩ → cur + m = g.start + g.pages → g.start ≤ cur → m < n →
      (∀ k ≤ 10, ∀ pg ∈ free g.head k, pg + 2 ^ k ≤ cur ∧
        Maximal g.start (g.start + g.pages) (topOrder g.rpages) k pg) →
      (∀ k pg, Maximal cur (cur + m) (topOrder g.rpages) k pg →
        Maximal g.start (g.start + g.pages) (topOrder g.rpages) k pg) →
      ∃ st' free', freeRangeLoop (ptr g.head) n st (4096 * cur) (4096 * m) = some st' ∧
        Inv st' ⟨regs, free', live⟩ ∧ Canon st' ⟨regs, free', live⟩ ∧
        (∀ a, ((⟨regs, free, live⟩ : Shape).Holds a ∨ (cur ≤ a ∧ a < cur + m)) →
          (⟨regs, free', live⟩ : Shape).Holds a) ∧ Keeps live st st' := by
  intro n
  induction n with
  | zero => intro m cur st free _ _ _ _ hm _ _; exact absurd hm (Nat.not_lt_zero m)
  | succ n ih =>
      intro m cur st free h hc hsum hstart hm hbelow hlift
      have hv := h.valid g hg
      have hs := h.header g hg
      have hr := hc.regular g hg
      have hsum' := hv.sum
      have hle := hv.le
      have hlt := hv.lt
      rcases Nat.eq_zero_or_pos m with rfl | hpos
      · exact ⟨st, free, rfl, h, hc, fun a ha => ha.resolve_right (by omega), Keeps.refl _ _⟩
      obtain ⟨hord, hdvd, hfits⟩ :=
        rangeOrder_spec (st.slaves (ptr g.head)) cur hpos (by omega)
      have hgreedy := rangeOrder_greedy hs.maxOrder_le (by omega : 0 < cur) (by omega) hpos (by omega)
      rw [hc.maxOrder g hg] at hgreedy
      generalize horder : rangeOrder (st.slaves (ptr g.head)) (4096 * cur) (4096 * m) = ord
        at hord hdvd hfits hgreedy
      have hmax := hlift ord cur hgreedy.maximal
      have hin : g.In ⟨ord, cur⟩ := ⟨hstart, by dsimp only; omega⟩
      have hap : ∀ b, (⟨regs, free, live⟩ : Shape).IsFree b ∨ b ∈ live → Apart ⟨ord, cur⟩ b := by
        intro b hb
        have hb' : ∃ g' ∈ regs, g'.In b := by
          rcases hb with hb | hb
          · exact (h.free_in hb).2
          · exact (h.live b hb).2.2
        obtain ⟨g', hg', hin'⟩ := hb'
        by_cases hgg : g = g'
        · subst hgg
          rcases hb with ⟨g', hg', hk, hpg⟩ | hb
          · obtain rfl := h.eq_of_in hg' hg ((h.list g' hg' b.ord hk).mem_in _ hpg) hin' rfl
            exact Or.inr (hbelow b.ord hk b.pg hpg).1
          · exact absurd hin' (hlive b hb)
        · exact h.apart_of_in hg hg' hin hin' hgg
      have htake := h.take hg hin hord hdvd (fun f hf => hap f (Or.inl hf)) fun a ha =>
        hap a (Or.inr ha)
      obtain ⟨st₁, hpush, hinv₁, hc₁, hkeep₁⟩ :=
        kbudPush_canon htake hc.live_irrel hg hin fun hk q hq hpair => by
          have hq' := hbelow ord hord q hq
          rw [hr.pair_iff hk hq'.2.fits.le hstart] at hpair
          have heq := hq'.2.not_pair hmax hk hpair
          have hpow := Nat.two_pow_pos ord
          omega
      have hpow := Nat.two_pow_pos ord
      have hrest : cur + 2 ^ ord + (m - 2 ^ ord) = cur + m := by omega
      obtain ⟨st', free', hrun, hinv', hc', hholds, hkeep⟩ := ih (m - 2 ^ ord) (cur + 2 ^ ord) hinv₁ hc₁
        (by omega) (by omega) (by omega) (fun k hk pg hpg => by
          dsimp only at hpg
          by_cases hko : k = ord
          · rw [hko, setFree_self] at hpg
            rcases List.mem_cons.1 hpg with rfl | hpg
            · rw [hko]
              exact ⟨le_rfl, hmax⟩
            · obtain ⟨h₁, h₂⟩ := hbelow ord hord pg hpg
              rw [hko]
              exact ⟨h₁.trans (Nat.le_add_right _ _), h₂⟩
          · rw [setFree_of_ne (Or.inr hko)] at hpg
            obtain ⟨h₁, h₂⟩ := hbelow k hk pg hpg
            exact ⟨h₁.trans (Nat.le_add_right _ _), h₂⟩)
        (fun k pg hmax' => by
          rw [hrest] at hmax'
          exact hlift k pg (hgreedy.maximal_of_rest hmax'))
      refine ⟨st', free', ?_, hinv', hc', fun a ha => hholds a ?_, hkeep₁.trans hkeep⟩
      · have hadd := add_block (show 4096 * (cur + 2 ^ ord) < 2 ^ 64 by omega)
        have hsub := sub_block (show 2 ^ ord ≤ m by omega) (show 4096 * m < 2 ^ 64 by omega)
        rw [freeRangeLoop_step (by omega) (by rw [horder]; exact hpush), horder, hadd, hsub]
        exact hrun
      · rcases ha with ha | ⟨h₁, h₂⟩
        · exact Or.inl (holds_push hg hord (holds_live (fun b hb hab =>
            ⟨b, List.mem_cons_of_mem _ hb, hab⟩) ha))
        · by_cases hlo : a < cur + 2 ^ ord
          · exact Or.inl (holds_push hg hord ⟨⟨ord, cur⟩, Or.inr List.mem_cons_self, h₁, hlo⟩)
          · exact Or.inr ⟨by omega, by omega⟩

/-- **Adding a regular region.** -/
theorem kbudAddRegion_canon (h : Inv st ⟨regs, free, live⟩) (hc : Canon st ⟨regs, free, live⟩)
    {p len : ℕ} (hend : 4096 * p + len ≤ 2 ^ 46) (hroom : regs.length + 1 < pframeMaxRegions)
    (hreg : (donated p len).Regular)
    (hout : ∀ g ∈ regs, g.head + g.rpages ≤ p ∨ p + len / 4096 ≤ g.head) :
    ∃ st' regs', kbudAddRegion st (4096 * p) len = some (ptr p, st') ∧
      Inv st' ⟨regs', addFree free (donated p len), live⟩ ∧
      Canon st' ⟨regs', addFree free (donated p len), live⟩ ∧
      (∀ g, g ∈ regs' ↔ g = donated p len ∨ g ∈ regs) ∧ Keeps live st st' := by
  have hpages : 0 < len / 4096 - headerPages (len / 4096) := hreg.pos
  have hfit' : 4096 * headerPages (len / 4096) < len := by omega
  have hpos := headerPages_pos (len / 4096)
  have hcount := h.count
  dsimp only at hcount
  have hphys : physToVirtPm (4096 * p) = ptr p := physToVirtPm_page (by omega)
  obtain ⟨st', regs', hrun, hinv, hmem⟩ := kbudAddRegion_spec h hend hfit' hroom hout
  obtain ⟨s, hinit, hadd, hok, -, -⟩ := kbudAddRegion_accept (p := p) (by omega) (by omega) hfit'
    (show st.regionCount + 1 < pframeMaxRegions by omega)
  obtain rfl := (Prod.mk.inj (Option.some_inj.1 (hadd.symm.trans hrun))).2
  have hself : ((st.enter (ptr p)).setSlave (ptr p) s).slaves (ptr p) = s := setSlave_self _ _ _
  have hother : ∀ g ∈ regs, ((st.enter (ptr p)).setSlave (ptr p) s).slaves (ptr g.head) =
      st.slaves (ptr g.head) := by
    intro g hg
    have hne : ptr g.head ≠ ptr p := by
      intro he
      have hhead := ptr_injective he
      have hlt' := (h.valid g hg).lt
      have hsum' := (h.valid g hg).sum
      rcases hout g hg with hle | hle <;> omega
    exact (Function.update_of_ne hne _ _).trans (Function.update_of_ne hne _ _)
  have hlist : ∀ g ∈ regs, ∀ k, addFree free (donated p len) g.head k = free g.head k := by
    intro g hg k
    refine addFree_of_ne (fun he => ?_) k
    have hhead : g.head = p := he
    have hlt' := (h.valid g hg).lt
    have hsum' := (h.valid g hg).sum
    rcases hout g hg with hle | hle <;> omega
  refine ⟨_, regs', hrun, hinv, ⟨fun g hg => ?_, fun g hg => ?_, fun g hg k hk pg hpg => ?_,
    fun g hg k hk pg hpg pg' hpg' hpair => ?_⟩, hmem, fun _ _ _ _ => rfl⟩
  · rcases (hmem g).1 hg with rfl | hg
    · exact hreg
    · exact hc.regular g hg
  · rcases (hmem g).1 hg with rfl | hg
    · have hmax := kbudInitRegion_maxOrder (st.enter (ptr p)) (4096 * p) len
      rw [hphys, hinit, hself, pageAlignDown_eq (by omega), Nat.mul_div_cancel _ (by decide)] at hmax
      rw [show (donated p len).head = p from rfl, hself]
      exact hmax hok.maxOrder_le (by omega)
    · rw [hother g hg]
      exact hc.maxOrder g hg
  · rcases (hmem g).1 hg with rfl | hg
    · dsimp only at hpg
      rw [addFree_self] at hpg
      exact absurd hpg List.not_mem_nil
    · dsimp only at hpg
      rw [hlist g hg] at hpg
      rw [hother g hg]
      exact hc.bit g hg k hk pg hpg
  · rcases (hmem g).1 hg with rfl | hg
    · dsimp only at hpg
      rw [addFree_self] at hpg
      exact absurd hpg List.not_mem_nil
    · dsimp only at hpg hpg'
      rw [hlist g hg] at hpg hpg'
      exact hc.lone g hg k hk pg hpg pg' hpg' hpair

/-- **A donation** that becomes a regular region: no page of it is lost. -/
theorem kbudFreeRange_canon (h : Inv st ⟨regs, free, live⟩) (hc : Canon st ⟨regs, free, live⟩)
    {vaddr p len : ℕ} (hphys : pageAlignDown (virtToPhysPm vaddr) = 4096 * p)
    (hend : 4096 * p + len ≤ 2 ^ 46) (hroom : regs.length + 1 < pframeMaxRegions)
    (hreg : (donated p len).Regular)
    (hout : ∀ g ∈ regs, g.head + g.rpages ≤ p ∨ p + len / 4096 ≤ g.head) :
    ∃ st' regs' free', kbudFreeRange st vaddr len = some st' ∧ Inv st' ⟨regs', free', live⟩ ∧
      Canon st' ⟨regs', free', live⟩ ∧ (∀ g, g ∈ regs' ↔ g = donated p len ∨ g ∈ regs) ∧
      (∀ b ∈ live, ¬ (donated p len).In b) ∧
      (∀ a, (⟨regs, free, live⟩ : Shape).Holds a → (⟨regs', free', live⟩ : Shape).Holds a) ∧
      (∀ a, (donated p len).start ≤ a → a < (donated p len).start + (donated p len).pages →
        (⟨regs', free', live⟩ : Shape).Holds a) ∧ Keeps live st st' := by
  have hpages : 0 < len / 4096 - headerPages (len / 4096) := hreg.pos
  have hfit' : 4096 * headerPages (len / 4096) < len := by omega
  have hsum : p + headerPages (len / 4096) + (len / 4096 - headerPages (len / 4096)) =
      p + len / 4096 := (donated_valid hend hfit').sum
  have hne : ∀ g ∈ regs, g.head ≠ p := by
    intro g hg he
    have hlt' := (h.valid g hg).lt
    have hsum' := (h.valid g hg).sum
    rcases hout g hg with hle | hle <;> omega
  have hfind : findValidSlave st (4096 * p) = kpageErr := findValidSlave_out h fun g hg => by
    rcases hout g hg with hle | hle
    · exact Or.inr hle
    · exact Or.inl (by omega)
  obtain ⟨st₁, regs', hadd, hinv₁, hc₁, hmem, hkeep₁⟩ :=
    kbudAddRegion_canon h hc hend hroom hreg hout
  have hg : donated p len ∈ regs' := (hmem _).2 (Or.inl rfl)
  have hs : HeaderOk (st₁.slaves (ptr p)) (donated p len) := hinv₁.header _ hg
  have hnone : ∀ b ∈ live, ¬ (donated p len).In b := by
    intro b hb hin
    obtain ⟨-, -, g', hg', hin'⟩ := h.live b hb
    exact hne g' hg' (congrArg Region.head
      (hinv₁.eq_of_in ((hmem g').2 (Or.inr hg')) hg hin' hin rfl))
  obtain ⟨hoffs, hstart, hsize⟩ := hs.carve_start (by omega) (by omega) hfit'
  obtain ⟨st', free', hrun, hinv', hc', hholds, hkeep⟩ := freeRangeLoop_canon hg hnone addrSpace
    (len / 4096 - headerPages (len / 4096)) (p + headerPages (len / 4096)) hinv₁ hc₁ rfl le_rfl
    (by unfold addrSpace; omega)
    (fun k _ pg hpg => by
      rw [addFree_self] at hpg
      exact absurd hpg List.not_mem_nil)
    (fun k pg hmax => hmax)
  refine ⟨st', regs', free', ?_, hinv', hc', hmem, hnone, fun a ha => hholds a (Or.inl ?_),
    fun a h₁ h₂ => hholds a (Or.inr ⟨h₁, h₂⟩), hkeep₁.trans hkeep⟩
  · rw [kbudFreeRange_eq hphys hfind hadd (ptr_ne_kpageErr p), hoffs, hstart, hsize]
    exact hrun
  · obtain ⟨b, hb, hab⟩ := ha
    rcases hb with ⟨g', hg', hk, hpg⟩ | hb
    · refine ⟨b, Or.inl ⟨g', (hmem g').2 (Or.inr hg'), hk, ?_⟩, hab⟩
      dsimp only at hpg ⊢
      rw [addFree_of_ne (hne g' hg')]
      exact hpg
    · exact ⟨b, Or.inr hb, hab⟩

end Donation

/-! ### The system -/

/-- The table has room for the region of a donated range and the terminator, and the region is regular.
There is no condition on allocations and frees. -/
def Regular (s : Sys) : Op → Prop
  | Op.donate vaddr len =>
      s.st.regionCount + 1 < pframeMaxRegions ∧ (donated (rangeBase vaddr / 4096) len).Regular
  | Op.alloc _ => True
  | Op.free .. => True

instance (s : Sys) : ∀ o, Decidable (Regular s o)
  | Op.donate .. => inferInstanceAs (Decidable (_ ∧ _))
  | Op.alloc _ => isTrue trivial
  | Op.free .. => isTrue trivial

/-- **The invariant**: all regions are regular, and each of their pages is in a block. -/
structure Neat (s : Sys) (sh : Shape) : Prop where
  ok : Ok s sh
  canon : Canon s.st sh
  full : ∀ g ∈ sh.regs, ∀ a, g.start ≤ a → a < g.start + g.pages → sh.Holds a

namespace Neat

variable {s : Sys} {sh : Shape}

theorem init : Neat Sys.init ⟨[], fun _ _ => [], []⟩ where
  ok := Ok.init
  canon := by
    refine ⟨?_, ?_, ?_, ?_⟩ <;>
    · intro g hg
      exact absurd hg List.not_mem_nil
  full g hg := absurd hg List.not_mem_nil

/-- The counts play no part in the invariant. -/
theorem setCounts (h : Neat s sh) (c : List (ℕ × ℕ)) : Neat { s with counts := c } sh :=
  ⟨⟨h.ok.inv, h.ok.live, h.ok.ranges, h.ok.accepts⟩, h.canon, h.full⟩

/-- **A donation** writes into no block in use. -/
theorem donate (h : Neat s sh) {vaddr len : ℕ} (hp : Promised s (Op.donate vaddr len))
    (hr : Regular s (Op.donate vaddr len)) :
    ∃ st' sh', kbudFreeRange s.st vaddr len = some st' ∧
      Neat { s with st := st', ranges := (rangeBase vaddr, len) :: s.ranges } sh' ∧
      ∀ b ∈ s.live, ∀ x, Covers b x → st'.mem (Loc.next x) = s.st.mem (Loc.next x) := by
  obtain ⟨hend, hdisj⟩ := hp
  obtain ⟨hroom, hreg⟩ := hr
  set p := virtToPhysPm vaddr / 4096 with hpdef
  have hbase : rangeBase vaddr = 4096 * p := by
    have hlt : virtToPhysPm vaddr < 2 ^ 64 := Word.sub_lt _ _
    rw [rangeBase, pageAlignDown_eq hlt, Nat.mul_comm]
  rw [hbase] at hend hdisj hreg
  rw [Nat.mul_div_cancel_left p (by decide)] at hreg
  rw [h.ok.inv.count] at hroom
  obtain ⟨st', regs', free', hrun, hinv, hc, hmem, hnone, hold, hnew, hkeep⟩ :=
    kbudFreeRange_canon h.ok.inv h.canon (show pageAlignDown (virtToPhysPm vaddr) = 4096 * p from hbase)
      hend hroom hreg fun g hg => h.ok.pages_out hdisj hg
  refine ⟨st', ⟨regs', free', sh.live⟩, hrun, ?_, hkeep.words h.ok.live⟩
  refine ⟨⟨hinv, h.ok.live, fun g hg => ?_, fun b hb g hg hin => ?_⟩, hc, fun g hg a h₁ h₂ => ?_⟩
  · rcases (hmem g).1 hg with rfl | hg
    · exact ⟨len, by rw [hbase]; exact List.mem_cons_self, rfl⟩
    · obtain ⟨len', hmem', heq⟩ := h.ok.ranges g hg
      exact ⟨len', List.mem_cons_of_mem _ hmem', heq⟩
  · rcases (hmem g).1 hg with rfl | hg
    · exact absurd hin (hnone b hb)
    · exact h.ok.accepts b hb g hg hin
  · rcases (hmem g).1 hg with rfl | hg
    · exact hnew a h₁ h₂
    · exact hold a (h.full g hg a h₁ h₂)

/-- **An allocation** fails and changes nothing, or hands out a block and writes into no other block
in use. -/
theorem alloc (h : Neat s sh) (order : ℕ) :
    kbudAlloc s.st order = some (kpageErr, s.st) ∨
      ∃ a st' sh', kbudAlloc s.st order = some (a, st') ∧ a ≠ kpageErr ∧
        Neat { s with st := st', live := (a, order) :: s.live } sh' ∧
        ∀ b ∈ s.live, ∀ x, Covers b x → st'.mem (Loc.next x) = s.st.mem (Loc.next x) := by
  rcases kbudAlloc_canon h.ok.inv h.canon order with
    hfail | ⟨g, pg, st', free', hg, hrun, hin, hinv, hc, hholds, hkeep⟩
  · exact Or.inl hfail
  · refine Or.inr ⟨ptr pg, st', ⟨sh.regs, free', ⟨order, pg⟩ :: sh.live⟩, hrun, ptr_ne_kpageErr pg,
      ⟨⟨hinv, ?_, h.ok.ranges, fun b hb g' hg' hin' => ?_⟩, hc,
        fun g hg a h₁ h₂ => hholds a (h.full g hg a h₁ h₂)⟩, hkeep.words h.ok.live⟩
    · dsimp only
      rw [h.ok.live]
      rfl
    · exact (hc.regular g' hg').accepts hin' (hinv.live b hb).1

/-- **A free** of a block in use writes into no other one. -/
theorem free (h : Neat s sh) {vaddr order : ℕ} (hp : Promised s (Op.free vaddr order)) :
    ∃ st' sh', kbudFree s.st vaddr order = some st' ∧
      Neat { s with st := st', live := s.live.erase (vaddr, order) } sh' ∧
      ∀ b ∈ s.live.erase (vaddr, order), ∀ x, Covers b x →
        st'.mem (Loc.next x) = s.st.mem (Loc.next x) := by
  obtain ⟨b, hb, rfl, rfl, hinv⟩ := h.ok.in_use hp
  obtain ⟨st', free', hrun, hinv', hc', hholds, hkeep⟩ := kbudFree_canon hinv h.canon.live_irrel
  have hlive : s.live.erase (ptr b.pg, b.ord) = (sh.live.erase b).map fun b => (ptr b.pg, b.ord) := by
    rw [h.ok.live, List.map_erase Ok.block_injective]
  refine ⟨st', ⟨sh.regs, free', sh.live.erase b⟩, hrun, ?_, hkeep.words hlive⟩
  refine ⟨⟨hinv', hlive, h.ok.ranges, fun c hc => h.ok.accepts c (List.mem_of_mem_erase hc)⟩, hc',
    fun g hg a h₁ h₂ => hholds a ?_⟩
  refine holds_live (fun c hc hac => ⟨c, ?_, hac⟩) (h.full g hg a h₁ h₂)
  exact (List.perm_cons_erase hb).mem_iff.1 hc

/-- **What an operation does.** -/
theorem step (h : Neat s sh) {o : Op} (hp : Promised s o) (hr : Regular s o) :
    ∃ s' sh', Buddy.step s o = some s' ∧ Neat s' sh' := by
  cases o with
  | donate vaddr len =>
      obtain ⟨st', sh', hrun, hn, -⟩ := h.donate hp hr
      exact ⟨_, sh', by rw [Buddy.step, hrun, Option.map_some], hn.setCounts _⟩
  | alloc order =>
      rcases h.alloc order with hrun | ⟨a, st', sh', hrun, hne, hn, -⟩
      · exact ⟨_, sh, Ok.step_alloc hrun, h⟩
      · refine ⟨_, sh', Ok.step_alloc hrun, ?_⟩
        rw [if_neg hne]
        exact hn
  | free vaddr order =>
      obtain ⟨st', sh', hrun, hn, -⟩ := h.free hp
      exact ⟨_, sh', by rw [Buddy.step, hrun, Option.map_some], hn⟩

/-- The state after a run whose donations are regular. -/
theorem run {os : List Op} (hos : Run.Along Buddy.step (fun s o => Promised s o ∧ Regular s o) Sys.init os) :
    ∃ s sh, Run.exec Buddy.step Sys.init os = some s ∧ Neat s sh := by
  obtain ⟨s, hrun, sh, hn⟩ := Run.exec_of_along (I := fun s => ∃ sh, Neat s sh)
    (fun s o hI hC => by
      obtain ⟨sh, h⟩ := hI
      obtain ⟨s', sh', hs', h'⟩ := h.step hC.1 hC.2
      exact ⟨s', hs', sh', h'⟩) ⟨_, init⟩ hos
  exact ⟨s, sh, hrun, hn⟩

end Neat

/-! ### The free blocks as read off from memory -/

/-- The page lies in the block, given by its address and its order. -/
def InBlock (a : ℕ) (b : ℕ × ℕ) : Prop :=
  virtToPhysPm b.1 ≤ pageSize * a ∧ pageSize * a < virtToPhysPm b.1 + pageSize * 2 ^ b.2

/-- The pages that the region at `r` hands out. -/
def State.pages (st : State) (r : ℕ) : Set ℕ :=
  {a | (st.slaves r).mbase ≤ pageSize * a ∧
    pageSize * a < (st.slaves r).mbase + (st.slaves r).totalPages * pageSize}

/-- Those of them that are in no block in use. -/
def Sys.freePages (s : Sys) (r : ℕ) : Set ℕ := {a ∈ s.st.pages r | ∀ b ∈ s.live, ¬ InBlock a b}

/-- **The free lists hold the maximal blocks** of the pages that are in no block in use. -/
def Canonical (s : Sys) : Prop :=
  ∀ i < s.st.regionCount, ∀ k < pframeMaxOrder, ∀ p, p ∈ freeList s.st (s.st.regions i) k ↔
    ∃ pg, p = ptr pg ∧
      MaximalIn (s.freePages (s.st.regions i)) (s.st.slaves (s.st.regions i)).maxOrder k pg

/-- The page is in exactly one block, free or in use, and there once. -/
def OneBlock (s : Sys) : Prop :=
  ∀ i < s.st.regionCount, ∀ a ∈ s.st.pages (s.st.regions i), ∃ l₁ b l₂, s.blocks = l₁ ++ b :: l₂ ∧
    InBlock a b ∧ ∀ b' ∈ l₁ ++ l₂, ¬ InBlock a b'

theorem inBlock_ptr {a : ℕ} {b : Blk} (hb : b.pg < 2 ^ 35) :
    InBlock a (ptr b.pg, b.ord) ↔ a ∈ block b.ord b.pg := by
  unfold InBlock
  dsimp only
  rw [virtToPhysPm_ptr hb]
  unfold pageSize
  rw [Dyad.mem_block]
  omega

namespace Neat

variable {s : Sys} {sh : Shape}

theorem mem_pages (h : Inv s.st sh) {g : Region} (hg : g ∈ sh.regs) {a : ℕ} :
    a ∈ s.st.pages (ptr g.head) ↔ g.start ≤ a ∧ a < g.start + g.pages := by
  have hs := h.header g hg
  unfold State.pages
  rw [Set.mem_ofPred_eq, hs.mbase, hs.totalPages]
  unfold pageSize
  omega

theorem mem_freePages (h : Neat s sh) {g : Region} (hg : g ∈ sh.regs) {a : ℕ} :
    a ∈ s.freePages (ptr g.head) ↔
      (g.start ≤ a ∧ a < g.start + g.pages) ∧ ∀ b ∈ sh.live, a ∉ block b.ord b.pg := by
  unfold Sys.freePages
  rw [Set.mem_sep_iff, mem_pages h.ok.inv hg, h.ok.live, List.forall_mem_map]
  refine and_congr_right fun _ => forall₂_congr fun b hb => ?_
  obtain ⟨-, -, g', hg', hin⟩ := h.ok.inv.live b hb
  have hlt := (hin.pg_lt (h.ok.inv.valid g' hg')).2
  rw [inBlock_ptr (by omega)]

/-- Blocks that are apart have no page in common. -/
theorem not_apart (b b' : Blk) {a : ℕ} (hb : a ∈ block b.ord b.pg) (hb' : a ∈ block b'.ord b'.pg) :
    ¬ Apart b b' := by
  obtain ⟨h₁, h₂⟩ := hb
  obtain ⟨h₃, h₄⟩ := hb'
  unfold Apart
  omega

/-- **The free blocks of a region are a reduced cover** of its free pages. -/
theorem reduced (h : Neat s sh) {g : Region} (hg : g ∈ sh.regs) :
    Reduced (topOrder g.rpages) (s.freePages (ptr g.head))
      fun k pg => k ≤ 10 ∧ pg ∈ sh.free g.head k := by
  have hr := h.canon.regular g hg
  have htop := topOrder_le g.rpages
  have hfree : ∀ {k pg}, k ≤ 10 → pg ∈ sh.free g.head k → sh.IsFree ⟨k, pg⟩ := fun hk hpg =>
    ⟨g, hg, hk, hpg⟩
  have hin : ∀ {k pg}, k ≤ 10 → pg ∈ sh.free g.head k → g.In ⟨k, pg⟩ := fun hk hpg =>
    (h.ok.inv.list g hg _ hk).mem_in _ hpg
  refine ⟨?_, ?_, ?_, ?_, ?_, ?_⟩
  · rintro k pg ⟨hk, hpg⟩
    exact (h.ok.inv.list g hg k hk).dvd pg hpg
  · rintro k pg ⟨hk, hpg⟩
    exact hr.le_top (hin hk hpg) hk
  · rintro k pg ⟨hk, hpg⟩ a ha
    obtain ⟨h₁, h₂⟩ := hin hk hpg
    obtain ⟨h₃, h₄⟩ := ha
    dsimp only at h₁ h₂
    refine (h.mem_freePages hg).2 ⟨⟨by omega, by omega⟩, fun b hb hab => ?_⟩
    exact not_apart b ⟨k, pg⟩ hab ⟨h₃, h₄⟩ (h.ok.inv.sepMix b hb _ (hfree hk hpg))
  · intro a ha
    obtain ⟨⟨h₁, h₂⟩, hlive⟩ := (h.mem_freePages hg).1 ha
    obtain ⟨b, hb, hab⟩ := h.full g hg a h₁ h₂
    rcases hb with ⟨g', hg', hk, hpg⟩ | hb
    · have hin' := (h.ok.inv.list g' hg' b.ord hk).mem_in b.pg hpg
      -- the block lies in the region of its page
      have hone : g.In ⟨0, a⟩ := ⟨h₁, by dsimp only; omega⟩
      have hone' : g'.In ⟨0, a⟩ := by
        obtain ⟨h₃, h₄⟩ := hab
        obtain ⟨h₅, h₆⟩ := hin'
        exact ⟨by dsimp only at h₅ ⊢; omega, by dsimp only at h₆ ⊢; omega⟩
      obtain rfl := h.ok.inv.eq_of_in hg hg' hone hone' rfl
      exact ⟨b.ord, b.pg, ⟨hk, hpg⟩, hab⟩
    · exact absurd hab (hlive b hb)
  · rintro k pg k' pg' a ⟨hk, hpg⟩ ⟨hk', hpg'⟩ ha ha'
    by_contra hne
    refine not_apart ⟨k, pg⟩ ⟨k', pg'⟩ ha ha'
      (h.ok.inv.sepFree _ _ (hfree hk hpg) (hfree hk' hpg') fun heq => hne ?_)
    exact Blk.mk.inj heq
  · rintro k hk pg hdvd ⟨hk10, hpg⟩ ⟨-, hpg'⟩
    have hpos := Nat.two_pow_pos k
    have heq := h.canon.lone g hg k hk pg hpg (pg + 2 ^ k) hpg' ?_
    · omega
    · rw [hr.pair_iff hk (hin hk10 hpg).1 (hin hk10 hpg').1, Dyad.base_eq hdvd le_rfl (by
        have := Nat.two_pow_pos (k + 1); omega), Dyad.base_eq hdvd (Nat.le_add_right _ _) (by
        rw [Nat.pow_succ]; omega)]

/-- **The free lists hold the maximal blocks.** -/
theorem canonical (h : Neat s sh) : Canonical s := by
  intro i hi k hk p
  obtain ⟨g, hg, hr⟩ := h.ok.inv.region hi
  unfold pframeMaxOrder at hk
  rw [hr, h.ok.inv.freeList_eq hg (by omega), List.mem_map, h.canon.maxOrder g hg]
  have hiff := fun pg => (h.reduced hg).iff_maximalIn k pg
  constructor
  · rintro ⟨pg, hpg, rfl⟩
    exact ⟨pg, rfl, (hiff pg).1 ⟨by omega, hpg⟩⟩
  · rintro ⟨pg, rfl, hmax⟩
    exact ⟨pg, ((hiff pg).2 hmax).2, rfl⟩

/-- A block in use around a page of a region lies in the region. -/
theorem inRegion (h : Neat s sh) {g : Region} (hg : g ∈ sh.regs) {a : ℕ}
    (ha : a ∈ s.st.pages (ptr g.head)) {b : ℕ × ℕ} (hb : b ∈ s.live) (hab : InBlock a b) :
    InRegion (s.st.slaves (ptr g.head)) b := by
  rw [h.ok.live] at hb
  obtain ⟨c, hc, rfl⟩ := List.mem_map.1 hb
  obtain ⟨-, -, g', hg', hin⟩ := h.ok.inv.live c hc
  have hlt := (hin.pg_lt (h.ok.inv.valid g' hg')).2
  rw [inBlock_ptr (by omega)] at hab
  rw [mem_pages h.ok.inv hg] at ha
  rw [inRegion_iff h.ok.inv hg (by omega)]
  obtain ⟨h₃, h₄⟩ := hab
  obtain ⟨h₅, h₆⟩ := id hin
  have hone : g.In ⟨0, a⟩ := ⟨ha.1, by dsimp only; omega⟩
  have hone' : g'.In ⟨0, a⟩ := ⟨by dsimp only; omega, by dsimp only; omega⟩
  obtain rfl := h.ok.inv.eq_of_in hg hg' hone hone' rfl
  exact hin

/-- **Every page is in exactly one block.** -/
theorem oneBlock (h : Neat s sh) : OneBlock s := by
  intro i hi a ha
  obtain ⟨g, hg, hr⟩ := h.ok.inv.region hi
  rw [hr, mem_pages h.ok.inv hg] at ha
  obtain ⟨b, hb, hab⟩ := h.full g hg a ha.1 ha.2
  have hin : ∃ g ∈ sh.regs, g.In b := by
    rcases hb with hb | hb
    · exact (h.ok.inv.free_in hb).2
    · exact (h.ok.inv.live b hb).2.2
  obtain ⟨g', hg', hin'⟩ := hin
  have hlt := (hin'.pg_lt (h.ok.inv.valid g' hg')).2
  have hmem : (ptr b.pg, b.ord) ∈ s.blocks := by
    rw [Sys.blocks, List.mem_append, h.ok.live, freeBlocks_eq h.ok.inv]
    rcases hb with hb | hb
    · exact Or.inr (List.mem_map.2 ⟨b, Shape.mem_freeBlocks.2 hb, rfl⟩)
    · exact Or.inl (List.mem_map.2 ⟨b, hb, rfl⟩)
  have hsep := h.ok.separate.disjoint
  obtain ⟨l₁, l₂, hl⟩ := List.append_of_mem hmem
  rw [hl, List.pairwise_append, List.pairwise_cons] at hsep
  have hself : InBlock a (ptr b.pg, b.ord) := (inBlock_ptr (by omega)).2 hab
  have hno : ∀ c, DisjointBytes (ptr b.pg, b.ord) c → ¬ InBlock a c := by
    intro c hd hc
    obtain ⟨h₁, h₂⟩ := hself
    obtain ⟨h₃, h₄⟩ := hc
    unfold DisjointBytes at hd
    omega
  refine ⟨l₁, _, l₂, hl, hself, fun c hc => hno c ?_⟩
  rcases List.mem_append.1 hc with hc | hc
  · exact (hsep.2.2 c hc _ List.mem_cons_self).symm
  · exact hsep.2.1.1 c hc

/-- **The regions with a block of an order or a larger one** are those with an aligned run of free
pages of that size. -/
theorem hasBlock_iff (h : Neat s sh) {g : Region} (hg : g ∈ sh.regs) {req : ℕ} (hreq : req ≤ 10) :
    (∃ k < pframeMaxOrder, req ≤ k ∧ HasBlock s.st (ptr g.head) k) ↔
      ∃ pg, 2 ^ req ∣ pg ∧ block req pg ⊆ s.freePages (ptr g.head) := by
  have hred := h.reduced hg
  have hhas : ∀ k ≤ 10, HasBlock s.st (ptr g.head) k ↔ ∃ pg, pg ∈ sh.free g.head k := by
    intro k hk
    rw [HasBlock, ne_eq, (h.ok.inv.list g hg k hk).chain.null_iff, List.map_eq_nil_iff]
    constructor
    · exact List.exists_mem_of_ne_nil _
    · rintro ⟨pg, hpg⟩
      exact List.ne_nil_of_mem hpg
  unfold pframeMaxOrder
  constructor
  · rintro ⟨k, hk, hle, hblk⟩
    obtain ⟨pg, hpg⟩ := (hhas k (by omega)).1 hblk
    have hF : k ≤ 10 ∧ pg ∈ sh.free g.head k := ⟨by omega, hpg⟩
    have hdvd : 2 ^ req ∣ pg := (Nat.pow_dvd_pow 2 hle).trans (hred.dvd k pg hF)
    exact ⟨pg, hdvd, (Dyad.block_subset hle hdvd (hred.dvd k pg hF) (Dyad.self_mem_block req pg)
      (Dyad.self_mem_block k pg)).trans (hred.sub k pg hF)⟩
  · rintro ⟨pg, hdvd, hsub⟩
    have hpos := Nat.two_pow_pos req
    have hfirst := ((h.mem_freePages hg).1 (hsub (Dyad.self_mem_block req pg))).1
    have hlast := ((h.mem_freePages hg).1 (hsub (show pg + 2 ^ req - 1 ∈ block req pg from
      ⟨by omega, by omega⟩))).1
    have hin : g.In ⟨req, pg⟩ := ⟨hfirst.1, by dsimp only; omega⟩
    obtain ⟨k, pg', ⟨hk, hpg'⟩, hle, -⟩ :=
      hred.exists_super ((h.canon.regular g hg).le_top hin hreq) hdvd hsub
    exact ⟨k, by omega, hle, (hhas k hk).2 ⟨pg', hpg'⟩⟩

/-- **An allocation fails** exactly when the order is too large or there is no such run. -/
theorem alloc_fails_iff (h : Neat s sh) (req : ℕ) :
    (∃ st', kbudAlloc s.st req = some (kpageErr, st')) ↔ pframeMaxOrder ≤ req ∨
      ∀ i < s.st.regionCount, ∀ pg, 2 ^ req ∣ pg → ¬ block req pg ⊆ s.freePages (s.st.regions i) := by
  have hlists : Lists s.st := h.ok.inv.lists fun g hg => by
    have hv := h.ok.inv.valid g hg
    have hpos := (h.canon.regular g hg).pos
    have hsum := hv.sum
    have hle := hv.le
    omega
  rw [(kbudAlloc_firstFit hlists req).1]
  by_cases hreq : pframeMaxOrder ≤ req
  · simp only [hreq, true_or]
  simp only [hreq, false_or]
  unfold pframeMaxOrder at hreq
  refine forall₂_congr fun i hi => ?_
  obtain ⟨g, hg, hr⟩ := h.ok.inv.region hi
  have hiff := h.hasBlock_iff hg (show req ≤ 10 by omega)
  rw [hr]
  constructor
  · intro hno pg hdvd hsub
    obtain ⟨k, hk, hle, hblk⟩ := hiff.2 ⟨pg, hdvd, hsub⟩
    exact hno k hk hle hblk
  · intro hno k hk hle hblk
    obtain ⟨pg, hdvd, hsub⟩ := hiff.1 ⟨k, hk, hle, hblk⟩
    exact hno pg hdvd hsub

/-- **The invariant depends on the heads of the lists and on the links of the free blocks only.** -/
theorem words (h : Neat s sh) {mem : Loc → ℕ}
    (hhead : ∀ r k, mem (Loc.free r k) = s.st.mem (Loc.free r k))
    (hfree : ∀ b, sh.IsFree b → mem (Loc.next (ptr b.pg)) = s.st.mem (Loc.next (ptr b.pg))) :
    Neat { s with st := { s.st with mem := mem } } sh := by
  have hi := h.ok.inv
  refine ⟨⟨⟨hi.count, hi.le, hi.table, hi.sorted, hi.valid, hi.header, fun g hg k hk => ?_, hi.sepFree,
    hi.sepLive, hi.sepMix, hi.live⟩, h.ok.live, h.ok.ranges, h.ok.accepts⟩,
    ⟨h.canon.regular, h.canon.maxOrder, h.canon.bit, h.canon.lone⟩, h.full⟩
  exact (hi.list g hg k hk).congr rfl rfl (hhead _ _) fun pg hpg => hfree ⟨k, pg⟩ ⟨g, hg, hk, hpg⟩

/-- A block in use of the callers is one of the abstract allocator. -/
theorem exists_live (h : Neat s sh) {b : ℕ × ℕ} (hb : b ∈ s.live) :
    ∃ c ∈ sh.live, b = (ptr c.pg, c.ord) := by
  rw [h.ok.live] at hb
  obtain ⟨c, hc, rfl⟩ := List.mem_map.1 hb
  exact ⟨c, hc, rfl⟩

/-- A block in use is aligned to its size, not null and inside the address space. -/
theorem live_facts (h : Neat s sh) {b : ℕ × ℕ} (hb : b ∈ s.live) :
    0 < b.1 ∧ 2 ^ (12 + b.2) ∣ b.1 ∧ b.1 + 2 ^ (12 + b.2) ≤ 2 ^ 64 := by
  obtain ⟨c, hc, rfl⟩ := h.exists_live hb
  obtain ⟨hord, hdvd, g, hg, hin⟩ := h.ok.inv.live c hc
  have hlt := (hin.pg_lt (h.ok.inv.valid g hg)).2
  have hpow : 2 ^ (12 + c.ord) = 4096 * 2 ^ c.ord := Nat.pow_add 2 12 c.ord
  have hle : 2 ^ c.ord ≤ 2 ^ 10 := Nat.pow_le_pow_right (by decide) hord
  dsimp only
  unfold ptr kernelPhmap
  refine ⟨by omega, ?_, by omega⟩
  rw [hpow]
  refine Nat.dvd_add (Nat.mul_dvd_mul_left 4096 hdvd) ?_
  calc 4096 * 2 ^ c.ord ∣ 4096 * 2 ^ 10 := Nat.mul_dvd_mul_left _ (Nat.pow_dvd_pow 2 hord)
    _ ∣ 0xFFFF800000000000 := by decide

/-- The blocks in use have no address in common. -/
theorem live_pairwise (h : Neat s sh) :
    s.live.Pairwise fun b b' => ∀ x, Covers b x → ¬ Covers b' x := by
  rw [h.ok.live, List.pairwise_map]
  refine List.Pairwise.imp ?_ h.ok.inv.sepLive
  intro b b' hap x hx
  exact hap.not_covers hx

theorem live_nodup (h : Neat s sh) : s.live.Nodup := by
  refine h.live_pairwise.imp fun {b b'} hap heq => ?_
  have hpos := Nat.two_pow_pos b.2
  have hself : Covers b b.1 := ⟨le_rfl, by unfold pageSize; omega⟩
  exact hap b.1 hself (heq ▸ hself)

/-- Two blocks in use with a common address are the same. -/
theorem live_unique (h : Neat s sh) {b b' : ℕ × ℕ} (hb : b ∈ s.live) (hb' : b' ∈ s.live) {x : ℕ}
    (hx : Covers b x) (hx' : Covers b' x) : b = b' := by
  by_contra hne
  have hsymm : Std.Symm fun b b' : ℕ × ℕ => ∀ x, Covers b x → ¬ Covers b' x :=
    ⟨fun _ _ hap x h₁ h₂ => hap x h₂ h₁⟩
  exact h.live_pairwise.forall hb hb' hne x hx hx'

/-- A free block has no address of a block in use. -/
theorem free_not_covers (h : Neat s sh) {b : ℕ × ℕ} (hb : b ∈ s.live) {f : Blk} (hf : sh.IsFree f)
    {x : ℕ} (hx : Covers b x) : ¬ Covers (ptr f.pg, f.ord) x := by
  obtain ⟨c, hc, rfl⟩ := h.exists_live hb
  exact (h.ok.inv.sepMix c hc f hf).not_covers hx

end Neat

/-! ### Runs -/

/-- **The free lists are canonical**: in every run whose donations are regular, they hold exactly the
maximal blocks of the pages that are in no block in use. -/
theorem kbud_run_canonical {os : List Op}
    (hos : Run.Along Buddy.step (fun s o => Promised s o ∧ Regular s o) Sys.init os) :
    Run.Every Buddy.step (fun _ _ s' => Canonical s') Sys.init os := by
  refine Run.every_of_along (I := fun s => ∃ sh, Neat s sh) ?_ ⟨_, Neat.init⟩ hos
  rintro s o ⟨sh, h⟩ ⟨hp, hr⟩
  obtain ⟨s', sh', hrun, h'⟩ := h.step hp hr
  exact ⟨s', hrun, h'.canonical, sh', h'⟩

/-- The operations of a run in a regular region of sixteen pages. -/
def regularOps : List Op :=
  [Op.donate (physToVirtPm 0x107000) 0x10000, Op.alloc 0, Op.alloc 1, Op.alloc 0,
    Op.free (physToVirtPm 0x110000) 0]

theorem regularOps_along :
    Run.Along Buddy.step (fun s o => Promised s o ∧ Regular s o) Sys.init regularOps := by
  decide +kernel

theorem kbud_run_canonical_trace :
    Run.Every Buddy.step (fun _ _ s' => Canonical s') Sys.init regularOps :=
  kbud_run_canonical regularOps_along

/-- **No page is lost or handed out twice**: in every run whose donations are regular, each page of each
region is in exactly one block. -/
theorem kbud_run_oneBlock {os : List Op}
    (hos : Run.Along Buddy.step (fun s o => Promised s o ∧ Regular s o) Sys.init os) :
    Run.Every Buddy.step (fun _ _ s' => OneBlock s' ∧ Separate s') Sys.init os := by
  refine Run.every_of_along (I := fun s => ∃ sh, Neat s sh) ?_ ⟨_, Neat.init⟩ hos
  rintro s o ⟨sh, h⟩ ⟨hp, hr⟩
  obtain ⟨s', sh', hrun, h'⟩ := h.step hp hr
  exact ⟨s', hrun, ⟨h'.oneBlock, h'.ok.separate⟩, sh', h'⟩

theorem kbud_run_oneBlock_trace :
    Run.Every Buddy.step (fun _ _ s' => OneBlock s' ∧ Separate s') Sys.init regularOps :=
  kbud_run_oneBlock regularOps_along

/-- Blocks in use of one state that are in use in another take pages from both. -/
theorem Neat.freePages_subset {s₁ s₂ : Sys} {sh : Shape} (h : Neat s₂ sh) {g : Region}
    (hg : g ∈ sh.regs) (hpages : s₁.st.pages (ptr g.head) = s₂.st.pages (ptr g.head))
    (hlive : ∀ b ∈ s₂.live, InRegion (s₂.st.slaves (ptr g.head)) b → b ∈ s₁.live) :
    s₁.freePages (ptr g.head) ⊆ s₂.freePages (ptr g.head) := by
  rintro a ⟨ha, hfree⟩
  rw [hpages] at ha
  exact ⟨ha, fun b hb hab => hfree b (hlive b hb (h.inRegion hg ha hb hab)) hab⟩

/-- **The history does not matter**: two runs whose donations are regular, and after which the same
blocks of a region are in use, leave the same blocks on each of its free lists. -/
theorem kbud_history {os₁ os₂ : List Op} {s₁ s₂ : Sys}
    (h₁ : Run.Along Buddy.step (fun s o => Promised s o ∧ Regular s o) Sys.init os₁)
    (h₂ : Run.Along Buddy.step (fun s o => Promised s o ∧ Regular s o) Sys.init os₂)
    (hs₁ : Run.exec Buddy.step Sys.init os₁ = some s₁)
    (hs₂ : Run.exec Buddy.step Sys.init os₂ = some s₂) {i j : ℕ} (hi : i < s₁.st.regionCount)
    (hj : j < s₂.st.regionCount) (hr : s₁.st.regions i = s₂.st.regions j)
    (hmb : (s₁.st.slaves (s₁.st.regions i)).mbase = (s₂.st.slaves (s₁.st.regions i)).mbase)
    (htotal : (s₁.st.slaves (s₁.st.regions i)).totalPages =
      (s₂.st.slaves (s₁.st.regions i)).totalPages)
    (hmax : (s₁.st.slaves (s₁.st.regions i)).maxOrder = (s₂.st.slaves (s₁.st.regions i)).maxOrder)
    (hlive : ∀ b, InRegion (s₁.st.slaves (s₁.st.regions i)) b → (b ∈ s₁.live ↔ b ∈ s₂.live))
    {k : ℕ} (hk : k < pframeMaxOrder) (p : ℕ) :
    p ∈ freeList s₁.st (s₁.st.regions i) k ↔ p ∈ freeList s₂.st (s₁.st.regions i) k := by
  obtain ⟨s, sh₁, hs, hn₁⟩ := Neat.run h₁
  obtain rfl := Option.some_inj.1 (hs.symm.trans hs₁)
  obtain ⟨s', sh₂, hs', hn₂⟩ := Neat.run h₂
  obtain rfl := Option.some_inj.1 (hs'.symm.trans hs₂)
  obtain ⟨g, hg, hgr⟩ := hn₁.ok.inv.region hi
  obtain ⟨g', hg', hgr'⟩ := hn₂.ok.inv.region hj
  have hhead : ptr g'.head = ptr g.head := by rw [← hgr', ← hr, hgr]
  have hc₁ := hn₁.canonical i hi k hk p
  have hc₂ := hn₂.canonical j hj k hk p
  rw [← hr] at hc₂
  rw [hgr] at hmb htotal hmax hlive hc₁ hc₂ ⊢
  have hpages : s.st.pages (ptr g.head) = s'.st.pages (ptr g.head) := by
    unfold State.pages
    rw [hmb, htotal]
  have hin : ∀ b, InRegion (s'.st.slaves (ptr g.head)) b → InRegion (s.st.slaves (ptr g.head)) b := by
    intro b hb
    unfold InRegion at hb ⊢
    rwa [hmb, htotal]
  have hfree : s.freePages (ptr g.head) = s'.freePages (ptr g.head) := by
    refine Set.Subset.antisymm ?_ ?_
    · rw [← hhead] at hpages hlive hin ⊢
      exact hn₂.freePages_subset hg' hpages fun b hb hbr => (hlive b (hin b hbr)).2 hb
    · exact hn₁.freePages_subset hg hpages.symm fun b hb hbr => (hlive b hbr).1 hb
  rw [hc₁, hc₂, hfree, hmax]

/-- What was taken from the region is given back in another order. -/
def freedOps : List Op :=
  [Op.donate (physToVirtPm 0x107000) 0x10000, Op.alloc 0, Op.alloc 1, Op.alloc 0,
    Op.free (physToVirtPm 0x114000) 1, Op.free (physToVirtPm 0x110000) 0,
    Op.free (physToVirtPm 0x116000) 0]

/-- The free lists are those of the donation again. -/
theorem kbud_history_freed :
    ∃ s₁ s₂, Run.exec Buddy.step Sys.init (freedOps.take 1) = some s₁ ∧
      Run.exec Buddy.step Sys.init freedOps = some s₂ ∧ ∀ k < pframeMaxOrder, ∀ p,
        p ∈ freeList s₁.st (s₁.st.regions 0) k ↔ p ∈ freeList s₂.st (s₁.st.regions 0) k := by
  have hrun : ((Run.exec Buddy.step Sys.init (freedOps.take 1)).any fun s₁ =>
      (Run.exec Buddy.step Sys.init freedOps).any fun s₂ => decide
        (0 < s₁.st.regionCount ∧ 0 < s₂.st.regionCount ∧ s₁.st.regions 0 = s₂.st.regions 0 ∧
          (s₁.st.slaves (s₁.st.regions 0)).mbase = (s₂.st.slaves (s₁.st.regions 0)).mbase ∧
          (s₁.st.slaves (s₁.st.regions 0)).totalPages = (s₂.st.slaves (s₁.st.regions 0)).totalPages ∧
          (s₁.st.slaves (s₁.st.regions 0)).maxOrder = (s₂.st.slaves (s₁.st.regions 0)).maxOrder ∧
          s₁.live = [] ∧ s₂.live = [])) = true := by
    decide +kernel
  obtain ⟨s₁, hs₁, hrun⟩ := (Option.any_eq_true _ _).1 hrun
  obtain ⟨s₂, hs₂, hrun⟩ := (Option.any_eq_true _ _).1 hrun
  obtain ⟨h₁, h₂, hr, hmb, htotal, hmax, hl₁, hl₂⟩ := of_decide_eq_true hrun
  exact ⟨s₁, s₂, hs₁, hs₂, fun k hk p => kbud_history (by decide +kernel) (by decide +kernel) hs₁ hs₂ h₁
    h₂ hr hmb htotal hmax (fun b _ => by rw [hl₁, hl₂]) hk p⟩

/-- **An allocation fails only when it must**: after every run whose donations are regular, it fails
exactly when the order is too large or no region has an aligned run of free pages of that size. -/
theorem kbud_alloc_complete {os : List Op} {s : Sys}
    (hos : Run.Along Buddy.step (fun s o => Promised s o ∧ Regular s o) Sys.init os)
    (hs : Run.exec Buddy.step Sys.init os = some s) (req : ℕ) :
    (∃ st', kbudAlloc s.st req = some (kpageErr, st')) ↔ pframeMaxOrder ≤ req ∨
      ∀ i < s.st.regionCount, ∀ pg, 2 ^ req ∣ pg → ¬ block req pg ⊆ s.freePages (s.st.regions i) := by
  obtain ⟨s', sh, hs', hn⟩ := Neat.run hos
  obtain rfl := Option.some_inj.1 (hs'.symm.trans hs)
  exact hn.alloc_fails_iff req

/-- There is no aligned run of sixteen free pages in a region of fifteen, but one of eight. -/
theorem kbud_alloc_complete_sixteen :
    ∃ s, Run.exec Buddy.step Sys.init regularOps = some s ∧
      ((∃ st', kbudAlloc s.st 4 = some (kpageErr, st')) ↔ pframeMaxOrder ≤ 4 ∨
        ∀ i < s.st.regionCount, ∀ pg, 2 ^ 4 ∣ pg → ¬ block 4 pg ⊆ s.freePages (s.st.regions i)) := by
  obtain ⟨s, sh, hs, -⟩ := Neat.run regularOps_along
  exact ⟨s, hs, kbud_alloc_complete regularOps_along hs 4⟩

end Buddy

end SyncKernel
