/-
**No caller disturbs another one, and nothing is lost.**

In every run of the two allocators and their callers, no call faults, no two pieces of memory in use have
an address in common, and the words of a piece in use change by the writes of its holder only.  Every
page is in one block, every block that a cache was handed is one of its slabs, and every slot of a slab is
free or in use; so an allocation fails only when there is no memory for it.

Main definitions:

* `Mm.Sound` — the pieces in use are apart, from each other and from what the allocators keep;
* `Mm.Accounted` — where all the memory is.

Main results:

* `Mm.run_sound`, `Mm.run_intact`, `Mm.run_accounted` — **the runs**;
* `Mm.kslab_alloc_complete` — **an allocation fails only when it must**.
-/

import SyncKernel.Mm.Calls
import SyncKernel.Slab.Lifetime

set_option relaxedAutoImplicit false
set_option autoImplicit false

namespace SyncKernel

namespace Mm

open Buddy (Covers Neat)

variable {ι : Type}

/-- The pieces in use are apart from each other and from the free blocks, lie in the pages of the regions,
and hold no word of a header: neither of a region nor of a slab. -/
structure Sound (s : Sys ι) : Prop where
  blocks : (s.m.live.map Prod.fst).Nodup
  objects : ∀ i, (s.objs i).Nodup
  disjoint : ∀ u v, s.InUse u → s.InUse v → u ≠ v → ∀ x, s.Covers u x → ¬ s.Covers v x
  inside : ∀ u, s.InUse u → ∃ b, (∀ x, s.Covers u x → Covers b x) ∧
    ∃ r < s.m.pages.regionCount, Buddy.InRegion (s.m.pages.slaves (s.m.pages.regions r)) b
  free : ∀ u, s.InUse u → ∀ b ∈ s.m.pageView.freeBlocks, ∀ x, s.Covers u x → ¬ Covers b x
  regions : ∀ u, s.InUse u → ∀ x, s.Covers u x → ¬ Scratch s.m.pageView x
  slabs : ∀ u, s.InUse u → ∀ i, s.created i = some 0 → ∀ x, s.Covers u x →
    Slab.OffHeaders (s.m.caches i).owned x

/-- **Where all the memory is**: a page is in exactly one block, a block that was handed to a cache is a
slab on one of its lists, an object in use is a slot of such a slab, and the counter of the slab says how
many of its slots are not in use. -/
structure Accounted (s : Sys ι) : Prop where
  pages : Buddy.OneBlock (s.m.paging s.ranges)
  none : ∀ i, s.created i ≠ some 0 → ∀ b, (b, some i) ∉ s.m.live
  slabs : ∀ i, s.created i = some 0 → ∀ b, (b, some i) ∈ s.m.live ↔ b.2 = (s.m.caches i).cache.order ∧
    ∃ p, Slab.IsHead p ∧ Reaches Slab.nextOf 0 (s.m.cacheView i).mem p b.1
  objects : ∀ i, ∀ o ∈ s.objs i, ∃ t, ((t, (s.m.caches i).cache.order), some i) ∈ s.m.live ∧
    o ∈ Slab.slotsOf (s.m.caches i).cache.layout t
  counts : ∀ i, s.created i = some 0 → ∀ b, (b, some i) ∈ s.m.live → s.m.words (b.1 + 40) =
    ((Slab.slotsOf (s.m.caches i).cache.layout b.1).filter fun o => o ∉ s.objs i).length

namespace Ok

variable {s : Sys ι}

theorem sound (h : Ok s) : Sound s := by
  obtain ⟨sh, hn⟩ := h.pages
  refine ⟨hn.live_nodup, fun i => ?_, fun u v hu hv hne x hx => h.disjoint hu hv hne hx, fun u hu => ?_,
    fun u hu b hb x hx => ?_, fun u hu x hx => ?_, fun u hu i hi x hx => h.offHeaders hi hu hx⟩
  · by_cases hi : s.created i = some 0
    · obtain ⟨shc, hok⟩ := (h.caches i).cache hi
      exact hok.nodup
    · rw [((h.caches i).idle hi).2]
      exact List.nodup_nil
  · obtain ⟨b, hb, hcov⟩ := h.block_of hu
    exact ⟨b, hcov, hn.ok.separate.live b (List.mem_map_of_mem hb)⟩
  · obtain ⟨c, hc, hcov⟩ := h.block_of hu
    change b ∈ (s.m.paging s.ranges).st.freeBlocks at hb
    rw [Buddy.freeBlocks_eq hn.ok.inv] at hb
    obtain ⟨f, hf, rfl⟩ := List.mem_map.1 hb
    exact hn.free_not_covers (List.mem_map_of_mem hc) (Buddy.Shape.mem_freeBlocks.1 hf) (hcov x hx)
  · obtain ⟨c, hc, hcov⟩ := h.block_of hu
    exact not_scratch_live hn (List.mem_map_of_mem hc) (hcov x hx)

/-- The free slots of a slab are those that are not in use. -/
theorem free_iff {i : ι} {shc : Slab.Shape}
    (hok : Slab.Tight ⟨s.m.cacheView i, s.objs i, some 0⟩ shc) {t : ℕ} (ht : t ∈ (s.m.caches i).owned)
    {o : ℕ} : o ∈ shc.free t ↔ o ∈ Slab.slotsOf (s.m.caches i).cache.layout t ∧ o ∉ s.objs i := by
  constructor
  · intro ho
    have hslot := (hok.inv.slab t ht).slots o ho
    refine ⟨hslot, fun hlive => ?_⟩
    obtain ⟨u, hu, huslot, hno⟩ := hok.live o hlive
    obtain rfl := hok.inv.blocks.slot_unique hok.inv.geom ht hu hslot huslot
    exact hno ho
  · rintro ⟨hslot, hno⟩
    exact (hok.tight t ht o hslot).resolve_right hno

theorem accounted (h : Ok s) : Accounted s := by
  obtain ⟨sh, hn⟩ := h.pages
  refine ⟨hn.oneBlock, fun i hi b hb => ?_, fun i hi b => ?_, fun i o ho => ?_, fun i hi b hb => ?_⟩
  · have hmem := (((h.caches i).owned b).1 hb).1
    rw [((h.caches i).idle hi).1] at hmem
    exact List.not_mem_nil hmem
  · obtain ⟨shc, hok⟩ := (h.caches i).cache hi
    rw [(h.caches i).owned, and_comm]
    refine and_congr_right fun _ => ⟨fun hb => ?_, fun ⟨p, hp, hr⟩ => hok.toOk.reach hp hr⟩
    have hmem := hok.inv.mem_owned.1 hb
    rw [Slab.Shape.slabs, List.mem_append, List.mem_append, or_assoc] at hmem
    rcases hmem with hmem | hmem | hmem
    · exact ⟨_, Or.inl rfl, hok.inv.lists.full.reaches_iff.2 hmem⟩
    · exact ⟨_, Or.inr (Or.inl rfl), hok.inv.lists.part.reaches_iff.2 hmem⟩
    · exact ⟨_, Or.inr (Or.inr rfl), hok.inv.lists.empty.reaches_iff.2 hmem⟩
  · obtain ⟨shc, hok⟩ := (h.caches i).cache (h.created_of_mem ho)
    obtain ⟨t, ht, hslot, -⟩ := hok.live o ho
    exact ⟨t, ((h.caches i).owned _).2 ⟨ht, rfl⟩, hslot⟩
  · obtain ⟨shc, hok⟩ := (h.caches i).cache hi
    have ht := (((h.caches i).owned b).1 hb).1
    have hslab := hok.inv.slab b.1 ht
    have hperm : (shc.free b.1).Perm
        ((Slab.slotsOf (s.m.caches i).cache.layout b.1).filter fun o => o ∉ s.objs i) := by
      refine (List.perm_ext_iff_of_nodup hslab.nodup ((hok.inv.geom.nodup_slotsOf _).filter _)).2 fun o => ?_
      rw [free_iff hok ht, List.mem_filter, decide_eq_true_iff]
      exact Iff.rfl
    exact hslab.count.trans hperm.length_eq

end Ok

/-! ### Runs -/

variable [DecidableEq ι]

/-- **No two pieces of memory in use overlap**, in every run, and neither does a piece overlap what the
allocators keep. -/
theorem run_sound {os : List (Op ι)} (hos : Run.Along step Promised Sys.init os) :
    Run.Every step (fun _ _ s' => Sound s') Sys.init os := by
  refine Run.every_of_along (I := Ok) ?_ Ok.init hos
  intro s o h hp
  obtain ⟨s', hs', h', -⟩ := h.step hp
  exact ⟨s', hs', h'.sound, h'⟩

/-- Two caches and a caller of the page allocator.  The counter of empty slabs drifts, so the last free
gives a slab back. -/
def sharedOps : List (Op Bool) :=
  let obj := 0xFFFF800000116030
  let page := 0xFFFF800000114000
  let junk := fun _ => 7
  [Op.donate (physToVirtPm 0x107000) 0x10000 junk, Op.create true 64 8 0 junk, Op.alloc true junk,
    Op.allocPages 0 junk, Op.create false 600 16 0 junk, Op.alloc false junk,
    Op.write (Piece.object true obj) (obj + 8) 5, Op.write (Piece.block (page, 0)) page 9,
    Op.free true obj junk, Op.alloc true junk, Op.free true obj junk, Op.alloc true junk,
    Op.free true obj junk, Op.alloc true junk, Op.free true obj junk, Op.freePages page 0 junk]

theorem sharedOps_along : Run.Along step Promised Sys.init sharedOps := by
  decide +kernel

theorem run_sound_trace : Run.Every step (fun _ _ s' => Sound s') Sys.init sharedOps :=
  run_sound sharedOps_along

/-- **The words of a piece in use are its holder's**: no step of a run faults, a piece stays in use until it
is given back, and its words change by a write into it only. -/
theorem run_intact {os : List (Op ι)} (hos : Run.Along step Promised Sys.init os) :
    Run.Every step Intact Sys.init os := by
  refine Run.every_of_along (I := Ok) ?_ Ok.init hos
  intro s o h hp
  obtain ⟨s', hs', h', hintact⟩ := h.step hp
  exact ⟨s', hs', hintact, h'⟩

theorem run_intact_trace : Run.Every step Intact Sys.init sharedOps := run_intact sharedOps_along

/-- **No memory is lost**, in every run. -/
theorem run_accounted {os : List (Op ι)} (hos : Run.Along step Promised Sys.init os) :
    Run.Every step (fun _ _ s' => Accounted s') Sys.init os := by
  refine Run.every_of_along (I := Ok) ?_ Ok.init hos
  intro s o h hp
  obtain ⟨s', hs', h', -⟩ := h.step hp
  exact ⟨s', hs', h'.accounted, h'⟩

theorem run_accounted_trace : Run.Every step (fun _ _ s' => Accounted s') Sys.init sharedOps :=
  run_accounted sharedOps_along

/-- **An allocation fails only when it must**: after every run, `kslab_alloc` fails exactly when all slots
of all slabs of the cache are in use and no region has an aligned run of free pages for a new slab. -/
theorem kslab_alloc_complete {os : List (Op ι)} {s : Sys ι} (hos : Run.Along step Promised Sys.init os)
    (hs : Run.exec step Sys.init os = some s) {i : ι} (hi : s.created i = some 0) (junk : ℕ → ℕ) :
    (∃ m, s.m.kslabAlloc i junk = some (kpageErr, m)) ↔
      (∀ t, ((t, (s.m.caches i).cache.order), some i) ∈ s.m.live →
        ∀ o ∈ Slab.slotsOf (s.m.caches i).cache.layout t, o ∈ s.objs i) ∧
      ∀ r < s.m.pages.regionCount, ∀ pg, 2 ^ (s.m.caches i).cache.order ∣ pg →
        ¬ Dyad.block (s.m.caches i).cache.order pg ⊆ (s.m.paging s.ranges).freePages (s.m.pages.regions r) := by
  obtain ⟨s', hs', h⟩ := Run.exec_of_along (I := Ok) (fun s o h hp => by
    obtain ⟨s', hs', h', -⟩ := h.step hp
    exact ⟨s', hs', h'⟩) Ok.init hos
  obtain rfl := Option.some_inj.1 (hs'.symm.trans hs)
  obtain ⟨sh, hn⟩ := h.pages
  obtain ⟨shc, hok⟩ := (h.caches i).cache hi
  have hord : (s'.m.caches i).cache.order < 4 := hok.inv.geom.order_lt
  rcases hok.alloc_old with ⟨o, st, sh', hrun, hne, hok', hown, hlay, hframe⟩ | ⟨hpart, hempty, hrun⟩
  · -- the object that is returned was not in use
    obtain ⟨m, hm, -, -⟩ := h.alloc_slot junk hi hok hrun hne hok' hown hlay hframe
    refine iff_of_false ?_ fun hall => ?_
    · rintro ⟨m', hm'⟩
      exact hne (Prod.mk.inj (Option.some_inj.1 (hm.symm.trans hm'))).1
    · obtain ⟨t, ht, hslot, -⟩ := hok'.live o List.mem_cons_self
      dsimp only at ht hslot
      rw [hown] at ht
      rw [hlay] at hslot
      exact (List.nodup_cons.1 hok'.nodup).1
        (hall.1 t (((h.caches i).owned _).2 ⟨ht, rfl⟩) o hslot)
  · -- no slab has a free slot
    obtain ⟨o, m, hm, hfails, -, -⟩ := h.alloc_slab junk hi hok hpart hempty hrun
    have hfull : ∀ t, ((t, (s'.m.caches i).cache.order), some i) ∈ s'.m.live →
        ∀ o ∈ Slab.slotsOf (s'.m.caches i).cache.layout t, o ∈ s'.objs i := by
      intro t ht o ho
      have hto := (((h.caches i).owned _).1 ht).1
      refine (hok.tight t hto o ho).resolve_left fun hfree => ?_
      have hmem := hok.inv.mem_owned.1 hto
      rw [Slab.Shape.slabs, hpart, hempty, List.append_nil, List.append_nil] at hmem
      exact List.ne_nil_of_mem hfree (List.eq_nil_of_length_eq_zero (hok.inv.full t hmem))
    rw [and_iff_right hfull]
    have hcomplete := hn.alloc_fails_iff (s'.m.caches i).cache.order
    rw [or_iff_right (by unfold pframeMaxOrder; omega)] at hcomplete
    refine Iff.trans ?_ hcomplete
    refine Iff.trans ⟨?_, ?_⟩ hfails
    · rintro ⟨m', hm'⟩
      exact (Prod.mk.inj (Option.some_inj.1 (hm.symm.trans hm'))).1
    · rintro rfl
      exact ⟨m, hm⟩

/-- After the run there is a block for a slab. -/
theorem kslab_alloc_complete_trace :
    ∃ s, Run.exec step Sys.init sharedOps = some s ∧
      ((∃ m, s.m.kslabAlloc true (fun _ => 0) = some (kpageErr, m)) ↔
        (∀ t, ((t, (s.m.caches true).cache.order), some true) ∈ s.m.live →
          ∀ o ∈ Slab.slotsOf (s.m.caches true).cache.layout t, o ∈ s.objs true) ∧
        ∀ r < s.m.pages.regionCount, ∀ pg, 2 ^ (s.m.caches true).cache.order ∣ pg →
          ¬ Dyad.block (s.m.caches true).cache.order pg ⊆
            (s.m.paging s.ranges).freePages (s.m.pages.regions r)) := by
  have hrun : ((Run.exec step Sys.init sharedOps).any fun s => decide (s.created true = some 0)) = true := by
    decide +kernel
  obtain ⟨s, hs, hi⟩ := (Option.any_eq_true _ _).1 hrun
  exact ⟨s, hs, kslab_alloc_complete sharedOps_along hs (of_decide_eq_true hi) _⟩

end Mm

end SyncKernel
