/-
**No page is lost.**

The pages on the free lists of a region and those in its blocks in use are as many as there were on
the free lists right after the donation, as long as the region has a bit for every block that is
pushed.  `kbud_push` refuses a block without a bit, and its callers do not look at the answer.

Main definitions:

* `Buddy.Conserved` — the pages of each region are as many as right after its donation.

Main results:

* `Buddy.kbud_run_conserved` — **the run**;
* `Buddy.kbud_page_lost` — a run that loses a page.
-/

import SyncKernel.Buddy.Safety

set_option relaxedAutoImplicit false
set_option autoImplicit false

namespace SyncKernel

namespace Buddy

/-- The pages of each donated region, free or in use, are as many as its free lists had right after
the donation. -/
def Conserved (s : Sys) : Prop := ∀ c ∈ s.counts, pagesFree s.st c.1 + s.pagesLive c.1 = c.2

instance (s : Sys) : Decidable (Conserved s) := inferInstanceAs (Decidable (∀ c ∈ s.counts, _))

/-- The abstract allocator has the pages that were counted. -/
def Counted (s : Sys) (sh : Shape) : Prop :=
  ∀ c ∈ s.counts, ∃ g ∈ sh.regs, c = (ptr g.head, sh.pages g)

/-- The pages in use of a region. -/
theorem Ok.pagesLive_eq {s : Sys} {sh : Shape} (h : Ok s sh) {g : Region} (hg : g ∈ sh.regs) :
    s.pagesLive (ptr g.head) = livePages sh.live g := by
  unfold Sys.pagesLive livePages
  rw [h.live, List.filter_map, List.map_map]
  refine congrArg List.sum (congrArg (List.map _) (List.filter_congr fun b hb => ?_))
  obtain ⟨-, -, g', hg', hin⟩ := h.inv.live b hb
  have hlt := (hin.pg_lt (h.inv.valid g' hg')).2
  exact decide_eq_decide.2 (inRegion_iff h.inv hg (by omega))

/-- Pages that were counted are conserved. -/
theorem Counted.conserved {s : Sys} {sh : Shape} (h : Ok s sh) (hc : Counted s sh) : Conserved s := by
  intro c hmem
  obtain ⟨g, hg, rfl⟩ := hc c hmem
  dsimp only
  rw [h.inv.pagesFree_eq hg, h.pagesLive_eq hg, Shape.pages]

/-- An operation that keeps the pages of every region keeps the counts right. -/
theorem Counted.of_pages {s s' : Sys} {sh sh' : Shape} (hc : Counted s sh)
    (hcounts : s'.counts = s.counts)
    (hpages : ∀ g ∈ sh.regs, g ∈ sh'.regs ∧ sh'.pages g = sh.pages g) : Counted s' sh' := by
  intro c hmem
  rw [hcounts] at hmem
  obtain ⟨g, hg, rfl⟩ := hc c hmem
  exact ⟨g, (hpages g hg).1, by rw [(hpages g hg).2]⟩

/-- **A step** that loses no block keeps the counts right. -/
theorem Counted.step {s : Sys} {sh : Shape} (h : Ok s sh) (hc : Counted s sh) {o : Op}
    (hp : Promised s o) (hf : Fits s o) (hk : Kept s o) :
    ∃ s' sh', Buddy.step s o = some s' ∧ Ok s' sh' ∧ Counted s' sh' := by
  cases o with
  | donate vaddr len =>
      obtain ⟨s', sh', g, hrun, hok, hg, hcounts, hpages⟩ := h.donate hp hf
      refine ⟨s', sh', hrun, hok, fun c hmem => ?_⟩
      rw [hcounts] at hmem
      rcases List.mem_cons.1 hmem with rfl | hmem
      · exact ⟨g, hg, rfl⟩
      · obtain ⟨g', hg', rfl⟩ := hc c hmem
        exact ⟨g', (hpages g' hg').1, by rw [(hpages g' hg').2]⟩
  | alloc order =>
      obtain ⟨s', sh', hrun, hok, hcounts, hregs, -, hpages⟩ := h.alloc order
      exact ⟨s', sh', hrun, hok, hc.of_pages hcounts fun g hg => ⟨hregs ▸ hg, hpages hk g hg⟩⟩
  | free vaddr order =>
      obtain ⟨s', sh', hrun, hok, hcounts, hregs, hpages⟩ := h.free hp hf
      exact ⟨s', sh', hrun, hok, hc.of_pages hcounts fun g hg => ⟨hregs ▸ hg, hpages hk g hg⟩⟩

/-- **No page is lost** in every run whose merges join physical buddies and whose blocks all have
bits. -/
theorem kbud_run_conserved {os : List Op}
    (hos : Run.Along Buddy.step (fun s o => Promised s o ∧ Fits s o ∧ Kept s o) Sys.init os) :
    Run.Every Buddy.step (fun _ _ s' => Conserved s') Sys.init os := by
  refine Run.every_of_along (I := fun s => ∃ sh, Ok s sh ∧ Counted s sh) ?_
    ⟨_, Ok.init, fun _ hmem => absurd hmem List.not_mem_nil⟩ hos
  rintro s o ⟨sh, h, hc⟩ ⟨hp, hf, hk⟩
  obtain ⟨s', sh', hrun, hok, hc'⟩ := hc.step h hp hf hk
  exact ⟨s', hrun, hc'.conserved hok, sh', hok, hc'⟩

/-- A block is split for a page, which is freed and merged again. -/
theorem kbud_run_conserved_trace : Run.Every Buddy.step (fun _ _ s' => Conserved s') Sys.init
    [Op.donate (physToVirtPm 0x101000) 0x10000, Op.alloc 0, Op.alloc 0,
      Op.free (physToVirtPm 0x102000) 0] :=
  kbud_run_conserved (by decide +kernel)

/-- **A page is lost.**  The pages `0x101000` and `0x102000` merge into a block at `0x101000`.  When it is
split, its physical buddy is the page `0x100000` of the header, for which the region has no bit, and
the page `0x102000` is on no list any more. -/
theorem kbud_page_lost :
    Run.Along Buddy.step Promised Sys.init
        [Op.donate (physToVirtPm 0x100000) 0x10000, Op.alloc 0, Op.alloc 0, Op.alloc 0,
          Op.free (physToVirtPm 0x102000) 0, Op.free (physToVirtPm 0x101000) 0, Op.alloc 0] ∧
      ¬ Run.Every Buddy.step (fun _ _ s' => Conserved s') Sys.init
        [Op.donate (physToVirtPm 0x100000) 0x10000, Op.alloc 0, Op.alloc 0, Op.alloc 0,
          Op.free (physToVirtPm 0x102000) 0, Op.free (physToVirtPm 0x101000) 0, Op.alloc 0] := by
  refine ⟨by decide +kernel, Run.not_every_of_last (fun _ s' => ! decide (Conserved s'))
    [_, _, _, _, _, _] (fun _ _ hcons => ?_) (by decide +kernel)⟩
  rw [decide_eq_true hcons, Bool.not_true]

end Buddy

end SyncKernel
