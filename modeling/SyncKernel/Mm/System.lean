/-
**The allocators and their callers.**

Callers of the page allocator hold blocks, callers of the caches hold objects, and both write into what
they hold.  This module states the invariant of that system and proves what a call of each allocator
does to the views of the other.

Main definitions:

* `Mm.Sys`, `Mm.Piece`, `Mm.Op`, `Mm.step` — the system, what its callers hold, and the operations;
* `Mm.Promised` — what the callers promise;
* `Mm.Ok` — **the invariant**.

Main results:

* `Mm.kbudAlloc_spec`, `Mm.kbudFree_spec`, `Mm.kbudFreeRange_spec` — the page allocator leaves the words
  of the blocks in use as they are;
* `Mm.setCache_rule` — a cache leaves the page allocator and the other caches as they are.
-/

import SyncKernel.Mm.Machine
import SyncKernel.Slab.Counter

set_option relaxedAutoImplicit false
set_option autoImplicit false

namespace SyncKernel

namespace Mm

open Buddy (Covers Neat ptr)

variable {ι : Type}

/-! ### The system -/

/-- The machine, the donated ranges, the objects in use of each cache, and what the call of
`kslab_cache_create` for a cache returned, if there was one. -/
structure Sys (ι : Type) where
  m : Machine ι
  ranges : List (ℕ × ℕ)
  objs : ι → List ℕ
  created : ι → Option ℤ

/-- A piece of memory that a caller can hold: a block of the page allocator, given by its address and
its order, or an object of a cache. -/
inductive Piece (ι : Type)
  | block (b : ℕ × ℕ)
  | object (i : ι) (o : ℕ)
  deriving DecidableEq

/-- The piece is in use. -/
def Sys.InUse (s : Sys ι) : Piece ι → Prop
  | Piece.block b => (b, none) ∈ s.m.live
  | Piece.object i o => o ∈ s.objs i

/-- The address lies in the piece. -/
def Sys.Covers (s : Sys ι) : Piece ι → ℕ → Prop
  | Piece.block b, x => Buddy.Covers b x
  | Piece.object i o, x => o ≤ x ∧ x < o + (s.m.caches i).cache.objSize

instance [DecidableEq ι] (s : Sys ι) : ∀ u, Decidable (s.InUse u)
  | Piece.block _ => inferInstanceAs (Decidable (_ ∈ _))
  | Piece.object _ _ => inferInstanceAs (Decidable (_ ∈ _))

instance (s : Sys ι) : ∀ u x, Decidable (s.Covers u x)
  | Piece.block _, _ => inferInstanceAs (Decidable (_ ∧ _))
  | Piece.object _ _, _ => inferInstanceAs (Decidable (_ ∧ _))

/-- An operation, with the values that the words outside of the model of the page allocator have after
its calls. -/
inductive Op (ι : Type)
  | donate (vaddr len : ℕ) (junk : ℕ → ℕ)
  | allocPages (order : ℕ) (junk : ℕ → ℕ)
  | freePages (vaddr order : ℕ) (junk : ℕ → ℕ)
  | create (i : ι) (objsize alignment flags : ℕ) (junk : ℕ → ℕ)
  | alloc (i : ι) (junk : ℕ → ℕ)
  | free (i : ι) (obj : ℕ) (junk : ℕ → ℕ)
  | write (u : Piece ι) (a v : ℕ)

/-- The system over zeroed memory before any operation. -/
def Sys.init : Sys ι where
  m := ⟨Buddy.State.init, fun _ => Slab.State.zeroed fun _ => 0, fun _ => 0, []⟩
  ranges := []
  objs := fun _ => []
  created := fun _ => none

/-- The system after a call of `kslab_alloc` that returned `o`. -/
def Sys.allocated [DecidableEq ι] (s : Sys ι) (i : ι) (o : ℕ) (m : Machine ι) : Sys ι :=
  { s with
    m := m
    objs := if o = kpageErr then s.objs else Function.update s.objs i (o :: s.objs i) }

/-- One operation. -/
def step [DecidableEq ι] (s : Sys ι) : Op ι → Option (Sys ι)
  | Op.donate vaddr len junk => (s.m.kbudFreeRange vaddr len junk).map fun m =>
      { s with m := m, ranges := (Buddy.rangeBase vaddr, len) :: s.ranges }
  | Op.allocPages order junk => (s.m.kbudAlloc order none junk).map fun r => { s with m := r.2 }
  | Op.freePages vaddr order junk => (s.m.kbudFree vaddr order junk).map fun m => { s with m := m }
  | Op.create i objsize alignment flags junk =>
      (s.m.kslabCacheCreate i objsize alignment flags junk).map fun r =>
        { s with m := r.2, created := Function.update s.created i (some r.1) }
  | Op.alloc i junk => (s.m.kslabAlloc i junk).map fun r => s.allocated i r.1 r.2
  | Op.free i obj junk => (s.m.kslabFree i obj junk).map fun m =>
      { s with m := m, objs := Function.update s.objs i ((s.objs i).erase obj) }
  | Op.write _ a v => some { s with m := { s.m with words := Function.update s.m.words a v } }

/-- The system as the page allocator sees it. -/
def Machine.paging (m : Machine ι) (ranges : List (ℕ × ℕ)) : Buddy.Sys :=
  ⟨m.pageView, m.live.map Prod.fst, ranges, []⟩

/-- What the callers promise: a donated range lies in the direct map, takes no page of the ranges donated
before, and becomes a regular region; only blocks and objects in use are freed, and written into; a
cache is created once, for objects that hold a pointer, and used after that. -/
def Promised (s : Sys ι) : Op ι → Prop
  | Op.donate vaddr len _ =>
      Buddy.Promised (s.m.paging s.ranges) (Buddy.Op.donate vaddr len) ∧
        Buddy.Regular (s.m.paging s.ranges) (Buddy.Op.donate vaddr len)
  | Op.allocPages _ _ => True
  | Op.freePages vaddr order _ => s.InUse (Piece.block (vaddr, order))
  | Op.create i objsize alignment _ _ =>
      s.created i = none ∧ 8 ≤ objsize ∧ 0 < alignment ∧ alignment < 2 ^ 64
  | Op.alloc i _ => s.created i = some 0
  | Op.free i obj _ => s.InUse (Piece.object i obj)
  | Op.write u a _ => s.InUse u ∧ s.Covers u a

instance [DecidableEq ι] (s : Sys ι) : ∀ o, Decidable (Promised s o)
  | Op.donate .. => inferInstanceAs (Decidable (_ ∧ _))
  | Op.allocPages .. => isTrue trivial
  | Op.freePages vaddr order _ => inferInstanceAs (Decidable (s.InUse (Piece.block (vaddr, order))))
  | Op.create .. => inferInstanceAs (Decidable (_ ∧ _ ∧ _ ∧ _))
  | Op.alloc .. => inferInstanceAs (Decidable (_ = _))
  | Op.free i obj _ => inferInstanceAs (Decidable (s.InUse (Piece.object i obj)))
  | Op.write .. => inferInstanceAs (Decidable (_ ∧ _))

/-- The invariant of the cache `i`: the slab allocator's holds of its view, and the blocks it owns are
those that `kbud_alloc` handed to it.  A cache that was not created has none. -/
structure CacheOk (m : Machine ι) (i : ι) (objs : List ℕ) (created : Option ℤ) : Prop where
  cache : created = some 0 → ∃ sh, Slab.Tight ⟨m.cacheView i, objs, some 0⟩ sh
  idle : created ≠ some 0 → (m.caches i).owned = [] ∧ objs = []
  zeroed : created = none → Slab.NoSlabs (m.cacheView i)
  owned : ∀ b, (b, some i) ∈ m.live ↔ b.1 ∈ (m.caches i).owned ∧ b.2 = (m.caches i).cache.order

/-- **The invariant**: that of the page allocator holds of its view, and so does that of each cache. -/
structure Ok (s : Sys ι) : Prop where
  pages : ∃ sh, Neat (s.m.paging s.ranges) sh
  caches : ∀ i, CacheOk s.m i (s.objs i) (s.created i)

/-! ### Words outside of the model of the page allocator -/

theorem covers_iff {b : ℕ × ℕ} {x : ℕ} : Covers b x ↔ b.1 ≤ x ∧ x < b.1 + 2 ^ (12 + b.2) := by
  rw [Covers, show pageSize = 2 ^ 12 from rfl, ← Nat.pow_add]

section Scratch

variable {s : Buddy.Sys} {sh : Buddy.Shape}

/-- The header of a region has no address of a block. -/
theorem not_header (h : Neat s sh) {b : Buddy.Blk} {g : Buddy.Region} (hg : g ∈ sh.regs) (hin : g.In b)
    {x : ℕ} (hx : Covers (ptr b.pg, b.ord) x) :
    ¬ ∃ i < s.st.regionCount, s.st.regions i ≤ x ∧
      x < physToVirtPm (s.st.slaves (s.st.regions i)).mbase := by
  rintro ⟨i, hi, h₁, h₂⟩
  obtain ⟨g', hg', hr⟩ := h.ok.inv.region hi
  have hv := h.ok.inv.valid g hg
  have hv' := h.ok.inv.valid g' hg'
  have hle := hv.le
  have hsum := hv.sum
  have hlt' := hv'.lt
  have hsum' := hv'.sum
  have hle' := hv'.le
  have hpages := hin.pg_lt hv
  rw [hr] at h₁ h₂
  rw [(h.ok.inv.header g' hg').mbase] at h₂
  rw [Buddy.physToVirtPm_page (by omega)] at h₂
  obtain ⟨h₃, h₄⟩ := hx
  obtain ⟨h₅, h₆⟩ := hin
  have hone : b.pg < g'.start := by
    by_contra hge
    exact absurd (Buddy.ptr_le_ptr.2 (not_lt.1 hge)) (by dsimp only at h₃; omega)
  by_cases hgg : g = g'
  · subst hgg
    omega
  · unfold ptr pageSize at *
    dsimp only at h₃ h₄
    rcases h.ok.inv.region_apart hg hg' hgg with hap | hap <;> omega

/-- The address of a free block is no such word. -/
theorem not_scratch_free (h : Neat s sh) {b : Buddy.Blk} (hb : sh.IsFree b) :
    ¬ Scratch s.st (ptr b.pg) := by
  obtain ⟨-, g, hg, hin⟩ := h.ok.inv.free_in hb
  rintro (hhead | ⟨hmod, -⟩)
  · exact not_header h hg hin (Buddy.covers_self b.pg b.ord) hhead
  · unfold ptr kernelPhmap pageSize at hmod
    omega

/-- No address of a block in use is such a word. -/
theorem not_scratch_live (h : Neat s sh) {b : ℕ × ℕ} (hb : b ∈ s.live) {x : ℕ} (hx : Covers b x) :
    ¬ Scratch s.st x := by
  obtain ⟨c, hc, rfl⟩ := h.exists_live hb
  obtain ⟨-, -, g, hg, hin⟩ := h.ok.inv.live c hc
  rintro (hhead | ⟨hmod, i, hi, k, hk, hmem⟩)
  · exact not_header h hg hin hx hhead
  · obtain ⟨g', hg', hr⟩ := h.ok.inv.region hi
    unfold pframeMaxOrder at hk
    rw [hr, h.ok.inv.freeList_eq hg' (by omega)] at hmem
    obtain ⟨pg, hpg, hx'⟩ := List.mem_map.1 hmem
    refine h.free_not_covers (f := ⟨k, pg⟩) hb ⟨g', hg', show k ≤ 10 by omega, hpg⟩ hx ?_
    have hpos := Nat.two_pow_pos k
    unfold pageSize at hmod
    unfold Covers pageSize
    dsimp only
    omega

end Scratch

/-! ### Calls of the page allocator -/

section Paging

variable {m : Machine ι} {ranges : List (ℕ × ℕ)} {sh : Buddy.Shape}

/-- The view after a call is the state that the call ended in. -/
theorem setPages_view {st : Buddy.State} {live counts : List (ℕ × ℕ)} (m : Machine ι)
    (h : Neat ⟨st, live, ranges, counts⟩ sh) (junk : ℕ → ℕ) :
    Neat ⟨(m.setPages st junk).pageView, live, ranges, []⟩ sh :=
  (h.setCounts []).words (fun _ _ => rfl) fun _ hb => if_neg (not_scratch_free h hb)

theorem setPages_words {st : Buddy.State} {live counts : List (ℕ × ℕ)}
    (h : Neat ⟨st, live, ranges, counts⟩ sh) (junk : ℕ → ℕ) {b : ℕ × ℕ} (hb : b ∈ live) {x : ℕ}
    (hx : Covers b x) (hkeep : st.mem (Buddy.Loc.next x) = m.words x) :
    (m.setPages st junk).words x = m.words x :=
  (if_neg (not_scratch_live h hb hx)).trans hkeep

/-- A call that ends in `st`. -/
theorem kbudAlloc_eq {order a : ℕ} {st : Buddy.State} (hrun : Buddy.kbudAlloc m.pageView order = some (a, st))
    (who : Option ι) (junk : ℕ → ℕ) :
    m.kbudAlloc order who junk = some (a, { m.setPages st junk with
      live := if a = kpageErr then m.live else ((a, order), who) :: m.live }) := by
  rw [Machine.kbudAlloc, hrun, Option.map_some]

/-- **`kbud_alloc`** leaves the words of the blocks in use as they are. -/
theorem kbudAlloc_spec (h : Neat (m.paging ranges) sh) (order : ℕ) (who : Option ι) (junk : ℕ → ℕ) :
    ∃ a m' sh', m.kbudAlloc order who junk = some (a, m') ∧ m'.caches = m.caches ∧
      Neat (m'.paging ranges) sh' ∧
      m'.live = (if a = kpageErr then m.live else ((a, order), who) :: m.live) ∧
      ∀ b ∈ m.live, ∀ x, Covers b.1 x → m'.words x = m.words x := by
  have hmem : ∀ b ∈ m.live, b.1 ∈ m.live.map Prod.fst := fun b hb => List.mem_map_of_mem hb
  rcases h.alloc order with hrun | ⟨a, st', sh', hrun, hne, hn, hkeep⟩
  · change Buddy.kbudAlloc m.pageView order = _ at hrun
    refine ⟨kpageErr, _, sh, kbudAlloc_eq hrun who junk, rfl, ?_, rfl, ?_⟩
    · exact setPages_view m h junk
    · exact fun b hb x hx => setPages_words h junk (hmem b hb) hx rfl
  · change Buddy.kbudAlloc m.pageView order = _ at hrun
    refine ⟨a, _, sh', kbudAlloc_eq hrun who junk, rfl, ?_, rfl, ?_⟩
    · have hv := setPages_view m hn junk
      unfold Machine.paging
      dsimp only
      rw [if_neg hne]
      exact hv
    · exact fun b hb x hx => setPages_words hn junk (List.mem_cons_of_mem _ (hmem b hb)) hx
        (hkeep b.1 (hmem b hb) x hx)

/-- **`kbud_free`** leaves the words of the other blocks in use as they are. -/
theorem kbudFree_spec (h : Neat (m.paging ranges) sh) {vaddr order : ℕ} {who : Option ι}
    (hb : ((vaddr, order), who) ∈ m.live) (junk : ℕ → ℕ) :
    ∃ m' sh', m.kbudFree vaddr order junk = some m' ∧ m'.caches = m.caches ∧
      Neat (m'.paging ranges) sh' ∧ m'.live = m.live.filter (fun b => b.1 ≠ (vaddr, order)) ∧
      ∀ b ∈ m'.live, ∀ x, Covers b.1 x → m'.words x = m.words x := by
  obtain ⟨st', sh', hrun, hn, hkeep⟩ :=
    h.free (show (vaddr, order) ∈ m.live.map Prod.fst from List.mem_map_of_mem hb)
  have hlive : (m.live.map Prod.fst).erase (vaddr, order) =
      (m.live.filter fun b => b.1 ≠ (vaddr, order)).map Prod.fst := by
    have hnd : (m.live.map Prod.fst).Nodup := h.live_nodup
    rw [hnd.erase_eq_filter, List.filter_map]
    refine congrArg _ (List.filter_congr fun b _ => ?_)
    by_cases hb : b.1 = (vaddr, order) <;> simp [hb]
  change Buddy.kbudFree m.pageView vaddr order = _ at hrun
  refine ⟨{ m.setPages st' junk with live := m.live.filter fun b => b.1 ≠ (vaddr, order) }, sh',
    by rw [Machine.kbudFree, hrun, Option.map_some], rfl, ?_, rfl, fun b hb' x hx => ?_⟩
  · have hv := setPages_view m hn junk
    change Neat ⟨_, (m.live.map Prod.fst).erase (vaddr, order), _, _⟩ sh' at hv
    rw [hlive] at hv
    exact hv
  · have hb₁ : b.1 ∈ (m.live.map Prod.fst).erase (vaddr, order) := by
      rw [hlive]
      exact List.mem_map_of_mem hb'
    exact setPages_words hn junk hb₁ hx (hkeep b.1 hb₁ x hx)

/-- **`kbud_free_range`** leaves the words of the blocks in use as they are. -/
theorem kbudFreeRange_spec (h : Neat (m.paging ranges) sh) {vaddr len : ℕ}
    (hp : Buddy.Promised (m.paging ranges) (Buddy.Op.donate vaddr len))
    (hr : Buddy.Regular (m.paging ranges) (Buddy.Op.donate vaddr len)) (junk : ℕ → ℕ) :
    ∃ m' sh', m.kbudFreeRange vaddr len junk = some m' ∧ m'.caches = m.caches ∧
      Neat (m'.paging ((Buddy.rangeBase vaddr, len) :: ranges)) sh' ∧ m'.live = m.live ∧
      ∀ b ∈ m.live, ∀ x, Covers b.1 x → m'.words x = m.words x := by
  obtain ⟨st', sh', hrun, hn, hkeep⟩ := h.donate hp hr
  change Buddy.kbudFreeRange m.pageView vaddr len = _ at hrun
  refine ⟨m.setPages st' junk, sh', by rw [Machine.kbudFreeRange, hrun, Option.map_some], rfl,
    setPages_view m hn junk, rfl, fun b hb x hx => ?_⟩
  exact setPages_words hn junk (List.mem_map_of_mem hb) hx (hkeep b.1 (List.mem_map_of_mem hb) x hx)

/-- An address lies in one block in use at most. -/
theorem tag_unique (h : Neat (m.paging ranges) sh) {b b' : (ℕ × ℕ) × Option ι} (hb : b ∈ m.live)
    (hb' : b' ∈ m.live) {x : ℕ} (hx : Covers b.1 x) (hx' : Covers b'.1 x) : b = b' :=
  List.inj_on_of_nodup_map h.live_nodup hb hb'
    (h.live_unique (List.mem_map_of_mem hb) (List.mem_map_of_mem hb') hx hx')

/-- A block in use has one owner. -/
theorem tag_eq (h : Neat (m.paging ranges) sh) {b : ℕ × ℕ} {o o' : Option ι} (hb : (b, o) ∈ m.live)
    (hb' : (b, o') ∈ m.live) : o = o' := by
  have hself : Covers b b.1 := covers_iff.2 ⟨le_rfl, Nat.lt_add_of_pos_right (Nat.two_pow_pos _)⟩
  exact congrArg Prod.snd (tag_unique h hb hb' hself hself)

/-- A block in use has no address of a new one. -/
theorem not_covers_new {m : Machine ι} {ranges : List (ℕ × ℕ)} {sh : Buddy.Shape}
    (hn : Neat (m.paging ranges) sh) {c b : (ℕ × ℕ) × Option ι} {l : List ((ℕ × ℕ) × Option ι)}
    (hlive : m.live = c :: l) (hb : b ∈ l) {x : ℕ} (hx : Covers b.1 x) : ¬ Covers c.1 x := by
  intro hin
  have hnd : (m.live.map Prod.fst).Nodup := hn.live_nodup
  have heq := tag_unique hn (hlive ▸ List.mem_cons_self) (hlive ▸ List.mem_cons_of_mem _ hb) hin hx
  rw [hlive, List.map_cons, List.nodup_cons, heq] at hnd
  exact hnd.1 (List.mem_map_of_mem hb)

/-- The page allocator does not depend on the words of the blocks in use. -/
theorem paging_words (h : Neat (m.paging ranges) sh) {m' : Machine ι} (hpages : m'.pages = m.pages)
    (hlive : m'.live = m.live)
    (hwords : ∀ x, (∀ b ∈ m.live, ¬ Covers b.1 x) → m'.words x = m.words x) :
    Neat (m'.paging ranges) sh := by
  have hst : m'.paging ranges = { m.paging ranges with
      st := { m.pageView with mem := m'.pageView.mem } } := by
    unfold Machine.paging Machine.pageView
    rw [hlive, hpages]
  rw [hst]
  refine h.words (fun r k => ?_) fun f hf => hwords _ fun b hb hx =>
    h.free_not_covers (List.mem_map_of_mem hb) hf hx (Buddy.covers_self f.pg f.ord)
  change m'.pages.mem _ = m.pages.mem _
  rw [hpages]

end Paging

/-! ### Calls of a cache -/

/-- **The rule of the view**: what holds of a cache on the words of one machine holds on those of another
one, if they agree on the blocks of the cache. -/
theorem slabOk_words {m m' : Machine ι} {i : ι} {objs : List ℕ} {sh : Slab.Shape}
    (h : Slab.Tight ⟨m.cacheView i, objs, some 0⟩ sh) (hc : m'.caches i = m.caches i)
    (hwords : ∀ t ∈ (m.caches i).owned, ∀ x, Covers (t, (m.caches i).cache.order) x →
      m'.words x = m.words x) : Slab.Tight ⟨m'.cacheView i, objs, some 0⟩ sh := by
  have hview : m'.cacheView i = { m.cacheView i with mem := (m'.cacheView i).mem } := by
    unfold Machine.cacheView
    rw [hc]
  rw [hview]
  refine h.words (fun l hl => ?_) fun t ht x h₁ h₂ => hwords t ht x (covers_iff.2 ⟨h₁, h₂⟩)
  unfold Machine.cacheView
  rw [hc]
  rcases hl with rfl | rfl | rfl <;> rfl

/-- A cache without slabs has none on any words. -/
theorem noSlabs_words {m m' : Machine ι} {i : ι} (h : Slab.NoSlabs (m.cacheView i))
    (hc : m'.caches i = m.caches i) : Slab.NoSlabs (m'.cacheView i) := by
  have hhead : ∀ l, Slab.IsHead l → (m'.cacheView i).mem l = (m.cacheView i).mem l := by
    intro l hl
    unfold Machine.cacheView
    rw [hc]
    rcases hl with rfl | rfl | rfl <;> rfl
  obtain ⟨h₁, h₂, h₃⟩ := h
  exact ⟨(hhead _ (Or.inl rfl)).trans h₁, (hhead _ (Or.inr (Or.inl rfl))).trans h₂,
    (hhead _ (Or.inr (Or.inr rfl))).trans h₃⟩

/-- A cache depends on the words of its own blocks only. -/
theorem CacheOk.words {m m' : Machine ι} {i : ι} {objs : List ℕ} {created : Option ℤ}
    (h : CacheOk m i objs created) (hc : m'.caches i = m.caches i)
    (hlive : ∀ b, (b, some i) ∈ m'.live ↔ (b, some i) ∈ m.live)
    (hwords : ∀ b, (b, some i) ∈ m.live → ∀ x, Covers b x → m'.words x = m.words x) :
    CacheOk m' i objs created := by
  refine ⟨fun h0 => ?_, fun h0 => ?_, fun h0 => noSlabs_words (h.zeroed h0) hc, fun b => ?_⟩
  · obtain ⟨sh, hok⟩ := h.cache h0
    exact ⟨sh, slabOk_words hok hc fun t ht => hwords _ ((h.owned _).2 ⟨ht, rfl⟩)⟩
  · rw [hc]
    exact h.idle h0
  · rw [hlive, hc]
    exact h.owned b

/-- Blocks with another owner are none of the cache's own. -/
theorem offHeaders_of_tag {m : Machine ι} {ranges : List (ℕ × ℕ)} {objs : List ℕ} {created : Option ℤ}
    {i : ι} {sh : Buddy.Shape} (hp : Neat (m.paging ranges) sh) (h : CacheOk m i objs created)
    (hc : created = some 0) {b : (ℕ × ℕ) × Option ι} (hb : b ∈ m.live) (hne : b.2 ≠ some i) {x : ℕ}
    (hx : Covers b.1 x) : Slab.OffHeaders (m.caches i).owned x := by
  obtain ⟨sh, hok⟩ := h.cache hc
  intro t ht
  have hfit := hok.inv.geom.fits
  have hres := hok.inv.geom.reserved_ge
  change _ ≤ 2 ^ (12 + (m.caches i).cache.order) at hfit
  by_contra hin
  unfold Slab.slabHdrSz at hin
  have hcov : Covers (t, (m.caches i).cache.order) x := covers_iff.2 ⟨by omega, by dsimp only; omega⟩
  have hown : ((t, (m.caches i).cache.order), some i) ∈ m.live := (h.owned _).2 ⟨ht, rfl⟩
  exact hne (congrArg Prod.snd (tag_unique hp hb hown hx hcov))

/-- Addresses outside of the blocks of a cache lie off its headers, and are none of its objects. -/
theorem offHeaders_of_outside {m : Machine ι} {i : ι} {objs : List ℕ} {sh : Slab.Shape}
    (hok : Slab.Tight ⟨m.cacheView i, objs, some 0⟩ sh)
    (howned : ∀ b, (b, some i) ∈ m.live ↔ b.1 ∈ (m.caches i).owned ∧ b.2 = (m.caches i).cache.order)
    {x : ℕ} (hx : ∀ b, (b, some i) ∈ m.live → ¬ Covers b x) :
    Slab.OffHeaders (m.caches i).owned x ∧ x ∉ objs := by
  have hfit := hok.inv.geom.fits
  have hres := hok.inv.geom.reserved_ge
  have hobj := hok.inv.geom.objSize_ge
  change _ ≤ 2 ^ (12 + (m.caches i).cache.order) at hfit
  constructor
  · intro t ht
    by_contra hin
    unfold Slab.slabHdrSz at hin
    exact hx (t, (m.caches i).cache.order) ((howned _).2 ⟨ht, rfl⟩)
      (covers_iff.2 ⟨by omega, by dsimp only; omega⟩)
  · intro hmem
    obtain ⟨t, ht, hlo, hhi⟩ := hok.object_bounds hmem
    change 8 ≤ (m.caches i).cache.objSize at hobj
    change x + (m.caches i).cache.objSize ≤ t + 2 ^ (12 + (m.caches i).cache.order) at hhi
    exact hx (t, (m.caches i).cache.order) ((howned _).2 ⟨ht, rfl⟩)
      (covers_iff.2 ⟨by dsimp only; omega, by dsimp only; omega⟩)

/-- A block that `kbud_alloc` hands to a cache is fresh. -/
theorem fresh_of_neat {m : Machine ι} {ranges : List (ℕ × ℕ)} {i : ι} {sh : Buddy.Shape}
    (hp : Neat (m.paging ranges) sh) {a : ℕ} {st : Slab.State} {l : List ((ℕ × ℕ) × Option ι)}
    (hlive : m.live = ((a, st.cache.order), some i) :: l)
    (howned : ∀ t ∈ st.owned, ((t, st.cache.order), some i) ∈ l) : Slab.Fresh st (some a) := by
  intro b hb
  obtain rfl := Option.some_inj.1 hb
  have hself : (a, st.cache.order) ∈ m.live.map Prod.fst := by
    rw [hlive]
    exact List.mem_cons_self
  obtain ⟨hpos, hdvd, hle⟩ := hp.live_facts hself
  refine ⟨hpos, hdvd, hle, fun t ht => ?_⟩
  by_contra hno
  refine not_covers_new hp hlive (howned t ht) (x := max a t) (covers_iff.2 ⟨le_max_right _ _, ?_⟩)
    (covers_iff.2 ⟨le_max_left _ _, ?_⟩) <;>
  · dsimp only
    omega

/-- A write as a cache sees it. -/
theorem cacheView_write (m : Machine ι) (i : ι) (a v : ℕ) :
    Machine.cacheView { m with words := Function.update m.words a v } i =
      (m.cacheView i).store (Slab.Loc.addr a) v := by
  have hmem : (Machine.cacheView { m with words := Function.update m.words a v } i).mem =
      Function.update (m.cacheView i).mem (Slab.Loc.addr a) v := by
    funext l
    cases l with
    | addr x =>
        by_cases hx : x = a
        · subst hx
          rw [Function.update_self]
          exact Function.update_self ..
        · have hne : Slab.Loc.addr x ≠ Slab.Loc.addr a := fun heq => hx (Slab.Loc.addr.inj heq)
          rw [Function.update_of_ne hne]
          exact Function.update_of_ne hx _ _
    | _ => rfl
  rw [Slab.State.store, ← hmem]
  rfl

variable [DecidableEq ι]

@[simp] theorem setCache_caches_self (m : Machine ι) (i : ι) (st : Slab.State) :
    (m.setCache i st).caches i = st := Function.update_self ..

theorem setCache_caches_of_ne (m : Machine ι) {i j : ι} (h : j ≠ i) (st : Slab.State) :
    (m.setCache i st).caches j = m.caches j := Function.update_of_ne h _ _

@[simp] theorem setCache_words (m : Machine ι) (i : ι) (st : Slab.State) (x : ℕ) :
    (m.setCache i st).words x = st.mem (Slab.Loc.addr x) := rfl

/-- The view of a cache after a call is the state that the call ended in. -/
@[simp] theorem cacheView_setCache (m : Machine ι) (i : ι) (st : Slab.State) :
    (m.setCache i st).cacheView i = st := by
  have hmem : ((m.setCache i st).cacheView i).mem = st.mem := by
    unfold Machine.cacheView
    rw [setCache_caches_self]
    funext l
    cases l <;> rfl
  have hview : (m.setCache i st).cacheView i =
      { (m.setCache i st).caches i with mem := ((m.setCache i st).cacheView i).mem } := rfl
  rw [hview, hmem, setCache_caches_self]

/-- **The rule for a call of the cache `i`** that writes into its own blocks only: the page allocator and
the other caches do not notice. -/
theorem setCache_rule {m : Machine ι} {ranges : List (ℕ × ℕ)} {objs : ι → List ℕ} {created : ι → Option ℤ}
    {i : ι} (st : Slab.State) {sh : Buddy.Shape} (hp : Neat (m.paging ranges) sh)
    (hothers : ∀ j ≠ i, CacheOk m j (objs j) (created j))
    (hframe : ∀ x, (∀ b, (b, some i) ∈ m.live → ¬ Covers b x) → st.mem (Slab.Loc.addr x) = m.words x) :
    Neat ((m.setCache i st).paging ranges) sh ∧
      ∀ j ≠ i, CacheOk (m.setCache i st) j (objs j) (created j) := by
  constructor
  · exact paging_words hp rfl rfl fun x hx => hframe x fun b hb => hx _ hb
  · intro j hj
    refine (hothers j hj).words (setCache_caches_of_ne m hj st) (fun b => Iff.rfl) fun b hb x hx =>
      hframe x fun b' hb' hx' => ?_
    have htag := congrArg Prod.snd (tag_unique hp hb hb' hx hx')
    exact hj (Option.some_inj.1 htag)

end Mm

end SyncKernel
