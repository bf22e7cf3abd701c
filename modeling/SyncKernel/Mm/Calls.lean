/-
**What a call of either allocator does to the system.**

One lemma for each operation: it does not fault, the invariant holds behind it, and the pieces of memory
in use, with their words, are as they were, but for the one that is given back or written into.

Main definitions:

* `Mm.Op.Frees`, `Mm.Intact` — what a step leaves as it is.

Main results:

* `Mm.Ok.disjoint` — two pieces in use have no address in common;
* `Mm.Ok.onPages`, `Mm.Ok.onCache`, `Mm.Ok.onRelease` — the rules for a call of the page allocator, for
  one of a cache, and for a slab that a cache gives back;
* `Mm.Ok.step` — **what an operation does**.
-/

import SyncKernel.Mm.System

set_option relaxedAutoImplicit false
set_option autoImplicit false

namespace SyncKernel

namespace Mm

open Buddy (Covers Neat)

variable {ι : Type}

/-! ### The pieces in use -/

/-- Whom the block of a piece was handed to. -/
def Piece.owner : Piece ι → Option ι
  | Piece.block _ => none
  | Piece.object i _ => some i

/-- The operation gives the piece back. -/
def Op.Frees : Op ι → Piece ι → Prop
  | Op.freePages vaddr order _, u => u = Piece.block (vaddr, order)
  | Op.free i obj _, u => u = Piece.object i obj
  | _, _ => False

/-- What a step does to the pieces in use: each of them stays in use unless it is given back, and its
words change by a write of its holder only.  A cache has objects of one size. -/
structure Intact (s : Sys ι) (o : Op ι) (s' : Sys ι) : Prop where
  stays : ∀ u, s.InUse u → s'.InUse u ∨ o.Frees u
  words : ∀ u, s.InUse u → s'.InUse u → ∀ x, s.Covers u x → s'.Covers u x ∧
    (s'.m.words x = s.m.words x ∨ ∃ v, o = Op.write u x v ∧ s'.m.words x = v)
  sizes : ∀ i, s.created i = some 0 → (s'.m.caches i).cache.objSize = (s.m.caches i).cache.objSize

namespace Ok

variable {s : Sys ι}

theorem created_of_mem (h : Ok s) {i : ι} {o : ℕ} (ho : o ∈ s.objs i) : s.created i = some 0 := by
  by_contra hc
  rw [((h.caches i).idle hc).2] at ho
  exact absurd ho List.not_mem_nil

/-- A piece in use lies in a block of its owner. -/
theorem block_of (h : Ok s) {u : Piece ι} (hu : s.InUse u) :
    ∃ b, (b, u.owner) ∈ s.m.live ∧ ∀ x, s.Covers u x → Covers b x := by
  cases u with
  | block b => exact ⟨b, hu, fun x hx => hx⟩
  | object i o =>
      obtain ⟨sh, hok⟩ := (h.caches i).cache (h.created_of_mem hu)
      obtain ⟨t, ht, hlo, hhi⟩ := hok.object_bounds hu
      refine ⟨(t, (s.m.caches i).cache.order), ((h.caches i).owned _).2 ⟨ht, rfl⟩, fun x hx => ?_⟩
      obtain ⟨h₁, h₂⟩ := hx
      change o + (s.m.caches i).cache.objSize ≤ t + 2 ^ (12 + (s.m.caches i).cache.order) at hhi
      exact covers_iff.2 ⟨(Nat.le_add_right _ _).trans (hlo.trans h₁), h₂.trans_le hhi⟩

/-- A piece in use lies off the headers of the slabs. -/
theorem offHeaders (h : Ok s) {i : ι} (hi : s.created i = some 0) {u : Piece ι} (hu : s.InUse u) {x : ℕ}
    (hx : s.Covers u x) : Slab.OffHeaders (s.m.caches i).owned x := by
  obtain ⟨sh, hp⟩ := h.pages
  by_cases htag : u.owner = some i
  · cases u with
    | block b => cases htag
    | object j o =>
        obtain rfl := Option.some_inj.1 htag
        obtain ⟨sh', hok⟩ := (h.caches j).cache hi
        exact hok.offHeaders hu hx.1 hx.2
  · obtain ⟨b, hb, hcov⟩ := h.block_of hu
    exact offHeaders_of_tag hp (h.caches i) hi hb htag (hcov x hx)

/-- **Two pieces in use have no address in common.** -/
theorem disjoint (h : Ok s) {u v : Piece ι} (hu : s.InUse u) (hv : s.InUse v) (hne : u ≠ v) {x : ℕ}
    (hx : s.Covers u x) : ¬ s.Covers v x := by
  intro hx'
  obtain ⟨sh, hp⟩ := h.pages
  obtain ⟨b, hb, hcov⟩ := h.block_of hu
  obtain ⟨b', hb', hcov'⟩ := h.block_of hv
  have hown := congrArg Prod.snd (tag_unique hp hb hb' (hcov x hx) (hcov' x hx'))
  cases u with
  | block c =>
      cases v with
      | block c' => exact hne (congrArg (fun b => Piece.block b.1) (tag_unique hp hu hv hx hx'))
      | object j o => cases hown
  | object i o =>
      cases v with
      | block c' => cases hown
      | object j o' =>
          obtain rfl := Option.some_inj.1 hown
          obtain ⟨sh', hok⟩ := (h.caches i).cache (h.created_of_mem hu)
          obtain ⟨h₁, h₂⟩ := hx
          obtain ⟨h₃, h₄⟩ := hx'
          have hap := hok.object_apart hu hv fun heq => hne (heq ▸ rfl)
          change o + (s.m.caches i).cache.objSize ≤ o' ∨ o' + (s.m.caches i).cache.objSize ≤ o at hap
          omega

/-- An object holds a word. -/
theorem covers_object (h : Ok s) {i : ι} {o : ℕ} (ho : o ∈ s.objs i) : s.Covers (Piece.object i o) o := by
  obtain ⟨sh, hok⟩ := (h.caches i).cache (h.created_of_mem ho)
  have hobj := hok.inv.geom.objSize_ge
  change 8 ≤ (s.m.caches i).cache.objSize at hobj
  exact ⟨le_rfl, by omega⟩

end Ok

/-! ### Calls of the page allocator -/

section Calls

variable {s : Sys ι}

/-- **The rule for a step** that leaves the sizes of the objects in use and the words of the pieces in
use as they are. -/
theorem Ok.intact (h : Ok s) {o : Op ι} {s' : Sys ι}
    (hblocks : ∀ b, (b, none) ∈ s.m.live → (b, none) ∈ s'.m.live ∨ o.Frees (Piece.block b))
    (hobjs : ∀ i a, a ∈ s.objs i → a ∈ s'.objs i ∨ o.Frees (Piece.object i a))
    (hsize : ∀ i, s.created i = some 0 → (s'.m.caches i).cache.objSize = (s.m.caches i).cache.objSize)
    (hwords : ∀ u, s.InUse u → s'.InUse u → ∀ x, s.Covers u x → s'.m.words x = s.m.words x) :
    Intact s o s' := by
  refine ⟨fun u hu => ?_, fun u hu hu' x hx => ⟨?_, Or.inl (hwords u hu hu' x hx)⟩, hsize⟩
  · cases u with
    | block b => exact hblocks b hu
    | object i a => exact hobjs i a hu
  · cases u with
    | block b => exact hx
    | object i a =>
        change a ≤ x ∧ x < a + (s'.m.caches i).cache.objSize
        rw [hsize i (h.created_of_mem hu)]
        exact hx

/-- **The rule for a call of the page allocator** that leaves the words of the blocks in use as they are,
and takes none from a cache. -/
theorem Ok.onPages (h : Ok s) {o : Op ι} {m : Machine ι} {ranges : List (ℕ × ℕ)} {sh : Buddy.Shape}
    (hc : m.caches = s.m.caches) (hn : Neat (m.paging ranges) sh)
    (htag : ∀ b i, (b, some i) ∈ m.live ↔ (b, some i) ∈ s.m.live)
    (hblocks : ∀ b, (b, none) ∈ s.m.live → (b, none) ∈ m.live ∨ o.Frees (Piece.block b))
    (hwords : ∀ b ∈ m.live, b ∈ s.m.live → ∀ x, Covers b.1 x → m.words x = s.m.words x) :
    Ok { s with m := m, ranges := ranges } ∧ Intact s o { s with m := m, ranges := ranges } := by
  refine ⟨⟨⟨sh, hn⟩, fun i => (h.caches i).words (congrFun hc i) (fun b => htag b i) fun b hb =>
    hwords _ ((htag b i).2 hb) hb⟩, h.intact hblocks (fun _ _ ha => Or.inl ha) (fun i _ => by rw [hc])
    fun u hu hu' x hx => ?_⟩
  cases u with
  | block b => exact hwords _ hu' hu x hx
  | object i a =>
      obtain ⟨b, hb, hcov⟩ := h.block_of hu
      exact hwords _ ((htag b i).2 hb) hb x (hcov x hx)

/-- The caches other than `i` after a call of `kbud_alloc` for `i`. -/
theorem others_of_alloc {m m' : Machine ι} {i : ι} {objs : ι → List ℕ} {created : ι → Option ℤ}
    (hothers : ∀ j ≠ i, CacheOk m j (objs j) (created j)) (hc : m'.caches = m.caches) {a order : ℕ}
    (hlive : m'.live = (if a = kpageErr then m.live else ((a, order), some i) :: m.live))
    (hwords : ∀ b ∈ m.live, ∀ x, Covers b.1 x → m'.words x = m.words x) :
    ∀ j ≠ i, CacheOk m' j (objs j) (created j) := by
  intro j hj
  refine (hothers j hj).words (congrFun hc j) (fun b => ?_) fun b hb => hwords _ hb
  rw [hlive]
  split_ifs
  · exact Iff.rfl
  · simp [hj]

/-- The words of the pieces in use do not change when `kbud_alloc` is called for a cache, and the cache
then writes its headers and the new block. -/
theorem Ok.words_of_alloc (h : Ok s) {i : ι} (hi : s.created i = some 0) {m : Machine ι} {a order : ℕ}
    {sh : Buddy.Shape} (hn : Neat (m.paging s.ranges) sh) (hlive : m.live = ((a, order), some i) :: s.m.live)
    (hwords : ∀ b ∈ s.m.live, ∀ x, Covers b.1 x → m.words x = s.m.words x) {mem : Slab.Loc → ℕ}
    (hframe : ∀ x, Slab.OffHeaders (s.m.caches i).owned x → (x < a ∨ a + 2 ^ (12 + order) ≤ x) →
      mem (Slab.Loc.addr x) = m.words x) :
    ∀ u, s.InUse u → ∀ x, s.Covers u x → mem (Slab.Loc.addr x) = s.m.words x := by
  intro u hu x hx
  obtain ⟨b, hb, hcov⟩ := h.block_of hu
  refine (hframe x (h.offHeaders hi hu hx) ?_).trans (hwords _ hb x (hcov x hx))
  by_contra hin
  exact not_covers_new hn hlive hb (hcov x hx) (covers_iff.2 ⟨by dsimp only; omega, by dsimp only; omega⟩)

variable [DecidableEq ι]

theorem Ok.donate (h : Ok s) {vaddr len : ℕ} {junk : ℕ → ℕ} (hp : Promised s (Op.donate vaddr len junk)) :
    ∃ s', step s (Op.donate vaddr len junk) = some s' ∧ Ok s' ∧ Intact s (Op.donate vaddr len junk) s' := by
  obtain ⟨sh, hn⟩ := h.pages
  obtain ⟨m, sh', hrun, hc, hn', hlive, hwords⟩ := kbudFreeRange_spec hn hp.1 hp.2 junk
  refine ⟨_, by rw [step, hrun, Option.map_some], h.onPages hc hn' (fun b i => by rw [hlive])
    (fun b hb => Or.inl (hlive ▸ hb)) fun b _ hb x hx => hwords b hb x hx⟩

theorem Ok.allocPages (h : Ok s) (order : ℕ) (junk : ℕ → ℕ) :
    ∃ s', step s (Op.allocPages order junk) = some s' ∧ Ok s' ∧ Intact s (Op.allocPages order junk) s' := by
  obtain ⟨sh, hn⟩ := h.pages
  obtain ⟨a, m, sh', hrun, hc, hn', hlive, hwords⟩ := kbudAlloc_spec hn order none junk
  refine ⟨_, by rw [step, hrun, Option.map_some], h.onPages hc hn' (fun b i => ?_)
    (fun b hb => Or.inl ?_) fun b _ hb x hx => hwords b hb x hx⟩
  · rw [hlive]
    split_ifs <;> simp
  · rw [hlive]
    split_ifs
    · exact hb
    · exact List.mem_cons_of_mem _ hb

theorem Ok.freePages (h : Ok s) {vaddr order : ℕ} {junk : ℕ → ℕ}
    (hp : Promised s (Op.freePages vaddr order junk)) :
    ∃ s', step s (Op.freePages vaddr order junk) = some s' ∧ Ok s' ∧
      Intact s (Op.freePages vaddr order junk) s' := by
  obtain ⟨sh, hn⟩ := h.pages
  have hb : ((vaddr, order), none) ∈ s.m.live := hp
  obtain ⟨m, sh', hrun, hc, hn', hlive, hwords⟩ := kbudFree_spec hn hb junk
  refine ⟨_, by rw [step, hrun, Option.map_some], h.onPages hc hn' (fun b i => ?_)
    (fun b hb' => ?_) fun b hb' _ x hx => hwords b hb' x hx⟩
  · rw [hlive, List.mem_filter]
    refine and_iff_left_of_imp fun hb' => decide_eq_true fun heq => ?_
    -- the block that is given back belongs to no cache
    exact absurd (tag_eq hn (show ((vaddr, order), some i) ∈ s.m.live from heq ▸ hb') hb) (by simp)
  · by_cases heq : b = (vaddr, order)
    · exact Or.inr (congrArg Piece.block heq)
    · refine Or.inl ?_
      rw [hlive]
      exact List.mem_filter.2 ⟨hb', decide_eq_true heq⟩

/-! ### Calls of a cache -/

/-- **The rule for a call of the cache `i`** that ends with the invariant of the cache. -/
theorem Ok.onCache {m : Machine ι} {ranges : List (ℕ × ℕ)} {objs : ι → List ℕ} {created : ι → Option ℤ}
    {i : ι} {st : Slab.State} {sh : Buddy.Shape} (hp : Neat (m.paging ranges) sh)
    (hothers : ∀ j ≠ i, CacheOk m j (objs j) (created j)) (hi : created i = some 0)
    (hok : ∃ sh', Slab.Tight ⟨st, objs i, some 0⟩ sh')
    (howned : ∀ b, (b, some i) ∈ m.live ↔ b.1 ∈ st.owned ∧ b.2 = st.cache.order)
    (hframe : ∀ x, (∀ b, (b, some i) ∈ m.live → ¬ Covers b x) → st.mem (Slab.Loc.addr x) = m.words x) :
    Ok ⟨m.setCache i st, ranges, objs, created⟩ := by
  obtain ⟨hp', hothers'⟩ := setCache_rule st hp hothers hframe
  refine ⟨⟨sh, hp'⟩, fun j => ?_⟩
  by_cases hj : j = i
  · subst hj
    refine ⟨fun _ => ?_, fun h0 => absurd hi h0, fun h0 => ?_, fun b => ?_⟩
    · rwa [cacheView_setCache]
    · exact absurd (hi.symm.trans h0) (by simp)
    · rw [setCache_caches_self]
      exact howned b
  · exact hothers' j hj

/-- The objects in use after an allocation. -/
theorem mem_update_cons {objs : ι → List ℕ} {i j : ι} {o a : ℕ} (ha : a ∈ objs j) :
    a ∈ Function.update objs i (o :: objs i) j := by
  by_cases hj : j = i
  · subst hj
    rw [Function.update_self]
    exact List.mem_cons_of_mem _ ha
  · rwa [Function.update_of_ne hj]

/-- **A cache without a free slot asks for a block.** -/
theorem Ok.ask (h : Ok s) {i : ι} (junk : ℕ → ℕ) {shc : Slab.Shape}
    (hok : Slab.Tight ⟨s.m.cacheView i, s.objs i, some 0⟩ shc) :
    ∃ a m sh, (s.m.setCache i (s.m.cacheView i)).kbudAlloc (s.m.caches i).cache.order (some i) junk =
        some (a, m) ∧ (a = kpageErr ↔
        ∃ st, Buddy.kbudAlloc s.m.pageView (s.m.caches i).cache.order = some (kpageErr, st)) ∧
      Neat (m.paging s.ranges) sh ∧ Slab.Tight ⟨m.cacheView i, s.objs i, some 0⟩ shc ∧
      (∀ j ≠ i, m.caches j = s.m.caches j ∧ CacheOk m j (s.objs j) (s.created j)) ∧
      m.caches i = s.m.cacheView i ∧
      m.live = (if a = kpageErr then s.m.live else
        ((a, (s.m.caches i).cache.order), some i) :: s.m.live) ∧
      ∀ b ∈ s.m.live, ∀ x, Covers b.1 x → m.words x = s.m.words x := by
  obtain ⟨sh, hn⟩ := h.pages
  obtain ⟨hn₁, hothers₁⟩ := setCache_rule (s.m.cacheView i) hn (fun j _ => h.caches j) fun x _ => rfl
  obtain ⟨a, m, sh', hrun, hc, hn', hlive, hwords⟩ :=
    kbudAlloc_spec hn₁ (s.m.caches i).cache.order (some i) junk
  have hcache : m.caches i = s.m.cacheView i := by rw [hc, setCache_caches_self]
  obtain ⟨⟨a', st⟩, hbud, heq⟩ := Option.map_eq_some_iff.1 hrun
  have ha : a' = a := congrArg Prod.fst heq
  change Buddy.kbudAlloc s.m.pageView (s.m.caches i).cache.order = _ at hbud
  refine ⟨a, m, sh', hrun, ?_, hn', ?_, fun j hj => ⟨?_, others_of_alloc hothers₁ hc hlive hwords j hj⟩, hcache,
    hlive, hwords⟩
  · rw [hbud, ← ha]
    constructor
    · rintro rfl
      exact ⟨st, rfl⟩
    · rintro ⟨st', hst⟩
      exact (Prod.mk.inj (Option.some_inj.1 hst)).1
  · refine slabOk_words (m := s.m.setCache i (s.m.cacheView i)) ?_ (congrFun hc i) fun t ht => ?_
    · rwa [cacheView_setCache]
    · rw [setCache_caches_self] at ht ⊢
      exact hwords _ (((h.caches i).owned _).2 ⟨ht, rfl⟩)
  · rw [hc, setCache_caches_of_ne _ hj]

/-- **Allocating an object** when no slab has a free slot. -/
theorem Ok.alloc_slab (h : Ok s) {i : ι} (junk : ℕ → ℕ) (hi : s.created i = some 0) {shc : Slab.Shape}
    (hok : Slab.Tight ⟨s.m.cacheView i, s.objs i, some 0⟩ shc) (hpart : shc.part = []) (hempty : shc.empty = [])
    (hrun : Slab.firstAlloc [Slab.kslabPartialAlloc, Slab.kslabEmptyAlloc] (s.m.cacheView i) =
      some (kpageErr, s.m.cacheView i)) :
    ∃ o m, s.m.kslabAlloc i junk = some (o, m) ∧ (o = kpageErr ↔
        ∃ st, Buddy.kbudAlloc s.m.pageView (s.m.caches i).cache.order = some (kpageErr, st)) ∧
      Ok (s.allocated i o m) ∧ Intact s (Op.alloc i junk) (s.allocated i o m) := by
  have howned := (h.caches i).owned
  obtain ⟨a, m, sh, hask, hfails, hn, hok₂, hothers, hcache, hlive, hwords⟩ := h.ask junk hok
  have hst : (m.cacheView i).owned = (s.m.caches i).owned ∧
      (m.cacheView i).cache = (s.m.caches i).cache := by
    change (m.caches i).owned = _ ∧ (m.caches i).cache = _
    rw [hcache]
    exact ⟨rfl, rfl⟩
  have hstep : ∀ {o : ℕ} {st : Slab.State}, Slab.kslabNewAlloc (answer a) (m.cacheView i) = some (o, st) →
      s.m.kslabAlloc i junk = some (o, m.setCache i st) := by
    intro o st hnew
    rw [Machine.kslabAlloc, hrun, Option.bind_eq_bind, Option.bind_some]
    dsimp only
    rw [if_neg (by simp), hask, Option.bind_eq_bind, Option.bind_some]
    dsimp only
    rw [hnew]
    rfl
  have hsize : ∀ {st : Slab.State}, st.cache.objSize = (s.m.caches i).cache.objSize → ∀ j,
      ((m.setCache i st).caches j).cache.objSize = (s.m.caches j).cache.objSize := by
    intro st hst j
    by_cases hj : j = i
    · subst hj
      rwa [setCache_caches_self]
    · rw [setCache_caches_of_ne _ hj, (hothers j hj).1]
  by_cases ha : a = kpageErr
  · -- there is no block
    rw [if_pos ha] at hlive
    have hnew : Slab.kslabNewAlloc (answer a) (m.cacheView i) = some (kpageErr, m.cacheView i) := by
      rw [answer, if_pos ha, Slab.kslabNewAlloc, Slab.kslabNewSlab_none]
      rfl
    refine ⟨kpageErr, _, hstep hnew, iff_of_true rfl (hfails.1 ha), ?_, ?_⟩
    · rw [Sys.allocated, if_pos rfl]
      refine Ok.onCache hn (fun j hj => (hothers j hj).2) hi ⟨shc, hok₂⟩ (fun b => ?_) fun x _ => rfl
      rw [hlive, hst.1, hst.2]
      exact howned b
    · rw [Sys.allocated, if_pos rfl]
      refine h.intact (fun b hb => Or.inl (hlive ▸ hb)) (fun _ _ ha => Or.inl ha)
        (fun j _ => hsize (by rw [hst.2]) j) fun u hu _ x hx => ?_
      obtain ⟨b, hb, hcov⟩ := h.block_of hu
      exact hwords _ hb x (hcov x hx)
  · -- the block becomes a slab
    rw [if_neg ha] at hlive
    have hfresh : Slab.Fresh (m.cacheView i) (some a) := by
      refine fresh_of_neat (i := i) hn (l := s.m.live) (by rw [hst.2, hlive]) fun t ht => ?_
      rw [hst.1] at ht
      rw [hst.2]
      exact (howned _).2 ⟨ht, rfl⟩
    obtain ⟨o, st, sh', hnew, hne, hok', hown, hlay, hframe⟩ := hok₂.alloc_new hpart hempty hfresh
    dsimp only at hnew hok' hown hlay hframe
    rw [hst.1, hst.2] at hframe
    rw [hst.1] at hown
    rw [hst.2] at hlay
    refine ⟨o, _, hstep (by rw [answer, if_neg ha]; exact hnew),
      iff_of_false hne fun hno => ha (hfails.2 hno), ?_, ?_⟩
    · rw [Sys.allocated, if_neg hne]
      refine Ok.onCache hn (fun j hj => ?_) hi ⟨sh', ?_⟩ (fun b => ?_) fun x hx => ?_
      · rw [Function.update_of_ne hj]
        exact (hothers j hj).2
      · rw [Function.update_self]
        exact hok'
      · rw [hlive, hown, show st.cache.order = (s.m.caches i).cache.order from congrArg Slab.Layout.order hlay,
          List.mem_cons, List.mem_cons, howned, Prod.mk.injEq, Prod.ext_iff]
        tauto
      · rw [hlive] at hx
        have hself := hx _ List.mem_cons_self
        refine hframe x (offHeaders_of_outside hok howned fun b hb => hx b (List.mem_cons_of_mem _ hb)).1 ?_
        rw [covers_iff, not_and_or] at hself
        dsimp only at hself
        omega
    · rw [Sys.allocated, if_neg hne]
      refine h.intact (fun b hb => Or.inl (hlive ▸ List.mem_cons_of_mem _ hb))
        (fun _ _ ha => Or.inl (mem_update_cons ha))
        (fun j _ => hsize (congrArg Slab.Layout.objSize hlay) j) fun u hu _ x hx => ?_
      exact h.words_of_alloc hi hn hlive hwords hframe u hu x hx

/-- **Allocating an object** from a slab of the cache. -/
theorem Ok.alloc_slot (h : Ok s) {i : ι} (junk : ℕ → ℕ) (hi : s.created i = some 0) {o : ℕ}
    {st : Slab.State} {shc sh' : Slab.Shape} (hok : Slab.Tight ⟨s.m.cacheView i, s.objs i, some 0⟩ shc)
    (hrun : Slab.firstAlloc [Slab.kslabPartialAlloc, Slab.kslabEmptyAlloc] (s.m.cacheView i) = some (o, st))
    (hne : o ≠ kpageErr) (hok' : Slab.Tight ⟨st, o :: s.objs i, some 0⟩ sh')
    (hown : st.owned = (s.m.caches i).owned) (hlay : st.cache.layout = (s.m.caches i).cache.layout)
    (hframe : ∀ x, Slab.OffHeaders (s.m.caches i).owned x → st.mem (Slab.Loc.addr x) = s.m.words x) :
    ∃ m, s.m.kslabAlloc i junk = some (o, m) ∧ Ok (s.allocated i o m) ∧
      Intact s (Op.alloc i junk) (s.allocated i o m) := by
  obtain ⟨sh, hn⟩ := h.pages
  have howned := (h.caches i).owned
  refine ⟨s.m.setCache i st, ?_, ?_, ?_⟩
  · rw [Machine.kslabAlloc, hrun, Option.bind_eq_bind, Option.bind_some]
    exact if_pos hne
  · rw [Sys.allocated, if_neg hne]
    refine Ok.onCache hn (fun j hj => ?_) hi ⟨sh', ?_⟩ (fun b => ?_) fun x hx => ?_
    · rw [Function.update_of_ne hj]
      exact h.caches j
    · rw [Function.update_self]
      exact hok'
    · rw [hown, show st.cache.order = (s.m.caches i).cache.order from congrArg Slab.Layout.order hlay]
      exact howned b
    · exact hframe x (offHeaders_of_outside hok howned hx).1
  · rw [Sys.allocated, if_neg hne]
    refine h.intact (fun _ hb => Or.inl hb) (fun _ _ ha => Or.inl (mem_update_cons ha)) (fun j _ => ?_)
      fun u hu _ x hx => hframe x (h.offHeaders hi hu hx)
    by_cases hj : j = i
    · subst hj
      rw [setCache_caches_self]
      exact congrArg Slab.Layout.objSize hlay
    · rw [setCache_caches_of_ne _ hj]

/-- **Allocating an object.** -/
theorem Ok.alloc (h : Ok s) {i : ι} {junk : ℕ → ℕ} (hi : s.created i = some 0) :
    ∃ s', step s (Op.alloc i junk) = some s' ∧ Ok s' ∧ Intact s (Op.alloc i junk) s' := by
  obtain ⟨shc, hok⟩ := (h.caches i).cache hi
  rcases hok.alloc_old with ⟨o, st, sh', hrun, hne, hok', hown, hlay, hframe⟩ | ⟨hpart, hempty, hrun⟩
  · obtain ⟨m, hm, hok₂, hintact⟩ := h.alloc_slot junk hi hok hrun hne hok' hown hlay hframe
    exact ⟨_, by rw [step, hm, Option.map_some], hok₂, hintact⟩
  · obtain ⟨o, m, hm, -, hok₂, hintact⟩ := h.alloc_slab junk hi hok hpart hempty hrun
    exact ⟨_, by rw [step, hm, Option.map_some], hok₂, hintact⟩

/-- **The rule for a slab that a cache gives back**: the block `f` is no longer one of its slabs. -/
theorem Ok.onRelease {m : Machine ι} {ranges : List (ℕ × ℕ)} {objs : ι → List ℕ} {created : ι → Option ℤ}
    {i : ι} {f : ℕ} {sh : Buddy.Shape} (hp : Neat (m.paging ranges) sh)
    (hothers : ∀ j ≠ i, CacheOk m j (objs j) (created j)) (hi : created i = some 0)
    (hok : ∃ sh', Slab.Tight ⟨m.cacheView i, objs i, some 0⟩ sh') (hf : f ∉ (m.caches i).owned)
    (howned : ∀ b, (b, some i) ∈ m.live ↔
      (b.1 = f ∨ b.1 ∈ (m.caches i).owned) ∧ b.2 = (m.caches i).cache.order) (junk : ℕ → ℕ) :
    ∃ m', m.kbudFree f (m.caches i).cache.order junk = some m' ∧ Ok ⟨m', ranges, objs, created⟩ ∧
      m'.caches = m.caches ∧ (∀ b, (b, none) ∈ m.live → (b, none) ∈ m'.live) ∧
      ∀ b ∈ m'.live, ∀ x, Covers b.1 x → m'.words x = m.words x := by
  have hfl : ((f, (m.caches i).cache.order), some i) ∈ m.live := (howned _).2 ⟨Or.inl rfl, rfl⟩
  obtain ⟨m', sh₂, hrun, hc, hn, hlive, hkeep⟩ := kbudFree_spec hp hfl junk
  have hlive' : ∀ b o, (b, o) ∈ m'.live ↔ (b, o) ∈ m.live ∧ b ≠ (f, (m.caches i).cache.order) := by
    intro b o
    rw [hlive, List.mem_filter, decide_eq_true_iff]
  have hclient : ∀ b, (b, none) ∈ m.live → (b, none) ∈ m'.live := by
    intro b hb
    refine (hlive' b none).2 ⟨hb, fun heq => ?_⟩
    exact absurd (tag_eq hp (show (b, some i) ∈ m.live from heq ▸ hfl) hb) (by simp)
  refine ⟨m', hrun, ⟨⟨sh₂, hn⟩, fun j => ?_⟩, hc, hclient, hkeep⟩
  by_cases hj : j = i
  · subst hj
    refine ⟨fun _ => ?_, fun h0 => absurd hi h0, fun h0 => absurd (hi.symm.trans h0) (by simp),
      fun b => ?_⟩
    · obtain ⟨sh', hok⟩ := hok
      refine ⟨sh', slabOk_words hok (congrFun hc j) fun t ht => ?_⟩
      refine hkeep (_, some j) ((hlive' _ _).2 ⟨(howned _).2 ⟨Or.inr ht, rfl⟩, fun heq => hf ?_⟩)
      rwa [← show t = f from congrArg Prod.fst heq]
    · dsimp only
      rw [hlive', howned, hc, ne_eq, Prod.ext_iff]
      constructor
      · rintro ⟨⟨hb, ho⟩, hne⟩
        exact ⟨hb.resolve_left fun heq => hne ⟨heq, ho⟩, ho⟩
      · rintro ⟨hb, ho⟩
        refine ⟨⟨Or.inr hb, ho⟩, fun heq => hf ?_⟩
        rwa [← show b.1 = f from heq.1]
  · have hstay : ∀ b, (b, some j) ∈ m.live → b ≠ (f, (m.caches i).cache.order) := by
      intro b hb heq
      exact hj (Option.some_inj.1 (tag_eq hp hb (heq ▸ hfl)))
    refine (hothers j hj).words (congrFun hc j) (fun b => ?_) fun b hb => ?_
    · rw [hlive', and_iff_left_iff_imp]
      exact hstay b
    · exact hkeep (b, some j) ((hlive' b _).2 ⟨hb, hstay b hb⟩)

/-- **Freeing an object.** -/
theorem Ok.free (h : Ok s) {i : ι} {obj : ℕ} {junk : ℕ → ℕ} (hp : Promised s (Op.free i obj junk)) :
    ∃ s', step s (Op.free i obj junk) = some s' ∧ Ok s' ∧ Intact s (Op.free i obj junk) s' := by
  have hobj : obj ∈ s.objs i := hp
  have hi := h.created_of_mem hobj
  obtain ⟨sh, hn⟩ := h.pages
  obtain ⟨shc, hok⟩ := (h.caches i).cache hi
  have howned := (h.caches i).owned
  have hnd := hok.nodup
  obtain ⟨st, sh', hrun, hok', hlay, hframe, hback⟩ := hok.free_old hobj s.m.words
  dsimp only at hrun hok' hlay hframe hback hnd
  have hord : st.cache.order = (s.m.caches i).cache.order := congrArg Slab.Layout.order hlay
  have hsize : ∀ j, ((s.m.setCache i st).caches j).cache.objSize = (s.m.caches j).cache.objSize := by
    intro j
    by_cases hj : j = i
    · subst hj
      rw [setCache_caches_self]
      exact congrArg Slab.Layout.objSize hlay
    · rw [setCache_caches_of_ne _ hj]
  have hothers : ∀ j ≠ i, CacheOk s.m j (Function.update s.objs i ((s.objs i).erase obj) j) (s.created j) := by
    intro j hj
    rw [Function.update_of_ne hj]
    exact h.caches j
  have hout : ∀ x, (∀ b, (b, some i) ∈ s.m.live → ¬ Covers b x) →
      st.mem (Slab.Loc.addr x) = s.m.words x := by
    intro x hx
    obtain ⟨hoff, hnot⟩ := offHeaders_of_outside hok howned hx
    exact hframe x hoff fun hxo => hnot (hxo ▸ hobj)
  -- the words of a piece that stays in use, when the cache has returned
  have hwords : ∀ u, s.InUse u → (∀ o, u = Piece.object i o → o ∈ (s.objs i).erase obj) → ∀ x,
      s.Covers u x → st.mem (Slab.Loc.addr x) = s.m.words x := by
    intro u hu hstay x hx
    refine hframe x (h.offHeaders hi hu hx) fun hxo => ?_
    have hself := h.covers_object hobj
    rw [← hxo] at hself
    refine h.disjoint hu (show s.InUse (Piece.object i x) from hxo ▸ hobj) (fun heq => ?_) hx hself
    exact ((hnd.mem_erase_iff).1 (hstay x heq)).1 hxo
  have hobjs : ∀ j a, a ∈ s.objs j → a ∈ Function.update s.objs i ((s.objs i).erase obj) j ∨
      Op.Frees (Op.free i obj junk) (Piece.object j a) := by
    intro j a haj
    by_cases hj : j = i
    · subst hj
      rw [Function.update_self]
      by_cases hao : a = obj
      · exact Or.inr (hao ▸ rfl)
      · exact Or.inl ((List.mem_erase_of_ne hao).2 haj)
    · rw [Function.update_of_ne hj]
      exact Or.inl haj
  rcases hback with ⟨hown, hfreed⟩ | ⟨f, hf, hown, hfreed⟩
  · -- the cache keeps its slabs
    refine ⟨{ s with
      m := s.m.setCache i st
      objs := Function.update s.objs i ((s.objs i).erase obj) }, ?_, ?_, ?_⟩
    · rw [step, kslabFree_keep hrun hfreed]
      rfl
    · refine Ok.onCache hn hothers hi ⟨sh', ?_⟩ (fun b => ?_) hout
      · rw [Function.update_self]
        exact hok'
      · rw [hown, hord]
        exact howned b
    · refine h.intact (fun _ hb => Or.inl hb) hobjs (fun j _ => hsize j)
        fun u hu hu' x hx => hwords u hu (fun o heq => ?_) x hx
      subst heq
      change o ∈ Function.update s.objs i _ i at hu'
      rwa [Function.update_self] at hu'
  · -- the cache gives a slab back
    obtain ⟨hn₁, hothers₁⟩ := setCache_rule st hn hothers hout
    have hfnd : (s.m.caches i).owned.Nodup := hok.inv.blocks.nodup
    obtain ⟨m, hbud, hok₂, hc, hblocks, hkeep⟩ := Ok.onRelease (i := i) (f := f) hn₁ hothers₁ hi
      ⟨sh', by rwa [cacheView_setCache, Function.update_self]⟩
      (by rw [setCache_caches_self, hown]; exact hfnd.not_mem_erase)
      (fun b => by
        rw [setCache_caches_self, hown, hord]
        exact (howned b).trans (and_congr_left fun _ =>
          (List.perm_cons_erase hf).mem_iff.trans List.mem_cons)) junk
    rw [setCache_caches_self, hord] at hbud
    refine ⟨_, ?_, hok₂, h.intact (fun b hb => Or.inl (hblocks b hb)) hobjs (fun j _ => ?_)
      fun u hu hu' x hx => ?_⟩
    · rw [step, kslabFree_back hrun hfreed]
      change Option.map _ (Machine.kbudFree _ f (s.m.caches i).cache.order junk) = _
      rw [hbud]
      rfl
    · rw [hc]
      exact hsize j
    · obtain ⟨b, hb, hcov⟩ := hok₂.block_of hu'
      refine (hkeep _ hb x (hcov x ?_)).trans (hwords u hu (fun o heq => ?_) x hx)
      · cases u with
        | block b => exact hx
        | object j o =>
            change o ≤ x ∧ x < o + (m.caches j).cache.objSize
            rw [hc, hsize j]
            exact hx
      · subst heq
        change o ∈ Function.update s.objs i _ i at hu'
        rwa [Function.update_self] at hu'

/-- **A write** into a piece in use. -/
theorem Ok.write (h : Ok s) {u : Piece ι} {a v : ℕ} (hp : Promised s (Op.write u a v)) :
    ∃ s', step s (Op.write u a v) = some s' ∧ Ok s' ∧ Intact s (Op.write u a v) s' := by
  obtain ⟨hu, ha⟩ := hp
  obtain ⟨sh, hn⟩ := h.pages
  obtain ⟨b, hb, hcov⟩ := h.block_of hu
  have hother : ∀ x, x ≠ a → Function.update s.m.words a v x = s.m.words x := fun x hx =>
    Function.update_of_ne hx _ _
  refine ⟨_, rfl, ⟨⟨sh, paging_words hn rfl rfl fun x hx => hother x fun hxa => ?_⟩, fun i => ?_⟩,
    fun w hw => Or.inl hw, fun w hw _ x hx => ⟨hx, ?_⟩, fun _ _ => rfl⟩
  · exact hx _ hb (hxa ▸ hcov a ha)
  · by_cases htag : u.owner = some i
    · cases u with
      | block b => cases htag
      | object j o =>
          obtain rfl := Option.some_inj.1 htag
          have hi := h.created_of_mem hu
          obtain ⟨shc, hok⟩ := (h.caches j).cache hi
          refine ⟨fun _ => ⟨shc, ?_⟩, fun h0 => absurd hi h0, fun h0 =>
            absurd (hi.symm.trans h0) (by simp), (h.caches j).owned⟩
          rw [cacheView_write]
          exact ⟨hok.toOk.write (Or.inl ⟨o, hu, ha⟩), hok.tight⟩
    · refine (h.caches i).words rfl (fun _ => Iff.rfl) fun b' hb' x hx => hother x fun hxa => ?_
      exact htag (congrArg Prod.snd (tag_unique hn hb hb' (hcov a ha) (hxa ▸ hx)))
  · by_cases hxa : x = a
    · subst hxa
      have huw : u = w := by
        by_contra hne
        exact h.disjoint hu hw hne ha hx
      subst huw
      exact Or.inr ⟨v, rfl, Function.update_self ..⟩
    · exact Or.inl (hother x hxa)

/-- **Creating a cache.** -/
theorem Ok.create (h : Ok s) {i : ι} {objsize alignment flags : ℕ} {junk : ℕ → ℕ}
    (hp : Promised s (Op.create i objsize alignment flags junk)) :
    ∃ s', step s (Op.create i objsize alignment flags junk) = some s' ∧ Ok s' ∧
      Intact s (Op.create i objsize alignment flags junk) s' := by
  obtain ⟨hnone, hobj, hapos, ha⟩ := hp
  obtain ⟨sh, hn⟩ := h.pages
  obtain ⟨howned, hobjs⟩ := (h.caches i).idle (by rw [hnone]; simp)
  have hno := (h.caches i).zeroed hnone
  have htag := (h.caches i).owned
  have hempty : ∀ b, (b, some i) ∉ s.m.live := by
    intro b hb
    have hmem := ((htag b).1 hb).1
    rw [howned] at hmem
    exact List.not_mem_nil hmem
  have hne : ∀ {j}, s.created j = some 0 → j ≠ i := fun hj heq => by
    rw [heq, hnone] at hj
    cases hj
  obtain ⟨c, hc⟩ := Slab.chooseGeometry_isSome (show 0 < objsize by omega) hapos
  by_cases hw : c.waste = Slab.noWaste
  · -- there is no geometry
    refine ⟨{ s with created := Function.update s.created i (some 1) }, ?_, ⟨⟨sh, hn⟩, fun j => ?_⟩, ?_⟩
    · rw [step, Machine.kslabCacheCreate, hc, Option.bind_eq_bind, Option.bind_some, if_pos hw]
      rfl
    · by_cases hj : j = i
      · subst hj
        dsimp only
        rw [Function.update_self]
        exact ⟨fun h0 => by simp at h0, fun _ => ⟨howned, hobjs⟩, fun h0 => by simp at h0, htag⟩
      · dsimp only
        rw [Function.update_of_ne hj]
        exact h.caches j
    · exact h.intact (fun _ hb => Or.inl hb) (fun _ _ ha => Or.inl ha) (fun _ _ => rfl)
        fun _ _ _ _ _ => rfl
  obtain ⟨a, m, sh', hbud, hcaches, hn', hlive, hwords⟩ := kbudAlloc_spec hn c.order (some i) junk
  have hothers := others_of_alloc (fun j _ => h.caches j) hcaches hlive hwords
  have hno' : Slab.NoSlabs (m.cacheView i) := noSlabs_words hno (congrFun hcaches i)
  have howned' : (m.cacheView i).owned = [] := (congrArg Slab.State.owned (congrFun hcaches i)).trans howned
  have hstep : ∀ {ret : ℤ} {st : Slab.State},
      Slab.kslabCacheCreate (m.cacheView i) objsize alignment flags (answer a) = some (ret, st) →
      step s (Op.create i objsize alignment flags junk) = some { s with
        m := m.setCache i st
        created := Function.update s.created i (some ret) } := by
    intro ret st hcreate
    rw [step, Machine.kslabCacheCreate, hc, Option.bind_eq_bind, Option.bind_some, if_neg hw, hbud,
      Option.bind_eq_bind, Option.bind_some]
    dsimp only
    rw [hcreate]
    rfl
  have hfresh : Slab.Fresh (Slab.setGeometry (m.cacheView i) c objsize alignment flags) (answer a) := by
    unfold answer
    by_cases hae : a = kpageErr
    · rw [if_pos hae]
      exact fun b hb => by cases hb
    · rw [if_neg hae]
      rw [if_neg hae] at hlive
      refine fresh_of_neat (i := i) hn' (l := s.m.live) hlive fun t ht => ?_
      change t ∈ (m.cacheView i).owned at ht
      rw [howned'] at ht
      exact absurd ht List.not_mem_nil
  have hframe : ∀ {ret : ℤ} {st : Slab.State},
      Slab.kslabCacheCreate (m.cacheView i) objsize alignment flags (answer a) = some (ret, st) → ∀ x,
      (a ≠ kpageErr → ¬ Covers (a, c.order) x) → st.mem (Slab.Loc.addr x) = m.words x := by
    intro ret st hcreate x hx
    refine Slab.kslabCacheCreate_frame hno' howned' hobj ha hc hfresh hcreate fun b hb => ?_
    unfold answer at hb
    split_ifs at hb with hae
    · cases hb
    · obtain rfl := Option.some_inj.1 hb
      have hout := hx hae
      rw [covers_iff, not_and_or] at hout
      dsimp only at hout
      omega
  have hothers' : ∀ ret : ℤ, ∀ j ≠ i,
      CacheOk m j (s.objs j) (Function.update s.created i (some ret) j) := by
    intro ret j hj
    rw [Function.update_of_ne hj]
    exact hothers j hj
  have hintact : ∀ {ret : ℤ} {st : Slab.State},
      Slab.kslabCacheCreate (m.cacheView i) objsize alignment flags (answer a) = some (ret, st) →
      Intact s (Op.create i objsize alignment flags junk) { s with
        m := m.setCache i st
        created := Function.update s.created i (some ret) } := by
    intro ret st hcreate
    refine h.intact (fun b hb => Or.inl ?_) (fun _ _ ha => Or.inl ha) (fun j hj => ?_)
      fun u hu _ x hx => ?_
    · change (b, none) ∈ m.live
      rw [hlive]
      split_ifs
      · exact hb
      · exact List.mem_cons_of_mem _ hb
    · rw [setCache_caches_of_ne _ (hne hj), hcaches]
    · obtain ⟨b, hb, hcov⟩ := h.block_of hu
      refine (hframe hcreate x fun hae hin => ?_).trans (hwords _ hb x (hcov x hx))
      rw [if_neg hae] at hlive
      exact not_covers_new hn' hlive hb (hcov x hx) hin
  rcases Slab.kslabCacheCreate_cases hno' howned' hobj ha hc hfresh with ⟨hwaste, -⟩ | ⟨-, hblk, hrun⟩ |
    ⟨b, st, shc, -, hblk, hrun, hinv, hcache, -, hown, hfull, hpart, -⟩
  · exact absurd hwaste hw
  · -- there is no block
    have hae : a = kpageErr := by
      by_contra hae
      rw [answer, if_neg hae] at hblk
      cases hblk
    rw [if_pos hae] at hlive
    obtain ⟨hn₂, hothers₂⟩ := setCache_rule (Slab.setGeometry (m.cacheView i) c objsize alignment flags) hn' (hothers' (-1)) fun x _ =>
      hframe hrun x fun hne => absurd hae hne
    refine ⟨_, hstep hrun, ⟨⟨sh', hn₂⟩, fun j => ?_⟩, hintact hrun⟩
    by_cases hj : j = i
    · subst hj
      dsimp only
      rw [Function.update_self]
      refine ⟨fun h0 => by simp at h0, fun _ => ⟨?_, hobjs⟩, fun h0 => by simp at h0, fun b => ?_⟩
      · rw [setCache_caches_self]
        exact howned'
      · rw [setCache_caches_self]
        change (b, some j) ∈ m.live ↔ b.1 ∈ (m.cacheView j).owned ∧ _
        rw [hlive, howned']
        exact iff_of_false (hempty b) fun hmem => List.not_mem_nil hmem.1
    · exact hothers₂ j hj
  · -- the block becomes the first slab
    have hae : a ≠ kpageErr := by
      intro hae
      rw [answer, if_pos hae] at hblk
      cases hblk
    rw [answer, if_neg hae] at hblk
    obtain rfl := Option.some_inj.1 hblk
    rw [if_neg hae] at hlive
    have hord : st.cache.order = c.order := congrArg Slab.KslabCache.order hcache
    refine ⟨_, hstep hrun, Ok.onCache hn' (hothers' 0) (Function.update_self ..) ⟨shc, ?_⟩
      (fun b => ?_) fun x hx => ?_, hintact hrun⟩
    · rw [hobjs]
      exact Slab.Tight.ofInv hinv hfull hpart
    · rw [hlive, hown, hord, List.mem_cons, List.mem_singleton, Prod.mk.injEq, Prod.ext_iff]
      have := hempty b
      tauto
    · rw [hlive] at hx
      exact hframe hrun x fun _ => hx _ List.mem_cons_self

/-- **What an operation does.** -/
theorem Ok.step (h : Ok s) {o : Op ι} (hp : Promised s o) :
    ∃ s', Mm.step s o = some s' ∧ Ok s' ∧ Intact s o s' := by
  cases o with
  | donate vaddr len junk => exact h.donate hp
  | allocPages order junk => exact h.allocPages order junk
  | freePages vaddr order junk => exact h.freePages hp
  | create i objsize alignment flags junk => exact h.create hp
  | alloc i junk => exact h.alloc hp
  | free i obj junk => exact h.free hp
  | write u a v => exact h.write hp

end Calls

/-- Before any operation there is nothing. -/
theorem Ok.init : Ok (Sys.init : Sys ι) where
  pages := by
    refine ⟨_, Neat.words Neat.init (fun _ _ => ?_) fun _ _ => ?_⟩
    exacts [rfl, rfl]
  caches i := by
    refine ⟨fun h0 => ?_, fun _ => ⟨rfl, rfl⟩, fun _ => ⟨rfl, rfl, rfl⟩, fun b => ?_⟩
    · cases h0
    · exact iff_of_false List.not_mem_nil fun hmem => List.not_mem_nil hmem.1

end Mm

end SyncKernel
