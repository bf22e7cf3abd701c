/-
**What the slab allocator writes.**

Allocating an object writes into the headers of the slabs of the cache and, when a slab is added, into
its block.  Freeing an object writes into the headers and into the first word of the object.  No word
of an object in use and no word outside the blocks of the cache is written.

Main definitions:

* `Slab.OffHeaders` — an address in none of the headers;
* `Slab.Tight` — the invariant of a cache that loses no slot.

Main results:

* `Slab.kslabAlloc_frame`, `Slab.kslabFree_frame`, `Slab.kslabCacheCreate_frame` — **the frames**;
* `Slab.Tight.alloc_old`, `Slab.Tight.alloc_new`, `Slab.Tight.free_old` — **no slot is lost**.
-/

import SyncKernel.Slab.System

set_option relaxedAutoImplicit false
set_option autoImplicit false

namespace SyncKernel

namespace Slab

/-- The address lies in none of the headers of the slabs. -/
def OffHeaders (bs : List ℕ) (x : ℕ) : Prop := ∀ t ∈ bs, x < t ∨ t + slabHdrSz ≤ x

section Writes

variable {st : State} {sh : Shape} {x : ℕ}

/-- A field of a header is none of the words outside of the headers. -/
theorem OffHeaders.ne_addr {bs : List ℕ} (hx : OffHeaders bs x) {t d : ℕ} (ht : t ∈ bs) (hd : d < 48) :
    Loc.addr x ≠ Loc.addr (t + d) := by
  intro he
  have hxt := hx t ht
  have := Loc.addr.inj he
  unfold slabHdrSz at hxt
  omega

theorem store_frame {l : Loc} (hl : Loc.addr x ≠ l) (v : ℕ) :
    (st.store l v).mem (Loc.addr x) = st.mem (Loc.addr x) := Function.update_of_ne hl _ _

/-- Moving a slab writes list heads and `next` fields. -/
theorem Inv.relink_frame (h : Inv st sh) {mem : Loc → ℕ} {start dest other : Loc} (l₁ : List ℕ)
    {l₂ k m : List ℕ} {t : ℕ} (hs : IsHead start) (hd : IsHead dest) (ho : IsHead other)
    (hsd : start ≠ dest) (hso : start ≠ other) (hdo : dest ≠ other)
    (hstart : Chain nextOf 0 mem start (l₁ ++ t :: l₂)) (hdest : Chain nextOf 0 mem dest k)
    (hother : Chain nextOf 0 mem other m) (hperm : sh.slabs.Perm (l₁ ++ t :: l₂ ++ (k ++ m)))
    {st' : State} (hrun : kslabRelinkNode { st with mem := mem } start dest t = some st')
    (hx : OffHeaders st.owned x) : st'.mem (Loc.addr x) = mem (Loc.addr x) := by
  obtain ⟨mem', hrun', -, -, -, hframe⟩ :=
    kslabRelinkNode_spec { st with mem := mem } l₁ hs hd ho hsd hso hdo hstart hdest hother
      (hperm.nodup_iff.1 h.nodup_slabs) (hperm.length_eq ▸ h.length_slabs_lt)
  obtain rfl := Option.some_inj.1 (hrun'.symm.trans hrun)
  refine hframe _ (fun l hl => ?_) fun b hb => ?_
  · rcases hl with rfl | rfl | rfl <;> simp
  · exact hx.ne_addr (h.mem_owned.2 (hperm.mem_iff.2 hb)) (by decide)

/-- Taking an object writes the head of the free list. -/
theorem takeObject_frame {st' : State} {t o : ℕ} (hrun : takeObject st t = some (o, st'))
    (hne : Loc.addr x ≠ freelistOf t) : st'.mem (Loc.addr x) = st.mem (Loc.addr x) := by
  unfold takeObject at hrun
  dsimp only at hrun
  split_ifs at hrun with h0
  obtain rfl := (Prod.mk.inj (Option.some_inj.1 hrun)).2
  exact store_frame hne _

theorem kslabPartialAlloc_frame (h : Inv st sh) {o : ℕ} {st' : State}
    (hrun : kslabPartialAlloc st = some (o, st')) (hx : OffHeaders st.owned x) :
    st'.mem (Loc.addr x) = st.mem (Loc.addr x) := by
  unfold kslabPartialAlloc at hrun
  dsimp only at hrun
  by_cases h0 : st.mem Loc.listPartial = 0
  · rw [if_pos h0] at hrun
    obtain rfl := (Prod.mk.inj (Option.some_inj.1 hrun)).2
    rfl
  rw [if_neg h0] at hrun
  obtain ⟨t, p, hp⟩ : ∃ t p, sh.part = t :: p := by
    cases hp : sh.part with
    | nil => exact absurd (h.lists.part.null_iff.2 hp) h0
    | cons t p => exact ⟨t, p, rfl⟩
  have hchain := h.lists.part
  rw [hp] at hchain
  have ht : t ∈ st.owned := h.mem_owned.2 (by simp [Shape.slabs, hp])
  rw [hchain.1] at hrun
  obtain ⟨st₂, hst₂, htake⟩ := Option.bind_eq_some_iff.1 hrun
  refine (takeObject_frame htake (hx.ne_addr ht (by decide))).trans ?_
  have hdec : (decFreeCount st t).mem (Loc.addr x) = st.mem (Loc.addr x) :=
    Function.update_of_ne (hx.ne_addr ht (by decide)) _ _
  have hlists := h.lists_update ht (Word.dec32 (st.mem (freeCountOf t))) (Or.inr (Or.inl rfl)) h.lists
  split_ifs at hst₂ with hzero
  · have hpart := hlists.part
    rw [hp] at hpart
    refine (h.relink_frame [] (Or.inr (Or.inl rfl)) (Or.inl rfl) (Or.inr (Or.inr rfl)) (by decide)
      (by decide) (by decide) hpart hlists.full hlists.empty (List.perm_iff_count.2 fun a => ?_) hst₂
      hx).trans hdec
    simp only [Shape.slabs, hp, List.count_append, List.count_nil]
    omega
  · obtain rfl := Option.some_inj.1 hst₂
    exact hdec

theorem kslabEmptyAlloc_frame (h : Inv st sh) {o : ℕ} {st' : State}
    (hrun : kslabEmptyAlloc st = some (o, st')) (hx : OffHeaders st.owned x) :
    st'.mem (Loc.addr x) = st.mem (Loc.addr x) := by
  unfold kslabEmptyAlloc at hrun
  dsimp only at hrun
  split_ifs at hrun with h0
  · obtain rfl := (Prod.mk.inj (Option.some_inj.1 hrun)).2
    rfl
  obtain ⟨t, e, he⟩ : ∃ t e, sh.empty = t :: e := by
    cases he : sh.empty with
    | nil => exact absurd (h.lists.empty.null_iff.2 he) h0
    | cons t e => exact ⟨t, e, rfl⟩
  have hchain := h.lists.empty
  rw [he] at hchain
  have ht : t ∈ st.owned := h.mem_owned.2 (by simp [Shape.slabs, he])
  rw [hchain.1] at hrun
  obtain ⟨st₁, hst₁, hrun⟩ := Option.bind_eq_some_iff.1 hrun
  obtain ⟨⟨o', st₂⟩, htake, hdec⟩ := Option.bind_eq_some_iff.1 hrun
  obtain rfl := (Prod.mk.inj (Option.some_inj.1 hdec)).2
  refine (Function.update_of_ne (hx.ne_addr ht (by decide)) _ _).trans
    ((takeObject_frame htake (hx.ne_addr ht (by decide))).trans ?_)
  change st₁.mem (Loc.addr x) = st.mem (Loc.addr x)
  refine h.relink_frame [] (Or.inr (Or.inr rfl)) (Or.inr (Or.inl rfl)) (Or.inl rfl) (by decide)
    (by decide) (by decide) hchain h.lists.part h.lists.full (List.perm_iff_count.2 fun a => ?_) hst₁ hx
  simp only [Shape.slabs, he, List.count_append, List.count_nil]
  omega

/-- **A new slab** is written into its block, and its link into a header. -/
theorem kslabNewSlab_frame (h : Inv st sh) {b s : ℕ} {st' : State} (hb : Fresh st (some b))
    (hrun : kslabNewSlab st (some b) = some (s, st')) (hx : OffHeaders st.owned x)
    (hxb : x < b ∨ b + 2 ^ (12 + st.cache.order) ≤ x) :
    st'.mem (Loc.addr x) = st.mem (Loc.addr x) := by
  have g := h.geom
  obtain ⟨hpos, -, hle, -⟩ := hb b rfl
  have hord : st.cache.order < 4 := g.order_lt
  have hsize : buddyOrderToVal st.cache.order = 2 ^ (12 + st.cache.order) := g.buddyOrderToVal_eq
  have hfit := g.fits
  have hres := g.reserved_ge
  have hobj := g.objSize_ge
  change _ ≤ 2 ^ (12 + st.cache.order) at hfit
  obtain ⟨-, hlists₀, -⟩ := hb.clear h
  have hfind : findLink nextOf 0 (zeroBlock b (buddyOrderToVal st.cache.order) st.mem) 0 addrSpace
      Loc.listEmpty = some (linkOf nextOf Loc.listEmpty sh.empty) :=
    findLink_end hlists₀.empty (fun h0 => hlists₀.empty.ne_null 0 h0 rfl) (by
      have hlen := h.length_slabs_lt
      rw [Shape.slabs, List.length_append] at hlen
      omega)
  obtain ⟨mem', hinit, -, hframe⟩ := initSlab_spec g hpos hle
    (Function.update (zeroBlock b (buddyOrderToVal st.cache.order) st.mem)
      (linkOf nextOf Loc.listEmpty sh.empty) b)
  unfold kslabNewSlab at hrun
  rw [kbudAlloc_some (by unfold pframeMaxOrder; omega)] at hrun
  simp only [if_neg hb.ne_kpageErr] at hrun
  rw [hfind, Option.bind_eq_bind, Option.bind_some] at hrun
  obtain rfl := (Prod.mk.inj (Option.some_inj.1 hrun)).2
  refine (congrFun hinit (Loc.addr x)).trans ((hframe _ ?_ ?_).trans
    ((Function.update_of_ne ?_ _ _).trans (zeroBlock_outside _ (by rw [hsize]; exact hxb))))
  · intro he
    have := Loc.addr.inj he
    omega
  · intro hbody
    obtain ⟨a, ha, h₁, h₂⟩ := hbody.exists_addr g
    obtain rfl := Loc.addr.inj ha
    change x < b + 2 ^ (12 + st.cache.order) at h₂
    omega
  · rcases linkOf_eq nextOf Loc.listEmpty sh.empty with he | ⟨t, ht, he⟩
    · rw [he]
      simp
    · rw [he]
      exact hx.ne_addr (h.mem_owned.2 (by simp [Shape.slabs, ht])) (by decide)

/-! ### Allocating -/

theorem firstAlloc_taken {f : State → Option (ℕ × State)} {o : ℕ} {st' : State}
    (hrun : f st = some (o, st')) (ho : o ≠ kpageErr) (fs : List (State → Option (ℕ × State))) :
    firstAlloc (f :: fs) st = some (o, st') := by
  rw [firstAlloc, hrun, Option.bind_eq_bind, Option.bind_some]
  exact if_pos ho

theorem firstAlloc_failed {f : State → Option (ℕ × State)} (hrun : f st = some (kpageErr, st))
    (fs : List (State → Option (ℕ × State))) : firstAlloc (f :: fs) st = firstAlloc fs st := by
  rw [firstAlloc, hrun, Option.bind_eq_bind, Option.bind_some]
  exact if_neg (by simp)

/-- The last way to allocate decides. -/
theorem firstAlloc_one (f : State → Option (ℕ × State)) : firstAlloc [f] st = f st := by
  rw [firstAlloc]
  cases hrun : f st with
  | none => rfl
  | some r =>
      obtain ⟨o, st'⟩ := r
      rw [Option.bind_eq_bind, Option.bind_some]
      by_cases ho : o = kpageErr
      · subst ho
        exact if_neg (by simp)
      · exact if_pos ho

/-- A cache with a partial slab allocates from it. -/
theorem kslabPartialAlloc_taken (h : Inv st sh) (hp : sh.part ≠ []) :
    ∃ o st', kslabPartialAlloc st = some (o, st') ∧ o ≠ kpageErr := by
  obtain ⟨t, p, hp⟩ := List.exists_cons_of_ne_nil hp
  obtain ⟨o, fl, mem', sh', hfl, hrun, -⟩ := kslabPartialAlloc_spec h hp
  exact ⟨o, _, hrun, (Taken.of_update h (h.mem_owned.2 (by simp [Shape.slabs, hp])) hfl).ne_kpageErr h⟩

theorem kslabPartialAlloc_failed (h : Inv st sh) (hp : sh.part = []) :
    kslabPartialAlloc st = some (kpageErr, st) := if_pos (h.lists.part.null_iff.2 hp)

/-- A cache with an empty slab allocates from it. -/
theorem kslabEmptyAlloc_taken (h : Inv st sh) (he : sh.empty ≠ []) :
    ∃ o st', kslabEmptyAlloc st = some (o, st') ∧ o ≠ kpageErr := by
  obtain ⟨t, e, he⟩ := List.exists_cons_of_ne_nil he
  obtain ⟨o, fl, mem', sh', hfl, hrun, -⟩ := kslabEmptyAlloc_spec h he
  exact ⟨o, _, hrun, (Taken.of_update h (h.mem_owned.2 (by simp [Shape.slabs, he])) hfl).ne_kpageErr h⟩

theorem kslabEmptyAlloc_failed (h : Inv st sh) (he : sh.empty = []) :
    kslabEmptyAlloc st = some (kpageErr, st) := if_pos (h.lists.empty.null_iff.2 he)

/-- When no slab has a free slot, a new one is made. -/
theorem kslabAlloc_full (h : Inv st sh) (hp : sh.part = []) (he : sh.empty = []) (blk : Option ℕ) :
    firstAlloc [kslabPartialAlloc, kslabEmptyAlloc] st = some (kpageErr, st) ∧
      kslabAlloc st blk = kslabNewAlloc blk st := by
  have hpart := kslabPartialAlloc_failed h hp
  have hempty := kslabEmptyAlloc_failed h he
  constructor
  · rw [firstAlloc_failed hpart, firstAlloc_failed hempty, firstAlloc]
  · rw [kslabAlloc, firstAlloc_failed hpart, firstAlloc_failed hempty, firstAlloc_one]

/-- **The slabs of the cache are asked first.** -/
theorem kslabAlloc_eq (h : Inv st sh) (blk : Option ℕ) :
    (∃ o st', firstAlloc [kslabPartialAlloc, kslabEmptyAlloc] st = some (o, st') ∧ o ≠ kpageErr ∧
      kslabAlloc st blk = some (o, st') ∧ (kslabPartialAlloc st = some (o, st') ∨
        kslabEmptyAlloc st = some (o, st'))) ∨
    (sh.part = [] ∧ sh.empty = []) := by
  by_cases hp : sh.part = []
  · have hpart := kslabPartialAlloc_failed h hp
    by_cases he : sh.empty = []
    · exact Or.inr ⟨hp, he⟩
    · obtain ⟨o, st', hrun, hne⟩ := kslabEmptyAlloc_taken h he
      refine Or.inl ⟨o, st', ?_, hne, ?_, Or.inr hrun⟩
      · rw [firstAlloc_failed hpart, firstAlloc_taken hrun hne]
      · rw [kslabAlloc, firstAlloc_failed hpart, firstAlloc_taken hrun hne]
  · obtain ⟨o, st', hrun, hne⟩ := kslabPartialAlloc_taken h hp
    exact Or.inl ⟨o, st', firstAlloc_taken hrun hne _, hne, firstAlloc_taken hrun hne _, Or.inl hrun⟩

/-- **An allocation** writes headers and the block of a new slab. -/
theorem kslabAlloc_frame (h : Inv st sh) {blk : Option ℕ} {o : ℕ} {st' : State} (hb : Fresh st blk)
    (hrun : kslabAlloc st blk = some (o, st')) (hx : OffHeaders st.owned x)
    (hxb : ∀ b ∈ blk, x < b ∨ b + 2 ^ (12 + st.cache.order) ≤ x) :
    st'.mem (Loc.addr x) = st.mem (Loc.addr x) := by
  rcases kslabAlloc_eq h blk with ⟨o', st₁, -, -, hrun', hpart | hempty⟩ | ⟨hp, he⟩
  · obtain rfl := (Prod.mk.inj (Option.some_inj.1 (hrun'.symm.trans hrun))).2
    exact kslabPartialAlloc_frame h hpart hx
  · obtain rfl := (Prod.mk.inj (Option.some_inj.1 (hrun'.symm.trans hrun))).2
    exact kslabEmptyAlloc_frame h hempty hx
  rw [(kslabAlloc_full h hp he blk).2] at hrun
  obtain ⟨⟨s, st₁⟩, hslab, hrun⟩ := Option.bind_eq_some_iff.1 hrun
  dsimp only at hrun
  cases blk with
  | none =>
      rw [kslabNewSlab_none] at hslab
      obtain ⟨rfl, rfl⟩ := Prod.mk.inj (Option.some_inj.1 hslab)
      rw [if_pos rfl] at hrun
      obtain rfl := (Prod.mk.inj (Option.some_inj.1 hrun)).2
      rfl
  | some b =>
      obtain ⟨mem₁, hrun₁, hinv₁⟩ := kslabNewSlab_spec h hb
      have hframe := kslabNewSlab_frame h hb hslab hx (hxb b rfl)
      obtain ⟨rfl, rfl⟩ := Prod.mk.inj (Option.some_inj.1 (hrun₁.symm.trans hslab))
      rw [if_neg hb.ne_kpageErr] at hrun
      have g := h.geom
      have hfit := g.fits
      have hres := g.reserved_ge
      change _ ≤ 2 ^ (12 + st.cache.order) at hfit
      have hx' : OffHeaders (b :: st.owned) x := by
        intro t ht
        rcases List.mem_cons.1 ht with rfl | ht
        · have hxt := hxb t rfl
          unfold slabHdrSz
          change x < t ∨ t + 48 ≤ x
          omega
        · exact hx t ht
      exact (kslabEmptyAlloc_frame hinv₁ hrun hx').trans hframe

/-! ### Creating -/

/-- A cache that has its geometry and no slab yet. -/
theorem Inv.ofNoSlabs {objsize alignment : ℕ} (flags : ℕ) {c : Ctx} (hno : NoSlabs st) (howned : st.owned = [])
    (hobj : 8 ≤ objsize) (ha : alignment < 2 ^ 64) (hc : chooseGeometry objsize alignment = some c)
    (hw : c.waste ≠ noWaste) :
    Inv (setGeometry st c objsize alignment flags) ⟨[], [], [], fun _ => []⟩ := by
  refine ⟨geom_of_chooseGeometry hobj ha hc hw, ?_, ?_, hno, ?_, ?_, ?_, ?_⟩
  · change Blocks _ st.owned
    rw [howned]
    exact ⟨by simp, by simp, by simp, List.Pairwise.nil⟩
  · change st.owned.Perm _
    rw [howned]
    exact List.Perm.refl _
  · intro s hs
    change s ∈ st.owned at hs
    simp [howned] at hs
  all_goals simp

/-- **A new cache** writes the block of its slab. -/
theorem kslabCacheCreate_frame {objsize alignment flags : ℕ} {blk : Option ℕ} {c : Ctx} (hno : NoSlabs st)
    (howned : st.owned = []) (hobj : 8 ≤ objsize) (ha : alignment < 2 ^ 64)
    (hc : chooseGeometry objsize alignment = some c)
    (hb : Fresh (setGeometry st c objsize alignment flags) blk) {ret : ℤ} {st' : State}
    (hrun : kslabCacheCreate st objsize alignment flags blk = some (ret, st'))
    (hxb : ∀ b ∈ blk, x < b ∨ b + 2 ^ (12 + c.order) ≤ x) :
    st'.mem (Loc.addr x) = st.mem (Loc.addr x) := by
  have hstart : kslabCacheCreate st objsize alignment flags blk =
      if c.waste = noWaste then some (1, st)
      else (kslabNewSlab (setGeometry st c objsize alignment flags) blk).bind fun r =>
        if r.1 = kpageErr then some (-1, r.2) else some (0, r.2) := by
    rw [kslabCacheCreate, hc]
    rfl
  rw [hstart] at hrun
  by_cases hw : c.waste = noWaste
  · rw [if_pos hw] at hrun
    obtain rfl := (Prod.mk.inj (Option.some_inj.1 hrun)).2
    rfl
  rw [if_neg hw] at hrun
  obtain ⟨⟨s, st₁⟩, hslab, hret⟩ := Option.bind_eq_some_iff.1 hrun
  have hst' : st' = st₁ := by
    dsimp only at hret
    split_ifs at hret
    · exact (Prod.mk.inj (Option.some_inj.1 hret)).2.symm
    · exact (Prod.mk.inj (Option.some_inj.1 hret)).2.symm
  rw [hst']
  cases blk with
  | none =>
      rw [kslabNewSlab_none] at hslab
      obtain rfl := (Prod.mk.inj (Option.some_inj.1 hslab)).2
      rfl
  | some b =>
      have hinv := Inv.ofNoSlabs flags hno howned hobj ha hc hw
      refine kslabNewSlab_frame hinv hb hslab (fun t ht => ?_) (hxb b rfl)
      change t ∈ st.owned at ht
      rw [howned] at ht
      exact absurd ht List.not_mem_nil

/-! ### Freeing -/

/-- Putting an object back writes the header of its slab and the first word of the object. -/
theorem putObject_frame {t o : ℕ} (hne : x ≠ o) (hf : Loc.addr x ≠ freelistOf t)
    (hc : Loc.addr x ≠ freeCountOf t) : (putObject st t o).mem (Loc.addr x) = st.mem (Loc.addr x) :=
  (store_frame hc _).trans ((store_frame hf _).trans
    (store_frame (fun he => hne (Loc.addr.inj he)) _))

/-- **A free** writes headers and the first word of the object. -/
theorem kslabFree_frame (h : Inv st sh) {t o : ℕ} (ht : t ∈ st.owned)
    (ho : o ∈ slotsOf st.cache.layout t) (hno : o ∉ sh.free t) {junk : ℕ → ℕ} {st' : State}
    (hrun : kslabFree st o junk = some st') (hx : OffHeaders st.owned x) (hne : x ≠ o) :
    st'.mem (Loc.addr x) = st.mem (Loc.addr x) := by
  obtain ⟨mem₁, hput, hslab, hlists, hbody⟩ := putObject_spec h ht ho hno
  have hput₁ : mem₁ (Loc.addr x) = st.mem (Loc.addr x) := by
    have hframe : (putObject st t o).mem (Loc.addr x) = st.mem (Loc.addr x) :=
      putObject_frame hne (hx.ne_addr ht (by decide : 32 < 48)) (hx.ne_addr ht (by decide : 40 < 48))
    rwa [hput] at hframe
  rw [kslabFree_eq h ht ho junk, hput] at hrun
  dsimp only at hrun
  have hmem := h.mem_owned.1 ht
  rw [Shape.slabs, List.mem_append, List.mem_append] at hmem
  rcases hmem.resolve_right (h.notMem_empty ht ho hno) with htf | htp
  · rw [if_pos ((h.slab t ht).count.trans (h.full t htf))] at hrun
    obtain ⟨l₁, l₂, hl⟩ := List.append_of_mem htf
    have hstart := hlists.full
    rw [hl] at hstart
    refine (h.relink_frame l₁ (Or.inl rfl) (Or.inr (Or.inl rfl)) (Or.inr (Or.inr rfl)) (by decide)
      (by decide) (by decide) hstart hlists.part hlists.empty (List.perm_iff_count.2 fun a => ?_) hrun
      hx).trans hput₁
    simp only [Shape.slabs, hl, List.count_append]
    omega
  obtain ⟨hpos, hlt⟩ := h.part t htp
  have hcount : mem₁ (freeCountOf t) = (sh.free t).length + 1 := hslab.count
  rw [if_neg (by rw [(h.slab t ht).count]; omega)] at hrun
  by_cases hlast : mem₁ (freeCountOf t) = st.cache.slabObjsPer
  · rw [if_pos hlast] at hrun
    obtain ⟨l₁, l₂, hl⟩ := List.append_of_mem htp
    have hstart := hlists.part
    rw [hl] at hstart
    obtain ⟨mem₂, sh', hrelink, hinv, hempty, -⟩ :=
      h.free_last htp (hcount.symm.trans hlast) hslab hlists hbody
    have hmem₂ : mem₂ (Loc.addr x) = st.mem (Loc.addr x) := by
      refine (h.relink_frame l₁ (Or.inr (Or.inl rfl)) (Or.inr (Or.inr rfl)) (Or.inl rfl) (by decide)
        (by decide) (by decide) hstart hlists.empty hlists.full (List.perm_iff_count.2 fun a => ?_)
        hrelink hx).trans hput₁
      simp only [Shape.slabs, hl, List.count_append]
      omega
    rw [hrelink, Option.bind_some] at hrun
    split_ifs at hrun with hmax
    · -- the first of the empty slabs goes back
      obtain ⟨f, e, hfe⟩ := List.exists_cons_of_ne_nil (l := sh'.empty) (by rw [hempty]; simp)
      have hinv₅ := hinv.inc.inc
      have hchain := hinv₅.lists.empty
      rw [hfe] at hchain
      have hnd := hinv₅.nodup_slabs
      have hlen := hinv₅.length_slabs_lt
      rw [Shape.slabs, hfe] at hnd hlen
      obtain ⟨hrem, -⟩ := kslabRemoveNode_spec junk (Or.inr (Or.inr rfl)) hchain
        (List.nodup_append.1 hnd).2.1 (by rw [List.length_append] at hlen; omega)
      have hf : f ∈ st.owned := hinv.mem_owned.2 (by simp [Shape.slabs, hfe])
      rw [hchain.1, hrem, Option.bind_some] at hrun
      obtain rfl := Option.some_inj.1 hrun
      refine (Function.update_of_ne (hx.ne_addr hf (by decide : 16 < 48)) _ _).trans
        ((Function.update_of_ne (hx.ne_addr hf (by decide : 0 < 48)) _ _).trans
          ((store_frame (by simp) _).trans hmem₂))
    · obtain rfl := Option.some_inj.1 hrun
      exact hmem₂
  · rw [if_neg hlast] at hrun
    obtain rfl := Option.some_inj.1 hrun
    exact hput₁

end Writes

/-! ### Cache and clients -/

namespace Ok

variable {s : Sys} {sh : Shape}

/-- **The invariant depends on the words of the blocks of the cache only.** -/
theorem words (h : Ok s sh) {mem : Loc → ℕ} (hhead : ∀ l, IsHead l → mem l = s.st.mem l)
    (hwords : ∀ t ∈ s.st.owned, ∀ x, t ≤ x → x < t + 2 ^ (12 + s.st.cache.order) →
      mem (Loc.addr x) = s.st.mem (Loc.addr x)) :
    Ok ⟨{ s.st with mem := mem }, s.live, s.created⟩ sh := by
  have g := h.inv.geom
  have hfit := g.fits
  have hres := g.reserved_ge
  change _ ≤ 2 ^ (12 + s.st.cache.order) at hfit
  refine ⟨⟨g, h.inv.blocks, h.inv.perm, h.inv.lists.congr hhead fun t ht => ?_, fun t ht => ?_,
    h.inv.full, h.inv.part, h.inv.empty⟩, h.nodup, h.live⟩
  · exact hwords t (h.inv.mem_owned.2 ht) _ (by omega) (by omega)
  · refine (h.inv.slab t ht).congr fun l hl => ?_
    obtain ⟨a, rfl, h₁, h₂⟩ := hl.exists_addr g
    exact hwords t ht a (by omega) h₂

/-- An object in use lies behind the header of its slab. -/
theorem object_bounds (h : Ok s sh) {o : ℕ} (ho : o ∈ s.live) :
    ∃ t ∈ s.st.owned, t + slabHdrSz ≤ o ∧
      o + s.st.cache.objSize ≤ t + 2 ^ (12 + s.st.cache.order) := by
  obtain ⟨t, ht, hslot, -⟩ := h.live o ho
  exact ⟨t, ht, h.inv.geom.slot_bounds hslot⟩

/-- Two objects in use do not overlap. -/
theorem object_apart (h : Ok s sh) {o o' : ℕ} (ho : o ∈ s.live) (ho' : o' ∈ s.live) (hne : o ≠ o') :
    o + s.st.cache.objSize ≤ o' ∨ o' + s.st.cache.objSize ≤ o := by
  obtain ⟨t, ht, hslot, -⟩ := h.live o ho
  obtain ⟨t', ht', hslot', -⟩ := h.live o' ho'
  by_cases htt : t = t'
  · subst htt
    exact Geom.slot_apart hslot hslot' hne
  · have hb := h.inv.geom.slot_bounds hslot
    have hb' := h.inv.geom.slot_bounds hslot'
    change _ ∧ o + s.st.cache.objSize ≤ _ at hb
    change _ ∧ o' + s.st.cache.objSize ≤ _ at hb'
    rcases h.inv.blocks.apart_of_ne ht ht' htt with hap | hap <;> omega

/-- An object in use lies off the headers. -/
theorem offHeaders (h : Ok s sh) {o x : ℕ} (ho : o ∈ s.live) (h₁ : o ≤ x)
    (h₂ : x < o + s.st.cache.objSize) : OffHeaders s.st.owned x := by
  intro t ht
  obtain ⟨u, hu, hlo, hhi⟩ := h.object_bounds ho
  by_cases htu : t = u
  · subst htu
    exact Or.inr (hlo.trans h₁)
  · have hap := h.inv.blocks.apart_of_ne ht hu htu
    change t + 2 ^ (12 + s.st.cache.order) ≤ u ∨ u + 2 ^ (12 + s.st.cache.order) ≤ t at hap
    have hfit := h.inv.geom.fits
    have hres := h.inv.geom.reserved_ge
    change _ ≤ 2 ^ (12 + s.st.cache.order) at hfit
    unfold slabHdrSz at hlo ⊢
    rcases hap with hap | hap <;> omega

/-- The slots of a slab without free slots, or with free slots only. -/
theorem slots_free (h : Ok s sh) {t : ℕ} (ht : t ∈ sh.empty) : (sh.free t).Perm (slotsOf s.st.cache.layout t) := by
  have hok := h.inv.slab t (h.inv.mem_owned.2 (by simp [Shape.slabs, ht]))
  refine (hok.nodup.subperm hok.slots).perm_of_length_le ?_
  rw [length_slotsOf, h.inv.empty t ht]
  exact le_rfl

end Ok

/-- **The invariant without a leak**: every slot of a slab is free or in use. -/
structure Tight (s : Sys) (sh : Shape) : Prop extends Ok s sh where
  tight : ∀ t ∈ s.st.owned, ∀ o ∈ slotsOf s.st.cache.layout t, o ∈ sh.free t ∨ o ∈ s.live

namespace Tight

variable {s : Sys} {sh : Shape}

/-- **The invariant depends on the words of the blocks of the cache only.** -/
theorem words (h : Tight s sh) {mem : Loc → ℕ} (hhead : ∀ l, IsHead l → mem l = s.st.mem l)
    (hwords : ∀ t ∈ s.st.owned, ∀ x, t ≤ x → x < t + 2 ^ (12 + s.st.cache.order) →
      mem (Loc.addr x) = s.st.mem (Loc.addr x)) :
    Tight ⟨{ s.st with mem := mem }, s.live, s.created⟩ sh := ⟨h.toOk.words hhead hwords, h.tight⟩

/-- A cache with one slab, all of whose slots are free. -/
theorem ofInv {st : State} {created : Option ℤ} (h : Inv st sh) (hf : sh.full = []) (hp : sh.part = []) :
    Tight ⟨st, [], created⟩ sh := by
  have hok : Ok ⟨st, [], created⟩ sh := ⟨h, List.nodup_nil, fun o ho => absurd ho List.not_mem_nil⟩
  refine ⟨hok, fun t ht o ho => Or.inl ?_⟩
  have hmem := h.mem_owned.1 ht
  rw [Shape.slabs, hf, hp] at hmem
  exact (hok.slots_free hmem).mem_iff.2 ho

/-- **Taking a slot** off the free list of a slab, which may be a new one. -/
theorem take (h : Tight s sh) {st₁ st' : State} {sh₁ sh' : Shape} {t o : ℕ} {fl : List ℕ} (h₁ : Inv st₁ sh₁)
    (hlay₁ : st₁.cache.layout = s.st.cache.layout) (hown : ∀ u ∈ s.st.owned, u ∈ st₁.owned)
    (hold : ∀ u ∈ s.st.owned, sh₁.free u = sh.free u)
    (hnew : ∀ u ∈ st₁.owned, u ∉ s.st.owned → sh₁.free u = slotsOf s.st.cache.layout u)
    (ht : t ∈ st₁.owned) (hfl : sh₁.free t = o :: fl) (hinv : Inv st' sh')
    (hlay : st'.cache.layout = s.st.cache.layout) (hown' : st'.owned = st₁.owned)
    (hfree : sh'.free = Function.update sh₁.free t fl) : Tight ⟨st', o :: s.live, s.created⟩ sh' := by
  have htk : Taken s.st.cache.layout st'.owned sh₁.free sh'.free o := by
    rw [hfree, hown', ← hlay₁]
    exact Taken.of_update h₁ ht hfl
  have hblocks : Blocks s.st.cache.layout st'.owned := hlay ▸ hinv.blocks
  refine ⟨h.toOk.take hinv hlay (fun u hu => hown' ▸ hown u hu) hold htk
    (Ok.taken_mem hblocks h.inv.geom htk), fun u hu a ha => ?_⟩
  change u ∈ st'.owned at hu
  change a ∈ slotsOf st'.cache.layout u at ha
  change a ∈ sh'.free u ∨ a ∈ o :: s.live
  rw [hlay] at ha
  rw [hown'] at hu
  have hcases : a ∈ sh₁.free u ∨ a ∈ s.live := by
    by_cases huo : u ∈ s.st.owned
    · rw [hold u huo]
      exact h.tight u huo a ha
    · rw [hnew u hu huo]
      exact Or.inl ha
  rcases hcases with hfr | hlive
  · rw [hfree]
    by_cases hut : u = t
    · subst hut
      rw [hfl] at hfr
      rw [Function.update_self]
      rcases List.mem_cons.1 hfr with rfl | hfr
      · exact Or.inr List.mem_cons_self
      · exact Or.inl hfr
    · rw [Function.update_of_ne hut]
      exact Or.inl hfr
  · exact Or.inr (List.mem_cons_of_mem _ hlive)

/-- **Allocating from the slabs that there are**, or no slab has a free slot. -/
theorem alloc_old (h : Tight s sh) :
    (∃ o st' sh', firstAlloc [kslabPartialAlloc, kslabEmptyAlloc] s.st = some (o, st') ∧
      o ≠ kpageErr ∧ Tight ⟨st', o :: s.live, s.created⟩ sh' ∧ st'.owned = s.st.owned ∧
      st'.cache.layout = s.st.cache.layout ∧
      ∀ x, OffHeaders s.st.owned x → st'.mem (Loc.addr x) = s.st.mem (Loc.addr x)) ∨
    (sh.part = [] ∧ sh.empty = [] ∧
      firstAlloc [kslabPartialAlloc, kslabEmptyAlloc] s.st = some (kpageErr, s.st)) := by
  have hi := h.inv
  have hsame : ∀ u ∈ s.st.owned, u ∉ s.st.owned → sh.free u = slotsOf s.st.cache.layout u :=
    fun u hu hno => absurd hu hno
  by_cases hp : sh.part = []
  · by_cases he : sh.empty = []
    · exact Or.inr ⟨hp, he, (kslabAlloc_full hi hp he none).1⟩
    · obtain ⟨t, e, he⟩ := List.exists_cons_of_ne_nil he
      obtain ⟨o, fl, mem', sh', hfl, hrun, hinv, hfree, -⟩ := kslabEmptyAlloc_spec hi he
      have ht : t ∈ s.st.owned := hi.mem_owned.2 (by simp [Shape.slabs, he])
      have hne := (Taken.of_update hi ht hfl).ne_kpageErr hi
      refine Or.inl ⟨o, _, sh', ?_, hne, h.take hi rfl (fun _ hu => hu) (fun _ _ => rfl) hsame ht hfl
        hinv.dec rfl rfl hfree, rfl, rfl, fun x hx => kslabEmptyAlloc_frame hi hrun hx⟩
      rw [firstAlloc_failed (kslabPartialAlloc_failed hi hp), firstAlloc_taken hrun hne]
  · obtain ⟨t, p, hp⟩ := List.exists_cons_of_ne_nil hp
    obtain ⟨o, fl, mem', sh', hfl, hrun, hinv, hfree, -⟩ := kslabPartialAlloc_spec hi hp
    have ht : t ∈ s.st.owned := hi.mem_owned.2 (by simp [Shape.slabs, hp])
    have hne := (Taken.of_update hi ht hfl).ne_kpageErr hi
    exact Or.inl ⟨o, _, sh', firstAlloc_taken hrun hne _, hne, h.take hi rfl (fun _ hu => hu)
      (fun _ _ => rfl) hsame ht hfl hinv rfl rfl hfree, rfl, rfl,
      fun x hx => kslabPartialAlloc_frame hi hrun hx⟩

/-- **Allocating from a new slab.** -/
theorem alloc_new (h : Tight s sh) (hp : sh.part = []) (he : sh.empty = []) {b : ℕ}
    (hb : Fresh s.st (some b)) :
    ∃ o st' sh', kslabNewAlloc (some b) s.st = some (o, st') ∧ o ≠ kpageErr ∧
      Tight ⟨st', o :: s.live, s.created⟩ sh' ∧ st'.owned = b :: s.st.owned ∧
      st'.cache.layout = s.st.cache.layout ∧
      ∀ x, OffHeaders s.st.owned x → (x < b ∨ b + 2 ^ (12 + s.st.cache.order) ≤ x) →
        st'.mem (Loc.addr x) = s.st.mem (Loc.addr x) := by
  have hi := h.inv
  obtain ⟨mem₁, hslab, hinv₁⟩ := kslabNewSlab_spec hi hb
  obtain ⟨o, fl, mem', sh', hfl, hrun, hinv, hfree, -⟩ :=
    kslabEmptyAlloc_spec hinv₁ (t := b) (e := []) (by simp [he])
  have hne := (Taken.of_update hinv₁ List.mem_cons_self hfl).ne_kpageErr hinv₁
  have hnew : kslabNewAlloc (some b) s.st = some (o, decEmptySlabs { s.st with
      mem := mem', owned := b :: s.st.owned }) := by
    rw [kslabNewAlloc, hslab, Option.bind_eq_bind, Option.bind_some]
    exact (if_neg hb.ne_kpageErr).trans hrun
  refine ⟨o, _, sh', hnew, hne, h.take hinv₁ rfl (fun _ hu => List.mem_cons_of_mem _ hu) (fun u hu => ?_)
    (fun u hu hno => ?_) List.mem_cons_self hfl hinv.dec rfl rfl hfree, rfl, rfl, fun x hx hxb => ?_⟩
  · exact Function.update_of_ne (fun heq : u = b => hb.notMem (heq ▸ hu)) _ _
  · obtain rfl := (List.mem_cons.1 hu).resolve_right hno
    exact Function.update_self ..
  · refine kslabAlloc_frame hi hb ((kslabAlloc_full hi hp he (some b)).2.trans hnew) hx fun b' hb' => ?_
    obtain rfl := Option.some_inj.1 hb'
    exact hxb

/-- **Freeing an object**: the cache keeps its slabs, or gives one back. -/
theorem free_old (h : Tight s sh) {o : ℕ} (ho : o ∈ s.live) (junk : ℕ → ℕ) :
    ∃ st' sh', kslabFree s.st o junk = some st' ∧ Tight ⟨st', s.live.erase o, s.created⟩ sh' ∧
      st'.cache.layout = s.st.cache.layout ∧
      (∀ x, OffHeaders s.st.owned x → x ≠ o → st'.mem (Loc.addr x) = s.st.mem (Loc.addr x)) ∧
      ((st'.owned = s.st.owned ∧ st'.freed = s.st.freed) ∨
        ∃ f ∈ s.st.owned, st'.owned = s.st.owned.erase f ∧
          st'.freed = s.st.freed ++ [(f, s.st.cache.order)]) := by
  have hi := h.inv
  obtain ⟨t, s', sh', ht, hslot, hstep, hok, -, -⟩ := h.free ho junk
  obtain ⟨t', ht', hslot', hnf⟩ := h.live o ho
  obtain rfl := hi.blocks.slot_unique hi.geom ht ht' hslot hslot'
  obtain ⟨st', hrun, rfl⟩ := Option.map_eq_some_iff.1 (show _ = some s' from hstep)
  -- the free lists are in memory, so they are those of the specification
  have hsame : st'.cache.layout = s.st.cache.layout ∧
      (∀ u ∈ st'.owned, sh'.free u = Function.update sh.free t (o :: sh.free t) u) ∧
      ((st'.owned = s.st.owned ∧ st'.freed = s.st.freed) ∨
        ∃ f ∈ s.st.owned, st'.owned = s.st.owned.erase f ∧
          st'.freed = s.st.freed ++ [(f, s.st.cache.order)]) := by
    rcases kslabFree_cases hi ht hslot hnf junk with ⟨m, sh₁, -, hrun₁, hinv, -, hfree⟩ |
      ⟨m, sh₁, -, hinv, -, hfree, ⟨-, hrun₁⟩ | ⟨f, e, m₁, -, hfe, hrun₁, hinv₁⟩⟩
    all_goals
      obtain rfl := Option.some_inj.1 (hrun.symm.trans hrun₁)
      rw [← hfree]
    · exact ⟨rfl, fun u hu => (hok.inv.slab u hu).chain.unique (hinv.slab u hu).chain, Or.inl ⟨rfl, rfl⟩⟩
    · exact ⟨rfl, fun u hu => (hok.inv.slab u hu).chain.unique (hinv.slab u hu).chain, Or.inl ⟨rfl, rfl⟩⟩
    · exact ⟨rfl, fun u hu => (hok.inv.slab u hu).chain.unique (hinv₁.slab u hu).chain,
        Or.inr ⟨f, hinv.mem_owned.2 (by simp [Shape.slabs, hfe]), rfl, rfl⟩⟩
  obtain ⟨hlay, hfree, hown⟩ := hsame
  refine ⟨st', sh', hrun, ⟨hok, fun u hu a ha => ?_⟩, hlay,
    fun x hx hne => kslabFree_frame hi ht hslot hnf hrun hx hne, hown⟩
  change u ∈ st'.owned at hu
  change a ∈ slotsOf st'.cache.layout u at ha
  change a ∈ sh'.free u ∨ a ∈ s.live.erase o
  have huo : u ∈ s.st.owned := by
    rcases hown with ⟨heq, -⟩ | ⟨f, -, heq, -⟩
    · exact heq ▸ hu
    · rw [heq] at hu
      exact List.mem_of_mem_erase hu
  rw [hlay] at ha
  rw [hfree u hu]
  by_cases hao : a = o
  · subst hao
    obtain rfl := hi.blocks.slot_unique hi.geom huo ht ha hslot
    rw [Function.update_self]
    exact Or.inl List.mem_cons_self
  · rcases h.tight u huo a ha with hfr | hlive
    · by_cases hut : u = t
      · subst hut
        rw [Function.update_self]
        exact Or.inl (List.mem_cons_of_mem _ hfr)
      · rw [Function.update_of_ne hut]
        exact Or.inl hfr
    · exact Or.inr ((List.mem_erase_of_ne hao).2 hlive)

end Tight

end Slab

end SyncKernel
