/-
**The lifetime of a cache.**

`kslab_cache_destroy` gives each slab back once, by a loop that re-aims its pointer at the link
field of the slab before it gives the slab back.  The heads of the lists are never cleared, so a
destroyed cache still reaches the slabs it had.  This module shows both: what destruction gives
back, and that a run is safe exactly when every cache it destroys has no slabs left.

Main definitions:

* `Slab.LifetimeOk` — the property of a step: destruction gives back every slab once, the lists
  reach only slabs that the cache owns, and an allocated object lies in such a slab;
* `Slab.DestroyedEmpty` — the condition under which the code meets it.

Main results:

* `Slab.Ok.destroy` — what `kslab_cache_destroy` does to a well-formed cache;
* `Slab.lifetime_iff` — **a run is safe exactly when it destroys only caches without slabs**.
-/

import SyncKernel.Slab.Counter

set_option relaxedAutoImplicit false
set_option autoImplicit false

namespace SyncKernel

namespace Slab

/-- The runs in question: a cache is created when it is not in use, and serves allocations when
its creation succeeded. -/
def LifetimeRun (s : Sys) : Op → Prop
  | Op.create objsize alignment flags blk =>
      s.created ≠ some 0 ∧ Promised s (Op.create objsize alignment flags blk)
  | Op.alloc blk => s.created = some 0 ∧ Promised s (Op.alloc blk)
  | o => Promised s o

instance (s : Sys) : ∀ o, Decidable (LifetimeRun s o)
  | Op.create .. => inferInstanceAs (Decidable (_ ∧ _))
  | Op.destroy _ => isTrue trivial
  | Op.alloc _ => inferInstanceAs (Decidable (_ ∧ _))
  | Op.free obj junk => inferInstanceAs (Decidable (Promised s (Op.free obj junk)))
  | Op.write a v => inferInstanceAs (Decidable (Promised s (Op.write a v)))

/-- What is asked of a step: `kslab_cache_destroy` calls `kbud_free` once for every block that the
cache owns, the lists of the cache reach only blocks that it owns, and an object that is handed out
lies in one of them. -/
structure LifetimeOk (s : Sys) (o : Op) (s' : Sys) : Prop where
  once : ∀ junk, o = Op.destroy junk →
    ∃ gone, s'.st.freed = s.st.freed ++ gone ∧ (gone.map Prod.fst).Perm s.st.owned
  reach : ∀ p a, IsHead p → Reaches nextOf 0 s'.st.mem p a → a ∈ s'.st.owned
  inside : ∀ blk a, o = Op.alloc blk → s'.live = a :: s.live →
    ∃ t ∈ s'.st.owned, t ≤ a ∧
      a + s'.st.cache.objSize ≤ t + buddyOrderToVal s'.st.cache.order

/-- The condition: a cache that is destroyed has no slabs. -/
def DestroyedEmpty (s : Sys) : Op → Prop
  | Op.destroy _ =>
      s.st.mem Loc.listFull = 0 ∧ s.st.mem Loc.listPartial = 0 ∧ s.st.mem Loc.listEmpty = 0
  | _ => True

instance (s : Sys) : ∀ o, Decidable (DestroyedEmpty s o)
  | Op.destroy _ => inferInstanceAs (Decidable (_ ∧ _ ∧ _))
  | Op.create .. => isTrue trivial
  | Op.alloc _ => isTrue trivial
  | Op.free _ _ => isTrue trivial
  | Op.write _ _ => isTrue trivial

/-- A cache that serves allocations is well formed, and any other has no slabs. -/
def LifetimeInv (s : Sys) : Prop :=
  (s.created = some 0 ∧ ∃ sh, Ok s sh) ∨
    (s.created ≠ some 0 ∧ NoSlabs s.st ∧ s.st.owned = [] ∧ s.live = [])

/-! ### Steps -/

/-- The lists of a well-formed cache reach its own blocks only. -/
theorem Ok.reach {s : Sys} {sh : Shape} (h : Ok s sh) {p : Loc} {a : ℕ} (hp : IsHead p)
    (hr : Reaches nextOf 0 s.st.mem p a) : a ∈ s.st.owned := by
  refine h.inv.mem_owned.2 ?_
  rcases hp with rfl | rfl | rfl
  · simp [Shape.slabs, h.inv.lists.full.reaches_iff.1 hr]
  · simp [Shape.slabs, h.inv.lists.part.reaches_iff.1 hr]
  · simp [Shape.slabs, h.inv.lists.empty.reaches_iff.1 hr]

theorem NoSlabs.not_reaches {st : State} (h : NoSlabs st) {p : Loc} {a : ℕ} (hp : IsHead p) :
    ¬ Reaches nextOf 0 st.mem p a := by
  intro hr
  rcases hp with rfl | rfl | rfl
  · simpa using h.full.reaches_iff.1 hr
  · simpa using h.part.reaches_iff.1 hr
  · simpa using h.empty.reaches_iff.1 hr

/-- **Destroying a well-formed cache** gives back every slab once, and leaves the heads of the
lists as they are. -/
theorem Ok.destroy {s : Sys} {sh : Shape} (h : Ok s sh) (junk : ℕ → ℕ) :
    ∃ s', step s (Op.destroy junk) = some s' ∧
      s'.st.freed = s.st.freed ++ sh.slabs.map (fun b => (b, s.st.cache.order)) ∧
      s'.st.owned = [] ∧ s'.live = [] ∧ s'.created = none ∧
      ∀ p, IsHead p → s'.st.mem p = s.st.mem p := by
  obtain ⟨mem', hrun, hhead, -⟩ := kslabCacheDestroy_spec junk h.inv.lists
    (fun p hp => JunkApart.of_blocks h.inv.geom h.inv.blocks (fun b hb => h.inv.mem_owned.2 hb) hp)
    h.inv.length_slabs_lt
  refine ⟨_, by rw [step, hrun, Option.map_some], rfl, ?_, rfl, rfl, hhead⟩
  refine List.eq_nil_iff_forall_not_mem.2 fun b hb => ?_
  change b ∈ ((s.st.owned.diff sh.full).diff sh.part).diff sh.empty at hb
  rw [← List.diff_append, ← List.diff_append, ← List.append_assoc,
    h.inv.blocks.nodup.mem_sdiff_iff] at hb
  exact hb.2 (h.inv.mem_owned.1 hb.1)

/-- Destroying a cache without slabs. -/
theorem NoSlabs.destroy {s : Sys} (h : NoSlabs s.st) (junk : ℕ → ℕ) :
    ∃ s', step s (Op.destroy junk) = some s' ∧ NoSlabs s'.st ∧ s'.st.freed = s.st.freed ∧
      s'.st.owned = s.st.owned ∧ s'.live = [] ∧ s'.created = none := by
  obtain ⟨mem', hrun, hhead, -⟩ := kslabCacheDestroy_spec junk h (fun p _ s hs => by simp at hs)
    (by simp [addrSpace])
  refine ⟨_, congrArg (Option.map fun st => (⟨st, [], none⟩ : Sys)) hrun, ?_, ?_, rfl, rfl, rfl⟩
  · exact ListsOk.congr h hhead (by simp)
  · simp

theorem LifetimeInv.noSlabs {s : Sys} (h : LifetimeInv s)
    (hc : s.st.mem Loc.listFull = 0 ∧ s.st.mem Loc.listPartial = 0 ∧ s.st.mem Loc.listEmpty = 0) :
    NoSlabs s.st ∧ s.st.owned = [] := by
  rcases h with ⟨-, sh, hok⟩ | ⟨-, hno, howned, -⟩
  · have hf := hok.inv.lists.full.null_iff.1 hc.1
    have hp := hok.inv.lists.part.null_iff.1 hc.2.1
    have he := hok.inv.lists.empty.null_iff.1 hc.2.2
    have hperm := hok.inv.perm
    rw [Shape.slabs, hf, hp, he] at hperm
    exact ⟨⟨hc.1, hc.2.1, hc.2.2⟩, hperm.eq_nil⟩
  · exact ⟨hno, howned⟩

/-- A step that meets the condition is safe. -/
theorem LifetimeInv.good {s : Sys} (h : LifetimeInv s) {o : Op} (ho : LifetimeRun s o)
    (hc : DestroyedEmpty s o) : ∃ s', step s o = some s' ∧ LifetimeOk s o s' ∧ LifetimeInv s' := by
  cases o with
  | create objsize alignment flags blk =>
      obtain ⟨hcr, hprom⟩ := ho
      obtain ⟨c, hgeom, hobj, ha, hb⟩ := hprom.geometry
      obtain ⟨hno, howned, hlive⟩ : NoSlabs s.st ∧ s.st.owned = [] ∧ s.live = [] := by
        rcases h with ⟨h0, -⟩ | ⟨-, h⟩
        · exact absurd h0 hcr
        · exact h
      rcases kslabCacheCreate_cases hno howned hobj ha hgeom hb with ⟨-, hrun⟩ | ⟨-, -, hrun⟩ |
        ⟨b, st', sh, -, -, hrun, hinv, -⟩
      · exact ⟨⟨s.st, s.live, some 1⟩, by rw [step, hrun, Option.map_some],
          ⟨fun _ he => (by cases he), fun p a hp hr => absurd hr (hno.not_reaches hp),
            fun _ _ he => by cases he⟩, Or.inr ⟨by simp, hno, howned, hlive⟩⟩
      · have hno' : NoSlabs (setGeometry s.st c objsize alignment flags) := hno
        exact ⟨⟨setGeometry s.st c objsize alignment flags, s.live, some (-1)⟩,
          by rw [step, hrun, Option.map_some],
          ⟨fun _ he => (by cases he), fun p a hp hr => absurd hr (hno'.not_reaches hp),
            fun _ _ he => by cases he⟩, Or.inr ⟨by simp, hno', howned, hlive⟩⟩
      · have hok : Ok ⟨st', s.live, some 0⟩ sh := ⟨hinv, by simp [hlive], by simp [hlive]⟩
        exact ⟨⟨st', s.live, some 0⟩, by rw [step, hrun, Option.map_some],
          ⟨fun _ he => (by cases he), fun p a hp hr => hok.reach hp hr,
            fun _ _ he => by cases he⟩, Or.inl ⟨rfl, sh, hok⟩⟩
  | alloc blk =>
      obtain ⟨hcr, hprom⟩ := ho
      obtain ⟨sh, hok⟩ : ∃ sh, Ok s sh := by
        rcases h with ⟨-, h⟩ | ⟨hne, -⟩
        · exact h
        · exact absurd hcr hne
      obtain ⟨s', sh', hrun, hok', hcr', -⟩ := hok.alloc blk hprom
      refine ⟨s', hrun, ⟨fun _ he => (by cases he), fun p a hp hr => hok'.reach hp hr, ?_⟩,
        Or.inl ⟨hcr'.trans hcr, sh', hok'⟩⟩
      intro _ a _ hlive
      obtain ⟨t, ht, hslot, -⟩ := hok'.live a (by rw [hlive]; simp)
      have hb := hok'.inv.geom.slot_bounds hslot
      have hsize : buddyOrderToVal s'.st.cache.order = 2 ^ (12 + s'.st.cache.layout.order) :=
        hok'.inv.geom.buddyOrderToVal_eq
      change t + 48 ≤ a ∧ a + s'.st.cache.objSize ≤ t + 2 ^ (12 + s'.st.cache.layout.order) at hb
      exact ⟨t, ht, by omega, by rw [hsize]; exact hb.2⟩
  | free obj junk =>
      rcases h with ⟨hcr, sh, hok⟩ | ⟨-, -, -, hlive⟩
      · obtain ⟨t, s', sh', -, -, hrun, hok', hcr', -⟩ := hok.free ho junk
        exact ⟨s', hrun, ⟨fun _ he => (by cases he), fun p a hp hr => hok'.reach hp hr,
          fun _ _ he => by cases he⟩, Or.inl ⟨hcr'.trans hcr, sh', hok'⟩⟩
      · have hmem : obj ∈ s.live := ho
        simp [hlive] at hmem
  | write a v =>
      refine ⟨_, rfl, ?_⟩
      rcases h with ⟨hcr, sh, hok⟩ | ⟨hcr, hno, howned, hlive⟩
      · have hok' := hok.write (v := v) ho
        exact ⟨⟨fun _ he => (by cases he), fun p b hp hr => hok'.reach hp hr,
          fun _ _ he => by cases he⟩, Or.inl ⟨hcr, sh, hok'⟩⟩
      · have hno' : NoSlabs (s.st.store (Loc.addr a) v) :=
          ListsOk.congr hno (fun l hl => Function.update_of_ne
            (by rcases hl with rfl | rfl | rfl <;> simp) _ _) (by simp)
        exact ⟨⟨fun _ he => (by cases he), fun p b hp hr => absurd hr (hno'.not_reaches hp),
          fun _ _ he => by cases he⟩, Or.inr ⟨hcr, hno', howned, hlive⟩⟩
  | destroy junk =>
      obtain ⟨hno, howned⟩ := h.noSlabs hc
      obtain ⟨s', hrun, hno', hfreed, howned', hlive, hcr⟩ := hno.destroy junk
      exact ⟨s', hrun, ⟨fun _ _ => ⟨[], by simpa using hfreed, by rw [howned]; exact List.Perm.nil⟩,
          fun p a hp hr => absurd hr (hno'.not_reaches hp), fun _ _ he => by cases he⟩,
        Or.inr ⟨by simp [hcr], hno', howned'.trans howned, hlive⟩⟩

/-- A cache that is destroyed with slabs still reaches them. -/
theorem LifetimeInv.bad {s s' : Sys} (h : LifetimeInv s) {o : Op} (hc : ¬ DestroyedEmpty s o)
    (hrun : step s o = some s') : ¬ LifetimeOk s o s' := by
  rintro ⟨-, hreach, -⟩
  cases o with
  | destroy junk =>
      rcases h with ⟨-, sh, hok⟩ | ⟨-, hno, -, -⟩
      · obtain ⟨s₁, hrun₁, -, howned, -, -, hhead⟩ := hok.destroy junk
        obtain rfl := Option.some_inj.1 (hrun₁.symm.trans hrun)
        obtain ⟨p, hp, hne⟩ : ∃ p, IsHead p ∧ s.st.mem p ≠ 0 := by
          by_contra hall
          push Not at hall
          exact hc ⟨hall _ (Or.inl rfl), hall _ (Or.inr (Or.inl rfl)), hall _ (Or.inr (Or.inr rfl))⟩
        have hmem := hreach p _ hp (Reaches.here (by rw [hhead p hp]; exact hne))
        simp [howned] at hmem
      · exact hc ⟨hno.full, hno.part, hno.empty⟩
  | create _ _ _ _ => exact hc trivial
  | alloc _ => exact hc trivial
  | free _ _ => exact hc trivial
  | write _ _ => exact hc trivial

/-- **A run is safe exactly when it destroys only caches without slabs.** -/
theorem lifetime_iff {m : ℕ → ℕ} {os : List Op}
    (hos : Run.Along step LifetimeRun (Sys.zeroed m) os) :
    Run.Every step LifetimeOk (Sys.zeroed m) os ↔ Run.Along step DestroyedEmpty (Sys.zeroed m) os :=
  Run.every_iff_along (I := LifetimeInv) (fun _ _ h hV hC => h.good hV hC)
    (fun _ _ _ h _ hC hrun => h.bad hC hrun)
    (Or.inr ⟨by simp [Sys.zeroed], ⟨rfl, rfl, rfl⟩, rfl, rfl⟩) hos

/-- A creation that fails, a destruction and a creation that succeeds. -/
theorem lifetime_iff_trace :
    Run.Every step LifetimeOk (Sys.zeroed fun _ => 0)
      [Op.create 64 8 0 none, Op.destroy fun _ => 1, Op.create 64 8 0 (some 0x20000),
        Op.alloc none] :=
  (lifetime_iff (by decide +kernel)).2 (by decide +kernel)

/-- A cache that is destroyed and created again hands out an object of a slab that it gave back. -/
theorem lifetime_stale :
    Run.Along step LifetimeRun (Sys.zeroed fun _ => 0)
        [Op.create 64 8 0 (some 0x10000), Op.destroy fun _ => 1, Op.create 64 8 0 (some 0x20000),
          Op.alloc none] ∧
      ¬ Run.Every step LifetimeOk (Sys.zeroed fun _ => 0)
        [Op.create 64 8 0 (some 0x10000), Op.destroy fun _ => 1, Op.create 64 8 0 (some 0x20000),
          Op.alloc none] := by
  refine ⟨by decide +kernel, fun h => ?_⟩
  have hend : ((Run.exec step (Sys.zeroed fun _ => 0) [Op.create 64 8 0 (some 0x10000),
      Op.destroy fun _ => 1, Op.create 64 8 0 (some 0x20000)]).bind fun s =>
        (step s (Op.alloc none)).map fun s' => (s.live, s'.live, s'.st.owned, s'.st.freed)) =
          some ([], [0x10030], [0x20000], [(0x10000, 0)]) := by
    decide +kernel
  obtain ⟨s₁, s₂, hs₁, hs₂, hok⟩ := Run.Every.last [_, _, _] h
  rw [hs₁, Option.bind_some, hs₂, Option.map_some] at hend
  obtain ⟨hl₁, hl₂, hown, -⟩ : s₁.live = [] ∧ s₂.live = [0x10030] ∧ s₂.st.owned = [0x20000] ∧
      s₂.st.freed = [(0x10000, 0)] := by simpa using hend
  obtain ⟨t, ht, hle, -⟩ := hok.inside none 0x10030 rfl (by rw [hl₁, hl₂])
  rw [hown, List.mem_singleton] at ht
  omega

end Slab

end SyncKernel
