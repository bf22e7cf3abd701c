/-
**No object is handed out twice.**

From a cache that was created from zeroed memory, every run of allocations, frees and client writes
keeps the invariant: the lists partition the slabs as their counters say, the free lists are
duplicate-free chains of slots, and the objects in use are different slots on no free list.

Main definitions:

* `Slab.Using` — the operations of the clients of a cache;
* `Slab.Sound` — what holds of a step: the invariant after it, a failed allocation changes nothing,
  and a slab that is given back holds no object in use.

Main results:

* `Slab.Ok.sound` — **the step**;
* `Slab.kslab_run_sound` — **the run**.
-/

import SyncKernel.Slab.System

set_option relaxedAutoImplicit false
set_option autoImplicit false

namespace SyncKernel

namespace Slab

/-- The operations of the clients of a cache, as promised. -/
def Using (s : Sys) : Op → Prop
  | Op.create .. => False
  | Op.destroy _ => False
  | o => Promised s o

instance (s : Sys) : ∀ o, Decidable (Using s o)
  | Op.create .. => isFalse id
  | Op.destroy _ => isFalse id
  | Op.alloc blk => inferInstanceAs (Decidable (Promised s (Op.alloc blk)))
  | Op.free obj junk => inferInstanceAs (Decidable (Promised s (Op.free obj junk)))
  | Op.write a v => inferInstanceAs (Decidable (Promised s (Op.write a v)))

/-- What holds of a step from `s` to `s'`: the cache is well formed afterwards, an allocation that
returns `KPAGE_ERR` changed nothing, and what was given back to the buddy allocator holds no object
in use. -/
structure Sound (s : Sys) (o : Op) (s' : Sys) : Prop where
  ok : ∃ sh, Ok s' sh
  failed : ∀ blk st', o = Op.alloc blk → kslabAlloc s.st blk = some (kpageErr, st') → st' = s.st
  gone : ∃ gone, s'.st.freed = s.st.freed ++ gone ∧ ∀ r ∈ gone, ∀ a ∈ s'.live,
    a + s'.st.cache.objSize ≤ r.1 ∨ r.1 + buddyOrderToVal r.2 ≤ a

/-- **A step of a client** does not fault and is sound. -/
theorem Ok.sound {s : Sys} {sh : Shape} (h : Ok s sh) {o : Op} (ho : Using s o) :
    ∃ s', step s o = some s' ∧ Sound s o s' := by
  cases o with
  | create objsize alignment flags blk => exact absurd ho id
  | destroy junk => exact absurd ho id
  | alloc blk =>
      obtain ⟨s', sh', hrun, hok, -, hfreed, hfail, -⟩ := h.alloc blk ho
      refine ⟨s', hrun, ⟨sh', hok⟩, ?_, [], by simpa using hfreed, by simp⟩
      rintro blk' st' he hst'
      obtain rfl := Op.alloc.inj he
      exact hfail st' hst'
  | write a v =>
      refine ⟨_, rfl, ⟨sh, h.write ho⟩, fun _ _ he => (by cases he), [], ?_, by simp⟩
      rw [List.append_nil]
      rfl
  | free obj junk =>
      obtain ⟨t, s', sh', ht, -, hrun, hok, -, hcases⟩ := h.free ho junk
      refine ⟨s', hrun, ⟨sh', hok⟩, fun _ _ he => (by cases he), ?_⟩
      rcases hcases with ⟨-, -, hfreed, -⟩ | ⟨-, ⟨-, hfreed, -⟩ | ⟨hcache, -, f, hfreed, hf, hgone⟩⟩
      · exact ⟨[], by simpa using hfreed, by simp⟩
      · exact ⟨[], by simpa using hfreed, by simp⟩
      · refine ⟨_, hfreed, fun r hr a ha => ?_⟩
        obtain rfl := List.mem_singleton.1 hr
        have hobj : s'.st.cache.objSize = s.st.cache.objSize := by rw [hcache]; rfl
        rw [hobj]
        exact hgone a ha

/-- **No double hand-out.**  On a cache that `kslab_cache_create` made from zeroed memory, with
objects that hold a pointer, every run of clients is sound at every step. -/
theorem kslab_run_sound {m : ℕ → ℕ} {objsize alignment flags : ℕ} {blk : Option ℕ} {st₀ : State}
    (hobj : 8 ≤ objsize) (ha : alignment < 2 ^ 64)
    (hb : ∀ c ∈ chooseGeometry objsize alignment,
      Fresh (setGeometry (State.zeroed m) c objsize alignment flags) blk)
    (hcreate : kslabCacheCreate (State.zeroed m) objsize alignment flags blk = some (0, st₀))
    {os : List Op} (hos : Run.Along step Using ⟨st₀, [], some 0⟩ os) :
    (∃ sh, Ok ⟨st₀, [], some 0⟩ sh) ∧ Run.Every step Sound ⟨st₀, [], some 0⟩ os := by
  have hstart : ∃ sh, Ok ⟨st₀, [], some 0⟩ sh := by
    cases hc : chooseGeometry objsize alignment with
    | none =>
        rw [kslabCacheCreate, hc] at hcreate
        cases hcreate
    | some c =>
        have hno : NoSlabs (State.zeroed m) := ⟨rfl, rfl, rfl⟩
        rcases kslabCacheCreate_cases hno rfl hobj ha hc (hb c hc) with
          ⟨-, hrun⟩ | ⟨-, -, hrun⟩ | ⟨b, st', sh, -, -, hrun, hinv, -⟩
        · exact absurd (Prod.mk.inj (Option.some_inj.1 (hrun.symm.trans hcreate))).1 (by decide)
        · exact absurd (Prod.mk.inj (Option.some_inj.1 (hrun.symm.trans hcreate))).1 (by decide)
        · obtain rfl := (Prod.mk.inj (Option.some_inj.1 (hrun.symm.trans hcreate))).2
          exact ⟨sh, hinv, List.nodup_nil, by simp⟩
  refine ⟨hstart, Run.every_of_along (I := fun s => ∃ sh, Ok s sh) ?_ hstart hos⟩
  rintro s o ⟨sh, h⟩ ho
  obtain ⟨s', hrun, hsound⟩ := h.sound ho
  exact ⟨s', hrun, hsound, hsound.ok⟩

/-- A cache of 64-byte objects, an allocation, a write into the object and its return. -/
theorem kslab_run_sound_trace : ∃ st₀,
    kslabCacheCreate (State.zeroed fun _ => 0) 64 8 0 (some 0x10000) = some (0, st₀) ∧
      Run.Every step Sound ⟨st₀, [], some 0⟩
        [Op.alloc none, Op.write 0x10038 7, Op.free 0x10030 fun _ => 1] := by
  have hret : (kslabCacheCreate (State.zeroed fun _ => 0) 64 8 0 (some 0x10000)).map Prod.fst =
      some 0 := by decide +kernel
  have hos : ((kslabCacheCreate (State.zeroed fun _ => 0) 64 8 0 (some 0x10000)).all fun r =>
      decide (Run.Along step Using ⟨r.2, [], some 0⟩
        [Op.alloc none, Op.write 0x10038 7, Op.free 0x10030 fun _ => 1])) = true := by
    decide +kernel
  obtain ⟨⟨r, st₀⟩, hcreate, rfl⟩ := Option.map_eq_some_iff.1 hret
  rw [hcreate] at hos
  exact ⟨st₀, hcreate, (kslab_run_sound (by decide) (by decide) (by decide +kernel) hcreate
    (of_decide_eq_true hos)).2⟩

end Slab

end SyncKernel
