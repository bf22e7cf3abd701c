/-
**The table of regions.**

`kbud_add_region` keeps the table in order and writes a terminator behind its last entry.  The
terminator of the last entry has no place in the table: the call that would fill the table writes
behind it.

Main definitions:

* `Buddy.Table`, `Buddy.addStep` — the allocator with the regions that were added to it;
* `Buddy.TableOk`, `Buddy.TableStep` — what holds of the table after a call.

Main results:

* `Buddy.TableOk.add` — **one call** keeps the table in order;
* `Buddy.regionTable_iff` — **every call of a sequence does so exactly when there are at most 127**.
-/

import SyncKernel.Lib.Run
import SyncKernel.Buddy.Donate

set_option relaxedAutoImplicit false
set_option autoImplicit false

namespace SyncKernel

namespace Buddy

/-! ### Calls -/

/-- The allocator and the headers of the regions that were added. -/
structure Table where
  st : State
  added : List ℕ

/-- The entries of the table. -/
def State.entries (st : State) : List ℕ := (List.range st.regionCount).map st.regions

/-- One call, for a base address and a length; a full table takes no region. -/
def addStep (s : Table) (o : ℕ × ℕ) : Option Table :=
  (kbudAddRegion s.st o.1 o.2).map fun r =>
    { st := r.2
      added := if s.st.regionCount = pframeMaxRegions then s.added else physToVirtPm o.1 :: s.added }

/-- The table is strictly increasing, holds the regions that were added, and ends with the
terminator unless it is full. -/
structure TableOk (s : Table) : Prop where
  sorted : s.st.entries.Pairwise (· < ·)
  mem : ∀ r, r ∈ s.st.entries ↔ r ∈ s.added
  terminated : s.st.regions s.st.regionCount = kpageErr ∨ s.st.regionCount = pframeMaxRegions

/-- What holds of a call. -/
def TableStep (s : Table) (o : ℕ × ℕ) (s' : Table) : Prop :=
  TableOk s' ∧
    (s.st.regionCount = pframeMaxRegions →
      kbudAddRegion s.st o.1 o.2 = some (kpageErr, s.st) ∧ s'.st = s.st)

/-! ### One call -/

theorem physToVirtPm_injective {p q : ℕ} (hp : p < 2 ^ 64) (hq : q < 2 ^ 64)
    (h : physToVirtPm p = physToVirtPm q) : p = q := by
  unfold physToVirtPm Word.add kernelPhmap at h
  omega

/-- Setting a region up leaves the table alone. -/
theorem kbudInitRegion_table (st : State) (phy len : ℕ) :
    (kbudInitRegion st phy len).regions = st.regions ∧
      (kbudInitRegion st phy len).regionCount = st.regionCount := by
  unfold kbudInitRegion
  dsimp only
  split_ifs
  · exact ⟨rfl, rfl⟩
  · exact ⟨rfl, rfl⟩

/-- A call on a table with room for the region and the terminator. -/
theorem kbudAddRegion_eq {st : State} (phy len : ℕ) (hroom : st.regionCount + 1 < pframeMaxRegions) :
    kbudAddRegion st phy len =
      some (physToVirtPm phy, kbudInitRegion (st.enter (physToVirtPm phy)) phy len) := by
  rw [kbudAddRegion, if_neg (by omega), if_neg (by omega)]

/-- The call that would fill the table writes behind it. -/
theorem kbudAddRegion_last {st : State} (phy len : ℕ)
    (hlast : st.regionCount + 1 = pframeMaxRegions) : kbudAddRegion st phy len = none := by
  rw [kbudAddRegion, if_neg (by omega), if_pos (by omega)]

/-- The new entry in a table that is in order. -/
theorem entries_enter {st : State} {r : ℕ} (hsorted : st.entries.Pairwise (· < ·))
    (hnew : r ∉ st.entries) :
    (st.enter r).entries.Pairwise (· < ·) ∧ ∀ x, x ∈ (st.enter r).entries ↔ x = r ∨ x ∈ st.entries := by
  have hnodup : (st.enter r).entries.Nodup :=
    (perm_enter st r).nodup_iff.2 (List.nodup_cons.2 ⟨hnew, hsorted.imp ne_of_lt⟩)
  have hle : (st.enter r).entries.Pairwise (· ≤ ·) := pairwise_enter (hsorted.imp le_of_lt)
  exact ⟨(hle.and hnodup).imp fun h => lt_of_le_of_ne h.1 h.2, fun x => mem_enter⟩

/-- **One call** on a table with room keeps it in order. -/
theorem TableOk.add {s : Table} (hsorted : s.st.entries.Pairwise (· < ·))
    (hmem : ∀ r, r ∈ s.st.entries ↔ r ∈ s.added) {o : ℕ × ℕ}
    (hroom : s.st.regionCount + 1 < pframeMaxRegions) (hnew : physToVirtPm o.1 ∉ s.added) :
    ∃ s', addStep s o = some s' ∧ TableOk s' ∧ s'.st.regionCount = s.st.regionCount + 1 ∧
      s'.added = physToVirtPm o.1 :: s.added := by
  have hrun := kbudAddRegion_eq o.1 o.2 hroom
  obtain ⟨hregions, hcount⟩ :=
    kbudInitRegion_table (s.st.enter (physToVirtPm o.1)) o.1 o.2
  obtain ⟨hsorted', hmem'⟩ := entries_enter hsorted fun h => hnew ((hmem _).1 h)
  refine ⟨_, by rw [addStep, hrun, Option.map_some, if_neg (by omega)], ⟨?_, fun r => ?_, ?_⟩,
    hcount, rfl⟩
  · unfold State.entries
    dsimp only
    rw [hregions, hcount]
    exact hsorted'
  · unfold State.entries
    dsimp only
    rw [hregions, hcount, List.mem_cons, ← hmem r]
    exact hmem' r
  · left
    dsimp only
    rw [hregions, hcount]
    exact Function.update_self ..

/-! ### Sequences of calls -/

/-- From a table that is in order, the calls keep it in order exactly when the last of them still
has room for the terminator. -/
theorem every_tableStep_iff :
    ∀ (os : List (ℕ × ℕ)) (s : Table), s.st.entries.Pairwise (· < ·) →
      (∀ r, r ∈ s.st.entries ↔ r ∈ s.added) → s.st.regionCount < pframeMaxRegions →
      (os.map Prod.fst).Nodup → (∀ o ∈ os, o.1 < 2 ^ 64 ∧ physToVirtPm o.1 ∉ s.added) →
      (Run.Every addStep TableStep s os ↔ os.length + s.st.regionCount < pframeMaxRegions) := by
  intro os
  induction os with
  | nil =>
      intro s _ _ hlt _ _
      exact ⟨fun _ => by rw [List.length_nil]; omega, fun _ => trivial⟩
  | cons o os ih =>
      intro s hsorted hmem hlt hnodup hnew
      rw [List.map_cons, List.nodup_cons] at hnodup
      rw [List.length_cons]
      by_cases hroom : s.st.regionCount + 1 < pframeMaxRegions
      · obtain ⟨s', hstep, hok, hcount, hadded⟩ :=
          TableOk.add hsorted hmem hroom (hnew o (by simp)).2
        have hnew' : ∀ o' ∈ os, o'.1 < 2 ^ 64 ∧ physToVirtPm o'.1 ∉ s'.added := by
          intro o' ho'
          obtain ⟨hlt', hout⟩ := hnew o' (by simp [ho'])
          refine ⟨hlt', ?_⟩
          rw [hadded, List.mem_cons, not_or]
          refine ⟨fun he => hnodup.1 ?_, hout⟩
          rw [← physToVirtPm_injective hlt' (hnew o (by simp)).1 he]
          exact List.mem_map_of_mem ho'
        have hrest := ih s' hok.sorted hok.mem (by omega) hnodup.2 hnew'
        rw [hcount] at hrest
        constructor
        · rintro ⟨s₁, hs₁, -, hevery⟩
          obtain rfl : s' = s₁ := Option.some_inj.1 (hstep.symm.trans hs₁)
          have hlen := hrest.1 hevery
          omega
        · intro hlen
          exact ⟨s', hstep, ⟨hok, fun hfull => by omega⟩, hrest.2 (by omega)⟩
      · constructor
        · rintro ⟨s₁, hs₁, -⟩
          rw [addStep, kbudAddRegion_last o.1 o.2 (by omega)] at hs₁
          cases hs₁
        · intro hlen
          omega

/-- **The table of regions**: for distinct base addresses in any order, every call keeps the table
in order and writes inside it exactly when there are at most 127 calls. -/
theorem regionTable_iff {os : List (ℕ × ℕ)} (hnodup : (os.map Prod.fst).Nodup)
    (hlt : ∀ o ∈ os, o.1 < 2 ^ 64) :
    Run.Every addStep TableStep ⟨State.init, []⟩ os ↔ os.length ≤ 127 := by
  have hiff := every_tableStep_iff os ⟨State.init, []⟩ List.Pairwise.nil (fun _ => Iff.rfl)
    (by decide) hnodup fun o ho => ⟨hlt o ho, List.not_mem_nil⟩
  rw [hiff]
  exact Nat.lt_succ_iff

/-- Three regions of a megabyte, the first two of them in descending order. -/
theorem regionTable_iff_three : Run.Every addStep TableStep ⟨State.init, []⟩
    [(0x200000, 0x100000), (0x100000, 0x100000), (0x400000, 0x100000)] :=
  (regionTable_iff (by decide) (by decide)).2 (by decide)

/-- **The last entry overflows the table**: the call for the 128th region writes the terminator
behind it. -/
theorem regionTable_overflow :
    ¬ Run.Every addStep TableStep ⟨State.init, []⟩
      ((List.range 128).map fun i => (0x100000 * i, 0x100000)) := by
  have hnodup : (((List.range 128).map fun i => (0x100000 * i, 0x100000)).map Prod.fst).Nodup := by
    rw [List.map_map]
    exact List.nodup_range.map fun i j hij => by
      dsimp only [Function.comp] at hij
      omega
  have hlt : ∀ o ∈ (List.range 128).map fun i => (0x100000 * i, 0x100000), o.1 < 2 ^ 64 := by
    intro o ho
    obtain ⟨i, hi, rfl⟩ := List.mem_map.1 ho
    have hi' := List.mem_range.1 hi
    dsimp only
    omega
  have hiff := every_tableStep_iff _ ⟨State.init, []⟩ List.Pairwise.nil (fun _ => Iff.rfl)
    (by decide) hnodup fun o ho => ⟨hlt o ho, List.not_mem_nil⟩
  rw [hiff, List.length_map, List.length_range]
  decide

end Buddy

end SyncKernel
