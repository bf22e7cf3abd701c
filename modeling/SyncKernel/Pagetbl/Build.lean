/-
**Building page tables.**

The loops that build the tables count entries: how many of them remain for the tables of each level.
They take the table from the address that comes next, but they fill it for as long as the count says, and
go round in it where the addresses have left it.  So the index of an entry in a table is never carried to
the index in the table above: the number of a leaf is added to the first one digit by digit.

Such a task is a number of leaves of one level, for addresses that follow each other.  Each loop is
one more level of tables, and what a turn of it does is shown once for all levels: it sets the leaves
below one entry, as far as they are asked for.

Main definitions:

* `Pagetbl.Mapped`, `Pagetbl.Placed` — the lookups that a number of leaves changes, one behind the other
  or each at its place;
* `Pagetbl.Job` — what is to be mapped;
* `Pagetbl.Job.place` — where the loops put a leaf;
* `Pagetbl.Job.Fills` — what a turn of a loop does.

Main results:

* `Pagetbl.Job.fills_put`, `Pagetbl.Job.fills_turn` — the turns of the innermost loop, and of the
  loop around one;
* `Pagetbl.Job.fill` — **the tables map what they are asked for**, at the places of the loops, and
  nothing else changes.
-/

import Mathlib.Algebra.Order.Floor.Div
import Mathlib.Algebra.Order.Ring.Nat
import Mathlib.Data.Nat.ModEq
import Mathlib.GroupTheory.GroupAction.Ring
import SyncKernel.Pagetbl.Walk

set_option relaxedAutoImplicit false
set_option autoImplicit false

namespace SyncKernel

namespace Pagetbl

open Radix Radix.Format

/-! ### Counting entries -/

section Count

variable {u : ℕ}

theorem ceilDiv_sub_mul (hu : 0 < u) (r n : ℕ) : (r - u * n) ⌈/⌉ u = r ⌈/⌉ u - n := by
  refine eq_of_forall_ge_iff fun c => ?_
  rw [ceilDiv_le_iff_le_mul hu, Nat.sub_le_iff_le_add, Nat.sub_le_iff_le_add, ceilDiv_le_iff_le_mul hu,
    Nat.mul_add]

theorem lt_ceilDiv (hu : 0 < u) {r n : ℕ} : n < r ⌈/⌉ u ↔ u * n < r := by
  rw [← not_le, ceilDiv_le_iff_le_mul hu, not_le]

/-- The entries of one table: all that remain, or 512 of them. -/
theorem min_mul_capped (hu : 0 < u) (r : ℕ) : min r (u * capped (r ⌈/⌉ u)) = min r (u * 512) := by
  have hall : r ≤ u * (r ⌈/⌉ u) := (ceilDiv_le_iff_le_mul hu).1 le_rfl
  rw [capped_eq_min]
  rcases Nat.le_total (r ⌈/⌉ u) 512 with hle | hle
  · rw [min_eq_right hle, min_eq_left hall, min_eq_left (hall.trans (Nat.mul_le_mul_left u hle))]
  · rw [min_eq_left hle]

/-- The entries that remain for the next tables. -/
theorem ceilDiv_sub_capped (hu : 0 < u) (r : ℕ) :
    r ⌈/⌉ u - capped (r ⌈/⌉ u) = (r - min r (u * 512)) ⌈/⌉ u := by
  have hsub : r - min r (u * 512) = r - u * 512 := by omega
  rw [hsub, ceilDiv_sub_mul hu, capped_eq_min]
  omega

theorem pagetblCount_eq {x k : ℕ} (hx : x + (2 ^ k - 1) < 2 ^ 64) (hk : k ≤ 64) :
    pagetblCount x (2 ^ k) = x ⌈/⌉ 2 ^ k := by
  rw [pagetblCount, Word.alignUp_eq hx hk, Nat.mul_div_cancel _ (Nat.two_pow_pos k),
    Nat.ceilDiv_eq_add_pred_div, Nat.add_sub_assoc (Nat.two_pow_pos k)]

/-- The number of tables, of the `k` levels above the leaves, that the entries for `r` leaves are
in. -/
def tablesFor : ℕ → ℕ → ℕ
  | 0, _ => 0
  | k + 1, r => tablesFor k r + r ⌈/⌉ 512 ^ (k + 1)

end Count

/-! ### Leaves -/

/-- The number of an address among the leaves with `w` digits behind them. -/
def slot (w v : ℕ) : ℕ := pageNumber v / 512 ^ w

theorem slot_eq {w : ℕ} (hw : w ≤ 2) (v : ℕ) : slot w v = v / 2 ^ (12 + 9 * w) % 512 ^ (4 - w) := by
  unfold slot pageNumber
  obtain rfl | rfl | rfl : w = 0 ∨ w = 1 ∨ w = 2 := by omega
  all_goals omega

/-- The leaf that comes next. -/
theorem slot_add {w v : ℕ} (hw : w ≤ 2) (hv : 2 ^ (12 + 9 * w) ∣ v) (hlt : slot w v + 1 < 512 ^ (4 - w)) :
    slot w (Word.add v (2 ^ (12 + 9 * w))) = slot w v + 1 := by
  rw [slot_eq hw] at hlt ⊢
  rw [slot_eq hw]
  unfold Word.add
  obtain rfl | rfl | rfl : w = 0 ∨ w = 1 ∨ w = 2 := by omega
  all_goals omega

theorem dvd_add {w v : ℕ} (hw : w ≤ 2) (hv : 2 ^ (12 + 9 * w) ∣ v) :
    2 ^ (12 + 9 * w) ∣ Word.add v (2 ^ (12 + 9 * w)) :=
  (Nat.dvd_mod_iff (Nat.pow_dvd_pow 2 (by omega))).2 (Nat.dvd_add hv dvd_rfl)

theorem pageIdx_slot {w k : ℕ} (hk : w + k ≤ 3) (v : ℕ) :
    pageIdx (w + k + 1) v = slot w v / 512 ^ k % 512 := by
  rw [pageIdx_eq hk, slot, Nat.div_div_eq_div_mul, ← Nat.pow_add]
  rfl

/-- The flags of a leaf with `w` digits behind it. -/
structure IsLeafFlags (w flags : ℕ) : Prop where
  isFlags : IsFlags flags
  present : flags &&& ptFlagPresent ≠ 0
  pagesize : w = 0 ∨ flags &&& ptFlagPagesize ≠ 0

section Leaves

variable {w p flags : ℕ}

/-- A leaf reads back as one. -/
theorem decode_leaf (hw : w ≤ 2) (h : IsLeafFlags w flags) (hp : 4096 ∣ p) :
    decode w (p ||| flags) = Node.leaf (w, p ||| flags) := by
  have hpresent : (p ||| flags) &&& ptFlagPresent ≠ 0 := by
    have := h.present
    rwa [show ptFlagPresent = 2 ^ 0 from rfl, and_low hp (by decide)]
  have hsize : w = 0 ∨ (w ≤ 2 ∧ (p ||| flags) &&& ptFlagPagesize ≠ 0) := by
    refine h.pagesize.imp_right fun hsize => ⟨hw, ?_⟩
    rwa [show ptFlagPagesize = 2 ^ 7 from rfl, and_low hp (by decide)]
  rw [decode, if_neg hpresent, if_pos hsize]

/-- The address behind a leaf. -/
theorem physOf_leaf (hw : w ≤ 2) (h : IsFlags flags) (hdvd : 2 ^ (12 + 9 * w) ∣ p) (v : ℕ) :
    physOf v (some (w, p ||| flags)) = p % 2 ^ 52 + v % 2 ^ (12 + 9 * w) := by
  have hmask : bitrangeMask (11 + 9 * w) 0 = 2 ^ (12 + 9 * w) - 1 := by
    rw [bitrangeMask, Nat.one_shiftLeft]
    congr 2
    omega
  have hdvd' : 2 ^ (12 + 9 * w) ∣ p % 2 ^ 52 := (Nat.dvd_mod_iff (Nat.pow_dvd_pow 2 (by omega))).2 hdvd
  rw [physOf, pagePhysRebase_or (by omega) (by omega) hdvd h, hmask, or_offset hdvd']

end Leaves

/-- The second tables map `count` leaves with `w` digits behind them, from the leaf `first` on, and
otherwise what the first ones do. -/
def Mapped (root : ℕ) (s : Tables) (w first count : ℕ) (entry : ℕ → ℕ) (s' : Tables) : Prop :=
  ∀ n < 2 ^ 36, find root s' n =
    if first ≤ n / 512 ^ w ∧ n / 512 ^ w < first + count then some (w, entry (n / 512 ^ w - first))
    else find root s n

section Mapped

variable {root w first count : ℕ} {s s' s'' : Tables} {entry : ℕ → ℕ}

theorem mapped_zero (root w first : ℕ) (s : Tables) (entry : ℕ → ℕ) : Mapped root s w first 0 entry s :=
  fun n _ => (if_neg (by omega)).symm

theorem Mapped.grown (h : Mapped root s w first count entry s') (hg : Grown root s' s'') :
    Mapped root s w first count entry s'' := fun n hn => (hg.find_eq n hn).trans (h n hn)

/-- One more leaf. -/
theorem Mapped.succ (h : Mapped root s w first count entry s')
    (hset : ∀ n < 2 ^ 36, find root s'' n =
      if n / 512 ^ w = first + count then some (w, entry count) else find root s' n) :
    Mapped root s w first (count + 1) entry s'' := by
  intro n hn
  rw [hset n hn]
  by_cases heq : n / 512 ^ w = first + count
  · rw [if_pos heq, if_pos (by omega), heq, Nat.add_sub_cancel_left]
  · rw [if_neg heq, h n hn]
    by_cases hlt : first ≤ n / 512 ^ w ∧ n / 512 ^ w < first + count
    · rw [if_pos hlt, if_pos ⟨hlt.1, by omega⟩]
    · rw [if_neg hlt, if_neg fun hlt' => hlt ⟨hlt'.1, by omega⟩]

end Mapped

/-- The second tables map `count` leaves, each at its place, and otherwise what the first ones do. -/
structure Placed (root : ℕ) (s : Tables) (w : ℕ) (place : ℕ → ℕ) (count : ℕ) (entry : ℕ → ℕ)
    (s' : Tables) : Prop where
  leaf : ∀ m < count, ∀ n < 2 ^ 36, n / 512 ^ w = place m → find root s' n = some (w, entry m)
  other : ∀ n < 2 ^ 36, (∀ m < count, n / 512 ^ w ≠ place m) → find root s' n = find root s n

section Placed

variable {root w count : ℕ} {s s' s'' : Tables} {place entry : ℕ → ℕ}

theorem placed_zero (root w : ℕ) (s : Tables) (place entry : ℕ → ℕ) : Placed root s w place 0 entry s :=
  ⟨fun _ hm => absurd hm (Nat.not_lt_zero _), fun _ _ _ => rfl⟩

theorem Placed.grown (h : Placed root s w place count entry s') (hg : Grown root s' s'') :
    Placed root s w place count entry s'' :=
  ⟨fun m hm n hn heq => (hg.find_eq n hn).trans (h.leaf m hm n hn heq),
    fun n hn hne => (hg.find_eq n hn).trans (h.other n hn hne)⟩

/-- One more leaf, at a place of its own. -/
theorem Placed.succ (h : Placed root s w place count entry s') (hne : ∀ m < count, place m ≠ place count)
    (hset : ∀ n < 2 ^ 36, find root s'' n =
      if n / 512 ^ w = place count then some (w, entry count) else find root s' n) :
    Placed root s w place (count + 1) entry s'' := by
  refine ⟨fun m hm n hn heq => ?_, fun n hn hother => ?_⟩
  · rw [hset n hn]
    by_cases hlast : m = count
    · rw [← hlast, if_pos heq]
    · have hlt : m < count := by omega
      rw [if_neg (by rw [heq]; exact hne m hlt)]
      exact h.leaf m hlt n hn heq
  · rw [hset n hn, if_neg (hother count (Nat.lt_succ_self count))]
    exact h.other n hn fun m hm => hother m (Nat.lt_succ_of_lt hm)

/-- Leaves one behind the other. -/
theorem Placed.mapped {first : ℕ} (h : Placed root s w place count entry s')
    (hplace : ∀ m < count, place m = first + m) : Mapped root s w first count entry s' := by
  intro n hn
  by_cases hlt : first ≤ n / 512 ^ w ∧ n / 512 ^ w < first + count
  · have hm : n / 512 ^ w - first < count := by omega
    rw [if_pos hlt]
    exact h.leaf _ hm n hn (by rw [hplace _ hm]; omega)
  · rw [if_neg hlt]
    exact h.other n hn fun m hm heq => hlt (by rw [heq, hplace m hm]; omega)

end Placed

/-! ### What is to be mapped -/

/-- A number of leaves, with `w` digits behind them, that are to be mapped from `vaddr` to `paddr`.
The loops come to a leaf without carrying from one index to the next; where they come to, no larger leaf
is in the way. -/
structure Job where
  w : ℕ
  root : ℕ
  start : Tables
  vaddr : ℕ
  paddr : ℕ
  flags : ℕ
  count : ℕ
  w_le : w ≤ 2
  vaddr_dvd : 2 ^ (12 + 9 * w) ∣ vaddr
  paddr_dvd : 2 ^ (12 + 9 * w) ∣ paddr
  paddr_lt : paddr < 2 ^ 64
  flags_leaf : IsLeafFlags w flags
  count_le : slot w vaddr + count ≤ 512 ^ (4 - w)
  clear : ∀ m < count, ∀ n < 2 ^ 36, n / 512 ^ w = addDigits 512 (4 - w) (slot w vaddr) m →
    ∀ x, find root start n = some x → x.1 ≤ w

namespace Job

variable (J : Job)

/-- The number of the first leaf. -/
def first : ℕ := slot J.w J.vaddr

/-- Where the loops put a leaf. -/
def place (m : ℕ) : ℕ := addDigits 512 (4 - J.w) J.first m

/-- The entry for a leaf. -/
def entry (m : ℕ) : ℕ := Word.add J.paddr (m * 2 ^ (12 + 9 * J.w)) ||| J.flags

/-- The variables of the loops once `m` leaves are set; `room` frames are left when the others are
set, too. -/
structure State (k room m : ℕ) (c : Cursor) : Prop where
  sound : Sound J.root c.tables
  placed : Placed J.root J.start J.w J.place m J.entry c.tables
  vbase_dvd : 2 ^ (12 + 9 * J.w) ∣ c.vbase
  vbase_slot : m < J.count → slot J.w c.vbase = J.first + m
  pbase_eq : c.pbase = Word.add J.paddr (m * 2 ^ (12 + 9 * J.w))
  rem_eq : ∀ j < k, c.rem (J.w + 1 + j) = (J.count - m) ⌈/⌉ 512 ^ j
  free_le : room + tablesFor k (J.count - m) ≤ c.tables.free.length

/-- What a turn of a loop does that is `k` levels above the innermost one: with the table that the
next leaf belongs to, it sets the leaves below one entry of it, as far as they are asked for. -/
def Fills (P : Pointers) (k : ℕ) (body : ℕ → Cursor → Option Cursor) : Prop :=
  ∀ room t m c, m < J.count → 512 ^ k ∣ m → J.State k room m c →
    At J.root c.tables (J.w + k) t (J.place m / 512 ^ (k + 1)) →
    ∃ c', body (P.ptr t) c = some c' ∧ J.State k room (min (m + 512 ^ k) J.count) c' ∧
      (∀ j, k ≤ j → c'.rem (J.w + 1 + j) = c.rem (J.w + 1 + j)) ∧
      ∀ ℓ t a, J.w + k ≤ ℓ → At J.root c.tables ℓ t a → At J.root c'.tables ℓ t a

variable {J} {P : Pointers} {k room m : ℕ} {c : Cursor}

/-- The variables in front of the loops. -/
theorem state_start {rem : ℕ → ℕ} (hsound : Sound J.root J.start)
    (hrem : ∀ j < k, rem (J.w + 1 + j) = J.count ⌈/⌉ 512 ^ j)
    (hfree : room + tablesFor k J.count ≤ J.start.free.length) :
    J.State k room 0 ⟨J.start, J.vaddr, J.paddr, rem⟩ := by
  refine ⟨hsound, placed_zero _ _ _ _ _, J.vaddr_dvd, fun _ => rfl, ?_, hrem, hfree⟩
  rw [Nat.zero_mul, Word.add, Nat.add_zero, Nat.mod_eq_of_lt J.paddr_lt]

theorem entry_dvd (J : Job) (m : ℕ) : 2 ^ (12 + 9 * J.w) ∣ Word.add J.paddr (m * 2 ^ (12 + 9 * J.w)) := by
  have hle := J.w_le
  exact (Nat.dvd_mod_iff (Nat.pow_dvd_pow 2 (by omega))).2
    (Nat.dvd_add J.paddr_dvd (Nat.dvd_mul_left _ _))

theorem page_dvd (J : Job) (m : ℕ) : 4096 ∣ Word.add J.paddr (m * 2 ^ (12 + 9 * J.w)) :=
  (Nat.pow_dvd_pow 2 (Nat.le_add_right 12 _)).trans (J.entry_dvd m)

/-- The address that a leaf translates to. -/
theorem physOf_entry (J : Job) (m v : ℕ) : physOf v (some (J.w, J.entry m)) =
    (J.paddr + m * 2 ^ (12 + 9 * J.w)) % 2 ^ 52 + v % 2 ^ (12 + 9 * J.w) := by
  rw [entry, physOf_leaf J.w_le J.flags_leaf.isFlags (J.entry_dvd m), Word.add,
    Nat.mod_mod_of_dvd _ (by decide : 2 ^ 52 ∣ 2 ^ 64)]

/-! ### Places -/

theorem place_lt (J : Job) (m : ℕ) : J.place m < 512 ^ (4 - J.w) := addDigits_lt (by decide) _ _ _

theorem place_ne (J : Job) {m' : ℕ} (hm : m < J.count) (hm' : m' < J.count) (hne : m ≠ m') :
    J.place m ≠ J.place m' := by
  have hle := J.count_le
  exact fun heq => hne (addDigits_inj (by decide) (by omega) (by omega) heq)

/-- The leaves below one entry begin with the same digits. -/
theorem place_div (J : Job) (hk : J.w + k ≤ 4) (hdvd : 512 ^ k ∣ m) {x : ℕ} (hx : x < 512 ^ k) :
    J.place (m + x) / 512 ^ k = J.place m / 512 ^ k := by
  obtain ⟨a, rfl⟩ := hdvd
  have hpos : 0 < 512 ^ k := Nat.pow_pos (by decide)
  obtain ⟨j, hj⟩ := Nat.exists_eq_add_of_le hk
  have hsplit : 4 - J.w = j + k := by omega
  rw [place, place, hsplit, addDigits_div (by decide), addDigits_div (by decide), Nat.mul_add_div hpos,
    Nat.div_eq_of_lt hx, Nat.add_zero, Nat.mul_div_cancel_left _ hpos]

/-- The digit that the index of an entry adds. -/
theorem place_step (J : Job) (hk : J.w + k ≤ 3) (hdvd : 512 ^ k ∣ m) :
    J.place m / 512 ^ k = J.place m / 512 ^ (k + 1) * 512 + (J.first + m) / 512 ^ k % 512 := by
  obtain ⟨j, hj⟩ := Nat.exists_eq_add_of_le hk
  have hsplit : 4 - J.w = j + 1 + k := by omega
  have hdigit : (J.first + m) / 512 ^ k = J.first / 512 ^ k + m / 512 ^ k :=
    Nat.add_div_of_dvd_left hdvd
  have hhigh := addDigits_div (b := 512) (by decide) (k + 1) j J.first m
  rw [place, hsplit, addDigits_div (by decide), addDigits, ← hdigit]
  rw [show j + 1 + k = j + (k + 1) by omega, hhigh, Nat.div_div_eq_div_mul, Nat.div_div_eq_div_mul,
    ← Nat.pow_succ]

/-! ### The loops -/

/-- **The innermost loop** sets one leaf. -/
theorem fills_put (J : Job) (P : Pointers) {body : ℕ → Cursor → Option Cursor}
    (hbody : ∀ {s ℓ t a c}, At J.root s ℓ t a → body (P.ptr t) c = some (put P (J.w + 1) J.flags (P.ptr t) c)) :
    J.Fills P 0 body := by
  intro room t m c hm _ hst hat
  have hphys : P.phys (P.ptr t) = t := P.phys_ptr t (hat.lt hst.sound)
  have hsize : 1 <<< (3 + 9 * (J.w + 1)) = 2 ^ (12 + 9 * J.w) := by
    rw [Nat.one_shiftLeft]
    congr 1
    omega
  have hidx : pageIdx (J.w + 1) c.vbase = (J.first + m) % 512 := by
    have h := pageIdx_slot (w := J.w) (k := 0) (le_trans J.w_le (by decide)) c.vbase
    rwa [hst.vbase_slot hm, Nat.pow_zero, Nat.div_one] at h
  have hplace : J.place m / 512 ^ (0 + 1) * 512 + (J.first + m) % 512 = J.place m := by
    have h := J.place_step (k := 0) (le_trans J.w_le (by decide)) (one_dvd m)
    rwa [Nat.pow_zero, Nat.div_one, Nat.div_one, eq_comm] at h
  have hdecode : decode J.w (J.entry m) = Node.leaf (J.w, J.entry m) :=
    decode_leaf J.w_le J.flags_leaf (J.page_dvd m)
  obtain ⟨hsound, hfind, hats⟩ := set_leaf_spec hst.sound hat (Nat.mod_lt (J.first + m) (by decide)) hdecode
  have hmin : min (m + 512 ^ 0) J.count = m + 1 := by
    rw [Nat.pow_zero]
    exact min_eq_left hm
  rw [hplace] at hfind
  have hput : put P (J.w + 1) J.flags (P.ptr t) c =
      { c with
        tables := ⟨set c.tables.mem t ((J.first + m) % 512) (J.entry m), c.tables.free⟩
        vbase := Word.add c.vbase (2 ^ (12 + 9 * J.w))
        pbase := Word.add (Word.add J.paddr (m * 2 ^ (12 + 9 * J.w))) (2 ^ (12 + 9 * J.w)) } := by
    rw [put, hphys, hidx, hst.pbase_eq, hsize, entry]
  refine ⟨_, (hbody hat).trans (congrArg some hput), ?_, fun _ _ => rfl, fun _ _ _ => hats⟩
  rw [hmin]
  refine ⟨hsound, hst.placed.succ (fun m' hm' => J.place_ne (lt_trans hm' hm) hm (Nat.ne_of_lt hm')) hfind,
    dvd_add J.w_le hst.vbase_dvd, fun hm' => ?_, ?_, fun _ hj => absurd hj (Nat.not_lt_zero _), hst.free_le⟩
  · have hslot := hst.vbase_slot hm
    have hle := J.count_le
    have hadd := slot_add J.w_le hst.vbase_dvd (by rw [hslot]; unfold first; omega)
    rw [hadd, hslot, Nat.add_assoc]
  · change Word.add (Word.add _ _) _ = _
    rw [Word.add, Word.add, Word.add, Nat.mod_add_mod, Nat.succ_mul m, Nat.add_assoc J.paddr]

/-- Where the next leaf goes, no larger leaf is in the way. -/
theorem State.not_leaf (h : J.State k room m c) (hm : m < J.count) {ℓ t a i : ℕ} (hℓ : 0 < ℓ)
    (hat : At J.root c.tables (J.w + ℓ) t a) (hi : i < 512)
    (heq : J.place m / 512 ^ ℓ = a * 512 + i) (x : ℕ × ℕ) :
    decode (J.w + ℓ) (c.tables.mem t i) ≠ Node.leaf x := by
  intro hnode
  have hpow : 0 < 512 ^ J.w := Nat.pow_pos (by decide)
  have hn : J.place m * 512 ^ J.w < 2 ^ 36 := by
    have hmul := Nat.mul_lt_mul_of_pos_right (J.place_lt m) hpow
    rw [← Nat.pow_add, Nat.sub_add_cancel (le_trans J.w_le (by decide))] at hmul
    exact hmul
  have hplace : J.place m * 512 ^ J.w / 512 ^ J.w = J.place m := Nat.mul_div_cancel _ hpow
  -- the leaf would be found already in the tables at the start
  have hprefix : J.place m * 512 ^ J.w / 512 ^ (J.w + ℓ) = a * 512 + i := by
    rw [Nat.pow_add, ← Nat.div_div_eq_div_mul, hplace, heq]
  have hfind := Reach.lookup_leaf hat hi hnode hprefix
  have hstart := h.placed.other _ hn fun m' hm' => by
    rw [hplace]
    exact J.place_ne hm (lt_trans hm' hm) (Nat.ne_of_gt hm')
  have hle := J.clear m hm _ hn hplace x (hstart.symm.trans hfind)
  have hlevel : x.1 = J.w + ℓ := congrArg Prod.fst (decode_eq_leaf hnode)
  omega

/-- The tables that the leaves behind the next turn need. -/
theorem rest_add_one (hm : m < J.count) :
    (J.count - min (m + 512 ^ k) J.count) ⌈/⌉ 512 ^ k + 1 = (J.count - m) ⌈/⌉ 512 ^ k := by
  have hpos : 0 < 512 ^ k := Nat.pow_pos (by decide)
  have hrest : J.count - min (m + 512 ^ k) J.count = J.count - m - 512 ^ k * 1 := by omega
  have hone : 0 < (J.count - m) ⌈/⌉ 512 ^ k := (lt_ceilDiv hpos).2 (by omega)
  rw [hrest, ceilDiv_sub_mul hpos]
  omega

/-- With the next table, which may be new, the inner loop begins. -/
theorem State.enter (h : J.State (k + 1) room m c) (hm : m < J.count) {s : Tables}
    (hsound : Sound J.root s) (hgrown : Grown J.root c.tables s)
    (hfree : c.tables.free.length ≤ s.free.length + 1) :
    J.State k (room + (J.count - min (m + 512 ^ (k + 1)) J.count) ⌈/⌉ 512 ^ (k + 1)) m
      { c with tables := s } := by
  refine ⟨hsound, h.placed.grown hgrown, h.vbase_dvd, h.vbase_slot, h.pbase_eq,
    fun j hj => h.rem_eq j (Nat.lt_succ_of_lt hj), ?_⟩
  have hle := h.free_le
  rw [tablesFor, ← rest_add_one hm] at hle
  change _ ≤ s.free.length
  omega

/-- Behind the inner loop the entries of the table are no longer counted. -/
theorem State.leave {r : ℕ} (h : J.State k (room + (J.count - m) ⌈/⌉ 512 ^ (k + 1)) m c)
    (hr : r = (J.count - m) ⌈/⌉ 512 ^ k) :
    J.State (k + 1) room m { c with rem := Function.update c.rem (J.w + 1 + k) r } := by
  refine ⟨h.sound, h.placed, h.vbase_dvd, h.vbase_slot, h.pbase_eq, fun j hj => ?_, ?_⟩
  · change Function.update c.rem (J.w + 1 + k) r (J.w + 1 + j) = _
    by_cases heq : j = k
    · rw [heq, Function.update_self, hr]
    · rw [Function.update_of_ne (by omega)]
      exact h.rem_eq j (by omega)
  · have hle := h.free_le
    rw [tablesFor]
    change _ ≤ c.tables.free.length
    omega

/-- **The loop around another one** sets the leaves below one entry of its table. -/
theorem fills_turn {bound : ℕ → ℕ} {body body' : ℕ → Cursor → Option Cursor} (hk : J.w + k < 3)
    (hbound : ∀ r ≤ J.count ⌈/⌉ 512 ^ k, bound r = capped r)
    (hbody : ∀ {s ℓ t a c x}, At J.root s ℓ t a →
      tableFor P (P.ptr t) (pageIdx (J.w + 1 + k + 1) c.vbase) c.tables = some x →
      body' (P.ptr t) c = turn P (J.w + 1 + k) bound body (P.ptr t) c)
    (h : J.Fills P k body) : J.Fills P (k + 1) body' := by
  intro room t m c hm hdvd hst hat
  have hpos : 0 < 512 ^ k := Nat.pow_pos (by decide)
  have hpow : 512 ^ (k + 1) = 512 ^ k * 512 := Nat.pow_succ _ _
  -- the entry of the table, and the table behind it
  have hidx : pageIdx (J.w + 1 + k + 1) c.vbase = (J.first + m) / 512 ^ (k + 1) % 512 := by
    rw [show J.w + 1 + k + 1 = J.w + (k + 1) + 1 by omega, pageIdx_slot (by omega), hst.vbase_slot hm]
  have hdigits := J.place_step (k := k + 1) (by omega) hdvd
  have hi : (J.first + m) / 512 ^ (k + 1) % 512 < 512 := Nat.mod_lt _ (by decide)
  have hfree := hst.free_le
  rw [tablesFor, ← rest_add_one hm] at hfree
  obtain ⟨q, s₁, hq, hsound, hatq, hgrown, hfree₁⟩ := tableFor_spec (P := P) hst.sound hat hi
    (hst.not_leaf hm (Nat.succ_pos k) hat hi hdigits) fun _ => by omega
  -- the number of turns of the inner loop
  have hrem : c.rem (J.w + 1 + k) = (J.count - m) ⌈/⌉ 512 ^ k := hst.rem_eq k (Nat.lt_succ_self k)
  have hbound' : bound (c.rem (J.w + 1 + k)) = capped ((J.count - m) ⌈/⌉ 512 ^ k) := by
    rw [hrem, hbound]
    rw [ceilDiv_le_iff_le_mul hpos]
    exact le_trans (Nat.sub_le _ _) ((ceilDiv_le_iff_le_mul hpos).1 le_rfl)
  have hcapped := capped_eq_min ((J.count - m) ⌈/⌉ 512 ^ k)
  obtain ⟨c', hc', hst', hrem', hats⟩ := Run.loop_spec (f := fun _ => body (P.ptr q))
    (I := fun i c' =>
      J.State k (room + (J.count - min (m + 512 ^ (k + 1)) J.count) ⌈/⌉ 512 ^ (k + 1))
        (min (m + 512 ^ k * i) J.count) c' ∧
      (∀ j, k ≤ j → c'.rem (J.w + 1 + j) = c.rem (J.w + 1 + j)) ∧
      ∀ ℓ t a, J.w + k ≤ ℓ → At J.root s₁ ℓ t a → At J.root c'.tables ℓ t a)
    (n := bound (c.rem (J.w + 1 + k)))
    (by
      rintro i hi c₁ ⟨hst₁, hrem₁, hats₁⟩
      have hlt : 512 ^ k * i < J.count - m := (lt_ceilDiv hpos).1 (by omega)
      have hunit : 512 ^ k * i < 512 ^ (k + 1) := by
        rw [hpow]
        exact Nat.mul_lt_mul_of_pos_left (by omega) hpos
      have hdvd' : 512 ^ k ∣ m + 512 ^ k * i :=
        Nat.dvd_add (Nat.dvd_trans (Nat.pow_dvd_pow 512 (Nat.le_succ k)) hdvd) (Nat.dvd_mul_right _ _)
      have hatq₁ : At J.root c₁.tables (J.w + k) q (J.place (m + 512 ^ k * i) / 512 ^ (k + 1)) := by
        rw [J.place_div (by omega) hdvd hunit, hdigits]
        exact hats₁ _ _ _ le_rfl hatq
      have hmin : min (m + 512 ^ k * i) J.count = m + 512 ^ k * i := min_eq_left (by omega)
      rw [hmin] at hst₁
      obtain ⟨c₂, hc₂, hst₂, hrem₂, hats₂⟩ := h _ q _ c₁ (by omega) hdvd' hst₁ hatq₁
      refine ⟨c₂, hc₂, ?_, fun j hj => (hrem₂ j hj).trans (hrem₁ j hj),
        fun ℓ t a hle hat => hats₂ ℓ t a hle (hats₁ ℓ t a hle hat)⟩
      rwa [Nat.mul_succ, ← Nat.add_assoc])
    (s := { c with tables := s₁ })
    ⟨by
      have hmin : min (m + 512 ^ k * 0) J.count = m := by omega
      rw [hmin]
      exact hst.enter hm hsound hgrown hfree₁, fun _ _ => rfl, fun _ _ _ _ h => h⟩
  -- all entries below the one of the outer table are set
  have hend : min (m + 512 ^ k * bound (c.rem (J.w + 1 + k))) J.count = min (m + 512 ^ (k + 1)) J.count := by
    have hmin := min_mul_capped hpos (J.count - m)
    rw [hbound', hpow]
    omega
  rw [hend] at hst'
  have hrest : c.rem (J.w + 1 + k) - capped (c.rem (J.w + 1 + k)) =
      (J.count - min (m + 512 ^ (k + 1)) J.count) ⌈/⌉ 512 ^ k := by
    rw [hrem, ceilDiv_sub_capped hpos, hpow]
    congr 1
    omega
  refine ⟨_, ?_, hst'.leave hrest, fun j hj => ?_, fun ℓ t a hle hat => ?_⟩
  · rw [hbody hat (hidx ▸ hq), turn, turnWith, hidx, hq]
    simp only [Option.bind_eq_bind, Option.bind_some, hc']
  · change Function.update c'.rem _ _ _ = _
    rw [Function.update_of_ne (by omega)]
    exact hrem' j (by omega)
  · exact hats ℓ t a (by omega) (hgrown.at_of hat)

/-- **The tables map what they are asked for**, and nothing else changes, once the loop over the top
table ends. -/
theorem fill {body : ℕ → Cursor → Option Cursor} (hk : J.w + k = 3) (h : J.Fills P k body)
    (hst : J.State k room 0 c) :
    ∃ c', Run.loop (fun _ => body (P.ptr J.root)) (J.count ⌈/⌉ 512 ^ k) c = some c' ∧
      J.State k room J.count c' := by
  have hpos : 0 < 512 ^ k := Nat.pow_pos (by decide)
  obtain ⟨c', hc', hst'⟩ := Run.loop_spec (f := fun _ => body (P.ptr J.root))
    (I := fun i c' => J.State k room (min (512 ^ k * i) J.count) c') (n := J.count ⌈/⌉ 512 ^ k)
    (by
      intro i hi c₁ hst₁
      have hlt : 512 ^ k * i < J.count := (lt_ceilDiv hpos).1 hi
      have hmin : min (512 ^ k * i) J.count = 512 ^ k * i := min_eq_left (le_of_lt hlt)
      -- the top table has no digits in front of it
      have htop : J.place (512 ^ k * i) / 512 ^ (k + 1) = 0 := by
        have hlt' := J.place_lt (512 ^ k * i)
        rw [show 4 - J.w = k + 1 by omega] at hlt'
        exact Nat.div_eq_of_lt hlt'
      have hat : At J.root c₁.tables (J.w + k) J.root (J.place (512 ^ k * i) / 512 ^ (k + 1)) := by
        rw [htop, hk]
        exact Reach.root
      rw [hmin] at hst₁
      obtain ⟨c₂, hc₂, hst₂, -, -⟩ := h room J.root _ c₁ hlt (Nat.dvd_mul_right _ _) hst₁ hat
      exact ⟨c₂, hc₂, by rwa [Nat.mul_succ]⟩)
    (s := c) (by rwa [Nat.mul_zero, Nat.zero_min])
  have hend : min (512 ^ k * (J.count ⌈/⌉ 512 ^ k)) J.count = J.count :=
    min_eq_right ((ceilDiv_le_iff_le_mul hpos).1 le_rfl)
  exact ⟨c', hc', hend ▸ hst'⟩

end Job

end Pagetbl

end SyncKernel
