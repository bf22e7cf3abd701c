/-
**Tables of tables.**

A number is looked up digit by digit, from the highest to the lowest: each digit is the index of an
entry in a table, and the entry is absent, or a leaf for all numbers that begin with these digits, or
leads to the table for the next digit.  The tables lie side by side in a memory that is written one
entry at a time, so the question is always which numbers an entry can be met for.

Each table is registered with its level and with the digits that lead to it.  As long as the links
between the tables agree with the register, an entry is met for the numbers that begin with the digits
of its table and with its own index, and for no others.

Main definitions:

* `Radix.Format` — the number of entries of a table, and how an entry is read;
* `Radix.Format.lookup`, `Radix.Format.reads` — looking a number up, and the entries that are read;
* `Radix.Format.Reach` — the tables that are reached, with their level and digits;
* `Radix.Format.Tree` — the links agree with the register;
* `Radix.addDigits` — the sum without carries.

Main results:

* `Radix.Format.lookup_set_of_ne` — **frame**: a write is not seen by the numbers that begin with
  other digits;
* `Radix.Format.lookup_set_leaf` — a leaf that is written is found;
* `Radix.Format.lookup_set_absent` — where an entry is taken away, nothing is found;
* `Radix.Format.Tree.grow` — a new table changes no lookup;
* `Radix.addDigits_inj`, `Radix.addDigits_of_fits` — different summands have different sums, and where no
  carry is lost it is the sum of the numbers.
-/

import Mathlib.Data.Nat.ModEq
import Mathlib.Logic.Function.Basic
import Mathlib.Tactic.Common

set_option relaxedAutoImplicit false
set_option autoImplicit false

namespace SyncKernel

namespace Radix

/-- What an entry is read as. -/
inductive Node (τ κ : Type*)
  | absent | leaf (x : κ) | table (t : τ)

/-- The number of entries of a table, and how an entry of a table is read, by the number of digits
that are left behind it. -/
structure Format (τ ε κ : Type*) where
  fan : ℕ
  fan_pos : 0 < fan
  decode : ℕ → ε → Node τ κ

namespace Format

variable {τ ε κ : Type*} (F : Format τ ε κ)

/-- The digit of `v` in front of its last `ℓ` digits. -/
def index (ℓ v : ℕ) : ℕ := v / F.fan ^ ℓ % F.fan

/-- Looking `v` up in a table for `ℓ` digits. -/
def lookup (m : τ → ℕ → ε) : ℕ → τ → ℕ → Option κ
  | 0, _, _ => none
  | ℓ + 1, t, v =>
      match F.decode ℓ (m t (F.index ℓ v)) with
      | Node.absent => none
      | Node.leaf x => some x
      | Node.table t' => lookup m ℓ t' v

/-- The entries that a lookup reads. -/
def reads (m : τ → ℕ → ε) : ℕ → τ → ℕ → List (τ × ℕ)
  | 0, _, _ => []
  | ℓ + 1, t, v => (t, F.index ℓ v) ::
      match F.decode ℓ (m t (F.index ℓ v)) with
      | Node.table t' => reads m ℓ t' v
      | _ => []

/-- The table `t` for `ℓ` digits is reached from the root, a table for `depth` digits, by the digits
of the number `a`. -/
inductive Reach (m : τ → ℕ → ε) (depth : ℕ) (root : τ) : ℕ → τ → ℕ → Prop
  | root : Reach m depth root depth root 0
  | step {ℓ a i : ℕ} {t t' : τ} (h : Reach m depth root (ℓ + 1) t a) (hi : i < F.fan)
      (hnode : F.decode ℓ (m t i) = Node.table t') : Reach m depth root ℓ t' (a * F.fan + i)

/-- The links between the registered tables agree with the register. -/
structure Tree (m : τ → ℕ → ε) (depth : ℕ) (root : τ) (reg : τ → Option (ℕ × ℕ)) : Prop where
  root : reg root = some (depth, 0)
  link : ∀ {t : τ} {ℓ a i : ℕ} {t' : τ}, reg t = some (ℓ + 1, a) → i < F.fan →
    F.decode ℓ (m t i) = Node.table t' → reg t' = some (ℓ, a * F.fan + i)

variable {F} {m : τ → ℕ → ε} {depth : ℕ} {root : τ} {reg : τ → Option (ℕ × ℕ)} {t t' f : τ}
  {ℓ ℓ' a a' i v : ℕ}

/-! ### Digits -/

theorem index_lt (ℓ v : ℕ) : F.index ℓ v < F.fan := Nat.mod_lt _ F.fan_pos

theorem div_pow_succ (ℓ v : ℕ) : v / F.fan ^ (ℓ + 1) = v / F.fan ^ ℓ / F.fan := by
  rw [Nat.pow_succ, Nat.div_div_eq_div_mul]

theorem div_pow_eq (ℓ v : ℕ) : v / F.fan ^ ℓ = v / F.fan ^ (ℓ + 1) * F.fan + F.index ℓ v := by
  rw [div_pow_succ, index, Nat.mul_comm, Nat.div_add_mod]

/-- A number begins with certain digits when it does without the last one, which comes next. -/
theorem div_pow_eq_iff (hi : i < F.fan) :
    v / F.fan ^ ℓ = a * F.fan + i ↔ v / F.fan ^ (ℓ + 1) = a ∧ F.index ℓ v = i := by
  constructor
  · intro h
    rw [div_pow_succ, index, h, Nat.mul_comm a]
    exact ⟨by rw [Nat.mul_add_div F.fan_pos, Nat.div_eq_of_lt hi, Nat.add_zero],
      by rw [Nat.mul_add_mod, Nat.mod_eq_of_lt hi]⟩
  · rintro ⟨rfl, rfl⟩
    exact div_pow_eq ℓ v

/-! ### Reached tables -/

theorem Reach.registered (h : F.Reach m depth root ℓ t a) (hT : F.Tree m depth root reg) :
    reg t = some (ℓ, a) := by
  induction h with
  | root => exact hT.root
  | step _ hi hnode ih => exact hT.link ih hi hnode

/-- A lookup goes on at the table that the first digits lead to. -/
theorem Reach.lookup_eq (h : F.Reach m depth root ℓ t a) (hv : v / F.fan ^ ℓ = a) :
    F.lookup m depth root v = F.lookup m ℓ t v := by
  induction h with
  | root => rfl
  | step h hi hnode ih =>
      obtain ⟨ha, hindex⟩ := (div_pow_eq_iff hi).1 hv
      rw [ih ha, lookup, hindex, hnode]

/-- What is found behind the entry for the next digit. -/
theorem Reach.lookup_leaf (h : F.Reach m depth root (ℓ + 1) t a) (hi : i < F.fan) {x : κ}
    (hnode : F.decode ℓ (m t i) = Node.leaf x) (hv : v / F.fan ^ ℓ = a * F.fan + i) :
    F.lookup m depth root v = some x := by
  obtain ⟨ha, hindex⟩ := (div_pow_eq_iff hi).1 hv
  rw [h.lookup_eq ha, lookup, hindex, hnode]

/-- The entries that are read are those of the registered tables that the digits lead to. -/
theorem Tree.registered_of_reads (hT : F.Tree m depth root reg) (hv : v < F.fan ^ depth)
    (h : (t, i) ∈ F.reads m depth root v) :
    ∃ ℓ, reg t = some (ℓ + 1, v / F.fan ^ (ℓ + 1)) ∧ F.index ℓ v = i := by
  suffices hall : ∀ ℓ₀ t₀, reg t₀ = some (ℓ₀, v / F.fan ^ ℓ₀) → (t, i) ∈ F.reads m ℓ₀ t₀ v →
      ∃ ℓ, reg t = some (ℓ + 1, v / F.fan ^ (ℓ + 1)) ∧ F.index ℓ v = i from
    hall depth root (by rw [hT.root, Nat.div_eq_of_lt hv]) h
  intro ℓ₀
  induction ℓ₀ with
  | zero => exact fun _ _ h => absurd h List.not_mem_nil
  | succ ℓ₀ ih =>
      intro t₀ hreg₀ h
      rcases List.mem_cons.1 h with heq | hrest
      · obtain ⟨rfl, rfl⟩ := Prod.mk.inj heq
        exact ⟨ℓ₀, hreg₀, rfl⟩
      · cases hnode : F.decode ℓ₀ (m t₀ (F.index ℓ₀ v)) with
        | absent =>
            rw [hnode] at hrest
            exact absurd hrest List.not_mem_nil
        | leaf x =>
            rw [hnode] at hrest
            exact absurd hrest List.not_mem_nil
        | table t₁ =>
            rw [hnode] at hrest
            exact ih t₁ (by rw [hT.link hreg₀ (index_lt _ _) hnode, ← div_pow_eq]) hrest

/-! ### Writing an entry -/

section Writes

variable [DecidableEq τ]

/-- The memory with the entry `i` of the table `t` overwritten. -/
def set (m : τ → ℕ → ε) (t : τ) (i : ℕ) (e : ε) : τ → ℕ → ε :=
  Function.update m t (Function.update (m t) i e)

/-- The memory with all entries of the table `t` overwritten. -/
def clear (m : τ → ℕ → ε) (t : τ) (z : ε) : τ → ℕ → ε := Function.update m t fun _ => z

@[simp] theorem set_self (m : τ → ℕ → ε) (t : τ) (i : ℕ) (e : ε) : set m t i e t i = e := by
  simp [set]

theorem set_of_ne (e : ε) {i' : ℕ} (h : t' ≠ t ∨ i' ≠ i) : set m t i e t' i' = m t' i' := by
  by_cases ht : t' = t
  · subst ht
    rw [set, Function.update_self, Function.update_of_ne (h.resolve_left fun h => h rfl)]
  · rw [set, Function.update_of_ne ht]

theorem set_eq_self (m : τ → ℕ → ε) (t : τ) (i : ℕ) : set m t i (m t i) = m := by
  rw [set, Function.update_eq_self, Function.update_eq_self]

@[simp] theorem clear_self (m : τ → ℕ → ε) (t : τ) (z : ε) : clear m t z t i = z := by
  simp [clear]

theorem clear_of_ne (z : ε) (h : t' ≠ t) : clear m t z t' = m t' := Function.update_of_ne h _ _

/-- Tables above the one that is written are still reached. -/
theorem Reach.set (h : F.Reach m depth root ℓ' t' a') (hT : F.Tree m depth root reg)
    (hreg : reg t = some (ℓ + 1, a)) (hlt : ℓ < ℓ') (e : ε) :
    F.Reach (set m t i e) depth root ℓ' t' a' := by
  induction h with
  | root => exact Reach.root
  | step h hi hnode ih =>
      refine Reach.step (ih (by omega)) hi ?_
      rwa [set_of_ne e (Or.inl fun heq => ?_)]
      -- the level tells the tables apart
      have := (h.registered hT).symm.trans (heq ▸ hreg)
      simp only [Option.some.injEq, Prod.mk.injEq] at this
      omega

/-- **Frame.**  A write to an entry is not seen by numbers that begin with other digits. -/
theorem lookup_set_of_ne (hT : F.Tree m depth root reg) (hreg : reg t = some (ℓ + 1, a)) (e : ε)
    (hv : v < F.fan ^ depth) (hne : v / F.fan ^ ℓ ≠ a * F.fan + i) :
    F.lookup (set m t i e) depth root v = F.lookup m depth root v := by
  suffices h : ∀ ℓ₀ t₀, reg t₀ = some (ℓ₀, v / F.fan ^ ℓ₀) →
      F.lookup (set m t i e) ℓ₀ t₀ v = F.lookup m ℓ₀ t₀ v from
    h depth root (by rw [hT.root, Nat.div_eq_of_lt hv])
  intro ℓ₀
  induction ℓ₀ with
  | zero => exact fun _ _ => rfl
  | succ ℓ₀ ih =>
      intro t₀ hreg₀
      have hsame : set m t i e t₀ (F.index ℓ₀ v) = m t₀ (F.index ℓ₀ v) := by
        refine set_of_ne e (not_and_or.1 ?_)
        rintro ⟨rfl, rfl⟩
        have := hreg₀.symm.trans hreg
        simp only [Option.some.injEq, Prod.mk.injEq, Nat.add_right_cancel_iff] at this
        obtain ⟨rfl, rfl⟩ := this
        exact hne (div_pow_eq ℓ₀ v)
      rw [lookup, lookup, hsame]
      cases hnode : F.decode ℓ₀ (m t₀ (F.index ℓ₀ v)) with
      | absent => rfl
      | leaf x => rfl
      | table t₁ => exact ih t₁ (by rw [hT.link hreg₀ (index_lt _ _) hnode, ← div_pow_eq])

/-- An entry that is not read does not matter. -/
theorem lookup_set_of_notMem (e : ε) (h : (t, i) ∉ F.reads m ℓ' t' v) :
    F.lookup (set m t i e) ℓ' t' v = F.lookup m ℓ' t' v := by
  induction ℓ' generalizing t' with
  | zero => rfl
  | succ ℓ' ih =>
      obtain ⟨hfirst, hrest⟩ := not_or.1 (mt List.mem_cons.2 h)
      have hsame : set m t i e t' (F.index ℓ' v) = m t' (F.index ℓ' v) :=
        set_of_ne e (not_and_or.1 fun heq => hfirst (Prod.ext heq.1.symm heq.2.symm))
      rw [lookup, lookup, hsame]
      cases hnode : F.decode ℓ' (m t' (F.index ℓ' v)) with
      | absent => rfl
      | leaf x => rfl
      | table t₁ =>
          rw [hnode] at hrest
          exact ih hrest

/-- Where an entry that is read is taken away, nothing is found. -/
theorem lookup_set_absent {e : ε} (he : ∀ ℓ, F.decode ℓ e = Node.absent) (h : (t, i) ∈ F.reads m ℓ' t' v) :
    F.lookup (set m t i e) ℓ' t' v = none := by
  induction ℓ' generalizing t' with
  | zero => rfl
  | succ ℓ' ih =>
      by_cases hslot : t' = t ∧ F.index ℓ' v = i
      · rw [lookup, hslot.1, hslot.2, set_self, he]
      · have hrest := (List.mem_cons.1 h).resolve_left fun heq =>
          hslot ⟨(Prod.mk.inj heq).1.symm, (Prod.mk.inj heq).2.symm⟩
        rw [lookup, set_of_ne e (not_and_or.1 hslot)]
        cases hnode : F.decode ℓ' (m t' (F.index ℓ' v)) with
        | absent => rfl
        | leaf x =>
            rw [hnode] at hrest
            exact absurd hrest List.not_mem_nil
        | table t₁ =>
            rw [hnode] at hrest
            exact ih hrest

/-- An entry that is taken away lets nothing be found that was not. -/
theorem lookup_set_none {e : ε} (he : ∀ ℓ, F.decode ℓ e = Node.absent) (h : F.lookup m ℓ' t' v = none) :
    F.lookup (set m t i e) ℓ' t' v = none := by
  by_cases hmem : (t, i) ∈ F.reads m ℓ' t' v
  · exact lookup_set_absent he hmem
  · rw [lookup_set_of_notMem e hmem, h]

/-- **A leaf that is written is found**, for all numbers that begin with its digits. -/
theorem lookup_set_leaf (h : F.Reach m depth root (ℓ + 1) t a) (hT : F.Tree m depth root reg)
    (hi : i < F.fan) {e : ε} {x : κ} (he : F.decode ℓ e = Node.leaf x)
    (hv : v / F.fan ^ ℓ = a * F.fan + i) : F.lookup (set m t i e) depth root v = some x :=
  (h.set hT (h.registered hT) (Nat.lt_succ_self ℓ) e).lookup_leaf hi (by rwa [set_self]) hv

/-- A leaf adds no link. -/
theorem Tree.set_leaf (hT : F.Tree m depth root reg) (hreg : reg t = some (ℓ + 1, a)) {e : ε} {x : κ}
    (he : F.decode ℓ e = Node.leaf x) : F.Tree (set m t i e) depth root reg := by
  refine ⟨hT.root, fun {t₀ ℓ₀ a₀ i₀ t₁} hreg₀ hi₀ hnode => ?_⟩
  by_cases hslot : t₀ = t ∧ i₀ = i
  · obtain ⟨rfl, rfl⟩ := hslot
    have := hreg₀.symm.trans hreg
    simp only [Option.some.injEq, Prod.mk.injEq, Nat.add_right_cancel_iff] at this
    rw [set_self, this.1, he] at hnode
    cases hnode
  · rw [set_of_ne e (not_and_or.1 hslot)] at hnode
    exact hT.link hreg₀ hi₀ hnode

/-! ### A new table -/

/-- The memory with a blank table `f` linked from the entry `i` of the table `t`. -/
def extend (m : τ → ℕ → ε) (z : ε) (f t : τ) (i : ℕ) (e : ε) : τ → ℕ → ε := set (clear m f z) t i e

variable {z e : ε}

/-- **A new table** is reached, and nothing else changes: each lookup finds what it found, and each
table that was reached still is. -/
theorem Tree.grow (hT : F.Tree m depth root reg) (ht : F.Reach m depth root (ℓ + 1) t a)
    (hi : i < F.fan) (habsent : F.decode ℓ (m t i) = Node.absent) (hf : reg f = none)
    (hz : ∀ ℓ, F.decode ℓ z = Node.absent) (he : F.decode ℓ e = Node.table f) :
    F.Tree (extend m z f t i e) depth root (Function.update reg f (some (ℓ, a * F.fan + i))) ∧
      F.Reach (extend m z f t i e) depth root ℓ f (a * F.fan + i) ∧
      (∀ v < F.fan ^ depth,
        F.lookup (extend m z f t i e) depth root v = F.lookup m depth root v) ∧
      ∀ ℓ' t' a', F.Reach m depth root ℓ' t' a' → F.Reach (extend m z f t i e) depth root ℓ' t' a' := by
  have hreg := ht.registered hT
  have hne : ∀ {t₀ x}, reg t₀ = some x → t₀ ≠ f := fun h heq => by
    rw [heq, hf] at h
    cases h
  have hslot : extend m z f t i e t i = e := set_self _ _ _ _
  have hother : ∀ {t₀ i₀}, t₀ ≠ f → ¬ (t₀ = t ∧ i₀ = i) → extend m z f t i e t₀ i₀ = m t₀ i₀ :=
    fun h h' => by rw [extend, set_of_ne e (not_and_or.1 h'), clear_of_ne z h]
  have hnew : ∀ i₀, extend m z f t i e f i₀ = z := fun i₀ => by
    rw [extend, set_of_ne e (Or.inl (hne hreg).symm), clear_self]
  -- a link is met by no other name than before
  have hreach : ∀ ℓ' t' a', F.Reach m depth root ℓ' t' a' →
      F.Reach (extend m z f t i e) depth root ℓ' t' a' := by
    intro ℓ' t' a' h
    induction h with
    | root => exact Reach.root
    | step h hi₀ hnode ih =>
        refine Reach.step ih hi₀ ?_
        rwa [hother (hne (h.registered hT))]
        rintro ⟨rfl, rfl⟩
        have := (h.registered hT).symm.trans hreg
        simp only [Option.some.injEq, Prod.mk.injEq, Nat.add_right_cancel_iff] at this
        rw [this.1, habsent] at hnode
        cases hnode
  refine ⟨⟨?_, fun {t₀ ℓ₀ a₀ i₀ t₁} hreg₀ hi₀ hnode => ?_⟩, ?_, fun v hv => ?_, hreach⟩
  · rw [Function.update_of_ne (hne hT.root)]
    exact hT.root
  · by_cases hf₀ : t₀ = f
    · rw [hf₀, hnew, hz] at hnode
      cases hnode
    rw [Function.update_of_ne hf₀] at hreg₀
    by_cases hs : t₀ = t ∧ i₀ = i
    · obtain ⟨rfl, rfl⟩ := hs
      have := hreg₀.symm.trans hreg
      simp only [Option.some.injEq, Prod.mk.injEq, Nat.add_right_cancel_iff] at this
      obtain ⟨rfl, rfl⟩ := this
      rw [hslot, he] at hnode
      obtain rfl : f = t₁ := by simpa using hnode
      rw [Function.update_self]
    · rw [hother hf₀ hs] at hnode
      have hreg₁ := hT.link hreg₀ hi₀ hnode
      rwa [Function.update_of_ne (hne hreg₁)]
  · exact Reach.step (hreach _ _ _ ht) hi (by rw [hslot, he])
  · suffices h : ∀ ℓ₀ t₀, reg t₀ = some (ℓ₀, v / F.fan ^ ℓ₀) →
        F.lookup (extend m z f t i e) ℓ₀ t₀ v = F.lookup m ℓ₀ t₀ v from
      h depth root (by rw [hT.root, Nat.div_eq_of_lt hv])
    intro ℓ₀
    induction ℓ₀ with
    | zero => exact fun _ _ => rfl
    | succ ℓ₀ ih =>
        intro t₀ hreg₀
        rw [lookup, lookup]
        by_cases hs : t₀ = t ∧ F.index ℓ₀ v = i
        · obtain ⟨rfl, rfl⟩ := hs
          have := hreg₀.symm.trans hreg
          simp only [Option.some.injEq, Prod.mk.injEq, Nat.add_right_cancel_iff] at this
          obtain ⟨rfl, -⟩ := this
          rw [hslot, he, habsent]
          -- the new table is blank
          change F.lookup (extend m z f t₀ _ e) ℓ₀ f v = none
          cases ℓ₀ with
          | zero => rfl
          | succ ℓ₀ => rw [lookup, hnew, hz]
        · rw [hother (hne hreg₀) hs]
          cases hnode : F.decode ℓ₀ (m t₀ (F.index ℓ₀ v)) with
          | absent => rfl
          | leaf x => rfl
          | table t₁ => exact ih t₁ (by rw [hT.link hreg₀ (index_lt _ _) hnode, ← div_pow_eq])

end Writes

end Format

/-! ### Adding digit by digit -/

/-- The sum of two numbers digit by digit, without carries, for the last `k` digits to the base `b`. -/
def addDigits (b : ℕ) : ℕ → ℕ → ℕ → ℕ
  | 0, _, _ => 0
  | k + 1, x, y => addDigits b k (x / b) (y / b) * b + (x + y) % b

section AddDigits

variable {b k : ℕ}

theorem addDigits_lt (hb : 0 < b) (k x y : ℕ) : addDigits b k x y < b ^ k := by
  induction k generalizing x y with
  | zero => exact Nat.one_pos
  | succ k ih =>
      have hlow := Nat.mod_lt (x + y) hb
      have hmul := Nat.mul_le_mul_right b (ih (x / b) (y / b))
      rw [addDigits, Nat.pow_succ]
      rw [Nat.succ_mul] at hmul
      omega

/-- The digits in front of the last one. -/
theorem addDigits_div (hb : 0 < b) (j k x y : ℕ) :
    addDigits b (k + j) x y / b ^ j = addDigits b k (x / b ^ j) (y / b ^ j) := by
  induction j generalizing x y with
  | zero => simp
  | succ j ih =>
      have hlow : (addDigits b (k + j) (x / b) (y / b) * b + (x + y) % b) / b =
          addDigits b (k + j) (x / b) (y / b) := by
        rw [Nat.mul_comm, Nat.mul_add_div hb, Nat.div_eq_of_lt (Nat.mod_lt _ hb), Nat.add_zero]
      rw [← Nat.add_assoc, addDigits, Nat.pow_succ', ← Nat.div_div_eq_div_mul, hlow, ih,
        Nat.div_div_eq_div_mul, Nat.div_div_eq_div_mul]

/-- Different summands have different sums. -/
theorem addDigits_inj (hb : 0 < b) {x y z : ℕ} (hy : y < b ^ k) (hz : z < b ^ k)
    (h : addDigits b k x y = addDigits b k x z) : y = z := by
  induction k generalizing x y z with
  | zero => rw [Nat.pow_zero] at hy hz; omega
  | succ k ih =>
      have hhigh : addDigits b k (x / b) (y / b) = addDigits b k (x / b) (z / b) := by
        have hy' := addDigits_div hb 1 k x y
        have hz' := addDigits_div hb 1 k x z
        rw [Nat.pow_one] at hy' hz'
        rw [← hy', ← hz', h]
      have hlow : (x + y) % b = (x + z) % b := by
        have hmod := congrArg (· % b) h
        simpa only [addDigits, Nat.mul_add_mod_self_right, Nat.mod_mod] using hmod
      rw [Nat.pow_succ'] at hy hz
      have hdiv : y / b = z / b := ih (Nat.div_lt_of_lt_mul hy) (Nat.div_lt_of_lt_mul hz) hhigh
      have hmod : y % b = z % b := Nat.ModEq.add_left_cancel' x hlow
      rw [← Nat.div_add_mod y b, ← Nat.div_add_mod z b, hdiv, hmod]

/-- Where no carry is lost the sum is the sum of the numbers. -/
theorem addDigits_eq_add (hb : 0 < b) {x y : ℕ} (hlt : x + y < b ^ k)
    (h : ∀ j < k, x % b ^ j + y % b ^ j < b ^ j) : addDigits b k x y = x + y := by
  induction k generalizing x y with
  | zero =>
      rw [Nat.pow_zero] at hlt
      rw [addDigits]
      omega
  | succ k ih =>
      have hlow : x % b + y % b < b := by
        cases k with
        | zero =>
            rw [Nat.zero_add, Nat.pow_one] at hlt
            rwa [Nat.mod_eq_of_lt (by omega), Nat.mod_eq_of_lt (by omega)]
        | succ k => simpa only [Nat.pow_one] using h 1 (by omega)
      have hdiv : (x + y) / b = x / b + y / b := by
        rw [Nat.add_div hb, if_neg (by omega), Nat.add_zero]
      have hrest : ∀ j < k, x / b % b ^ j + y / b % b ^ j < b ^ j := by
        intro j hj
        have hcarry := h (j + 1) (by omega)
        rw [Nat.pow_succ'] at hcarry
        rw [← Nat.mod_mul_right_div_self, ← Nat.mod_mul_right_div_self]
        exact Nat.lt_of_le_of_lt Nat.div_add_div_le_add_div (Nat.div_lt_of_lt_mul hcarry)
      have hlt' : x / b + y / b < b ^ k := by
        rw [← hdiv]
        exact Nat.div_lt_of_lt_mul (by rwa [← Nat.pow_succ'])
      rw [addDigits, ih hlt' hrest, ← hdiv, Nat.mul_comm, Nat.div_add_mod]

/-- The numbers that follow `x` come one behind the other, without a carry, when their last digits begin
with zeros or do not run over. -/
theorem addDigits_of_fits (hb : 0 < b) {x n y : ℕ} (hlt : x + n ≤ b ^ k)
    (h : ∀ j < k, b ^ j ∣ x ∨ x % b ^ j + n ≤ b ^ j) (hy : y < n) : addDigits b k x y = x + y := by
  refine addDigits_eq_add hb (Nat.lt_of_lt_of_le (Nat.add_lt_add_left hy x) hlt) fun j hj => ?_
  cases h j hj with
  | inl hdvd =>
      rw [Nat.mod_eq_zero_of_dvd hdvd, Nat.zero_add]
      exact Nat.mod_lt _ (Nat.pow_pos hb)
  | inr hone =>
      have hle := Nat.mod_le y (b ^ j)
      omega

/-- When the numbers that follow `x` come one behind the other, their last digits begin with zeros or do
not run over. -/
theorem fits_of_addDigits (hb : 0 < b) {x n j : ℕ} (hj : j ≤ k) (h : ∀ y < n, addDigits b k x y = x + y) :
    b ^ j ∣ x ∨ x % b ^ j + n ≤ b ^ j := by
  by_contra hnot
  push Not at hnot
  obtain ⟨hdvd, hover⟩ := hnot
  have hpos : 0 < x % b ^ j := Nat.pos_of_ne_zero fun hzero => hdvd (Nat.dvd_of_mod_eq_zero hzero)
  have hlt := Nat.mod_lt x (Nat.pow_pos (n := j) hb)
  obtain ⟨m, rfl⟩ := Nat.exists_eq_add_of_le' hj
  -- the digits in front of the last ones stay, where they have to be counted up
  have hzero := congrArg (· / b ^ j) (h 0 (by omega))
  have hcarry := congrArg (· / b ^ j) (h (b ^ j - x % b ^ j) (by omega))
  rw [addDigits_div hb, Nat.zero_div, Nat.add_zero] at hzero
  have hsum : x + (b ^ j - x % b ^ j) = (x / b ^ j + 1) * b ^ j := by
    have hsplit := Nat.div_add_mod' x (b ^ j)
    rw [Nat.succ_mul]
    omega
  rw [addDigits_div hb, Nat.div_eq_of_lt (a := b ^ j - x % b ^ j) (by omega), hzero, hsum,
    Nat.mul_div_cancel _ (Nat.pow_pos hb)] at hcarry
  omega

end AddDigits

end Radix

end SyncKernel
