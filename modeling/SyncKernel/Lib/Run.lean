/-
**Runs of a partial step function.**

A component is a step function `step : σ → ω → Option σ`: from a state and an operation it gives
the next state, or nothing when the operation faults (a dereference of a null pointer, a write
outside an array) or does not return.  A run is a list of operations, and this module says what it
means for a property to hold along a run, and how that is proved from one step.

Main definitions:

* `Run.exec` — the state after a list of operations;
* `Run.Along` — every operation of the run meets a condition in the state it is applied to;
* `Run.Every` — no operation of the run faults, and each of its steps, with the state before it,
  the operation and the state after it, has a property.

Main results:

* `Run.every_of_along` — **the invariant rule**: what one step preserves, a run preserves;
* `Run.exec_of_along` — the same rule for the state at the end;
* `Run.every_iff_along` — **the exact rule**: when the property holds of the steps that meet a
  condition, and of no other step, it holds of a run exactly when every step meets the condition;
* `Run.loop_spec`, `Run.loop_inv` — **the loop rule**, for a counted loop `Run.loop`, with and without
  its termination.
-/

import Mathlib.Data.List.Basic

set_option relaxedAutoImplicit false
set_option autoImplicit false

namespace SyncKernel

namespace Run

variable {σ ω : Type*} {step : σ → ω → Option σ}

/-- The state after the operations of a run, if none of them faults. -/
def exec (step : σ → ω → Option σ) : σ → List ω → Option σ
  | s, [] => some s
  | s, o :: os => (step s o).bind fun s' => exec step s' os

/-- Every operation of the run meets `C` in the state it is applied to. -/
def Along (step : σ → ω → Option σ) (C : σ → ω → Prop) : σ → List ω → Prop
  | _, [] => True
  | s, o :: os => C s o ∧ ∀ s', step s o = some s' → Along step C s' os

/-- No operation of the run faults, and every step of it has the property `R`. -/
def Every (step : σ → ω → Option σ) (R : σ → ω → σ → Prop) : σ → List ω → Prop
  | _, [] => True
  | s, o :: os => ∃ s', step s o = some s' ∧ R s o s' ∧ Every step R s' os

/-- Whether a run meets a condition can be decided by running it. -/
instance decidableAlong {C : σ → ω → Prop} [∀ s o, Decidable (C s o)] :
    ∀ (s : σ) (os : List ω), Decidable (Along step C s os)
  | _, [] => isTrue trivial
  | s, o :: os =>
      match inferInstanceAs (Decidable (C s o)) with
      | isFalse h => isFalse fun hA => h hA.1
      | isTrue h =>
          match hs : step s o with
          | none => isTrue ⟨h, fun _ hs' => nomatch hs.symm.trans hs'⟩
          | some s' =>
              match decidableAlong s' os with
              | isTrue hA => isTrue ⟨h, fun _ hs' => Option.some_inj.1 (hs.symm.trans hs') ▸ hA⟩
              | isFalse hA => isFalse fun hB => hA (hB.2 s' hs)

@[simp] theorem exec_nil (s : σ) : exec step s [] = some s := rfl

theorem exec_cons_of_step {s s' : σ} {o : ω} (os : List ω) (h : step s o = some s') :
    exec step s (o :: os) = exec step s' os := by
  rw [exec, h, Option.bind_some]

theorem along_cons_of_step {C : σ → ω → Prop} {s s' : σ} {o : ω} {os : List ω} (hC : C s o)
    (h : step s o = some s') (hrest : Along step C s' os) : Along step C s (o :: os) :=
  ⟨hC, fun _ hs₁ => Option.some_inj.1 (h.symm.trans hs₁) ▸ hrest⟩

/-- A run that meets a condition meets a weaker one. -/
theorem Along.mono {C C' : σ → ω → Prop} (hC : ∀ s o, C s o → C' s o) {s : σ} {os : List ω}
    (h : Along step C s os) : Along step C' s os := by
  induction os generalizing s with
  | nil => trivial
  | cons o os ih => exact ⟨hC s o h.1, fun s' hs' => ih (h.2 s' hs')⟩

/-- The last step of a run has the property of every step. -/
theorem Every.last {R : σ → ω → σ → Prop} (os : List ω) {o : ω} :
    ∀ {s : σ}, Every step R s (os ++ [o]) →
      ∃ s₁ s₂, exec step s os = some s₁ ∧ step s₁ o = some s₂ ∧ R s₁ o s₂ := by
  induction os with
  | nil =>
      rintro s ⟨s₂, hs₂, hR, -⟩
      exact ⟨s, s₂, rfl, hs₂, hR⟩
  | cons p os ih =>
      rintro s ⟨s', hs', -, h⟩
      obtain ⟨s₁, s₂, hs₁, hs₂, hR⟩ := ih h
      exact ⟨s₁, s₂, by rw [exec_cons_of_step os hs', hs₁], hs₂, hR⟩

/-- A run whose last step lacks the property is refuted by running it. -/
theorem not_every_of_last {R : σ → ω → σ → Prop} (bad : σ → σ → Bool) (os : List ω) {o : ω} {s : σ}
    (hbad : ∀ s₁ s₂, R s₁ o s₂ → bad s₁ s₂ = false)
    (hrun : ((exec step s os).bind fun s₁ => (step s₁ o).map (bad s₁)) = some true) :
    ¬ Every step R s (os ++ [o]) := by
  intro h
  obtain ⟨s₁, s₂, hs₁, hs₂, hR⟩ := h.last
  rw [hs₁, Option.bind_some, hs₂, Option.map_some, hbad s₁ s₂ hR] at hrun
  cases hrun

/-- **The invariant rule**: if a step that meets `C` from a state with `I` does not fault, has the
property `R` and restores `I`, then so does every step of a run along which `C` is met. -/
theorem every_of_along {C : σ → ω → Prop} {I : σ → Prop} {R : σ → ω → σ → Prop}
    (hstep : ∀ s o, I s → C s o → ∃ s', step s o = some s' ∧ R s o s' ∧ I s') :
    ∀ {s : σ} {os : List ω}, I s → Along step C s os → Every step R s os := by
  intro s os
  induction os generalizing s with
  | nil => intro _ _; trivial
  | cons o os ih =>
      rintro hI ⟨hC, hrest⟩
      obtain ⟨s₁, hs₁, hR, hI₁⟩ := hstep s o hI hC
      exact ⟨s₁, hs₁, hR, ih hI₁ (hrest s₁ hs₁)⟩

/-- The invariant rule for the state at the end of the run. -/
theorem exec_of_along {C : σ → ω → Prop} {I : σ → Prop}
    (hstep : ∀ s o, I s → C s o → ∃ s', step s o = some s' ∧ I s') :
    ∀ {s : σ} {os : List ω}, I s → Along step C s os → ∃ s', exec step s os = some s' ∧ I s' := by
  intro s os
  induction os generalizing s with
  | nil => intro hI _; exact ⟨s, rfl, hI⟩
  | cons o os ih =>
      rintro hI ⟨hC, hrest⟩
      obtain ⟨s₁, hs₁, hI₁⟩ := hstep s o hI hC
      obtain ⟨s', hs', hI'⟩ := ih hI₁ (hrest s₁ hs₁)
      exact ⟨s', by rw [exec_cons_of_step os hs₁, hs'], hI'⟩

/-- **The exact rule**: among the operations allowed by `V`, those that meet `C` have the property
`R` and keep the invariant, and no other has the property.  Then, on allowed runs, every step has
the property exactly when every operation meets `C`. -/
theorem every_iff_along {V C : σ → ω → Prop} {I : σ → Prop} {R : σ → ω → σ → Prop}
    (hgood : ∀ s o, I s → V s o → C s o → ∃ s', step s o = some s' ∧ R s o s' ∧ I s')
    (hbad : ∀ s o s', I s → V s o → ¬ C s o → step s o = some s' → ¬ R s o s') :
    ∀ {s : σ} {os : List ω}, I s → Along step V s os →
      (Every step R s os ↔ Along step C s os) := by
  intro s os
  induction os generalizing s with
  | nil => intro _ _; exact ⟨fun _ => trivial, fun _ => trivial⟩
  | cons o os ih =>
      rintro hI ⟨hV, hrest⟩
      constructor
      · rintro ⟨s₁, hs₁, hR, h⟩
        by_cases hC : C s o
        · obtain ⟨s₂, hs₂, -, hI₂⟩ := hgood s o hI hV hC
          obtain rfl : s₁ = s₂ := Option.some_inj.1 (hs₁.symm.trans hs₂)
          exact along_cons_of_step hC hs₁ ((ih hI₂ (hrest s₁ hs₁)).1 h)
        · exact absurd hR (hbad s o s₁ hI hV hC hs₁)
      · rintro ⟨hC, hrest'⟩
        obtain ⟨s₁, hs₁, hR, hI₁⟩ := hgood s o hI hV hC
        exact ⟨s₁, hs₁, hR, (ih hI₁ (hrest s₁ hs₁)).2 (hrest' s₁ hs₁)⟩

/-! ### Counted loops -/

/-- The state after the turns `0, 1, …, n - 1` of a loop. -/
def loop (f : ℕ → σ → Option σ) : ℕ → σ → Option σ
  | 0, s => some s
  | n + 1, s => (loop f n s).bind (f n)

theorem loop_one (f : ℕ → σ → Option σ) (s : σ) : loop f 1 s = f 0 s := rfl

/-- **The loop rule**: what the turn `i` takes from `I i` to `I (i + 1)` holds behind the loop. -/
theorem loop_spec {f : ℕ → σ → Option σ} {I : ℕ → σ → Prop} {n : ℕ}
    (hstep : ∀ i < n, ∀ s, I i s → ∃ s', f i s = some s' ∧ I (i + 1) s') {s : σ} (h : I 0 s) :
    ∃ s', loop f n s = some s' ∧ I n s' := by
  induction n with
  | zero => exact ⟨s, rfl, h⟩
  | succ n ih =>
      obtain ⟨s₁, hs₁, hI₁⟩ := ih fun i hi => hstep i (Nat.lt_succ_of_lt hi)
      obtain ⟨s', hs', hI'⟩ := hstep n (Nat.lt_succ_self n) s₁ hI₁
      exact ⟨s', by rw [loop, hs₁, Option.bind_some, hs'], hI'⟩

/-- The loop rule for a loop whose turns all return. -/
theorem loop_inv {f : ℕ → σ → Option σ} {I : ℕ → σ → Prop} {n : ℕ}
    (hstep : ∀ i < n, ∀ s s', I i s → f i s = some s' → I (i + 1) s') {s s' : σ} (h : I 0 s)
    (hloop : loop f n s = some s') : I n s' := by
  induction n generalizing s' with
  | zero => exact Option.some_inj.1 hloop ▸ h
  | succ n ih =>
      rw [loop, Option.bind_eq_some_iff] at hloop
      obtain ⟨s₁, hs₁, hs'⟩ := hloop
      exact hstep n (Nat.lt_succ_self n) s₁ s' (ih (fun i hi => hstep i (Nat.lt_succ_of_lt hi)) hs₁) hs'

end Run

end SyncKernel
