/-
**Painting.**

A function on a memory paints certain values at certain places, and leaves all other places as they
are.  Where it paints more than one value at a place, it is left open which one is seen; as long as
there is only one for each place, what is painted decides what the memory is behind it.

Main definitions:

* `Paints` — the values that a memory shows at the places that have been painted.

Main results:

* `Paints.trans`, `Paints.foldl`, `Paints.foldlM`, `Paints.foldlM_view` — one function behind the
  other, and loops;
* `Paints.eq_of_iff` — **what is painted decides**, when no place gets two values.
-/

import Mathlib.Logic.Function.Basic
import Mathlib.Logic.Nontrivial.Basic

set_option relaxedAutoImplicit false
set_option autoImplicit false

namespace SyncKernel

variable {α β ι : Type*}

/-- The memory `m'` shows one of the values `A` at the places that have one, and is `m` at the
others. -/
def Paints (A : α → β → Prop) (m m' : α → β) : Prop :=
  ∀ a, A a (m' a) ∨ ((∀ b, ¬ A a b) ∧ m' a = m a)

namespace Paints

variable {A B : α → β → Prop} {m m' m'' : α → β} {a : α} {b : β}

theorem refl (m : α → β) : Paints (fun _ _ => False) m m := fun _ => Or.inr ⟨fun _ h => h, rfl⟩

theorem congr (h : Paints A m m') (hAB : ∀ a b, A a b ↔ B a b) : Paints B m m' := fun a =>
  (h a).imp (hAB a _).1 fun hout => ⟨fun b hb => hout.1 b ((hAB a b).2 hb), hout.2⟩

/-- **One behind the other**: both are seen. -/
theorem trans (h : Paints A m m') (h' : Paints B m' m'') :
    Paints (fun a b => A a b ∨ B a b) m m'' := by
  intro a
  rcases h' a with hB | ⟨hB, heq'⟩
  · exact Or.inl (Or.inr hB)
  · rcases h a with hA | ⟨hA, heq⟩
    · exact Or.inl (Or.inl (heq' ▸ hA))
    · exact Or.inr ⟨fun b hb => hb.elim (hA b) (hB b), heq'.trans heq⟩

theorem update [DecidableEq α] (m : α → β) (a : α) (b : β) :
    Paints (fun a' b' => a' = a ∧ b' = b) m (Function.update m a b) := by
  intro a'
  by_cases ha : a' = a
  · exact Or.inl ⟨ha, by rw [ha, Function.update_self]⟩
  · exact Or.inr ⟨fun b' hb' => ha hb'.1, Function.update_of_ne ha b m⟩

/-- A loop paints what its turns paint. -/
theorem foldl {A : ι → α → β → Prop} {f : (α → β) → ι → α → β} (h : ∀ x m, Paints (A x) m (f m x))
    (l : List ι) (m : α → β) : Paints (fun a b => ∃ x ∈ l, A x a b) m (l.foldl f m) := by
  induction l generalizing m with
  | nil => exact (refl m).congr fun a b => by simp
  | cons x l ih => exact ((h x m).trans (ih (f m x))).congr fun a b => by simp

/-- A loop whose turns may fail. -/
theorem foldlM {A : ι → α → β → Prop} {f : (α → β) → ι → Option (α → β)} {l : List ι}
    (h : ∀ x ∈ l, ∀ m, ∃ m', f m x = some m' ∧ Paints (A x) m m') (m : α → β) :
    ∃ m', l.foldlM f m = some m' ∧ Paints (fun a b => ∃ x ∈ l, A x a b) m m' := by
  induction l generalizing m with
  | nil => exact ⟨m, rfl, (refl m).congr fun a b => by simp⟩
  | cons x l ih =>
      obtain ⟨m₁, hm₁, hpaint₁⟩ := h x List.mem_cons_self m
      obtain ⟨m', hm', hpaint⟩ := ih (fun y hy => h y (List.mem_cons_of_mem x hy)) m₁
      refine ⟨m', ?_, (hpaint₁.trans hpaint).congr fun a b => by simp⟩
      rw [List.foldlM_cons, hm₁]
      exact hm'

/-- **What is painted decides**, when no place gets two values. -/
theorem eq_of_iff (h : Paints A m m') (h' : Paints B m m'') (hAB : ∀ a b, A a b ↔ B a b)
    (hone : ∀ a b b', A a b → A a b' → b = b') : m' = m'' := by
  funext a
  rcases h a with hA | ⟨hA, heq⟩
  · rcases h' a with hB | ⟨hB, -⟩
    · exact hone a _ _ hA ((hAB a _).2 hB)
    · exact absurd ((hAB a _).1 hA) (hB _)
  · rcases h' a with hB | ⟨-, heq'⟩
    · exact absurd ((hAB a _).2 hB) (hA _)
    · exact heq.trans heq'.symm

/-- A place that has a value shows one. -/
theorem of_exists (h : Paints A m m') (b : β) (ha : A a b) : A a (m' a) :=
  (h a).elim id fun hout => absurd ha (hout.1 b)

/-- A loop whose state is looked at as a memory. -/
theorem foldlM_view {σ : Type*} {A : ι → α → β → Prop} {f : σ → ι → Option σ} {l : List ι}
    (view : σ → α → β)
    (h : ∀ x ∈ l, ∀ s, ∃ s', f s x = some s' ∧ Paints (A x) (view s) (view s')) (s : σ) :
    ∃ s', l.foldlM f s = some s' ∧ Paints (fun a b => ∃ x ∈ l, A x a b) (view s) (view s') := by
  induction l generalizing s with
  | nil => exact ⟨s, rfl, (refl (view s)).congr fun a b => by simp⟩
  | cons x l ih =>
      obtain ⟨s₁, hs₁, hpaint₁⟩ := h x List.mem_cons_self s
      obtain ⟨s', hs', hpaint⟩ := ih (fun y hy => h y (List.mem_cons_of_mem x hy)) s₁
      refine ⟨s', ?_, (hpaint₁.trans hpaint).congr fun a b => by simp⟩
      rw [List.foldlM_cons, hs₁]
      exact hs'

/-- A loop that does not fail. -/
theorem foldl_view {σ : Type*} {A : ι → α → β → Prop} {f : σ → ι → σ} {l : List ι} (view : σ → α → β)
    (h : ∀ x ∈ l, ∀ s, Paints (A x) (view s) (view (f s x))) (s : σ) :
    Paints (fun a b => ∃ x ∈ l, A x a b) (view s) (view (l.foldl f s)) := by
  obtain ⟨s', hs', hpaint⟩ := foldlM_view (f := fun s x => some (f s x)) view
    (fun x hx s => ⟨_, rfl, h x hx s⟩) s
  obtain rfl : l.foldl f s = s' := Option.some_inj.1 ((List.foldlM_pure ..).symm.trans hs')
  exact hpaint

/-- A single value at the places of a set is seen there. -/
theorem eq_ite {P : α → Prop} [DecidablePred P] (h : Paints (fun a' b' => P a' ∧ b' = b) m m') :
    m' = fun a => if P a then b else m a := by
  funext a
  by_cases ha : P a
  · rw [if_pos ha]
    exact (of_exists h b ⟨ha, rfl⟩).2
  · rw [if_neg ha]
    rcases h a with hin | hout
    · exact absurd hin.1 ha
    · exact hout.2

/-- What always leads to the same memory paints the same places: here, those with a single value. -/
theorem exists_of_both [Nontrivial β] (h : ∀ m : α → β, ∃ m', Paints A m m' ∧ Paints B m m')
    (hB : ∀ b', B a b' ↔ b' = b) : ∃ b', A a b' := by
  obtain ⟨b₁, hne⟩ := exists_ne b
  obtain ⟨m', hpaintA, hpaintB⟩ := h fun _ => b₁
  rcases hpaintA a with hA | ⟨-, heq⟩
  · exact ⟨_, hA⟩
  · rcases hpaintB a with hb | ⟨hout, -⟩
    · exact absurd (heq.symm.trans ((hB _).1 hb)) hne
    · exact absurd ((hB b).2 rfl) (hout b)

end Paints

/-- What each turn of a loop keeps, the loop keeps. -/
theorem foldlM_keeps {σ : Type*} {Q : σ → Prop} {f : σ → ι → Option σ} {l : List ι}
    (h : ∀ x ∈ l, ∀ s s', Q s → f s x = some s' → Q s') {s s' : σ} (hs : Q s) (hrun : l.foldlM f s = some s') :
    Q s' := by
  induction l generalizing s with
  | nil => exact Option.some_inj.1 hrun ▸ hs
  | cons x l ih =>
      rw [List.foldlM_cons] at hrun
      obtain ⟨s₁, hs₁, hrun⟩ := Option.bind_eq_some_iff.1 hrun
      exact ih (fun y hy => h y (List.mem_cons_of_mem x hy)) (h x List.mem_cons_self s s₁ hs hs₁) hrun

/-- A loop fails with one of its turns. -/
theorem foldlM_eq_none {σ : Type*} {f : σ → ι → Option σ} {l : List ι} {x : ι} (hx : x ∈ l)
    (hf : ∀ s, f s x = none) (s : σ) : l.foldlM f s = none := by
  induction l generalizing s with
  | nil => exact absurd hx List.not_mem_nil
  | cons y l ih =>
      rw [List.foldlM_cons]
      cases List.mem_cons.1 hx with
      | inl heq => rw [← heq, hf]; rfl
      | inr hx =>
          cases f s y with
          | none => rfl
          | some s' => exact ih hx s'

end SyncKernel
