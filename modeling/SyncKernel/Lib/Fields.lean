/-
**Records in memory.**

A record has its fields at some addresses, and a program that changes records writes their fields.  This
module says what a memory holds after a list of writes, when the records have no address in common.

Main definitions:

* `Fields.put` — the memory after a list of writes.

Main results:

* `Fields.put_of_notMem`, `Fields.put_of_mem` — what it holds at an address;
* `Fields.put_records` — **writing records** that are apart.
-/

import Mathlib.Data.List.Basic

set_option relaxedAutoImplicit false
set_option autoImplicit false

namespace SyncKernel

namespace Fields

variable {α β κ : Type*} [DecidableEq α] {mem : α → β} {ws : List (α × β)} {x : α}

/-- The memory after a list of writes, each of them an address and a value. -/
def put (mem : α → β) (ws : List (α × β)) : α → β :=
  ws.foldl (fun mem w => Function.update mem w.1 w.2) mem

@[simp] theorem put_nil (mem : α → β) : put mem [] = mem := rfl

theorem put_cons (mem : α → β) (w : α × β) (ws : List (α × β)) :
    put mem (w :: ws) = put (Function.update mem w.1 w.2) ws := rfl

theorem put_of_notMem (h : ∀ w ∈ ws, w.1 ≠ x) : put mem ws x = mem x := by
  induction ws generalizing mem with
  | nil => rfl
  | cons w ws ih =>
      rw [put_cons, ih fun w' hw' => h w' (List.mem_cons_of_mem _ hw')]
      exact Function.update_of_ne (h w List.mem_cons_self).symm _ _

/-- An address that is written with one value only. -/
theorem put_of_mem {w : α × β} (hw : w ∈ ws) (hone : ∀ w' ∈ ws, w'.1 = w.1 → w' = w) :
    put mem ws w.1 = w.2 := by
  induction ws generalizing mem with
  | nil => exact absurd hw List.not_mem_nil
  | cons u ws ih =>
      rw [put_cons]
      by_cases hin : w ∈ ws
      · exact ih hin fun w' hw' => hone w' (List.mem_cons_of_mem _ hw')
      · obtain rfl : w = u := (List.mem_cons.1 hw).resolve_right hin
        rw [put_of_notMem fun w' hw' heq => ?_, Function.update_self]
        exact hin (hone w' (List.mem_cons_of_mem _ hw') heq ▸ hw')

/-- **Writing records** that have no address in common: each field has its value. -/
theorem put_records {f : κ → List (α × β)} {l : List κ}
    (hapart : ∀ a ∈ l, ∀ b ∈ l, ∀ w ∈ f a, ∀ w' ∈ f b, w.1 = w'.1 → w = w') {a : κ} (ha : a ∈ l)
    {w : α × β} (hw : w ∈ f a) : put mem (l.flatMap f) w.1 = w.2 := by
  refine put_of_mem (List.mem_flatMap.2 ⟨a, ha, hw⟩) fun w' hw' heq => ?_
  obtain ⟨b, hb, hwb⟩ := List.mem_flatMap.1 hw'
  exact hapart b hb a ha w' hwb w hw heq

end Fields

end SyncKernel
