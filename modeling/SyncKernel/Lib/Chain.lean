/-
**Singly linked lists through a store of links.**

A C list is a set of *links*, each of which is a location that holds a pointer: the head of the
list and the `next` field of every node.  Code that walks such a list by a pointer to a pointer
(`p = &(*p)->next`) walks these locations, and inserts or removes a node by writing one of them.
This module describes the lists in a store `mem : β → α` from locations to pointers, where
`next a` is the location of the link field of the node `a` and `null` ends a list.

Main definitions:

* `Chain next null mem p l` — the list that starts at the location `p` has the nodes `l`;
* `Reaches next null mem p a` — the node `a` is met on the way from `p`;
* `linkOf next p l` — the location that follows the nodes `l`, which is where the walk stands
  after them;
* `findLink` — the walk `while (*p && *p != t) p = &(*p)->next`, with a bound on its steps;
* `follow` — the nodes read off from a location.

Main results:

* `Chain.congr`, `Chain.update_of_notMem` — a list depends on its own links only;
* `Chain.push`, `Chain.pop`, `Chain.unlink`, `Chain.append` — the four edits;
* `findLink_mem`, `findLink_end` — where the walk stops;
* `Chain.follow_eq` — reading a list off returns its nodes.
-/

import Mathlib.Data.List.Basic
import Mathlib.Data.List.Nodup
import Mathlib.Data.Finset.Card
import Mathlib.Logic.Function.Basic

set_option relaxedAutoImplicit false
set_option autoImplicit false

namespace SyncKernel

variable {α β : Type*} {next : α → β} {null : α} {mem mem' : β → α}

/-- The list that starts at the location `p` has the nodes `l`. -/
def Chain (next : α → β) (null : α) (mem : β → α) : β → List α → Prop
  | p, [] => mem p = null
  | p, a :: l => mem p = a ∧ a ≠ null ∧ Chain next null mem (next a) l

/-- The node `a` is met on the way from the location `p`. -/
inductive Reaches (next : α → β) (null : α) (mem : β → α) : β → α → Prop
  | here {p : β} : mem p ≠ null → Reaches next null mem p (mem p)
  | next {p : β} {a : α} : mem p ≠ null → Reaches next null mem (next (mem p)) a →
      Reaches next null mem p a

/-- The location after the nodes `l` of a list that starts at `p`. -/
def linkOf (next : α → β) : β → List α → β
  | p, [] => p
  | _, a :: l => linkOf next (next a) l

@[simp] theorem chain_nil {p : β} : Chain next null mem p [] ↔ mem p = null := Iff.rfl

@[simp] theorem chain_cons {p : β} {a : α} {l : List α} :
    Chain next null mem p (a :: l) ↔ mem p = a ∧ a ≠ null ∧ Chain next null mem (next a) l :=
  Iff.rfl

@[simp] theorem linkOf_nil (p : β) : linkOf next p [] = p := rfl

@[simp] theorem linkOf_cons (p : β) (a : α) (l : List α) :
    linkOf next p (a :: l) = linkOf next (next a) l := rfl

theorem linkOf_concat (p : β) (l : List α) (a : α) : linkOf next p (l ++ [a]) = next a := by
  induction l generalizing p with
  | nil => rfl
  | cons b l ih => exact ih (next b)

/-- The location after some nodes is the head or the link field of one of them. -/
theorem linkOf_eq (next : α → β) (p : β) (l : List α) :
    linkOf next p l = p ∨ ∃ a ∈ l, linkOf next p l = next a := by
  rcases List.eq_nil_or_concat l with rfl | ⟨l', a, rfl⟩
  · exact Or.inl rfl
  · exact Or.inr ⟨a, by simp, by rw [List.concat_eq_append, linkOf_concat]⟩

namespace Chain

theorem ne_null {p : β} {l : List α} (h : Chain next null mem p l) : ∀ a ∈ l, a ≠ null := by
  induction l generalizing p with
  | nil => intro a ha; simp at ha
  | cons b l ih =>
      intro a ha
      rcases List.mem_cons.1 ha with rfl | ha
      · exact h.2.1
      · exact ih h.2.2 a ha

/-- The location that starts a list is null exactly when the list is empty. -/
theorem null_iff {p : β} {l : List α} (h : Chain next null mem p l) : mem p = null ↔ l = [] := by
  cases l with
  | nil => exact ⟨fun _ => rfl, fun _ => h⟩
  | cons a l => exact ⟨fun h0 => absurd (h.1.symm.trans h0) h.2.1, fun h0 => by cases h0⟩

/-- A location starts at most one list. -/
theorem unique {p : β} {l l' : List α} (h : Chain next null mem p l)
    (h' : Chain next null mem p l') : l = l' := by
  induction l generalizing p l' with
  | nil =>
      cases l' with
      | nil => rfl
      | cons b l' => exact absurd (h'.1.symm.trans h) h'.2.1
  | cons a l ih =>
      cases l' with
      | nil => exact absurd (h.1.symm.trans h') h.2.1
      | cons b l' =>
          obtain rfl : a = b := h.1.symm.trans h'.1
          rw [ih h.2.2 h'.2.2]

/-- What a list reaches are its nodes. -/
theorem reaches_iff {p : β} {l : List α} (h : Chain next null mem p l) {a : α} :
    Reaches next null mem p a ↔ a ∈ l := by
  constructor
  · intro hr
    induction hr generalizing l with
    | here h0 =>
        cases l with
        | nil => exact absurd h h0
        | cons b l => exact h.1 ▸ List.mem_cons_self
    | next h0 _ ih =>
        cases l with
        | nil => exact absurd h h0
        | cons b l => exact List.mem_cons_of_mem _ (ih (h.1 ▸ h.2.2))
  · induction l generalizing p with
    | nil => intro ha; simp at ha
    | cons b l ih =>
        intro ha
        obtain ⟨rfl, h0, hrest⟩ := h
        rcases List.mem_cons.1 ha with rfl | ha
        · exact Reaches.here h0
        · exact Reaches.next h0 (ih hrest ha)

/-- The rest of a list, from the location after its first nodes. -/
theorem drop {p : β} {l₁ l₂ : List α} (h : Chain next null mem p (l₁ ++ l₂)) :
    Chain next null mem (linkOf next p l₁) l₂ := by
  induction l₁ generalizing p with
  | nil => exact h
  | cons a l₁ ih => exact ih h.2.2

/-- **A list depends on its own links only.** -/
theorem congr {p : β} {l : List α} (h : Chain next null mem p l) (hp : mem' p = mem p)
    (hl : ∀ a ∈ l, mem' (next a) = mem (next a)) : Chain next null mem' p l := by
  induction l generalizing p with
  | nil => exact hp.trans h
  | cons a l ih =>
      exact ⟨hp.trans h.1, h.2.1,
        ih h.2.2 (hl a (by simp)) fun b hb => hl b (List.mem_cons_of_mem _ hb)⟩

/-- A list copied to another head. -/
theorem move {p q : β} {l : List α} (h : Chain next null mem p l) (hq : mem' q = mem p)
    (hl : ∀ a ∈ l, mem' (next a) = mem (next a)) : Chain next null mem' q l := by
  cases l with
  | nil => exact hq.trans h
  | cons a l =>
      exact ⟨hq.trans h.1, h.2.1,
        congr h.2.2 (hl a (by simp)) fun b hb => hl b (List.mem_cons_of_mem _ hb)⟩

variable [DecidableEq β]

/-- Writing a location that is no link of the list. -/
theorem update_of_notMem {p q : β} {l : List α} (h : Chain next null mem p l) (v : α) (hqp : q ≠ p)
    (hql : ∀ a ∈ l, q ≠ next a) : Chain next null (Function.update mem q v) p l :=
  h.congr (Function.update_of_ne hqp.symm _ _)
    fun a ha => Function.update_of_ne (hql a ha).symm _ _

/-- Pushing a node on the front: its link field takes the old first node, the head takes it. -/
theorem push {p : β} {l : List α} {a : α} (h : Chain next null mem p l) (ha : a ≠ null)
    (hpa : next a ≠ p) (hp : ∀ b ∈ l, next b ≠ p) (hal : ∀ b ∈ l, next b ≠ next a) :
    Chain next null (Function.update (Function.update mem (next a) (mem p)) p a) p (a :: l) := by
  have hmove : Chain next null (Function.update mem (next a) (mem p)) (next a) l :=
    h.move (by simp) fun b hb => Function.update_of_ne (hal b hb) _ _
  refine ⟨Function.update_self .., ha, hmove.update_of_notMem a hpa.symm ?_⟩
  intro b hb
  exact (hp b hb).symm

/-- Popping the first node: the head takes the first node's link. -/
theorem pop {p : β} {l : List α} {a : α} (h : Chain next null mem p (a :: l))
    (hp : ∀ b ∈ l, next b ≠ p) : Chain next null (Function.update mem p (mem (next a))) p l :=
  h.2.2.move (by simp) fun b hb => Function.update_of_ne (hp b hb) _ _

/-- **Unlinking a node**: the link before it takes its own link. -/
theorem unlink {p : β} {l₁ l₂ : List α} {a : α} (h : Chain next null mem p (l₁ ++ a :: l₂))
    (hp : ∀ b ∈ l₁ ++ a :: l₂, next b ≠ p) (hinj : ((l₁ ++ a :: l₂).map next).Nodup) :
    Chain next null (Function.update mem (linkOf next p l₁) (mem (next a))) p (l₁ ++ l₂) := by
  induction l₁ generalizing p with
  | nil => exact pop h fun b hb => hp b (List.mem_cons_of_mem _ hb)
  | cons c l₁ ih =>
      rw [List.cons_append, List.map_cons, List.nodup_cons] at hinj
      have hc : ∀ b ∈ l₁ ++ a :: l₂, next b ≠ next c := fun b hb hbc =>
        hinj.1 (hbc ▸ List.mem_map_of_mem hb)
      have hne : linkOf next (next c) l₁ ≠ p := by
        rcases linkOf_eq next (next c) l₁ with he | ⟨b, hb, he⟩
        · rw [he]; exact hp c (by simp)
        · rw [he]; exact hp b (by simp [hb])
      refine ⟨?_, h.2.1, ih h.2.2 hc hinj.2⟩
      rw [linkOf_cons, Function.update_of_ne hne.symm]
      exact h.1

/-- **Appending a node**: its link field takes null and the last link takes it. -/
theorem append {p : β} {l : List α} {a : α} (h : Chain next null mem p l) (ha : a ≠ null)
    (hpa : next a ≠ p) (hp : ∀ b ∈ l, next b ≠ p) (hinj : ((a :: l).map next).Nodup) :
    Chain next null (Function.update (Function.update mem (next a) null) (linkOf next p l) a) p
      (l ++ [a]) := by
  induction l generalizing p with
  | nil =>
      refine ⟨Function.update_self .., ha, ?_⟩
      rw [chain_nil, linkOf_nil, Function.update_of_ne hpa, Function.update_self]
  | cons c l ih =>
      rw [List.map_cons, List.map_cons, List.nodup_cons, List.mem_cons, not_or,
        List.nodup_cons] at hinj
      have hne : linkOf next (next c) l ≠ p := by
        rcases linkOf_eq next (next c) l with he | ⟨b, hb, he⟩
        · rw [he]; exact hp c (by simp)
        · rw [he]; exact hp b (by simp [hb])
      refine ⟨?_, h.2.1, ih h.2.2 hinj.1.1 ?_ ?_⟩
      · rw [linkOf_cons, Function.update_of_ne hne.symm, Function.update_of_ne hpa.symm]
        exact h.1
      · exact fun b hb hbc => hinj.2.1 (hbc ▸ List.mem_map_of_mem hb)
      · rw [List.map_cons, List.nodup_cons]
        exact ⟨hinj.1.2, hinj.2.2⟩

end Chain

/-! ### Walks -/

variable [DecidableEq α]

/-- The walk `while (*p && *p != t) p = &(*p)->next`: the location it stops at, if it stops
within the given number of steps. -/
def findLink (next : α → β) (null : α) (mem : β → α) (t : α) : ℕ → β → Option β
  | 0, _ => none
  | n + 1, p =>
      if mem p = null ∨ mem p = t then some p else findLink next null mem t n (next (mem p))

/-- The nodes read off from a location, until a null pointer or the end of the bound. -/
def follow (next : α → β) (null : α) (mem : β → α) : ℕ → β → List α
  | 0, _ => []
  | n + 1, p => if mem p = null then [] else mem p :: follow next null mem n (next (mem p))

/-- A walk depends on its first link and on the links of the nodes. -/
theorem follow_congr (hnext : ∀ a, mem' (next a) = mem (next a)) {p : β} (hp : mem' p = mem p) (n : ℕ) :
    follow next null mem' n p = follow next null mem n p := by
  induction n generalizing p with
  | zero => rfl
  | succ n ih => rw [follow, follow, hp, ih (hnext (mem p))]

/-- The walk for another node goes on with the next one. -/
theorem findLink_cons {p : β} {l : List α} {a t : α} (h : Chain next null mem p (a :: l)) (ht : t ≠ a)
    (n : ℕ) : findLink next null mem t (n + 1) p = findLink next null mem t n (next a) := by
  have hstop : ¬ (mem p = null ∨ mem p = t) := by
    rw [h.1]
    exact not_or.2 ⟨h.2.1, fun hat => ht hat.symm⟩
  rw [findLink, if_neg hstop, h.1]

/-- The walk for a node of the list stops at the link that holds it. -/
theorem findLink_mem {p : β} {l₁ l₂ : List α} {t : α} {n : ℕ}
    (h : Chain next null mem p (l₁ ++ t :: l₂)) (ht : t ∉ l₁) (hn : l₁.length < n) :
    findLink next null mem t n p = some (linkOf next p l₁) := by
  induction l₁ generalizing p n with
  | nil =>
      obtain ⟨n, rfl⟩ : ∃ k, n = k + 1 := ⟨n - 1, by simp at hn; omega⟩
      rw [findLink, if_pos (Or.inr h.1), linkOf_nil]
  | cons a l₁ ih =>
      obtain ⟨n, rfl⟩ : ∃ k, n = k + 1 := ⟨n - 1, by simp at hn; omega⟩
      rw [List.mem_cons, not_or] at ht
      rw [findLink_cons h ht.1, linkOf_cons]
      exact ih h.2.2 ht.2 (by simpa using hn)

/-- The walk for a pointer that is not in the list stops at its last link. -/
theorem findLink_end {p : β} {l : List α} {t : α} {n : ℕ} (h : Chain next null mem p l)
    (ht : t ∉ l) (hn : l.length < n) :
    findLink next null mem t n p = some (linkOf next p l) := by
  induction l generalizing p n with
  | nil =>
      obtain ⟨n, rfl⟩ : ∃ k, n = k + 1 := ⟨n - 1, by simp at hn; omega⟩
      rw [findLink, if_pos (Or.inl (chain_nil.1 h)), linkOf_nil]
  | cons a l ih =>
      obtain ⟨n, rfl⟩ : ∃ k, n = k + 1 := ⟨n - 1, by simp at hn; omega⟩
      rw [List.mem_cons, not_or] at ht
      rw [findLink_cons h ht.1, linkOf_cons]
      exact ih h.2.2 ht.2 (by simpa using hn)

/-- **Reading a list off returns its nodes.** -/
theorem Chain.follow_eq {p : β} {l : List α} {n : ℕ} (h : Chain next null mem p l)
    (hn : l.length ≤ n) : follow next null mem n p = l := by
  induction l generalizing p n with
  | nil =>
      cases n with
      | zero => rfl
      | succ n => rw [follow, if_pos (chain_nil.1 h)]
  | cons a l ih =>
      obtain ⟨n, rfl⟩ : ∃ k, n = k + 1 := ⟨n - 1, by simp at hn; omega⟩
      rw [follow, if_neg (by rw [h.1]; exact h.2.1), h.1, ih h.2.2 (by simpa using hn)]

/-- A duplicate-free list of numbers below `n` has at most `n` of them. -/
theorem length_le_of_nodup_of_lt {l : List ℕ} {n : ℕ} (hnd : l.Nodup) (hlt : ∀ a ∈ l, a < n) :
    l.length ≤ n := by
  have hsub : l.toFinset ⊆ Finset.range n := fun a ha =>
    Finset.mem_range.2 (hlt a (List.mem_toFinset.1 ha))
  have hcard := Finset.card_le_card hsub
  rwa [List.toFinset_card_of_nodup hnd, Finset.card_range] at hcard

end SyncKernel
