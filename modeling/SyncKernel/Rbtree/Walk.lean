/-
**Walking through a tree in order.**

The first and the last node of a tree are at the ends of the paths along one side; the node after
another one is the first of its right subtree, or the first node above it that it is on the left of.

Main results:

* `Rbtree.outermost_left`, `Rbtree.outermost_right` — the ends of a subtree;
* `Rbtree.rbFirst_spec`, `Rbtree.rbLast_spec` — the ends of the tree;
* `Rbtree.rbNext_spec` — **the next node**;
* `Rbtree.rbPrev_spec` — the node before, by the mirror image;
* `Rbtree.iteration_exact` — **a walk meets each node once**, in order.
-/

import Mathlib.Data.Fintype.Card
import SyncKernel.Rbtree.Basic

set_option relaxedAutoImplicit false
set_option autoImplicit false

namespace SyncKernel

namespace Rbtree

open RbTree Store

variable {α : Type*} {s : Store α}

/-! ### The ends of a subtree -/

/-- **The leftmost node** of a subtree is its first one. -/
theorem outermost_left {t : RbTree α} :
    ∀ {n : ℕ} {q : Option α} {a : α}, Repr s q t → t.top = some a → t.elems.length ≤ n →
      outermost s Dir.left n a = t.elems.head? := by
  induction t with
  | nil => intro n q a _ ht; cases ht
  | node c l b r ihl _ =>
      intro n q a h ht hn
      obtain rfl := Option.some_inj.1 ht
      obtain ⟨-, -, hl, -, hrepr, -⟩ := h
      cases n with
      | zero => simp at hn
      | succ n =>
          cases l with
          | nil => rw [outermost, hl]; rfl
          | node c' l' b' r' =>
              rw [outermost, hl, top_node]
              dsimp only
              rw [ihl hrepr rfl (by simp at hn ⊢; omega)]
              simp [List.head?_append]

/-- **The rightmost node** of a subtree is its last one. -/
theorem outermost_right {t : RbTree α} :
    ∀ {n : ℕ} {q : Option α} {a : α}, Repr s q t → t.top = some a → t.elems.length ≤ n →
      outermost s Dir.right n a = t.elems.getLast? := by
  induction t with
  | nil => intro n q a _ ht; cases ht
  | node c l b r _ ihr =>
      intro n q a h ht hn
      obtain rfl := Option.some_inj.1 ht
      obtain ⟨-, -, -, hr, -, hrepr⟩ := h
      cases n with
      | zero => simp at hn
      | succ n =>
          cases r with
          | nil => rw [outermost, hr]; simp
          | node c' l' b' r' =>
              rw [outermost, hr, top_node]
              dsimp only
              rw [ihr hrepr rfl (by simp at hn ⊢; omega)]
              simp [List.getLast?_append, List.getLast?_cons]

theorem rbFirst_spec {t : RbTree α} (h : At s [] t) (hn : t.elems.length ≤ addrSpace) :
    rbFirst s = some t.elems.head? := by
  have hroot : s.root = t.top := h.path
  cases t with
  | nil => rw [rbFirst, hroot]; rfl
  | node c l a r =>
      rw [rbFirst, hroot, top_node]
      dsimp only
      rw [outermost_left h.tree rfl hn, elems_node]
      cases l.elems <;> rfl

theorem rbLast_spec {t : RbTree α} (h : At s [] t) (hn : t.elems.length ≤ addrSpace) :
    rbLast s = some t.elems.getLast? := by
  have hroot : s.root = t.top := h.path
  cases t with
  | nil => rw [rbLast, hroot]; rfl
  | node c l a r =>
      rw [rbLast, hroot, top_node]
      dsimp only
      rw [outermost_right h.tree rfl hn]
      simp [List.getLast?_append, List.getLast?_cons]

/-! ### The next node -/

/-- Every node of a tree is at a context. -/
theorem exists_plug {t : RbTree α} {a : α} :
    ∀ ctx : Ctx α, a ∈ t.elems →
      ∃ ctx' c l r, Ctx.plug ctx t = Ctx.plug ctx' (node c l a r) := by
  induction t with
  | nil => intro ctx ha; exact absurd ha List.not_mem_nil
  | node c l b r ihl ihr =>
      intro ctx ha
      rcases List.mem_append.1 ha with ha | ha
      · exact ihl (⟨Dir.left, c, b, r⟩ :: ctx) ha
      · rcases List.mem_cons.1 ha with rfl | ha
        · exact ⟨ctx, c, l, r, rfl⟩
        · exact ihr (⟨Dir.right, c, b, l⟩ :: ctx) ha

/-- The loop up the tree ends at the first node behind the subtree. -/
theorem climb_spec [DecidableEq α] {ctx : Ctx α} :
    ∀ {n : ℕ} {t : RbTree α} {a : α}, At s ctx t → t.top = some a → ctx.length < n →
      climb s n a (Ctx.par ctx) = some (Ctx.after ctx).head? := by
  induction ctx with
  | nil =>
      intro n t a _ _ hn
      cases n with
      | zero => exact absurd hn (Nat.not_lt_zero _)
      | succ n => rfl
  | cons f ctx ih =>
      intro n t a h ht hn
      obtain ⟨-, -, hpar, hchild, hflip, hne⟩ := h.above ht
      cases n with
      | zero => exact absurd hn (Nat.not_lt_zero _)
      | succ n =>
          rw [Ctx.par, climb]
          cases hd : f.dir with
          | left =>
              rw [hd, Dir.flip] at hflip
              rw [if_neg (hflip ▸ hne), Ctx.after, hd]
              rfl
          | right =>
              rw [hd] at hchild
              rw [if_pos hchild, hpar, ih (at_up.1 h) (top_branch ..) (by simpa using hn), Ctx.after,
                hd]
              rfl

theorem length_le_elems (ctx : Ctx α) : ctx.length ≤ (Ctx.elems ctx).length := by
  induction ctx with
  | nil => exact Nat.zero_le _
  | cons f ctx ih =>
      rw [(Ctx.elems_cons_perm f ctx).length_eq]
      simp only [List.length_cons, List.length_append]
      omega

/-- **The next node** in order. -/
theorem rbNext_spec [DecidableEq α] {t : RbTree α} {l₁ l₂ : List α} {a : α} (h : At s [] t)
    (hlist : t.elems = l₁ ++ a :: l₂) (hn : t.elems.length ≤ addrSpace) :
    rbNext s a = some l₂.head? := by
  obtain ⟨ctx, c, l, r, hplug⟩ := exists_plug (t := t) (a := a) [] (by simp [hlist])
  have hnd : t.elems.Nodup := h.nodup
  have hat : At s ctx (node c l a r) := at_plug.2 (hplug ▸ h)
  have helems : t.elems = (Ctx.before ctx ++ l.elems) ++ a :: (r.elems ++ Ctx.after ctx) := by
    have heq : t = Ctx.plug ctx (node c l a r) := hplug
    rw [heq, Ctx.elems_plug]
    simp
  have hafter : l₂ = r.elems ++ Ctx.after ctx := by
    rw [helems] at hlist hnd
    have hnd' := (List.nodup_cons.1 (List.nodup_middle.1 hnd)).1
    rw [List.mem_append, not_or] at hnd'
    exact ((List.append_cons_inj_of_notMem hnd'.1 hnd'.2).1 hlist).2.2.symm
  rw [hafter]
  obtain ⟨hpa, -, -, hr, -, hrepr⟩ := hat.tree
  cases r with
  | nil =>
      rw [rbNext, hr, top_nil]
      dsimp only
      have hlen := length_le_elems ctx
      rw [hpa, climb_spec hat rfl ?_]
      · rfl
      · rw [helems] at hn
        simp [Ctx.elems] at hn hlen
        omega
  | node c' l' b r' =>
      rw [rbNext, hr, top_node]
      dsimp only
      rw [outermost_left hrepr rfl ?_, elems_node]
      · cases l'.elems <;> rfl
      · rw [helems] at hn
        simp at hn ⊢
        omega

/-! ### The node before -/

theorem outermost_mirror (d : Dir) :
    ∀ (n : ℕ) (a : α), outermost s.mirror d n a = outermost s d.flip n a := by
  intro n
  induction n with
  | zero => exact fun _ => rfl
  | succ n ih =>
      intro a
      rw [outermost, outermost, child_mirror]
      cases s.child d.flip a with
      | none => rfl
      | some b => exact ih b

section Prev

variable [DecidableEq α]

theorem climb_mirror :
    ∀ (n : ℕ) (a : α) (p : Option α), climb s.mirror n a p = climbLeft s n a p := by
  intro n
  induction n with
  | zero => exact fun _ _ => rfl
  | succ n ih =>
      intro a p
      cases p with
      | none => rfl
      | some b =>
          rw [climb, climbLeft, ih]
          rfl

/-- **The node before** is the next one of the mirror image. -/
theorem rbPrev_eq (a : α) : rbPrev s a = rbNext s.mirror a := by
  rw [rbPrev, rbNext, child_mirror, parent_mirror, Dir.flip]
  cases s.child Dir.left a with
  | none => exact (climb_mirror _ _ _).symm
  | some l =>
      dsimp only
      rw [outermost_mirror]
      rfl

/-- The node before another one in order. -/
theorem rbPrev_spec {t : RbTree α} {l₁ l₂ : List α} {a : α} (h : At s [] t)
    (hlist : t.elems = l₁ ++ a :: l₂) (hn : t.elems.length ≤ addrSpace) :
    rbPrev s a = some l₁.getLast? := by
  have hrev : t.mirror.elems = l₂.reverse ++ a :: l₁.reverse := by
    rw [elems_mirror, hlist]
    simp
  rw [rbPrev_eq, rbNext_spec h.mirror hrev (by rwa [elems_mirror, List.length_reverse]),
    List.head?_reverse]

end Prev

/-! ### A whole walk -/

/-- The nodes that are met from a pointer on, until a step leads to the null pointer. -/
def visits (next : α → Option (Option α)) : ℕ → Option α → Option (List α)
  | 0, _ => none
  | _ + 1, none => some []
  | n + 1, some a => do
      let p ← next a
      let l ← visits next n p
      some (a :: l)

/-- Steps that follow a list meet the rest of the list. -/
theorem visits_spec {next : α → Option (Option α)} {l : List α}
    (h : ∀ l₁ a l₂, l = l₁ ++ a :: l₂ → next a = some l₂.head?) (l₂ : List α) :
    ∀ (l₁ : List α) {n : ℕ}, l = l₁ ++ l₂ → l₂.length < n → visits next n l₂.head? = some l₂ := by
  induction l₂ with
  | nil =>
      intro l₁ n _ hn
      cases n with
      | zero => exact absurd hn (Nat.not_lt_zero _)
      | succ n => rfl
  | cons a l₂ ih =>
      intro l₁ n hl hn
      cases n with
      | zero => exact absurd hn (Nat.not_lt_zero _)
      | succ n =>
          have hrest : visits next n l₂.head? = some l₂ :=
            ih (l₁ ++ [a]) (by rw [hl, List.append_assoc, List.singleton_append])
              (Nat.lt_of_succ_lt_succ hn)
          rw [List.head?_cons, visits, h l₁ a l₂ hl, Option.bind_eq_bind, Option.bind_some, hrest,
            Option.bind_eq_bind, Option.bind_some]

/-- In a list without repetitions, the neighbors of an element are determined. -/
theorem next_iff_prev {next prev : α → Option (Option α)} {l : List α} (hnd : l.Nodup)
    (hnext : ∀ l₁ a l₂, l = l₁ ++ a :: l₂ → next a = some l₂.head?)
    (hprev : ∀ l₁ a l₂, l = l₁ ++ a :: l₂ → prev a = some l₁.getLast?) {a b : α} (ha : a ∈ l) (hb : b ∈ l) :
    next a = some (some b) ↔ prev b = some (some a) := by
  obtain ⟨l₁, l₂, hl⟩ := List.append_of_mem ha
  obtain ⟨k₁, k₂, hk⟩ := List.append_of_mem hb
  rw [hnext l₁ a l₂ hl, hprev k₁ b k₂ hk, Option.some_inj, Option.some_inj]
  constructor
  · intro hhead
    obtain ⟨r, rfl⟩ := List.head?_eq_some_iff.1 hhead
    have heq : (l₁ ++ [a]) ++ b :: r = k₁ ++ b :: k₂ := by rw [← hk, hl]; simp
    have hsplit := hnd
    rw [hk] at hsplit
    have hnotin := (List.nodup_cons.1 (List.nodup_middle.1 hsplit)).1
    rw [List.mem_append, not_or] at hnotin
    rw [((List.append_cons_inj_of_notMem hnotin.1 hnotin.2).1 heq.symm).1]
    simp
  · intro hlast
    obtain ⟨r, rfl⟩ := List.getLast?_eq_some_iff.1 hlast
    have heq : r ++ a :: (b :: k₂) = l₁ ++ a :: l₂ := by rw [← hl, hk]; simp
    have hsplit := hnd
    rw [hl] at hsplit
    have hnotin := (List.nodup_cons.1 (List.nodup_middle.1 hsplit)).1
    rw [List.mem_append, not_or] at hnotin
    rw [((List.append_cons_inj_of_notMem hnotin.1 hnotin.2).1 heq.symm).2.2]
    rfl

/-- **A walk meets each node once**: the steps of `rb_next` from `rb_first` on go through the tree in
order and end at `rb_last`, those of `rb_prev` go back the same way, and each of the two undoes the
other. -/
theorem iteration_exact {s : Store (Fin (2 ^ 64))} {t : RbTree (Fin (2 ^ 64))} (h : At s [] t) :
    t.elems.Nodup ∧
      (∀ n, t.elems.length < n → (rbFirst s).bind (visits (rbNext s) n) = some t.elems) ∧
      rbLast s = some t.elems.getLast? ∧
      (∀ n, t.elems.length < n → (rbLast s).bind (visits (rbPrev s) n) = some t.elems.reverse) ∧
      ∀ a ∈ t.elems, ∀ b ∈ t.elems, rbNext s a = some (some b) ↔ rbPrev s b = some (some a) := by
  have hnd : t.elems.Nodup := h.nodup
  have hlen : t.elems.length ≤ addrSpace := by
    have hcard := List.Nodup.length_le_card hnd
    rwa [Fintype.card_fin] at hcard
  have hnext : ∀ l₁ a l₂, t.elems = l₁ ++ a :: l₂ → rbNext s a = some l₂.head? := fun _ _ _ hl =>
    rbNext_spec h hl hlen
  have hprev : ∀ l₁ a l₂, t.elems = l₁ ++ a :: l₂ → rbPrev s a = some l₁.getLast? := fun _ _ _ hl =>
    rbPrev_spec h hl hlen
  have hback : ∀ l₁ a l₂, t.elems.reverse = l₁ ++ a :: l₂ → rbPrev s a = some l₂.head? := by
    intro l₁ a l₂ hl
    rw [hprev l₂.reverse a l₁.reverse (by rw [← List.reverse_reverse t.elems, hl]; simp),
      List.getLast?_reverse]
  refine ⟨hnd, fun n hn => ?_, rbLast_spec h hlen, fun n hn => ?_, fun a ha b hb =>
    next_iff_prev hnd hnext hprev ha hb⟩
  · rw [rbFirst_spec h hlen, Option.bind_some]
    exact visits_spec hnext t.elems [] rfl hn
  · rw [rbLast_spec h hlen, Option.bind_some, ← List.head?_reverse]
    exact visits_spec hback t.elems.reverse [] rfl (by rwa [List.length_reverse])

/-- A tree with two nodes: the root and its left child. -/
def twoNodes : Store (Fin (2 ^ 64)) where
  root := some 1
  child d a := if d = Dir.left ∧ a = 1 then some 0 else none
  parent a := if a = 0 then some 1 else none
  color _ := Color.black

theorem iteration_exact_two : (rbFirst twoNodes).bind (visits (rbNext twoNodes) 3) = some [0, 1] := by
  have hat : At twoNodes [] (node Color.black (node Color.black nil 0 nil) 1 nil) :=
    ⟨rfl, ⟨rfl, rfl, rfl, rfl, ⟨rfl, rfl, rfl, rfl, trivial, trivial⟩, trivial⟩, by decide⟩
  exact (iteration_exact hat).2.1 3 (by decide)

end Rbtree

end SyncKernel
