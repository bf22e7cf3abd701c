/-
**Red-black trees and their contexts.**

A red-black tree as an inductive type, and the context of a subtree: the path from the subtree up to
the root, with the siblings that it leaves behind.  The sides of a node are named by a direction, so
that a fact about one side is also the fact about the other.

Main definitions:

* `RbTree`, `RbTree.elems` — trees, and their nodes in order;
* `RbTree.Balanced` — **the red-black invariant**, by the color of the root and the black height;
* `RbTree.depth` — the number of nodes on the longest path down;
* `RbTree.mirror` — the tree with its sides exchanged;
* `Ctx`, `Ctx.plug` — contexts;
* `Ctx.Fits` — the color and the black height of the trees that may be put in a context.

Main results:

* `RbTree.Balanced.depth_le_log` — a balanced tree is not deep;
* `Ctx.elems_plug` — the nodes of a tree in a context, in order;
* `Ctx.Fits.plug`, `Ctx.fits_of_balanced` — **a tree is balanced exactly when its parts fit**.
-/

import Mathlib.Algebra.Group.Nat.Defs
import Mathlib.Data.List.Nodup

set_option relaxedAutoImplicit false
set_option autoImplicit false

namespace SyncKernel

/-- The color of a node. -/
inductive Color
  | red
  | black
  deriving DecidableEq

/-- A side of a node. -/
inductive Dir
  | left
  | right
  deriving DecidableEq

/-- The other side. -/
def Dir.flip : Dir → Dir
  | left => right
  | right => left

@[simp] theorem Dir.flip_flip (d : Dir) : d.flip.flip = d := by
  cases d <;> rfl

theorem Dir.flip_ne (d : Dir) : d.flip ≠ d := by
  cases d <;> simp [Dir.flip]

theorem Dir.eq_or_eq_flip (d e : Dir) : e = d ∨ e = d.flip := by
  cases d <;> cases e <;> simp [Dir.flip]

/-- A binary tree with colored nodes. -/
inductive RbTree (α : Type*)
  | nil
  | node (c : Color) (l : RbTree α) (a : α) (r : RbTree α)

namespace RbTree

variable {α : Type*}

/-- The nodes in order. -/
def elems : RbTree α → List α
  | nil => []
  | node _ l a r => l.elems ++ a :: r.elems

/-- The node at the root. -/
def top : RbTree α → Option α
  | nil => none
  | node _ _ a _ => some a

/-- The node with the subtree `t` on the side `d` and `u` on the other side. -/
def branch (d : Dir) (c : Color) (t : RbTree α) (a : α) (u : RbTree α) : RbTree α :=
  match d with
  | Dir.left => node c t a u
  | Dir.right => node c u a t

@[simp] theorem elems_nil : (nil : RbTree α).elems = [] := rfl

@[simp] theorem elems_node (c : Color) (l : RbTree α) (a : α) (r : RbTree α) :
    (node c l a r).elems = l.elems ++ a :: r.elems := rfl

@[simp] theorem top_nil : (nil : RbTree α).top = none := rfl

@[simp] theorem top_node (c : Color) (l : RbTree α) (a : α) (r : RbTree α) :
    (node c l a r).top = some a := rfl

@[simp] theorem top_branch (d : Dir) (c : Color) (t : RbTree α) (a : α) (u : RbTree α) :
    (branch d c t a u).top = some a := by
  cases d <;> rfl

theorem top_eq_none {t : RbTree α} : t.top = none ↔ t = nil := by
  cases t <;> simp

theorem mem_of_top {t : RbTree α} {a : α} (h : t.top = some a) : a ∈ t.elems := by
  cases t with
  | nil => cases h
  | node c l b r =>
      obtain rfl := Option.some_inj.1 h
      simp

theorem branch_flip (d : Dir) (c : Color) (t : RbTree α) (a : α) (u : RbTree α) :
    branch d.flip c t a u = branch d c u a t := by
  cases d <;> rfl

theorem elems_branch_perm (d : Dir) (c : Color) (t : RbTree α) (a : α) (u : RbTree α) :
    (branch d c t a u).elems.Perm (a :: (t.elems ++ u.elems)) := by
  cases d with
  | left => exact List.perm_middle
  | right => exact List.perm_middle.trans (List.Perm.cons a List.perm_append_comm)

/-- Recoloring the root does not change the nodes. -/
theorem elems_branch_color (d : Dir) (c c' : Color) (t : RbTree α) (a : α) (u : RbTree α) :
    (branch d c t a u).elems = (branch d c' t a u).elems := by
  cases d <;> rfl

/-- The nodes of a branch depend on those of its subtrees. -/
theorem elems_branch_congr {d : Dir} {c c' : Color} {t u u' : RbTree α} {a : α}
    (h : u.elems = u'.elems) : (branch d c t a u).elems = (branch d c' t a u').elems := by
  cases d <;> simp [branch, h]

/-- **A rotation** does not change the nodes or their order. -/
theorem elems_rotate (d : Dir) (c₁ c₂ c₃ c₄ : Color) (t : RbTree α) (a : α) (u : RbTree α) (b : α)
    (v : RbTree α) :
    (branch d c₁ (branch d c₂ t a u) b v).elems = (branch d c₃ t a (branch d c₄ u b v)).elems := by
  cases d <;> simp [branch]

/-- **The red-black invariant**: a red node has black children, and the paths down from a node all
pass the same number of black nodes. -/
inductive Balanced : RbTree α → Color → ℕ → Prop
  | nil : Balanced nil Color.black 0
  | red {l r : RbTree α} {a : α} {n : ℕ} (hl : Balanced l Color.black n)
      (hr : Balanced r Color.black n) : Balanced (node Color.red l a r) Color.red n
  | black {l r : RbTree α} {a : α} {n : ℕ} {c c' : Color} (hl : Balanced l c n)
      (hr : Balanced r c' n) : Balanced (node Color.black l a r) Color.black (n + 1)

theorem Balanced.branch_red {d : Dir} {t u : RbTree α} {a : α} {n : ℕ} (ht : Balanced t Color.black n)
    (hu : Balanced u Color.black n) : Balanced (branch d Color.red t a u) Color.red n := by
  cases d with
  | left => exact Balanced.red ht hu
  | right => exact Balanced.red hu ht

theorem Balanced.branch_black {d : Dir} {t u : RbTree α} {a : α} {n : ℕ} {c c' : Color}
    (ht : Balanced t c n) (hu : Balanced u c' n) :
    Balanced (branch d Color.black t a u) Color.black (n + 1) := by
  cases d with
  | left => exact Balanced.black ht hu
  | right => exact Balanced.black hu ht

/-- A balanced node: red with black children, or black. -/
theorem Balanced.of_branch {d : Dir} {c c' : Color} {t u : RbTree α} {a : α} {n : ℕ}
    (h : Balanced (branch d c' t a u) c n) : c' = c ∧
      (c = Color.red ∧ Balanced t Color.black n ∧ Balanced u Color.black n ∨
        c = Color.black ∧ ∃ m c₁ c₂, n = m + 1 ∧ Balanced t c₁ m ∧ Balanced u c₂ m) := by
  cases d with
  | left =>
      cases h with
      | red ht hu => exact ⟨rfl, Or.inl ⟨rfl, ht, hu⟩⟩
      | black ht hu => exact ⟨rfl, Or.inr ⟨rfl, _, _, _, rfl, ht, hu⟩⟩
  | right =>
      cases h with
      | red hu ht => exact ⟨rfl, Or.inl ⟨rfl, ht, hu⟩⟩
      | black hu ht => exact ⟨rfl, Or.inr ⟨rfl, _, _, _, rfl, ht, hu⟩⟩

/-- A balanced tree with a red root is a red node. -/
theorem Balanced.exists_of_red {t : RbTree α} {n : ℕ} (h : Balanced t Color.red n) :
    ∃ l a r, t = node Color.red l a r ∧ Balanced l Color.black n ∧ Balanced r Color.black n := by
  cases h with
  | red hl hr => exact ⟨_, _, _, rfl, hl, hr⟩

/-- A balanced tree with a red root, with its subtrees by side. -/
theorem Balanced.exists_branch_of_red (d : Dir) {t : RbTree α} {n : ℕ} (h : Balanced t Color.red n) :
    ∃ u a v, t = branch d Color.red u a v ∧ Balanced u Color.black n ∧ Balanced v Color.black n := by
  obtain ⟨l, a, r, rfl, hl, hr⟩ := h.exists_of_red
  cases d with
  | left => exact ⟨l, a, r, rfl, hl, hr⟩
  | right => exact ⟨r, a, l, rfl, hr, hl⟩

/-- A balanced tree with a black root is a black node, unless it is empty. -/
theorem Balanced.exists_branch_of_black (d : Dir) {t : RbTree α} {n : ℕ}
    (h : Balanced t Color.black (n + 1)) :
    ∃ u a v c₁ c₂, t = branch d Color.black u a v ∧ Balanced u c₁ n ∧ Balanced v c₂ n := by
  cases h with
  | black hl hr =>
      cases d with
      | left => exact ⟨_, _, _, _, _, rfl, hl, hr⟩
      | right => exact ⟨_, _, _, _, _, rfl, hr, hl⟩

/-- The black height of a tree. -/
theorem Balanced.height_unique {t : RbTree α} {c c' : Color} {n m : ℕ} (h : Balanced t c n)
    (h' : Balanced t c' m) : n = m := by
  induction h generalizing c' m with
  | nil => cases h'; rfl
  | red hl hr ihl ihr =>
      cases h' with
      | red hl' hr' => exact ihl hl'
  | black hl hr ihl ihr =>
      cases h' with
      | black hl' hr' => rw [ihl hl']

/-- Subtrees of different heights do not balance. -/
theorem Balanced.not_branch {d : Dir} {c c' c₁ c₂ : Color} {t u : RbTree α} {a : α} {n m k : ℕ}
    (ht : Balanced t c₁ n) (hu : Balanced u c₂ m) (hne : n ≠ m) :
    ¬ Balanced (branch d c' t a u) c k := by
  intro h
  obtain ⟨-, ⟨-, ht', hu'⟩ | ⟨-, j, c₃, c₄, -, ht', hu'⟩⟩ := h.of_branch
  · exact hne ((ht.height_unique ht').trans (hu.height_unique hu').symm)
  · exact hne ((ht.height_unique ht').trans (hu.height_unique hu').symm)

/-! ### The depth of a tree -/

/-- The number of nodes on the longest path down. -/
def depth : RbTree α → ℕ
  | nil => 0
  | node _ l _ r => max l.depth r.depth + 1

/-- On a path down no two nodes that follow each other are red. -/
theorem Balanced.depth_le {t : RbTree α} {c : Color} {n : ℕ} (h : Balanced t c n) :
    t.depth ≤ 2 * n + 1 ∧ (c = Color.black → t.depth ≤ 2 * n) := by
  induction h with
  | nil => exact ⟨Nat.zero_le _, fun _ => Nat.le_refl _⟩
  | red hl hr ihl ihr =>
      have hl' := ihl.2 rfl
      have hr' := ihr.2 rfl
      exact ⟨by rw [depth]; omega, fun h => by cases h⟩
  | black hl hr ihl ihr =>
      have hl' := ihl.1
      have hr' := ihr.1
      exact ⟨by rw [depth]; omega, fun _ => by rw [depth]; omega⟩

/-- The black nodes alone fill a complete tree. -/
theorem Balanced.two_pow_le {t : RbTree α} {c : Color} {n : ℕ} (h : Balanced t c n) :
    2 ^ n ≤ t.elems.length + 1 := by
  induction h with
  | nil => exact Nat.le_refl _
  | red hl hr ihl ihr =>
      rw [elems_node, List.length_append, List.length_cons]
      omega
  | black hl hr ihl ihr =>
      rw [elems_node, List.length_append, List.length_cons, Nat.pow_succ]
      omega

/-- **A balanced tree is not deep.** -/
theorem Balanced.depth_le_log {t : RbTree α} {n : ℕ} (h : Balanced t Color.black n) :
    t.depth ≤ 2 * Nat.log2 (t.elems.length + 1) := by
  have hle : n ≤ Nat.log2 (t.elems.length + 1) := (Nat.le_log2 (Nat.succ_ne_zero _)).2 h.two_pow_le
  have hdepth := h.depth_le.2 rfl
  omega

/-! ### The mirror image -/

/-- The tree with its sides exchanged. -/
def mirror : RbTree α → RbTree α
  | nil => nil
  | node c l a r => node c r.mirror a l.mirror

theorem elems_mirror (t : RbTree α) : t.mirror.elems = t.elems.reverse := by
  induction t with
  | nil => rfl
  | node c l a r ihl ihr =>
      rw [mirror, elems_node, elems_node, ihl, ihr, List.reverse_append, List.reverse_cons,
        List.append_assoc, List.singleton_append]

theorem top_mirror (t : RbTree α) : t.mirror.top = t.top := by
  cases t <;> rfl

/-! ### Reading a tree -/

/-- The color of the root; an empty tree is black. -/
def rootColor : RbTree α → Color
  | nil => Color.black
  | node c _ _ _ => c

/-- The subtree on a side. -/
def sub : Dir → RbTree α → RbTree α
  | _, nil => nil
  | Dir.left, node _ l _ _ => l
  | Dir.right, node _ _ _ r => r

/-- Neither child of the root is red. -/
def BlackChildren (t : RbTree α) : Prop :=
  (t.sub Dir.left).rootColor = Color.black ∧ (t.sub Dir.right).rootColor = Color.black

/-- The tree with a black root. -/
def blacken : RbTree α → RbTree α
  | nil => nil
  | node _ l a r => node Color.black l a r

theorem elems_blacken (t : RbTree α) : t.blacken.elems = t.elems := by
  cases t <;> rfl

theorem blacken_branch (d : Dir) (c : Color) (t : RbTree α) (a : α) (u : RbTree α) :
    (branch d c t a u).blacken = branch d Color.black t a u := by
  cases d <;> rfl

@[simp] theorem rootColor_branch (d : Dir) (c : Color) (t : RbTree α) (a : α) (u : RbTree α) :
    (branch d c t a u).rootColor = c := by
  cases d <;> rfl

@[simp] theorem sub_branch (d : Dir) (c : Color) (t : RbTree α) (a : α) (u : RbTree α) :
    (branch d c t a u).sub d = t := by
  cases d <;> rfl

theorem branch_ne_nil (d : Dir) (c : Color) (t : RbTree α) (a : α) (u : RbTree α) :
    branch d c t a u ≠ nil := by
  cases d <;> exact fun h => by cases h

theorem blackChildren_branch {d : Dir} {c : Color} {t : RbTree α} {a : α} {u : RbTree α} :
    (branch d c t a u).BlackChildren ↔
      t.rootColor = Color.black ∧ u.rootColor = Color.black := by
  cases d with
  | left => exact Iff.rfl
  | right => exact and_comm

theorem Balanced.rootColor_eq {t : RbTree α} {c : Color} {n : ℕ} (h : Balanced t c n) :
    t.rootColor = c := by
  cases h <;> rfl

end RbTree

/-! ### Contexts -/

/-- A step of a path: the node, the side it was left to, its color and its subtree on the other
side. -/
structure Frame (α : Type*) where
  dir : Dir
  color : Color
  elem : α
  sib : RbTree α

/-- The context of a subtree: the path up to the root. -/
abbrev Ctx (α : Type*) := List (Frame α)

namespace Ctx

open RbTree

variable {α : Type*}

/-- The tree with the subtree `t` in the context. -/
def plug : Ctx α → RbTree α → RbTree α
  | [], t => t
  | f :: ctx, t => plug ctx (branch f.dir f.color t f.elem f.sib)

theorem plug_append (ctx ctx' : Ctx α) (t : RbTree α) :
    plug (ctx ++ ctx') t = plug ctx' (plug ctx t) := by
  induction ctx generalizing t with
  | nil => rfl
  | cons f ctx ih => exact ih _

/-- The node above the subtree. -/
def par : Ctx α → Option α
  | [] => none
  | f :: _ => some f.elem

/-- The pointer to the subtree: the side of the node above it, or the pointer to the root. -/
def link : Ctx α → Option (Dir × α)
  | [] => none
  | f :: _ => some (f.dir, f.elem)

/-- The nodes before the subtree, in order. -/
def before : Ctx α → List α
  | [] => []
  | f :: ctx => before ctx ++ match f.dir with
    | Dir.left => []
    | Dir.right => f.sib.elems ++ [f.elem]

/-- The nodes behind the subtree, in order. -/
def after : Ctx α → List α
  | [] => []
  | f :: ctx => (match f.dir with
    | Dir.left => f.elem :: f.sib.elems
    | Dir.right => []) ++ after ctx

/-- **The nodes of a tree in a context**, in order. -/
theorem elems_plug (ctx : Ctx α) (t : RbTree α) :
    (plug ctx t).elems = before ctx ++ t.elems ++ after ctx := by
  induction ctx generalizing t with
  | nil => simp [plug, before, after]
  | cons f ctx ih =>
      rw [plug, ih]
      cases hd : f.dir <;> simp [before, after, hd, branch]

/-- The nodes of the context. -/
def elems (ctx : Ctx α) : List α := before ctx ++ after ctx

theorem elems_plug_perm (ctx : Ctx α) (t : RbTree α) :
    (plug ctx t).elems.Perm (t.elems ++ ctx.elems) := by
  rw [elems_plug, elems, ← List.append_assoc]
  exact List.Perm.append_right _ List.perm_append_comm

theorem elems_cons_perm (f : Frame α) (ctx : Ctx α) :
    (elems (f :: ctx)).Perm (f.elem :: (f.sib.elems ++ elems ctx)) := by
  have h₁ := elems_plug_perm (f :: ctx) nil
  have h₂ := elems_plug_perm ctx (branch f.dir f.color nil f.elem f.sib)
  refine (h₁.symm.trans h₂).trans ?_
  exact (elems_branch_perm f.dir f.color nil f.elem f.sib).append_right _

theorem mem_of_link {ctx : Ctx α} {d : Dir} {a : α} (h : link ctx = some (d, a)) : a ∈ elems ctx := by
  cases ctx with
  | nil => cases h
  | cons f ctx =>
      obtain ⟨-, rfl⟩ := Prod.mk.inj (Option.some_inj.1 h)
      exact (elems_cons_perm f ctx).mem_iff.2 (by simp)

/-- The nodes of a tree in a context depend on the nodes of the tree. -/
theorem elems_plug_congr {ctx : Ctx α} {t t' : RbTree α} (h : t.elems = t'.elems) :
    (plug ctx t).elems = (plug ctx t').elems := by
  rw [elems_plug, elems_plug, h]

/-- The context takes trees with a root of the color `c` and the black height `n`. -/
inductive Fits : Ctx α → Color → ℕ → Prop
  | root {n : ℕ} : Fits [] Color.black n
  | red {ctx : Ctx α} {d : Dir} {a : α} {sib : RbTree α} {n : ℕ} (hs : Balanced sib Color.black n)
      (h : Fits ctx Color.red n) : Fits (⟨d, Color.red, a, sib⟩ :: ctx) Color.black n
  | black {ctx : Ctx α} {d : Dir} {a : α} {sib : RbTree α} {c c' : Color} {n : ℕ}
      (hs : Balanced sib c' n) (h : Fits ctx Color.black (n + 1)) :
      Fits (⟨d, Color.black, a, sib⟩ :: ctx) c n

/-- A context for a red node takes a black one too. -/
theorem Fits.of_red {ctx : Ctx α} {n : ℕ} (h : Fits ctx Color.red n) : Fits ctx Color.black n := by
  cases h with
  | black hs h => exact Fits.black hs h

/-- **Filling a context** with a tree that fits gives a balanced tree. -/
theorem Fits.plug {ctx : Ctx α} {c : Color} {n : ℕ} (h : Fits ctx c n) :
    ∀ {t : RbTree α}, Balanced t c n → ∃ m, Balanced (plug ctx t) Color.black m := by
  induction h with
  | root => intro t ht; exact ⟨_, ht⟩
  | red hs _ ih => intro t ht; exact ih (Balanced.branch_red ht hs)
  | black hs _ ih => intro t ht; exact ih (Balanced.branch_black ht hs)

/-- **The parts of a balanced tree** fit together. -/
theorem fits_of_balanced {ctx : Ctx α} :
    ∀ {t : RbTree α} {m : ℕ}, Balanced (plug ctx t) Color.black m →
      ∃ c n, Fits ctx c n ∧ Balanced t c n := by
  induction ctx with
  | nil => intro t m h; exact ⟨Color.black, m, Fits.root, h⟩
  | cons f ctx ih =>
      intro t m h
      obtain ⟨c, n, hfits, hbal⟩ := ih h
      obtain ⟨hc, ⟨rfl, ht, hu⟩ | ⟨rfl, k, c₁, c₂, rfl, ht, hu⟩⟩ := hbal.of_branch
      · obtain ⟨d, c, a, sib⟩ := f
        obtain rfl : c = Color.red := hc
        exact ⟨Color.black, n, Fits.red hu hfits, ht⟩
      · obtain ⟨d, c, a, sib⟩ := f
        obtain rfl : c = Color.black := hc
        exact ⟨c₁, k, Fits.black hu hfits, ht⟩

/-- **A tree with a part that is not balanced** is not balanced. -/
theorem not_balanced_plug (ctx : Ctx α) (t : RbTree α) (h : ∀ c n, ¬ Balanced t c n) :
    ¬ ∃ m, Balanced (plug ctx t) Color.black m := by
  rintro ⟨m, hm⟩
  obtain ⟨c, n, -, ht⟩ := fits_of_balanced hm
  exact h c n ht

/-- **A rotation above a subtree** keeps the nodes before and behind it in order. -/
theorem order_rotate {ctx : Ctx α} {d : Dir} {c c₁ c₂ c₃ : Color} {a b : α} {u u' v : RbTree α}
    (h : u.elems = (branch d c u' b v).elems) :
    before (⟨d, c₁, a, u'⟩ :: ⟨d, c₂, b, v⟩ :: ctx) = before (⟨d, c₃, a, u⟩ :: ctx) ∧
      after (⟨d, c₁, a, u'⟩ :: ⟨d, c₂, b, v⟩ :: ctx) = after (⟨d, c₃, a, u⟩ :: ctx) := by
  cases d <;> simp [before, after, h, branch]

end Ctx

end SyncKernel
