/-
**Restoring the colors below a node that is short.**

`rb_fixdel` is meant for a tree in which the paths through one black node, still linked, have one black
node less than the others.  The tree is stated as it is in memory, without the path to the node: its black
nodes are counted, and the node once more.

Main definitions:

* `RbTree.Short` — the red-black invariant with one node counted twice;
* `Rbtree.Restored` — what `rb_fixdel` should leave.

Main results:

* `RbTree.Short.split` — the subtree at the node, and the path above it;
* `Rbtree.restored_iff` — **exactly the fixable paths are repaired**.
-/

import SyncKernel.Rbtree.Remove

set_option relaxedAutoImplicit false
set_option autoImplicit false

namespace SyncKernel

namespace RbTree

variable {α : Type*} {x : α}

/-- The red-black invariant, where the black node `x` counts for two. -/
inductive Short (x : α) : RbTree α → Color → ℕ → Prop
  | nil : Short x nil Color.black 0
  | red {l r : RbTree α} {a : α} {n : ℕ} (hl : Short x l Color.black n) (hr : Short x r Color.black n) :
      Short x (node Color.red l a r) Color.red n
  | black {l r : RbTree α} {a : α} {n : ℕ} {c c' : Color} (ha : a ≠ x) (hl : Short x l c n)
      (hr : Short x r c' n) : Short x (node Color.black l a r) Color.black (n + 1)
  | twice {l r : RbTree α} {n : ℕ} {c c' : Color} (hl : Short x l c n) (hr : Short x r c' n) :
      Short x (node Color.black l x r) Color.black (n + 2)

namespace Short

/-- A tree without the node. -/
theorem balanced {t : RbTree α} {c : Color} {n : ℕ} (h : Short x t c n) (hx : x ∉ t.elems) :
    Balanced t c n := by
  induction h with
  | nil => exact Balanced.nil
  | red hl hr ihl ihr =>
      simp only [elems_node, List.mem_append, List.mem_cons, not_or] at hx
      exact Balanced.red (ihl hx.1) (ihr hx.2.2)
  | black ha hl hr ihl ihr =>
      simp only [elems_node, List.mem_append, List.mem_cons, not_or] at hx
      exact Balanced.black (ihl hx.1) (ihr hx.2.2)
  | twice hl hr ihl ihr => exact absurd (by simp) hx

/-- A node other than `x`. -/
theorem of_branch {d : Dir} {c c' : Color} {t u : RbTree α} {a : α} {n : ℕ}
    (h : Short x (branch d c' t a u) c n) (ha : a ≠ x) : c' = c ∧
      (c = Color.red ∧ Short x t Color.black n ∧ Short x u Color.black n ∨
        c = Color.black ∧ ∃ m c₁ c₂, n = m + 1 ∧ Short x t c₁ m ∧ Short x u c₂ m) := by
  cases d with
  | left =>
      cases h with
      | red ht hu => exact ⟨rfl, Or.inl ⟨rfl, ht, hu⟩⟩
      | black _ ht hu => exact ⟨rfl, Or.inr ⟨rfl, _, _, _, rfl, ht, hu⟩⟩
      | twice ht hu => exact absurd rfl ha
  | right =>
      cases h with
      | red hu ht => exact ⟨rfl, Or.inl ⟨rfl, ht, hu⟩⟩
      | black _ hu ht => exact ⟨rfl, Or.inr ⟨rfl, _, _, _, rfl, ht, hu⟩⟩
      | twice hu ht => exact absurd rfl ha

/-- The path above a subtree with the node fits. -/
theorem fits {ctx : Ctx α} :
    ∀ {t : RbTree α} {m : ℕ}, Short x (Ctx.plug ctx t) Color.black m → x ∉ Ctx.elems ctx →
      ∃ c n, Ctx.Fits ctx c n ∧ Short x t c n := by
  induction ctx with
  | nil => exact fun h _ => ⟨_, _, Ctx.Fits.root, h⟩
  | cons f ctx ih =>
      intro t m h hx
      rw [(Ctx.elems_cons_perm f ctx).mem_iff, List.mem_cons, List.mem_append, not_or, not_or] at hx
      obtain ⟨hxf, hxs, hxc⟩ := hx
      obtain ⟨c, n, hfits, hbranch⟩ := ih h hxc
      obtain ⟨d, c', a, sib⟩ := f
      obtain ⟨rfl, ⟨rfl, ht, hu⟩ | ⟨rfl, k, c₁, c₂, rfl, ht, hu⟩⟩ := hbranch.of_branch (Ne.symm hxf)
      · exact ⟨Color.black, n, Ctx.Fits.red (hu.balanced hxs) hfits, ht⟩
      · exact ⟨c₁, k, Ctx.Fits.black (hu.balanced hxs) hfits, ht⟩

/-- **The subtree at the node** is one black node short of what the path above takes. -/
theorem split {ctx : Ctx α} {l r : RbTree α} {m : ℕ}
    (h : Short x (Ctx.plug ctx (node Color.black l x r)) Color.black m)
    (hnd : (Ctx.plug ctx (node Color.black l x r)).elems.Nodup) :
    ∃ k, Balanced (node Color.black l x r) Color.black k ∧ Ctx.Fits ctx Color.black (k + 1) := by
  have hnd' := Store.branch_nodup (d := Dir.left) hnd
  simp only [List.nodup_cons, List.mem_append, not_or] at hnd'
  obtain ⟨⟨hxl, hxr, hxc⟩, -⟩ := hnd'
  obtain ⟨c, n, hfits, hnode⟩ := h.fits hxc
  cases hnode with
  | black ha hl hr => exact absurd rfl ha
  | twice hl hr => exact ⟨_, Balanced.black (hl.balanced hxl) (hr.balanced hxr), hfits⟩

end Short

end RbTree

namespace Rbtree

open RbTree Store

/-- `rb_fixdel` follows no null pointer, ends, and leaves a red-black tree of the same nodes in the same
order, with its pointers to the parents. -/
def Restored (s : Store (Fin (2 ^ 64))) (t : RbTree (Fin (2 ^ 64))) (x : Fin (2 ^ 64)) : Prop :=
  ∃ s' t', rbFixdel s x = some s' ∧ At s' [] t' ∧ t'.elems = t.elems ∧ ∃ k, Balanced t' Color.black k

variable {s : Store (Fin (2 ^ 64))} {t : RbTree (Fin (2 ^ 64))} {x : Fin (2 ^ 64)}

/-- The loop at a subtree that is short. -/
theorem restored_of_fits {ctx : Ctx (Fin (2 ^ 64))} {u : RbTree (Fin (2 ^ 64))} {k : ℕ}
    (hat : At s [] (Ctx.plug ctx u)) (hu : u.top = some x) (hbal : Balanced u Color.black k)
    (hfits : Ctx.Fits ctx Color.black (k + 1)) : Restored s (Ctx.plug ctx u) x ↔ Fixable ctx := by
  have hlen : (Ctx.plug ctx u).elems.length ≤ addrSpace := by
    have hcard := List.Nodup.length_le_card hat.nodup
    rwa [Fintype.card_fin] at hcard
  have hctx : ctx.length < addrSpace := by
    have hnode : 0 < u.elems.length := List.length_pos_of_mem (mem_of_top hu)
    have hpath := length_le_elems ctx
    rw [(Ctx.elems_plug_perm _ _).length_eq, List.length_append] at hlen
    omega
  rw [← (fixdelLoop_outcome ctx x addrSpace (at_plug.2 hat) hu hbal hfits hctx).removed_iff, Restored,
    Removed, Ctx.elems_plug]
  rfl

/-- **Exactly the fixable paths are repaired.** -/
theorem restored_iff {m : ℕ} (hat : At s [] t) (hshort : Short x t Color.black m)
    {ctx : Ctx (Fin (2 ^ 64))} {l r : RbTree (Fin (2 ^ 64))}
    (ht : Ctx.plug ctx (node Color.black l x r) = t) : Restored s t x ↔ Fixable ctx := by
  subst ht
  obtain ⟨k, hbal, hfits⟩ := hshort.split hat.nodup
  exact restored_of_fits hat rfl hbal hfits

/-- A black leaf below the root, beside a black node with two black children. -/
def fiveNodes : Store (Fin (2 ^ 64)) where
  root := some 1
  child d a :=
    if a = 1 then some (if d = Dir.left then 0 else 3)
    else if a = 3 then some (if d = Dir.left then 2 else 4) else none
  parent a := if a = 1 then none else if a = 0 ∨ a = 3 then some 1 else some 3
  color _ := Color.black

/-- The leaf is repaired. -/
theorem restored_iff_five : Restored fiveNodes
    (node Color.black (node Color.black nil 0 nil) 1
      (node Color.black (node Color.black nil 2 nil) 3 (node Color.black nil 4 nil))) 0 := by
  have hleaf : ∀ {a : Fin (2 ^ 64)}, a ≠ 0 → Short 0 (node Color.black nil a nil) Color.black 1 :=
    fun ha => Short.black ha Short.nil Short.nil
  have hat : At fiveNodes [] (node Color.black (node Color.black nil 0 nil) 1
      (node Color.black (node Color.black nil 2 nil) 3 (node Color.black nil 4 nil))) :=
    ⟨rfl, ⟨rfl, rfl, rfl, rfl, ⟨rfl, rfl, rfl, rfl, trivial, trivial⟩, ⟨rfl, rfl, rfl, rfl,
      ⟨rfl, rfl, rfl, rfl, trivial, trivial⟩, ⟨rfl, rfl, rfl, rfl, trivial, trivial⟩⟩⟩, by decide⟩
  have hpath : Ctx.plug [⟨Dir.left, Color.black, (1 : Fin (2 ^ 64)),
        node Color.black (node Color.black nil 2 nil) 3 (node Color.black nil 4 nil)⟩]
      (node Color.black nil 0 nil) = node Color.black (node Color.black nil 0 nil) 1
        (node Color.black (node Color.black nil 2 nil) 3 (node Color.black nil 4 nil)) := rfl
  refine (restored_iff hat (Short.black (by decide) (Short.twice Short.nil Short.nil)
    (Short.black (by decide) (hleaf (by decide)) (hleaf (by decide)))) hpath).2 ?_
  exact ⟨⟨rfl, rfl⟩, Or.inr trivial⟩

/-- The same with a red node between the sibling and its left child. -/
def sevenNodes : Store (Fin (2 ^ 64)) where
  root := some 1
  child d a :=
    if a = 1 then some (if d = Dir.left then 0 else 5)
    else if a = 5 then some (if d = Dir.left then 3 else 6)
    else if a = 3 then some (if d = Dir.left then 2 else 4) else none
  parent a := if a = 1 then none else if a = 0 ∨ a = 5 then some 1 else if a = 3 ∨ a = 6 then some 5 else some 3
  color a := if a = 3 then Color.red else Color.black

/-- The tree of these nodes. -/
def sevenTree : RbTree (Fin (2 ^ 64)) :=
  node Color.black (node Color.black nil 0 nil) 1
    (node Color.black (node Color.red (node Color.black nil 2 nil) 3 (node Color.black nil 4 nil)) 5
      (node Color.black nil 6 nil))

/-- **The red nephew is taken for the one on the other side**, and the tree is not balanced. -/
theorem not_restored_seven : At sevenNodes [] sevenTree ∧ Short 0 sevenTree Color.black 3 ∧
    ¬ Restored sevenNodes sevenTree 0 := by
  have hleaf : ∀ {a : Fin (2 ^ 64)}, a ≠ 0 → Short 0 (node Color.black nil a nil) Color.black 1 :=
    fun ha => Short.black ha Short.nil Short.nil
  have hat : At sevenNodes [] sevenTree :=
    ⟨rfl, ⟨rfl, rfl, rfl, rfl, ⟨rfl, rfl, rfl, rfl, trivial, trivial⟩, ⟨rfl, rfl, rfl, rfl,
      ⟨rfl, rfl, rfl, rfl, ⟨rfl, rfl, rfl, rfl, trivial, trivial⟩, ⟨rfl, rfl, rfl, rfl, trivial, trivial⟩⟩,
      ⟨rfl, rfl, rfl, rfl, trivial, trivial⟩⟩⟩, by decide⟩
  have hshort : Short 0 sevenTree Color.black 3 :=
    Short.black (by decide) (Short.twice Short.nil Short.nil)
      (Short.black (by decide) (Short.red (hleaf (by decide)) (hleaf (by decide))) (hleaf (by decide)))
  refine ⟨hat, hshort, fun h => ?_⟩
  have hpath : Ctx.plug [⟨Dir.left, Color.black, (1 : Fin (2 ^ 64)),
        node Color.black (node Color.red (node Color.black nil 2 nil) 3 (node Color.black nil 4 nil)) 5
          (node Color.black nil 6 nil)⟩] (node Color.black nil 0 nil) = sevenTree := rfl
  rw [← hpath] at hat hshort h
  obtain ⟨k, hbal, hfits⟩ := hshort.split hat.nodup
  cases ((restored_of_fits hat rfl hbal hfits).1 h).1.1

end Rbtree

end SyncKernel
