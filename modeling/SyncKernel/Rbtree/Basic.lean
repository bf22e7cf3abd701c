/-
**Red-black trees** (`rbtree.c`).

The nodes of a tree are embedded in the structures of a subsystem, which finds the place of a new
node; these functions link the node there and restore the colors.  A pointer to a pointer to a node
is a side of a node, or nothing for the pointer to the root.

Main definitions:

* `Rbtree.rbLrotate`, `Rbtree.rbRrotate`, `Rbtree.rbFixins`, `Rbtree.rbInsert`;
* `Rbtree.rbFixdel`, `Rbtree.rbRemove`;
* `Rbtree.rbFirst`, `Rbtree.rbLast`, `Rbtree.rbNext`, `Rbtree.rbPrev`.

A function returns nothing where the C code follows a null pointer, or does not return.
-/

import SyncKernel.Lib.NodeStore
import SyncKernel.Paging

set_option relaxedAutoImplicit false
set_option autoImplicit false

namespace SyncKernel

namespace Rbtree

/-- Addresses are numerals. -/
instance neZero_addresses : NeZero (2 ^ 64) := ⟨by decide⟩

variable {α : Type*} [DecidableEq α]

/-! ### Inserting -/

/-- The part of a rotation in which `y` takes the place of `x` below the parent of `x`, whose child on
the side `d` is looked at first. -/
def replaceChild (d : Dir) (s : Store α) (x y : α) : Store α :=
  match s.parent x with
  | none => s.setRoot (some y)
  | some p =>
      if s.child d p = some x then s.setChild d p (some y) else s.setChild d.flip p (some y)

/-- `rb_lrotate` and `rb_rrotate`: the child of `x` on the other side takes its place, and `x` becomes
the child of that one on the side `d`. -/
def rotate (d : Dir) (s : Store α) (x : α) : Option (Store α) := do
  let y ← s.child d.flip x
  let b := s.child d y
  let s := s.setChild d.flip x b
  let s := match b with
    | none => s
    | some b => s.setParent b (some x)
  let s := s.setParent y (s.parent x)
  let s := replaceChild d s x y
  let s := s.setChild d y (some x)
  some (s.setParent x (some y))

/-- `rb_lrotate`. -/
def rbLrotate (s : Store α) (x : α) : Option (Store α) := rotate Dir.left s x

/-- `rb_rrotate`. -/
def rbRrotate (s : Store α) (x : α) : Option (Store α) := rotate Dir.right s x

/-- The loop of `rb_fixins`. -/
def fixLoop : ℕ → Store α → α → Option (Store α)
  | 0, _, _ => none
  | n + 1, s, x =>
      if s.root = some x then some s
      else do
        let parent ← s.parent x
        if s.color parent = Color.black then some s
        else do
          let grandparent ← s.parent parent
          let uncRight := s.child Dir.left grandparent = some parent
          let bigUnc := if uncRight then s.child Dir.right grandparent
            else s.child Dir.left grandparent
          if bigUnc.any fun u => s.color u = Color.red then do
            let s := s.setColor parent Color.black
            let u ← bigUnc
            let s := s.setColor u Color.black
            fixLoop n (s.setColor grandparent Color.red) grandparent
          else do
            let inner := if uncRight then s.child Dir.right parent else s.child Dir.left parent
            let (s, x, parent, grandparent) ←
              if inner = some x then do
                let s ← if uncRight then rbLrotate s parent else rbRrotate s parent
                let parent' ← s.parent parent
                let grandparent' ← s.parent parent'
                some (s, parent, parent', grandparent')
              else some (s, x, parent, grandparent)
            let s := s.setColor parent Color.black
            let s := s.setColor grandparent Color.red
            let s ← if uncRight then rbRrotate s grandparent else rbLrotate s grandparent
            fixLoop n s x

/-- `rb_fixins`. -/
def rbFixins (s : Store α) (x : α) : Option (Store α) := do
  let s ← fixLoop addrSpace s x
  let root ← s.root
  some (s.setColor root Color.black)

/-- `rb_insert`. -/
def rbInsert (s : Store α) (node : α) (parent : Option α) (link : Option (Dir × α)) :
    Option (Store α) :=
  let s := s.setChild Dir.left node none
  let s := s.setChild Dir.right node none
  let s := s.setParent node parent
  let s := s.setColor node Color.red
  rbFixins (s.put link (some node)) node

/-! ### Removing -/

/-- The last node on the way from `a` along the side `d`. -/
def outermost (s : Store α) (d : Dir) : ℕ → α → Option α
  | 0, _ => none
  | n + 1, a =>
      match s.child d a with
      | none => some a
      | some b => outermost s d n b

/-- `rb_chk_black`. -/
def rbChkBlack (s : Store α) (p : Option α) : Bool := p.all fun a => s.color a = Color.black

/-- The nodes that a turn of `rb_fixdel` looks at: `x_sibling`, `sibling_inner` and `sibling_outer`. -/
structure Siblings (α : Type*) where
  sibling : Option α
  inner : Option α
  outer : Option α

/-- The part of a turn of `rb_fixdel` at a red sibling.  Rotating to the side `d` brings a child of the
sibling next to `x`; the other two pointers are read from the parent of `x`. -/
def fixdelRed (d : Dir) (s : Store α) (x sib : α) : Option (Store α × Siblings α) := do
  let s := s.setColor sib Color.black
  let parent ← s.parent x
  let s := s.setColor parent Color.red
  let s ← rotate d s parent
  let parent ← s.parent x
  some (s, ⟨s.child d.flip parent, s.child d.flip parent, s.child d parent⟩)

/-- The part of a turn of `rb_fixdel` that rotates the sibling away from `x` first. -/
def fixdelInner (d : Dir) (s : Store α) (x sib : α) : Option (Store α × α × Option α) := do
  let s ← rotate d.flip s sib
  let parent ← s.parent x
  let sib ← s.child d.flip parent
  some (s, sib, s.child d sib)

/-- Making a node black, if there is one. -/
def blacken (s : Store α) : Option α → Store α
  | none => s
  | some o => s.setColor o Color.black

/-- The last part of a turn of `rb_fixdel`, when the sibling has a red child. -/
def fixdelOuter (d : Dir) (s : Store α) (x sib : α) (outer : Option α) : Option (Store α) := do
  let parent ← s.parent x
  let s := s.setColor sib (s.color parent)
  let s := s.setColor parent Color.black
  rotate d (blacken s outer) parent

/-- The loop of `rb_fixdel`.  The side is the one of `lrotate`. -/
def fixdelLoop : ℕ → Store α → α → Option (Store α)
  | 0, _, _ => none
  | n + 1, s, x =>
      if s.root = some x ∨ s.color x = Color.red then some (s.setColor x Color.black)
      else do
        let parent ← s.parent x
        let d := if s.child Dir.left parent = some x then Dir.left else Dir.right
        let sib ← s.child d.flip parent
        let (s, v) ← if s.color sib = Color.red then fixdelRed d s x sib
          else some (s, ⟨some sib, s.child d.flip sib, s.child d sib⟩)
        let sib ← v.sibling
        if rbChkBlack s v.inner ∧ rbChkBlack s v.outer then do
          let parent ← s.parent x
          fixdelLoop n (s.setColor sib Color.red) parent
        else do
          let (s, sib, outer) ← if rbChkBlack s v.outer then fixdelInner d s x sib
            else some (s, sib, v.outer)
          let s ← fixdelOuter d s x sib outer
          match s.root with
          | none => some s
          | some r => fixdelLoop n s r

/-- `rb_fixdel`. -/
def rbFixdel (s : Store α) (x : α) : Option (Store α) := fixdelLoop addrSpace s x

/-- The pointer to a node, `parent_ptr_node`. -/
def parentPtr (s : Store α) (node : α) : Option (Option (Dir × α)) :=
  if s.root = some node then some none
  else (s.parent node).map fun p =>
    some (if s.child Dir.left p = some node then Dir.left else Dir.right, p)

/-- The case of no children. -/
def removeLeaf (s : Store α) (node : α) (link : Option (Dir × α)) : Option (Store α) :=
  let s := s.put link none
  if s.color node = Color.black then rbFixdel s node else some s

/-- The case of one child. -/
def removeSingle (s : Store α) (node x : α) (link : Option (Dir × α)) : Store α :=
  let s := s.put link (some x)
  let s := s.setParent x (s.parent node)
  s.setColor x Color.black

/-- `x` takes over a child of `node`. -/
def adopt (d : Dir) (s : Store α) (x node : α) : Store α :=
  let s := s.setChild d x (s.child d node)
  match s.child d x with
  | none => s
  | some y => s.setParent y (some x)

/-- The end of the case of two children: `x` takes the place of `node`. -/
def replaceNode (s : Store α) (node x : α) (link : Option (Dir × α)) : Store α :=
  let s := s.put link (some x)
  let s := adopt Dir.left s x node
  let s := adopt Dir.right s x node
  let s := s.setColor x (s.color node)
  s.setParent x (s.parent node)

/-- The memory after `rb_remove`.  The recursion is on the successor, in the case of two children. -/
def removeLoop : ℕ → Store α → α → Option (Store α)
  | 0, _, _ => none
  | n + 1, s, node => do
      let link ← parentPtr s node
      match s.child Dir.left node, s.child Dir.right node with
      | none, none => removeLeaf s node link
      | some x, none => some (removeSingle s node x link)
      | none, some x => some (removeSingle s node x link)
      | some _, some r => do
          let x ← outermost s Dir.left addrSpace r
          let s ← removeLoop n s x
          some (replaceNode s node x link)

/-- `rb_remove`, with its result. -/
def rbRemove (s : Store α) (node : α) : Option (α × Store α) :=
  (removeLoop addrSpace s node).map fun s => (node, s)

/-! ### Walking -/

/-- `rb_first`. -/
def rbFirst (s : Store α) : Option (Option α) :=
  match s.root with
  | none => some none
  | some r => (outermost s Dir.left addrSpace r).map some

/-- `rb_last`. -/
def rbLast (s : Store α) : Option (Option α) :=
  match s.root with
  | none => some none
  | some r => (outermost s Dir.right addrSpace r).map some

/-- The loop of `rb_next` up the tree. -/
def climb (s : Store α) : ℕ → α → Option α → Option (Option α)
  | 0, _, _ => none
  | _ + 1, _, none => some none
  | n + 1, node, some parent =>
      if s.child Dir.right parent = some node then climb s n parent (s.parent parent)
      else some (some parent)

/-- `rb_next`. -/
def rbNext (s : Store α) (node : α) : Option (Option α) :=
  match s.child Dir.right node with
  | some r => (outermost s Dir.left addrSpace r).map some
  | none => climb s addrSpace node (s.parent node)

/-- The loop of `rb_prev` up the tree. -/
def climbLeft (s : Store α) : ℕ → α → Option α → Option (Option α)
  | 0, _, _ => none
  | _ + 1, _, none => some none
  | n + 1, node, some parent =>
      if s.child Dir.left parent = some node then climbLeft s n parent (s.parent parent)
      else some (some parent)

/-- `rb_prev`. -/
def rbPrev (s : Store α) (node : α) : Option (Option α) :=
  match s.child Dir.left node with
  | some l => (outermost s Dir.right addrSpace l).map some
  | none => climbLeft s addrSpace node (s.parent node)

end Rbtree

end SyncKernel
