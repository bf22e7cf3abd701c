/-
**Removing a node.**

A node without children is unlinked before `rb_fixdel` runs at it, so the code does not find it among
the children of its parent and takes it for a right child.  A node with one child is replaced by that
one.  A node with two children is replaced by its successor, which is removed first; the pointer to the
node was read before that, and when the removal rotates at the node it points to another place.

Main definitions:

* `Rbtree.Removable` — the nodes that `rb_remove` removes as it should;
* `Rbtree.Kept`, `Rbtree.Removed` — the tree without the node, of any shape or balanced.

Main results:

* `Rbtree.removeLoop_iff` — **exactly the removable nodes are removed**;
* `Rbtree.rbRemove_iff` — the same for trees of nodes in a 64-bit address space.
-/

import Mathlib.Data.Fintype.Card
import SyncKernel.Rbtree.Fixdel
import SyncKernel.Rbtree.Walk

set_option relaxedAutoImplicit false
set_option autoImplicit false

namespace SyncKernel

namespace Rbtree

open RbTree Store

variable {α : Type*}

/-- The first node of the tree is red or has a child: it leaves the tree without a repair. -/
def FirstFree : RbTree α → Prop
  | nil => False
  | node c nil _ r => c = Color.red ∨ r ≠ nil
  | node _ (node c l a r) _ _ => FirstFree (node c l a r)

/-- The nodes that `rb_remove` removes as it should, by the color, the subtrees and the path above:

* a red leaf, or a black one that is a right child below a fixable path;
* every node with one child;
* a node with two children whose successor is red or has a child, or is its right child, when the left
  child is black and the path is fixable from there on. -/
def Removable (ctx : Ctx α) (c : Color) (l : RbTree α) (a : α) (r : RbTree α) : Prop :=
  match l, r with
  | nil, nil => c = Color.red ∨ (∃ f ctx', ctx = f :: ctx' ∧ f.dir = Dir.right) ∧ Fixable ctx
  | node .., node .. =>
      FirstFree r ∨ r.sub Dir.left = nil ∧ l.rootColor = Color.black ∧
        Fixable (⟨Dir.right, c, a, l⟩ :: ctx)
  | _, _ => True

/-- The run follows no null pointer and leaves a balanced tree with the given nodes. -/
def Removed (run : Option (Store α)) (l : List α) : Prop :=
  ∃ s' t', run = some s' ∧ At s' [] t' ∧ t'.elems = l ∧ ∃ k, Balanced t' Color.black k

/-- The run follows no null pointer and leaves a tree with the given nodes. -/
def Kept (run : Option (Store α)) (l : List α) : Prop :=
  ∃ s' t', run = some s' ∧ At s' [] t' ∧ t'.elems = l

theorem Removed.kept {run : Option (Store α)} {l : List α} (h : Removed run l) : Kept run l := by
  obtain ⟨s', t', hrun, hat, helems, -⟩ := h
  exact ⟨s', t', hrun, hat, helems⟩

theorem not_removed_none (l : List α) : ¬ Removed (none : Option (Store α)) l := by
  rintro ⟨s', t', h, -⟩
  cases h

/-- A run that leaves a tree in memory. -/
theorem removed_iff {s : Store α} {ctx : Ctx α} {t : RbTree α} {l : List α} (h : At s ctx t)
    (hl : Ctx.before ctx ++ t.elems ++ Ctx.after ctx = l) :
    Removed (some s) l ↔ ∃ m, Balanced (Ctx.plug ctx t) Color.black m := by
  have hat := at_plug.1 h
  constructor
  · rintro ⟨s', t', hs, hat', -, hbal⟩
    obtain rfl := Option.some_inj.1 hs
    rwa [hat.unique hat']
  · intro hbal
    exact ⟨s, _, rfl, hat, (Ctx.elems_plug ..).trans hl, hbal⟩

theorem Outcome.removed_iff {run : Option (Store α)} {ctx : Ctx α} {t : RbTree α} {good : Prop}
    (h : Outcome run ctx t good) :
    Removed run (Ctx.before ctx ++ t.elems ++ Ctx.after ctx) ↔ good := by
  rcases h with ⟨rfl, hnot⟩ | ⟨s', ctx', rfl, hat, ⟨-, hb, ha⟩, hiff⟩
  · exact iff_of_false (not_removed_none _) hnot
  · rw [← hiff, ← hb, ← ha]
    exact Rbtree.removed_iff hat rfl

/-- A node of a tree in memory is a child of its parent. -/
theorem child_of_parent {s : Store α} {t : RbTree α} {x p : α} (h : At s [] t) (hx : x ∈ t.elems)
    (hp : s.parent x = some p) : ∃ d, s.child d p = some x := by
  obtain ⟨ctx, c, l, r, hplug⟩ := exists_plug [] hx
  have hat : At s ctx (node c l x r) := at_plug.2 (hplug ▸ h)
  cases ctx with
  | nil => cases hp.symm.trans hat.tree.1
  | cons f ctx =>
      obtain rfl : f.elem = p := Option.some_inj.1 (hat.tree.1.symm.trans hp)
      exact ⟨f.dir, hat.path.1⟩

/-! ### The pointer to the node -/

section Unlink

variable {s : Store α} {ctx : Ctx α} {c : Color} {l r : RbTree α} {a x : α}

/-- The pointer to a node of the tree is no pointer of the subtree. -/
theorem link_ne (h : At s ctx (node c l a r)) {b : α} (hb : b ∈ (node c l a r).elems) (d : Dir) :
    Ctx.link ctx ≠ some (d, b) := fun he => h.notMem hb (Ctx.mem_of_link he)

variable [DecidableEq α]

theorem parentPtr_eq (h : At s ctx (node c l a r)) : parentPtr s a = some (Ctx.link ctx) := by
  cases ctx with
  | nil =>
      have hroot : s.root = some a := h.path
      rw [parentPtr, if_pos hroot]
      rfl
  | cons f ctx =>
      rw [parentPtr, if_neg (h.root_ne rfl), (h.above rfl).1, Option.map_some, side_eq h rfl]
      rfl

/-- **Writing the pointer to a subtree** changes nothing else on the path. -/
theorem relink {s' : Store α} {t t' : RbTree α} (h : At s ctx t)
    (hsame : ∀ b ∈ Ctx.elems ctx, s'.parent b = s.parent b ∧ s'.color b = s.color b ∧
      ∀ d, s'.child d b = (s.put (Ctx.link ctx) t'.top).child d b)
    (hroot : s'.root = (s.put (Ctx.link ctx) t'.top).root) (hrepr : Repr s' (Ctx.par ctx) t')
    (hnd : (Ctx.plug ctx t').elems.Nodup) : At s' ctx t' := by
  have hndc : (Ctx.elems ctx).Nodup :=
    (List.nodup_append.1 ((Ctx.elems_plug_perm _ _).nodup_iff.1 h.nodup)).2.1
  refine ⟨h.path.relink hndc (fun b hb => ?_) (fun hne => ?_) ?_, hrepr, hnd⟩
  · obtain ⟨hp, hc, hch⟩ := hsame b hb
    refine ⟨hp, hc, fun d hd => ?_⟩
    rw [hch, put_child, if_neg hd]
  · rw [hroot, put_root]
    cases ctx with
    | nil => exact absurd rfl hne
    | cons f ctx => exact Option.some_ne_none _
  · cases ctx with
    | nil => exact hroot
    | cons f ctx =>
        have hmem : f.elem ∈ Ctx.elems (f :: ctx) :=
          (Ctx.elems_cons_perm f ctx).mem_iff.2 (by simp)
        refine ((hsame f.elem hmem).2.2 f.dir).trans ?_
        rw [put_child]
        exact if_pos rfl

/-- **Unlinking a leaf**. -/
theorem at_unlink (h : At s ctx (node c nil a nil)) : At (s.put (Ctx.link ctx) none) ctx nil := by
  refine relink h (fun b _ => ⟨by rw [put_parent], by rw [put_color], fun d => rfl⟩) rfl trivial ?_
  have hnd := (Ctx.elems_plug_perm _ _).nodup_iff.1 h.nodup
  exact (Ctx.elems_plug_perm _ _).nodup_iff.2 (List.nodup_append.1 hnd).2.1

/-- The leaf keeps its color and its parent. -/
theorem unlinked_leaf (h : At s ctx (node c nil a nil)) :
    (s.put (Ctx.link ctx) none).color a = c ∧ (s.put (Ctx.link ctx) none).parent a = Ctx.par ctx := by
  rw [put_color, put_parent]
  exact ⟨h.tree.2.1, h.tree.1⟩

/-- **The only child** of a node takes its place. -/
theorem at_removeSingle {d : Dir} {t : RbTree α} (h : At s ctx (branch d c t a nil))
    (ht : t.top = some x) : At (removeSingle s a x (Ctx.link ctx)) ctx t.blacken := by
  obtain ⟨hpa, -, -, -, hrt, -⟩ := repr_branch.1 h.tree
  have hnd := branch_nodup h.nodup
  rw [elems_nil, List.nil_append, List.nodup_cons, List.nodup_append] at hnd
  obtain ⟨-, hndt, hndc, hdisj⟩ := hnd
  have hlink : ∀ b ∈ t.elems, ∀ d, Ctx.link ctx ≠ some (d, b) := fun b hb d he =>
    hdisj b hb b (Ctx.mem_of_link he) rfl
  have hx := mem_of_top ht
  have hat : At ((s.put (Ctx.link ctx) (some x)).setParent x (s.parent a)) ctx t := by
    refine relink h (fun b hb => ⟨?_, by simp, fun d => by rw [ht]; rfl⟩) (by rw [ht]; rfl)
      (hrt.reparent hndt (fun b hb d => ?_) (fun b _ => by simp) (fun b hb hne => ?_) fun b hb => ?_)
      ?_
    · have hbx : b ≠ x := fun he => hdisj x hx b hb he.symm
      rw [setParent_parent, if_neg hbx, put_parent]
    · rw [setParent_child, put_child, if_neg (hlink b hb d)]
    · rw [ht] at hne
      rw [setParent_parent, if_neg fun he => hne (by rw [he]), put_parent]
    · obtain rfl : x = b := Option.some_inj.1 (ht.symm.trans hb)
      rw [setParent_parent, if_pos rfl, hpa]
    · exact (Ctx.elems_plug_perm _ _).nodup_iff.2 (List.nodup_append.2 ⟨hndt, hndc, hdisj⟩)
  have hblack := at_blacken hat
  rw [ht] at hblack
  rw [removeSingle, put_parent]
  exact hblack

/-! ### Taking the place of a node -/

theorem adopt_eq (d : Dir) : adopt d s x a = match s.child d a with
    | none => s.setChild d x none
    | some y => (s.setChild d x (some y)).setParent y (some x) := by
  have hx : (s.setChild d x (s.child d a)).child d x = s.child d a := if_pos ⟨rfl, rfl⟩
  unfold adopt
  dsimp only
  rw [hx]
  cases s.child d a <;> rfl

theorem adopt_child (d e : Dir) (b : α) :
    (adopt d s x a).child e b = if e = d ∧ b = x then s.child d a else s.child e b := by
  rw [adopt_eq]
  cases s.child d a <;> rfl

theorem adopt_parent (d : Dir) (b : α) :
    (adopt d s x a).parent b = if s.child d a = some b then some x else s.parent b := by
  rw [adopt_eq]
  cases s.child d a with
  | none => rfl
  | some y => simp [eq_comm]

theorem adopt_color (d : Dir) : (adopt d s x a).color = s.color := by
  rw [adopt_eq]
  cases s.child d a <;> rfl

theorem adopt_root (d : Dir) : (adopt d s x a).root = s.root := by
  rw [adopt_eq]
  cases s.child d a <;> rfl

section Fields

variable {lk : Option (Dir × α)}

theorem replaceNode_root : (replaceNode s a x lk).root = (s.put lk (some x)).root := by
  rw [replaceNode, setParent_root, setColor_root, adopt_root, adopt_root]

theorem replaceNode_color (b : α) :
    (replaceNode s a x lk).color b = if b = x then s.color a else s.color b := by
  rw [replaceNode, setParent_color, setColor_color, adopt_color, adopt_color, put_color]

theorem replaceNode_child (hla : ∀ e, lk ≠ some (e, a)) (e : Dir) (b : α) :
    (replaceNode s a x lk).child e b =
      if b = x then s.child e a else (s.put lk (some x)).child e b := by
  have hput : ∀ e, (s.put lk (some x)).child e a = s.child e a := fun e =>
    (put_child s lk (some x) e a).trans (if_neg (hla e))
  rw [replaceNode, setParent_child, setColor_child, adopt_child, adopt_child, adopt_child, hput, hput]
  by_cases hb : b = x
  · cases e <;> simp [hb]
  · simp [hb]

theorem replaceNode_parent (hla : ∀ e, lk ≠ some (e, a)) (haa : ∀ e, s.child e a ≠ some a) (b : α) :
    (replaceNode s a x lk).parent b = if b = x then s.parent a
      else if s.child Dir.left a = some b ∨ s.child Dir.right a = some b then some x
      else s.parent b := by
  have hput : ∀ e, (s.put lk (some x)).child e a = s.child e a := fun e =>
    (put_child s lk (some x) e a).trans (if_neg (hla e))
  have hright : (adopt Dir.left (s.put lk (some x)) x a).child Dir.right a = s.child Dir.right a := by
    rw [adopt_child, if_neg fun he => Dir.noConfusion he.1, hput]
  have hadopt : ∀ b, (adopt Dir.right (adopt Dir.left (s.put lk (some x)) x a) x a).parent b =
      if s.child Dir.left a = some b ∨ s.child Dir.right a = some b then some x
      else s.parent b := by
    intro b
    rw [adopt_parent, hright, adopt_parent, hput, put_parent]
    by_cases hl : s.child Dir.left a = some b <;> by_cases hr : s.child Dir.right a = some b <;>
      simp [hl, hr]
  rw [replaceNode, setParent_parent, setColor_parent, hadopt, hadopt,
    if_neg (not_or.2 ⟨haa _, haa _⟩)]

end Fields

/-- **A node that takes the place of another one**. -/
theorem at_replaceNode (h : At s ctx (node c l a r))
    (hx : x ∉ (Ctx.plug ctx (node c l a r)).elems) :
    At (replaceNode s a x (Ctx.link ctx)) ctx (node c l x r) := by
  obtain ⟨hpa, hca, hla, hra, hrl, hrr⟩ := h.tree
  have hnd := branch_nodup (d := Dir.left) h.nodup
  simp only [List.nodup_cons, List.nodup_append, List.mem_append, not_or] at hnd
  obtain ⟨⟨hal, har, hactx⟩, hndl, ⟨hndr, hndc, hrc⟩, hlrc⟩ := hnd
  rw [(Ctx.elems_plug_perm _ _).mem_iff, List.mem_append, elems_node, List.mem_append, List.mem_cons,
    not_or, not_or, not_or] at hx
  obtain ⟨⟨hxl, hxa, hxr⟩, hxctx⟩ := hx
  have hlink := link_ne h (b := a) (by simp)
  have haa : ∀ e, s.child e a ≠ some a := by
    intro e he
    cases e with
    | left => exact hal (mem_of_top (hla.symm.trans he))
    | right => exact har (mem_of_top (hra.symm.trans he))
  have hsame : ∀ b, b ≠ x → (∀ e, Ctx.link ctx ≠ some (e, b)) →
      (∀ e, (replaceNode s a x (Ctx.link ctx)).child e b = s.child e b) ∧
        (replaceNode s a x (Ctx.link ctx)).color b = s.color b := by
    intro b hb hlb
    refine ⟨fun e => ?_, by rw [replaceNode_color, if_neg hb]⟩
    rw [replaceNode_child hlink, if_neg hb, put_child, if_neg (hlb e)]
  have hparent : ∀ b, b ≠ x → l.top ≠ some b → r.top ≠ some b →
      (replaceNode s a x (Ctx.link ctx)).parent b = s.parent b := by
    intro b hb hl hr
    rw [replaceNode_parent hlink haa, if_neg hb, hla, hra, if_neg (not_or.2 ⟨hl, hr⟩)]
  have hadopted : ∀ b, b ≠ x → l.top = some b ∨ r.top = some b →
      (replaceNode s a x (Ctx.link ctx)).parent b = some x := by
    intro b hb htop
    rw [replaceNode_parent hlink haa, if_neg hb, hla, hra, if_pos htop]
  have htop : ∀ {t : RbTree α} {b : α}, b ∉ t.elems → t.top ≠ some b := fun hb he =>
    hb (mem_of_top he)
  have hlt : ∀ b ∈ (node c l a r).elems, ∀ e, Ctx.link ctx ≠ some (e, b) := fun b hb => link_ne h hb
  refine relink h (fun b hb => ⟨?_, ?_, fun e => ?_⟩) replaceNode_root ⟨?_, ?_, ?_, ?_,
    hrl.reparent hndl (fun b hb => ?_) (fun b hb => ?_) (fun b hb hne => ?_) (fun b hb => ?_),
    hrr.reparent hndr (fun b hb => ?_) (fun b hb => ?_) (fun b hb hne => ?_) (fun b hb => ?_)⟩ ?_
  · exact hparent b (fun he => hxctx (he ▸ hb)) (htop fun hl => hlrc b hl b (Or.inr hb) rfl)
      (htop fun hr => hrc b hr b hb rfl)
  · rw [replaceNode_color, if_neg fun he : b = x => hxctx (he ▸ hb)]
  · rw [replaceNode_child hlink, if_neg fun he : b = x => hxctx (he ▸ hb)]
    rfl
  · rw [replaceNode_parent hlink haa, if_pos rfl, hpa]
  · rw [replaceNode_color, if_pos rfl, hca]
  · rw [replaceNode_child hlink, if_pos rfl, hla]
  · rw [replaceNode_child hlink, if_pos rfl, hra]
  · exact (hsame b (fun he => hxl (he ▸ hb)) (hlt b (by simp [hb]))).1
  · exact (hsame b (fun he => hxl (he ▸ hb)) (hlt b (by simp [hb]))).2
  · exact hparent b (fun he => hxl (he ▸ hb)) (Ne.symm hne)
      (htop fun hr => hlrc b hb b (Or.inl hr) rfl)
  · exact hadopted b (fun he => hxl (he ▸ mem_of_top hb)) (Or.inl hb)
  · exact (hsame b (fun he => hxr (he ▸ hb)) (hlt b (by simp [hb]))).1
  · exact (hsame b (fun he => hxr (he ▸ hb)) (hlt b (by simp [hb]))).2
  · exact hparent b (fun he => hxr (he ▸ hb)) (htop fun hl => hlrc b hl b (Or.inl hb) rfl)
      (Ne.symm hne)
  · exact hadopted b (fun he => hxr (he ▸ mem_of_top hb)) (Or.inr hb)
  · refine (Ctx.elems_plug_perm _ _).nodup_iff.2 (((elems_branch_perm Dir.left c l x r).append_right
      (Ctx.elems ctx)).nodup_iff.2 ?_)
    rw [List.cons_append, List.append_assoc]
    simp only [List.nodup_cons, List.nodup_append, List.mem_append, not_or]
    exact ⟨⟨hxl, hxr, hxctx⟩, hndl, ⟨hndr, hndc, hrc⟩, hlrc⟩

end Unlink

/-! ### The three cases -/

section Cases

variable {s : Store α} {ctx : Ctx α} {c : Color} {l r : RbTree α} {a x : α}

/-- A tree below a node of height zero is a red leaf, unless it is empty. -/
theorem balanced_blacken {c' : Color} {t : RbTree α} (h : Balanced t c' 0) (ht : t ≠ nil) :
    Balanced t.blacken Color.black 1 := by
  cases h with
  | nil => exact absurd rfl ht
  | red hl hr => exact Balanced.black hl hr

/-- The color of the node that takes the place of another one is that of the other one. -/
theorem balanced_relabel {b : α} {m : ℕ} (h : Balanced (Ctx.plug ctx (node c l a r)) Color.black m) :
    ∃ m, Balanced (Ctx.plug ctx (node c l b r)) Color.black m := by
  obtain ⟨c', n, hfits, hnode⟩ := Ctx.fits_of_balanced h
  cases hnode with
  | red hl hr => exact hfits.plug (Balanced.red hl hr)
  | black hl hr => exact hfits.plug (Balanced.black hl hr)

/-- The successor of a node, with the path to it. -/
theorem exists_first (h : r ≠ nil) :
    ∃ path cx x rx, r = Ctx.plug path (node cx nil x rx) ∧ (∀ f ∈ path, f.dir = Dir.left) ∧
      (FirstFree r ↔ cx = Color.red ∨ rx ≠ nil) ∧ (r.sub Dir.left = nil ↔ path = []) := by
  induction r with
  | nil => exact absurd rfl h
  | node c l a r ihl _ =>
      cases l with
      | nil =>
          refine ⟨[], c, a, r, rfl, fun f hf => absurd hf List.not_mem_nil, ?_, iff_of_true rfl rfl⟩
          rw [FirstFree]
      | node c' l' a' r' =>
          obtain ⟨path, cx, x, rx, hl, hleft, hfree, -⟩ := ihl (fun he => by cases he)
          refine ⟨path ++ [⟨Dir.left, c, a, r⟩], cx, x, rx, ?_, fun f hf => ?_, ?_,
            iff_of_false (fun he => by cases he) (by simp)⟩
          · rw [Ctx.plug_append, ← hl]
            rfl
          · rcases List.mem_append.1 hf with hf | hf
            · exact hleft f hf
            · rw [List.mem_singleton.1 hf]
          · rw [FirstFree, hfree]

theorem before_of_left {path : Ctx α} (h : ∀ f ∈ path, f.dir = Dir.left) : Ctx.before path = [] := by
  induction path with
  | nil => rfl
  | cons f path ih =>
      rw [Ctx.before, ih fun g hg => h g (List.mem_cons_of_mem _ hg), h f (by simp)]
      rfl

theorem notMem_unlinked {t : RbTree α} (h : At s ctx (node c nil x t)) :
    x ∉ (Ctx.plug ctx t).elems := by
  have hnd := branch_nodup (d := Dir.left) h.nodup
  rw [(Ctx.elems_plug_perm _ _).mem_iff]
  exact (List.nodup_cons.1 hnd).1

/-- The path to the successor, from the root of the tree. -/
theorem at_first {path : Ctx α} {cx : Color} {rx : RbTree α}
    (h : At s ctx (node c l a (Ctx.plug path (node cx nil x rx)))) :
    At s (path ++ ⟨Dir.right, c, a, l⟩ :: ctx) (node cx nil x rx) := by
  have hat : At s (⟨Dir.right, c, a, l⟩ :: ctx) (Ctx.plug path (node cx nil x rx)) := at_up.2 h
  refine at_plug.2 ?_
  rw [Ctx.plug_append]
  exact at_plug.1 hat

variable [DecidableEq α]

theorem fixdelLoop_orphan {n : ℕ} (hroot : s.root ≠ some x) (hc : s.color x = Color.black)
    (hp : s.parent x = none) : fixdelLoop (n + 1) s x = none := by
  rw [fixdelLoop, if_neg (by simp [hroot, hc]), hp]
  rfl

/-- **A node that was unlinked** is not a left child, as the code sees it. -/
theorem hole_unlinked {f : Frame α} (hat : At s (f :: ctx) nil)
    (hx : x ∉ (Ctx.plug (f :: ctx) nil).elems) (hp : s.parent x = some f.elem)
    (hc : s.color x = Color.black) : Hole s Dir.right x f.elem := by
  rw [(Ctx.elems_plug_perm _ _).mem_iff, elems_nil, List.nil_append] at hx
  refine ⟨fun he => ?_, hc, hp, if_neg fun he => ?_⟩
  · obtain ⟨b, hb, hroot⟩ := hat.path.root_mem
    exact hx (Option.some_inj.1 (hroot.symm.trans he) ▸ hb)
  · obtain ⟨h₁, h₂, -⟩ := hat.path
    cases hd : f.dir with
    | left =>
        rw [hd, he] at h₁
        cases h₁
    | right =>
        rw [hd, Dir.flip, he] at h₂
        exact hx ((Ctx.elems_cons_perm f ctx).mem_iff.2 (by simp [mem_of_top h₂.symm]))

/-- **A node with one child**. -/
theorem removeSingle_removed {d : Dir} {t : RbTree α} {m : ℕ} (h : At s ctx (branch d c t a nil))
    (hbal : Balanced (Ctx.plug ctx (branch d c t a nil)) Color.black m) (ht : t.top = some x) :
    Removed (some (removeSingle s a x (Ctx.link ctx)))
      (Ctx.before ctx ++ t.elems ++ Ctx.after ctx) := by
  obtain ⟨c', n, hfits, hnode⟩ := Ctx.fits_of_balanced hbal
  have hne : t ≠ nil := fun he => by cases (he ▸ ht : (nil : RbTree α).top = some x)
  refine (removed_iff (at_removeSingle h ht) (by rw [elems_blacken])).2 ?_
  obtain ⟨rfl, ⟨rfl, hbt, hnil⟩ | ⟨rfl, k, c₁, c₂, rfl, hbt, hnil⟩⟩ := hnode.of_branch
  · -- a red node has no single child
    cases hnil with
    | nil =>
        cases hbt with
        | nil => exact absurd rfl hne
  · cases hnil with
    | nil => exact hfits.plug (balanced_blacken hbt hne)

/-- **A black leaf that is a left child**: the code follows a null pointer. -/
theorem removeLeaf_left {f : Frame α} (h : At s (f :: ctx) (node Color.black nil a nil))
    (hd : f.dir = Dir.left) : removeLeaf s a (Ctx.link (f :: ctx)) = none := by
  have hat := at_unlink h
  obtain ⟨hca, hpa⟩ := unlinked_leaf h
  have hnone := hat.path.1
  rw [hd] at hnone
  rw [removeLeaf, hca, if_pos rfl, rbFixdel, show addrSpace = (addrSpace - 1) + 1 from rfl,
    (hole_unlinked hat (notMem_unlinked h) hpa hca).none hnone]

/-- **A leaf**. -/
theorem removeLeaf_iff {m : ℕ} (h : At s ctx (node c nil a nil))
    (hbal : Balanced (Ctx.plug ctx (node c nil a nil)) Color.black m)
    (hlen : ctx.length < addrSpace) :
    Removed (removeLeaf s a (Ctx.link ctx)) (Ctx.before ctx ++ Ctx.after ctx) ↔
      Removable ctx c nil a nil := by
  obtain ⟨c', n, hfits, hnode⟩ := Ctx.fits_of_balanced hbal
  have hat := at_unlink h
  obtain ⟨hca, hpa⟩ := unlinked_leaf h
  have hlist : Ctx.before ctx ++ (nil : RbTree α).elems ++ Ctx.after ctx =
      Ctx.before ctx ++ Ctx.after ctx := by simp
  cases hnode with
  | red hl hr =>
      cases hl with
      | nil =>
          rw [removeLeaf, hca, if_neg (by simp)]
          exact iff_of_true ((removed_iff hat hlist).2 (hfits.of_red.plug Balanced.nil))
            (Or.inl rfl)
  | black hl hr =>
      cases hl with
      | nil =>
          rw [removeLeaf, hca, if_pos rfl, rbFixdel]
          cases ctx with
          | nil =>
              refine iff_of_false ?_ ?_
              · rw [show addrSpace = (addrSpace - 1) + 1 from rfl,
                  fixdelLoop_orphan (show (none : Option α) ≠ some a from fun he => by cases he) hca hpa]
                exact not_removed_none _
              · rintro (h | ⟨⟨f, ctx', h, -⟩, -⟩)
                · cases h
                · cases h
          | cons f ctx =>
              have hx := notMem_unlinked h
              have hole := hole_unlinked hat hx hpa hca
              cases hd : f.dir with
              | left =>
                  have hnone := removeLeaf_left h hd
                  rw [removeLeaf, hca, if_pos rfl, rbFixdel] at hnone
                  refine iff_of_false ?_ ?_
                  · rw [hnone]
                    exact not_removed_none _
                  · rintro (h | ⟨⟨f', ctx', h, hd'⟩, -⟩)
                    · cases h
                    · obtain ⟨rfl, -⟩ := List.cons.inj h
                      cases hd.symm.trans hd'
              | right =>
                  obtain ⟨d, c', p, u⟩ := f
                  obtain rfl : d = Dir.right := hd
                  have hout := hole_outcome hat hole (Or.inr hx) Balanced.nil hfits
                    (fixdelLoop_outcome ctx p) addrSpace (by simpa using hlen)
                  rw [← hlist, hout.removed_iff]
                  refine ⟨fun hg => Or.inr ⟨⟨_, _, rfl, rfl⟩, hg⟩, fun hg => ?_⟩
                  rcases hg with hred | hg
                  · cases hred
                  · exact hg.2

/-! ### Two children -/

/-- **The end of the case of two children**, where the pointer to the node is still the one that was
read at the start. -/
theorem replaceNode_removed_iff {ctx' : Ctx α} {lst : List α} (h : At s ctx' (node c l a r))
    (hx : x ∉ (Ctx.plug ctx' (node c l a r)).elems) (hlink : Ctx.link ctx' = Ctx.link ctx)
    (hlst : Ctx.before ctx' ++ (l.elems ++ x :: r.elems) ++ Ctx.after ctx' = lst) :
    Removed (some (replaceNode s a x (Ctx.link ctx))) lst ↔
      ∃ m, Balanced (Ctx.plug ctx' (node c l a r)) Color.black m := by
  rw [← hlink, removed_iff (at_replaceNode h hx) hlst]
  exact ⟨fun ⟨m, hm⟩ => balanced_relabel hm, fun ⟨m, hm⟩ => balanced_relabel hm⟩

/-- **A rotation at the node** leaves a pointer to another place: the successor is no child of its
parent. -/
theorem not_kept_stale {d : Dir} {c₁ c₂ : Color} {b : α} {u v : RbTree α} {lst : List α}
    {lk : Option (Dir × α)} (h : At s (⟨d, c₁, a, u⟩ :: ⟨d, c₂, b, v⟩ :: ctx) nil)
    (hx : x ∉ Ctx.elems (⟨d, c₁, a, u⟩ :: ⟨d, c₂, b, v⟩ :: ctx)) (hla : ∀ e, lk ≠ some (e, a))
    (hlb : ∀ e, lk ≠ some (e, b)) (hlst : x ∈ lst) :
    ¬ Kept (some (replaceNode s a x lk)) lst := by
  rintro ⟨s', t', hs, hat, rfl⟩
  obtain rfl := Option.some_inj.1 hs
  obtain ⟨hda, hfa, -, hpa, -, hdb, hfb, -⟩ := h.path
  have hau := (List.nodup_cons.1 (branch_nodup (at_up.1 h).nodup)).1
  simp only [elems_nil, List.nil_append, List.mem_append, not_or] at hau
  simp only [(Ctx.elems_cons_perm _ _).mem_iff, List.mem_cons, List.mem_append, not_or] at hx
  obtain ⟨hxa, -, hxb, hxv, -⟩ := hx
  have haa : ∀ e, s.child e a ≠ some a := by
    intro e he
    rcases Dir.eq_or_eq_flip d e with rfl | rfl
    · cases hda.symm.trans he
    · exact hau.1 (mem_of_top (hfa.symm.trans he))
  have hpx : (replaceNode s a x lk).parent x = some b := by
    rw [replaceNode_parent hla haa, if_pos rfl]
    exact hpa
  obtain ⟨e, he⟩ := child_of_parent hat hlst hpx
  rw [replaceNode_child hla, if_neg fun hbx : b = x => hxb hbx.symm, put_child, if_neg (hlb e)] at he
  rcases Dir.eq_or_eq_flip d e with rfl | rfl
  · exact hxa (Option.some_inj.1 (hdb.symm.trans he)).symm
  · exact hxv (mem_of_top (hfb.symm.trans he))

theorem removeLoop_leaf {n : ℕ} (h : At s ctx (node c nil a nil)) :
    removeLoop (n + 1) s a = removeLeaf s a (Ctx.link ctx) := by
  obtain ⟨-, -, hl, hr, -⟩ := h.tree
  rw [top_nil] at hl hr
  simp only [removeLoop, parentPtr_eq h, Option.bind_eq_bind, Option.bind_some, hl, hr]

theorem removeLoop_single {n : ℕ} {d : Dir} {t : RbTree α} (h : At s ctx (branch d c t a nil))
    (ht : t.top = some x) :
    removeLoop (n + 1) s a = some (removeSingle s a x (Ctx.link ctx)) := by
  cases d with
  | left =>
      obtain ⟨-, -, hl, hr, -⟩ := h.tree
      rw [ht] at hl
      rw [top_nil] at hr
      simp only [removeLoop, parentPtr_eq h, Option.bind_eq_bind, Option.bind_some, hl, hr]
  | right =>
      obtain ⟨-, -, hl, hr, -⟩ := h.tree
      rw [ht] at hr
      rw [top_nil] at hl
      simp only [removeLoop, parentPtr_eq h, Option.bind_eq_bind, Option.bind_some, hl, hr]

theorem removeLoop_two {n : ℕ} (h : At s ctx (node c l a r)) (hl : l ≠ nil)
    (hr : r.elems.head? = some x) (hlen : r.elems.length ≤ addrSpace) :
    removeLoop (n + 1) s a =
      (removeLoop n s x).bind fun s' => some (replaceNode s' a x (Ctx.link ctx)) := by
  obtain ⟨-, -, hla, hra, -, hrr⟩ := h.tree
  obtain ⟨b, hb⟩ := Option.ne_none_iff_exists'.1 (fun he => hl (top_eq_none.1 he))
  obtain ⟨b', hb'⟩ : ∃ b', r.top = some b' := by
    cases r with
    | nil => cases hr
    | node c l b r => exact ⟨b, rfl⟩
  have hout := outermost_left hrr hb' hlen
  rw [hb] at hla
  rw [hb'] at hra
  simp only [removeLoop, parentPtr_eq h, Option.bind_eq_bind, Option.bind_some, hla, hra,
    hout.trans hr]

/-- **Removing the successor** where no repair is needed. -/
theorem removeLoop_first (n : ℕ) {m : ℕ} {cx : Color} {rx : RbTree α} (h : At s ctx (node cx nil x rx))
    (hbal : Balanced (Ctx.plug ctx (node cx nil x rx)) Color.black m)
    (hfree : cx = Color.red ∨ rx ≠ nil) :
    ∃ s₁ t₁, removeLoop (n + 1) s x = some s₁ ∧ At s₁ ctx t₁ ∧ t₁.elems = rx.elems ∧
      ∃ m, Balanced (Ctx.plug ctx t₁) Color.black m := by
  cases rx with
  | nil =>
      obtain rfl := hfree.resolve_right (fun hne => hne rfl)
      obtain ⟨c', k, hfits, hnode⟩ := Ctx.fits_of_balanced hbal
      refine ⟨s.put (Ctx.link ctx) none, nil, ?_, at_unlink h, rfl, ?_⟩
      · rw [removeLoop_leaf h, removeLeaf, (unlinked_leaf h).1, if_neg (by simp)]
      · cases hnode with
        | red hl hr => exact hfits.of_red.plug hr
  | node c' l y r =>
      have hat : At s ctx (branch Dir.right cx (node c' l y r) x nil) := h
      exact ⟨_, _, removeLoop_single hat rfl, at_removeSingle hat rfl, elems_blacken _,
        (removed_iff (at_removeSingle hat rfl) rfl).1
          (by rw [elems_blacken]; exact removeSingle_removed hat hbal rfl)⟩

/-- **A node with two children whose successor needs no repair**. -/
theorem removeLoop_free {n m : ℕ} {path : Ctx α} {cx : Color} {rx : RbTree α}
    (h : At s ctx (node c l a (Ctx.plug path (node cx nil x rx)))) (hl : l ≠ nil)
    (hleft : ∀ f ∈ path, f.dir = Dir.left)
    (hbal : Balanced (Ctx.plug ctx (node c l a (Ctx.plug path (node cx nil x rx)))) Color.black m)
    (hlen : (Ctx.plug path (node cx nil x rx)).elems.length ≤ addrSpace)
    (hfree : cx = Color.red ∨ rx ≠ nil) :
    Removed (removeLoop (n + 2) s a) (Ctx.before ctx ++
      (l.elems ++ (Ctx.plug path (node cx nil x rx)).elems) ++ Ctx.after ctx) := by
  have hr : ∀ t : RbTree α, (Ctx.plug path t).elems = t.elems ++ Ctx.after path := fun t => by
    rw [Ctx.elems_plug, before_of_left hleft, List.nil_append]
  have hx := at_first h
  have hplug : ∀ t : RbTree α, Ctx.plug (path ++ ⟨Dir.right, c, a, l⟩ :: ctx) t =
      Ctx.plug ctx (node c l a (Ctx.plug path t)) := fun t => Ctx.plug_append ..
  obtain ⟨s₁, t₁, hrun, hat₁, helems, hbal₁⟩ := removeLoop_first n hx (hplug _ ▸ hbal) hfree
  have hat₂ : At s₁ ctx (node c l a (Ctx.plug path t₁)) :=
    at_plug.2 (hplug t₁ ▸ at_plug.1 hat₁)
  have hnot : x ∉ (Ctx.plug ctx (node c l a (Ctx.plug path t₁))).elems := by
    rw [← hplug, Ctx.elems_plug_congr helems]
    exact notMem_unlinked hx
  have hend := (replaceNode_removed_iff hat₂ hnot rfl rfl).2 (hplug t₁ ▸ hbal₁)
  rw [removeLoop_two h hl (by rw [hr]; rfl) hlen, hrun, Option.bind_some]
  rw [hr, helems] at hend
  rw [hr]
  exact hend

/-- **A node with two children whose successor is a black leaf on the left**: the code follows a null
pointer. -/
theorem removeLoop_left {n : ℕ} {path : Ctx α}
    (h : At s ctx (node c l a (Ctx.plug path (node Color.black nil x nil)))) (hl : l ≠ nil)
    (hleft : ∀ f ∈ path, f.dir = Dir.left) (hpath : path ≠ [])
    (hlen : (Ctx.plug path (node Color.black nil x nil)).elems.length ≤ addrSpace) :
    removeLoop (n + 2) s a = none := by
  have hx := at_first h
  rw [removeLoop_two h hl (by rw [Ctx.elems_plug, before_of_left hleft]; rfl) hlen,
    removeLoop_leaf hx]
  cases path with
  | nil => exact absurd rfl hpath
  | cons f path =>
      rw [List.cons_append] at hx ⊢
      rw [removeLeaf_left hx (hleft f (by simp))]
      rfl

/-- **A node whose successor is its right child, a black leaf**: the loop runs from the place of that
one, and then it takes the place of the node. -/
theorem removeLoop_right_eq {n : ℕ} (h : At s ctx (node c l a (node Color.black nil x nil)))
    (hl : l ≠ nil) :
    removeLoop (n + 2) s a =
      (fixdelLoop addrSpace (s.put (Ctx.link (⟨Dir.right, c, a, l⟩ :: ctx)) none) x).bind fun s' =>
        some (replaceNode s' a x (Ctx.link ctx)) := by
  have hx : At s (⟨Dir.right, c, a, l⟩ :: ctx) (node Color.black nil x nil) := at_up.2 h
  rw [removeLoop_two h hl rfl (show 1 ≤ addrSpace by decide), removeLoop_leaf hx, removeLeaf,
    (unlinked_leaf hx).1, if_pos rfl, rbFixdel]

/-- The place of the successor, when it is unlinked. -/
theorem hole_right {m : ℕ} (h : At s ctx (node c l a (node Color.black nil x nil)))
    (hbal : Balanced (Ctx.plug ctx (node c l a (node Color.black nil x nil))) Color.black m) :
    At (s.put (Ctx.link (⟨Dir.right, c, a, l⟩ :: ctx)) none) (⟨Dir.right, c, a, l⟩ :: ctx) nil ∧
      Hole (s.put (Ctx.link (⟨Dir.right, c, a, l⟩ :: ctx)) none) Dir.right x a ∧
      x ∉ (Ctx.plug (⟨Dir.right, c, a, l⟩ :: ctx) nil).elems ∧
      Ctx.Fits (⟨Dir.right, c, a, l⟩ :: ctx) Color.black 1 := by
  have hx : At s (⟨Dir.right, c, a, l⟩ :: ctx) (node Color.black nil x nil) := at_up.2 h
  have hat := at_unlink hx
  have hnot := notMem_unlinked hx
  obtain ⟨hcx, hpx⟩ := unlinked_leaf hx
  refine ⟨hat, hole_unlinked hat hnot hpx hcx, hnot, ?_⟩
  · obtain ⟨c', k, hfits, hnode⟩ : ∃ c' k, Ctx.Fits (⟨Dir.right, c, a, l⟩ :: ctx) c' k ∧
        Balanced (node Color.black nil x nil) c' k := Ctx.fits_of_balanced hbal
    cases hnode with
    | black hln hrn =>
        cases hln with
        | nil => exact hfits

/-- **A red left child, or one with a red child**: the loop rotates at the node, and the pointer to it
that was read before points to another place. -/
theorem removeLoop_right_bad {n m : ℕ} (h : At s ctx (node c l a (node Color.black nil x nil)))
    (hl : l ≠ nil)
    (hbal : Balanced (Ctx.plug ctx (node c l a (node Color.black nil x nil))) Color.black m)
    (hbad : ¬ (l.rootColor = Color.black ∧ l.BlackChildren)) :
    ¬ Kept (removeLoop (n + 2) s a) (Ctx.before ctx ++ (l.elems ++ [x]) ++ Ctx.after ctx) := by
  obtain ⟨hat, hole, hnot, hfits⟩ := hole_right h hbal
  have hmem : ∀ b ∈ l.elems, ∀ e, Ctx.link ctx ≠ some (e, b) := fun b hb =>
    link_ne h (by simp [hb])
  have hstale : ∀ {s' : Store α} {u' v : RbTree α} {b : α} {c' : Color},
      At s' (⟨Dir.right, Color.black, a, u'⟩ :: ⟨Dir.right, c', b, v⟩ :: ctx) nil →
      l.elems = (branch Dir.right Color.black u' b v).elems →
      ¬ Kept (some (replaceNode s' a x (Ctx.link ctx)))
        (Ctx.before ctx ++ (l.elems ++ [x]) ++ Ctx.after ctx) := by
    intro s' u' v b c' hat' helems
    refine not_kept_stale hat' ?_ (link_ne h (by simp)) (hmem b ?_) (by simp)
    · rw [(Ctx.elems_plug_perm _ _).mem_iff, elems_nil, List.nil_append, Ctx.elems] at hnot
      have horder : Ctx.before (⟨Dir.right, Color.black, a, u'⟩ ::
            ⟨Dir.right, c', b, v⟩ :: ctx) = Ctx.before (⟨Dir.right, c, a, l⟩ :: ctx) ∧
          Ctx.after (⟨Dir.right, Color.black, a, u'⟩ :: ⟨Dir.right, c', b, v⟩ :: ctx) =
            Ctx.after (⟨Dir.right, c, a, l⟩ :: ctx) := Ctx.order_rotate helems
      rw [Ctx.elems, horder.1, horder.2]
      exact hnot
    · rw [helems, (elems_branch_perm _ _ _ _ _).mem_iff]
      simp
  rw [removeLoop_right_eq h hl, show addrSpace = (addrSpace - 2) + 2 from rfl]
  cases hcl : l.rootColor with
  | red =>
      obtain ⟨s', u', b, v, hrun, hat', helems, -⟩ :=
        turn_red hat hole (Or.inr hnot) Balanced.nil hfits hcl
      rw [hrun, Option.bind_some]
      exact hstale hat' helems
  | black =>
      have hblack : ¬ l.BlackChildren := fun hb => hbad ⟨hcl, hb⟩
      obtain ⟨hu, m, hctx⟩ : Balanced l Color.black 1 ∧ ∃ m, Ctx.Fits ctx c m := by
        cases hfits with
        | red hs hfits => exact ⟨hs, _, hfits⟩
        | black hs hfits => exact ⟨hs.rootColor_eq.symm.trans hcl ▸ hs, _, hfits⟩
      rcases turn_bad hat hole (Or.inr hnot) Balanced.nil hu hctx hblack with
        ⟨-, hnone⟩ | ⟨-, s', u', b, v, hrun, hat', helems, -⟩
      · rw [hnone, Option.bind_none]
        rintro ⟨s', t', h, -⟩
        cases h
      · rw [hrun, Option.bind_some]
        exact hstale hat' helems

/-- **A black left child without a red child**: the loop does not rotate at the node, and the successor
takes its place. -/
theorem removeLoop_right_good {m : ℕ} (h : At s ctx (node c l a (node Color.black nil x nil)))
    (hbal : Balanced (Ctx.plug ctx (node c l a (node Color.black nil x nil))) Color.black m)
    (hlen : ctx.length + 1 < addrSpace) (hcl : l.rootColor = Color.black) (hblack : l.BlackChildren) :
    ∃ u', u'.elems = l.elems ∧
      Outcome (fixdelLoop addrSpace (s.put (Ctx.link (⟨Dir.right, c, a, l⟩ :: ctx)) none) x) ctx
        (node Color.black u' a nil) (c = Color.red ∨ Fixable ctx) ∧
      ∀ {ctx' : Ctx α}, Ctx.before ctx' = Ctx.before ctx →
        Ctx.after ctx' = Ctx.after ctx →
        x ∉ (Ctx.plug ctx' (node Color.black u' a nil)).elems := by
  obtain ⟨hat, hole, hnot, hfits⟩ := hole_right h hbal
  obtain ⟨u', helems, hout⟩ := recolor_outcome hat hole Balanced.nil hfits hcl hblack
    (fixdelLoop_outcome ctx a) addrSpace hlen
  refine ⟨u', helems, hout, fun {ctx'} hb ha => ?_⟩
  have helems' : (Ctx.plug ctx' (node Color.black u' a nil)).elems =
      (Ctx.plug (⟨Dir.right, c, a, l⟩ :: ctx) nil).elems := by
    rw [Ctx.elems_plug, hb, ha, Ctx.plug, Ctx.elems_plug]
    simp [branch, helems]
  rw [helems']
  exact hnot

/-- **A node whose successor is its right child, a black leaf**: the pointer to the node is the one
that was read before only if the loop does not rotate there. -/
theorem removeLoop_right {n m : ℕ} (h : At s ctx (node c l a (node Color.black nil x nil)))
    (hl : l ≠ nil)
    (hbal : Balanced (Ctx.plug ctx (node c l a (node Color.black nil x nil))) Color.black m)
    (hlen : ctx.length + 1 < addrSpace) :
    Removed (removeLoop (n + 2) s a) (Ctx.before ctx ++ (l.elems ++ [x]) ++ Ctx.after ctx) ↔
      l.rootColor = Color.black ∧ Fixable (⟨Dir.right, c, a, l⟩ :: ctx) := by
  by_cases hgood : l.rootColor = Color.black ∧ l.BlackChildren
  · obtain ⟨hcl, hblack⟩ := hgood
    rw [and_iff_right hcl, fixable_black hcl, and_iff_right hblack]
    obtain ⟨u', helems, hout, hnot⟩ := removeLoop_right_good h hbal hlen hcl hblack
    rw [removeLoop_right_eq h hl]
    rcases hout with ⟨hnone, hbad⟩ | ⟨s', ctx', hrun, hat', ⟨hlink, hb, ha⟩, hiff⟩
    · rw [hnone, Option.bind_none]
      exact iff_of_false (not_removed_none _) hbad
    · rw [hrun, Option.bind_some, ← hiff]
      exact replaceNode_removed_iff hat' (hnot hb ha) hlink (by rw [hb, ha, helems]; rfl)
  · refine iff_of_false (fun hr => removeLoop_right_bad h hl hbal hgood hr.kept) fun ⟨hcl, hfix⟩ => ?_
    exact hgood ⟨hcl, ((fixable_black hcl).1 hfix).1⟩

/-- **Exactly the removable nodes** are removed. -/
theorem removeLoop_iff {n m : ℕ} (h : At s ctx (node c l a r))
    (hbal : Balanced (Ctx.plug ctx (node c l a r)) Color.black m)
    (hlen : (Ctx.plug ctx (node c l a r)).elems.length ≤ addrSpace) :
    Removed (removeLoop (n + 2) s a) (Ctx.before ctx ++ (l.elems ++ r.elems) ++ Ctx.after ctx) ↔
      Removable ctx c l a r := by
  have hctx := length_le_elems ctx
  rw [(Ctx.elems_plug_perm _ _).length_eq, elems_node, List.length_append, List.length_append,
    List.length_cons] at hlen
  cases l with
  | nil =>
      cases r with
      | nil =>
          rw [removeLoop_leaf h, elems_nil, List.append_nil, List.append_nil]
          exact removeLeaf_iff h hbal (by omega)
      | node c' l' b r' =>
          have hat : At s ctx (branch Dir.right c (node c' l' b r') a nil) := h
          rw [removeLoop_single hat rfl]
          exact iff_of_true (removeSingle_removed hat hbal rfl) trivial
  | node cl ll bl rl =>
      cases r with
      | nil =>
          have hat : At s ctx (branch Dir.left c (node cl ll bl rl) a nil) := h
          rw [removeLoop_single hat rfl, elems_nil, List.append_nil]
          exact iff_of_true (removeSingle_removed hat hbal rfl) trivial
      | node c' l' b r' =>
          have hl : node cl ll bl rl ≠ nil := fun he => by cases he
          rw [Removable]
          generalize hll : node cl ll bl rl = l at *
          obtain ⟨path, cx, x, rx, hr, hleft, hfree, hsub⟩ :=
            exists_first (by simp : node c' l' b r' ≠ nil)
          rw [hfree, hsub]
          rw [hr] at h hbal hlen ⊢
          by_cases hf : cx = Color.red ∨ rx ≠ nil
          · exact iff_of_true (removeLoop_free h hl hleft hbal (by omega) hf) (Or.inl hf)
          · rw [or_iff_right hf]
            obtain ⟨hcx, hrx⟩ := not_or.1 hf
            obtain rfl : rx = nil := not_not.1 hrx
            obtain rfl : cx = Color.black := by
              cases cx with
              | red => exact absurd rfl hcx
              | black => rfl
            by_cases hpath : path = []
            · subst hpath
              rw [and_iff_right rfl]
              exact removeLoop_right h hl hbal (by
                have hpos : 0 < l.elems.length := by
                  rw [← hll, elems_node, List.length_append, List.length_cons]
                  omega
                have hone : (Ctx.plug [] (node Color.black nil x nil)).elems.length = 1 := rfl
                rw [hone] at hlen
                omega)
            · rw [removeLoop_left h hl hleft hpath (by omega)]
              exact iff_of_false (not_removed_none _) fun hg => hpath hg.1

end Cases

/-- The nodes of a tree without one of them, in order. -/
theorem elems_erase [DecidableEq α] {ctx : Ctx α} {c : Color} {l r : RbTree α} {a : α}
    (hnd : (Ctx.plug ctx (node c l a r)).elems.Nodup) :
    (Ctx.plug ctx (node c l a r)).elems.erase a =
      Ctx.before ctx ++ (l.elems ++ r.elems) ++ Ctx.after ctx := by
  have hsplit : (Ctx.plug ctx (node c l a r)).elems =
      (Ctx.before ctx ++ l.elems) ++ a :: (r.elems ++ Ctx.after ctx) := by
    rw [Ctx.elems_plug, elems_node]
    simp only [List.append_assoc, List.cons_append]
  have ha : a ∉ Ctx.before ctx ++ l.elems := fun hmem => by
    rw [hsplit] at hnd
    exact (List.nodup_append.1 hnd).2.2 a hmem a (by simp) rfl
  rw [hsplit, List.erase_append_right _ ha, List.erase_cons_head]
  simp only [List.append_assoc]

theorem rbRemove_eq_some [DecidableEq α] {s s' : Store α} {a : α} :
    rbRemove s a = some (a, s') ↔ removeLoop addrSpace s a = some s' := by
  rw [rbRemove, Option.map_eq_some_iff]
  constructor
  · rintro ⟨s₁, h, he⟩
    rw [h, (Prod.mk.inj he).2]
  · intro h
    exact ⟨s', h, rfl⟩

/-! ### Trees of nodes in the address space -/

/-- `rb_remove` follows no null pointer, returns the node, and leaves a red-black tree of the other
nodes in their order. -/
def RemovesNode (s : Store (Fin (2 ^ 64))) (t : RbTree (Fin (2 ^ 64))) (a : Fin (2 ^ 64)) : Prop :=
  ∃ s' t', rbRemove s a = some (a, s') ∧ At s' [] t' ∧ t'.elems = t.elems.erase a ∧
    ∃ k, Balanced t' Color.black k

/-- **Exactly the removable nodes** of a red-black tree are removed as they should. -/
theorem rbRemove_iff {s : Store (Fin (2 ^ 64))} {t : RbTree (Fin (2 ^ 64))} {m : ℕ}
    (hat : At s [] t) (hbal : Balanced t Color.black m) {ctx : Ctx (Fin (2 ^ 64))} {c : Color}
    {l r : RbTree (Fin (2 ^ 64))} {a : Fin (2 ^ 64)} (ht : Ctx.plug ctx (node c l a r) = t) :
    RemovesNode s t a ↔ Removable ctx c l a r := by
  subst ht
  have hlen : (Ctx.plug ctx (node c l a r)).elems.length ≤ addrSpace := by
    have hcard := List.Nodup.length_le_card hat.nodup
    rwa [Fintype.card_fin] at hcard
  have herase := elems_erase (hat.nodup : (Ctx.plug ctx (node c l a r)).elems.Nodup)
  rw [← removeLoop_iff (at_plug.2 hat) hbal hlen (n := addrSpace - 2), RemovesNode, herase, Removed,
    show addrSpace - 2 + 2 = addrSpace from rfl]
  simp only [rbRemove_eq_some]

/-- A root with two black children, in memory. -/
def threeNodes : Store (Fin (2 ^ 64)) where
  root := some 1
  child d a := if a = 1 then some (if d = Dir.left then 0 else 2) else none
  parent a := if a = 1 then none else some 1
  color _ := Color.black

/-- The right child is removed from a root with two black children. -/
theorem rbRemove_iff_three : RemovesNode threeNodes
    (node Color.black (node Color.black nil 0 nil) 1 (node Color.black nil 2 nil)) 2 := by
  have hat : At threeNodes []
      (node Color.black (node Color.black nil 0 nil) 1 (node Color.black nil 2 nil)) :=
    ⟨rfl, ⟨rfl, rfl, rfl, rfl, ⟨rfl, rfl, rfl, rfl, trivial, trivial⟩,
      ⟨rfl, rfl, rfl, rfl, trivial, trivial⟩⟩, by decide⟩
  have hright : Ctx.plug [⟨Dir.right, Color.black, (1 : Fin (2 ^ 64)), node Color.black nil 0 nil⟩]
      (node Color.black nil 2 nil) =
      node Color.black (node Color.black nil 0 nil) 1 (node Color.black nil 2 nil) := rfl
  exact (rbRemove_iff hat (Balanced.black (Balanced.black Balanced.nil Balanced.nil)
    (Balanced.black Balanced.nil Balanced.nil)) hright).2
    (Or.inr ⟨⟨_, _, rfl, rfl⟩, ⟨rfl, rfl⟩, Or.inr trivial⟩)

/-- **The only node of a tree** is not removed: the code follows a null pointer. -/
theorem rbRemove_only : ¬ ∀ (s : Store (Fin (2 ^ 64))) (t : RbTree (Fin (2 ^ 64))) (m : ℕ),
    At s [] t → Balanced t Color.black m → ∀ a ∈ t.elems, RemovesNode s t a := by
  intro h
  obtain ⟨s', t', hrun, -⟩ := h ⟨some 0, fun _ _ => none, fun _ => none, fun _ => Color.black⟩
    (node Color.black nil 0 nil) 1 ⟨rfl, ⟨rfl, rfl, rfl, rfl, trivial, trivial⟩, by decide⟩
    (Balanced.black Balanced.nil Balanced.nil) 0 (by decide)
  have hnone : (rbRemove (⟨some 0, fun _ _ => none, fun _ => none, fun _ => Color.black⟩ :
      Store (Fin (2 ^ 64))) 0).isNone = true := by decide +kernel
  rw [hrun] at hnone
  cases hnone

end Rbtree

end SyncKernel
