/-
**Trees in memory.**

Nodes with pointers to both children and to the parent, and a color, and the pointer to the root.  A
tree is at a context when the pointers of its nodes and those of the context are as the two say; then
moving up and down the path does not change the memory, and writing to one part leaves the other as
it is.

Main definitions:

* `Store` — the pointers and the colors of all nodes;
* `Store.Repr`, `Store.CtxRepr` — a subtree and a context in memory;
* `Store.At` — **a tree at a context**.

Main results:

* `Store.at_up`, `Store.at_plug` — moving along the path;
* `Store.Repr.congr`, `Store.CtxRepr.relink` — the frame rules.
-/

import SyncKernel.Lib.RbTree

set_option relaxedAutoImplicit false
set_option autoImplicit false

namespace SyncKernel

open RbTree

/-- The nodes of a tree in memory, and the pointer to its root. -/
structure Store (α : Type*) where
  root : Option α
  child : Dir → α → Option α
  parent : α → Option α
  color : α → Color

namespace Store

variable {α : Type*}

/-! ### Writes -/

/-- Writing the pointer to the root. -/
def setRoot (s : Store α) (p : Option α) : Store α := { s with root := p }

@[simp] theorem setRoot_root (s : Store α) (p : Option α) : (s.setRoot p).root = p := rfl
@[simp] theorem setRoot_child (s : Store α) (p : Option α) : (s.setRoot p).child = s.child := rfl
@[simp] theorem setRoot_parent (s : Store α) (p : Option α) : (s.setRoot p).parent = s.parent := rfl
@[simp] theorem setRoot_color (s : Store α) (p : Option α) : (s.setRoot p).color = s.color := rfl

section Writes

variable [DecidableEq α]

/-- Writing a pointer to a child. -/
def setChild (s : Store α) (d : Dir) (a : α) (p : Option α) : Store α :=
  { s with child := fun e b => if e = d ∧ b = a then p else s.child e b }

/-- Writing a pointer to a parent. -/
def setParent (s : Store α) (a : α) (p : Option α) : Store α :=
  { s with parent := fun b => if b = a then p else s.parent b }

/-- Writing a color. -/
def setColor (s : Store α) (a : α) (c : Color) : Store α :=
  { s with color := fun b => if b = a then c else s.color b }

variable (s : Store α) (d e : Dir) (a b : α) (p : Option α) (c : Color)

@[simp] theorem setChild_root : (s.setChild d a p).root = s.root := rfl
@[simp] theorem setChild_child :
    (s.setChild d a p).child e b = if e = d ∧ b = a then p else s.child e b := rfl
@[simp] theorem setChild_parent : (s.setChild d a p).parent = s.parent := rfl
@[simp] theorem setChild_color : (s.setChild d a p).color = s.color := rfl
@[simp] theorem setParent_root : (s.setParent a p).root = s.root := rfl
@[simp] theorem setParent_child : (s.setParent a p).child = s.child := rfl
@[simp] theorem setParent_parent :
    (s.setParent a p).parent b = if b = a then p else s.parent b := rfl
@[simp] theorem setParent_color : (s.setParent a p).color = s.color := rfl
@[simp] theorem setColor_root : (s.setColor a c).root = s.root := rfl
@[simp] theorem setColor_child : (s.setColor a c).child = s.child := rfl
@[simp] theorem setColor_parent : (s.setColor a c).parent = s.parent := rfl
@[simp] theorem setColor_color :
    (s.setColor a c).color b = if b = a then c else s.color b := rfl

end Writes

/-- What a pointer to a subtree holds: `none` is the pointer to the root. -/
def get (s : Store α) : Option (Dir × α) → Option α
  | none => s.root
  | some (d, a) => s.child d a

/-- Writing through a pointer to a subtree. -/
def put [DecidableEq α] (s : Store α) (l : Option (Dir × α)) (p : Option α) : Store α :=
  match l with
  | none => s.setRoot p
  | some (d, a) => s.setChild d a p

section Put

variable [DecidableEq α] (s : Store α) (l : Option (Dir × α)) (p : Option α)

@[simp] theorem put_parent : (s.put l p).parent = s.parent := by
  rcases l with - | ⟨d, a⟩ <;> rfl

@[simp] theorem put_color : (s.put l p).color = s.color := by
  rcases l with - | ⟨d, a⟩ <;> rfl

theorem put_child (e : Dir) (b : α) :
    (s.put l p).child e b = if l = some (e, b) then p else s.child e b := by
  rcases l with - | ⟨d, a⟩ <;> simp [put, eq_comm]

theorem put_root (h : l ≠ none) : (s.put l p).root = s.root := by
  rcases l with - | ⟨d, a⟩
  · exact absurd rfl h
  · rfl

@[simp] theorem get_put : (s.put l p).get l = p := by
  rcases l with - | ⟨d, a⟩ <;> simp [put, get]

end Put

/-! ### A tree in memory -/

/-- The nodes of the tree are in memory, below the given parent. -/
def Repr (s : Store α) : Option α → RbTree α → Prop
  | _, nil => True
  | q, node c l a r => s.parent a = q ∧ s.color a = c ∧ s.child Dir.left a = l.top ∧
      s.child Dir.right a = r.top ∧ Repr s (some a) l ∧ Repr s (some a) r

/-- The nodes of the context are in memory, around a subtree with the given root. -/
def CtxRepr (s : Store α) : Ctx α → Option α → Prop
  | [], p => s.root = p
  | f :: ctx, p => s.child f.dir f.elem = p ∧ s.child f.dir.flip f.elem = f.sib.top ∧
      s.color f.elem = f.color ∧ s.parent f.elem = Ctx.par ctx ∧ Repr s (some f.elem) f.sib ∧
      CtxRepr s ctx (some f.elem)

/-- **A tree at a context**: both are in memory, and no node occurs twice. -/
structure At (s : Store α) (ctx : Ctx α) (t : RbTree α) : Prop where
  path : CtxRepr s ctx t.top
  tree : Repr s (Ctx.par ctx) t
  nodup : (Ctx.plug ctx t).elems.Nodup

instance decidableRepr [DecidableEq α] (s : Store α) : ∀ (q : Option α) (t : RbTree α), Decidable (Repr s q t)
  | _, nil => isTrue trivial
  | q, node c l a r =>
      have := decidableRepr s (some a) l
      have := decidableRepr s (some a) r
      inferInstanceAs (Decidable (s.parent a = q ∧ s.color a = c ∧ s.child Dir.left a = l.top ∧
        s.child Dir.right a = r.top ∧ Repr s (some a) l ∧ Repr s (some a) r))

/-- A whole tree can be looked up. -/
instance [DecidableEq α] (s : Store α) (t : RbTree α) : Decidable (At s [] t) :=
  decidable_of_iff (s.root = t.top ∧ Repr s none t ∧ t.elems.Nodup) ⟨fun h => ⟨h.1, h.2.1, h.2.2⟩,
    fun h => ⟨h.path, h.tree, h.nodup⟩⟩

variable {s s' : Store α}

theorem repr_branch {q : Option α} {d : Dir} {c : Color} {t u : RbTree α} {a : α} :
    Repr s q (branch d c t a u) ↔ s.parent a = q ∧ s.color a = c ∧ s.child d a = t.top ∧
      s.child d.flip a = u.top ∧ Repr s (some a) t ∧ Repr s (some a) u := by
  cases d with
  | left => exact Iff.rfl
  | right =>
      simp only [branch, Repr, Dir.flip]
      tauto

/-- **Moving up** the path by one node. -/
theorem at_up {f : Frame α} {ctx : Ctx α} {t : RbTree α} :
    At s (f :: ctx) t ↔ At s ctx (branch f.dir f.color t f.elem f.sib) := by
  constructor
  · rintro ⟨⟨h₁, h₂, h₃, h₄, h₅, h₆⟩, ht, hnd⟩
    exact ⟨by rwa [top_branch], repr_branch.2 ⟨h₄, h₃, h₁, h₂, ht, h₅⟩, hnd⟩
  · rintro ⟨hctx, htree, hnd⟩
    obtain ⟨h₄, h₃, h₁, h₂, ht, h₅⟩ := repr_branch.1 htree
    rw [top_branch] at hctx
    exact ⟨⟨h₁, h₂, h₃, h₄, h₅, hctx⟩, ht, hnd⟩

/-- Moving along the whole path. -/
theorem at_plug {ctx : Ctx α} {t : RbTree α} : At s ctx t ↔ At s [] (Ctx.plug ctx t) := by
  induction ctx generalizing t with
  | nil => exact Iff.rfl
  | cons f ctx ih => rw [at_up, ih]; rfl

/-! ### Frame rules -/

/-- The nodes of a list have the same fields in both memories. -/
def Same (s s' : Store α) (l : List α) : Prop :=
  ∀ a ∈ l, (∀ d, s'.child d a = s.child d a) ∧ s'.parent a = s.parent a ∧ s'.color a = s.color a

theorem Same.sub {l l' : List α} (h : Same s s' l) (hsub : ∀ a ∈ l', a ∈ l) : Same s s' l' :=
  fun a ha => h a (hsub a ha)

/-- A tree depends on the fields of its nodes. -/
theorem Repr.congr {q : Option α} {t : RbTree α} (h : Repr s q t) (hs : Same s s' t.elems) :
    Repr s' q t := by
  induction t generalizing q with
  | nil => trivial
  | node c l a r ihl ihr =>
      obtain ⟨h₁, h₂, h₃, h₄, hl, hr⟩ := h
      obtain ⟨hc, hp, hcol⟩ := hs a (by simp)
      exact ⟨hp.trans h₁, hcol.trans h₂, (hc _).trans h₃, (hc _).trans h₄,
        ihl hl (hs.sub fun b hb => by simp [hb]), ihr hr (hs.sub fun b hb => by simp [hb])⟩

/-- Hanging a tree below another node. -/
theorem Repr.reparent {q q' : Option α} {t : RbTree α} (h : Repr s q t) (hnd : t.elems.Nodup)
    (hchild : ∀ a ∈ t.elems, ∀ d, s'.child d a = s.child d a)
    (hcolor : ∀ a ∈ t.elems, s'.color a = s.color a)
    (hparent : ∀ a ∈ t.elems, some a ≠ t.top → s'.parent a = s.parent a)
    (htop : ∀ a, t.top = some a → s'.parent a = q') : Repr s' q' t := by
  cases t with
  | nil => trivial
  | node c l a r =>
      obtain ⟨-, h₂, h₃, h₄, hl, hr⟩ := h
      rw [elems_node, List.nodup_append, List.nodup_cons] at hnd
      obtain ⟨-, ⟨har, -⟩, hdisj⟩ := hnd
      refine ⟨htop a rfl, (hcolor a (by simp)).trans h₂, (hchild a (by simp) _).trans h₃,
        (hchild a (by simp) _).trans h₄, hl.congr fun b hb => ?_, hr.congr fun b hb => ?_⟩
      · refine ⟨hchild b (by simp [hb]), hparent b (by simp [hb]) fun he => ?_,
          hcolor b (by simp [hb])⟩
        exact hdisj b hb a (by simp) (Option.some_inj.1 he)
      · refine ⟨hchild b (by simp [hb]), hparent b (by simp [hb]) fun he => ?_,
          hcolor b (by simp [hb])⟩
        exact har (Option.some_inj.1 he ▸ hb)

/-- The fields of the context are the same in both memories, up to the pointer to the subtree. -/
theorem CtxRepr.relink {ctx : Ctx α} {p p' : Option α} (h : CtxRepr s ctx p)
    (hnd : (Ctx.elems ctx).Nodup)
    (hsame : ∀ a ∈ Ctx.elems ctx, s'.parent a = s.parent a ∧ s'.color a = s.color a ∧
      ∀ d, Ctx.link ctx ≠ some (d, a) → s'.child d a = s.child d a)
    (hroot : ctx ≠ [] → s'.root = s.root) (hlink : s'.get (Ctx.link ctx) = p') :
    CtxRepr s' ctx p' := by
  induction ctx generalizing p p' with
  | nil => exact hlink
  | cons f ctx ih =>
      obtain ⟨h₁, h₂, h₃, h₄, h₅, h₆⟩ := h
      have hperm := Ctx.elems_cons_perm f ctx
      have hnd' := hperm.nodup_iff.1 hnd
      rw [List.nodup_cons, List.nodup_append, List.mem_append, not_or] at hnd'
      obtain ⟨⟨hsib, hctx⟩, -, hndc, -⟩ := hnd'
      obtain ⟨hp, hc, hch⟩ := hsame f.elem (hperm.mem_iff.2 (by simp))
      have hother : ∀ a, a ∈ f.sib.elems ∨ a ∈ Ctx.elems ctx → s'.parent a = s.parent a ∧
          s'.color a = s.color a ∧ ∀ d, s'.child d a = s.child d a := by
        intro a ha
        have hmem : a ∈ Ctx.elems (f :: ctx) := hperm.mem_iff.2 (by simp [ha])
        have hne : f.elem ≠ a := by
          rintro rfl
          exact ha.elim hsib hctx
        obtain ⟨hp, hc, hch⟩ := hsame a hmem
        exact ⟨hp, hc, fun d => hch d fun he => hne (Prod.mk.inj (Option.some_inj.1 he)).2⟩
      refine ⟨hlink, ?_, hc.trans h₃, hp.trans h₄, h₅.congr fun a ha => ?_, ?_⟩
      · exact (hch f.dir.flip fun he =>
          f.dir.flip_ne (Prod.mk.inj (Option.some_inj.1 he)).1.symm).trans h₂
      · obtain ⟨hp, hc, hch⟩ := hother a (Or.inl ha)
        exact ⟨hch, hp, hc⟩
      · refine ih h₆ hndc (fun a ha => ?_) (fun _ => hroot (by simp)) ?_
        · obtain ⟨hp, hc, hch⟩ := hother a (Or.inr ha)
          exact ⟨hp, hc, fun d _ => hch d⟩
        · cases ctx with
          | nil => exact (hroot (by simp)).trans h₆
          | cons f' ctx' =>
              have hmem' : f'.elem ∈ Ctx.elems (f' :: ctx') :=
                (Ctx.elems_cons_perm f' ctx').mem_iff.2 (by simp)
              exact ((hother f'.elem (Or.inr hmem')).2.2 f'.dir).trans h₆.1

/-! ### Reading a path -/

theorem Repr.parent_top {q : Option α} {t : RbTree α} {a : α} (h : Repr s q t) (ht : t.top = some a) :
    s.parent a = q := by
  cases t with
  | nil => cases ht
  | node c l b r =>
      obtain rfl := Option.some_inj.1 ht
      exact h.1

/-- The node at the root of a balanced tree is red exactly when the tree has a red root. -/
theorem Repr.any_red_top {q : Option α} {t : RbTree α} {c : Color} {n : ℕ} (h : Repr s q t)
    (hb : Balanced t c n) : (t.top.any fun a => s.color a = Color.red) = decide (c = Color.red) := by
  cases hb with
  | nil => rfl
  | red hl hr => simp [h.2.1]
  | black hl hr => simp [h.2.1]

/-- The root is a node of the path. -/
theorem CtxRepr.root_mem {f : Frame α} {ctx : Ctx α} :
    ∀ {p : Option α}, CtxRepr s (f :: ctx) p → ∃ a ∈ Ctx.elems (f :: ctx), s.root = some a := by
  induction ctx generalizing f with
  | nil =>
      intro p h
      exact ⟨f.elem, (Ctx.elems_cons_perm f []).mem_iff.2 (by simp), h.2.2.2.2.2⟩
  | cons f' ctx ih =>
      intro p h
      obtain ⟨a, ha, hroot⟩ := ih h.2.2.2.2.2
      exact ⟨a, (Ctx.elems_cons_perm f (f' :: ctx)).mem_iff.2 (by simp [ha]), hroot⟩

/-- The nodes of a tree at a context are not nodes of the context. -/
theorem At.notMem {ctx : Ctx α} {t : RbTree α} (h : At s ctx t) {a : α} (ha : a ∈ t.elems) :
    a ∉ Ctx.elems ctx := by
  have hnd := (Ctx.elems_plug_perm ctx t).nodup_iff.1 h.nodup
  exact fun hc => (List.nodup_append.1 hnd).2.2 a ha a hc rfl

theorem At.root_ne {f : Frame α} {ctx : Ctx α} {t : RbTree α} {a : α} (h : At s (f :: ctx) t)
    (ht : t.top = some a) : s.root ≠ some a := by
  obtain ⟨b, hb, hroot⟩ := h.path.root_mem
  intro he
  obtain rfl := Option.some_inj.1 (hroot.symm.trans he)
  exact h.notMem (mem_of_top ht) hb

/-- The node above a tree, as the code reads it. -/
theorem At.above {f : Frame α} {ctx : Ctx α} {t : RbTree α} {a : α} (h : At s (f :: ctx) t)
    (ht : t.top = some a) : s.parent a = some f.elem ∧ s.color f.elem = f.color ∧
      s.parent f.elem = Ctx.par ctx ∧ s.child f.dir f.elem = some a ∧
      s.child f.dir.flip f.elem = f.sib.top ∧ f.sib.top ≠ some a := by
  obtain ⟨h₁, h₂, h₃, h₄, -, -⟩ := h.path
  refine ⟨h.tree.parent_top ht, h₃, h₄, h₁.trans ht, h₂, fun he => ?_⟩
  exact h.notMem (mem_of_top ht) ((Ctx.elems_cons_perm f ctx).mem_iff.2 (by simp [mem_of_top he]))

/-- **The tree in memory** is determined by its root. -/
theorem Repr.unique {t t' : RbTree α} :
    ∀ {q q' : Option α}, Repr s q t → Repr s q' t' → t.top = t'.top → t = t' := by
  induction t generalizing t' with
  | nil =>
      intro q q' _ _ htop
      exact (top_eq_none.1 htop.symm).symm
  | node c l a r ihl ihr =>
      intro q q' h h' htop
      cases t' with
      | nil => cases htop
      | node c' l' a' r' =>
          obtain rfl : a = a' := Option.some_inj.1 htop
          obtain ⟨-, hc, hl, hr, hrl, hrr⟩ := h
          obtain ⟨-, hc', hl', hr', hrl', hrr'⟩ := h'
          rw [hc.symm.trans hc', ihl hrl hrl' (hl.symm.trans hl'), ihr hrr hrr' (hr.symm.trans hr')]

theorem At.unique {t t' : RbTree α} (h : At s [] t) (h' : At s [] t') : t = t' :=
  h.tree.unique h'.tree (Eq.trans (Eq.symm h.path) h'.path)

/-- **Moving to the other child** of the node above. -/
theorem at_swap {d : Dir} {c : Color} {a : α} {u : RbTree α} {ctx : Ctx α} {t : RbTree α} :
    At s (⟨d, c, a, u⟩ :: ctx) t ↔ At s (⟨d.flip, c, a, t⟩ :: ctx) u := by
  rw [at_up, at_up]
  dsimp only
  rw [branch_flip]

/-- **The root is black**, where the color of the subtree fits the context. -/
theorem At.root_black {ctx : Ctx α} :
    ∀ {t : RbTree α} {c : Color} {n : ℕ} {d : Dir} {u v : RbTree α} {a : α},
      At s ctx t → t = branch d c u a v → Ctx.Fits ctx c n →
      ∃ r, s.root = some r ∧ s.color r = Color.black := by
  induction ctx with
  | nil =>
      rintro t c n d u v a hat rfl hfits
      cases hfits with
      | root => exact ⟨a, hat.path.trans (top_branch ..), (repr_branch.1 hat.tree).2.1⟩
  | cons f ctx ih =>
      intro t c n d u v a hat _ hfits
      cases hfits with
      | red hs hfits => exact ih (at_up.1 hat) rfl hfits
      | black hs hfits => exact ih (at_up.1 hat) rfl hfits

/-! ### Recoloring -/

theorem CtxRepr.get_link {ctx : Ctx α} {p : Option α} (h : CtxRepr s ctx p) :
    s.get (Ctx.link ctx) = p := by
  cases ctx with
  | nil => exact h
  | cons f ctx => exact h.1

/-- The nodes of a branch at a context are different. -/
theorem branch_nodup {ctx : Ctx α} {d : Dir} {c : Color} {t u : RbTree α} {a : α}
    (h : (Ctx.plug ctx (branch d c t a u)).elems.Nodup) :
    (a :: (t.elems ++ (u.elems ++ Ctx.elems ctx))).Nodup := by
  have hperm := (Ctx.elems_plug_perm ctx (branch d c t a u)).trans
    ((elems_branch_perm d c t a u).append_right (Ctx.elems ctx))
  rw [List.cons_append, List.append_assoc] at hperm
  exact hperm.nodup_iff.1 h

/-- Writing the color that a node has. -/
theorem setColor_self [DecidableEq α] {a : α} {c : Color} (h : s.color a = c) :
    s.setColor a c = s := by
  unfold Store.setColor
  congr 1
  funext b
  by_cases hb : b = a
  · rw [if_pos hb, hb, h]
  · rw [if_neg hb]

/-- **Recoloring** the node at a context. -/
theorem At.setColor [DecidableEq α] {ctx : Ctx α} {d : Dir} {c : Color} {t u : RbTree α} {a : α}
    (h : At s ctx (branch d c t a u)) (c' : Color) :
    At (s.setColor a c') ctx (branch d c' t a u) := by
  obtain ⟨hpath, htree, hnd⟩ := h
  obtain ⟨h₁, -, h₃, h₄, ht, hu⟩ := repr_branch.1 htree
  have hnd' := branch_nodup hnd
  simp only [List.nodup_cons, List.nodup_append, List.mem_append, not_or] at hnd'
  obtain ⟨⟨hat, hau, hac⟩, -, ⟨-, hndc, -⟩, -⟩ := hnd'
  have hsame : ∀ l : List α, a ∉ l → Same s (s.setColor a c') l := by
    intro l hal b hb
    have hba : b ≠ a := fun he => hal (he ▸ hb)
    refine ⟨fun _ => rfl, rfl, ?_⟩
    rw [setColor_color, if_neg hba]
  rw [top_branch] at hpath
  refine ⟨?_, repr_branch.2 ⟨h₁, ?_, h₃, h₄, ht.congr (hsame _ hat), hu.congr (hsame _ hau)⟩, ?_⟩
  · rw [top_branch]
    refine hpath.relink hndc (fun b hb => ?_) (fun _ => rfl) ?_
    · obtain ⟨hchild, hparent, hcolor⟩ := hsame _ hac b hb
      exact ⟨hparent, hcolor, fun e _ => hchild e⟩
    · have hget := hpath.get_link
      cases hl : Ctx.link ctx with
      | none => rw [hl] at hget; exact hget
      | some l => rw [hl] at hget; exact hget
  · rw [setColor_color, if_pos rfl]
  · rw [Ctx.elems_plug_congr (elems_branch_color d c' c t a u)]
    exact hnd

/-- Recoloring the node above. -/
theorem At.setColor_frame [DecidableEq α] {ctx : Ctx α} {d : Dir} {c : Color} {t u : RbTree α} {a : α}
    (h : At s (⟨d, c, a, u⟩ :: ctx) t) (c' : Color) :
    At (s.setColor a c') (⟨d, c', a, u⟩ :: ctx) t := at_up.2 ((at_up.1 h).setColor c')

/-- Recoloring the node on the other side. -/
theorem At.setColor_sib [DecidableEq α] {ctx : Ctx α} {d e : Dir} {c c' : Color} {t u v : RbTree α}
    {a b : α} (h : At s (⟨d, c, a, branch e c' u b v⟩ :: ctx) t) (c'' : Color) :
    At (s.setColor b c'') (⟨d, c, a, branch e c'' u b v⟩ :: ctx) t :=
  at_swap.2 ((at_swap.1 h).setColor c'')

/-! ### The mirror image -/

/-- The memory with the sides of each node exchanged. -/
def mirror (s : Store α) : Store α := { s with child := fun d a => s.child d.flip a }

@[simp] theorem child_mirror (s : Store α) (d : Dir) (a : α) : s.mirror.child d a = s.child d.flip a :=
  rfl

@[simp] theorem parent_mirror (s : Store α) (a : α) : s.mirror.parent a = s.parent a :=
  rfl

/-- **The mirror image** of a tree is in the mirror image of the memory. -/
theorem Repr.mirror {t : RbTree α} : ∀ {q : Option α}, Repr s q t → Repr s.mirror q t.mirror := by
  induction t with
  | nil => exact fun _ => trivial
  | node c l a r ihl ihr =>
      rintro q ⟨hpar, hcolor, hl, hr, hreprl, hreprr⟩
      exact ⟨hpar, hcolor, hr.trans (top_mirror r).symm, hl.trans (top_mirror l).symm, ihr hreprr, ihl hreprl⟩

theorem At.mirror {t : RbTree α} (h : At s [] t) : At s.mirror [] t.mirror := by
  refine ⟨?_, h.tree.mirror, ?_⟩
  · have hroot : s.root = t.top := h.path
    change s.root = t.mirror.top
    rw [hroot, top_mirror]
  · change t.mirror.elems.Nodup
    rw [elems_mirror]
    exact List.nodup_reverse.2 h.nodup

end Store

end SyncKernel
