/-
**What `rb_fixdel` does to a tree.**

The loop of `rb_fixdel` runs at a place of the tree that is one black node short.  Its turn at a black
sibling with black children is right: the sibling becomes red.  At a red sibling it makes the inner
nephew red without looking at the children of that one.  At a sibling with a red child the pointers
`sibling_inner` and `sibling_outer` are the ones of the other side, and the rotations leave the place
short, or another one.

Main definitions:

* `Rbtree.Fixable` — the path on which no turn goes wrong;
* `Rbtree.Hole` — the fields that a turn reads at the node `x`;
* `Rbtree.Outcome` — a run of the loop that keeps the nodes in order and the subtree in its place.

Main results:

* `Rbtree.turn_recolor`, `Rbtree.turn_red`, `Rbtree.turn_bad` — **the turns**, by the sibling;
* `Rbtree.fixdelLoop_outcome` — **the loop balances the tree exactly on a fixable path**.
-/

import SyncKernel.Rbtree.Insert

set_option relaxedAutoImplicit false
set_option autoImplicit false

namespace SyncKernel

namespace Rbtree

open RbTree Store

variable {α : Type*}

/-- The loop makes the tree balanced, from a place below the given path: at the first red sibling the
inner nephew has no red child, and every black sibling below has no red child; a red parent above a
black sibling ends the loop. -/
def Fixable : Ctx α → Prop
  | [] => True
  | f :: ctx =>
      match f.sib.rootColor with
      | Color.red => (f.sib.sub f.dir).BlackChildren
      | Color.black => f.sib.BlackChildren ∧ (f.color = Color.red ∨ Fixable ctx)

theorem fixable_red {f : Frame α} {ctx : Ctx α} (h : f.sib.rootColor = Color.red) :
    Fixable (f :: ctx) ↔ (f.sib.sub f.dir).BlackChildren := by
  rw [Fixable, h]

theorem fixable_black {f : Frame α} {ctx : Ctx α} (h : f.sib.rootColor = Color.black) :
    Fixable (f :: ctx) ↔ f.sib.BlackChildren ∧ (f.color = Color.red ∨ Fixable ctx) := by
  rw [Fixable, h]

/-! ### The turns of the loop -/

section Turns

variable {s s₁ s₂ : Store α} {n : ℕ} {d : Dir} {x p b a r : α}

theorem rbChkBlack_top [DecidableEq α] {q : Option α} {t : RbTree α} (h : Repr s q t) :
    rbChkBlack s t.top = decide (t.rootColor = Color.black) := by
  cases t with
  | nil => rfl
  | node c l a r =>
      obtain rfl := h.2.1
      rfl

variable [DecidableEq α]

/-- What a turn reads at `x`: it is a black node below `p`, on the side `d` as far as the code sees. -/
structure Hole (s : Store α) (d : Dir) (x p : α) : Prop where
  root : s.root ≠ some x
  black : s.color x = Color.black
  parent : s.parent x = some p
  side : (if s.child Dir.left p = some x then Dir.left else Dir.right) = d

theorem fixdelLoop_done (h : s.root = some x ∨ s.color x = Color.red) :
    fixdelLoop (n + 1) s x = some (s.setColor x Color.black) := by
  rw [fixdelLoop, if_pos h]

namespace Hole

variable (h : Hole s d x p)
include h

theorem not_done : ¬ (s.root = some x ∨ s.color x = Color.red) := by
  rw [h.black]
  simp [h.root]

theorem none (hb : s.child d.flip p = none) : fixdelLoop (n + 1) s x = none := by
  rw [fixdelLoop, if_neg h.not_done]
  simp [h.parent, h.side, hb]

/-- The turn at a black sibling with black children. -/
theorem recolor (hb : s.child d.flip p = some b) (hcb : s.color b = Color.black)
    (hi : rbChkBlack s (s.child d.flip b) = true) (ho : rbChkBlack s (s.child d b) = true) :
    fixdelLoop (n + 1) s x = fixdelLoop n (s.setColor b Color.red) p := by
  rw [fixdelLoop, if_neg h.not_done]
  simp [h.parent, h.side, hb, hcb, hi, ho]

/-- The turn at a red sibling. -/
theorem red (hb : s.child d.flip p = some b) (hcb : s.color b = Color.red)
    (hrot : rotate d ((s.setColor b Color.black).setColor p Color.red) p = some s₁)
    (hp : s₁.parent x = some p) (ha : s₁.child d.flip p = some a) (hca : s₁.color a = Color.black)
    (ho : rbChkBlack s₁ (s₁.child d p) = true) :
    fixdelLoop (n + 1) s x = fixdelLoop n (s₁.setColor a Color.red) p := by
  have hi : rbChkBlack s₁ (some a) = true := by simp [rbChkBlack, hca]
  rw [fixdelLoop, if_neg h.not_done]
  simp [h.parent, h.side, hb, hcb, fixdelRed, hrot, hp, ha, hi, ho]

/-- The turn at a black sibling with a red inner child, which the code calls the outer one. -/
theorem outer (hb : s.child d.flip p = some b) (hcb : s.color b = Color.black)
    (ho : rbChkBlack s (s.child d b) = false) (hrun : fixdelOuter d s x b (s.child d b) = some s₁)
    (hroot : s₁.root = some r) : fixdelLoop (n + 1) s x = fixdelLoop n s₁ r := by
  rw [fixdelLoop, if_neg h.not_done]
  simp [h.parent, h.side, hb, hcb, ho, hrun, hroot]

/-- The turn at a black sibling of which only the outer child is red. -/
theorem inner (hb : s.child d.flip p = some b) (hcb : s.color b = Color.black)
    (hi : rbChkBlack s (s.child d.flip b) = false) (ho : rbChkBlack s (s.child d b) = true)
    (hrot : rotate d.flip s b = some s₁) (hp : s₁.parent x = some p)
    (ha : s₁.child d.flip p = some a) (hrun : fixdelOuter d s₁ x a (s₁.child d a) = some s₂)
    (hroot : s₂.root = some r) : fixdelLoop (n + 1) s x = fixdelLoop n s₂ r := by
  rw [fixdelLoop, if_neg h.not_done]
  simp [h.parent, h.side, hb, hcb, hi, ho, fixdelInner, hrot, hp, ha, hrun, hroot]

/-- The turn at a black sibling without an inner child, of which the outer child is red. -/
theorem stuck (hb : s.child d.flip p = some b) (hcb : s.color b = Color.black)
    (hi : rbChkBlack s (s.child d.flip b) = false) (ho : s.child d b = .none) :
    fixdelLoop (n + 1) s x = .none := by
  have hrot : rotate d.flip s b = .none := by
    rw [rotate, Dir.flip_flip, ho]
    rfl
  have ho' : rbChkBlack s .none = true := rfl
  rw [fixdelLoop, if_neg h.not_done]
  simp [h.parent, h.side, hb, hcb, hi, ho, ho', fixdelInner, hrot]

end Hole

end Turns

/-! ### The tree after a turn -/

section Trees

variable {s : Store α} {ctx : Ctx α} {d : Dir} {c : Color} {t u : RbTree α} {x p : α} {k : ℕ}

/-- The node `x` keeps its parent when it is no node of the tree, or the root of the subtree. -/
theorem parent_eq {s₁ : Store α} {f : Frame α} (hat : At s₁ (f :: ctx) t)
    (hx : t.top = some x ∨ s₁.parent x = some f.elem) : s₁.parent x = some f.elem := by
  rcases hx with hx | hx
  · exact (hat.above hx).1
  · exact hx

variable [DecidableEq α]

/-- Blackening the root of a subtree. -/
theorem at_blacken (h : At s ctx t) : At (blacken s t.top) ctx t.blacken := by
  cases t with
  | nil => exact h
  | node c l a r => exact At.setColor (d := Dir.left) h Color.black

/-- **The last part of a turn**: a rotation with the sibling in the place of the parent. -/
theorem fixdelOuter_spec {c' : Color} {o i : RbTree α} {b : α}
    (hat : At s (⟨d, c, p, branch d c' o b i⟩ :: ctx) t) (hp : s.parent x = some p) :
    ∃ s', fixdelOuter d s x b o.top = some s' ∧
      At s' ctx (branch d c (branch d Color.black t p o.blacken) b i) := by
  have hcp : s.color p = c := hat.path.2.2.1
  have h₂ := (hat.setColor_sib c).setColor_frame Color.black
  have h₃ : At ((s.setColor b c).setColor p Color.black)
      (⟨d, c, b, i⟩ :: ⟨d.flip, Color.black, p, t⟩ :: ctx) o := at_up.2 (at_swap.1 h₂)
  have h₄ := at_up.1 (at_swap.2 (at_up.1 (at_blacken h₃)))
  obtain ⟨s', hrot, h₅, -⟩ := rotate_spec h₄
  refine ⟨s', ?_, h₅⟩
  rw [fixdelOuter, hp, Option.bind_eq_bind, Option.bind_some, hcp]
  exact hrot

/-- **The turn at a black sibling with black children**. -/
theorem turn_recolor (hat : At s (⟨d, c, p, u⟩ :: ctx) t) (h : Hole s d x p)
    (hu : Balanced u Color.black (k + 1)) (hblack : u.BlackChildren) :
    ∃ s' u', (∀ n, fixdelLoop (n + 1) s x = fixdelLoop n s' p) ∧
      At s' (⟨d, c, p, u'⟩ :: ctx) t ∧ u'.elems = u.elems ∧ Balanced u' Color.red k := by
  obtain ⟨o, b, i, c₁, c₂, rfl, ho, hi⟩ := hu.exists_branch_of_black d
  obtain ⟨hco, hci⟩ := blackChildren_branch.1 hblack
  obtain ⟨-, hsib, -, -, hrepr, -⟩ := hat.path
  obtain ⟨-, hcb, hdb, hfb, hro, hri⟩ := repr_branch.1 hrepr
  obtain rfl : c₁ = Color.black := ho.rootColor_eq.symm.trans hco
  obtain rfl : c₂ = Color.black := hi.rootColor_eq.symm.trans hci
  refine ⟨s.setColor b Color.red, branch d Color.red o b i, fun n => ?_,
    hat.setColor_sib Color.red, elems_branch_color .., Balanced.branch_red ho hi⟩
  refine h.recolor (hsib.trans (top_branch ..)) hcb ?_ ?_
  · rw [hfb, rbChkBlack_top hri, hci]
    rfl
  · rw [hdb, rbChkBlack_top hro, hco]
    rfl

/-- **The turn at a red sibling**, and the next one, which ends the loop. -/
theorem turn_red (hat : At s (⟨d, c, p, u⟩ :: ctx) t) (h : Hole s d x p)
    (hx : t.top = some x ∨ x ∉ (Ctx.plug (⟨d, c, p, u⟩ :: ctx) t).elems)
    (hbal : Balanced t Color.black k)
    (hfits : Ctx.Fits (⟨d, c, p, u⟩ :: ctx) Color.black (k + 1)) (hu : u.rootColor = Color.red) :
    ∃ s' u' b v, (∀ n, fixdelLoop (n + 2) s x = some s') ∧
      At s' (⟨d, Color.black, p, u'⟩ :: ⟨d, Color.black, b, v⟩ :: ctx) t ∧
      u.elems = (branch d Color.black u' b v).elems ∧
      ((∃ m, Balanced (Ctx.plug (⟨d, Color.black, p, u'⟩ :: ⟨d, Color.black, b, v⟩ :: ctx) t)
        Color.black m) ↔ (u.sub d).BlackChildren) := by
  cases hfits with
  | red hs hfits => cases hu.symm.trans hs.rootColor_eq
  | @black _ _ _ _ _ c' _ hs hfits =>
      obtain rfl : c' = Color.red := hs.rootColor_eq.symm.trans hu
      obtain ⟨N, b, v, rfl, hN, hv⟩ := hs.exists_branch_of_red d
      obtain ⟨N₁, a, N₂, c₁, c₂, rfl, hN₁, hN₂⟩ := hN.exists_branch_of_black d
      obtain ⟨-, hsib, -, -, hrepr, -⟩ := hat.path
      have hcb := (repr_branch.1 hrepr).2.1
      obtain ⟨s₂, hrot, h₂, -, hparent⟩ :=
        rotate_spec ((at_up.1 (hat.setColor_sib Color.black)).setColor Color.red)
      have h₃ : At s₂ (⟨d, Color.red, p, branch d Color.black N₁ a N₂⟩ ::
          ⟨d, Color.black, b, v⟩ :: ctx) t := at_up.2 (at_up.2 h₂)
      have hp : s₂.parent x = some p := parent_eq h₃ (hx.imp_right fun hx => by
        refine (hparent x fun hmem => hx ?_).trans h.parent
        rwa [Ctx.plug, Ctx.elems_plug_congr (elems_branch_congr (elems_branch_color ..))])
      obtain ⟨hpath, hfp, hcp, -, hrN, -⟩ := h₃.path
      have hca : s₂.color a = Color.black := (repr_branch.1 hrN).2.1
      have ho : rbChkBlack s₂ (s₂.child d p) = true := by
        rw [hpath, rbChkBlack_top h₃.tree, hbal.rootColor_eq]
        rfl
      have h₄ := h₃.setColor_sib Color.red
      refine ⟨_, _, b, v, fun n => ?_, h₄.setColor_frame Color.black, ?_, ?_⟩
      · rw [h.red (hsib.trans (top_branch ..)) hcb hrot hp (hfp.trans (top_branch ..)) hca ho,
          fixdelLoop_done (Or.inr h₄.path.2.2.1)]
      · cases d <;> rfl
      · rw [sub_branch, blackChildren_branch]
        constructor
        · rintro ⟨m, hm⟩
          obtain ⟨c', n, hfits', -⟩ := Ctx.fits_of_balanced hm
          cases hfits' with
          | black hs' hfits' =>
              obtain ⟨rfl, ⟨-, h₁, h₂⟩ | ⟨h, -⟩⟩ := hs'.of_branch
              · exact ⟨h₁.rootColor_eq, h₂.rootColor_eq⟩
              · cases h
        · rintro ⟨hc₁, hc₂⟩
          obtain rfl : c₁ = Color.black := hN₁.rootColor_eq.symm.trans hc₁
          obtain rfl : c₂ = Color.black := hN₂.rootColor_eq.symm.trans hc₂
          exact (Ctx.Fits.black (Balanced.branch_red hN₁ hN₂)
            (Ctx.Fits.black hv hfits)).plug hbal

/-- **The turn at a black sibling with a red child** does not balance the tree. -/
theorem turn_bad (hat : At s (⟨d, c, p, u⟩ :: ctx) t) (h : Hole s d x p)
    (hx : t.top = some x ∨ x ∉ (Ctx.plug (⟨d, c, p, u⟩ :: ctx) t).elems)
    (hbal : Balanced t Color.black k) (hu : Balanced u Color.black (k + 1))
    {m : ℕ} (hfits : Ctx.Fits ctx c m) (hred : ¬ u.BlackChildren) :
    (u.sub d = nil ∧ ∀ n, fixdelLoop (n + 2) s x = none) ∨
      u.sub d ≠ nil ∧ ∃ s' u' b v, (∀ n, fixdelLoop (n + 2) s x = some s') ∧
        At s' (⟨d, Color.black, p, u'⟩ :: ⟨d, c, b, v⟩ :: ctx) t ∧
        u.elems = (branch d Color.black u' b v).elems ∧
        ¬ ∃ m, Balanced (Ctx.plug (⟨d, Color.black, p, u'⟩ :: ⟨d, c, b, v⟩ :: ctx) t)
          Color.black m := by
  obtain ⟨o, b, i, c₁, c₂, rfl, ho, hi⟩ := hu.exists_branch_of_black d
  obtain ⟨-, hsib, -, -, hrepr, -⟩ := hat.path
  obtain ⟨-, hcb, hdb, hfb, hro, hri⟩ := repr_branch.1 hrepr
  rw [top_branch] at hsib
  rw [blackChildren_branch, ho.rootColor_eq, hi.rootColor_eq] at hred
  -- the loop ends at the root, which is black
  have hend : ∀ {s₁ : Store α} {t₁ : RbTree α} {b₁ : α} {v₁ : RbTree α},
      At s₁ ctx (branch d c t₁ b₁ v₁) → ∃ r, s₁.root = some r ∧
        ∀ n, fixdelLoop (n + 1) s₁ r = some s₁ := by
    intro s₁ t₁ b₁ v₁ hat₁
    obtain ⟨r, hroot, hcr⟩ := hat₁.root_black rfl hfits
    exact ⟨r, hroot, fun n => by rw [fixdelLoop_done (Or.inl hroot), setColor_self hcr]⟩
  cases c₁ with
  | red =>
      obtain ⟨o₁, e, o₂, rfl, ho₁, ho₂⟩ := ho.exists_branch_of_red d
      obtain ⟨s₁, hrun, hat₁⟩ := fixdelOuter_spec (x := x) hat h.parent
      rw [blacken_branch] at hat₁
      obtain ⟨r, hroot, hdone⟩ := hend hat₁
      refine Or.inr ⟨by rw [sub_branch]; exact branch_ne_nil _ _ _ _ _, s₁, _, b, i, fun n => ?_,
        at_up.2 (at_up.2 hat₁), ?_, ?_⟩
      · have hbo : rbChkBlack s (s.child d b) = false := by
          rw [hdb, rbChkBlack_top hro, rootColor_branch]
          rfl
        rw [h.outer hsib hcb hbo (hdb ▸ hrun) hroot, hdone]
      · cases d <;> rfl
      · have hbad : ∀ c' n, ¬ Balanced (branch d Color.black t p (branch d Color.black o₁ e o₂)) c' n :=
          fun c' n => hbal.not_branch (Balanced.branch_black ho₁ ho₂) (Nat.ne_of_lt k.lt_succ_self)
        exact Ctx.not_balanced_plug (⟨d, c, b, i⟩ :: ctx) _ hbad
  | black =>
      obtain rfl : c₂ = Color.red := by
        cases c₂ with
        | red => rfl
        | black => exact absurd ⟨rfl, rfl⟩ hred
      have hbi : rbChkBlack s (s.child d.flip b) = false := by
        rw [hfb, rbChkBlack_top hri, hi.rootColor_eq]
        rfl
      cases k with
      | zero =>
          cases ho with
          | nil => exact Or.inl ⟨sub_branch .., fun n => h.stuck hsib hcb hbi hdb⟩
      | succ k =>
          -- the inner child is black: it takes the place of the sibling first
          obtain ⟨o₂, a, o₁, c₂, c₁, rfl, ho₂, ho₁⟩ := ho.exists_branch_of_black d.flip
          have hswap := at_swap.1 hat
          rw [← branch_flip d Color.black i b] at hswap
          obtain ⟨s₁, hrot, hat₁, -, hparent⟩ := rotate_spec hswap
          have hat₂ := at_swap.2 hat₁
          have hp : s₁.parent x = some p := parent_eq hat₂ (hx.imp_right fun hx => by
            refine (hparent x fun hmem => hx ?_).trans h.parent
            rwa [Ctx.plug, branch_flip d c, branch_flip d Color.black i b] at hmem)
          obtain ⟨-, hfp, -, -, hra, -⟩ := hat₂.path
          obtain ⟨-, -, -, hda, -, -⟩ := repr_branch.1 hra
          rw [top_branch] at hfp
          rw [Dir.flip_flip] at hda
          rw [branch_flip] at hat₂
          obtain ⟨s₂, hrun, hat₃⟩ := fixdelOuter_spec hat₂ hp
          obtain ⟨r, hroot, hdone⟩ := hend hat₃
          have hbo : rbChkBlack s (s.child d b) = true := by
            rw [hdb, rbChkBlack_top hro, ho.rootColor_eq]
            rfl
          refine Or.inr ⟨by rw [sub_branch]; exact branch_ne_nil _ _ _ _ _, s₂, o₁.blacken, a, _,
            fun n => ?_, at_up.2 (at_up.2 hat₃), ?_, ?_⟩
          · rw [h.inner hsib hcb hbi hbo hrot hp hfp (hda ▸ hrun) hroot, hdone]
          · cases d <;> simp [branch, Dir.flip, elems_blacken]
          · have hbad : ∀ c' n, ¬ Balanced (branch d.flip Color.black i b o₂) c' n :=
              fun c' n => hi.not_branch ho₂ k.succ_ne_self
            refine Ctx.not_balanced_plug ctx (branch d c _ a _) fun c' n hb => ?_
            obtain ⟨-, ⟨-, -, hv⟩ | ⟨-, _, _, _, -, -, hv⟩⟩ := hb.of_branch
            · exact hbad _ _ hv
            · exact hbad _ _ hv

end Trees

/-! ### The loop -/

section Loop

variable {s : Store α} {t : RbTree α} {x : α}

/-- A run of the loop at the subtree `t` that follows no null pointer leaves a tree with the same nodes
in order, in which the pointer to the subtree is the same, and which is balanced when `good`; a run
that does is not good. -/
def Outcome (run : Option (Store α)) (ctx : Ctx α) (t : RbTree α) (good : Prop) : Prop :=
  (run = none ∧ ¬ good) ∨ ∃ s' ctx', run = some s' ∧ At s' ctx' t ∧
    (Ctx.link ctx' = Ctx.link ctx ∧ Ctx.before ctx' = Ctx.before ctx ∧
      Ctx.after ctx' = Ctx.after ctx) ∧ ((∃ m, Balanced (Ctx.plug ctx' t) Color.black m) ↔ good)

/-- The same run, seen from below the root of the subtree. -/
theorem Outcome.down {run : Option (Store α)} {ctx : Ctx α} {d : Dir} {c : Color} {p : α}
    {u u' : RbTree α} {good : Prop} (h : Outcome run ctx (branch d Color.black t p u') good)
    (hu : u'.elems = u.elems) : Outcome run (⟨d, c, p, u⟩ :: ctx) t good := by
  rcases h with ⟨hnone, hnot⟩ | ⟨s', ctx', hrun, hat, ⟨-, hb, ha⟩, hiff⟩
  · exact Or.inl ⟨hnone, hnot⟩
  · refine Or.inr ⟨s', ⟨d, Color.black, p, u'⟩ :: ctx', hrun, at_up.2 hat, ⟨rfl, ?_⟩, hiff⟩
    cases d <;> simp [Ctx.before, Ctx.after, hb, ha, hu]

variable [DecidableEq α]

theorem color_of_top {ctx : Ctx α} (hat : At s ctx t) (ht : t.top = some x)
    (hc : t.rootColor = Color.black) : s.color x = Color.black := by
  have hchk := rbChkBlack_top hat.tree
  rw [ht, hc] at hchk
  simpa [rbChkBlack] using hchk

/-- The side of a node, as the code finds it. -/
theorem side_eq {f : Frame α} {ctx : Ctx α} (hat : At s (f :: ctx) t) (ht : t.top = some x) :
    (if s.child Dir.left f.elem = some x then Dir.left else Dir.right) = f.dir := by
  obtain ⟨-, -, -, hdx, hfx, hne⟩ := hat.above ht
  cases hd : f.dir with
  | left =>
      rw [hd] at hdx
      rw [if_pos hdx]
  | right =>
      rw [hd, Dir.flip] at hfx
      rw [if_neg (hfx.symm ▸ hne)]

theorem hole_of_top {f : Frame α} {ctx : Ctx α} (hat : At s (f :: ctx) t) (ht : t.top = some x)
    (hc : t.rootColor = Color.black) : Hole s f.dir x f.elem :=
  ⟨hat.root_ne ht, color_of_top hat ht hc, (hat.above ht).1, side_eq hat ht⟩

section Hole

variable {d : Dir} {c : Color} {p : α} {u : RbTree α} {ctx : Ctx α} {k : ℕ}

/-- What the loop does at the nodes with the given context. -/
def Above (ctx : Ctx α) (p : α) : Prop :=
  ∀ {s : Store α} {t : RbTree α} {k : ℕ} (n : ℕ), At s ctx t → t.top = some p →
    Balanced t Color.black k → Ctx.Fits ctx Color.black (k + 1) → ctx.length < n →
    Outcome (fixdelLoop n s p) ctx t (Fixable ctx)

/-- **The loop at a black sibling with black children**, from what it does above. -/
theorem recolor_outcome (hat : At s (⟨d, c, p, u⟩ :: ctx) t) (h : Hole s d x p)
    (hbal : Balanced t Color.black k)
    (hfits : Ctx.Fits (⟨d, c, p, u⟩ :: ctx) Color.black (k + 1))
    (hcu : u.rootColor = Color.black) (hblack : u.BlackChildren) (ih : Above ctx p) (n : ℕ)
    (hn : ctx.length + 1 < n) :
    ∃ u', u'.elems = u.elems ∧ Outcome (fixdelLoop n s x) ctx (branch d Color.black t p u')
      (c = Color.red ∨ Fixable ctx) := by
  obtain ⟨n, rfl⟩ : ∃ m, n = m + 2 := ⟨n - 2, by omega⟩
  cases hfits with
  | red hs hfits =>
      -- a red parent becomes black, and the loop ends
      obtain ⟨s₁, u', hrun, hat₁, helems, hbal'⟩ := turn_recolor hat h hs hblack
      refine ⟨u', helems, Or.inr ⟨_, ctx, ?_, at_up.1 (hat₁.setColor_frame Color.black),
        ⟨rfl, rfl, rfl⟩, iff_of_true (hfits.of_red.plug (Balanced.branch_black hbal hbal'))
        (Or.inl rfl)⟩⟩
      rw [hrun, fixdelLoop_done (Or.inr hat₁.path.2.2.1)]
  | black hs hfits =>
      obtain rfl := hs.rootColor_eq.symm.trans hcu
      obtain ⟨s₁, u', hrun, hat₁, helems, hbal'⟩ := turn_recolor hat h hs hblack
      refine ⟨u', helems, ?_⟩
      rw [hrun, eq_false (fun h : Color.black = Color.red => by cases h), false_or]
      exact ih (n + 1) (at_up.1 hat₁) (top_branch ..) (Balanced.branch_black hbal hbal') hfits
        (by omega)

/-- **The loop below a node**, from what it does above. -/
theorem hole_outcome (hat : At s (⟨d, c, p, u⟩ :: ctx) t) (h : Hole s d x p)
    (hx : t.top = some x ∨ x ∉ (Ctx.plug (⟨d, c, p, u⟩ :: ctx) t).elems)
    (hbal : Balanced t Color.black k)
    (hfits : Ctx.Fits (⟨d, c, p, u⟩ :: ctx) Color.black (k + 1)) (ih : Above ctx p) (n : ℕ)
    (hn : ctx.length + 1 < n) :
    Outcome (fixdelLoop n s x) (⟨d, c, p, u⟩ :: ctx) t (Fixable (⟨d, c, p, u⟩ :: ctx)) := by
  cases hcu : u.rootColor with
  | red =>
      obtain ⟨n, rfl⟩ : ∃ m, n = m + 2 := ⟨n - 2, by omega⟩
      obtain ⟨s', u', b, v, hrun, hat', helems, hiff⟩ := turn_red hat h hx hbal hfits hcu
      refine Or.inr ⟨s', _, hrun n, hat', ⟨rfl, Ctx.order_rotate helems⟩, ?_⟩
      rw [hiff, fixable_red hcu]
  | black =>
      rw [fixable_black hcu]
      by_cases hblack : u.BlackChildren
      · obtain ⟨u', helems, hout⟩ := recolor_outcome hat h hbal hfits hcu hblack ih n hn
        rw [and_iff_right hblack]
        exact hout.down helems
      · obtain ⟨n, rfl⟩ : ∃ m, n = m + 2 := ⟨n - 2, by omega⟩
        obtain ⟨hu, m, hctx⟩ : Balanced u Color.black (k + 1) ∧ ∃ m, Ctx.Fits ctx c m := by
          cases hfits with
          | red hs hfits => exact ⟨hs, _, hfits⟩
          | black hs hfits => exact ⟨hs.rootColor_eq.symm.trans hcu ▸ hs, _, hfits⟩
        rcases turn_bad hat h hx hbal hu hctx hblack with
          ⟨-, hnone⟩ | ⟨-, s', u', b, v, hrun, hat', helems, hbad⟩
        · exact Or.inl ⟨hnone n, fun hg => hblack hg.1⟩
        · exact Or.inr ⟨s', _, hrun n, hat', ⟨rfl, Ctx.order_rotate helems⟩,
            iff_of_false hbad fun hg => hblack hg.1⟩

end Hole

/-- **The loop at a black node** balances the tree exactly when the path above is fixable. -/
theorem fixdelLoop_outcome (ctx : Ctx α) : ∀ p, Above ctx p := by
  induction ctx with
  | nil =>
      intro x s t k n hat ht hbal _ hn
      cases n with
      | zero => exact absurd hn (Nat.not_lt_zero _)
      | succ n =>
          have hroot : s.root = some x := hat.path.trans ht
          have hcx : s.color x = Color.black := color_of_top hat ht hbal.rootColor_eq
          rw [fixdelLoop_done (Or.inl hroot), setColor_self hcx]
          exact Or.inr ⟨s, [], rfl, hat, ⟨rfl, rfl, rfl⟩, iff_of_true ⟨k, hbal⟩ trivial⟩
  | cons f ctx ih =>
      intro x s t k n hat ht hbal hfits hn
      exact hole_outcome hat (hole_of_top hat ht hbal.rootColor_eq) (Or.inl ht) hbal hfits (ih f.elem)
        n (by simpa using hn)

end Loop

end Rbtree

end SyncKernel
