/-
**Inserting keeps a tree red-black.**

A rotation changes a subtree in place, in any context; the loop of `rb_fixins` moves a red node with
a red parent up the path until the parent is black, and the nodes stay in order.

Main results:

* `Rbtree.rotate_spec` — **a rotation at a context**;
* `Rbtree.rbInsert_spec` — **linking a node** at a leaf of a balanced tree gives a balanced tree with
  the node in that place;
* `Rbtree.rbInsert_restores` — so does every insertion at a vacant place, and a tree that is built by
  insertions is not deep.
-/

import SyncKernel.Lib.Run
import SyncKernel.Rbtree.Walk

set_option relaxedAutoImplicit false
set_option autoImplicit false

namespace SyncKernel

namespace Rbtree

open RbTree Store

variable {α : Type*} {s : Store α}

/-! ### Rotations -/

/-- The nodes around a rotation are different. -/
theorem rotate_nodup {ctx : Ctx α} {d : Dir} {c c' : Color} {t u v : RbTree α} {x y : α}
    (hnd : (Ctx.plug ctx (branch d c t x (branch d c' u y v))).elems.Nodup) :
    (x :: y :: (t.elems ++ (u.elems ++ (v.elems ++ Ctx.elems ctx)))).Nodup := by
  have hperm : (Ctx.plug ctx (branch d c t x (branch d c' u y v))).elems.Perm
      (x :: (t.elems ++ (y :: (u.elems ++ v.elems))) ++ Ctx.elems ctx) :=
    (Ctx.elems_plug_perm _ _).trans (List.Perm.append_right _
      ((elems_branch_perm _ _ _ _ _).trans (List.Perm.cons _ (List.Perm.append_left _
        (elems_branch_perm _ _ _ _ _)))))
  have hperm' : (x :: (t.elems ++ (y :: (u.elems ++ v.elems))) ++ Ctx.elems ctx).Perm
      (x :: y :: (t.elems ++ (u.elems ++ (v.elems ++ Ctx.elems ctx)))) := by
    rw [List.cons_append, List.append_assoc, List.cons_append, List.append_assoc]
    exact List.Perm.cons _ List.perm_middle
  exact (hperm.trans hperm').nodup_iff.1 hnd

variable [DecidableEq α]

/-- The writes of a rotation, when `u` is the subtree that changes sides. -/
def rotated (d : Dir) (s : Store α) (x y : α) (u : Option α) (q : Option α)
    (l : Option (Dir × α)) : Store α :=
  let s := s.setChild d.flip x u
  let s := match u with
    | none => s
    | some b => s.setParent b (some x)
  ((((s.setParent y q).put l (some y)).setChild d y (some x)).setParent x (some y))

/-- The pointer to `x` is the pointer to the subtree of the context. -/
theorem replaceChild_eq {ctx : Ctx α} {d : Dir} {x y : α} (s' : Store α)
    (hpath : CtxRepr s ctx (some x)) (hx : x ∉ Ctx.elems ctx)
    (hchild : ∀ a ∈ Ctx.elems ctx, ∀ e, s'.child e a = s.child e a)
    (hparent : s'.parent x = Ctx.par ctx) :
    replaceChild d s' x y = s'.put (Ctx.link ctx) (some y) := by
  unfold replaceChild
  rw [hparent]
  cases ctx with
  | nil => rfl
  | cons f ctx =>
      have hmem : f.elem ∈ Ctx.elems (f :: ctx) :=
        (Ctx.elems_cons_perm f ctx).mem_iff.2 (by simp)
      have hsib : f.sib.top ≠ some x := fun he =>
        hx ((Ctx.elems_cons_perm f ctx).mem_iff.2 (by simp [mem_of_top he]))
      obtain ⟨h₁, h₂, -⟩ := hpath
      rcases Dir.eq_or_eq_flip d f.dir with hd | hd
      · rw [hd] at h₁
        simp only [Ctx.par, Ctx.link, hchild _ hmem, h₁, if_true, put, hd]
      · rw [hd, Dir.flip_flip] at h₂
        simp only [Ctx.par, Ctx.link, hchild _ hmem, h₂, hsib, if_false, put, hd]

theorem rotate_eq {ctx : Ctx α} {d : Dir} {x y : α} {u : Option α} (hy : s.child d.flip x = some y)
    (hu : s.child d y = u) (hq : s.parent x = Ctx.par ctx) (hpath : CtxRepr s ctx (some x))
    (hxy : x ≠ y) (hux : u ≠ some x) (hx : x ∉ Ctx.elems ctx) :
    rotate d s x = some (rotated d s x y u (Ctx.par ctx) (Ctx.link ctx)) := by
  have hchild : ∀ a ∈ Ctx.elems ctx, ∀ e, (s.setChild d.flip x u).child e a = s.child e a := by
    intro a ha e
    have hne : a ≠ x := fun he => hx (he ▸ ha)
    simp only [setChild_child, hne, and_false, if_false]
  cases u with
  | none =>
      simp only [rotate, hy, hu, Option.bind_eq_bind, Option.bind_some, setChild_parent, hq, rotated]
      rw [replaceChild_eq ((s.setChild d.flip x none).setParent y (Ctx.par ctx)) hpath hx hchild]
      simp only [setParent_parent, hxy, if_false, setChild_parent, hq]
  | some b =>
      have hbx : x ≠ b := fun he => hux (he ▸ rfl)
      simp only [rotate, hy, hu, Option.bind_eq_bind, Option.bind_some, setParent_parent, hbx, if_false,
        setChild_parent, hq, rotated]
      rw [replaceChild_eq (((s.setChild d.flip x (some b)).setParent b (some x)).setParent y
        (Ctx.par ctx)) hpath hx hchild]
      simp only [setParent_parent, hxy, hbx, if_false, setChild_parent, hq]

section Fields

variable (d : Dir) (s : Store α) (x y : α) (u q : Option α) (l : Option (Dir × α))

theorem rotated_color : (rotated d s x y u q l).color = s.color := by
  cases u <;> rcases l with - | ⟨e, a⟩ <;> rfl

theorem rotated_root (h : l ≠ none) : (rotated d s x y u q l).root = s.root := by
  cases u <;> rcases l with - | ⟨e, a⟩ <;> first | rfl | exact absurd rfl h

theorem rotated_parent (a : α) : (rotated d s x y u q l).parent a =
    if a = x then some y else if a = y then q else if u = some a then some x else s.parent a := by
  cases u <;> rcases l with - | ⟨e, b⟩ <;> simp [rotated, put, eq_comm]

theorem rotated_child (e : Dir) (a : α) : (rotated d s x y u q l).child e a =
    if e = d ∧ a = y then some x else if l = some (e, a) then some y
    else if e = d.flip ∧ a = x then u else s.child e a := by
  cases u <;> rcases l with - | ⟨e', b⟩ <;> simp [rotated, put, eq_comm, and_comm]

end Fields

/-- **A rotation at a context**: the child `y` takes the place of `x`. -/
theorem rotate_spec {ctx : Ctx α} {d : Dir} {c c' : Color} {t u v : RbTree α} {x y : α}
    (h : At s ctx (branch d c t x (branch d c' u y v))) :
    ∃ s', rotate d s x = some s' ∧ At s' ctx (branch d c' (branch d c t x u) y v) ∧
      s'.color = s.color ∧ ∀ z, z ∉ (Ctx.plug ctx (branch d c t x (branch d c' u y v))).elems →
        s'.parent z = s.parent z := by
  obtain ⟨hpath, htree, hnd⟩ := h
  obtain ⟨hpx, hcx, hdx, hfx, ht, hy⟩ := repr_branch.1 htree
  obtain ⟨hpy, hcy, hdy, hfy, hu, hv⟩ := repr_branch.1 hy
  rw [top_branch] at hpath hfx
  have hnd' := rotate_nodup hnd
  simp only [List.nodup_cons, List.nodup_append, List.mem_cons, List.mem_append, not_or] at hnd'
  obtain ⟨⟨hxy, hxt, hxu, hxv, hxctx⟩, ⟨hyt, hyu, hyv, hyctx⟩, hndt, ⟨hndu, ⟨hndv, hndc, hvc⟩, huvc⟩,
    htuvc⟩ := hnd'
  have hux : u.top ≠ some x := fun he => hxu (mem_of_top he)
  refine ⟨_, rotate_eq hfx hdy hpx hpath hxy hux hxctx, ?_, rotated_color .., fun z hz => ?_⟩
  swap
  · rw [(Ctx.elems_plug_perm _ _).mem_iff, List.mem_append, (elems_branch_perm _ _ _ _ _).mem_iff,
      List.mem_cons, List.mem_append, (elems_branch_perm _ _ _ _ _).mem_iff, List.mem_cons,
      List.mem_append] at hz
    have hzu : u.top ≠ some z := fun he => hz (by simp [mem_of_top he])
    rw [rotated_parent, if_neg (fun he => hz (by simp [he])), if_neg (fun he => hz (by simp [he])),
      if_neg hzu]
  have hlink : ∀ e a, a ∉ Ctx.elems ctx → Ctx.link ctx ≠ some (e, a) := fun e a ha he =>
    ha (Ctx.mem_of_link he)
  -- a node other than `x`, `y` and the root of `u` keeps its parent, and its children too when it is
  -- not on the path
  have hparent : ∀ a, a ≠ x → a ≠ y → u.top ≠ some a →
      (rotated d s x y u.top (Ctx.par ctx) (Ctx.link ctx)).parent a = s.parent a := by
    intro a h₁ h₂ h₃
    rw [rotated_parent, if_neg h₁, if_neg h₂, if_neg h₃]
  have hchild : ∀ a, a ≠ x → a ≠ y → ∀ e, Ctx.link ctx ≠ some (e, a) →
      (rotated d s x y u.top (Ctx.par ctx) (Ctx.link ctx)).child e a = s.child e a := by
    intro a h₁ h₂ e h₃
    rw [rotated_child, if_neg fun he => h₂ he.2, if_neg h₃, if_neg fun he => h₁ he.2]
  have htop : ∀ a, a ∉ u.elems → u.top ≠ some a := fun a ha he => ha (mem_of_top he)
  refine ⟨hpath.relink hndc (fun a ha => ?_) ?_ ?_, repr_branch.2 ⟨?_, ?_, ?_, ?_, ?_, ?_⟩, ?_⟩
  · have hax : a ≠ x := fun he => hxctx (he ▸ ha)
    have hay : a ≠ y := fun he => hyctx (he ▸ ha)
    exact ⟨hparent a hax hay (htop a fun hau => huvc a hau a (Or.inr ha) rfl),
      by rw [rotated_color], fun e he => hchild a hax hay e he⟩
  · intro hne
    refine rotated_root _ _ _ _ _ _ _ ?_
    cases ctx with
    | nil => exact absurd rfl hne
    | cons f ctx => exact Option.some_ne_none _
  · rw [top_branch]
    cases ctx with
    | nil => cases u <;> rfl
    | cons f ctx =>
        have hmem : f.elem ∈ Ctx.elems (f :: ctx) :=
          (Ctx.elems_cons_perm f ctx).mem_iff.2 (by simp)
        have hfy : f.elem ≠ y := fun he => hyctx (he ▸ hmem)
        exact (rotated_child ..).trans ((if_neg fun he => hfy he.2).trans (if_pos rfl))
  · rw [rotated_parent, if_neg (Ne.symm hxy), if_pos rfl]
  · rw [rotated_color, hcy]
  · rw [rotated_child, if_pos ⟨rfl, rfl⟩, top_branch]
  · rw [rotated_child, if_neg fun he => d.flip_ne he.1, if_neg (hlink _ _ hyctx),
      if_neg fun he => hxy he.2.symm, hfy]
  · refine repr_branch.2 ⟨?_, ?_, ?_, ?_, ?_, ?_⟩
    · rw [rotated_parent, if_pos rfl]
    · rw [rotated_color, hcx]
    · rw [rotated_child, if_neg fun he => hxy he.2, if_neg (hlink _ _ hxctx),
        if_neg fun he => d.flip_ne he.1.symm, hdx]
    · rw [rotated_child, if_neg fun he => hxy he.2, if_neg (hlink _ _ hxctx), if_pos ⟨rfl, rfl⟩]
    · refine ht.congr fun a ha => ?_
      have hax : a ≠ x := fun he => hxt (he ▸ ha)
      have hay : a ≠ y := fun he => hyt (he ▸ ha)
      have hau : a ∉ u.elems := fun hau => htuvc a ha a (Or.inl hau) rfl
      have hac : a ∉ Ctx.elems ctx := fun hac => htuvc a ha a (Or.inr (Or.inr hac)) rfl
      exact ⟨fun e => hchild a hax hay e (hlink e a hac), hparent a hax hay (htop a hau),
        by rw [rotated_color]⟩
    · refine hu.reparent hndu (fun a ha e => ?_) (fun a _ => by rw [rotated_color])
        (fun a ha hne => ?_) fun a he => ?_
      · exact hchild a (fun he => hxu (he ▸ ha)) (fun he => hyu (he ▸ ha)) e
          (hlink e a fun hac => huvc a ha a (Or.inr hac) rfl)
      · exact hparent a (fun he => hxu (he ▸ ha)) (fun he => hyu (he ▸ ha)) (Ne.symm hne)
      · have ha := mem_of_top he
        have hax : a ≠ x := fun hax => hxu (hax ▸ ha)
        have hay : a ≠ y := fun hay => hyu (hay ▸ ha)
        rw [rotated_parent, if_neg hax, if_neg hay, if_pos he]
  · refine hv.congr fun a ha => ?_
    have hax : a ≠ x := fun he => hxv (he ▸ ha)
    have hay : a ≠ y := fun he => hyv (he ▸ ha)
    exact ⟨fun e => hchild a hax hay e (hlink e a fun hac => hvc a ha a hac rfl),
      hparent a hax hay (htop a fun hau => huvc a hau a (Or.inl ha) rfl), by rw [rotated_color]⟩
  · rw [Ctx.elems_plug_congr (elems_rotate d c' c c c' t x u y v)]
    exact hnd

/-! ### The turns of the loop -/

section Turns

variable {n : ℕ} {d : Dir} {x p g : α}

theorem fixLoop_root (hroot : s.root = some x) : fixLoop (n + 1) s x = some s := by
  rw [fixLoop, if_pos hroot]

theorem fixLoop_black (hroot : s.root ≠ some x) (hp : s.parent x = some p)
    (hcp : s.color p = Color.black) : fixLoop (n + 1) s x = some s := by
  rw [fixLoop, if_neg hroot, hp, Option.bind_eq_bind, Option.bind_some, if_pos hcp]

/-- The turn at a red uncle `u`. -/
theorem fixLoop_recolor {u : α} (hroot : s.root ≠ some x) (hp : s.parent x = some p)
    (hcp : s.color p = Color.red) (hg : s.parent p = some g) (hd : s.child d g = some p)
    (hu : s.child d.flip g = some u) (hup : u ≠ p) (hcu : s.color u = Color.red) :
    fixLoop (n + 1) s x =
      fixLoop n (((s.setColor p Color.black).setColor u Color.black).setColor g Color.red) g := by
  rw [fixLoop, if_neg hroot]
  cases d with
  | left =>
      rw [Dir.flip] at hu
      simp [hp, hcp, hg, hd, hu, hcu]
  | right =>
      rw [Dir.flip] at hu
      simp [hp, hcp, hg, hu, hcu, hup]

/-- The turn at a black uncle, when `x` is an outer child. -/
theorem fixLoop_outer (hroot : s.root ≠ some x) (hp : s.parent x = some p)
    (hcp : s.color p = Color.red) (hg : s.parent p = some g) (hd : s.child d g = some p)
    (hne : s.child d.flip g ≠ some p)
    (hu : (s.child d.flip g).any (fun u => s.color u = Color.red) = false)
    (hin : s.child d.flip p ≠ some x) :
    fixLoop (n + 1) s x =
      (rotate d.flip ((s.setColor p Color.black).setColor g Color.red) g).bind
        fun s => fixLoop n s x := by
  rw [fixLoop, if_neg hroot]
  cases d with
  | left =>
      rw [Dir.flip] at hu hin ⊢
      simp [hp, hcp, hg, hd, hu, hin, rbRrotate]
  | right =>
      rw [Dir.flip] at hu hin hne ⊢
      simp [hp, hcp, hg, hne, hu, hin, rbLrotate]

/-- The turn at a black uncle, when `x` is an inner child. -/
theorem fixLoop_inner {s₁ : Store α} (hroot : s.root ≠ some x) (hp : s.parent x = some p)
    (hcp : s.color p = Color.red) (hg : s.parent p = some g) (hd : s.child d g = some p)
    (hne : s.child d.flip g ≠ some p)
    (hu : (s.child d.flip g).any (fun u => s.color u = Color.red) = false)
    (hin : s.child d.flip p = some x) (hrot : rotate d s p = some s₁)
    (hp₁ : s₁.parent p = some x) (hg₁ : s₁.parent x = some g) :
    fixLoop (n + 1) s x =
      (rotate d.flip ((s₁.setColor x Color.black).setColor g Color.red) g).bind
        fun s => fixLoop n s p := by
  rw [fixLoop, if_neg hroot]
  cases d with
  | left =>
      rw [Dir.flip] at hu hin ⊢
      simp [hp, hcp, hg, hd, hu, hin, rbLrotate, rbRrotate, hrot, hp₁, hg₁]
  | right =>
      rw [Dir.flip] at hu hin hne ⊢
      simp [hp, hcp, hg, hne, hu, hin, rbLrotate, rbRrotate, hrot, hp₁, hg₁]

end Turns

/-! ### The loop -/

/-- A red uncle: the node above the parent becomes the red node. -/
theorem at_recolor {ctx : Ctx α} {d d' : Dir} {t sib l r : RbTree α} {p g u : α}
    (h : At s (⟨d, Color.red, p, sib⟩ :: ⟨d', Color.black, g, node Color.red l u r⟩ :: ctx) t) :
    At (((s.setColor p Color.black).setColor u Color.black).setColor g Color.red) ctx
      (branch d' Color.red (branch d Color.black t p sib) g (node Color.black l u r)) := by
  have h₁ := at_up.1 ((at_up.1 h).setColor Color.black)
  rw [← branch_flip] at h₁
  have h₂ : At (s.setColor p Color.black)
      (⟨d'.flip, Color.black, g, branch d Color.black t p sib⟩ :: ctx)
      (branch Dir.left Color.red l u r) := at_up.2 h₁
  have h₃ := (at_up.1 (h₂.setColor Color.black)).setColor Color.red
  rw [branch_flip] at h₃
  exact h₃

/-- A black uncle and an outer child: a rotation makes the parent the root of the subtree. -/
theorem at_rotate_outer {ctx : Ctx α} {d : Dir} {t sib unc : RbTree α} {p g : α}
    (h : At s (⟨d, Color.red, p, sib⟩ :: ⟨d, Color.black, g, unc⟩ :: ctx) t) :
    ∃ s', rotate d.flip ((s.setColor p Color.black).setColor g Color.red) g = some s' ∧
      At s' ctx (branch d Color.black t p (branch d Color.red sib g unc)) := by
  have h₁ := (at_up.1 ((at_up.1 h).setColor Color.black)).setColor Color.red
  rw [← branch_flip, ← branch_flip d Color.black] at h₁
  obtain ⟨s', hrun, h₂, -⟩ := rotate_spec h₁
  refine ⟨s', hrun, ?_⟩
  rw [branch_flip, branch_flip] at h₂
  exact h₂

/-- **The loop** moves a red node up the path until its parent is black. -/
theorem fixLoop_spec :
    ∀ (n : ℕ) {ctx : Ctx α} {s : Store α} {t : RbTree α} {x : α} {m : ℕ}, At s ctx t →
      t.top = some x → Balanced t Color.red m → Ctx.Fits ctx Color.black m → ctx.length < n →
      ∃ s' t', fixLoop n s x = some s' ∧ At s' [] t' ∧ t'.elems = (Ctx.plug ctx t).elems ∧
        ∃ c k, Balanced t' c k := by
  intro n
  induction n with
  | zero => intro ctx s t x m _ _ _ _ hn; exact absurd hn (Nat.not_lt_zero _)
  | succ n ih =>
      intro ctx s t x m hat htop hbal hfits hn
      cases hfits with
      | root => exact ⟨s, t, fixLoop_root (hat.path.trans htop), hat, rfl, _, _, hbal⟩
      | @black ctx d p sib _ c' _ hs hfits =>
          -- the parent is black: the tree is balanced as it is
          obtain ⟨hp, hcp, -⟩ := hat.above htop
          have hfit := Ctx.Fits.black (d := d) (a := p) (c := Color.red) hs hfits
          obtain ⟨k, hk⟩ := hfit.plug hbal
          exact ⟨s, _, fixLoop_black (hat.root_ne htop) hp hcp, at_plug.1 hat, rfl, _, _, hk⟩
      | @red ctx d p sib _ hs hfits =>
          cases hfits with
          | @black ctx d' g unc _ c' _ hunc hfits =>
              obtain ⟨hp, hcp, hpg, hdx, hfx, hsx⟩ := hat.above htop
              have hat₁ := at_up.1 hat
              obtain ⟨-, -, -, hdp, hfp, hup⟩ := hat₁.above (top_branch ..)
              have hroot := hat.root_ne htop
              have hunc' := hat₁.path.2.2.2.2.1
              have hany := hunc'.any_red_top hunc
              cases c' with
              | red =>
                  obtain ⟨l, u, r, rfl, hl, hr⟩ := hunc.exists_of_red
                  have hu : u ≠ p := fun he => hup (he ▸ rfl)
                  have hbal' : Balanced (branch d' Color.red (branch d Color.black t p sib) g
                      (node Color.black l u r)) Color.red (m + 1) :=
                    Balanced.branch_red (Balanced.branch_black hbal hs) (Balanced.black hl hr)
                  obtain ⟨s', t', hrun, hat', helems, hfixed⟩ :=
                    ih (at_recolor hat) (top_branch ..) hbal' hfits (by simp at hn; omega)
                  refine ⟨s', t', ?_, hat', helems.trans ?_, hfixed⟩
                  · rw [fixLoop_recolor hroot hp hcp hpg hdp hfp hu hunc'.2.1]
                    exact hrun
                  · refine Ctx.elems_plug_congr ?_
                    cases d <;> cases d' <;> rfl
              | black =>
                  rcases Dir.eq_or_eq_flip d' d with rfl | rfl
                  · -- an outer child
                    have hin : s.child d.flip p ≠ some x := hfx.symm ▸ hsx
                    obtain ⟨s₁, hrot, hat₂⟩ := at_rotate_outer hat
                    have hfit : Ctx.Fits (⟨d, Color.black, p, branch d Color.red sib g unc⟩ :: ctx)
                        Color.black m := Ctx.Fits.black (Balanced.branch_red hs hunc) hfits
                    obtain ⟨s', t', hrun, hat', helems, hfixed⟩ :=
                      ih (at_up.2 hat₂) htop hbal hfit (by simp at hn ⊢; omega)
                    refine ⟨s', t', ?_, hat', helems.trans ?_, hfixed⟩
                    · rw [fixLoop_outer hroot hp hcp hpg hdp (hfp.symm ▸ hup) (hfp.symm ▸ hany) hin,
                        hrot]
                      exact hrun
                    · exact Ctx.elems_plug_congr (elems_rotate d _ _ _ _ t p sib g unc).symm
                  · -- an inner child: a rotation below makes it an outer one
                    obtain ⟨u, y, v, rfl, hu, hv⟩ := hbal.exists_branch_of_red d'
                    obtain rfl : y = x := Option.some_inj.1 ((top_branch ..).symm.trans htop)
                    rw [branch_flip] at hat₁
                    obtain ⟨s₁, hrot, hat₂, hcolor⟩ := rotate_spec hat₁
                    have hat₃ : At s₁ (⟨d', Color.red, y, v⟩ :: ⟨d', Color.black, g, unc⟩ :: ctx)
                        (branch d' Color.red sib p u) := at_up.2 hat₂
                    obtain ⟨hp₁, -, hx₁, -⟩ := hat₃.above (top_branch ..)
                    obtain ⟨s₂, hrot₂, hat₄⟩ := at_rotate_outer hat₃
                    have hfit : Ctx.Fits (⟨d', Color.black, y, branch d' Color.red v g unc⟩ :: ctx)
                        Color.black m := Ctx.Fits.black (Balanced.branch_red hv hunc) hfits
                    obtain ⟨s', t', hrun, hat', helems, hfixed⟩ :=
                      ih (at_up.2 hat₄) (top_branch ..) (Balanced.branch_red hs hu) hfit
                        (by simp at hn ⊢; omega)
                    refine ⟨s', t', ?_, hat', helems.trans ?_, hfixed⟩
                    · rw [fixLoop_inner hroot hp hcp hpg hdp (hfp.symm ▸ hup) (hfp.symm ▸ hany) hdx
                        hrot hp₁ hx₁, hrot₂]
                      exact hrun
                    · simp only [Ctx.plug]
                      refine Ctx.elems_plug_congr ?_
                      cases d' <;> simp [branch, Dir.flip]

/-- `rb_fixins` leaves a balanced tree. -/
theorem rbFixins_spec {ctx : Ctx α} {t : RbTree α} {x : α} {m : ℕ} (hat : At s ctx t)
    (htop : t.top = some x) (hbal : Balanced t Color.red m) (hfits : Ctx.Fits ctx Color.black m)
    (hlen : ctx.length < addrSpace) :
    ∃ s' t', rbFixins s x = some s' ∧ At s' [] t' ∧ t'.elems = (Ctx.plug ctx t).elems ∧
      ∃ k, Balanced t' Color.black k := by
  obtain ⟨s₁, t₁, hrun, hat₁, helems, c, k, hbal₁⟩ := fixLoop_spec addrSpace hat htop hbal hfits hlen
  -- the root is made black
  have hmem : x ∈ t₁.elems := by
    rw [helems, Ctx.elems_plug]
    simp [mem_of_top htop]
  cases t₁ with
  | nil => exact absurd hmem List.not_mem_nil
  | node c' l a r =>
      have hroot : s₁.root = some a := hat₁.path
      have hat₂ : At (s₁.setColor a Color.black) [] (branch Dir.left Color.black l a r) :=
        At.setColor (d := Dir.left) hat₁ Color.black
      refine ⟨_, _, ?_, hat₂, helems, ?_⟩
      · rw [rbFixins, hrun, Option.bind_eq_bind, Option.bind_some, hroot, Option.bind_eq_bind,
          Option.bind_some]
      · cases hbal₁ with
        | red hl hr => exact ⟨_, Balanced.black hl hr⟩
        | black hl hr => exact ⟨_, Balanced.black hl hr⟩

/-! ### Linking a node -/

/-- **A new leaf** in an empty place. -/
theorem at_leaf {ctx : Ctx α} {x : α} (hat : At s ctx nil) (hx : x ∉ Ctx.elems ctx) :
    At (((((s.setChild Dir.left x none).setChild Dir.right x none).setParent x (Ctx.par ctx)).setColor
      x Color.red).put (Ctx.link ctx) (some x)) ctx (node Color.red nil x nil) := by
  obtain ⟨hpath, -, hnd⟩ := hat
  have hndc : (Ctx.elems ctx).Nodup := by
    rw [Ctx.elems_plug] at hnd
    simpa [Ctx.elems] using hnd
  have hlink : ∀ e, Ctx.link ctx ≠ some (e, x) := fun e he => hx (Ctx.mem_of_link he)
  refine ⟨hpath.relink hndc (fun a ha => ?_) (fun hne => ?_) (get_put ..), ⟨?_, ?_, ?_, ?_, trivial,
    trivial⟩, ?_⟩
  · have hax : a ≠ x := fun he => hx (he ▸ ha)
    refine ⟨by simp [hax], by simp [hax], fun e he => ?_⟩
    rw [put_child, if_neg he]
    simp [hax]
  · rw [put_root]
    · rfl
    · cases ctx with
      | nil => exact absurd rfl hne
      | cons f ctx => exact Option.some_ne_none _
  · simp
  · simp
  · rw [put_child, if_neg (hlink _)]
    simp
  · rw [put_child, if_neg (hlink _)]
    simp
  · rw [Ctx.elems_plug]
    have hperm : (Ctx.before ctx ++ (node Color.red nil x nil).elems ++ Ctx.after ctx).Perm
        (x :: Ctx.elems ctx) := by
      rw [List.append_assoc]
      exact List.perm_middle
    exact hperm.nodup_iff.2 (List.nodup_cons.2 ⟨hx, hndc⟩)

/-- **Linking a node** at an empty place of a balanced tree: it takes that place in the order. -/
theorem rbInsert_spec {ctx : Ctx α} {x : α} {m : ℕ} (hat : At s ctx nil) (hx : x ∉ Ctx.elems ctx)
    (hbal : Balanced (Ctx.plug ctx nil) Color.black m) (hlen : ctx.length < addrSpace) :
    ∃ s' t', rbInsert s x (Ctx.par ctx) (Ctx.link ctx) = some s' ∧ At s' [] t' ∧
      t'.elems = Ctx.before ctx ++ x :: Ctx.after ctx ∧ ∃ k, Balanced t' Color.black k := by
  obtain ⟨c, n, hfits, hnil⟩ := Ctx.fits_of_balanced hbal
  cases hnil with
  | nil =>
      obtain ⟨s', t', hrun, hat', helems, hbal'⟩ := rbFixins_spec (at_leaf hat hx) rfl
        (Balanced.red Balanced.nil Balanced.nil) hfits hlen
      refine ⟨s', t', hrun, hat', ?_, hbal'⟩
      rw [helems, Ctx.elems_plug]
      simp

/-! ### Vacant places -/

/-- The nodes of a tree without a certain one are fewer than the addresses. -/
theorem length_lt_of_notMem {l : List (Fin (2 ^ 64))} {x : Fin (2 ^ 64)} (hnd : l.Nodup) (hx : x ∉ l) :
    l.length < addrSpace := by
  have hcard := List.Nodup.length_le_card (List.nodup_cons.2 ⟨hx, hnd⟩)
  rwa [Fintype.card_fin] at hcard

/-- A vacant child of a node of the tree, with the parent and the pointer that `rb_insert` takes, or
the pointer to the root of an empty tree. -/
structure Slot (s : Store α) (t : RbTree α) (parent : Option α) (link : Option (Dir × α)) : Prop where
  parent_eq : parent = link.map Prod.snd
  vacant : s.get link = none
  mem : ∀ d a, link = some (d, a) → a ∈ t.elems

/-- The place in the order: right before the parent of a left child, right behind the parent of a
right child. -/
def PlacedAt (link : Option (Dir × α)) (l₁ l₂ : List α) : Prop :=
  match link with
  | none => l₁ = [] ∧ l₂ = []
  | some (Dir.left, a) => l₂.head? = some a
  | some (Dir.right, a) => l₁.getLast? = some a

omit [DecidableEq α] in
/-- A vacant place is an empty subtree at a context. -/
theorem Slot.exists_ctx {t : RbTree α} {parent : Option α} {link : Option (Dir × α)}
    (h : Slot s t parent link) (hat : At s [] t) :
    ∃ ctx, Ctx.plug ctx nil = t ∧ Ctx.par ctx = parent ∧ Ctx.link ctx = link ∧
      PlacedAt link (Ctx.before ctx) (Ctx.after ctx) := by
  obtain ⟨hparent, hvacant, hmem⟩ := h
  cases link with
  | none =>
      have hroot : s.root = t.top := hat.path
      obtain rfl : t = nil := top_eq_none.1 (hroot.symm.trans hvacant)
      exact ⟨[], rfl, hparent.symm, rfl, rfl, rfl⟩
  | some link =>
      obtain ⟨d, a⟩ := link
      obtain ⟨ctx, c, l, r, hplug⟩ := exists_plug (t := t) (a := a) [] (hmem d a rfl)
      have heq : t = Ctx.plug ctx (node c l a r) := hplug
      have hat' : At s ctx (node c l a r) := at_plug.2 (heq ▸ hat)
      obtain ⟨-, -, hl, hr, -, -⟩ := hat'.tree
      cases d with
      | left =>
          obtain rfl : l = nil := top_eq_none.1 (hl.symm.trans hvacant)
          exact ⟨⟨Dir.left, c, a, r⟩ :: ctx, heq.symm, hparent.symm, rfl, rfl⟩
      | right =>
          obtain rfl : r = nil := top_eq_none.1 (hr.symm.trans hvacant)
          refine ⟨⟨Dir.right, c, a, l⟩ :: ctx, heq.symm, hparent.symm, rfl, ?_⟩
          simp [PlacedAt, Ctx.before, List.getLast?_append]

/-- **What `rb_insert` does** with a fresh node and a vacant place: no null pointer is followed, the
node is put at its place in the order, and the tree is a red-black tree again. -/
def Inserts (s : Store α) (t : RbTree α) (x : α) (parent : Option α) (link : Option (Dir × α)) : Prop :=
  ∃ s' t' l₁ l₂, rbInsert s x parent link = some s' ∧ At s' [] t' ∧
    (∃ k, Balanced t' Color.black k) ∧ t.elems = l₁ ++ l₂ ∧ t'.elems = l₁ ++ x :: l₂ ∧ PlacedAt link l₁ l₂

theorem inserts_of_slot {t : RbTree α} {m : ℕ} {x : α} {parent : Option α} {link : Option (Dir × α)}
    (hat : At s [] t) (hbal : Balanced t Color.black m) (hx : x ∉ t.elems) (h : Slot s t parent link)
    (hlen : t.elems.length < addrSpace) : Inserts s t x parent link := by
  obtain ⟨ctx, rfl, rfl, rfl, hplaced⟩ := h.exists_ctx hat
  have helems : (Ctx.plug ctx nil).elems = Ctx.before ctx ++ Ctx.after ctx := by
    rw [Ctx.elems_plug, elems_nil, List.append_nil]
  have hctx : (Ctx.plug ctx nil).elems = Ctx.elems ctx := helems
  obtain ⟨s', t', hrun, hat', helems', hbal'⟩ := rbInsert_spec (at_plug.2 hat) (hctx ▸ hx) hbal
    ((length_le_elems ctx).trans_lt (hctx ▸ hlen))
  exact ⟨s', t', _, _, hrun, hat', hbal', helems, helems', hplaced⟩

/-! ### Trees built by insertions -/

/-- The arguments of `rb_insert`. -/
structure Insertion (α : Type*) where
  node : α
  parent : Option α
  link : Option (Dir × α)

/-- A call of `rb_insert`. -/
def insertStep (s : Store α) (o : Insertion α) : Option (Store α) := rbInsert s o.node o.parent o.link

/-- A fresh node and a vacant place. -/
def Insertion.Valid (s : Store α) (o : Insertion α) : Prop :=
  ∀ t, At s [] t → o.node ∉ t.elems ∧ Slot s t o.parent o.link

/-- A run of insertions into a red-black tree. -/
theorem insertStep_run {ops : List (Insertion (Fin (2 ^ 64)))} :
    ∀ {s : Store (Fin (2 ^ 64))} {t : RbTree (Fin (2 ^ 64))}, At s [] t →
      (∃ k, Balanced t Color.black k) → Run.Along insertStep Insertion.Valid s ops →
      ∃ s' t', Run.exec insertStep s ops = some s' ∧ At s' [] t' ∧ (∃ k, Balanced t' Color.black k) ∧
        t'.elems.length = t.elems.length + ops.length := by
  induction ops with
  | nil => intro s t hat hbal _; exact ⟨s, t, rfl, hat, hbal, rfl⟩
  | cons o ops ih =>
      rintro s t hat ⟨k, hbal⟩ ⟨hvalid, hrest⟩
      obtain ⟨hx, hslot⟩ := hvalid t hat
      obtain ⟨s₁, t₁, l₁, l₂, hrun, hat₁, hbal₁, hold, hnew, -⟩ :=
        inserts_of_slot hat hbal hx hslot (length_lt_of_notMem hat.nodup hx)
      obtain ⟨s', t', hexec, hat', hbal', hlen⟩ := ih hat₁ hbal₁ (hrest s₁ hrun)
      refine ⟨s', t', by rw [Run.exec_cons_of_step ops hrun, hexec], hat', hbal', ?_⟩
      rw [hlen, hnew, hold]
      simp only [List.length_append, List.length_cons]
      omega

/-- **`rb_insert` restores the red-black tree**, at every vacant place of every red-black tree, and a
tree that is built by insertions alone is not deep. -/
theorem rbInsert_restores :
    (∀ (s : Store (Fin (2 ^ 64))) (t : RbTree (Fin (2 ^ 64))) (m : ℕ) (x : Fin (2 ^ 64))
      (parent : Option (Fin (2 ^ 64))) (link : Option (Dir × Fin (2 ^ 64))), At s [] t →
      Balanced t Color.black m → x ∉ t.elems → Slot s t parent link → Inserts s t x parent link) ∧
    ∀ (s : Store (Fin (2 ^ 64))) (ops : List (Insertion (Fin (2 ^ 64)))), s.root = none →
      Run.Along insertStep Insertion.Valid s ops →
      ∃ s' t, Run.exec insertStep s ops = some s' ∧ At s' [] t ∧ (∃ k, Balanced t Color.black k) ∧
        t.elems.length = ops.length ∧ t.depth ≤ 2 * Nat.log2 (ops.length + 1) := by
  refine ⟨fun s t m x parent link hat hbal hx h => inserts_of_slot hat hbal hx h
    (length_lt_of_notMem hat.nodup hx), fun s ops hroot hops => ?_⟩
  have hat : At s [] nil := ⟨hroot, trivial, List.nodup_nil⟩
  obtain ⟨s', t, hexec, hat', ⟨k, hbal'⟩, hlen⟩ := insertStep_run hat ⟨0, Balanced.nil⟩ hops
  rw [elems_nil, List.length_nil, Nat.zero_add] at hlen
  exact ⟨s', t, hexec, hat', ⟨k, hbal'⟩, hlen, hlen ▸ hbal'.depth_le_log⟩

instance (s : Store α) (t : RbTree α) (parent : Option α) (link : Option (Dir × α)) :
    Decidable (Slot s t parent link) :=
  decidable_of_iff (parent = link.map Prod.snd ∧ s.get link = none ∧ ∀ l ∈ link, l.2 ∈ t.elems)
    ⟨fun h => ⟨h.1, h.2.1, fun d a heq => h.2.2 (d, a) heq⟩,
      fun h => ⟨h.parent_eq, h.vacant, fun l hl => h.mem l.1 l.2 hl⟩⟩

/-- The memory holds one of the trees, with the place vacant in it. -/
def Insertion.Checked (trees : List (RbTree α)) (s : Store α) (o : Insertion α) : Prop :=
  ∃ t ∈ trees, At s [] t ∧ o.node ∉ t.elems ∧ Slot s t o.parent o.link

instance (trees : List (RbTree α)) (s : Store α) (o : Insertion α) : Decidable (o.Checked trees s) :=
  inferInstanceAs (Decidable (∃ t ∈ trees, _))

omit [DecidableEq α] in
theorem Insertion.Checked.valid {trees : List (RbTree α)} {o : Insertion α} (h : o.Checked trees s) :
    o.Valid s := by
  obtain ⟨t, -, hat, hx, hslot⟩ := h
  intro t' hat'
  obtain rfl := hat.unique hat'
  exact ⟨hx, hslot⟩

/-- Four nodes in ascending order.  The third one rotates the tree, and the fourth one recolors it. -/
def ascending : List (Insertion (Fin (2 ^ 64))) :=
  [⟨1, none, none⟩, ⟨2, some 1, some (Dir.right, 1)⟩, ⟨3, some 2, some (Dir.right, 2)⟩,
    ⟨4, some 3, some (Dir.right, 3)⟩]

theorem ascending_along :
    Run.Along insertStep Insertion.Valid ⟨none, fun _ _ => none, fun _ => none, fun _ => Color.red⟩ ascending := by
  refine Run.Along.mono (C := Insertion.Checked [nil, node Color.black nil 1 nil,
    node Color.black nil 1 (node Color.red nil 2 nil),
    node Color.black (node Color.red nil 1 nil) 2 (node Color.red nil 3 nil)]) (fun _ _ h => h.valid) ?_
  decide +kernel

/-- The last of these insertions, and all of them. -/
theorem rbInsert_restores_ascending :
    let s : Store (Fin (2 ^ 64)) :=
      { root := some 2
        child := fun d a => if a = 2 then some (if d = Dir.left then 1 else 3) else none
        parent := fun a => if a = 2 then none else some 2
        color := fun a => if a = 2 then Color.black else Color.red }
    Inserts s (node Color.black (node Color.red nil 1 nil) 2 (node Color.red nil 3 nil)) 4 (some 3)
        (some (Dir.right, 3)) ∧
      ∃ s' t, Run.exec insertStep ⟨none, fun _ _ => none, fun _ => none, fun _ => Color.red⟩ ascending = some s' ∧
        At s' [] t ∧ (∃ k, Balanced t Color.black k) ∧ t.elems.length = 4 ∧ t.depth ≤ 2 * Nat.log2 5 := by
  intro s
  have hbal : Balanced (node Color.black (node Color.red nil 1 nil) 2 (node Color.red nil 3 nil) :
      RbTree (Fin (2 ^ 64))) Color.black 1 :=
    Balanced.black (Balanced.red Balanced.nil Balanced.nil) (Balanced.red Balanced.nil Balanced.nil)
  exact ⟨rbInsert_restores.1 s _ 1 4 (some 3) (some (Dir.right, 3)) (by decide) hbal (by decide) (by decide),
    rbInsert_restores.2 _ ascending rfl ascending_along⟩

end Rbtree

end SyncKernel
