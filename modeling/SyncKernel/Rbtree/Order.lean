/-
**Which nodes leave the tree.**

`rb_remove` unbalances the tree at many nodes, but it takes the node out and leaves the others in their
order at most of them.  It follows a null pointer at a black leaf that is a left child or the only
node, and where the sibling of a black leaf on the right has a left child only, because it rotates that
sibling to the right of a child that it does not have.  It loses nodes where it rotates at the node
itself.  Above the lowest nodes every sibling has both children, so that nothing goes wrong there.

Main definitions:

* `Rbtree.Stuck` — the siblings at which the loop of `rb_fixdel` follows a null pointer;
* `Rbtree.Unlinkable` — the nodes that leave the tree.

Main results:

* `Rbtree.fixdelLoop_isSome` — above the lowest nodes the loop follows no null pointer;
* `Rbtree.removeLoop_kept_iff` — **exactly the unlinkable nodes leave the tree**.
-/

import SyncKernel.Rbtree.Remove

set_option relaxedAutoImplicit false
set_option autoImplicit false

namespace SyncKernel

namespace Rbtree

open RbTree Store

variable {α : Type*}

/-- A black sibling of a place on the side `d` that has a red child on the other side only. -/
def Stuck (d : Dir) (u : RbTree α) : Prop :=
  u.rootColor = Color.black ∧ ¬ u.BlackChildren ∧ u.sub d = nil

/-- The nodes that leave the tree when `rb_remove` is called, by the color, the subtrees and the path
above. -/
def Unlinkable (ctx : Ctx α) (c : Color) (l : RbTree α) (_a : α) (r : RbTree α) : Prop :=
  match l, r with
  | nil, nil => c = Color.red ∨ ∃ f ctx', ctx = f :: ctx' ∧ f.dir = Dir.right ∧ ¬ Stuck Dir.right f.sib
  | node .., node .. =>
      FirstFree r ∨ r.sub Dir.left = nil ∧ l.rootColor = Color.black ∧ l.BlackChildren
  | _, _ => True

theorem not_kept_none (l : List α) : ¬ Kept (none : Option (Store α)) l := by
  rintro ⟨s', t', h, -⟩
  cases h

theorem kept_of_at {s : Store α} {ctx : Ctx α} {t : RbTree α} {l : List α} (h : At s ctx t)
    (hl : Ctx.before ctx ++ t.elems ++ Ctx.after ctx = l) : Kept (some s) l :=
  ⟨s, _, rfl, at_plug.1 h, (Ctx.elems_plug ..).trans hl⟩

/-- A run of the loop that follows no null pointer keeps the nodes in order. -/
theorem Outcome.kept_iff {run : Option (Store α)} {ctx : Ctx α} {t : RbTree α} {good : Prop}
    (h : Outcome run ctx t good) :
    Kept run (Ctx.before ctx ++ t.elems ++ Ctx.after ctx) ↔ run.isSome := by
  rcases h with ⟨rfl, -⟩ | ⟨s', ctx', rfl, hat, ⟨-, hb, ha⟩, -⟩
  · exact iff_of_false (not_kept_none _) (fun h => by cases h)
  · exact iff_of_true (kept_of_at hat (by rw [hb, ha])) rfl

/-! ### The loop -/

section Loop

variable [DecidableEq α] {s : Store α} {ctx : Ctx α} {d : Dir} {c : Color} {t u : RbTree α} {x p : α}
  {k : ℕ}

/-- The loop follows no null pointer at the nodes with the given context, if their subtrees have black
nodes. -/
def Runs (ctx : Ctx α) (p : α) : Prop :=
  ∀ {s : Store α} {t : RbTree α} {k : ℕ} (n : ℕ), At s ctx t → t.top = some p →
    Balanced t Color.black (k + 1) → Ctx.Fits ctx Color.black (k + 2) → ctx.length < n →
    (fixdelLoop n s p).isSome

/-- **The loop below a node** follows a null pointer at a stuck sibling, and nowhere else. -/
theorem hole_isSome (hat : At s (⟨d, c, p, u⟩ :: ctx) t) (h : Hole s d x p)
    (hx : t.top = some x ∨ x ∉ (Ctx.plug (⟨d, c, p, u⟩ :: ctx) t).elems)
    (hbal : Balanced t Color.black k)
    (hfits : Ctx.Fits (⟨d, c, p, u⟩ :: ctx) Color.black (k + 1)) (ih : Runs ctx p) (n : ℕ)
    (hn : ctx.length + 1 < n) : (fixdelLoop n s x).isSome ↔ ¬ Stuck d u := by
  obtain ⟨n, rfl⟩ : ∃ m, n = m + 2 := ⟨n - 2, by omega⟩
  cases hcu : u.rootColor with
  | red =>
      obtain ⟨s', u', b, v, hrun, -⟩ := turn_red hat h hx hbal hfits hcu
      rw [hrun]
      exact iff_of_true rfl fun hs => by cases hcu.symm.trans hs.1
  | black =>
      by_cases hblack : u.BlackChildren
      · refine iff_of_true ?_ fun hs => hs.2.1 hblack
        cases hfits with
        | red hs hfits =>
            obtain ⟨s₁, u', hrun, hat₁, -⟩ := turn_recolor hat h hs hblack
            rw [hrun, fixdelLoop_done (Or.inr hat₁.path.2.2.1)]
            rfl
        | black hs hfits =>
            obtain rfl := hs.rootColor_eq.symm.trans hcu
            obtain ⟨s₁, u', hrun, hat₁, -, hbal'⟩ := turn_recolor hat h hs hblack
            rw [hrun]
            exact ih (n + 1) (at_up.1 hat₁) (top_branch ..) (Balanced.branch_black hbal hbal') hfits
              (by omega)
      · obtain ⟨hu, m, hctx⟩ : Balanced u Color.black (k + 1) ∧ ∃ m, Ctx.Fits ctx c m := by
          cases hfits with
          | red hs hfits => exact ⟨hs, _, hfits⟩
          | black hs hfits => exact ⟨hs.rootColor_eq.symm.trans hcu ▸ hs, _, hfits⟩
        rcases turn_bad hat h hx hbal hu hctx hblack with
          ⟨hnil, hnone⟩ | ⟨hne, s', u', b, v, hrun, -⟩
        · rw [hnone]
          exact iff_of_false (fun h => by cases h) fun hs => hs ⟨hcu, hblack, hnil⟩
        · rw [hrun]
          exact iff_of_true rfl fun hs => hne hs.2.2

/-- **The loop at a node with black nodes below** follows no null pointer. -/
theorem fixdelLoop_isSome (ctx : Ctx α) : ∀ p, Runs ctx p := by
  induction ctx with
  | nil =>
      intro x s t k n hat ht _ _ hn
      cases n with
      | zero => exact absurd hn (Nat.not_lt_zero _)
      | succ n =>
          rw [fixdelLoop_done (Or.inl (hat.path.trans ht))]
          rfl
  | cons f ctx ih =>
      intro x s t k n hat ht hbal hfits hn
      refine (hole_isSome hat (hole_of_top hat ht hbal.rootColor_eq) (Or.inl ht) hbal hfits (ih f.elem)
        n (by simpa using hn)).2 fun ⟨hblack, _, hnil⟩ => ?_
      obtain ⟨m, hsib⟩ : ∃ m, Balanced f.sib Color.black (m + 2) := by
        cases hfits with
        | red hs hfits => exact ⟨k, hs⟩
        | black hs hfits => exact ⟨k, hs.rootColor_eq.symm.trans hblack ▸ hs⟩
      obtain ⟨u, a, v, c₁, c₂, heq, hu, hv⟩ := hsib.exists_branch_of_black f.dir
      rw [heq, sub_branch] at hnil
      rw [hnil] at hu
      exact absurd (hu.height_unique Balanced.nil) (Nat.succ_ne_zero _)

end Loop

/-! ### The three cases -/

section Cases

variable [DecidableEq α] {s : Store α} {ctx : Ctx α} {c : Color} {l r : RbTree α} {a x : α} {m n : ℕ}

/-- **A leaf**. -/
theorem removeLeaf_kept_iff (h : At s ctx (node c nil a nil))
    (hbal : Balanced (Ctx.plug ctx (node c nil a nil)) Color.black m)
    (hlen : ctx.length < addrSpace) :
    Kept (removeLeaf s a (Ctx.link ctx)) (Ctx.before ctx ++ Ctx.after ctx) ↔
      Unlinkable ctx c nil a nil := by
  have hlist : Ctx.before ctx ++ (nil : RbTree α).elems ++ Ctx.after ctx =
      Ctx.before ctx ++ Ctx.after ctx := by simp
  have hat := at_unlink h
  obtain ⟨hca, hpa⟩ := unlinked_leaf h
  cases c with
  | red =>
      rw [removeLeaf, hca, if_neg (by simp)]
      exact iff_of_true (kept_of_at hat hlist) (Or.inl rfl)
  | black =>
      have hred : Unlinkable ctx Color.black nil a nil ↔
          ∃ f ctx', ctx = f :: ctx' ∧ f.dir = Dir.right ∧ ¬ Stuck Dir.right f.sib :=
        or_iff_right fun he => by cases he
      rw [hred]
      cases ctx with
      | nil =>
          refine iff_of_false (fun hk => ?_) (by rintro ⟨f, ctx', he, -⟩; cases he)
          rw [removeLeaf, hca, if_pos rfl, rbFixdel, show addrSpace = (addrSpace - 1) + 1 from rfl,
            fixdelLoop_orphan (show (none : Option α) ≠ some a from fun he => by cases he) hca hpa] at hk
          exact not_kept_none _ hk
      | cons f ctx =>
          cases hd : f.dir with
          | left =>
              rw [removeLeaf_left h hd]
              refine iff_of_false (not_kept_none _) ?_
              rintro ⟨f', ctx', he, hd', -⟩
              obtain ⟨rfl, -⟩ := List.cons.inj he
              cases hd.symm.trans hd'
          | right =>
              obtain ⟨d, c', p, u⟩ := f
              obtain rfl : d = Dir.right := hd
              have hx := notMem_unlinked h
              have hole := hole_unlinked hat hx hpa hca
              obtain ⟨c₀, k, hfits, hnode⟩ := Ctx.fits_of_balanced hbal
              cases hnode with
              | black hl hr =>
                  cases hl with
                  | nil =>
                      have hrun := hole_outcome hat hole (Or.inr hx) Balanced.nil hfits
                        (fixdelLoop_outcome ctx p) addrSpace (by simpa using hlen)
                      have hsome := hole_isSome hat hole (Or.inr hx) Balanced.nil hfits
                        (fixdelLoop_isSome ctx p) addrSpace (by simpa using hlen)
                      rw [removeLeaf, hca, if_pos rfl, rbFixdel, ← hlist, hrun.kept_iff, hsome]
                      constructor
                      · intro hstuck
                        exact ⟨_, _, rfl, rfl, hstuck⟩
                      · rintro ⟨f', ctx', he, -, hstuck⟩
                        obtain ⟨rfl, -⟩ := List.cons.inj he
                        exact hstuck

/-- **A node whose successor is its right child, a black leaf**, leaves the tree when its left child is
black and has no red child. -/
theorem removeLoop_right_kept_iff (h : At s ctx (node c l a (node Color.black nil x nil)))
    (hl : l ≠ nil)
    (hbal : Balanced (Ctx.plug ctx (node c l a (node Color.black nil x nil))) Color.black m)
    (hlen : ctx.length + 1 < addrSpace) :
    Kept (removeLoop (n + 2) s a) (Ctx.before ctx ++ (l.elems ++ [x]) ++ Ctx.after ctx) ↔
      l.rootColor = Color.black ∧ l.BlackChildren := by
  by_cases hgood : l.rootColor = Color.black ∧ l.BlackChildren
  · refine iff_of_true ?_ hgood
    obtain ⟨hcl, hblack⟩ := hgood
    obtain ⟨hat, hole, hnot, hfits⟩ := hole_right h hbal
    obtain ⟨u', helems, hout, hnot'⟩ := removeLoop_right_good h hbal hlen hcl hblack
    have hsome := (hole_isSome hat hole (Or.inr hnot) Balanced.nil hfits (fixdelLoop_isSome ctx a)
      addrSpace hlen).2 fun hs => hs.2.1 hblack
    rw [removeLoop_right_eq h hl]
    rcases hout with ⟨hnone, -⟩ | ⟨s', ctx', hrun, hat', ⟨hlink, hb, ha⟩, -⟩
    · rw [hnone] at hsome
      cases hsome
    · rw [hrun, Option.bind_some, ← hlink]
      exact kept_of_at (at_replaceNode hat' (hnot' hb ha)) (by rw [hb, ha, elems_node, helems]; rfl)
  · exact iff_of_false (removeLoop_right_bad h hl hbal hgood) hgood

/-- **Exactly the unlinkable nodes** leave the tree. -/
theorem removeLoop_kept_iff (h : At s ctx (node c l a r))
    (hbal : Balanced (Ctx.plug ctx (node c l a r)) Color.black m)
    (hlen : (Ctx.plug ctx (node c l a r)).elems.length ≤ addrSpace) :
    Kept (removeLoop (n + 2) s a) (Ctx.before ctx ++ (l.elems ++ r.elems) ++ Ctx.after ctx) ↔
      Unlinkable ctx c l a r := by
  have hctx := length_le_elems ctx
  have hlen' := hlen
  rw [(Ctx.elems_plug_perm _ _).length_eq, elems_node, List.length_append, List.length_append,
    List.length_cons] at hlen'
  cases l with
  | nil =>
      cases r with
      | nil =>
          rw [removeLoop_leaf h, elems_nil, List.append_nil, List.append_nil]
          exact removeLeaf_kept_iff h hbal (by omega)
      | node c' l' b r' =>
          exact iff_of_true ((removeLoop_iff h hbal hlen).2 trivial).kept trivial
  | node cl ll bl rl =>
      cases r with
      | nil => exact iff_of_true ((removeLoop_iff h hbal hlen).2 trivial).kept trivial
      | node c' l' b r' =>
          have hl : node cl ll bl rl ≠ nil := fun he => by cases he
          rw [Unlinkable]
          generalize hll : node cl ll bl rl = l at *
          obtain ⟨path, cx, x, rx, hr, hleft, hfree, hsub⟩ :=
            exists_first (by simp : node c' l' b r' ≠ nil)
          rw [hfree, hsub]
          rw [hr] at h hbal hlen hlen' ⊢
          by_cases hf : cx = Color.red ∨ rx ≠ nil
          · exact iff_of_true (removeLoop_free h hl hleft hbal (by omega) hf).kept (Or.inl hf)
          · rw [or_iff_right hf]
            obtain ⟨hcx, hrx⟩ := not_or.1 hf
            obtain rfl : rx = nil := not_not.1 hrx
            obtain rfl : cx = Color.black := by
              cases cx with
              | red => exact absurd rfl hcx
              | black => rfl
            by_cases hpath : path = []
            · subst hpath
              rw [and_iff_right rfl]
              exact removeLoop_right_kept_iff h hl hbal (by
                have hpos : 0 < l.elems.length := by
                  rw [← hll, elems_node, List.length_append, List.length_cons]
                  omega
                have hone : (Ctx.plug [] (node Color.black nil x nil)).elems.length = 1 := rfl
                rw [hone] at hlen'
                omega)
            · rw [removeLoop_left h hl hleft hpath (by omega)]
              exact iff_of_false (not_kept_none _) fun hg => hpath hg.1

end Cases

end Rbtree

end SyncKernel
