/-
**Removing an area** (`mm/vma.c`).

`vma_free_area` and `vma_remove_by_addr` search the area of an address, take its node out of the tree
and free its structure.  They differ where no area contains the address: `vma_search` returns
`VMA_INVALID_PTR`, which `vma_free_area` looks for; `vma_remove` looks for a null pointer, and
`rb_remove` is called with the node inside the error pointer.  Where there is an area, both depend on
`rb_remove`.

A call of `kslab_free` for `vma_cache` is recorded by its argument.

Main definitions:

* `Vma.vmaRemove`, `Vma.vmaRemoveByAddr`, `Vma.vmaFreeArea`;
* `Vma.RemovesArea` — the area of an address leaves the region;
* `Vma.RemovalsAgree` — **both removals do so**.

Main results:

* `Vma.vmaFreeArea_found`, `Vma.vmaRemoveByAddr_found` — both remove the node of the area that they find;
* `Vma.removalsAgree_iff` — **when the two removals agree**.
-/

import SyncKernel.Rbtree.Order
import SyncKernel.Vma.Tree

set_option relaxedAutoImplicit false
set_option autoImplicit false

namespace SyncKernel

namespace Vma

open RbTree Store Rbtree

/-! ### The two removals -/

/-- `VMA_INVALID_PTR`. -/
def vmaInvalidPtr : ℕ := 2 ^ 64 - 1

/-- `rb_remove` of the node in the structure `vma`, which `kslab_free` gets then: the region and the
structures that are freed. -/
def removeNode (R : VmaRegion) (vma : ℕ) : Option (VmaRegion × List ℕ) := do
  let (_, tree) ← rbRemove R.rTree vma
  some ({ R with rTree := tree }, [vma])

/-- `vma_remove`.  The node inside `VMA_INVALID_PTR` is not in memory. -/
def vmaRemove (R : VmaRegion) (vma : ℕ) : Option (VmaRegion × List ℕ) :=
  if vma = 0 then some (R, [])
  else if vma = vmaInvalidPtr then none
  else removeNode R vma

/-- `vma_remove_by_addr`. -/
def vmaRemoveByAddr (R : VmaRegion) (addr : ℕ) : Option (VmaRegion × List ℕ) := do
  let v := (← vmaSearch R addr).getD vmaInvalidPtr
  vmaRemove R v

/-- `vma_free_area`. -/
def vmaFreeArea (R : VmaRegion) (addr : ℕ) : Option (VmaRegion × List ℕ) := do
  let vma := (← vmaSearch R addr).getD vmaInvalidPtr
  if vma = vmaInvalidPtr then some (R, []) else removeNode R vma

/-- A removal does what it should at an address: the area that contains it leaves the tree, the others
stay in order, and its structure is freed; without such an area nothing changes. -/
structure RemovesArea (R : VmaRegion) (l : List ℕ) (addr : ℕ)
    (run : Option (VmaRegion × List ℕ)) : Prop where
  found : ∀ a ∈ l, R.Contains a addr → ∃ tree t, run = some ({ R with rTree := tree }, [a]) ∧
    At tree [] t ∧ t.elems = l.erase a
  missing : (∀ a ∈ l, ¬ R.Contains a addr) → run = some (R, [])

/-- **The two removals agree** at an address: they have the same effect, and it is the right one. -/
def RemovalsAgree (R : VmaRegion) (l : List ℕ) (addr : ℕ) : Prop :=
  vmaRemoveByAddr R addr = vmaFreeArea R addr ∧ RemovesArea R l addr (vmaFreeArea R addr)

/-! ### What the search finds -/

section Found

variable {R : VmaRegion} {addr a : ℕ}

theorem vmaFreeArea_found (h : vmaSearch R addr = some (some a)) (ha : a ≠ vmaInvalidPtr) :
    vmaFreeArea R addr = removeNode R a := by
  rw [vmaFreeArea, h]
  exact if_neg ha

theorem vmaRemoveByAddr_found (h : vmaSearch R addr = some (some a)) (h0 : 0 < a)
    (ha : a ≠ vmaInvalidPtr) : vmaRemoveByAddr R addr = removeNode R a := by
  rw [vmaRemoveByAddr, h]
  exact (if_neg (Nat.ne_of_gt h0)).trans (if_neg ha)

theorem vmaFreeArea_missing (h : vmaSearch R addr = some none) :
    vmaFreeArea R addr = some (R, []) := by
  rw [vmaFreeArea, h]
  rfl

/-- **Without an area** `vma_remove_by_addr` calls `rb_remove` with the error pointer. -/
theorem vmaRemoveByAddr_missing (h : vmaSearch R addr = some none) : vmaRemoveByAddr R addr = none := by
  rw [vmaRemoveByAddr, h]
  rfl

end Found

/-! ### The removals agree -/

section Agree

variable {R : VmaRegion} {t : RbTree ℕ} {ctx : Ctx ℕ} {c : Color} {l r : RbTree ℕ} {a : ℕ}

/-- **The node of an area** leaves the tree when it is unlinkable. -/
theorem removeNode_iff (hat : At R.rTree [] t) {m : ℕ} (hbal : Balanced t Color.black m)
    (hlen : t.elems.length < addrSpace) (ht : Ctx.plug ctx (node c l a r) = t) :
    (∃ tree t', removeNode R a = some ({ R with rTree := tree }, [a]) ∧ At tree [] t' ∧
      t'.elems = t.elems.erase a) ↔ Unlinkable ctx c l a r := by
  subst ht
  rw [← removeLoop_kept_iff (at_plug.2 hat) hbal hlen.le (n := addrSpace - 2),
    elems_erase (hat.nodup : (Ctx.plug ctx (node c l a r)).elems.Nodup), Kept,
    show addrSpace - 2 + 2 = addrSpace from rfl]
  have hrun : ∀ tree, removeNode R a = some ({ R with rTree := tree }, [a]) ↔
      removeLoop addrSpace R.rTree a = some tree := by
    intro tree
    unfold removeNode rbRemove
    cases removeLoop addrSpace R.rTree a with
    | none => exact iff_of_false (fun h => by cases h) (fun h => by cases h)
    | some s =>
        constructor
        · intro h
          have heq := (Prod.mk.inj (Option.some_inj.1 h)).1
          exact congrArg some (congrArg VmaRegion.rTree heq)
        · intro h
          rw [← Option.some_inj.1 h]
          rfl
  simp only [hrun]

/-- **When the two removals agree** on a well-formed region: exactly when an area contains the address
and its node leaves the tree. -/
theorem removalsAgree_iff {lo hi : ℕ} (hat : At R.rTree [] t) (h : WellFormed R lo hi t.elems)
    (hinv : vmaInvalidPtr ∉ t.elems) (addr : ℕ) :
    RemovalsAgree R t.elems addr ↔ ∃ ctx c l a r, Ctx.plug ctx (node c l a r) = t ∧
      R.Contains a addr ∧ Unlinkable ctx c l a r := by
  obtain ⟨t', m, hat', hbal, -⟩ := h.holds.tree
  obtain rfl : t = t' := hat.unique hat'
  have hle : ∀ a ∈ t.elems, (R.vma a).vmStart ≤ (R.vma a).vmEnd := fun a ha =>
    h.ordered.le _ (List.mem_map_of_mem ha)
  have hlen := h.holds.length_lt
  constructor
  · rintro ⟨hsame, hremoves⟩
    by_cases hex : ∃ a ∈ t.elems, R.Contains a addr
    · obtain ⟨a, ha, hc⟩ := hex
      obtain ⟨ctx, c, l, r, hplug⟩ := exists_plug [] ha
      have hne : a ≠ vmaInvalidPtr := fun he => hinv (he ▸ ha)
      have hfound := hremoves.found a ha hc
      rw [vmaFreeArea_found (vmaSearch_spec h ha hc.1 hc.2) hne] at hfound
      exact ⟨ctx, c, l, a, r, hplug.symm, hc, (removeNode_iff hat hbal hlen hplug.symm).1 hfound⟩
    · have hnone : vmaSearch R addr = some none := by
        have hroot : R.rTree.root = t.top := hat.path
        rw [vmaSearch, hroot]
        exact searchLoop_none hat.tree hlen hle fun a ha hc => hex ⟨a, ha, hc⟩
      rw [vmaRemoveByAddr_missing hnone, vmaFreeArea_missing hnone] at hsame
      cases hsame
  · rintro ⟨ctx, c, l, a, r, hplug, hc, hun⟩
    have ha : a ∈ t.elems := by
      rw [← hplug, (Ctx.elems_plug_perm _ _).mem_iff]
      simp
    have hne : a ≠ vmaInvalidPtr := fun he => hinv (he ▸ ha)
    have hsearch := vmaSearch_spec h ha hc.1 hc.2
    rw [RemovalsAgree, vmaRemoveByAddr_found hsearch (h.holds.ptr a ha).1 hne,
      vmaFreeArea_found hsearch hne]
    refine ⟨rfl, fun b hb hcb => ?_, fun hno => absurd hc (hno a ha)⟩
    obtain rfl : a = b :=
      Option.some_inj.1 (Option.some_inj.1 (hsearch.symm.trans (vmaSearch_spec h hb hcb.1 hcb.2)))
    exact (removeNode_iff hat hbal hlen hplug).2 hun

/-- The last of the three pages is removed. -/
theorem removalsAgree_last : RemovalsAgree threePages threePagesTree.elems 0x3800 :=
  (removalsAgree_iff threePages_at threePages_wellFormed (by decide) 0x3800).2
    ⟨[⟨Dir.right, Color.black, 2, node Color.black nil 1 nil⟩], Color.black, nil, 3, nil, rfl,
      ⟨by decide, by decide⟩, Or.inr ⟨_, _, rfl, rfl, fun hs => hs.2.1 ⟨rfl, rfl⟩⟩⟩

/-- Behind the three pages the removals do not agree. -/
theorem removals_differ : ¬ RemovalsAgree threePages threePagesTree.elems 0x4000 := by
  rintro ⟨hsame, -⟩
  have hdiffer : (vmaRemoveByAddr threePages 0x4000).isSome ≠
      (vmaFreeArea threePages 0x4000).isSome := by decide +kernel
  exact hdiffer (congrArg Option.isSome hsame)

end Agree

end Vma

end SyncKernel
