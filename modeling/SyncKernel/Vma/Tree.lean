/-
**The tree of areas.**

The areas of a region are in order, so the descent of `vma_insert` ends at the one place where a new
area keeps them in order, and the descent of `vma_search` ends at the area of an address.

Main definitions:

* `Vma.VmaRegion.span` — the addresses of an area;
* `Vma.Holds` — the tree holds a list of areas;
* `Vma.WellFormed` — **the invariant**: the areas are in order, inside the region and page-aligned.

Main results:

* `Vma.vmaInsert_spec` — **inserting an area** where there is room;
* `Vma.vmaInsert_rejects` — `vmaInsert` refuses the areas that overlap another one, and no others;
* `Vma.vmaSearch_decides` — **searching an address**, inside an area or not.
-/

import SyncKernel.Lib.Gaps
import SyncKernel.Lib.Chain
import SyncKernel.Rbtree.Insert
import SyncKernel.Rbtree.Walk
import SyncKernel.Vma.Basic

set_option relaxedAutoImplicit false
set_option autoImplicit false

namespace SyncKernel

namespace Vma

open RbTree Store Rbtree

/-! ### Well-formed regions -/

/-- The start and the end of an area. -/
def VmaRegion.span (R : VmaRegion) (a : ℕ) : ℕ × ℕ := ((R.vma a).vmStart, (R.vma a).vmEnd)

/-- The tree is a red-black tree that holds the areas of the list, in this order. -/
structure Holds (R : VmaRegion) (l : List ℕ) : Prop where
  tree : ∃ t k, At R.rTree [] t ∧ Balanced t Color.black k ∧ t.elems = l
  ptr : ∀ a ∈ l, 0 < a ∧ a < 2 ^ 64

/-- **A well-formed region**: the areas of the tree are page-aligned, inside the bounds, and each one
ends before the next one starts. -/
structure WellFormed (R : VmaRegion) (lo hi : ℕ) (l : List ℕ) : Prop where
  holds : Holds R l
  ordered : Gaps.Ordered lo hi (l.map R.span)
  aligned : ∀ a ∈ l, 4096 ∣ (R.vma a).vmStart ∧ 4096 ∣ (R.vma a).vmEnd

/-- There are fewer areas than addresses. -/
theorem length_lt_of_ptr {l : List ℕ} (hnd : l.Nodup) (hptr : ∀ a ∈ l, 0 < a ∧ a < 2 ^ 64) :
    l.length < addrSpace := by
  have hnd' : (0 :: l).Nodup :=
    List.nodup_cons.2 ⟨fun h0 => absurd (hptr 0 h0).1 (Nat.lt_irrefl 0), hnd⟩
  have hle := length_le_of_nodup_of_lt (n := 2 ^ 64) hnd' fun a ha => by
    rcases List.mem_cons.1 ha with rfl | ha
    · decide
    · exact (hptr a ha).2
  rw [List.length_cons] at hle
  exact hle

namespace Holds

variable {R : VmaRegion} {l : List ℕ}

theorem nodup (h : Holds R l) : l.Nodup := by
  obtain ⟨t, k, hat, -, rfl⟩ := h.tree
  exact hat.nodup

theorem length_lt (h : Holds R l) : l.length < addrSpace := length_lt_of_ptr h.nodup h.ptr

end Holds

/-! ### Inserting -/

section Insert

variable {R : VmaRegion} {v : KernelVma}

theorem findPlace_nil {n : ℕ} {ctx : Ctx ℕ} (hat : At R.rTree ctx nil) :
    findPlace R v (n + 1) (Ctx.par ctx) (Ctx.link ctx) = some (some (Ctx.par ctx, Ctx.link ctx)) := by
  rw [findPlace, hat.path.get_link, top_nil]

/-- A turn of the descent of `vma_insert`. -/
theorem findPlace_node {n a : ℕ} {ctx : Ctx ℕ} {c : Color} {l r : RbTree ℕ}
    (hat : At R.rTree ctx (node c l a r)) :
    findPlace R v (n + 1) (Ctx.par ctx) (Ctx.link ctx) =
      if v.vmEnd ≤ (R.vma a).vmStart then
        findPlace R v n (Ctx.par (⟨Dir.left, c, a, r⟩ :: ctx)) (Ctx.link (⟨Dir.left, c, a, r⟩ :: ctx))
      else if v.vmStart ≥ (R.vma a).vmEnd then
        findPlace R v n (Ctx.par (⟨Dir.right, c, a, l⟩ :: ctx)) (Ctx.link (⟨Dir.right, c, a, l⟩ :: ctx))
      else some none := by
  rw [findPlace, hat.path.get_link, top_node]
  rfl

/-- **The descent of `vma_insert`** to the place between the areas that end before the new one starts
and those that start behind its end. -/
theorem findPlace_spec {t : RbTree ℕ} :
    ∀ {n : ℕ} {ctx : Ctx ℕ}, At R.rTree ctx t → t.elems.length < n →
      (∀ a ∈ t.elems, (R.vma a).vmStart ≤ (R.vma a).vmEnd) →
      (t.elems.Pairwise fun a b => (R.vma a).vmEnd ≤ (R.vma b).vmStart) →
      (∀ a ∈ t.elems, v.vmEnd ≤ (R.vma a).vmStart ∨ (R.vma a).vmEnd ≤ v.vmStart) →
      ∃ ctx' l₁ l₂, findPlace R v n (Ctx.par ctx) (Ctx.link ctx) =
          some (some (Ctx.par ctx', Ctx.link ctx')) ∧ Ctx.plug ctx' nil = Ctx.plug ctx t ∧
        t.elems = l₁ ++ l₂ ∧ Ctx.before ctx' = Ctx.before ctx ++ l₁ ∧
        Ctx.after ctx' = l₂ ++ Ctx.after ctx ∧ (∀ a ∈ l₁, (R.vma a).vmEnd ≤ v.vmStart) ∧
        ∀ a ∈ l₂, v.vmEnd ≤ (R.vma a).vmStart := by
  induction t with
  | nil =>
      intro n ctx hat hn _ _ _
      cases n with
      | zero => exact absurd hn (Nat.not_lt_zero _)
      | succ n =>
          refine ⟨ctx, [], [], ?_, rfl, rfl, by simp, by simp, by simp, by simp⟩
          exact findPlace_nil hat
  | node c l a r ihl ihr =>
      intro n ctx hat hn hle hsorted hfree
      rw [elems_node] at hle hsorted hfree
      obtain ⟨hsl, hsr, hcross⟩ := List.pairwise_append.1 hsorted
      obtain ⟨har, hsr⟩ := List.pairwise_cons.1 hsr
      have ha := hle a (by simp)
      cases n with
      | zero => exact absurd hn (Nat.not_lt_zero _)
      | succ n =>
          rw [elems_node, List.length_append, List.length_cons] at hn
          rw [findPlace_node hat]
          by_cases hlt : v.vmEnd ≤ (R.vma a).vmStart
          · rw [if_pos hlt]
            obtain ⟨ctx', l₁, l₂, hrun, hplug, hl, hbefore, hafter, h₁, h₂⟩ :=
              ihl (n := n) (show At R.rTree (⟨Dir.left, c, a, r⟩ :: ctx) l from at_up.2 hat) (by omega)
                (fun b hb => hle b (by simp [hb])) hsl fun b hb => hfree b (by simp [hb])
            refine ⟨ctx', l₁, l₂ ++ a :: r.elems, hrun, hplug, ?_, ?_, ?_, h₁, fun b hb => ?_⟩
            · rw [elems_node, hl, List.append_assoc]
            · rw [hbefore]
              simp [Ctx.before]
            · rw [hafter]
              simp [Ctx.after]
            · rcases List.mem_append.1 hb with hb | hb
              · exact h₂ b hb
              · rcases List.mem_cons.1 hb with rfl | hb
                · exact hlt
                · have hab := har b hb
                  omega
          · have hge := (hfree a (by simp)).resolve_left hlt
            rw [if_neg hlt, if_pos hge]
            obtain ⟨ctx', l₁, l₂, hrun, hplug, hl, hbefore, hafter, h₁, h₂⟩ :=
              ihr (n := n) (show At R.rTree (⟨Dir.right, c, a, l⟩ :: ctx) r from at_up.2 hat) (by omega)
                (fun b hb => hle b (by simp [hb])) hsr fun b hb => hfree b (by simp [hb])
            refine ⟨ctx', l.elems ++ a :: l₁, l₂, hrun, hplug, ?_, ?_, ?_, fun b hb => ?_, h₂⟩
            · rw [elems_node, hl, List.append_assoc, List.cons_append]
            · rw [hbefore]
              simp [Ctx.before]
            · rw [hafter]
              simp [Ctx.after]
            · rcases List.mem_append.1 hb with hb | hb
              · have hba := hcross b hb a (by simp)
                omega
              · rcases List.mem_cons.1 hb with rfl | hb
                · exact hge
                · exact h₁ b hb

/-- The place of a new area that meets none of the tree, and the tree with it. -/
theorem vmaInsert_free {p : ℕ} {l : List ℕ} (h : Holds R l) (hp : p ∉ l) (hptr : 0 < p ∧ p < 2 ^ 64)
    (hle : ∀ a ∈ l, (R.vma a).vmStart ≤ (R.vma a).vmEnd)
    (hsorted : l.Pairwise fun a b => (R.vma a).vmEnd ≤ (R.vma b).vmStart)
    (hfree : ∀ a ∈ l, (R.vma p).vmEnd ≤ (R.vma a).vmStart ∨ (R.vma a).vmEnd ≤ (R.vma p).vmStart) :
    ∃ t l₁ l₂, vmaInsert R p = some (0, { R with rTree := t }) ∧ l = l₁ ++ l₂ ∧
      Holds { R with rTree := t } (l₁ ++ p :: l₂) ∧ (∀ a ∈ l₁, (R.vma a).vmEnd ≤ (R.vma p).vmStart) ∧
      ∀ a ∈ l₂, (R.vma p).vmEnd ≤ (R.vma a).vmStart := by
  obtain ⟨t, k, hat, hbal, helems⟩ := h.tree
  have hlen := h.length_lt
  obtain ⟨ctx, l₁, l₂, hrun, hplug, hl, hbefore, hafter, h₁, h₂⟩ :=
    findPlace_spec (v := R.vma p) hat (by rw [helems]; exact hlen) (fun a ha => hle a (helems ▸ ha))
      (helems ▸ hsorted) fun a ha => hfree a (helems ▸ ha)
  rw [helems] at hl
  have helemsc : Ctx.elems ctx = l := by
    rw [Ctx.elems, hbefore, hafter, hl]
    simp [Ctx.before, Ctx.after]
  have hat' : At R.rTree ctx nil := at_plug.2 (by rw [hplug]; exact hat)
  obtain ⟨s', t', hins, hat'', helems', k', hbal'⟩ := rbInsert_spec hat' (helemsc ▸ hp)
    (by rw [hplug]; exact hbal) ((length_le_elems ctx).trans_lt (helemsc ▸ hlen))
  have hlist : t'.elems = l₁ ++ p :: l₂ := by
    rw [helems', hbefore, hafter]
    simp [Ctx.before, Ctx.after]
  refine ⟨s', l₁, l₂, ?_, hl, ⟨⟨t', k', hat'', hbal', hlist⟩, fun a ha => ?_⟩, h₁, h₂⟩
  · have hfind : findPlace R (R.vma p) addrSpace none none =
        some (some (Ctx.par ctx, Ctx.link ctx)) := hrun
    simp only [vmaInsert, hfind, Option.bind_eq_bind, Option.bind_some, hins]
  · rcases List.mem_append.1 ha with ha | ha
    · exact h.ptr a (by rw [hl]; exact List.mem_append_left _ ha)
    · rcases List.mem_cons.1 ha with rfl | ha
      · exact hptr
      · exact h.ptr a (by rw [hl]; exact List.mem_append_right _ ha)

/-- A list of areas in order with a new one at its place. -/
theorem pairwise_insert {p : ℕ} {l l₁ l₂ : List ℕ}
    (hsorted : l.Pairwise fun a b => (R.vma a).vmEnd ≤ (R.vma b).vmStart) (hl : l = l₁ ++ l₂)
    (h₁ : ∀ a ∈ l₁, (R.vma a).vmEnd ≤ (R.vma p).vmStart)
    (h₂ : ∀ a ∈ l₂, (R.vma p).vmEnd ≤ (R.vma a).vmStart) :
    (l₁ ++ p :: l₂).Pairwise fun a b => (R.vma a).vmEnd ≤ (R.vma b).vmStart := by
  rw [hl, List.pairwise_append] at hsorted
  obtain ⟨hs₁, hs₂, hs₁₂⟩ := hsorted
  refine List.pairwise_append.2 ⟨hs₁, List.pairwise_cons.2 ⟨h₂, hs₂⟩, fun a ha b hb => ?_⟩
  rcases List.mem_cons.1 hb with rfl | hb
  · exact h₁ a ha
  · exact hs₁₂ a ha b hb

/-- **Inserting an area** that meets none of the tree: it is linked at its place, and the result of
`vma_insert` is never `-1`. -/
theorem vmaInsert_spec {lo hi p : ℕ} {l : List ℕ} (h : WellFormed R lo hi l) (hp : p ∉ l)
    (hptr : 0 < p ∧ p < 2 ^ 64) (hlo : lo ≤ (R.vma p).vmStart)
    (hle : (R.vma p).vmStart ≤ (R.vma p).vmEnd) (hhi : (R.vma p).vmEnd ≤ hi)
    (haligned : 4096 ∣ (R.vma p).vmStart ∧ 4096 ∣ (R.vma p).vmEnd)
    (hfree : ∀ a ∈ l, (R.vma p).vmEnd ≤ (R.vma a).vmStart ∨ (R.vma a).vmEnd ≤ (R.vma p).vmStart) :
    ∃ t l₁ l₂, vmaInsert R p = some (0, { R with rTree := t }) ∧ l = l₁ ++ l₂ ∧
      WellFormed { R with rTree := t } lo hi (l₁ ++ p :: l₂) := by
  have hsorted := List.pairwise_map.1 h.ordered.pairwise
  obtain ⟨t, l₁, l₂, hrun, hl, hholds, h₁, h₂⟩ := vmaInsert_free h.holds hp hptr
    (fun a ha => h.ordered.le _ (List.mem_map_of_mem ha)) hsorted hfree
  have hmem : ∀ a, a ∈ l₁ ++ p :: l₂ ↔ a = p ∨ a ∈ l := by
    intro a
    rw [hl]
    simp only [List.mem_append, List.mem_cons]
    tauto
  refine ⟨t, l₁, l₂, hrun, hl, hholds, ?_, fun a ha => ?_⟩
  · have hspan : ∀ i ∈ (l₁ ++ p :: l₂).map R.span, i = R.span p ∨ i ∈ l.map R.span := by
      intro i hi
      obtain ⟨a, ha, rfl⟩ := List.mem_map.1 hi
      rcases (hmem a).1 ha with rfl | ha
      · exact Or.inl rfl
      · exact Or.inr (List.mem_map_of_mem ha)
    refine Gaps.ordered_of_pairwise (fun i hi => ?_) (fun i hi => ?_) (fun i hi => ?_)
      (List.pairwise_map.2 (pairwise_insert hsorted hl h₁ h₂))
    · rcases hspan i hi with rfl | hi
      · exact hlo
      · exact h.ordered.lo_le i hi
    · rcases hspan i hi with rfl | hi
      · exact hle
      · exact h.ordered.le i hi
    · rcases hspan i hi with rfl | hi
      · exact hhi
      · exact h.ordered.le_hi i hi
  · rcases (hmem a).1 ha with rfl | ha
    · exact haligned
    · exact h.aligned a ha

/-- **The descent of `vma_insert`** meets any area that overlaps the new one. -/
theorem findPlace_reject {t : RbTree ℕ} :
    ∀ {n : ℕ} {ctx : Ctx ℕ} {b : ℕ}, At R.rTree ctx t → t.elems.length < n →
      (∀ a ∈ t.elems, (R.vma a).vmStart < (R.vma a).vmEnd) →
      (t.elems.Pairwise fun a b => (R.vma a).vmEnd ≤ (R.vma b).vmStart) → b ∈ t.elems →
      v.vmStart < (R.vma b).vmEnd → (R.vma b).vmStart < v.vmEnd →
      findPlace R v n (Ctx.par ctx) (Ctx.link ctx) = some none := by
  induction t with
  | nil => intro n ctx b _ _ _ _ hb; exact absurd hb List.not_mem_nil
  | node c l a r ihl ihr =>
      intro n ctx b hat hn hlt hsorted hb hstart hend
      rw [elems_node] at hlt hsorted hb
      obtain ⟨hsl, hsr, hcross⟩ := List.pairwise_append.1 hsorted
      obtain ⟨har, hsr⟩ := List.pairwise_cons.1 hsr
      have ha := hlt a (by simp)
      cases n with
      | zero => exact absurd hn (Nat.not_lt_zero _)
      | succ n =>
          rw [elems_node, List.length_append, List.length_cons] at hn
          rw [findPlace_node hat]
          by_cases hleft : v.vmEnd ≤ (R.vma a).vmStart
          · rw [if_pos hleft]
            -- what overlaps the new area is on the left of this one
            have hbl : b ∈ l.elems := by
              rcases List.mem_append.1 hb with hb | hb
              · exact hb
              · rcases List.mem_cons.1 hb with rfl | hb
                · omega
                · have hab := har b hb
                  omega
            exact ihl (n := n) (show At R.rTree (⟨Dir.left, c, a, r⟩ :: ctx) l from at_up.2 hat) (by omega)
              (fun d hd => hlt d (by simp [hd])) hsl hbl hstart hend
          · rw [if_neg hleft]
            by_cases hright : v.vmStart ≥ (R.vma a).vmEnd
            · rw [if_pos hright]
              have hbr : b ∈ r.elems := by
                rcases List.mem_append.1 hb with hb | hb
                · have hba := hcross b hb a (by simp)
                  omega
                · rcases List.mem_cons.1 hb with rfl | hb
                  · omega
                  · exact hb
              exact ihr (n := n) (show At R.rTree (⟨Dir.right, c, a, l⟩ :: ctx) r from at_up.2 hat) (by omega)
                (fun d hd => hlt d (by simp [hd])) hsr hbr hstart hend
            · rw [if_neg hright]

end Insert

/-! ### Overlaps -/

/-- The address is one of the area. -/
def VmaRegion.Contains (R : VmaRegion) (a addr : ℕ) : Prop :=
  (R.vma a).vmStart ≤ addr ∧ addr < (R.vma a).vmEnd

instance (R : VmaRegion) (a addr : ℕ) : Decidable (R.Contains a addr) := inferInstanceAs (Decidable (_ ∧ _))

/-- The areas have an address in common. -/
def VmaRegion.Overlap (R : VmaRegion) (a b : ℕ) : Prop := ∃ addr, R.Contains a addr ∧ R.Contains b addr

theorem overlap_iff {R : VmaRegion} {a b : ℕ} (ha : (R.vma a).vmStart < (R.vma a).vmEnd)
    (hb : (R.vma b).vmStart < (R.vma b).vmEnd) :
    R.Overlap a b ↔ (R.vma a).vmStart < (R.vma b).vmEnd ∧ (R.vma b).vmStart < (R.vma a).vmEnd := by
  constructor
  · rintro ⟨addr, ⟨h₁, h₂⟩, h₃, h₄⟩
    exact ⟨by omega, by omega⟩
  · rintro ⟨h₁, h₂⟩
    exact ⟨max (R.vma a).vmStart (R.vma b).vmStart, ⟨by omega, by omega⟩, by omega, by omega⟩

/-- **Exactly the overlaps are refused.**  In a red-black tree of non-empty areas in order, a new area
that overlaps one of them is refused and the tree stays as it is; any other one is inserted at its
place in the order. -/
theorem vmaInsert_rejects {R : VmaRegion} {l : List ℕ} {p : ℕ} (h : Holds R l)
    (hlt : ∀ a ∈ l, (R.vma a).vmStart < (R.vma a).vmEnd)
    (hsorted : l.Pairwise fun a b => (R.vma a).vmEnd ≤ (R.vma b).vmStart) (hp : p ∉ l)
    (hptr : 0 < p ∧ p < 2 ^ 64) (hnew : (R.vma p).vmStart < (R.vma p).vmEnd) :
    ((∃ a ∈ l, R.Overlap p a) → vmaInsert R p = some (-1, R)) ∧
      ((¬ ∃ a ∈ l, R.Overlap p a) → ∃ t l₁ l₂, vmaInsert R p = some (0, { R with rTree := t }) ∧
        l = l₁ ++ l₂ ∧ Holds { R with rTree := t } (l₁ ++ p :: l₂) ∧
        (l₁ ++ p :: l₂).Pairwise fun a b => (R.vma a).vmEnd ≤ (R.vma b).vmStart) := by
  constructor
  · rintro ⟨a, ha, hover⟩
    obtain ⟨hstart, hend⟩ := (overlap_iff hnew (hlt a ha)).1 hover
    obtain ⟨t, k, hat, -, rfl⟩ := h.tree
    have hfind : findPlace R (R.vma p) addrSpace none none = some none :=
      findPlace_reject hat h.length_lt hlt hsorted ha hstart hend
    rw [vmaInsert, hfind]
    rfl
  · intro hnone
    have hfree : ∀ a ∈ l, (R.vma p).vmEnd ≤ (R.vma a).vmStart ∨ (R.vma a).vmEnd ≤ (R.vma p).vmStart := by
      intro a ha
      by_contra hmeet
      exact hnone ⟨a, ha, (overlap_iff hnew (hlt a ha)).2 (by omega)⟩
    obtain ⟨t, l₁, l₂, hrun, hl, hholds, h₁, h₂⟩ := vmaInsert_free h hp hptr (fun a ha => (hlt a ha).le)
      hsorted hfree
    exact ⟨t, l₁, l₂, hrun, hl, hholds, pairwise_insert hsorted hl h₁ h₂⟩

/-- Three pages in a row, each an area. -/
def threePages : VmaRegion where
  rStart := 0
  rEnd := 0x4000
  rTree :=
    { root := some 2
      child := fun d a => if a = 2 then some (if d = Dir.left then 1 else 3) else none
      parent := fun a => if a = 2 then none else some 2
      color := fun _ => Color.black }
  vma a := ⟨0x1000 * a, 0x1000 * (a + 1), 0⟩

/-- The tree of the three pages. -/
def threePagesTree : RbTree ℕ :=
  node Color.black (node Color.black nil 1 nil) 2 (node Color.black nil 3 nil)

theorem threePages_at : At threePages.rTree [] threePagesTree :=
  ⟨rfl, ⟨rfl, rfl, rfl, rfl, ⟨rfl, rfl, rfl, rfl, trivial, trivial⟩,
    ⟨rfl, rfl, rfl, rfl, trivial, trivial⟩⟩, by decide⟩

theorem threePages_wellFormed : WellFormed threePages 0 0x4000 threePagesTree.elems where
  holds :=
    ⟨⟨threePagesTree, 2, threePages_at, Balanced.black (Balanced.black Balanced.nil Balanced.nil)
      (Balanced.black Balanced.nil Balanced.nil), rfl⟩, by decide⟩
  ordered := Gaps.ordered_of_pairwise (by decide) (by decide) (by decide) (by decide)
  aligned := by decide

/-- A page over two of the areas is refused, and a page behind them is inserted. -/
theorem vmaInsert_rejects_page :
    let R : VmaRegion :=
      { threePages with vma := fun a => if a = 5 then ⟨0x2800, 0x3800, 0⟩ else ⟨0x1000 * a, 0x1000 * (a + 1), 0⟩ }
    vmaInsert R 5 = some (-1, R) ∧
      ∃ t l₁ l₂, vmaInsert R 4 = some (0, { R with rTree := t }) ∧ [1, 2, 3] = l₁ ++ l₂ ∧
        Holds { R with rTree := t } (l₁ ++ 4 :: l₂) ∧
        (l₁ ++ 4 :: l₂).Pairwise fun a b => (R.vma a).vmEnd ≤ (R.vma b).vmStart := by
  intro R
  have hholds : Holds R [1, 2, 3] := ⟨threePages_wellFormed.holds.tree, by decide⟩
  have hapart : ¬ ∃ a ∈ [1, 2, 3], R.Overlap 4 a := by
    rintro ⟨a, ha, hover⟩
    have hbefore : ∀ a ∈ [1, 2, 3], (R.vma a).vmEnd ≤ (R.vma 4).vmStart := by decide
    have hle := hbefore a ha
    obtain ⟨addr, ⟨h₁, -⟩, -, h₂⟩ := hover
    omega
  exact ⟨(vmaInsert_rejects hholds (by decide) (by decide) (by decide) (by decide) (by decide)).1
      ⟨2, by decide, 0x2800, by decide, by decide⟩,
    (vmaInsert_rejects hholds (by decide) (by decide) (by decide) (by decide) (by decide)).2 hapart⟩

/-! ### Searching -/

section Search

variable {R : VmaRegion} {addr b : ℕ}

/-- **The descent of `vma_search`** to the area of an address. -/
theorem searchLoop_spec {t : RbTree ℕ} :
    ∀ {n : ℕ} {q : Option ℕ}, Repr R.rTree q t → t.elems.length < n →
      (∀ a ∈ t.elems, (R.vma a).vmStart ≤ (R.vma a).vmEnd) →
      (t.elems.Pairwise fun a b => (R.vma a).vmEnd ≤ (R.vma b).vmStart) → b ∈ t.elems →
      (R.vma b).vmStart ≤ addr → addr < (R.vma b).vmEnd →
      searchLoop R addr n t.top = some (some b) := by
  induction t with
  | nil => intro n q _ _ _ _ hb; exact absurd hb List.not_mem_nil
  | node c l a r ihl ihr =>
      intro n q hrepr hn hle hsorted hb hstart hend
      obtain ⟨-, -, hl, hr, hreprl, hreprr⟩ := hrepr
      rw [elems_node] at hle hsorted hb
      obtain ⟨hsl, hsr, hcross⟩ := List.pairwise_append.1 hsorted
      obtain ⟨har, hsr⟩ := List.pairwise_cons.1 hsr
      have ha := hle a (by simp)
      cases n with
      | zero => exact absurd hn (Nat.not_lt_zero _)
      | succ n =>
          rw [elems_node, List.length_append, List.length_cons] at hn
          rw [top_node, searchLoop]
          dsimp only
          rcases List.mem_append.1 hb with hb | hb
          · have hba := hcross b hb a (by simp)
            have hlt : addr < (R.vma a).vmStart := by omega
            rw [if_neg (by omega), if_pos hlt, if_neg (by omega), hl]
            exact ihl hreprl (by omega) (fun d hd => hle d (by simp [hd])) hsl hb hstart hend
          · rcases List.mem_cons.1 hb with rfl | hb
            · rw [if_pos ⟨hstart, hend⟩]
            · have hab := har b hb
              have hge : addr ≥ (R.vma a).vmEnd := by omega
              have hnlt : ¬ addr < (R.vma a).vmStart := by omega
              rw [if_neg fun h => absurd h.2 (by omega), if_neg hnlt, if_pos hge, Option.bind_eq_bind,
                Option.bind_some, hr]
              exact ihr hreprr (by omega) (fun d hd => hle d (by simp [hd])) hsr hb hstart hend

/-- **Searching an address** of an area finds the area. -/
theorem vmaSearch_spec {lo hi : ℕ} {l : List ℕ} (h : WellFormed R lo hi l) (hb : b ∈ l)
    (hstart : (R.vma b).vmStart ≤ addr) (hend : addr < (R.vma b).vmEnd) :
    vmaSearch R addr = some (some b) := by
  obtain ⟨t, k, hat, -, rfl⟩ := h.holds.tree
  have hroot : R.rTree.root = t.top := hat.path
  rw [vmaSearch, hroot]
  exact searchLoop_spec hat.tree h.holds.length_lt
    (fun a ha => h.ordered.le _ (List.mem_map_of_mem ha)) (List.pairwise_map.1 h.ordered.pairwise)
    hb hstart hend

/-- **The descent of `vma_search`** with an address that is in no area. -/
theorem searchLoop_none {t : RbTree ℕ} :
    ∀ {n : ℕ} {q : Option ℕ}, Repr R.rTree q t → t.elems.length < n →
      (∀ a ∈ t.elems, (R.vma a).vmStart ≤ (R.vma a).vmEnd) → (∀ a ∈ t.elems, ¬ R.Contains a addr) →
      searchLoop R addr n t.top = some none := by
  induction t with
  | nil =>
      intro n q _ hn _ _
      cases n with
      | zero => exact absurd hn (Nat.not_lt_zero _)
      | succ n => rfl
  | node c l a r ihl ihr =>
      intro n q hrepr hn hle hnot
      obtain ⟨-, -, hl, hr, hreprl, hreprr⟩ := hrepr
      rw [elems_node] at hle hnot
      have ha := hle a (by simp)
      have hna : ¬ (addr ≥ (R.vma a).vmStart ∧ addr < (R.vma a).vmEnd) := hnot a (by simp)
      cases n with
      | zero => exact absurd hn (Nat.not_lt_zero _)
      | succ n =>
          rw [elems_node, List.length_append, List.length_cons] at hn
          rw [top_node, searchLoop]
          dsimp only
          rw [if_neg hna]
          by_cases hlt : addr < (R.vma a).vmStart
          · rw [if_pos hlt, if_neg (by omega), hl]
            exact ihl hreprl (by omega) (fun d hd => hle d (by simp [hd])) fun d hd => hnot d (by simp [hd])
          · have hge : addr ≥ (R.vma a).vmEnd := by
              by_contra hlt'
              exact hna ⟨by omega, by omega⟩
            rw [if_neg hlt, if_pos hge, Option.bind_eq_bind, Option.bind_some, hr]
            exact ihr hreprr (by omega) (fun d hd => hle d (by simp [hd])) fun d hd => hnot d (by simp [hd])

/-- **The search decides membership**, in a tree of any shape whose areas are in order, each of them
ending before the next one starts: it returns the area that contains the address, or
`VMA_INVALID_PTR` when there is none. -/
theorem vmaSearch_decides {t : RbTree ℕ} (h : At R.rTree [] t) (hptr : ∀ a ∈ t.elems, 0 < a ∧ a < 2 ^ 64)
    (hle : ∀ a ∈ t.elems, (R.vma a).vmStart ≤ (R.vma a).vmEnd)
    (hsorted : t.elems.Pairwise fun a b => (R.vma a).vmEnd ≤ (R.vma b).vmStart) (addr : ℕ) :
    ∃ result, vmaSearch R addr = some result ∧
      ∀ a, result = some a ↔ a ∈ t.elems ∧ R.Contains a addr := by
  have hroot : R.rTree.root = t.top := h.path
  have hlen : t.elems.length < addrSpace := length_lt_of_ptr h.nodup hptr
  rw [vmaSearch, hroot]
  by_cases hex : ∃ b ∈ t.elems, R.Contains b addr
  · obtain ⟨b, hb, hstart, hend⟩ := hex
    have hrun := searchLoop_spec h.tree hlen hle hsorted hb hstart hend
    refine ⟨some b, hrun, fun a => ⟨fun heq => ?_, fun ⟨ha, hstart', hend'⟩ => ?_⟩⟩
    · obtain rfl := Option.some_inj.1 heq
      exact ⟨hb, hstart, hend⟩
    · exact Option.some_inj.1 (hrun.symm.trans (searchLoop_spec h.tree hlen hle hsorted ha hstart' hend'))
  · refine ⟨none, searchLoop_none h.tree hlen hle fun a ha hc => hex ⟨a, ha, hc⟩, fun a => ⟨nofun, ?_⟩⟩
    exact fun ⟨ha, hc⟩ => absurd ⟨a, ha, hc⟩ hex

/-- An address of the second area, and one behind the last. -/
theorem vmaSearch_decides_page :
    (∃ result, vmaSearch threePages 0x2800 = some result ∧
        ∀ a, result = some a ↔ a ∈ threePagesTree.elems ∧ threePages.Contains a 0x2800) ∧
      ∃ result, vmaSearch threePages 0x4000 = some result ∧
        ∀ a, result = some a ↔ a ∈ threePagesTree.elems ∧ threePages.Contains a 0x4000 :=
  ⟨vmaSearch_decides threePages_at (by decide) (by decide) (by decide) 0x2800,
    vmaSearch_decides threePages_at (by decide) (by decide) (by decide) 0x4000⟩

end Search

end Vma

end SyncKernel
