/-
**The size of an area.**

`vma_alloc_area` rounds the size up before it looks for a place.  The rounding wraps for the last page of
the 64-bit range: there is room for an area without pages at the start of every region.  Nothing is
assumed of the areas but that they are in a red-black tree: the search for a place returns also when
they overlap, and so does `vma_insert`, the result of which is ignored.

Main definitions:

* `Vma.AreaServes` — the call fails, or returns an area that is large enough.

Main results:

* `Vma.vmaPlace_total`, `Vma.vmaInsert_total` — the search and the insertion return;
* `Vma.areaServes_iff` — **the exact condition**.
-/

import SyncKernel.Vma.Kernel

set_option relaxedAutoImplicit false
set_option autoImplicit false

namespace SyncKernel

namespace Vma

open RbTree Store Rbtree

variable {R : VmaRegion} {l : List ℕ}

/-! ### The search for a place -/

/-- The loop over the gaps returns nothing, or the end of an area. -/
theorem gapLoop_total {t : RbTree ℕ} (hat : At R.rTree [] t) (hn : t.elems.length ≤ addrSpace) (size : ℕ)
    {highest : ℕ} (hlast : t.elems.getLast? = some highest) (l₂ : List ℕ) :
    ∀ (l₁ : List ℕ) {n node : ℕ}, t.elems = l₁ ++ node :: l₂ → l₂.length < n →
      ∃ place, gapLoop R size highest n node = some place ∧
        ∀ start ∈ place, ∃ a ∈ t.elems, start = (R.vma a).vmEnd := by
  induction l₂ with
  | nil =>
      intro l₁ n node hsplit hlen
      cases n with
      | zero => exact absurd hlen (Nat.not_lt_zero _)
      | succ n =>
          have hnode : node = highest := by
            rw [hsplit, List.getLast?_concat] at hlast
            exact Option.some_inj.1 hlast
          exact ⟨none, by rw [gapLoop, if_pos hnode], fun start hstart => by cases hstart⟩
  | cons b l₂ ih =>
      intro l₁ n node hsplit hlen
      cases n with
      | zero => exact absurd hlen (Nat.not_lt_zero _)
      | succ n =>
          by_cases hnode : node = highest
          · exact ⟨none, by rw [gapLoop, if_pos hnode], fun start hstart => by cases hstart⟩
          · rw [gapLoop_next hat hn hsplit hnode]
            by_cases hgap : Word.sub (R.vma b).vmStart (R.vma node).vmEnd ≥ size
            · rw [if_pos hgap]
              refine ⟨_, rfl, fun start hstart => ⟨node, by simp [hsplit], ?_⟩⟩
              exact (Option.some_inj.1 hstart).symm
            · rw [if_neg hgap]
              exact ih (l₁ ++ [node]) (by rw [hsplit]; simp) (by simpa using hlen)

/-- **The search for a place** returns nothing, the start of the region or the end of an area; without
pages to place, it is the start of the region. -/
theorem vmaPlace_total (h : Holds R l) (size : ℕ) :
    ∃ place, vmaPlace R size = some place ∧
      (∀ start ∈ place, start = R.rStart ∨ ∃ a ∈ l, start = (R.vma a).vmEnd) ∧
      (size = 0 → place = some R.rStart) := by
  obtain ⟨t, k, hat, -, rfl⟩ := h.tree
  have hlen := h.length_lt.le
  have hroot : R.rTree.root = t.top := hat.path
  rw [vmaPlace]
  by_cases hbig : size > Word.sub R.rEnd R.rStart
  · refine ⟨none, if_pos hbig, fun start hstart => (by cases hstart), fun hzero => ?_⟩
    exact absurd hbig (by omega)
  rw [if_neg hbig, hroot, rbFirst_spec hat hlen, rbLast_spec hat hlen]
  cases t with
  | nil =>
      refine ⟨some R.rStart, if_pos rfl, fun start hstart => Or.inl ?_, fun _ => rfl⟩
      exact (Option.some_inj.1 hstart).symm
  | node c lt a rt =>
      have hne : (node c lt a rt).elems ≠ [] := by simp
      obtain ⟨lowest, l₂, hl₂⟩ := List.exists_cons_of_ne_nil hne
      have hlast := List.getLast?_eq_some_getLast hne
      generalize (node c lt a rt).elems.getLast hne = highest at hlast
      rw [if_neg (by simp), hl₂, List.head?_cons, ← hl₂, hlast]
      simp only [Option.bind_eq_bind, Option.bind_some, placeIn]
      by_cases hlow : Word.sub (R.vma lowest).vmStart R.rStart ≥ size
      · rw [if_pos hlow]
        refine ⟨_, rfl, fun start hstart => Or.inl ?_, fun _ => rfl⟩
        exact (Option.some_inj.1 hstart).symm
      · have hpos : size ≠ 0 := by omega
        rw [if_neg hlow]
        by_cases hhigh : Word.sub R.rEnd (R.vma highest).vmEnd ≥ size
        · rw [if_pos hhigh]
          refine ⟨_, rfl, fun start hstart => Or.inr ⟨highest, List.mem_of_getLast? hlast, ?_⟩,
            fun hzero => absurd hzero hpos⟩
          exact (Option.some_inj.1 hstart).symm
        · rw [if_neg hhigh]
          obtain ⟨place, hplace, hstart⟩ := gapLoop_total hat hlen size hlast l₂ []
            (n := addrSpace) hl₂ (by
            have hcount := h.length_lt
            rw [hl₂, List.length_cons] at hcount
            omega)
          exact ⟨place, hplace, fun start hs => Or.inr (hstart start hs), fun hzero => absurd hzero hpos⟩

/-! ### The insertion -/

/-- The descent of `vma_insert` ends at an area that it meets, or at a leaf. -/
theorem findPlace_total {v : KernelVma} {t : RbTree ℕ} :
    ∀ {n : ℕ} {ctx : Ctx ℕ}, At R.rTree ctx t → t.elems.length < n →
      findPlace R v n (Ctx.par ctx) (Ctx.link ctx) = some none ∨
        ∃ ctx', findPlace R v n (Ctx.par ctx) (Ctx.link ctx) =
          some (some (Ctx.par ctx', Ctx.link ctx')) ∧ Ctx.plug ctx' nil = Ctx.plug ctx t := by
  induction t with
  | nil =>
      intro n ctx hat hn
      cases n with
      | zero => exact absurd hn (Nat.not_lt_zero _)
      | succ n =>
          refine Or.inr ⟨ctx, ?_, rfl⟩
          exact findPlace_nil hat
  | node c lt a rt ihl ihr =>
      intro n ctx hat hn
      cases n with
      | zero => exact absurd hn (Nat.not_lt_zero _)
      | succ n =>
          rw [elems_node, List.length_append, List.length_cons] at hn
          rw [findPlace_node hat]
          by_cases hleft : v.vmEnd ≤ (R.vma a).vmStart
          · rw [if_pos hleft]
            exact ihl (n := n) (show At R.rTree (⟨Dir.left, c, a, rt⟩ :: ctx) lt from at_up.2 hat) (by omega)
          · rw [if_neg hleft]
            by_cases hright : v.vmStart ≥ (R.vma a).vmEnd
            · rw [if_pos hright]
              exact ihr (n := n) (show At R.rTree (⟨Dir.right, c, a, lt⟩ :: ctx) rt from at_up.2 hat)
                (by omega)
            · exact Or.inl (if_neg hright)

/-- **The insertion returns**, whatever the areas are. -/
theorem vmaInsert_total (h : Holds R l) {p : ℕ} (hp : p ∉ l) : ∃ i R', vmaInsert R p = some (i, R') := by
  obtain ⟨t, k, hat, hbal, helems⟩ := h.tree
  have hlen := h.length_lt
  rcases findPlace_total (v := R.vma p) hat (n := addrSpace) (by rw [helems]; exact hlen) with
    hmeets | ⟨ctx, hrun, hplug⟩
  · have hfind : findPlace R (R.vma p) addrSpace none none = some none := hmeets
    exact ⟨-1, R, by simp only [vmaInsert, hfind, Option.bind_eq_bind, Option.bind_some]⟩
  · have hfind : findPlace R (R.vma p) addrSpace none none =
        some (some (Ctx.par ctx, Ctx.link ctx)) := hrun
    have helemsc : Ctx.elems ctx = l := by
      have hsame := congrArg RbTree.elems hplug
      rw [Ctx.elems_plug] at hsame
      rw [elems_nil, List.append_nil] at hsame
      exact hsame.trans helems
    have hat' : At R.rTree ctx nil := at_plug.2 (by rw [hplug]; exact hat)
    obtain ⟨s', t', hins, -⟩ := rbInsert_spec hat' (helemsc ▸ hp) (by rw [hplug]; exact hbal)
      ((length_le_elems ctx).trans_lt (helemsc ▸ hlen))
    exact ⟨0, { R with rTree := s' }, by
      simp only [vmaInsert, hfind, Option.bind_eq_bind, Option.bind_some, hins]⟩

/-! ### The size -/

/-- `vma_alloc_area` returns no area, or one with `vm_end - vm_start` at least the size. -/
def AreaServes (R : VmaRegion) (areaSize flags : ℕ) (answer : Option ℕ) : Prop :=
  ∃ out R', vmaAllocArea R areaSize flags answer = some (out, R') ∧
    ∀ p ∈ out, areaSize ≤ Word.sub (R'.vma p).vmEnd (R'.vma p).vmStart

/-- **The exact condition**: the size is not in the last page of the range, or `kslab_alloc` has no
structure. -/
theorem areaServes_iff (h : Holds R l) (hstart : R.rStart < 2 ^ 64) (hend : ∀ a ∈ l, (R.vma a).vmEnd < 2 ^ 64)
    {areaSize : ℕ} (hsize : areaSize < 2 ^ 64) (flags : ℕ) {answer : Option ℕ} (hfresh : Fresh answer l) :
    AreaServes R areaSize flags answer ↔ areaSize ≤ 2 ^ 64 - 4096 ∨ answer = none := by
  obtain ⟨place, hplace, hbound, hzero⟩ := vmaPlace_total h (pageAlignUp areaSize)
  cases answer with
  | none =>
      refine ⟨fun _ => Or.inr rfl, fun _ => ⟨none, R, ?_, fun p hp => by cases hp⟩⟩
      simp only [vmaAllocArea, hplace, Option.bind_eq_bind, Option.bind_some]
      cases place <;> rfl
  | some p =>
      obtain ⟨-, hp⟩ := hfresh p rfl
      cases place with
      | none =>
          -- there is room for an area without pages
          have hle : areaSize ≤ 2 ^ 64 - 4096 := by
            by_contra hgt
            cases hzero (pageAlignUp_wrap hsize (by omega))
          refine ⟨fun _ => Or.inl hle, fun _ => ⟨none, R, ?_, fun p hp => by cases hp⟩⟩
          simp only [vmaAllocArea, hplace, Option.bind_eq_bind, Option.bind_some, allocAt]
      | some start =>
          have hlt : start < 2 ^ 64 := by
            rcases hbound start rfl with rfl | ⟨a, ha, rfl⟩
            · exact hstart
            · exact hend a ha
          obtain ⟨i, R', hins⟩ := vmaInsert_total (R := R.assign p start (pageAlignUp areaSize) flags)
            ⟨h.tree, h.ptr⟩ hp
          have hvma : R'.vma p = ⟨start, Word.add start (pageAlignUp areaSize), flags⟩ := by
            rw [vmaInsert_vma hins]
            exact Function.update_self _ _ _
          have hrun : vmaAllocArea R areaSize flags (some p) = some (some p, R') := by
            simp only [vmaAllocArea, hplace, Option.bind_eq_bind, Option.bind_some, allocAt, hins]
          have hdepth : Word.sub (R'.vma p).vmEnd (R'.vma p).vmStart = pageAlignUp areaSize := by
            have halign : pageAlignUp areaSize < 2 ^ 64 :=
              Nat.lt_of_le_of_lt Nat.and_le_left (Word.add_lt _ _)
            rw [hvma]
            dsimp only
            unfold Word.add Word.sub
            omega
          constructor
          · rintro ⟨out, R₁, hrun₁, hserves⟩
            obtain ⟨rfl, rfl⟩ := Prod.mk.inj (Option.some_inj.1 (hrun.symm.trans hrun₁))
            have hle := hserves p rfl
            rw [hdepth] at hle
            by_contra hnot
            rw [pageAlignUp_wrap hsize (by omega)] at hle
            omega
          · intro hcond
            have hle := hcond.resolve_right (Option.some_ne_none p)
            refine ⟨some p, R', hrun, fun q hq => ?_⟩
            obtain rfl := Option.some_inj.1 hq
            rw [hdepth, pageAlignUp_eq (by omega)]
            omega

end Vma

end SyncKernel
