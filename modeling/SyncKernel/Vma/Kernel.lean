/-
**The region of the kernel.**

`vma_tree` starts at `KERNEL_VMMMAP` and is 64 TiB long, so it ends at the end of the address space and
takes in the kernel image at `KERNEL_OFFSET`.  The areas fill it from below, without gaps: a request
that reaches over `KERNEL_OFFSET` is granted as long as it stays below the end.

Main definitions:

* `Vma.used` — where the areas end;
* `Vma.Sound` — the areas are disjoint, are found by `vma_search`, and do not meet the kernel image;
* `Vma.BelowKernel` — the request ends below the kernel image, or is refused.

Main results:

* `Vma.kernelRegion_iff` — **the exact condition** on a run.
-/

import SyncKernel.Vma.Alloc

set_option relaxedAutoImplicit false
set_option autoImplicit false

namespace SyncKernel

namespace Vma

open RbTree Store Rbtree

/-! ### The areas from below -/

/-- The end of the highest area. -/
def used (S : System) : ℕ := (S.granted.map fun a => (S.region.vma a).vmEnd).foldr max kernelVmmap

/-- The areas that were returned have no address in common, `vma_search` finds each one at its
addresses, and none of them meets the kernel image. -/
def Sound (S : System) : Prop :=
  Apart S.region S.granted ∧
    ∀ a ∈ S.granted, ∀ x, S.region.Covers a x →
      vmaSearch S.region x = some (some a) ∧ x < kernelOffset

/-- The request ends below the kernel image, or no area is returned: there is no room at all, or
`kslab_alloc` has no structure. -/
def BelowKernel (S : System) (r : Request) : Prop :=
  r.answer = none ∨ used S + pageAlignUp r.areaSize ≤ kernelOffset ∨
    2 ^ 64 < used S + pageAlignUp r.areaSize

instance (S : System) (r : Request) : Decidable (BelowKernel S r) :=
  inferInstanceAs (Decidable (_ ∨ _ ∨ _))

/-- `vma_tree` before the first request. -/
def kernelSystem : System := ⟨vmaSubsystemInit, []⟩

theorem foldr_max_le_iff {l : List ℕ} {a b : ℕ} :
    l.foldr max a ≤ b ↔ a ≤ b ∧ ∀ c ∈ l, c ≤ b := by
  induction l with
  | nil => simp
  | cons c l ih =>
      rw [List.foldr_cons, max_le_iff, ih, List.forall_mem_cons]
      tauto

/-- The areas end at `used` or before. -/
theorem used_le_iff {S : System} {b : ℕ} :
    used S ≤ b ↔ kernelVmmap ≤ b ∧ ∀ a ∈ S.granted, (S.region.vma a).vmEnd ≤ b := by
  rw [used, foldr_max_le_iff, List.forall_mem_map]

/-- **The invariant**: the areas that were returned are the ones in the tree, they end below the kernel
image, and every address below their end is in one of them. -/
structure Filled (S : System) : Prop where
  start_eq : S.region.rStart = kernelVmmap
  end_eq : S.region.rEnd = 0
  tree : ∃ l, l.Perm S.granted ∧ WellFormed S.region kernelVmmap kernelOffset l
  full : ∀ x, kernelVmmap ≤ x → x < used S →
    ∃ a ∈ S.granted, (S.region.vma a).vmStart ≤ x ∧ x < (S.region.vma a).vmEnd

namespace Filled

variable {S : System}

theorem used_le (h : Filled S) : used S ≤ kernelOffset := by
  obtain ⟨l, hperm, hwf⟩ := h.tree
  exact used_le_iff.2 ⟨by decide, fun a ha =>
    hwf.ordered.le_hi (S.region.span a) (List.mem_map_of_mem (hperm.mem_iff.2 ha))⟩

/-- **Where a new area is placed**: behind the others, except that an empty one may be placed lower. -/
theorem place (h : Filled S) (size : ℕ) {l : List ℕ} (hperm : l.Perm S.granted)
    (hwf : WellFormed S.region kernelVmmap kernelOffset l) :
    ∃ place, vmaPlace S.region size = some place ∧
      (∀ start, place = some start → 4096 ∣ start ∧ kernelVmmap ≤ start ∧ start ≤ used S ∧
        start + size ≤ 2 ^ 64 ∧ (0 < size → start = used S) ∧
        Gaps.Free (l.map S.region.span) start size) ∧
      (place = none → 2 ^ 64 < used S + size) := by
  obtain ⟨hlo, hends⟩ := used_le_iff.1 (le_refl (used S))
  have hused := h.used_le
  have hoff : kernelOffset < 2 ^ 64 := by decide
  have hbase : kernelVmmap < kernelOffset := by decide
  have heq := vmaPlace_eq size (by rw [h.start_eq]; exact hwf)
    (by rw [h.end_eq]; decide) (by rw [h.start_eq]; exact hbase.le) hoff.le hoff
    (by rw [h.start_eq]; decide) le_rfl
  rw [h.start_eq] at heq
  refine ⟨_, heq, fun start hstart => ?_, fun hnone => ?_⟩
  · split_ifs at hstart with hdepth
    obtain ⟨hb, hlo', hhi, hfree⟩ := Gaps.place_spec (hwf.ordered.mono hoff.le) (by omega) hstart
    have hle : start ≤ used S := by
      rcases hb with rfl | ⟨i, hi, rfl⟩
      · exact hlo
      · obtain ⟨a, ha, rfl⟩ := List.mem_map.1 hi
        exact hends a (hperm.mem_iff.1 ha)
    refine ⟨hwf.dvd_place (by decide) hb, hlo', hle, hhi, fun hpos => ?_, hfree⟩
    -- an address below the end of the highest area is in some area, so it is not free
    by_contra hne
    obtain ⟨a, ha, hsa, hea⟩ := h.full start hlo' (by omega)
    have hfa := hfree (S.region.span a) (List.mem_map_of_mem (hperm.mem_iff.2 ha))
    dsimp only [VmaRegion.span] at hfa
    omega
  · split_ifs at hnone with hdepth
    · omega
    · by_contra hle
      refine Gaps.place_ne_none (fun i hi => ?_) hnone
      obtain ⟨a, ha, rfl⟩ := List.mem_map.1 hi
      have hea := hends a (hperm.mem_iff.1 ha)
      dsimp only [VmaRegion.span]
      omega

end Filled

/-! ### One request -/

section Step

variable {S : System} {r : Request}

theorem vmaInsert_vma {R R' : VmaRegion} {p : ℕ} {i : ℤ} (h : vmaInsert R p = some (i, R')) :
    R'.vma = R.vma := by
  rw [vmaInsert, Option.bind_eq_bind, Option.bind_eq_some_iff] at h
  obtain ⟨place, -, h⟩ := h
  cases place with
  | none =>
      obtain ⟨-, rfl⟩ := Prod.mk.inj (Option.some_inj.1 h)
      rfl
  | some place =>
      dsimp only at h
      rw [Option.bind_eq_bind, Option.bind_eq_some_iff] at h
      obtain ⟨t, -, h⟩ := h
      obtain ⟨-, rfl⟩ := Prod.mk.inj (Option.some_inj.1 h)
      rfl

/-- The areas of the invariant are disjoint, found and below the kernel image. -/
theorem Filled.sound (h : Filled S) : Sound S := by
  obtain ⟨l, hperm, hwf⟩ := h.tree
  have hoff : kernelOffset < 2 ^ 64 := by decide
  refine ⟨hwf.apart hoff hperm, fun a ha x hx => ?_⟩
  have hal := hperm.mem_iff.2 ha
  obtain ⟨hsx, hxe⟩ := (hwf.covers_iff hoff hal).1 hx
  have hle := hwf.ordered.le_hi (S.region.span a) (List.mem_map_of_mem hal)
  exact ⟨vmaSearch_spec hwf hal hsx hxe, lt_of_lt_of_le hxe hle⟩

/-- What a request is granted: nothing, or the area behind the others, except that an empty one may be
placed lower.  The other areas stay as they are. -/
structure Grants (S : System) (r : Request) (out : Option ℕ) (R' : VmaRegion) : Prop where
  filled : Filled ⟨R', out.toList ++ S.granted⟩
  old : ∀ a ∈ S.granted, R'.vma a = S.region.vma a
  new : ∀ p ∈ out, r.answer = some p ∧ ∃ start, 4096 ∣ start ∧ kernelVmmap ≤ start ∧ start ≤ used S ∧
    (0 < pageAlignUp r.areaSize → start = used S) ∧ start + pageAlignUp r.areaSize ≤ kernelOffset ∧
    R'.vma p = ⟨start, start + pageAlignUp r.areaSize, r.flags⟩

/-- A request that returns nothing changes nothing. -/
theorem Filled.grants_none (h : Filled S) : Grants S r none S.region :=
  ⟨h, fun _ _ => rfl, fun _ hp => by cases hp⟩

/-- **A request below the kernel image** keeps the invariant. -/
theorem Filled.alloc_spec (h : Filled S) (hr : r.Valid S) (hbelow : BelowKernel S r) :
    ∃ out R', vmaAllocArea S.region r.areaSize r.flags r.answer = some (out, R') ∧ Grants S r out R' := by
  obtain ⟨l, hperm, hwf⟩ := h.tree
  obtain ⟨place, hplace, hsome, hnone⟩ := h.place (pageAlignUp r.areaSize) hperm hwf
  have hoff : kernelOffset < 2 ^ 64 := by decide
  have hused := h.used_le
  cases hans : r.answer with
  | none =>
      refine ⟨none, S.region, ?_, h.grants_none⟩
      simp only [vmaAllocArea, hplace, Option.bind_eq_bind, Option.bind_some]
      cases place <;> rfl
  | some p =>
      cases place with
      | none =>
          refine ⟨none, S.region, ?_, h.grants_none⟩
          simp only [vmaAllocArea, hplace, Option.bind_eq_bind, Option.bind_some, allocAt]
      | some start =>
          obtain ⟨hdvd, hlo, hle, hend, hpos, hfree⟩ := hsome start rfl
          have hfit : used S + pageAlignUp r.areaSize ≤ kernelOffset := by
            rcases hbelow with hn | hfit | hover
            · cases hans.symm.trans hn
            · exact hfit
            · have hstart := hpos (by omega)
              omega
          obtain ⟨hptr, hp⟩ := hr.2 p hans
          have hpl : p ∉ l := fun hm => hp (hperm.mem_iff.1 hm)
          obtain ⟨R', l₁, l₂, hins, hl, hs, he, hvma, hwf'⟩ := allocAt_spec hwf r.flags hpl hptr hlo
            (by omega) hoff hdvd (dvd_pageAlignUp hr.1) hfree
          have hold : ∀ a ∈ S.granted, R'.vma a = S.region.vma a := fun a ha => by
            rw [hvma, Function.update_of_ne (ne_of_mem_of_not_mem ha hp)]
          have hnew : R'.vma p = ⟨start, start + pageAlignUp r.areaSize, r.flags⟩ := by
            rw [hvma, Function.update_self]
          have hfilled : Filled ⟨R', p :: S.granted⟩ := by
            refine ⟨hs.trans h.start_eq, he.trans h.end_eq, ⟨_, ?_, hwf'⟩, fun x hx hxu => ?_⟩
            · exact List.perm_middle.trans (List.Perm.cons p (hl ▸ hperm))
            · by_cases hxs : start ≤ x ∧ x < start + pageAlignUp r.areaSize
              · exact ⟨p, by simp, by rw [hnew]; exact hxs⟩
              · have hlt : x < used S := by
                  by_contra hge
                  refine absurd hxu (Nat.not_lt.2 (used_le_iff.2 ⟨hx, fun a ha => ?_⟩))
                  rcases List.mem_cons.1 ha with rfl | ha
                  · rw [hnew]
                    dsimp only
                    omega
                  · rw [hold a ha]
                    exact ((used_le_iff.1 le_rfl).2 a ha).trans (Nat.le_of_not_lt hge)
                obtain ⟨a, ha, hax⟩ := h.full x hx hlt
                exact ⟨a, List.mem_cons_of_mem _ ha, by rw [hold a ha]; exact hax⟩
          refine ⟨some p, R', ?_, hfilled, hold, fun q hq => ?_⟩
          · simp only [vmaAllocArea, hplace, Option.bind_eq_bind, Option.bind_some, allocAt, hins]
          · obtain rfl := Option.some_inj.1 hq
            exact ⟨hans, start, hdvd, hlo, hle, hpos, by omega, hnew⟩

/-- The areas stay disjoint, found and off the kernel image. -/
theorem Filled.step_spec (h : Filled S) (hr : r.Valid S) (hbelow : BelowKernel S r) :
    ∃ S', step S r = some S' ∧ Sound S' ∧ Filled S' := by
  obtain ⟨out, R', hrun, hgrants⟩ := h.alloc_spec hr hbelow
  exact ⟨_, by rw [step, hrun]; rfl, hgrants.filled.sound, hgrants.filled⟩

/-- **Any other request** is granted an area that meets the kernel image. -/
theorem Filled.step_over (h : Filled S) (hover : ¬ BelowKernel S r) {S' : System}
    (hstep : step S r = some S') : ¬ Sound S' := by
  obtain ⟨l, hperm, hwf⟩ := h.tree
  obtain ⟨place, hplace, hsome, hnone⟩ := h.place (pageAlignUp r.areaSize) hperm hwf
  have hused := h.used_le
  have hoff : kernelOffset < 2 ^ 64 := by decide
  rw [BelowKernel, not_or, not_or] at hover
  obtain ⟨hans, hfit, hroom⟩ := hover
  obtain ⟨p, hp⟩ := Option.ne_none_iff_exists'.1 hans
  cases place with
  | none => exact absurd (hnone rfl) hroom
  | some start =>
      obtain ⟨-, hlo, -, hend, hpos, -⟩ := hsome start rfl
      have hstart := hpos (by omega)
      rw [step, Option.map_eq_some_iff] at hstep
      obtain ⟨⟨result, R'⟩, hrun, rfl⟩ := hstep
      simp only [vmaAllocArea, hp, hplace, Option.bind_eq_bind, Option.bind_some, allocAt] at hrun
      obtain ⟨⟨i, R₁⟩, hins, hrun⟩ := Option.bind_eq_some_iff.1 hrun
      obtain ⟨rfl, rfl⟩ := Prod.mk.inj (Option.some_inj.1 hrun)
      have hv : R₁.vma p =
          ⟨start, Word.add start (pageAlignUp r.areaSize), r.flags⟩ := by
        rw [vmaInsert_vma hins]
        exact Function.update_self _ _ _
      have hcovers : R₁.Covers p kernelOffset := by
        refine ⟨hoff, ?_⟩
        rw [hv]
        dsimp only
        have hbase : 0 < kernelVmmap := by decide
        unfold Word.sub Word.add
        omega
      intro hsound
      exact Nat.lt_irrefl _ (hsound.2 p (by simp) kernelOffset hcovers).2

end Step

/-! ### Runs -/

theorem kernelSystem_filled : Filled kernelSystem :=
  ⟨rfl, by decide, ⟨[], List.Perm.refl _, wellFormed_empty rfl⟩, fun x hx hxu =>
    absurd hx (Nat.not_le.2 hxu)⟩

/-- **The exact condition**: after every request of a run the areas are disjoint, found by `vma_search`
and off the kernel image, exactly when every request ends below the kernel image or is refused. -/
theorem kernelRegion_iff (rs : List Request)
    (hrs : Run.Along step (fun S r => r.Valid S) kernelSystem rs) :
    Run.Every step (fun _ _ S' => Sound S') kernelSystem rs ↔
      Run.Along step BelowKernel kernelSystem rs :=
  Run.every_iff_along (fun _ _ h hr hbelow => h.step_spec hr hbelow)
    (fun _ _ _ h _ hover hstep => h.step_over hover hstep) kernelSystem_filled hrs

/-- A run that fills the region up to the kernel image, after which there is no room for 64 TiB. -/
theorem kernelRegion_iff_full :
    Run.Every step (fun _ _ S' => Sound S') kernelSystem
      [⟨0x1000, 3, some 0x40⟩, ⟨0x3FFF7FFFF000, 3, some 0x80⟩, ⟨2 ^ 46, 3, some 0xC0⟩] :=
  (kernelRegion_iff _ (by decide +kernel)).2 (by decide +kernel)

/-- **A request for 64 TiB** is granted, over the kernel image. -/
theorem kernelRegion_over :
    Run.Along step (fun S r => r.Valid S) kernelSystem [⟨2 ^ 46, 3, some 0x40⟩] ∧
      ¬ Run.Every step (fun _ _ S' => Sound S') kernelSystem [⟨2 ^ 46, 3, some 0x40⟩] := by
  refine ⟨by decide +kernel, ?_⟩
  rintro ⟨S', hstep, hsound, -⟩
  exact kernelSystem_filled.step_over (by decide +kernel) hstep hsound

end Vma

end SyncKernel
