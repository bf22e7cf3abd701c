/-
**Running out of frames in `ioremap`.**

Once `vma_alloc_area` has returned an area, `ioremap` cannot fail: `return_pt_or_alloc` answers
`KPAGE_ERR`, but none of the loops looks at it, and behind them a pointer into the window is returned,
if the code gets there.  The area stays in `vma_tree`.

Main definitions:

* `Vmalloc.RunsOut` — a frame is missing while the window of a call is mapped;
* `Vmalloc.FailsCleanly` — a null pointer is returned and nothing has changed.

Main results:

* `Vmalloc.mapWindow_strict` — a window of at most 512 GiB is mapped only if no frame is missing;
* `Vmalloc.ioremap_area` — what is returned for an area;
* `Vmalloc.runsOut_not_clean` — **no call fails cleanly**.
-/

import SyncKernel.Vmalloc.Ioremap

set_option relaxedAutoImplicit false
set_option autoImplicit false

namespace SyncKernel

namespace Vmalloc

open Pagetbl Vma

/-- `kbud_alloc` has no frame for a table that is asked for while the window of a call is mapped: with
loops that stop there, nothing would be returned. -/
def RunsOut (root : ℕ) (r : Call) (S : AddressSpace) : Prop :=
  ((vmaAllocArea S.vmaTree r.alignedSize r.flags r.answer).bind fun out => out.1.map fun vma =>
    (mapWindow Pagetbl.returnPtOrAlloc (physToVirtPm (ptRebase root)) r (out.2.vma vma).vmStart
      S.tables).isNone) = some true

instance (root : ℕ) (r : Call) (S : AddressSpace) : Decidable (RunsOut root r S) :=
  inferInstanceAs (Decidable (_ = _))

/-- The areas that are found at an address are the same. -/
def SameAreas (R R' : VmaRegion) : Prop :=
  ∀ addr, (vmaSearch R' addr).map (Option.map R'.vma) = (vmaSearch R addr).map (Option.map R.vma)

/-- The call uses no entry behind `KPAGE_ERR`, returns a null pointer, and leaves the areas and the
translations as they were. -/
def FailsCleanly (root : ℕ) (r : Call) (S : AddressSpace) : Prop :=
  ∃ S', ioremap returnPtOrAlloc root r S = some (0, S') ∧ SameAreas S.vmaTree S'.vmaTree ∧
    ∀ v, kptGetPhys S'.tables.mem root v = kptGetPhys S.tables.mem root v

/-! ### The error pointer -/

/-- A turn of a loop that is `k` levels above the innermost one, while `r` of at most `R` leaves with `w`
digits behind them remain: if it returns, it has used its table, the one that stops at the first missing
frame returns the same, and the counters are those of the leaves that remain. -/
def Follows (w R k : ℕ) (body strict : ℕ → Cursor → Option Cursor) : Prop :=
  ∀ t c c' r, 0 < r → r ≤ R → (∀ j < k, c.rem (w + 1 + j) = r ⌈/⌉ 512 ^ j) → body t c = some c' →
    t ≠ kpageErr ∧ strict t c = some c' ∧
      (∀ j < k, c'.rem (w + 1 + j) = (r - min r (512 ^ k)) ⌈/⌉ 512 ^ j) ∧
      ∀ j, k ≤ j → c'.rem (w + 1 + j) = c.rem (w + 1 + j)

section Follows

variable {w R k : ℕ} {body strict : ℕ → Cursor → Option Cursor}

theorem follows_putEntry (w R ℓ flags : ℕ) : Follows w R 0 (putEntry ℓ flags) (putEntry ℓ flags) := by
  intro t c c' r _ _ _ h
  refine ⟨fun herr => ?_, h, fun j hj => absurd hj (Nat.not_lt_zero j), fun j _ => ?_⟩
  · rw [putEntry, if_pos herr] at h
    cases h
  · unfold putEntry at h
    split_ifs at h
    exact Option.some_inj.1 h ▸ rfl

/-- The loop over the entries of a table, for as many of them as the leaves need. -/
theorem Follows.loop (h : Follows w R k body strict) {t n r : ℕ} {c c' : Cursor} (hr : r ≤ R)
    (hn : n ≤ r ⌈/⌉ 512 ^ k) (hrem : ∀ j < k, c.rem (w + 1 + j) = r ⌈/⌉ 512 ^ j)
    (hloop : Run.loop (fun _ => body t) n c = some c') :
    (0 < n → t ≠ kpageErr) ∧ Run.loop (fun _ => strict t) n c = some c' ∧
      (∀ j < k, c'.rem (w + 1 + j) = (r - min r (512 ^ k * n)) ⌈/⌉ 512 ^ j) ∧
      ∀ j, k ≤ j → c'.rem (w + 1 + j) = c.rem (w + 1 + j) := by
  have hpos : 0 < 512 ^ k := Nat.pow_pos (by decide)
  refine Run.loop_inv (f := fun _ => body t)
    (I := fun i c₁ => (0 < i → t ≠ kpageErr) ∧ Run.loop (fun _ => strict t) i c = some c₁ ∧
      (∀ j < k, c₁.rem (w + 1 + j) = (r - min r (512 ^ k * i)) ⌈/⌉ 512 ^ j) ∧
      ∀ j, k ≤ j → c₁.rem (w + 1 + j) = c.rem (w + 1 + j))
    (fun i hi c₁ c₂ hc₁ hbody => ?_)
    ⟨fun h => absurd h (Nat.lt_irrefl 0), rfl, fun j hj => by
      rw [Nat.mul_zero, Nat.min_zero, Nat.sub_zero]
      exact hrem j hj, fun _ _ => rfl⟩ hloop
  obtain ⟨-, hstrict, hrem₁, hhigh₁⟩ := hc₁
  have hlt : 512 ^ k * i < r := (lt_ceilDiv hpos).1 (Nat.lt_of_lt_of_le hi hn)
  obtain ⟨hne, hstep, hrem₂, hhigh₂⟩ := h t c₁ c₂ _ (by omega) (by omega) hrem₁ hbody
  refine ⟨fun _ => hne, ?_, fun j hj => ?_, fun j hj => (hhigh₂ j hj).trans (hhigh₁ j hj)⟩
  · rw [Run.loop, hstrict, Option.bind_some, hstep]
  · rw [hrem₂ j hj, Nat.mul_succ]
    congr 1
    omega

/-- **The loop around another one** comes to an entry of each table that it asks for. -/
theorem Follows.turn (h : Follows w R k body strict) {bound : ℕ → ℕ}
    (hbound : ∀ r ≤ R ⌈/⌉ 512 ^ k, bound r = capped r) :
    Follows w R (k + 1) (turnWith returnPtOrAlloc (w + 1 + k) bound body)
      (turnWith Pagetbl.returnPtOrAlloc (w + 1 + k) bound strict) := by
  intro p c c' r hpos hr hrem hturn
  have hunit : 0 < 512 ^ k := Nat.pow_pos (by decide)
  have hpow : 512 ^ (k + 1) = 512 ^ k * 512 := Nat.pow_succ _ _
  obtain ⟨t, tables, c₁, htable, hloop, rfl⟩ := turnWith_eq_some _ hturn
  have hcount := hrem k (Nat.lt_succ_self k)
  have hsome : 0 < r ⌈/⌉ 512 ^ k := (lt_ceilDiv hunit).2 (by omega)
  have hle : r ⌈/⌉ 512 ^ k ≤ R ⌈/⌉ 512 ^ k :=
    (ceilDiv_le_iff_le_mul hunit).2 (hr.trans ((ceilDiv_le_iff_le_mul hunit).1 le_rfl))
  have hcapped := capped_eq_min (r ⌈/⌉ 512 ^ k)
  have hnumber : bound (c.rem (w + 1 + k)) = capped (r ⌈/⌉ 512 ^ k) := by
    rw [hcount, hbound _ hle]
  rw [hnumber] at hloop
  have hrem' : ∀ j < k, ({ c with tables := tables } : Cursor).rem (w + 1 + j) = r ⌈/⌉ 512 ^ j :=
    fun j hj => hrem j (Nat.lt_succ_of_lt hj)
  obtain ⟨hne, hstrict, hrem₁, hhigh₁⟩ := h.loop hr (by omega) hrem' hloop
  replace hne := hne (by omega)
  -- the table is the one of `tableFor`
  have hp : p ≠ kpageErr := by
    intro herr
    rw [returnPtOrAlloc, if_pos herr] at htable
    cases htable
  have htable' : Pagetbl.returnPtOrAlloc p (pageIdx (w + 1 + k + 1) c.vbase) c.tables = some (t, tables) := by
    rw [returnPtOrAlloc, if_neg hp, Option.some_inj] at htable
    cases hq : Pagetbl.returnPtOrAlloc p (pageIdx (w + 1 + k + 1) c.vbase) c.tables with
    | none =>
        rw [hq] at htable
        exact absurd (Prod.mk.inj htable).1.symm hne
    | some x =>
        rw [hq] at htable
        exact congrArg some htable
  have hend : min r (512 ^ k * capped (r ⌈/⌉ 512 ^ k)) = min r (512 ^ (k + 1)) := by
    rw [hpow, min_mul_capped hunit]
  have hrest : c.rem (w + 1 + k) - capped (c.rem (w + 1 + k)) =
      (r - min r (512 ^ (k + 1))) ⌈/⌉ 512 ^ k := by
    rw [hcount, hpow, ceilDiv_sub_capped hunit]
  refine ⟨hp, ?_, fun j hj => ?_, fun j hj => ?_⟩
  · rw [turnWith, htable', hnumber]
    simp only [Option.bind_eq_bind, Option.bind_some, hstrict]
  · change Function.update c₁.rem (w + 1 + k) _ (w + 1 + j) = _
    by_cases heq : j = k
    · rw [heq, Function.update_self, hrest]
    · rw [Function.update_of_ne (by omega), hrem₁ j (by omega), hend]
  · change Function.update c₁.rem (w + 1 + k) _ (w + 1 + j) = _
    rw [Function.update_of_ne (by omega)]
    exact hhigh₁ j (by omega)

/-- **The loop over the top table** returns only when no frame is missing. -/
theorem Follows.map {size l4 vaddr paddr flags : ℕ} {s s' : Tables} (hk : w + k = 3)
    (h : Follows w (size / 2 ^ (12 + 9 * w)) k body strict) (hsize : 2 ^ (12 + 9 * w) ∣ size)
    (hlt : size < 2 ^ 63) (hmap : ptMap body l4 (pageCtx vaddr paddr size flags) s = some s') :
    ptMap strict l4 (pageCtx vaddr paddr size flags) s = some s' := by
  obtain ⟨c', hloop, rfl⟩ := Option.map_eq_some_iff.1 hmap
  have hstrict := (h.loop le_rfl (Nat.le_of_eq (windowTop_eq hsize hlt hk vaddr paddr flags))
    (fun j hj => windowRem_eq hsize hlt (by omega) vaddr paddr flags s) hloop).2.1
  rw [ptMap, hstrict]
  rfl

end Follows

/-- **A window of at most 512 GiB** is mapped only when no frame is missing. -/
theorem mapWindow_strict {l4 vaddr : ℕ} {r : Call} {s s' : Tables} (hdvd : 4096 ∣ r.alignedSize)
    (hsize : r.alignedSize ≤ 2 ^ 39) (h : mapWindow returnPtOrAlloc l4 r vaddr s = some s') :
    mapWindow Pagetbl.returnPtOrAlloc l4 r vaddr s = some s' := by
  have hlt : r.alignedSize < 2 ^ 63 := by omega
  unfold mapWindow at h ⊢
  by_cases hhuge : r.allAligned vaddr sz1g = true
  · have hunit : 2 ^ (12 + 9 * 2) ∣ r.alignedSize := (allAligned_iff (k := 30).1 hhuge).2.2
    rw [if_pos hhuge] at h ⊢
    exact Follows.map (w := 2) (k := 1) rfl
      (Follows.turn (follows_putEntry 2 _ 3 _) fun _ _ => rfl) hunit hlt h
  · rw [if_neg hhuge] at h ⊢
    by_cases hlarge : r.allAligned vaddr sz2m = true
    · have hunit : 2 ^ (12 + 9 * 1) ∣ r.alignedSize := (allAligned_iff (k := 21).1 hlarge).2.2
      have hbound : ∀ n ≤ r.alignedSize / 2 ^ (12 + 9 * 1) ⌈/⌉ 512 ^ 1, id n = capped n := by
        intro n hn
        have hle : n ≤ 512 := le_trans hn ((ceilDiv_le_iff_le_mul (by decide)).2 (by omega))
        exact (if_neg (Nat.not_lt.2 hle)).symm
      rw [if_pos hlarge] at h ⊢
      exact Follows.map (w := 1) (k := 2) rfl
        (Follows.turn (Follows.turn (follows_putEntry 1 _ 2 _) fun _ _ => rfl) hbound) hunit hlt h
    · rw [if_neg hlarge] at h ⊢
      exact Follows.map (w := 0) (k := 3) rfl
        (Follows.turn (Follows.turn (Follows.turn (follows_putEntry 0 _ 1 _) fun _ _ => rfl) fun _ _ => rfl)
          fun _ _ => rfl) hdvd hlt h

/-! ### No way to fail -/

section Exhaust

variable {root : ℕ} {r : Call} {S : AddressSpace} {areas : List ℕ}

/-- The start of an area that is returned. -/
theorem alloc_start (hS : Filled ⟨S.vmaTree, areas⟩) {p : ℕ} {R' : VmaRegion}
    (hrun : vmaAllocArea S.vmaTree r.alignedSize r.flags r.answer = some (some p, R')) :
    4096 ∣ (R'.vma p).vmStart ∧ kernelVmmap ≤ (R'.vma p).vmStart ∧ (R'.vma p).vmStart ≤ kernelOffset := by
  obtain ⟨l, hperm, hwf⟩ := hS.tree
  obtain ⟨place, hplace, hsome, -⟩ := hS.place (pageAlignUp r.alignedSize) hperm hwf
  have hused := hS.used_le
  rw [vmaAllocArea] at hrun
  simp only [Option.bind_eq_bind] at hrun
  obtain ⟨place', hplace', hrun⟩ := Option.bind_eq_some_iff.1 hrun
  obtain rfl : place = place' := Option.some_inj.1 (hplace.symm.trans hplace')
  cases place with
  | none => cases hrun
  | some start =>
      cases hans : r.answer with
      | none =>
          rw [hans] at hrun
          cases hrun
      | some q =>
          rw [hans] at hrun
          obtain ⟨⟨i, R₁⟩, hins, hrun⟩ := Option.bind_eq_some_iff.1 hrun
          obtain ⟨hq, rfl⟩ := Prod.mk.inj (Option.some_inj.1 hrun)
          obtain rfl := Option.some_inj.1 hq
          obtain ⟨hdvd, hlo, hle, -, -, -⟩ := hsome start rfl
          have hvma : R₁.vma q = ⟨start, Word.add start (pageAlignUp r.alignedSize), r.flags⟩ := by
            rw [vmaInsert_vma hins]
            exact Function.update_self _ _ _
          rw [hvma]
          exact ⟨hdvd, hlo, hle.trans hused⟩

/-- **With an area** a pointer is returned that is not null, and the area stays. -/
theorem ioremap_area (hS : Filled ⟨S.vmaTree, areas⟩) {p v : ℕ} {R' : VmaRegion} {S' : AddressSpace}
    (hrun : vmaAllocArea S.vmaTree r.alignedSize r.flags r.answer = some (some p, R'))
    (h : ioremap returnPtOrAlloc root r S = some (v, S')) : v ≠ 0 ∧ S'.vmaTree = R' := by
  obtain ⟨hdvd, hlo, hhi⟩ := alloc_start hS hrun
  rw [ioremap_of_area hrun] at h
  obtain ⟨tables, -, h⟩ := Option.map_eq_some_iff.1 h
  obtain ⟨rfl, rfl⟩ := Prod.mk.inj h
  refine ⟨?_, rfl⟩
  have hoffs : r.offs < 4096 := by
    rw [Call.offs, pageSize, show 4096 - 1 = 2 ^ 12 - 1 from rfl, Nat.and_two_pow_sub_one_eq_mod]
    exact Nat.mod_lt _ (by decide)
  have hbase : 0 < kernelVmmap := by decide
  have hoff : kernelOffset < 2 ^ 64 - 4096 := by decide
  rw [Word.add_of_lt (by omega)]
  omega

/-- When a frame is missing, there is an area whose window cannot be mapped. -/
theorem RunsOut.area (hout : RunsOut root r S) :
    ∃ p R', vmaAllocArea S.vmaTree r.alignedSize r.flags r.answer = some (some p, R') ∧
      mapWindow Pagetbl.returnPtOrAlloc (physToVirtPm (ptRebase root)) r (R'.vma p).vmStart S.tables =
        none := by
  obtain ⟨⟨out, R'⟩, hrun, hmap⟩ := Option.bind_eq_some_iff.1 hout
  obtain ⟨p, hp, hnone⟩ := Option.map_eq_some_iff.1 hmap
  obtain rfl : out = some p := hp
  exact ⟨p, R', hrun, Option.isNone_iff_eq_none.1 hnone⟩

/-- **No call fails cleanly** when a frame is missing while its window is mapped, and one that maps at
most 512 GiB uses an entry behind `KPAGE_ERR`. -/
theorem runsOut_not_clean (hS : Filled ⟨S.vmaTree, areas⟩) (hout : RunsOut root r S) :
    ¬ FailsCleanly root r S ∧
      (r.alignedSize ≤ 2 ^ 39 → ioremap returnPtOrAlloc root r S = none) := by
  obtain ⟨p, R', hrun, hnone⟩ := hout.area
  constructor
  · rintro ⟨S', hfail, -, -⟩
    exact (ioremap_area hS hrun hfail).1 rfl
  · intro hsize
    have hdvd : 4096 ∣ r.alignedSize := dvd_pageAlignUp (Word.add_lt _ _)
    rw [ioremap_of_area hrun, Option.map_eq_none_iff, Option.eq_none_iff_forall_ne_some]
    intro s' hmap
    cases hnone.symm.trans (mapWindow_strict hdvd hsize hmap)

end Exhaust

/-- No frames at all, and a window of a page. -/
theorem runsOut_not_clean_page :
    ¬ FailsCleanly 0x1000 ⟨0x100000, 0x1000, 0, some 0x40⟩ ⟨blankTables 0, vmaSubsystemInit⟩ ∧
      ((⟨0x100000, 0x1000, 0, some 0x40⟩ : Call).alignedSize ≤ 2 ^ 39 →
        ioremap returnPtOrAlloc 0x1000 ⟨0x100000, 0x1000, 0, some 0x40⟩
          ⟨blankTables 0, vmaSubsystemInit⟩ = none) :=
  runsOut_not_clean kernelSystem_filled (by decide +kernel)

/-- **The second table is missing**: an entry behind `KPAGE_ERR` is used. -/
theorem runsOut_fails : RunsOut 0x1000 ⟨0x100000, 0x1000, 0, some 0x40⟩ ⟨blankTables 1, vmaSubsystemInit⟩ ∧
    ¬ FailsCleanly 0x1000 ⟨0x100000, 0x1000, 0, some 0x40⟩ ⟨blankTables 1, vmaSubsystemInit⟩ := by
  refine ⟨by decide +kernel, ?_⟩
  rintro ⟨S', hfail, -⟩
  have hnone : (ioremap returnPtOrAlloc 0x1000 ⟨0x100000, 0x1000, 0, some 0x40⟩
      ⟨blankTables 1, vmaSubsystemInit⟩).isNone = true := by decide +kernel
  rw [hfail] at hnone
  cases hnone

end Vmalloc

end SyncKernel
