/-
**Runs of `ioremap`.**

`vma_alloc_area` places the windows one behind the other, at whatever page the last one ends.  The loops
that map a window count entries, and carry from the index in one table to the index in the table above
only where they begin a table.  So a window translates as it should when it begins with a table, or fits
into one, for the tables of each level, and when `pt_map_large` is not asked for more than 512 GiB.  Such
windows do not meet each other, so a run of them keeps all translations.

Main definitions:

* `Vmalloc.TableFits`, `Vmalloc.CallFits` — the windows that are mapped as they should be;
* `Vmalloc.System`, `Vmalloc.step` — a run of calls;
* `Vmalloc.Translates` — the windows translate to the addresses they were asked for.

Main results:

* `Vmalloc.mapWindow_spec` — **a window that fits** is mapped, and nothing else changes;
* `Vmalloc.ioremap_translates` — **runs of windows that fit** translate.
-/

import SyncKernel.Vma.Kernel
import SyncKernel.Vmalloc.Paths

set_option relaxedAutoImplicit false
set_option autoImplicit false

namespace SyncKernel

namespace Vmalloc

open Pagetbl Radix Vma

/-! ### Windows that fit -/

/-- The window begins with a table, or fits into one, where an entry stands for a part of `unit` bytes
of the table above. -/
def TableFits (start size unit : ℕ) : Prop := unit ∣ start ∨ start % unit + size ≤ unit

instance (start size unit : ℕ) : Decidable (TableFits start size unit) :=
  inferInstanceAs (Decidable (_ ∨ _))

/-- The window of a call fits, when it begins at `start`: into the tables of each level, and for large
pages into the first table of the third level. -/
structure CallFits (start : ℕ) (r : Call) : Prop where
  pages : TableFits start r.alignedSize (2 ^ 21)
  large : TableFits start r.alignedSize (2 ^ 30)
  huge : TableFits start r.alignedSize (2 ^ 39)
  bound : r.allAligned start sz1g = false → r.allAligned start sz2m = true → r.alignedSize ≤ 2 ^ 39

instance (start : ℕ) (r : Call) : Decidable (CallFits start r) :=
  decidable_of_iff (TableFits start r.alignedSize (2 ^ 21) ∧ TableFits start r.alignedSize (2 ^ 30) ∧
      TableFits start r.alignedSize (2 ^ 39) ∧
      (r.allAligned start sz1g = false → r.allAligned start sz2m = true → r.alignedSize ≤ 2 ^ 39))
    ⟨fun h => ⟨h.1, h.2.1, h.2.2.1, h.2.2.2⟩, fun h => ⟨h.pages, h.large, h.huge, h.bound⟩⟩

theorem isAligned_iff {x k : ℕ} : isAligned x (2 ^ k) = true ↔ 2 ^ k ∣ x := by
  rw [isAligned, decide_eq_true_iff, Nat.and_two_pow_sub_one_eq_mod, Nat.dvd_iff_mod_eq_zero]

theorem allAligned_iff {r : Call} {start k : ℕ} : r.allAligned start (2 ^ k) = true ↔
    2 ^ k ∣ r.alignedPhys ∧ 2 ^ k ∣ start ∧ 2 ^ k ∣ r.alignedSize := by
  rw [Call.allAligned, Bool.and_eq_true, Bool.and_eq_true, isAligned_iff, isAligned_iff, isAligned_iff,
    and_assoc]

/-- The digits behind the leaves that `ioremap` takes for a window at `start`. -/
def Call.leafDigits (r : Call) (start : ℕ) : ℕ :=
  if r.allAligned start sz1g then 2 else if r.allAligned start sz2m then 1 else 0

section LeafDigits

variable {r : Call} {start : ℕ}

theorem Call.leafDigits_cases (r : Call) (start : ℕ) :
    (r.leafDigits start = 2 ∧ r.allAligned start sz1g = true) ∨
      (r.leafDigits start = 1 ∧ r.allAligned start sz1g = false ∧ r.allAligned start sz2m = true) ∨
      (r.leafDigits start = 0 ∧ r.allAligned start sz1g = false ∧ r.allAligned start sz2m = false) := by
  unfold Call.leafDigits
  cases r.allAligned start sz1g <;> cases r.allAligned start sz2m <;> simp

theorem Call.leafDigits_le (r : Call) (start : ℕ) : r.leafDigits start ≤ 2 := by
  have hcases := r.leafDigits_cases start
  omega

/-- The window is a number of leaves. -/
theorem Call.leafDigits_dvd (hphys : 4096 ∣ r.alignedPhys) (hstart : 4096 ∣ start)
    (hsize : 4096 ∣ r.alignedSize) :
    2 ^ (12 + 9 * r.leafDigits start) ∣ r.alignedPhys ∧ 2 ^ (12 + 9 * r.leafDigits start) ∣ start ∧
      2 ^ (12 + 9 * r.leafDigits start) ∣ r.alignedSize := by
  rcases r.leafDigits_cases start with ⟨hw, hhuge⟩ | ⟨hw, -, hlarge⟩ | ⟨hw, -, -⟩
  · rw [hw]
    exact (allAligned_iff (k := 30)).1 hhuge
  · rw [hw]
    exact (allAligned_iff (k := 21)).1 hlarge
  · rw [hw]
    exact ⟨hphys, hstart, hsize⟩

end LeafDigits

section Window

variable {w root start paddr size : ℕ} {s s' : Tables}

/-- **Any window** is mapped leaf by leaf, whether its leaves come one behind the other or not; a window of
large pages if it has at most 512 GiB. -/
theorem Window.mapWindow_spec {r : Call} (h : Window w root s start r.alignedPhys r.alignedSize)
    (hw : r.leafDigits start = w) (hbound : w = 1 → r.alignedSize ≤ 2 ^ 39)
    (hframes : tablesFor 3 (r.alignedSize / 2 ^ 12) ≤ s.free.length) :
    ∃ s', mapWindow returnPtOrAlloc (physToVirtPm root) r start s = some s' ∧ Pagetbl.Sound root s' ∧
      Placed root s w (h.job r.flags).place (r.alignedSize / 2 ^ (12 + 9 * w)) (h.job r.flags).entry s' := by
  have hsize := h.size_dvd
  rw [mapWindow]
  rcases r.leafDigits_cases start with ⟨htwo, hhuge⟩ | ⟨hone, hhuge, hlarge⟩ | ⟨hzero, hhuge, hlarge⟩
  · obtain rfl : w = 2 := hw.symm.trans htwo
    obtain ⟨s', hs', hspec⟩ := h.huge_spec r.flags (by
      simp only [tablesFor, Nat.ceilDiv_eq_add_pred_div] at hframes ⊢
      omega)
    exact ⟨s', (if_pos hhuge).trans hs', hspec⟩
  · obtain rfl : w = 1 := hw.symm.trans hone
    obtain ⟨s', hs', hspec⟩ := h.large_spec r.flags (hbound rfl) (by
      simp only [tablesFor, Nat.ceilDiv_eq_add_pred_div] at hframes ⊢
      omega)
    exact ⟨s', (if_neg (by simp [hhuge])).trans ((if_pos hlarge).trans hs'), hspec⟩
  · obtain rfl : w = 0 := hw.symm.trans hzero
    obtain ⟨s', hs', hspec⟩ := h.norm_spec r.flags hframes
    exact ⟨s', (if_neg (by simp [hhuge])).trans ((if_neg (by simp [hlarge])).trans hs'), hspec⟩

/-- Where the tables of each level fit, no carry is lost. -/
theorem place_of_fits (hw : w ≤ 2) (hdvd : 2 ^ (12 + 9 * w) ∣ start) (hsize : 2 ^ (12 + 9 * w) ∣ size)
    (hlo : kernelVmmap ≤ start) (hhi : start + size ≤ 2 ^ 64)
    (hfits : ∀ k, 1 ≤ k → w + k ≤ 3 → TableFits start size (2 ^ (12 + 9 * (w + k)))) {m : ℕ}
    (hm : m < size / 2 ^ (12 + 9 * w)) :
    addDigits 512 (4 - w) (slot w start) m = slot w start + m := by
  unfold kernelVmmap at hlo
  refine addDigits_of_fits (by decide) ?_ (fun j hj => ?_) hm
  · rw [slot_eq hw]
    obtain rfl | rfl | rfl : w = 0 ∨ w = 1 ∨ w = 2 := by omega
    all_goals omega
  · cases j with
    | zero => exact Or.inl (one_dvd _)
    | succ k =>
        have hfit := hfits (k + 1) (by omega) (by omega)
        rw [slot_eq hw]
        unfold TableFits at hfit
        obtain ⟨rfl, rfl⟩ | ⟨rfl, rfl⟩ | ⟨rfl, rfl⟩ | ⟨rfl, rfl⟩ | ⟨rfl, rfl⟩ | ⟨rfl, rfl⟩ :
          (w = 0 ∧ k = 0) ∨ (w = 0 ∧ k = 1) ∨ (w = 0 ∧ k = 2) ∨ (w = 1 ∧ k = 0) ∨ (w = 1 ∧ k = 1) ∨
            (w = 2 ∧ k = 0) := by omega
        all_goals omega

/-- Nothing is mapped in the window. -/
def Blank (root : ℕ) (s : Tables) (start size : ℕ) : Prop :=
  ∀ n < 2 ^ 36, pageNumber start ≤ n → n < pageNumber start + size / 2 ^ 12 → find root s n = none

/-- The second tables translate the window to the addresses from `paddr` on, and all others as the first
ones do. -/
structure Maps (root : ℕ) (s : Tables) (start paddr size : ℕ) (s' : Tables) : Prop where
  window : ∀ x, start ≤ x → x < start + size → kptGetPhys s'.mem root x = paddr + (x - start)
  other : ∀ n < 2 ^ 36, n < pageNumber start ∨ pageNumber start + size / 2 ^ 12 ≤ n →
    find root s' n = find root s n

/-- The leaves of a window have the pages of it. -/
theorem slot_window (hw : w ≤ 2) (hdvd : 2 ^ (12 + 9 * w) ∣ start) (hsize : 2 ^ (12 + 9 * w) ∣ size)
    (n : ℕ) : (∃ m < size / 2 ^ (12 + 9 * w), n / 512 ^ w = slot w start + m) ↔
      pageNumber start ≤ n ∧ n < pageNumber start + size / 2 ^ 12 := by
  have hpage : slot w start = pageNumber start / 512 ^ w := rfl
  have hnumber : 512 ^ w ∣ pageNumber start := by
    unfold pageNumber
    obtain rfl | rfl | rfl : w = 0 ∨ w = 1 ∨ w = 2 := by omega
    all_goals omega
  rw [hpage]
  constructor
  · rintro ⟨m, hm, heq⟩
    obtain rfl | rfl | rfl : w = 0 ∨ w = 1 ∨ w = 2 := by omega
    all_goals omega
  · rintro ⟨hle, hlt⟩
    refine ⟨n / 512 ^ w - pageNumber start / 512 ^ w, ?_, ?_⟩
    all_goals
      obtain rfl | rfl | rfl : w = 0 ∨ w = 1 ∨ w = 2 := by omega
      all_goals omega

/-- **A window without carries** is mapped. -/
theorem Window.maps (h : Window w root s start paddr size) {flags : ℕ} (hpaddr : paddr + size ≤ 2 ^ 52)
    (hplace : ∀ m < size / 2 ^ (12 + 9 * w), (h.job flags).place m = slot w start + m)
    (hplaced : Placed root s w (h.job flags).place (size / 2 ^ (12 + 9 * w)) (h.job flags).entry s') :
    Maps root s start paddr size s' where
  window := by
    intro x hle hlt
    have hlo := h.lo
    have hhi := h.hi
    have hdvd := h.vaddr_dvd
    have hsize := h.size_dvd
    unfold kernelVmmap at hlo
    have hm : (x - start) / 2 ^ (12 + 9 * w) < size / 2 ^ (12 + 9 * w) := by
      obtain rfl | rfl | rfl : w = 0 ∨ w = 1 ∨ w = 2 := by have := h.w_le; omega
      all_goals omega
    have hslot : pageNumber x / 512 ^ w = slot w start + (x - start) / 2 ^ (12 + 9 * w) := by
      change slot w x = _
      rw [slot_eq h.w_le, slot_eq h.w_le]
      obtain rfl | rfl | rfl : w = 0 ∨ w = 1 ∨ w = 2 := by have := h.w_le; omega
      all_goals omega
    have hleaf := hplaced.leaf _ hm (pageNumber x) (pageNumber_lt x) (by rw [hslot, hplace _ hm])
    have hphys := h.phys_eq flags ((x - start) / 2 ^ (12 + 9 * w)) x
    rw [kptGetPhys_eq _ (ptRebase_eq h.root_dvd h.sound.root_lt)]
    change physOf x (find root s' (pageNumber x)) = _
    rw [hleaf, hphys]
    obtain rfl | rfl | rfl : w = 0 ∨ w = 1 ∨ w = 2 := by have := h.w_le; omega
    all_goals omega
  other := by
    intro n hn hout
    refine hplaced.other n hn fun m hm heq => ?_
    rw [hplace m hm] at heq
    have hin := (slot_window h.w_le h.vaddr_dvd h.size_dvd n).1 ⟨m, hm, heq⟩
    omega

end Window

/-- What `ioremap` knows of a window. -/
structure Ready (root : ℕ) (s : Tables) (r : Call) (start : ℕ) : Prop where
  root_dvd : 4096 ∣ root
  sound : Pagetbl.Sound root s
  start_dvd : 4096 ∣ start
  phys_dvd : 4096 ∣ r.alignedPhys
  size_dvd : 4096 ∣ r.alignedSize
  lo : kernelVmmap ≤ start
  hi : start + r.alignedSize ≤ 2 ^ 64
  phys_le : r.alignedPhys + r.alignedSize ≤ 2 ^ 52
  blank : Blank root s start r.alignedSize
  frames : tablesFor 3 (r.alignedSize / 2 ^ 12) ≤ s.free.length

namespace Ready

variable {w root start : ℕ} {s : Tables} {r : Call}

/-- No carry is lost in a window that fits. -/
theorem place (h : Ready root s r start) (hfit : CallFits start r) (hw : w ≤ 2)
    (hstart : 2 ^ (12 + 9 * w) ∣ start) (hsize : 2 ^ (12 + 9 * w) ∣ r.alignedSize) {m : ℕ}
    (hm : m < r.alignedSize / 2 ^ (12 + 9 * w)) :
    addDigits 512 (4 - w) (slot w start) m = slot w start + m := by
  refine place_of_fits hw hstart hsize h.lo h.hi (fun k hk hk' => ?_) hm
  obtain heq | heq | heq : w + k = 1 ∨ w + k = 2 ∨ w + k = 3 := by omega
  · rw [heq]
    exact hfit.pages
  · rw [heq]
    exact hfit.large
  · rw [heq]
    exact hfit.huge

/-- The window for leaves of one size. -/
theorem window (h : Ready root s r start) (hfit : CallFits start r) (hw : w ≤ 2)
    (hphys : 2 ^ (12 + 9 * w) ∣ r.alignedPhys) (hstart : 2 ^ (12 + 9 * w) ∣ start)
    (hsize : 2 ^ (12 + 9 * w) ∣ r.alignedSize) :
    Window w root s start r.alignedPhys r.alignedSize where
  w_le := hw
  root_dvd := h.root_dvd
  sound := h.sound
  vaddr_dvd := hstart
  paddr_dvd := hphys
  size_dvd := hsize
  paddr_lt := lt_of_le_of_lt (Nat.le_add_right _ r.alignedSize) (lt_of_le_of_lt h.phys_le (by decide))
  lo := h.lo
  hi := h.hi
  clear := by
    intro m hm n hn heq x hx
    rw [h.place hfit hw hstart hsize hm] at heq
    obtain ⟨hle, hlt⟩ := (slot_window hw hstart hsize n).1 ⟨m, hm, heq⟩
    cases (h.blank n hn hle hlt).symm.trans hx

/-- **A window that fits** is mapped, and nothing else changes. -/
theorem mapWindow_spec (h : Ready root s r start) (hfit : CallFits start r) :
    ∃ s', mapWindow returnPtOrAlloc (physToVirtPm root) r start s = some s' ∧ Pagetbl.Sound root s' ∧
      Maps root s start r.alignedPhys r.alignedSize s' := by
  obtain ⟨hphys, hstart, hsize⟩ := Call.leafDigits_dvd h.phys_dvd h.start_dvd h.size_dvd
  have hle := r.leafDigits_le start
  have hw := h.window hfit hle hphys hstart hsize
  have hbound : r.leafDigits start = 1 → r.alignedSize ≤ 2 ^ 39 := by
    intro hone
    rcases r.leafDigits_cases start with ⟨hw, -⟩ | ⟨-, hhuge, hlarge⟩ | ⟨hw, -, -⟩
    · exact absurd (hone.symm.trans hw) (by decide)
    · exact hfit.bound hhuge hlarge
    · exact absurd (hone.symm.trans hw) (by decide)
  obtain ⟨s', hs', hsound, hplaced⟩ := hw.mapWindow_spec rfl hbound h.frames
  exact ⟨s', hs', hsound, hw.maps h.phys_le (fun m hm => h.place hfit hle hstart hsize hm) hplaced⟩

end Ready

/-! ### Runs -/

/-- The state, and the pointers that the calls returned, with the calls. -/
structure System where
  space : AddressSpace
  windows : List (ℕ × Call)

/-- The structures of the areas of the windows. -/
def System.areas (S : System) : List ℕ := S.windows.filterMap fun w => w.2.answer

/-- `vma_tree` with the areas of the windows. -/
def System.vma (S : System) : Vma.System := ⟨S.space.vmaTree, S.areas⟩

/-- One call of `ioremap`. -/
def step (root : ℕ) (S : System) (r : Call) : Option System :=
  (ioremap returnPtOrAlloc root r S.space).map fun out =>
    ⟨out.2, if out.1 = 0 then S.windows else (out.1, r) :: S.windows⟩

/-- A call that the code can receive: physical addresses have 52 bits, `kslab_alloc` returns no structure
that is in use, and there are frames for all the tables that may be needed. -/
def Call.Valid (S : System) (r : Call) : Prop :=
  r.phy + r.len ≤ 2 ^ 52 ∧ Fresh r.answer S.areas ∧
    tablesFor 3 (r.alignedSize / 2 ^ 12) ≤ S.space.tables.free.length

/-- The call is refused, or its window ends below the kernel image and fits behind the others. -/
def Call.Fits (S : System) (r : Call) : Prop :=
  r.answer = none ∨ 2 ^ 64 < used S.vma + r.alignedSize ∨
    (used S.vma + r.alignedSize ≤ kernelOffset ∧ CallFits (used S.vma) r)

instance (S : System) (r : Call) : Decidable (r.Valid S) := inferInstanceAs (Decidable (_ ∧ _ ∧ _))

instance (S : System) (r : Call) : Decidable (r.Fits S) := inferInstanceAs (Decidable (_ ∨ _ ∨ _))

/-- The windows translate to the addresses that they were asked for. -/
def Translates (root : ℕ) (S : System) : Prop :=
  ∀ v r, (v, r) ∈ S.windows → ∀ i < r.len,
    kptGetPhys S.space.tables.mem root (Word.add v i) = r.phy + i

/-- **The invariant**: the windows are below the end of the areas, where they translate, and nothing is
mapped from there to the kernel image. -/
structure Holds (root : ℕ) (S : System) : Prop where
  root_dvd : 4096 ∣ root
  sound : Pagetbl.Sound root S.space.tables
  filled : Vma.Filled S.vma
  blank : ∀ n < 2 ^ 36, pageNumber (used S.vma) ≤ n → n < pageNumber kernelOffset →
    find root S.space.tables n = none
  window : ∀ v r, (v, r) ∈ S.windows → ∀ i < r.len,
    (kernelVmmap ≤ Word.add v i ∧ Word.add v i < used S.vma) ∧
      kptGetPhys S.space.tables.mem root (Word.add v i) = r.phy + i

section Step

variable {root : ℕ} {S : System} {r : Call}

theorem Call.offs_eq (r : Call) : r.offs = r.phy % 4096 := by
  rw [Call.offs, pageSize, show 4096 - 1 = 2 ^ 12 - 1 from rfl, Nat.and_two_pow_sub_one_eq_mod]

theorem Call.alignedSize_lt (r : Call) : r.alignedSize < 2 ^ 64 :=
  Nat.lt_of_le_of_lt Nat.and_le_left (Word.add_lt _ _)

theorem Call.alignedSize_dvd (r : Call) : 4096 ∣ r.alignedSize := dvd_pageAlignUp (Word.add_lt _ _)

/-- The size is rounded up once. -/
theorem Call.alignedSize_alignUp (r : Call) : pageAlignUp r.alignedSize = r.alignedSize := by
  have hlt := r.alignedSize_lt
  have hdvd := r.alignedSize_dvd
  rw [pageAlignUp_eq (by omega)]
  omega

/-- The size of a call, without wrapping. -/
theorem Call.alignedSize_eq (h : r.len + r.offs ≤ 2 ^ 64 - 4096) :
    r.alignedSize = (r.len + r.phy % 4096 + 4095) / 4096 * 4096 := by
  rw [Call.offs_eq] at h
  rw [Call.alignedSize, Call.offs_eq, Word.add_of_lt (by omega), pageAlignUp_eq (by omega)]

/-- The sizes of a call below the limit of physical addresses. -/
theorem Call.sizes (h : r.phy + r.len ≤ 2 ^ 52) :
    r.offs = r.phy % 4096 ∧ r.alignedPhys = r.phy / 4096 * 4096 ∧
      r.alignedSize = (r.len + r.phy % 4096 + 4095) / 4096 * 4096 :=
  ⟨r.offs_eq, pageAlignDown_eq (by omega), Call.alignedSize_eq (by rw [Call.offs_eq]; omega)⟩

theorem used_congr {V V' : Vma.System} (hg : V'.granted = V.granted)
    (h : ∀ a ∈ V.granted, V'.region.vma a = V.region.vma a) : used V' = used V := by
  rw [used, used, hg]
  exact congrArg (List.foldr max kernelVmmap) (List.map_congr_left fun a ha => by rw [h a ha])

/-- A window without pages fits anywhere. -/
theorem callFits_empty (start : ℕ) (hzero : r.alignedSize = 0) : CallFits start r := by
  have hfits : ∀ unit, 0 < unit → TableFits start r.alignedSize unit := fun unit hunit =>
    Or.inr (by rw [hzero]; exact Nat.le_of_lt (Nat.mod_lt _ hunit))
  exact ⟨hfits _ (by decide), hfits _ (by decide), hfits _ (by decide), fun _ _ => by rw [hzero]; decide⟩

/-- An area below the kernel image, which starts where the others end if it has pages. -/
structure Behind (V : Vma.System) (r : Call) (start : ℕ) : Prop where
  dvd : 4096 ∣ start
  lo : kernelVmmap ≤ start
  le : start ≤ used V
  pos : 0 < r.alignedSize → start = used V
  hi : start + r.alignedSize ≤ kernelOffset

namespace Behind

variable {V : Vma.System} {start : ℕ} {s s' : Tables}

/-- The area that `vma_alloc_area` returns. -/
theorem of_grants {p : ℕ} {R' : VmaRegion} (h : Grants V ⟨r.alignedSize, r.flags, r.answer⟩ (some p) R') :
    r.answer = some p ∧ ∃ start, Behind V r start ∧ R'.vma p = ⟨start, start + r.alignedSize, r.flags⟩ := by
  obtain ⟨hans, start, hdvd, hlo, hle, hpos, hend, hnew⟩ := h.new p rfl
  dsimp only at hans hpos hend hnew
  rw [r.alignedSize_alignUp] at hpos hend hnew
  exact ⟨hans, start, ⟨hdvd, hlo, hle, hpos, hend⟩, hnew⟩

/-- There is room behind the areas. -/
theorem room (h : Behind V r start) (hV : Filled V) : used V + r.alignedSize ≤ 2 ^ 64 := by
  have hoff : kernelOffset < 2 ^ 64 := by decide
  have hused := hV.used_le
  have hend := h.hi
  rcases Nat.eq_zero_or_pos r.alignedSize with hzero | hsome
  · omega
  · have hstart := h.pos hsome
    omega

/-- What fits behind the areas fits. -/
theorem callFits (h : Behind V r start) (hfit : CallFits (used V) r) : CallFits start r := by
  rcases Nat.eq_zero_or_pos r.alignedSize with hzero | hsome
  · exact callFits_empty start hzero
  · rw [h.pos hsome]
    exact hfit

/-- Nothing is mapped in the area. -/
theorem ready (h : Behind V r start) (hroot : 4096 ∣ root) (hs : Pagetbl.Sound root s)
    (hblank : ∀ n < 2 ^ 36, pageNumber (used V) ≤ n → n < pageNumber kernelOffset → find root s n = none)
    (hphy : r.phy + r.len ≤ 2 ^ 52) (hframes : tablesFor 3 (r.alignedSize / 2 ^ 12) ≤ s.free.length) :
    Ready root s r start := by
  obtain ⟨-, hphys, hsize⟩ := Call.sizes hphy
  have hbase : 2 ^ 64 - 2 ^ 47 < kernelVmmap := by decide
  have hoff : kernelOffset < 2 ^ 64 := by decide
  have hlo := h.lo
  have hend := h.hi
  refine ⟨hroot, hs, h.dvd, by rw [hphys]; exact Nat.dvd_mul_left _ _, r.alignedSize_dvd, hlo, by omega, by omega,
    fun n hn hge hlt => ?_, hframes⟩
  have hstart := h.pos (by omega)
  refine hblank n hn (by rw [← hstart]; exact hge) ?_
  unfold pageNumber at hlt ⊢
  omega

/-- The bytes of the call lie in the area. -/
theorem byte (h : Behind V r start) (hphy : r.phy + r.len ≤ 2 ^ 52) {i : ℕ} (hi : i < r.len) :
    Word.add (start + r.offs) i = start + (r.offs + i) ∧ r.offs + i < r.alignedSize := by
  obtain ⟨hoffs, -, hsize⟩ := Call.sizes hphy
  have hoff : kernelOffset < 2 ^ 64 := by decide
  have hend := h.hi
  have hlt : r.offs + i < r.alignedSize := by omega
  exact ⟨by rw [Word.add_of_lt (by omega), Nat.add_assoc], hlt⟩

/-- The pointer into the first page. -/
theorem pointer (h : Behind V r start) : Word.add start r.offs = start + r.offs := by
  have hoff : kernelOffset < 2 ^ 64 - 2 ^ 20 := by decide
  have hoffs := r.offs_eq
  have hend := h.hi
  exact Word.add_of_lt (by omega)

/-- The pointer translates to the address that was asked for. -/
theorem translates (h : Behind V r start) (hphy : r.phy + r.len ≤ 2 ^ 52)
    (hmaps : Maps root s start r.alignedPhys r.alignedSize s') {i : ℕ} (hi : i < r.len) :
    kptGetPhys s'.mem root (Word.add (start + r.offs) i) = r.phy + i := by
  obtain ⟨hadd, hlt⟩ := h.byte hphy hi
  obtain ⟨hoffs, hphys, -⟩ := Call.sizes hphy
  rw [hadd, hmaps.window _ (by omega) (by omega)]
  omega

/-- The page of an address in an area before it. -/
theorem outside (h : Behind V r start) (hV : Filled V) {x : ℕ} (hlo : kernelVmmap ≤ x) (hhi : x < used V) :
    pageNumber x < pageNumber start ∨ pageNumber start + r.alignedSize / 2 ^ 12 ≤ pageNumber x := by
  rcases Nat.eq_zero_or_pos r.alignedSize with hzero | hsome
  · rw [hzero]
    omega
  · have hbase : 2 ^ 64 - 2 ^ 47 < kernelVmmap := by decide
    have hoff : kernelOffset < 2 ^ 64 := by decide
    have hused := hV.used_le
    have hdvd := h.dvd
    have hstart := h.pos hsome
    unfold pageNumber
    omega

/-- The pages behind it. -/
theorem after (h : Behind V r start) (hV : Filled V) {n : ℕ} (hge : pageNumber (used V + r.alignedSize) ≤ n) :
    pageNumber (used V) ≤ n ∧ pageNumber start + r.alignedSize / 2 ^ 12 ≤ n := by
  have hbase : 2 ^ 64 - 2 ^ 47 < kernelVmmap := by decide
  have hoff : kernelOffset < 2 ^ 64 := by decide
  have hused := hV.used_le
  have hlo := h.lo
  have hle := h.le
  have hend := h.hi
  rcases Nat.eq_zero_or_pos r.alignedSize with hzero | hsome
  · rw [hzero] at hge ⊢
    unfold pageNumber at hge ⊢
    omega
  · have hstart := h.pos hsome
    have hsize := r.alignedSize_dvd
    unfold pageNumber at hge ⊢
    omega

end Behind

namespace Holds

/-- A call that is refused. -/
theorem refused (h : Holds root S) {R' : VmaRegion}
    (hgrants : Grants S.vma ⟨r.alignedSize, r.flags, r.answer⟩ none R') :
    Holds root ⟨⟨S.space.tables, R'⟩, S.windows⟩ := by
  have hused : used ⟨R', S.areas⟩ = used S.vma := used_congr rfl hgrants.old
  refine ⟨h.root_dvd, h.sound, hgrants.filled, ?_, ?_⟩
  · change ∀ n < 2 ^ 36, pageNumber (used ⟨R', S.areas⟩) ≤ n → _
    rw [hused]
    exact h.blank
  · change ∀ v r', (v, r') ∈ S.windows → ∀ i < r'.len, (_ ∧ _ < used ⟨R', S.areas⟩) ∧ _
    rw [hused]
    exact h.window

/-- The windows with a new one. -/
theorem windows (h : Holds root S) (hphy : r.phy + r.len ≤ 2 ^ 52) {start : ℕ} {s' : Tables}
    (hb : Behind S.vma r start) (hmaps : Maps root S.space.tables start r.alignedPhys r.alignedSize s') (v : ℕ)
    (r' : Call) (hv : (v, r') ∈ (start + r.offs, r) :: S.windows) (i : ℕ) (hi : i < r'.len) :
    (kernelVmmap ≤ Word.add v i ∧ Word.add v i < used S.vma + r.alignedSize) ∧
      kptGetPhys s'.mem root (Word.add v i) = r'.phy + i := by
  rcases List.mem_cons.1 hv with heq | hv
  · obtain ⟨rfl, rfl⟩ := Prod.mk.inj heq
    obtain ⟨hadd, hlt⟩ := hb.byte hphy hi
    have hlo := hb.lo
    have hstart := hb.pos (by omega)
    exact ⟨by rw [hadd]; omega, hb.translates hphy hmaps hi⟩
  · obtain ⟨⟨hlo, hhi⟩, htranslate⟩ := h.window v r' hv i hi
    have hrebase : ptRebase root = root := ptRebase_eq h.root_dvd h.sound.root_lt
    refine ⟨⟨hlo, hhi.trans_le (Nat.le_add_right _ _)⟩, ?_⟩
    rw [kptGetPhys_eq _ hrebase] at htranslate ⊢
    rw [← htranslate]
    exact congrArg (physOf _) (hmaps.other _ (pageNumber_lt _) (hb.outside h.filled hlo hhi))

/-- A call that is mapped. -/
theorem mapped (h : Holds root S) (hphy : r.phy + r.len ≤ 2 ^ 52) {start p : ℕ} {s' : Tables} {R' : VmaRegion}
    (hgrants : Grants S.vma ⟨r.alignedSize, r.flags, r.answer⟩ (some p) R') (hans : r.answer = some p)
    (hb : Behind S.vma r start) (hnew : R'.vma p = ⟨start, start + r.alignedSize, r.flags⟩)
    (hsound : Pagetbl.Sound root s') (hmaps : Maps root S.space.tables start r.alignedPhys r.alignedSize s') :
    Holds root ⟨⟨s', R'⟩, (start + r.offs, r) :: S.windows⟩ := by
  have hareas : System.areas ⟨⟨s', R'⟩, (start + r.offs, r) :: S.windows⟩ = p :: S.areas := by
    rw [System.areas, List.filterMap_cons, hans]
    rfl
  have hold : used ⟨R', S.areas⟩ = used S.vma := used_congr rfl hgrants.old
  have hused : used (System.vma ⟨⟨s', R'⟩, (start + r.offs, r) :: S.windows⟩) = used S.vma + r.alignedSize := by
    rw [System.vma, hareas, used]
    change max (R'.vma p).vmEnd (used ⟨R', S.areas⟩) = _
    rw [hold, hnew]
    change max (start + r.alignedSize) (used S.vma) = _
    have hle := hb.le
    rcases Nat.eq_zero_or_pos r.alignedSize with hzero | hsome
    · omega
    · have hstart := hb.pos hsome
      omega
  have hfilled : Vma.Filled (System.vma ⟨⟨s', R'⟩, (start + r.offs, r) :: S.windows⟩) := by
    rw [System.vma, hareas]
    exact hgrants.filled
  refine ⟨h.root_dvd, hsound, hfilled, fun n hn hge hlt => ?_, ?_⟩
  · rw [hused] at hge
    obtain ⟨hafter, hout⟩ := hb.after h.filled hge
    exact (hmaps.other n hn (Or.inr hout)).trans (h.blank n hn hafter hlt)
  · rw [hused]
    exact h.windows hphy hb hmaps

/-- **One call** that is refused, or whose window fits. -/
theorem step_spec (h : Holds root S) (hr : r.Valid S) (hfits : r.Fits S) :
    ∃ S', step root S r = some S' ∧ Holds root S' := by
  obtain ⟨hphy, hfresh, hframes⟩ := hr
  have hvalid : Request.Valid S.vma ⟨r.alignedSize, r.flags, r.answer⟩ := ⟨r.alignedSize_lt, hfresh⟩
  have hbelow : BelowKernel S.vma ⟨r.alignedSize, r.flags, r.answer⟩ := by
    rw [BelowKernel, r.alignedSize_alignUp]
    exact hfits.imp_right fun h => h.symm.imp_left And.left
  obtain ⟨out, R', hrun, hgrants⟩ := h.filled.alloc_spec hvalid hbelow
  replace hrun : vmaAllocArea S.space.vmaTree r.alignedSize r.flags r.answer = some (out, R') := hrun
  cases out with
  | none =>
      refine ⟨_, ?_, h.refused hgrants⟩
      rw [step, ioremap_of_none hrun]
      rfl
  | some p =>
      obtain ⟨hans, start, hb, hnew⟩ := Behind.of_grants hgrants
      have hfit : CallFits (used S.vma) r := by
        rcases hfits with hnone | hover | hfit
        · cases hnone.symm.trans hans
        · exact absurd hover (Nat.not_lt.2 (hb.room h.filled))
        · exact hfit.2
      have hready := hb.ready h.root_dvd h.sound h.blank hphy hframes
      obtain ⟨s', hs', hsound, hmaps⟩ := hready.mapWindow_spec (hb.callFits hfit)
      have hioremap : ioremap returnPtOrAlloc root r S.space = some (start + r.offs, ⟨s', R'⟩) := by
        rw [ioremap_of_area hrun, ptRebase_eq h.root_dvd h.sound.root_lt, hnew, hs', Option.map_some, hb.pointer]
      have hne : start + r.offs ≠ 0 := by
        have hbase : 0 < kernelVmmap := by decide
        have hlo := hb.lo
        omega
      refine ⟨_, ?_, h.mapped hphy hgrants hans hb hnew hsound hmaps⟩
      rw [step, hioremap]
      exact congrArg (fun windows => some (System.mk ⟨s', R'⟩ windows)) (if_neg hne)

/-- The windows of the invariant translate. -/
theorem translates (h : Holds root S) : Translates root S := fun v r hv i hi => (h.window v r hv i hi).2

end Holds

end Step

/-- The page tables `s`, and `vma_tree` before the first call. -/
def start (s : Tables) : System := ⟨⟨s, vmaSubsystemInit⟩, []⟩

theorem holds_start {root : ℕ} {s : Tables} (hroot : 4096 ∣ root) (hs : Pagetbl.Sound root s)
    (hblank : ∀ n, pageNumber kernelVmmap ≤ n → n < pageNumber kernelOffset → find root s n = none) :
    Holds root (start s) where
  root_dvd := hroot
  sound := hs
  filled := kernelSystem_filled
  blank := fun n _ => hblank n
  window := fun _ _ hv => absurd hv List.not_mem_nil

/-- **Runs of windows that fit** translate: no call uses an entry behind `KPAGE_ERR`, and at the end of the
run each pointer that was returned translates to the addresses that it was asked for. -/
theorem ioremap_translates {root : ℕ} {s : Tables} (hroot : 4096 ∣ root) (hs : Pagetbl.Sound root s)
    (hblank : ∀ n, pageNumber kernelVmmap ≤ n → n < pageNumber kernelOffset → find root s n = none)
    (rs : List Call) (hrs : Run.Along (step root) (fun S r => r.Valid S ∧ r.Fits S) (start s) rs) :
    ∃ S', Run.exec (step root) (start s) rs = some S' ∧ Translates root S' := by
  obtain ⟨S', hS', hholds⟩ := Run.exec_of_along (I := Holds root) (fun S r h hr => h.step_spec hr.1 hr.2)
    (holds_start hroot hs hblank) hrs
  exact ⟨S', hS', hholds.translates⟩

/-- Two pages of two devices. -/
theorem ioremap_translates_two : ∃ S', Run.exec (step 0x1000) (start (blankTables 6))
    [⟨0x100000, 0x1000, vmWrite, some 0x40⟩, ⟨0x200010, 0x20, vmIo, some 0x80⟩] = some S' ∧
    Translates 0x1000 S' := by
  obtain ⟨hsound, hblank⟩ := blankTables_sound (n := 6) (by decide)
  exact ioremap_translates (by decide) hsound (fun n _ _ => hblank n) _ (by decide +kernel)

/-- A page of one device, and 2 MiB of another one. -/
def overlapping : List Call := [⟨0x100000, 0x1000, 0, some 0x40⟩, ⟨0x200000, 0x200000, 0, some 0x80⟩]

/-- **The second window overwrites the first one**: it leaves the last table by a page, which it puts in
front of the others. -/
theorem ioremap_overwrites :
    (Pagetbl.Sound 0x1000 (blankTables 6) ∧ ∀ n, find 0x1000 (blankTables 6) n = none) ∧
      Run.Along (step 0x1000) (fun S r => r.Valid S) (start (blankTables 6)) overlapping ∧
      ¬ ∃ S', Run.exec (step 0x1000) (start (blankTables 6)) overlapping = some S' ∧
        Translates 0x1000 S' := by
  refine ⟨blankTables_sound (by decide), by decide +kernel, ?_⟩
  rintro ⟨S', hS', htranslates⟩
  have hwindows : (Run.exec (step 0x1000) (start (blankTables 6)) overlapping).map System.windows =
      some [(kernelVmmap + 0x1000, ⟨0x200000, 0x200000, 0, some 0x80⟩),
        (kernelVmmap, ⟨0x100000, 0x1000, 0, some 0x40⟩)] := by decide +kernel
  have hphys : (Run.exec (step 0x1000) (start (blankTables 6)) overlapping).map
      (fun S => kptGetPhys S.space.tables.mem 0x1000 kernelVmmap) = some 0x3FF000 := by decide +kernel
  rw [hS', Option.map_some, Option.some_inj] at hwindows hphys
  have hfirst := htranslates kernelVmmap ⟨0x100000, 0x1000, 0, some 0x40⟩ (by rw [hwindows]; simp) 0
    (by decide)
  have hzero : Word.add kernelVmmap 0 = kernelVmmap := by decide
  rw [hzero, hphys] at hfirst
  exact absurd hfirst (by decide)

end Vmalloc

end SyncKernel
