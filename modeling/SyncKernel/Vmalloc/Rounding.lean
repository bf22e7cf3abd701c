/-
**Rounded sizes.**

`kbud_alloc_range`, `vma_alloc_area` and `ioremap` round the size up to pages before they look at it.  In
the last page of the 64-bit range the rounding wraps, for `ioremap` behind the sum of the size and the
offset in the page: they go on with a page, or with none, and do not fail.

A window of `ioremap` has the size that was asked for in two other respects only if it fits: its device
ends at the limit of physical addresses, and no carry between its tables is lost.

Main definitions:

* `Vmalloc.Refused` — `vma_alloc_area` returns no area;
* `Vmalloc.WindowFits` — nothing wraps, and the window fits;
* `Vmalloc.WindowServes` — the call fails, or maps as many bytes as it was asked for;
* `Vmalloc.Prepared` — the state in front of a call.

Main results:

* `Vmalloc.Window.exact` — **a window that is mapped byte by byte** loses no carry;
* `Vmalloc.windowServes_iff` — **the exact condition** for `ioremap`;
* `Vmalloc.provides_iff` — **the three sizes**.
-/

import SyncKernel.Buddy.Range
import SyncKernel.Vma.Size
import SyncKernel.Vmalloc.Exhaust
import SyncKernel.Vmalloc.Large

set_option relaxedAutoImplicit false
set_option autoImplicit false

namespace SyncKernel

namespace Vmalloc

open Pagetbl Radix Vma

/-! ### Windows that fit -/

section Fits

variable {w root start paddr size : ℕ} {s s' : Tables}

/-- A translation is the error value, or has 52 bits. -/
theorem physOf_lt {v : ℕ} {x : Option (ℕ × ℕ)} (hx : ∀ e ∈ x, e.1 ≤ 2) :
    physOf v x = kpageErr ∨ physOf v x < 2 ^ 52 := by
  cases x with
  | none => exact Or.inl rfl
  | some e =>
      obtain ⟨ℓ, e⟩ := e
      have hℓ : ℓ ≤ 2 := hx _ rfl
      refine Or.inr (Nat.or_lt_two_pow ?_ ?_)
      · have hmask : bitrangeMask 51 (12 + 9 * ℓ) < 2 ^ (40 - 9 * ℓ) := by
          rw [bitrangeMask, Nat.one_shiftLeft, show 51 - (12 + 9 * ℓ) + 1 = 40 - 9 * ℓ by omega]
          exact Nat.sub_lt (Nat.two_pow_pos _) Nat.one_pos
        have hand := Nat.lt_of_le_of_lt (Nat.and_le_right (n := e >>> (12 + 9 * ℓ))) hmask
        rw [pagePhysRebase, Nat.shiftLeft_eq]
        calc (e >>> (12 + 9 * ℓ) &&& bitrangeMask 51 (12 + 9 * ℓ)) * 2 ^ (12 + 9 * ℓ)
            < 2 ^ (40 - 9 * ℓ) * 2 ^ (12 + 9 * ℓ) := Nat.mul_lt_mul_of_pos_right hand (Nat.two_pow_pos _)
          _ = 2 ^ 52 := by rw [← Nat.pow_add, show 40 - 9 * ℓ + (12 + 9 * ℓ) = 52 by omega]
      · have hmask : bitrangeMask (11 + 9 * ℓ) 0 < 2 ^ (12 + 9 * ℓ) := by
          rw [bitrangeMask, Nat.one_shiftLeft, show 11 + 9 * ℓ - 0 + 1 = 12 + 9 * ℓ by omega]
          exact Nat.sub_lt (Nat.two_pow_pos _) Nat.one_pos
        exact Nat.lt_of_le_of_lt Nat.and_le_right
          (Nat.lt_of_lt_of_le hmask (Nat.pow_le_pow_right (by decide) (by omega)))

theorem kptGetPhys_lt (hroot : ptRebase root = root) (s : Tables) (v : ℕ) :
    kptGetPhys s.mem root v = kpageErr ∨ kptGetPhys s.mem root v < 2 ^ 52 := by
  rw [kptGetPhys_eq _ hroot]
  exact physOf_lt fun e (he : find root s (pageNumber v) = some e) => find_level he

/-- Where no carry is lost the tables of each level fit. -/
theorem fits_of_place (hw : w ≤ 2) (hdvd : 2 ^ (12 + 9 * w) ∣ start) (hsize : 2 ^ (12 + 9 * w) ∣ size)
    (hplace : ∀ m < size / 2 ^ (12 + 9 * w), addDigits 512 (4 - w) (slot w start) m = slot w start + m)
    {k : ℕ} (hk : 1 ≤ k) (hwk : w + k ≤ 3) : TableFits start size (2 ^ (12 + 9 * (w + k))) := by
  have hfits := fits_of_addDigits (by decide) (show k ≤ 4 - w by omega) hplace
  rw [slot_eq hw] at hfits
  unfold TableFits
  obtain ⟨rfl, rfl⟩ | ⟨rfl, rfl⟩ | ⟨rfl, rfl⟩ | ⟨rfl, rfl⟩ | ⟨rfl, rfl⟩ | ⟨rfl, rfl⟩ :
    (w = 0 ∧ k = 1) ∨ (w = 0 ∧ k = 2) ∨ (w = 0 ∧ k = 3) ∨ (w = 1 ∧ k = 1) ∨ (w = 1 ∧ k = 2) ∨
      (w = 2 ∧ k = 1) := by omega
  all_goals omega

/-- **A window that is mapped byte by byte**, but for less than a page at each end: the device ends at the
limit of physical addresses, and no carry is lost. -/
theorem Window.exact (h : Window w root s start paddr size) {flags offs len : ℕ} (hpaddr : paddr < 2 ^ 52)
    (hblank : Blank root s start size)
    (hplaced : Placed root s w (h.job flags).place (size / 2 ^ (12 + 9 * w)) (h.job flags).entry s')
    (hoffs : offs < 4096) (hlen : 0 < len) (hcover : size < offs + len + 4096) (hle : offs + len ≤ size)
    (hexact : ∀ i < len, kptGetPhys s'.mem root (start + offs + i) = paddr + offs + i) :
    paddr + size ≤ 2 ^ 52 ∧
      ∀ m < size / 2 ^ (12 + 9 * w), addDigits 512 (4 - w) (slot w start) m = slot w start + m := by
  have hlo := h.lo
  have hhi := h.hi
  have hw := h.w_le
  have hstart := h.vaddr_dvd
  have hphys := h.paddr_dvd
  have hsize := h.size_dvd
  unfold kernelVmmap at hlo
  -- the leaf behind a byte that is asked for, of any leaf of the window
  have hleaf : ∀ m < size / 2 ^ (12 + 9 * w), ∃ m' < size / 2 ^ (12 + 9 * w),
      slot w start + m = addDigits 512 (4 - w) (slot w start) m' ∧
        (paddr + m' * 2 ^ (12 + 9 * w)) % 2 ^ 52 = paddr + m * 2 ^ (12 + 9 * w) := by
    intro m hm
    obtain ⟨i, hi, hbyte⟩ : ∃ i < len, m * 2 ^ (12 + 9 * w) ≤ offs + i ∧
        offs + i < (m + 1) * 2 ^ (12 + 9 * w) := by
      refine ⟨m * 2 ^ (12 + 9 * w) - offs, ?_, ?_⟩
      all_goals
        obtain rfl | rfl | rfl : w = 0 ∨ w = 1 ∨ w = 2 := by omega
        all_goals omega
    have hslot : pageNumber (start + offs + i) / 512 ^ w = slot w start + m := by
      change slot w (start + offs + i) = _
      rw [slot_eq hw, slot_eq hw]
      obtain rfl | rfl | rfl : w = 0 ∨ w = 1 ∨ w = 2 := by omega
      all_goals omega
    have hphysof := hexact i hi
    rw [kptGetPhys_find h.root_dvd h.sound] at hphysof
    change physOf _ (find root s' (pageNumber (start + offs + i))) = _ at hphysof
    have hn := pageNumber_lt (start + offs + i)
    by_cases hfound : ∃ m' < size / 2 ^ (12 + 9 * w),
        pageNumber (start + offs + i) / 512 ^ w = (h.job flags).place m'
    · obtain ⟨m', hm', hplace⟩ := hfound
      refine ⟨m', hm', hslot.symm.trans hplace, ?_⟩
      rw [hplaced.leaf m' hm' _ hn hplace, h.phys_eq] at hphysof
      obtain rfl | rfl | rfl : w = 0 ∨ w = 1 ∨ w = 2 := by omega
      all_goals omega
    · -- a page that is not mapped
      push Not at hfound
      obtain ⟨hge, hlt⟩ := (slot_window hw hstart hsize _).1 ⟨m, hm, hslot⟩
      rw [hplaced.other _ hn hfound, hblank _ hn hge hlt] at hphysof
      change 2 ^ 64 - 1 = _ at hphysof
      omega
  have hend : paddr + size ≤ 2 ^ 52 := by
    rcases Nat.eq_zero_or_pos (size / 2 ^ (12 + 9 * w)) with hzero | hpos
    · obtain rfl | rfl | rfl : w = 0 ∨ w = 1 ∨ w = 2 := by omega
      all_goals omega
    · obtain ⟨m', -, -, heq⟩ := hleaf (size / 2 ^ (12 + 9 * w) - 1) (by omega)
      have hlast := Nat.mod_lt (paddr + m' * 2 ^ (12 + 9 * w)) (show 0 < 2 ^ 52 by decide)
      rw [heq] at hlast
      obtain rfl | rfl | rfl : w = 0 ∨ w = 1 ∨ w = 2 := by omega
      all_goals omega
  refine ⟨hend, fun m hm => ?_⟩
  obtain ⟨m', hm', hplace, heq⟩ := hleaf m hm
  have hsame : m' = m := by
    obtain rfl | rfl | rfl : w = 0 ∨ w = 1 ∨ w = 2 := by omega
    all_goals omega
  rw [← hsame] at hplace ⊢
  exact hplace.symm

/-- A page fits anywhere. -/
theorem callFits_page {r : Call} (hdvd : 4096 ∣ start) (hsize : r.alignedSize ≤ 4096) : CallFits start r :=
  ⟨Or.inr (by omega), Or.inr (by omega), Or.inr (by omega), fun _ _ => hsize.trans (by decide)⟩

end Fits

/-! ### A call -/

/-- `vma_alloc_area` returns no area: `kslab_alloc` has no structure, or there is no room behind the areas. -/
def Refused (S : AddressSpace) (areas : List ℕ) (r : Call) : Prop :=
  r.answer = none ∨ 2 ^ 64 < used ⟨S.vmaTree, areas⟩ + r.alignedSize

/-- The size with the offset is not in the last page of the range, nor behind it; the device ends at the
limit of physical addresses; and the window behind the areas fits. -/
def WindowFits (S : AddressSpace) (areas : List ℕ) (r : Call) : Prop :=
  r.len + r.offs ≤ 2 ^ 64 - 4096 ∧ r.phy + r.len ≤ 2 ^ 52 ∧ CallFits (used ⟨S.vmaTree, areas⟩) r

instance (S : AddressSpace) (areas : List ℕ) (r : Call) : Decidable (WindowFits S areas r) :=
  inferInstanceAs (Decidable (_ ∧ _ ∧ _))

/-- `ioremap` returns a null pointer, or maps the bytes from the returned pointer on to the device, as many
as it was asked for. -/
def WindowServes (root : ℕ) (S : AddressSpace) (r : Call) : Prop :=
  ∃ v S', ioremap returnPtOrAlloc root r S = some (v, S') ∧
    (v = 0 ∨ ∀ i < r.len, kptGetPhys S'.tables.mem root (Word.add v i) = r.phy + i)

/-- Where the loops come to with leaves that have `w` digits behind them, no larger leaf is in the way. -/
def NoLargerLeaf (root : ℕ) (s : Tables) (start size w : ℕ) : Prop :=
  ∀ m < size / 2 ^ (12 + 9 * w), ∀ n < 2 ^ 36,
    n / 512 ^ w = addDigits 512 (4 - w) (slot w start) m → ∀ x, find root s n = some x → x.1 ≤ w

/-- The state in front of a call, with the areas of `vma_tree`.  Nothing is mapped between the areas and the
kernel image.  If the call is not refused, its window ends below the kernel image, there are frames for all
the tables that may be needed, and where the loops come to no leaf is in the way that is larger than theirs.
For windows that fit, and for those of a single page, the last of these follows from the others. -/
structure Prepared (root : ℕ) (S : AddressSpace) (areas : List ℕ) (r : Call) : Prop where
  root_dvd : 4096 ∣ root
  sound : Pagetbl.Sound root S.tables
  filled : Filled ⟨S.vmaTree, areas⟩
  blank : ∀ n < 2 ^ 36, pageNumber (used ⟨S.vmaTree, areas⟩) ≤ n → n < pageNumber kernelOffset →
    find root S.tables n = none
  fresh : Fresh r.answer areas
  phy_lt : r.phy < 2 ^ 52
  len_lt : r.len < 2 ^ 64
  below : ¬ Refused S areas r → used ⟨S.vmaTree, areas⟩ + r.alignedSize ≤ kernelOffset
  frames : ¬ Refused S areas r → tablesFor 3 (r.alignedSize / 2 ^ 12) ≤ S.tables.free.length
  clear : ¬ Refused S areas r → NoLargerLeaf root S.tables (used ⟨S.vmaTree, areas⟩) r.alignedSize
    (r.leafDigits (used ⟨S.vmaTree, areas⟩))

/-- `vma_alloc_area` returns no area only if the call is refused. -/
theorem refused_of_none {S : AddressSpace} {areas : List ℕ} {r : Call} {R' : VmaRegion}
    (h : Filled ⟨S.vmaTree, areas⟩)
    (hrun : vmaAllocArea S.vmaTree r.alignedSize r.flags r.answer = some (none, R')) : Refused S areas r := by
  obtain ⟨l, hperm, hwf⟩ := h.tree
  obtain ⟨place, hplace, -, hnone⟩ := h.place (pageAlignUp r.alignedSize) hperm hwf
  rw [r.alignedSize_alignUp] at hnone
  cases hans : r.answer with
  | none => exact Or.inl hans
  | some p =>
      cases place with
      | none => exact Or.inr (hnone rfl)
      | some start =>
          rw [hans] at hrun
          dsimp only at hplace
          simp only [vmaAllocArea, hplace, Option.bind_eq_bind, Option.bind_some, allocAt] at hrun
          obtain ⟨⟨i, R₁⟩, -, hrun⟩ := Option.bind_eq_some_iff.1 hrun
          cases (Prod.mk.inj (Option.some_inj.1 hrun)).1

namespace Prepared

variable {root : ℕ} {S : AddressSpace} {areas : List ℕ} {r : Call}

/-- The answer of `vma_alloc_area`. -/
theorem alloc (h : Prepared root S areas r) :
    ∃ out R', vmaAllocArea S.vmaTree r.alignedSize r.flags r.answer = some (out, R') ∧
      (out = none → Refused S areas r) ∧
      ∀ p ∈ out, ¬ Refused S areas r ∧
        ∃ start, Behind ⟨S.vmaTree, areas⟩ r start ∧ (R'.vma p).vmStart = start := by
  have hvalid : Request.Valid ⟨S.vmaTree, areas⟩ ⟨r.alignedSize, r.flags, r.answer⟩ :=
    ⟨r.alignedSize_lt, h.fresh⟩
  have hbelow : BelowKernel ⟨S.vmaTree, areas⟩ ⟨r.alignedSize, r.flags, r.answer⟩ := by
    rw [BelowKernel, r.alignedSize_alignUp]
    by_cases hrefused : Refused S areas r
    · exact hrefused.imp_right Or.inr
    · exact Or.inr (Or.inl (h.below hrefused))
  obtain ⟨out, R', hrun, hgrants⟩ := h.filled.alloc_spec hvalid hbelow
  replace hrun : vmaAllocArea S.vmaTree r.alignedSize r.flags r.answer = some (out, R') := hrun
  refine ⟨out, R', hrun, fun hnone => refused_of_none h.filled (hnone ▸ hrun), fun p hp => ?_⟩
  obtain rfl : out = some p := hp
  obtain ⟨hans, start, hb, hnew⟩ := Behind.of_grants hgrants
  refine ⟨?_, start, hb, by rw [hnew]⟩
  rintro (hnone | hover)
  · cases hnone.symm.trans hans
  · exact absurd hover (Nat.not_lt.2 (hb.room h.filled))

/-- **A window that fits** is mapped byte by byte. -/
theorem serves (h : Prepared root S areas r) (hcond : Refused S areas r ∨ WindowFits S areas r) :
    WindowServes root S r := by
  obtain ⟨out, R', hrun, -, hout⟩ := h.alloc
  cases out with
  | none => exact ⟨0, _, ioremap_of_none hrun, Or.inl rfl⟩
  | some p =>
      obtain ⟨hrefused, start, hb, hstart⟩ := hout p rfl
      obtain ⟨-, hphy, hfits⟩ := hcond.resolve_left hrefused
      have hready := hb.ready h.root_dvd h.sound h.blank hphy (h.frames hrefused)
      obtain ⟨s', hs', -, hmaps⟩ := hready.mapWindow_spec (hb.callFits hfits)
      refine ⟨start + r.offs, ⟨s', R'⟩, ?_, Or.inr fun i hi => hb.translates hphy hmaps hi⟩
      rw [ioremap_of_area hrun, ptRebase_eq h.root_dvd h.sound.root_lt, hstart, hs', Option.map_some, hb.pointer]

/-- The window behind the areas, for the leaves that `ioremap` takes. -/
theorem window (h : Prepared root S areas r) (hrefused : ¬ Refused S areas r)
    (hdvd : 4096 ∣ used ⟨S.vmaTree, areas⟩) :
    Window (r.leafDigits (used ⟨S.vmaTree, areas⟩)) root S.tables (used ⟨S.vmaTree, areas⟩) r.alignedPhys
      r.alignedSize ∧ Blank root S.tables (used ⟨S.vmaTree, areas⟩) r.alignedSize := by
  have hphy := h.phy_lt
  have hphys : r.alignedPhys = r.phy / 4096 * 4096 := pageAlignDown_eq (by omega)
  have hbelow := h.below hrefused
  have hlo := (used_le_iff.1 (le_refl (used ⟨S.vmaTree, areas⟩))).1
  have hoff : kernelOffset < 2 ^ 64 := by decide
  have hbase : 2 ^ 64 - 2 ^ 47 < kernelVmmap := by decide
  obtain ⟨hphysd, hstartd, hsized⟩ := Call.leafDigits_dvd (r := r) (by rw [hphys]; exact Nat.dvd_mul_left _ _)
    hdvd r.alignedSize_dvd
  refine ⟨⟨r.leafDigits_le _, h.root_dvd, h.sound, hstartd, hphysd, hsized, by omega, hlo, by omega,
    h.clear hrefused⟩, fun n hn hge hlt => h.blank n hn hge ?_⟩
  have hsize := r.alignedSize_dvd
  unfold pageNumber at hlt ⊢
  omega

/-- The window behind the areas, when all bytes that were asked for are mapped. -/
theorem fits_of_bytes (h : Prepared root S areas r) (hrefused : ¬ Refused S areas r)
    (hdvd : 4096 ∣ used ⟨S.vmaTree, areas⟩) (hwrap : r.len + r.offs ≤ 2 ^ 64 - 4096) (hlen : 0 < r.len)
    {s' : Tables}
    (hs' : mapWindow returnPtOrAlloc (physToVirtPm root) r (used ⟨S.vmaTree, areas⟩) S.tables = some s')
    (hbytes : ∀ i < r.len, kptGetPhys s'.mem root (used ⟨S.vmaTree, areas⟩ + r.offs + i) = r.phy + i) :
    WindowFits S areas r := by
  obtain ⟨hw, hblank⟩ := h.window hrefused hdvd
  have hphy := h.phy_lt
  have hphys : r.alignedPhys = r.phy / 4096 * 4096 := pageAlignDown_eq (by omega)
  have hoffs := r.offs_eq
  have hsize := Call.alignedSize_eq hwrap
  have hlo := hw.lo
  have hhi := hw.hi
  unfold kernelVmmap at hlo
  have hbound : r.leafDigits (used ⟨S.vmaTree, areas⟩) = 1 → r.alignedSize ≤ 2 ^ 39 := by
    intro hone
    by_contra hlarge
    -- the byte that is 512 GiB behind the first one is not mapped
    rw [hone] at hw
    have hlarge' : ptMapLarge returnPtOrAlloc (physToVirtPm root)
        (pageCtx (used ⟨S.vmaTree, areas⟩) r.alignedPhys r.alignedSize r.flags) S.tables = some s' := by
      rcases r.leafDigits_cases (used ⟨S.vmaTree, areas⟩) with ⟨htwo, -⟩ | ⟨-, hhuge, hmega⟩ | ⟨hzero, -⟩
      · exact absurd (hone.symm.trans htwo) (by decide)
      · rw [mapWindow, if_neg (by simp [hhuge]), if_pos hmega] at hs'
        exact hs'
      · exact absurd (hone.symm.trans hzero) (by decide)
    have hsame := hw.large_frame (Nat.lt_of_not_le hlarge) hlarge'
      (pageNumber_lt (used ⟨S.vmaTree, areas⟩ + 2 ^ 39)) (by
        rw [slot_eq (by decide)]
        unfold pageNumber
        omega)
    have hvaddr := hw.vaddr_dvd
    have hbyte := hbytes (2 ^ 39 - r.offs) (by omega)
    rw [Nat.add_assoc, Nat.add_sub_cancel' (by omega), kptGetPhys_find h.root_dvd h.sound] at hbyte
    change physOf _ (find root s' _) = _ at hbyte
    rw [hsame, hblank _ (pageNumber_lt _) (by unfold pageNumber; omega) (by unfold pageNumber; omega)] at hbyte
    change 2 ^ 64 - 1 = _ at hbyte
    omega
  obtain ⟨s₁, hs₁, -, hplaced⟩ := hw.mapWindow_spec rfl hbound (h.frames hrefused)
  obtain rfl : s' = s₁ := Option.some_inj.1 (hs'.symm.trans hs₁)
  have hexact : ∀ i < r.len,
      kptGetPhys s'.mem root (used ⟨S.vmaTree, areas⟩ + r.offs + i) = r.alignedPhys + r.offs + i := by
    intro i hi
    rw [hbytes i hi]
    omega
  obtain ⟨hdevice, hplace⟩ :=
    hw.exact (by omega) hblank hplaced (by omega) hlen (by omega) (by omega) hexact
  have htables : ∀ j, 1 ≤ j → j ≤ 3 →
      TableFits (used ⟨S.vmaTree, areas⟩) r.alignedSize (2 ^ (12 + 9 * j)) := by
    intro j hj hj'
    rcases Nat.lt_or_ge (r.leafDigits (used ⟨S.vmaTree, areas⟩)) j with hlt | hge
    · obtain ⟨k, rfl⟩ := Nat.exists_eq_add_of_lt hlt
      rw [Nat.add_assoc] at hj' ⊢
      exact fits_of_place hw.w_le hw.vaddr_dvd hw.size_dvd hplace (Nat.le_add_left 1 k) hj'
    · exact Or.inl ((Nat.pow_dvd_pow 2 (by omega)).trans hw.vaddr_dvd)
  refine ⟨hwrap, by omega, htables 1 le_rfl (by decide), htables 2 (by decide) (by decide),
    htables 3 (by decide) le_rfl, fun hhuge hlarge => hbound ?_⟩
  rw [Call.leafDigits, hhuge, hlarge]
  rfl

/-- **A window that is mapped byte by byte** fits. -/
theorem fits (h : Prepared root S areas r) (hserves : WindowServes root S r) :
    Refused S areas r ∨ WindowFits S areas r := by
  by_cases hrefused : Refused S areas r
  · exact Or.inl hrefused
  refine Or.inr ?_
  obtain ⟨out, R', hrun, hnone, hout⟩ := h.alloc
  cases out with
  | none => exact absurd (hnone rfl) hrefused
  | some p =>
      obtain ⟨-, start, hb, hstart⟩ := hout p rfl
      obtain ⟨v, S', hio, hv⟩ := hserves
      have hbytes := hv.resolve_left (ioremap_area h.filled hrun hio).1
      have hrebase : ptRebase root = root := ptRebase_eq h.root_dvd h.sound.root_lt
      rw [ioremap_of_area hrun, hrebase, hstart] at hio
      obtain ⟨s', hs', heq⟩ := Option.map_eq_some_iff.1 hio
      obtain ⟨rfl, rfl⟩ := Prod.mk.inj heq
      dsimp only at hbytes
      have hphy := h.phy_lt
      have hlen := h.len_lt
      have hoffs := r.offs_eq
      have hwrap : r.len + r.offs ≤ 2 ^ 64 - 4096 := by
        -- the bytes go round the address space, and their addresses are too large for a device
        by_contra hover
        have hbyte := hbytes (2 ^ 60) (by omega)
        have herr : kpageErr = 2 ^ 64 - 1 := rfl
        have hlt := kptGetPhys_lt hrebase s' (Word.add (Word.add start r.offs) (2 ^ 60))
        rw [hbyte] at hlt
        omega
      have hsize := Call.alignedSize_eq hwrap
      rcases Nat.eq_zero_or_pos r.len with hzero | hsome
      · refine ⟨hwrap, by omega, ?_⟩
        rcases Nat.eq_zero_or_pos r.alignedSize with hempty | hpage
        · exact callFits_empty _ hempty
        · exact callFits_page (hb.pos hpage ▸ hb.dvd) (by omega)
      · have hoff : kernelOffset < 2 ^ 64 := by decide
        have hend := hb.hi
        obtain rfl := hb.pos (by omega)
        refine h.fits_of_bytes hrefused hb.dvd hwrap hsome hs' fun i hi => ?_
        rw [← hbytes i hi, hb.pointer, Word.add_of_lt (by omega)]

end Prepared

/-- **The exact condition** for `ioremap`. -/
theorem windowServes_iff {root : ℕ} {S : AddressSpace} {areas : List ℕ} {r : Call}
    (h : Prepared root S areas r) : WindowServes root S r ↔ Refused S areas r ∨ WindowFits S areas r :=
  ⟨h.fits, h.serves⟩

/-! ### The three sizes -/

/-- **When a size is provided**, by each of the three functions, in states that are as they keep them:
`kbud_alloc_range` and `vma_alloc_area` fail or provide as many bytes as they were asked for, unless the
size is in the last page of the range and there is anything to return; `ioremap` does if its window fits,
too. -/
theorem provides_iff {size : ℕ} (hsize : size < 2 ^ 64) {st : Buddy.State} (hst : Buddy.Lists st)
    {R : VmaRegion} {l : List ℕ} (hR : Vma.Holds R l) (hstart : R.rStart < 2 ^ 64)
    (hend : ∀ a ∈ l, (R.vma a).vmEnd < 2 ^ 64) {answer : Option ℕ} (hfresh : Fresh answer l) (flags : ℕ)
    {root : ℕ} {S : AddressSpace} {areas : List ℕ} {phy : ℕ} {answer' : Option ℕ}
    (hS : Prepared root S areas ⟨phy, size, flags, answer'⟩) :
    (Buddy.RangeServes st size ↔ size ≤ 2 ^ 64 - 4096 ∨ Buddy.Exhausted st 0) ∧
      (AreaServes R size flags answer ↔ size ≤ 2 ^ 64 - 4096 ∨ answer = none) ∧
      (WindowServes root S ⟨phy, size, flags, answer'⟩ ↔
        Refused S areas ⟨phy, size, flags, answer'⟩ ∨ WindowFits S areas ⟨phy, size, flags, answer'⟩) :=
  ⟨Buddy.rangeServes_iff hst hsize, areaServes_iff hR hstart hend hsize flags hfresh, windowServes_iff hS⟩

/-- Blank tables and an empty `vma_tree`. -/
theorem prepared_blank {n : ℕ} (hn : n < 2 ^ 39) {r : Call} (hphy : r.phy < 2 ^ 52) (hlen : r.len < 2 ^ 64)
    (hfresh : Fresh r.answer []) (hbelow : kernelVmmap + r.alignedSize ≤ kernelOffset)
    (hframes : tablesFor 3 (r.alignedSize / 2 ^ 12) ≤ n) :
    Prepared 0x1000 ⟨blankTables n, vmaSubsystemInit⟩ [] r where
  root_dvd := by decide
  sound := (blankTables_sound hn).1
  filled := kernelSystem_filled
  blank := fun m _ _ _ => (blankTables_sound hn).2 m
  fresh := hfresh
  phy_lt := hphy
  len_lt := hlen
  below := fun _ => hbelow
  frames := fun _ => by rwa [blankTables, List.length_map, List.length_range]
  clear := fun _ _ _ m _ _ x hx => by cases ((blankTables_sound hn).2 m).symm.trans hx

theorem holds_empty : Vma.Holds vmaSubsystemInit [] :=
  (show WellFormed vmaSubsystemInit kernelVmmap kernelOffset [] from wellFormed_empty rfl).holds

/-- The lists after a donation of 16 pages. -/
theorem lists_donated : ∃ st, Buddy.kbudFreeRange Buddy.State.init (physToVirtPm 0x101000) 0x10000 = some st ∧
    Buddy.Lists st := by
  obtain ⟨st, regs, free, hrun, hinv, hmem, -⟩ := Buddy.kbudFreeRange_spec Buddy.Inv.init
    (show pageAlignDown (virtToPhysPm (physToVirtPm 0x101000)) = 4096 * 0x101 by decide +kernel)
    (show 4096 * 0x101 + 0x10000 ≤ 2 ^ 46 by decide) (by decide +kernel) (by decide) (by simp)
  refine ⟨st, hrun, hinv.lists fun g hg => ?_⟩
  rcases (hmem g).1 hg with rfl | hg
  · decide +kernel
  · exact absurd hg List.not_mem_nil

/-- A page, from 16 pages, an empty `vma_tree` and blank tables. -/
theorem provides_page :
    ∃ st, Buddy.kbudFreeRange Buddy.State.init (physToVirtPm 0x101000) 0x10000 = some st ∧
      (Buddy.RangeServes st 0x1000 ↔ 0x1000 ≤ 2 ^ 64 - 4096 ∨ Buddy.Exhausted st 0) ∧
      (AreaServes vmaSubsystemInit 0x1000 0 (some 0x40) ↔ 0x1000 ≤ 2 ^ 64 - 4096 ∨ some 0x40 = none) ∧
      (WindowServes 0x1000 ⟨blankTables 6, vmaSubsystemInit⟩ ⟨0x100000, 0x1000, 0, some 0x40⟩ ↔
        Refused ⟨blankTables 6, vmaSubsystemInit⟩ [] ⟨0x100000, 0x1000, 0, some 0x40⟩ ∨
          WindowFits ⟨blankTables 6, vmaSubsystemInit⟩ [] ⟨0x100000, 0x1000, 0, some 0x40⟩) := by
  obtain ⟨st, hrun, hst⟩ := lists_donated
  exact ⟨st, hrun, provides_iff (by decide) hst holds_empty (by decide) (by simp) (by decide) 0
    (prepared_blank (by decide) (by decide) (by decide) (by decide) (by decide +kernel) (by decide +kernel))⟩

/-- **The last size**: a page instead of `2 ^ 64 - 1` bytes, an area without addresses, and a window without
pages. -/
theorem provides_wraps :
    (∃ st, Buddy.kbudFreeRange Buddy.State.init (physToVirtPm 0x101000) 0x10000 = some st ∧
      ¬ Buddy.RangeServes st (2 ^ 64 - 1)) ∧
    ¬ AreaServes vmaSubsystemInit (2 ^ 64 - 1) 0 (some 0x40) ∧
    ¬ WindowServes 0x1000 ⟨blankTables 6, vmaSubsystemInit⟩ ⟨0x100000, 2 ^ 64 - 1, 0, some 0x40⟩ := by
  refine ⟨?_, ?_, ?_⟩
  · obtain ⟨st, hrun, hst⟩ := lists_donated
    refine ⟨st, hrun, fun hserves => ?_⟩
    have hpage : ((Buddy.kbudFreeRange Buddy.State.init (physToVirtPm 0x101000) 0x10000).bind fun st =>
        (Buddy.kbudAllocRange st (2 ^ 64 - 1)).map Prod.fst) = some (physToVirtPm 0x110000) := by
      decide +kernel
    rcases (Buddy.rangeServes_iff hst (by decide)).1 hserves with hle | hex
    · exact absurd hle (by decide)
    · rw [hrun, Option.bind_some, Buddy.allocRange_exhausted hst hex] at hpage
      exact absurd (show kpageErr = physToVirtPm 0x110000 from Option.some_inj.1 hpage) (by decide)
  · rw [areaServes_iff holds_empty (by decide) (by simp) (by decide) 0 (by decide)]
    decide
  · rw [windowServes_iff (prepared_blank (by decide) (by decide) (by decide) (by decide) (by decide +kernel)
      (by decide +kernel))]
    rintro ((hnone | hover) | ⟨hwrap, -⟩)
    · cases hnone
    · revert hover
      decide +kernel
    · revert hwrap
      decide +kernel

end Vmalloc

end SyncKernel
