/-
**Setting up a region of boot frames** (`boot.c`, `boot.h`).

`pf_init_region` makes a region of the memory of an entry.  If the entry contains the kernel image, it is
to begin behind the image: the code adds the address of the end of the image to the start of the entry, and
takes it from the length.  This is the end of the image only for an entry that starts at zero.  The sums and
differences are those of 64-bit words.

Main definitions:

* `Boot.KernelImage` — the span of the kernel in physical memory;
* `Boot.Region`, `Boot.pfInitRegion` — the record at the start of a region, and what goes into it;
* `Boot.RegionFits`, `Boot.Carvable` — the pool is in the entry and off the kernel, and the entries for
  which it is.

Main results:

* `Boot.regionFits_iff` — **when the pool is in the entry and off the kernel**.
-/

import SyncKernel.Boot.MemoryMap
import SyncKernel.Paging

set_option relaxedAutoImplicit false
set_option autoImplicit false

namespace SyncKernel

namespace Boot

/-- `_kphys_start` and `_kphys_end`. -/
structure KernelImage where
  start : ℕ
  stop : ℕ
  start_lt : start < stop
  stop_lt : stop < 2 ^ 64

/-- `physmem_pregion_t`. -/
structure Region where
  top : ℕ
  base : ℕ
  curFrames : ℕ
  maxFrames : ℕ
deriving DecidableEq

section Carve

variable (k : KernelImage) (ent : MapEntry)

/-- The entry contains the kernel image. -/
def ContainsKernel : Prop := ent.base ≤ k.start ∧ k.stop ≤ Word.add ent.base ent.len

instance : Decidable (ContainsKernel k ent) := inferInstanceAs (Decidable (_ ∧ _))

/-- `addr` of `pf_init_region`. -/
def regionAddr : ℕ := if ContainsKernel k ent then Word.add ent.base k.stop else ent.base

/-- `len` of `pf_init_region`. -/
def regionLen : ℕ := if ContainsKernel k ent then Word.sub ent.len k.stop else ent.len

/-- The record that `pf_init_region` writes. -/
def pfInitRegion : Region where
  base := regionAddr k ent
  maxFrames := pageAlignDown (regionLen k ent) / 4096
  curFrames := Word.sub (pageAlignDown (regionLen k ent) / 4096) 1
  top := Word.sub (Word.add (regionAddr k ent) (regionLen k ent)) pageSize

/-- The bytes of the pool are in the entry and off the kernel image, and no more frames are free than there
are. -/
def RegionFits : Prop :=
  (∀ a, (pfInitRegion k ent).base ≤ a →
    a < (pfInitRegion k ent).base + (pfInitRegion k ent).maxFrames * pageSize →
    (ent.base ≤ a ∧ a < ent.base + ent.len) ∧ ¬ (k.start ≤ a ∧ a < k.stop)) ∧
  (pfInitRegion k ent).curFrames ≤ (pfInitRegion k ent).maxFrames

/-- The entry contains the kernel image, and is longer than the address of its end by a page; or it does not
contain it, has a page, and its pages are off the kernel image. -/
def Carvable : Prop :=
  if ContainsKernel k ent then k.stop + pageSize ≤ ent.len
  else pageSize ≤ ent.len ∧ (ent.base + ent.len / pageSize * pageSize ≤ k.start ∨ k.stop ≤ ent.base)

end Carve

section Proofs

variable {k : KernelImage} {ent : MapEntry}

theorem regionAddr_lt (hbase : ent.base < 2 ^ 64) : regionAddr k ent < 2 ^ 64 := by
  rw [regionAddr]
  split
  · exact Word.add_lt _ _
  · exact hbase

theorem regionLen_lt (hlen : ent.len < 2 ^ 64) : regionLen k ent < 2 ^ 64 := by
  rw [regionLen]
  split
  · exact Word.sub_lt _ _
  · exact hlen

@[simp] theorem pfInitRegion_base : (pfInitRegion k ent).base = regionAddr k ent := rfl

theorem pfInitRegion_maxFrames (hlen : ent.len < 2 ^ 64) :
    (pfInitRegion k ent).maxFrames = regionLen k ent / 4096 := by
  show pageAlignDown (regionLen k ent) / 4096 = _
  rw [pageAlignDown_eq (regionLen_lt hlen), Nat.mul_div_cancel _ (by decide)]

theorem pfInitRegion_curFrames (hlen : ent.len < 2 ^ 64) :
    (pfInitRegion k ent).curFrames = Word.sub (regionLen k ent / 4096) 1 := by
  rw [← pfInitRegion_maxFrames hlen]
  rfl

/-- The frames are counted right, when there is one. -/
theorem curFrames_le_iff (hlen : ent.len < 2 ^ 64) :
    (pfInitRegion k ent).curFrames ≤ (pfInitRegion k ent).maxFrames ↔ pageSize ≤ regionLen k ent := by
  have hlt := regionLen_lt (k := k) hlen
  rw [pfInitRegion_curFrames hlen, pfInitRegion_maxFrames hlen, Word.sub, pageSize]
  omega

end Proofs

/-- **When the pool is in the entry and off the kernel.** -/
theorem regionFits_iff (k : KernelImage) (ent : MapEntry) (h : ent.base + ent.len < 2 ^ 64) :
    RegionFits k ent ↔ Carvable k ent := by
  have hlen : ent.len < 2 ^ 64 := by omega
  have hstart := k.start_lt
  have hstop := k.stop_lt
  rw [RegionFits, curFrames_le_iff hlen, pfInitRegion_maxFrames hlen, pfInitRegion_base, Carvable]
  by_cases hin : ContainsKernel k ent
  · have haddr : regionAddr k ent = Word.add ent.base k.stop := if_pos hin
    have hrlen : regionLen k ent = Word.sub ent.len k.stop := if_pos hin
    rw [if_pos hin, haddr, hrlen]
    obtain ⟨hbelow, habove⟩ := hin
    rw [Word.add_of_lt h] at habove
    constructor
    · rintro ⟨hpool, hpage⟩
      have hfirst := (hpool (Word.add ent.base k.stop) le_rfl (by rw [pageSize] at hpage ⊢; omega)).1
      rw [Word.add] at hfirst
      rw [Word.sub, pageSize] at hpage
      rw [pageSize]
      omega
    · intro hle
      rw [pageSize] at hle ⊢
      rw [Word.add_of_lt (by omega), Word.sub_of_le (by omega) hlen]
      exact ⟨fun a ha ha' => by omega, by omega⟩
  · have haddr : regionAddr k ent = ent.base := if_neg hin
    have hrlen : regionLen k ent = ent.len := if_neg hin
    rw [if_neg hin, haddr, hrlen]
    rw [ContainsKernel, Word.add_of_lt h] at hin
    simp only [pageSize]
    constructor
    · rintro ⟨hpool, hpage⟩
      refine ⟨hpage, ?_⟩
      by_contra hmeet
      -- the pool and the image have the larger of their starts in common
      rcases Nat.le_total ent.base k.start with hle | hle
      · exact (hpool k.start hle (by omega)).2 ⟨le_rfl, hstart⟩
      · exact (hpool ent.base le_rfl (by omega)).2 ⟨hle, by omega⟩
    · rintro ⟨hpage, hoff⟩
      exact ⟨fun a ha ha' => by omega, hpage⟩

theorem regionFits_iff_low :
    RegionFits ⟨0x100000, 0x500000, by decide, by decide⟩ ⟨0x80000, 0x480000⟩ ↔
      Carvable ⟨0x100000, 0x500000, by decide, by decide⟩ ⟨0x80000, 0x480000⟩ :=
  regionFits_iff _ _ (by decide)

/-- An entry from 512 KiB to 5 MiB, and a kernel from 1 MiB to 5 MiB. -/
theorem regionFits_low : ¬ RegionFits ⟨0x100000, 0x500000, by decide, by decide⟩ ⟨0x80000, 0x480000⟩ := by
  intro h
  exact absurd (h.1 0x580000 (by decide) (by decide)).1.2 (by decide)

end Boot

end SyncKernel
