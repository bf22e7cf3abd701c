/-
**What the buddy allocator gets** (`boot.c`, `pagetbl.c`).

`buddy_handoff` gives the memory behind the first region to the allocator.  `reallocate_bootmem_pages` takes
the pages for the final tables from it, and then gives back what only the boot code has used: the memory of
the first region, and the part of the kernel image before `__preend`.  This part has an address in the map of
the kernel, which the allocator takes for one of the direct map: the blocks of the image get physical addresses
just below 128 TiB.

Main definitions:

* `Boot.reallocateBootmemPages` — the function, as far as the allocator goes;
* `Boot.RealRam` — each free block lies in an available entry of the memory map;
* `Boot.Donatable` — what the regions of the boot code should be.

Main results:

* `Boot.Given.realRam` — **what lies in an entry gives blocks in an entry**;
* `Boot.realRam_iff` — **when only real memory is free**;
* `Boot.startKernel_donatable` — **the regions of a memory map** are what they should be.
-/

import SyncKernel.Boot.Handoff
import SyncKernel.Buddy.Beyond

set_option relaxedAutoImplicit false
set_option autoImplicit false

namespace SyncKernel

namespace Boot

open Pagetbl

/-- The donations of `buddy_handoff`. -/
def handOver : List (ℕ × ℕ) → Buddy.State → Option Buddy.State
  | [], st => some st
  | r :: rs, st => do
      let st ← Buddy.kbudFreeRange st (physToVirtPm r.1) r.2
      handOver rs st

/-- The pages for tables.  Where there is none, `return_pt_or_alloc` returns the error pointer, and
`remap_bootmem_kcode_pages` and `remap_bootmem_dmap_pages` write through it. -/
def takeTables : ℕ → Buddy.State → Option Buddy.State
  | 0, st => some st
  | n + 1, st => do
      let (p, st) ← Buddy.kbudAlloc st 0
      if p = kpageErr then none else takeTables n st

/-- The base of a record and the number of its pages are mapped. -/
def RecordMapped (phys : ℕ → ℕ) (r : ℕ) : Prop :=
  ∀ i < 8, phys (r + 8 + i) ≠ kpageErr ∧ phys (r + 24 + i) ≠ kpageErr

instance (phys : ℕ → ℕ) (r : ℕ) : Decidable (RecordMapped phys r) := Nat.decidableBallLT 8 _

/-- The first record, read through the tables. -/
def firstRecord (phys : ℕ → ℕ) (mem : ℕ → UInt8) : List ℕ → Option Region
  | [] => none
  | r :: _ => if RecordMapped phys r then some (header (fun a => mem (phys a)) r) else none

/-- `*preinit_pfa.region[0]`.  What `buddy_handoff` writes lies in the other regions. -/
def bootRegion (b : Booted) : Option Region := firstRecord (kptGetPhys b.tables.mem b.cr3) b.mem b.regions

/-- `reallocate_bootmem_pages`, as far as the allocator goes, with `n` tables behind the top one. -/
def reallocateBootmemPages (boot : Option Region) (n prebegin preend : ℕ) (st : Buddy.State) :
    Option Buddy.State := do
  let boot ← boot
  let len := boot.maxFrames * 4096 % 2 ^ 64
  let vbase := physToVirtPm boot.base
  let (pml4, st) ← Buddy.kbudAlloc st 0
  if pml4 = kpageErr then some st
  else do
    let st ← takeTables n st
    let st ← Buddy.kbudFreeRange st vbase len
    Buddy.kbudFreeRange st (physToVirtOf prebegin) (Word.sub preend prebegin)

/-- The bytes lie in one of the entries. -/
def InEntry (map : List MapEntry) (base len : ℕ) : Prop :=
  ∃ e ∈ map, e.base ≤ base ∧ base + len ≤ e.base + e.len

instance (map : List MapEntry) (base len : ℕ) : Decidable (InEntry map base len) :=
  inferInstanceAs (Decidable (∃ e ∈ map, _))

/-- Only real memory is free: each free block, at the physical address that the allocator computes for it, lies
in an available entry of the memory map. -/
def RealRam (map : List MapEntry) (st : Buddy.State) : Prop :=
  ∀ b ∈ st.freeBlocks, InEntry map (virtToPhysPm b.1) (pageSize * 2 ^ b.2)

/-- The memory of a region. -/
def Region.range (r : Region) : ℕ × ℕ := (r.base, r.maxFrames * 4096 % 2 ^ 64)

@[simp] theorem Region.range_after (r : Region) (j : ℕ) : (r.after j).range = r.range := rfl

/-- Two ranges of physical memory have no byte in common. -/
def RangesApart (r r' : ℕ × ℕ) : Prop := r.1 + r.2 ≤ r'.1 ∨ r'.1 + r'.2 ≤ r.1

instance (r r' : ℕ × ℕ) : Decidable (RangesApart r r') := inferInstanceAs (Decidable (_ ∨ _))

/-- The ranges lie in available entries, none is empty, and no two overlap. -/
structure Donatable (map : List MapEntry) (rs : List (ℕ × ℕ)) : Prop where
  entry : ∀ r ∈ rs, InEntry map r.1 r.2
  filled : ∀ r ∈ rs, 0 < r.2
  apart : rs.Pairwise RangesApart

theorem Donatable.tail {map : List MapEntry} {r : ℕ × ℕ} {rs : List (ℕ × ℕ)} (h : Donatable map (r :: rs)) :
    Donatable map rs :=
  ⟨fun r' hr' => h.entry r' (List.mem_cons_of_mem _ hr'), fun r' hr' => h.filled r' (List.mem_cons_of_mem _ hr'),
    h.apart.of_cons⟩

/-! ### The allocator and the ranges given to it -/

/-- The allocator after donations: each of its ranges is one of the given ones, in pages, and is larger than
its header. -/
structure Given (s : Buddy.Sys) (sh : Buddy.Shape) (done : List (ℕ × ℕ)) : Prop where
  ok : Buddy.Ok s sh
  ranges : ∀ q ∈ s.ranges, ∃ r ∈ done, q = (r.1 / 4096 * 4096, r.2) ∧ 4096 ∣ r.2 ∧
    4096 * Buddy.headerPages (r.2 / 4096) < r.2

namespace Given

variable {s : Buddy.Sys} {sh : Buddy.Shape} {done : List (ℕ × ℕ)} {st : Buddy.State}

theorem init : Given Buddy.Sys.init ⟨[], fun _ _ => [], []⟩ [] := ⟨Buddy.Ok.init, by simp [Buddy.Sys.init]⟩

/-- The region of a given range. -/
theorem region (h : Given s sh done) {g : Buddy.Region} (hg : g ∈ sh.regs) :
    ∃ r ∈ done, 4096 * g.head = r.1 / 4096 * 4096 ∧ g = Buddy.donated g.head r.2 ∧ 4096 ∣ r.2 ∧
      4096 * Buddy.headerPages (r.2 / 4096) < r.2 := by
  obtain ⟨len, hmem, heq⟩ := h.ok.ranges g hg
  obtain ⟨r, hr, hq, hdvd, hfit⟩ := h.ranges _ hmem
  obtain ⟨hbase, rfl⟩ := Prod.mk.inj hq
  exact ⟨r, hr, hbase, heq, hdvd, hfit⟩

/-- **One more donation.** -/
theorem donate (h : Given s sh done) {r : ℕ × ℕ} (hlow : r.1 + r.2 ≤ 2 ^ 46) (hpos : 0 < r.2)
    (hdvd : 4096 ∣ r.2) (hap : ∀ r' ∈ done, RangesApart r' r)
    (hrun : Buddy.kbudFreeRange s.st (physToVirtPm r.1) r.2 = some st) :
    ∃ s' sh', s'.st = st ∧ Given s' sh' (r :: done) := by
  have hbase : Buddy.rangeBase (physToVirtPm r.1) = r.1 / 4096 * 4096 := by
    rw [Buddy.rangeBase, virtToPhysPm_physToVirtPm (by omega), pageAlignDown_eq (by omega)]
  have hp : Buddy.Promised s (Buddy.Op.donate (physToVirtPm r.1) r.2) := by
    refine ⟨by omega, fun q hq => ?_⟩
    obtain ⟨r', hr', rfl, -⟩ := h.ranges q hq
    rw [hbase]
    exact Buddy.pagesApart_of_bytes (hap r' hr')
  have hfits := h.ok.fits_of_returns hp hpos hdvd hrun
  obtain ⟨s', sh', hstep, hok⟩ := h.ok.step hp hfits
  rw [Buddy.step, hrun, Option.map_some] at hstep
  obtain rfl := Option.some_inj.1 hstep
  refine ⟨_, sh', rfl, hok, fun q hq => ?_⟩
  rcases List.mem_cons.1 hq with rfl | hq
  · exact ⟨r, List.mem_cons_self, by rw [hbase], hdvd, hfits.1⟩
  · obtain ⟨r', hr', hrest⟩ := h.ranges q hq
    exact ⟨r', List.mem_cons_of_mem _ hr', hrest⟩

/-- An allocation of a page. -/
theorem alloc (h : Given s sh done) {p : ℕ} (hrun : Buddy.kbudAlloc s.st 0 = some (p, st)) :
    ∃ s' sh', s'.st = st ∧ Given s' sh' done := by
  obtain ⟨s', sh', hstep, hok, -⟩ := h.ok.alloc 0
  rw [Buddy.step, hrun, Option.map_some] at hstep
  obtain rfl := Option.some_inj.1 hstep
  exact ⟨_, sh', rfl, hok, h.ranges⟩

/-- The pages for the tables. -/
theorem tables (n : ℕ) : ∀ {s : Buddy.Sys} {sh : Buddy.Shape}, Given s sh done →
    takeTables n s.st = some st → ∃ s' sh', s'.st = st ∧ Given s' sh' done := by
  induction n with
  | zero =>
      intro s sh h hrun
      exact ⟨s, sh, Option.some_inj.1 hrun, h⟩
  | succ n ih =>
      intro s sh h hrun
      obtain ⟨⟨p, st₁⟩, halloc, hrest⟩ := Option.bind_eq_some_iff.1 hrun
      obtain ⟨s₁, sh₁, rfl, h₁⟩ := h.alloc halloc
      dsimp only at hrest
      split at hrest
      · cases hrest
      · exact ih h₁ hrest

/-- **The donations** of `buddy_handoff`. -/
theorem handOver {rs : List (ℕ × ℕ)} : ∀ {done : List (ℕ × ℕ)} {s : Buddy.Sys} {sh : Buddy.Shape},
    Given s sh done → (∀ r ∈ rs, r.1 + r.2 ≤ 2 ^ 46 ∧ 0 < r.2 ∧ 4096 ∣ r.2 ∧ ∀ r' ∈ done, RangesApart r' r) →
    rs.Pairwise RangesApart → Boot.handOver rs s.st = some st →
    ∃ s' sh' done', s'.st = st ∧ Given s' sh' done' ∧ ∀ r ∈ done', r ∈ rs ∨ r ∈ done := by
  induction rs with
  | nil =>
      intro done s sh h _ _ hrun
      exact ⟨s, sh, done, Option.some_inj.1 hrun, h, fun r hr => Or.inr hr⟩
  | cons r rs ih =>
      intro done s sh h hgood hap hrun
      obtain ⟨st₁, hfirst, hrest⟩ := Option.bind_eq_some_iff.1 hrun
      obtain ⟨hlow, hpos, hdvd, hout⟩ := hgood r List.mem_cons_self
      obtain ⟨hhead, htail⟩ := List.pairwise_cons.1 hap
      obtain ⟨s₁, sh₁, rfl, h₁⟩ := h.donate hlow hpos hdvd hout hfirst
      obtain ⟨s', sh', done', hst, h', hdone⟩ := ih h₁ (fun r' hr' => by
        obtain ⟨hlow', hpos', hdvd', hout'⟩ := hgood r' (List.mem_cons_of_mem _ hr')
        exact ⟨hlow', hpos', hdvd', List.forall_mem_cons.2 ⟨hhead r' hr', hout'⟩⟩) htail hrest
      refine ⟨s', sh', done', hst, h', fun r' hr' => ?_⟩
      rcases hdone r' hr' with hr' | hr'
      · exact Or.inl (List.mem_cons_of_mem _ hr')
      · rcases List.mem_cons.1 hr' with rfl | hr'
        · exact Or.inl List.mem_cons_self
        · exact Or.inr hr'

/-- The lists are consistent: no region is without pages. -/
theorem lists (h : Given s sh done) : Buddy.Lists s.st := by
  refine h.ok.inv.lists fun g hg => ?_
  obtain ⟨r, -, -, heq, hdvd, hfit⟩ := h.region hg
  have hle := (h.ok.inv.valid g hg).le
  have hstart : g.start = g.head + Buddy.headerPages (r.2 / 4096) := congrArg Buddy.Region.start heq
  have hrpages : g.rpages = r.2 / 4096 := congrArg Buddy.Region.rpages heq
  omega

/-- **What lies in an entry gives blocks in an entry.** -/
theorem realRam (h : Given s sh done) {map : List MapEntry} (hentry : ∀ r ∈ done, InEntry map r.1 r.2) :
    RealRam map s.st := by
  intro b hb
  obtain ⟨i, hi, hk, hb⟩ := Buddy.mem_freeBlocks.1 hb
  obtain ⟨g, hg, hr⟩ := h.ok.inv.region hi
  unfold pframeMaxOrder at hk
  rw [hr, h.ok.inv.freeList_eq hg (by omega)] at hb
  obtain ⟨pg, hpg, hptr⟩ := List.mem_map.1 hb
  have hin := (h.ok.inv.list g hg b.2 (by omega)).mem_in pg hpg
  have hlt := (hin.pg_lt (h.ok.inv.valid g hg)).2
  obtain ⟨r, hr, hbase, heq, hdvd, hfit⟩ := h.region hg
  obtain ⟨e, he, hlo, hhi⟩ := hentry r hr
  have hstart : g.start = g.head + Buddy.headerPages (r.2 / 4096) := congrArg Buddy.Region.start heq
  have hpages : g.pages = r.2 / 4096 - Buddy.headerPages (r.2 / 4096) := congrArg Buddy.Region.pages heq
  have hheader := Buddy.headerPages_pos (r.2 / 4096)
  obtain ⟨hfirst, hlast⟩ := hin
  dsimp only at hfirst hlast hlt
  refine ⟨e, he, ?_, ?_⟩
  · rw [← hptr, Buddy.virtToPhysPm_ptr (by omega)]
    omega
  · rw [← hptr, Buddy.virtToPhysPm_ptr (by omega)]
    unfold pageSize
    omega

end Given

/-! ### The part of the kernel image -/

/-- The address that the allocator computes for a byte of the kernel image. -/
theorem virtToPhysPm_physToVirtOf {p : ℕ} (hp : p < 2 ^ 31) :
    virtToPhysPm (physToVirtOf p) = 2 ^ 47 - 2 ^ 31 + p := by
  unfold virtToPhysPm physToVirtOf Word.sub Word.add kernelPhmap kernelOffset
  omega

/-- The header of a region of at most 1 GiB. -/
theorem headerPages_small {rpages : ℕ} (h : rpages ≤ 2 ^ 18) : Buddy.headerPages rpages < 2 ^ 10 := by
  have hle := Buddy.bitmapBytes_le rpages pframeMaxOrder 0
  unfold Buddy.headerPages Buddy.headerBytes Buddy.slaveSz
  unfold pframeMaxOrder at hle ⊢
  omega

/-- Without a page for the top table nothing is given back. -/
theorem reallocate_fails {boot : Region} {n prebegin preend : ℕ} {st st' : Buddy.State}
    (halloc : Buddy.kbudAlloc st 0 = some (kpageErr, st')) :
    reallocateBootmemPages (some boot) n prebegin preend st = some st' := by
  simp only [reallocateBootmemPages, halloc, Option.bind_eq_bind, Option.bind_some, if_true]

/-- With a page for the top table, the tables are built and the memory of the boot code is given back. -/
theorem reallocate_takes {boot : Region} {n prebegin preend p : ℕ} {st st₁ st' : Buddy.State}
    (halloc : Buddy.kbudAlloc st 0 = some (p, st₁)) (hp : p ≠ kpageErr)
    (hre : reallocateBootmemPages (some boot) n prebegin preend st = some st') :
    ∃ st₂ st₃, takeTables n st₁ = some st₂ ∧
      Buddy.kbudFreeRange st₂ (physToVirtPm boot.range.1) boot.range.2 = some st₃ ∧
      Buddy.kbudFreeRange st₃ (physToVirtOf prebegin) (Word.sub preend prebegin) = some st' := by
  simp only [reallocateBootmemPages, halloc, Option.bind_eq_bind, Option.bind_some, hp, if_false] at hre
  obtain ⟨st₂, htables, hre⟩ := Option.bind_eq_some_iff.1 hre
  obtain ⟨st₃, hboot, hlast⟩ := Option.bind_eq_some_iff.1 hre
  exact ⟨st₂, st₃, htables, hboot, hlast⟩

/-- **After `buddy_handoff`** the allocator has the ranges that it was given, or some of them. -/
theorem Donatable.given {b : Booted} {give : (ℕ → UInt8) → ℕ → ℕ → ℕ → UInt8} {st : Buddy.State}
    (hdon : Donatable b.info.map (buddyHandoff give b)) (hlow : ∀ e ∈ b.info.map, e.base + e.len ≤ 2 ^ 46)
    (hhand : handOver (buddyHandoff give b) Buddy.State.init = some st) :
    ∃ s sh done, s.st = st ∧ Given s sh done ∧ ∀ r ∈ done, r ∈ buddyHandoff give b := by
  obtain ⟨s, sh, done, hst, hgiven, hdone⟩ := Given.init.handOver (fun r hr => by
    obtain ⟨e, he, -, hle⟩ := hdon.entry r hr
    exact ⟨hle.trans (hlow e he), hdon.filled r hr, dvd_of_mem_handoffLoop hr, by simp⟩) hdon.apart hhand
  exact ⟨s, sh, done, hst, hgiven, fun r hr => (hdone r hr).resolve_right List.not_mem_nil⟩

/-- **When no block is free** after `buddy_handoff`, nothing is given back. -/
theorem realRam_of_exhausted {map : List MapEntry} {boot : Region} {n prebegin preend : ℕ} {st₁ st : Buddy.State}
    (hlists : Buddy.Lists st₁) (hnil : st₁.freeBlocks = [])
    (hre : reallocateBootmemPages (some boot) n prebegin preend st₁ = some st) : RealRam map st := by
  -- the first allocation fails, and the function returns
  have hfail := (Buddy.kbudAlloc_page hlists).1 hnil
  obtain rfl := Option.some_inj.1 ((reallocate_fails hfail).symm.trans hre)
  intro b hb
  rw [hnil] at hb
  exact absurd hb List.not_mem_nil

/-- **When only real memory is free**: no page was free for the tables, so that nothing is given back, whatever
the memory of the boot code is; or the part of the kernel image has no more pages than the header of its
region. -/
theorem realRam_iff {b : Booted} {boot : Region} {give : (ℕ → UInt8) → ℕ → ℕ → ℕ → UInt8} {n prebegin preend : ℕ}
    {st₁ st : Buddy.State} (hboot : bootRegion b = some boot) (hlow : ∀ e ∈ b.info.map, e.base + e.len ≤ 2 ^ 46)
    (hpre : prebegin ≤ preend) (hend : preend ≤ 2 ^ 30)
    (hhand : handOver (buddyHandoff give b) Buddy.State.init = some st₁)
    (hre : reallocateBootmemPages (bootRegion b) n prebegin preend st₁ = some st) :
    (Donatable b.info.map (buddyHandoff give b) → st₁.freeBlocks = [] → RealRam b.info.map st) ∧
      (Donatable b.info.map (boot.range :: buddyHandoff give b) →
        (RealRam b.info.map st ↔ st₁.freeBlocks = [] ∨
          (preend - prebegin) / 4096 ≤ Buddy.headerPages ((preend - prebegin) / 4096))) := by
  rw [hboot] at hre
  constructor
  · intro hdon hnil
    obtain ⟨s₁, sh₁, done, rfl, h₁, -⟩ := hdon.given hlow hhand
    exact realRam_of_exhausted h₁.lists hnil hre
  intro hdon
  obtain ⟨s₁, sh₁, done, rfl, h₁, hgiven⟩ := hdon.tail.given hlow hhand
  obtain ⟨hentry, hfilled, hapart⟩ := hdon
  obtain ⟨hout, -⟩ := List.pairwise_cons.1 hapart
  by_cases hnil : s₁.st.freeBlocks = []
  · exact iff_of_true (realRam_of_exhausted h₁.lists hnil hre) (Or.inl hnil)
  obtain ⟨pml4, st₂, halloc, hpml4⟩ := (Buddy.kbudAlloc_page h₁.lists).2 hnil
  obtain ⟨s₂, sh₂, rfl, h₂⟩ := h₁.alloc halloc
  obtain ⟨st₃, st₄, htables, hfirst, hlast⟩ := reallocate_takes halloc hpml4 hre
  obtain ⟨s₃, sh₃, rfl, h₃⟩ := h₂.tables n htables
  have hbelow : boot.range.1 + boot.range.2 ≤ 2 ^ 46 := by
    obtain ⟨e, he, -, hle⟩ := hentry boot.range List.mem_cons_self
    exact hle.trans (hlow e he)
  obtain ⟨s₄, sh₄, rfl, h₄⟩ := h₃.donate hbelow (hfilled _ List.mem_cons_self)
    ((Nat.dvd_mod_iff (by decide)).2 (Nat.dvd_mul_left _ _))
    (fun r hr => (hout r (hgiven r hr)).symm) hfirst
  have hreal : RealRam b.info.map s₄.st := h₄.realRam fun r hr => hentry r (by
    rcases List.mem_cons.1 hr with rfl | hr
    · exact List.mem_cons_self
    · exact List.mem_cons_of_mem _ (hgiven r hr))
  -- the part of the image, at the address in the map of the kernel
  have hphys : pageAlignDown (virtToPhysPm (physToVirtOf prebegin)) =
      4096 * ((2 ^ 47 - 2 ^ 31 + prebegin) / 4096) := by
    rw [virtToPhysPm_physToVirtOf (by omega), pageAlignDown_eq (by omega), Nat.mul_comm]
  have hheader := headerPages_small (show (preend - prebegin) / 4096 ≤ 2 ^ 18 by omega)
  rw [Word.sub_of_le hpre (by omega)] at hlast
  rcases Buddy.kbudFreeRange_beyond h₄.ok.inv hphys (by omega) (by omega) (by omega) (by omega) hlast with
    ⟨hsmall, hsame⟩ | ⟨hlarge, c, hc, hfar⟩
  · exact iff_of_true (fun c hc => hreal c (hsame c hc)) (Or.inr hsmall)
  · refine iff_of_false (fun hall => ?_) (not_or.2 ⟨hnil, Nat.not_le.2 hlarge⟩)
    obtain ⟨e, he, -, hle⟩ := hall c hc
    have hlimit := hlow e he
    have hblock : 0 < 2 ^ c.2 := Nat.two_pow_pos _
    unfold pageSize at hle
    omega

/-! ### The ranges of a memory map -/

/-- An entry below 64 TiB, whose region has two pages behind the kernel image, if it contains it. -/
structure Plain (k : KernelImage) (e : MapEntry) : Prop where
  low : e.base + e.len ≤ 2 ^ 46
  carvable : Carvable k e
  two : 2 * pageSize ≤ regionLen k e

/-- The allocator writes to the pages that it is given, and to its own data in the kernel image. -/
def WritesInside (k : KernelImage) (give : (ℕ → UInt8) → ℕ → ℕ → ℕ → UInt8) : Prop :=
  ∀ mem base len a, pageSize ≤ len → base + len ≤ 2 ^ 46 → (a < k.start ∨ k.stop ≤ a) →
    (a < base / 4096 * 4096 ∨ base + len ≤ a) → give mem (physToVirtPm base) len a = mem a

/-- What is handed over of an entry: its region without one frame. -/
def handedRange (k : KernelImage) (e : MapEntry) : ℕ × ℕ := (regionAddr k e, (regionLen k e / 4096 - 1) * 4096)

section Map

variable {k : KernelImage} {e : MapEntry}

/-- The region lies in the entry. -/
theorem Plain.region (h : Plain k e) :
    e.base ≤ regionAddr k e ∧ regionAddr k e + regionLen k e = e.base + e.len ∧ used k e = regionLen k e := by
  obtain ⟨hlow, hcarve, htwo⟩ := h
  have hsum : e.base ≤ regionAddr k e ∧ regionAddr k e + regionLen k e = e.base + e.len := by
    unfold Carvable at hcarve
    unfold regionAddr regionLen
    by_cases hin : ContainsKernel k e
    · rw [if_pos hin] at hcarve ⊢
      rw [if_pos hin, Word.add_of_lt (by unfold pageSize at hcarve; omega),
        Word.sub_of_le (by omega) (by omega)]
      omega
    · rw [if_neg hin, if_neg hin]
      exact ⟨le_rfl, rfl⟩
  exact ⟨hsum.1, hsum.2, if_pos ⟨htwo, by omega⟩⟩

/-- What the record of the region says. -/
theorem Plain.record (h : Plain k e) : (pfInitRegion k e).range = (regionAddr k e, regionLen k e / 4096 * 4096) ∧
    ((pfInitRegion k e).base, (pfInitRegion k e).curFrames * 4096 % 2 ^ 64) = handedRange k e := by
  obtain ⟨hbase, hsum, -⟩ := h.region
  have hlow := h.low
  have htwo := h.two
  unfold pageSize at htwo
  have hlen : e.len < 2 ^ 64 := by omega
  rw [Region.range, handedRange, pfInitRegion_maxFrames hlen, pfInitRegion_curFrames hlen, pfInitRegion_base,
    Word.sub_of_le (by omega) (by omega), Nat.mod_eq_of_lt (by omega), Nat.mod_eq_of_lt (by omega)]
  exact ⟨rfl, rfl⟩

/-- A range of the region of an entry. -/
structure PartOf (k : KernelImage) (e : MapEntry) (r : ℕ × ℕ) : Prop where
  filled : 0 < r.2
  begins : regionAddr k e ≤ r.1
  ends : r.1 + r.2 ≤ regionAddr k e + regionLen k e

theorem PartOf.inEntry {r : ℕ × ℕ} (hr : PartOf k e r) (h : Plain k e) {map : List MapEntry} (he : e ∈ map) :
    InEntry map r.1 r.2 := by
  obtain ⟨hbase, hsum, -⟩ := h.region
  exact ⟨e, he, hbase.trans hr.begins, hr.ends.trans hsum.le⟩

/-- Ranges of regions that are apart. -/
theorem PartOf.apart {e' : MapEntry} {r r' : ℕ × ℕ} (hr : PartOf k e r) (hr' : PartOf k e' r') (h : Plain k e)
    (h' : Plain k e') (hap : regionAddr k e + used k e ≤ regionAddr k e' ∨
      regionAddr k e' + used k e' ≤ regionAddr k e) : RangesApart r r' := by
  rw [h.region.2.2, h'.region.2.2] at hap
  exact hap.imp (fun hle => hr.ends.trans (hle.trans hr'.begins)) fun hle => hr'.ends.trans (hle.trans hr.begins)

/-- What is handed over lies in the region. -/
theorem Plain.handed (h : Plain k e) : PartOf k e (handedRange k e) := by
  have htwo := h.two
  unfold pageSize at htwo
  refine ⟨?_, le_rfl, ?_⟩
  · dsimp only [handedRange]
    omega
  · dsimp only [handedRange]
    omega

/-- The region, as its record has it when frames are taken from it. -/
theorem Plain.whole (h : Plain k e) (n : ℕ) : PartOf k e ((pfInitRegion k e).after n).range := by
  have htwo := h.two
  unfold pageSize at htwo
  rw [Region.range_after, h.record.1]
  refine ⟨?_, le_rfl, ?_⟩
  · dsimp only
    omega
  · dsimp only
    omega

/-- A record in the identity map, read through it. -/
theorem firstRecord_eq {phys : ℕ → ℕ} (hphys : ∀ a < 2 ^ 30, phys a = a) {r : ℕ} (hr : r + 32 ≤ 2 ^ 30)
    (rs : List ℕ) (mem : ℕ → UInt8) : firstRecord phys mem (r :: rs) = some (header mem r) := by
  have hread : header (fun a => mem (phys a)) r = header mem r :=
    header_congr fun a _ ha => congrArg mem (hphys a (by omega))
  have hpresent : RecordMapped phys r := by
    intro i hi
    rw [hphys (r + 8 + i) (by omega), hphys (r + 24 + i) (by omega), kpageErr]
    omega
  rw [firstRecord, if_pos hpresent, hread]

/-- **What is handed over** are the ranges of the first entries. -/
theorem handoffLoop_ranges {phys : ℕ → ℕ} {give : (ℕ → UInt8) → ℕ → ℕ → ℕ → UInt8}
    (hphys : ∀ a < 2 ^ 30, phys a = a) (hout : ∀ a, 2 ^ 30 ≤ a → a < 2 ^ 47 → phys a = kpageErr)
    (hgive : WritesInside k give) : ∀ {l : List MapEntry} {mem : ℕ → UInt8}, (∀ e ∈ l, Plain k e) →
      Apart k l → (∀ e ∈ l, header mem (regionAddr k e) = pfInitRegion k e) →
      ∃ l' : List MapEntry, l'.Sublist l ∧
        handoffLoop phys give (l.map (regionAddr k)) mem = l'.map (handedRange k) := by
  intro l
  induction l with
  | nil =>
      intro mem _ _ _
      exact ⟨[], List.Sublist.refl _, rfl⟩
  | cons e l ih =>
      intro mem hplain hap hrecord
      obtain ⟨hbase, hsum, hused⟩ := (hplain e List.mem_cons_self).region
      have hlow := (hplain e List.mem_cons_self).low
      have htwo := (hplain e List.mem_cons_self).two
      unfold pageSize at htwo
      rw [List.map_cons]
      by_cases hin : regionAddr k e + 24 ≤ 2 ^ 30
      · rw [handoffLoop_cons hphys hin, hrecord e List.mem_cons_self, (hplain e List.mem_cons_self).record.2]
        have hheader : ∀ e' ∈ l, header (give mem (physToVirtPm (pfInitRegion k e).base)
            ((pfInitRegion k e).curFrames * 4096 % 2 ^ 64)) (regionAddr k e') = pfInitRegion k e' := by
          intro e' he'
          obtain ⟨-, -, hused'⟩ := (hplain e' (List.mem_cons_of_mem _ he')).region
          have htwo' := (hplain e' (List.mem_cons_of_mem _ he')).two
          unfold pageSize at htwo'
          have hkernel := hap.kernel e' (List.mem_cons_of_mem _ he')
          have hpair := (List.pairwise_cons.1 hap.regions).1 e' he'
          obtain ⟨hbase', hlen'⟩ := Prod.mk.inj (hplain e List.mem_cons_self).record.2
          rw [← hrecord e' (List.mem_cons_of_mem _ he'), hbase', hlen']
          refine header_congr fun a ha hlast => hgive mem _ _ a ?_ ?_ ?_ ?_
          · unfold pageSize
            omega
          · omega
          · omega
          · omega
        obtain ⟨l', hsub, heq⟩ := ih (fun e' he' => hplain e' (List.mem_cons_of_mem _ he')) hap.of_cons hheader
        exact ⟨e :: l', hsub.cons_cons e, by rw [heq, List.map_cons]⟩
      · have hfault : ∃ i < 16, phys (regionAddr k e + 8 + i) = kpageErr :=
          ⟨15, by decide, hout _ (by omega) (by omega)⟩
        exact ⟨[], List.nil_sublist _, by rw [handoffLoop, if_pos hfault]; rfl⟩

variable {begin_ afterRo loadAddr map n : ℕ} {mem : ℕ → UInt8}

/-- **The regions of a memory map** are what they should be. -/
theorem startKernel_donatable {info : MapInfo} {e : MapEntry} {l : List MapEntry} (begin_ afterRo : ℕ)
    (tables : ℕ → ℕ → ℕ) {give : (ℕ → UInt8) → ℕ → ℕ → ℕ → UInt8} (hgive : WritesInside k give)
    (hparse : piLoopMb2Mapentries mem map n MapInfo.blank = some info)
    (hentries : info.map = e :: l) (hmap : IsMap (e :: l)) (hap : Apart k (e :: l))
    (hgood : Good k (firstEnd k (e :: l)) e) (hplain : ∀ e' ∈ e :: l, Plain k e')
    (hrecord : regionAddr k e + 32 ≤ 2 ^ 30)
    (hk : k.stop - k.start + loadAddr ≤ 2 ^ 30) (hram : info.total ≤ 2 ^ 46)
    (hroom : tableFrames (k.stop - k.start + loadAddr) info.total + 2 ≤ (pfInitRegion k e).curFrames) :
    ∃ b boot, startKernel k begin_ afterRo loadAddr mem map n tables = some b ∧ bootRegion b = some boot ∧
      Donatable b.info.map (boot.range :: buddyHandoff give b) := by
  have hin : ∀ e' ∈ e :: l, regionAddr k e' + regionLen k e' ≤ 2 ^ 46 := by
    intro e' he'
    have hsum := (hplain e' he').region.2.1
    have hlow := (hplain e' he').low
    omega
  obtain ⟨b, hrun, rfl, hregions, hframes, hothers, hfirst⟩ := startKernel_run begin_ afterRo tables hparse hentries
    hmap hap hgood ((hin e List.mem_cons_self).trans (by decide)) hk hram hroom
  obtain ⟨hlayout, hother⟩ := startKernel_tables hrun hframes hk hram
  have hphys : ∀ a < 2 ^ 30, kptGetPhys b.tables.mem b.cr3 a = a := fun a ha => identity_page hlayout hother ha
  have hout : ∀ a, 2 ^ 30 ≤ a → a < 2 ^ 47 → kptGetPhys b.tables.mem b.cr3 a = kpageErr :=
    fun a ha hlast => lower_unmapped hlayout hother ha hlast
  obtain ⟨l', hsub, hranges⟩ := handoffLoop_ranges hphys hout hgive
    (fun e' he' => hplain e' (List.mem_cons_of_mem _ he')) hap.of_cons hothers
  have hboot : bootRegion b = some ((pfInitRegion k e).after (tableFrames (k.stop - k.start + loadAddr)
      b.info.total + 2)) := by
    rw [bootRegion, hregions, List.map_cons, firstRecord_eq hphys hrecord, hfirst]
  have hfirst := (hplain e List.mem_cons_self).whole (tableFrames (k.stop - k.start + loadAddr) b.info.total + 2)
  have hlater : ∀ e' ∈ l', Plain k e' := fun e' he' => hplain e' (List.mem_cons_of_mem _ (hsub.subset he'))
  obtain ⟨hhead, htail⟩ := List.pairwise_cons.1 (hap.regions.sublist (hsub.cons_cons e))
  refine ⟨b, _, hrun, hboot, ?_⟩
  rw [buddyHandoff, hregions, List.map_cons, List.tail_cons, hranges, hentries]
  refine ⟨List.forall_mem_cons.2 ⟨hfirst.inEntry (hplain e List.mem_cons_self) List.mem_cons_self, ?_⟩,
    List.forall_mem_cons.2 ⟨hfirst.filled, ?_⟩, List.pairwise_cons.2 ⟨?_, List.pairwise_map.2 ?_⟩⟩
  · intro r hr
    obtain ⟨e', he', rfl⟩ := List.mem_map.1 hr
    exact (hlater e' he').handed.inEntry (hlater e' he') (List.mem_cons_of_mem _ (hsub.subset he'))
  · intro r hr
    obtain ⟨e', he', rfl⟩ := List.mem_map.1 hr
    exact (hlater e' he').handed.filled
  · intro r hr
    obtain ⟨e', he', rfl⟩ := List.mem_map.1 hr
    exact hfirst.apart (hlater e' he').handed (hplain e List.mem_cons_self) (hlater e' he') (hhead e' he')
  · exact htail.imp_of_mem fun {e' e''} he' he'' hout =>
      (hlater e' he').handed.apart (hlater e'' he'').handed (hlater e' he') (hlater e'' he'') hout

end Map

/-- A memory map of 636 KiB at zero, and of the kernel image with 64 KiB behind it. -/
def twoTag (a : ℕ) : UInt8 :=
  if a = 0 then 6 else if a = 4 then 64 else if a = 8 then 24 else if a = 25 then 0xF0 else if a = 26 then 9
  else if a = 32 then 1 else if a = 42 then 0x10 else if a = 50 then 0x51 else if a = 56 then 1 else 0

/-- The run for this memory map, with a part of 64 KiB of the image. -/
theorem twoTag_run (give : (ℕ → UInt8) → ℕ → ℕ → ℕ → UInt8) :
    ∃ b boot st₁ st,
      startKernel lowKernel 0xFFFFFFFF80100000 0xFFFFFFFF80200000 0x100000 twoTag 0 3 (fun _ _ => 0) = some b ∧
      b.info.map = [⟨0, 0x9F000⟩, ⟨0x100000, 0x510000⟩] ∧ bootRegion b = some boot ∧ boot.range = (0, 0x9F000) ∧
      buddyHandoff give b = [(0x600000, 0xF000)] ∧ handOver (buddyHandoff give b) Buddy.State.init = some st₁ ∧
      reallocateBootmemPages (bootRegion b) 6 0x100000 0x110000 st₁ = some st ∧
      ∃ c ∈ st.freeBlocks, 2 ^ 46 ≤ virtToPhysPm c.1 := by
  obtain ⟨info, hparse, hinfo⟩ : ∃ info, piLoopMb2Mapentries twoTag 0 3 MapInfo.blank = some info ∧
      (info.map, info.reclaimable) = ([⟨0, 0x9F000⟩, ⟨0x100000, 0x510000⟩], []) :=
    Option.map_eq_some_iff.1 (show (piLoopMb2Mapentries twoTag 0 3 MapInfo.blank).map
      (fun info => (info.map, info.reclaimable)) = _ by decide)
  obtain ⟨hentries, hreclaimable⟩ := Prod.mk.inj hinfo
  have htotal : info.total = 0x5AF000 := by
    rw [MapInfo.total, hentries, hreclaimable]
    decide
  have hap : Apart lowKernel [⟨0, 0x9F000⟩, ⟨0x100000, 0x510000⟩] := ⟨by decide, by decide, by decide⟩
  obtain ⟨b, hrun, hb, hregions, hframes, hrecord, hfirst⟩ := startKernel_run
    0xFFFFFFFF80100000 0xFFFFFFFF80200000 (fun _ _ => 0) hparse hentries ⟨by decide, by decide⟩ hap
    (by simp only [Good]; decide) (by decide) (show lowKernel.stop - lowKernel.start + 0x100000 ≤ 2 ^ 30 by decide)
    (by rw [htotal]; decide) (by rw [htotal]; decide)
  obtain ⟨hlayout, hother⟩ := startKernel_tables hrun hframes (by decide) (by rw [hb, htotal]; decide)
  have hphys : ∀ a < 2 ^ 30, kptGetPhys b.tables.mem b.cr3 a = a := fun a ha => identity_page hlayout hother ha
  have haddr : regionAddr lowKernel ⟨0, 0x9F000⟩ = 0 := by decide
  have haddr' : regionAddr lowKernel ⟨0x100000, 0x510000⟩ = 0x600000 := by decide
  have hboot : bootRegion b = some ((pfInitRegion lowKernel ⟨0, 0x9F000⟩).after 8) := by
    rw [htotal, haddr, show tableFrames (lowKernel.stop - lowKernel.start + 0x100000) 0x5AF000 + 2 = 8 by decide]
      at hfirst
    rw [bootRegion, hregions, List.map_cons, haddr, firstRecord_eq hphys (by decide), hfirst]
  have hheader := hrecord ⟨0x100000, 0x510000⟩ List.mem_cons_self
  rw [haddr'] at hheader
  have hhandoff : buddyHandoff give b = [(0x600000, 0xF000)] := by
    have hbase : (pfInitRegion lowKernel ⟨0x100000, 0x510000⟩).base = 0x600000 := by decide
    have hlen : (pfInitRegion lowKernel ⟨0x100000, 0x510000⟩).curFrames * 4096 % 2 ^ 64 = 0xF000 := by decide
    rw [buddyHandoff, hregions]
    change handoffLoop _ _ [regionAddr lowKernel ⟨0x100000, 0x510000⟩] _ = _
    rw [haddr', handoffLoop_cons hphys (by decide), hheader, hbase, hlen, handoffLoop]
  have hfree : (((handOver [(0x600000, 0xF000)] Buddy.State.init).bind
      (reallocateBootmemPages (some ((pfInitRegion lowKernel ⟨0, 0x9F000⟩).after 8)) 6 0x100000 0x110000)).any fun st =>
      st.freeBlocks.any fun c => decide (2 ^ 46 ≤ virtToPhysPm c.1)) = true := by
    decide +kernel
  obtain ⟨st, hst, hfar⟩ := (Option.any_eq_true _ _).1 hfree
  obtain ⟨st₁, hhand, hre⟩ := Option.bind_eq_some_iff.1 hst
  obtain ⟨c, hc, hlimit⟩ := List.any_eq_true.1 hfar
  exact ⟨b, _, st₁, st, hrun, by rw [hb, hentries], hboot, by decide, hhandoff, by rw [hhandoff, hhand],
    by rw [hboot, hre], c, hc, of_decide_eq_true hlimit⟩

/-- The ranges of this run. -/
theorem donatable_two : Donatable [⟨0, 0x9F000⟩, ⟨0x100000, 0x510000⟩] [(0, 0x9F000), (0x600000, 0xF000)] :=
  ⟨by decide, by decide, by decide⟩

theorem realRam_iff_two : ∃ b st₁ st, handOver (buddyHandoff (fun mem _ _ => mem) b) Buddy.State.init = some st₁ ∧
    reallocateBootmemPages (bootRegion b) 6 0x100000 0x110000 st₁ = some st ∧
    (RealRam b.info.map st ↔ st₁.freeBlocks = [] ∨
      (0x110000 - 0x100000) / 4096 ≤ Buddy.headerPages ((0x110000 - 0x100000) / 4096)) := by
  obtain ⟨b, boot, st₁, st, -, hmap, hboot, hrange, hhandoff, hhand, hre, -⟩ := twoTag_run fun mem _ _ => mem
  refine ⟨b, st₁, st, hhand, hre, (realRam_iff hboot ?_ (by decide) (by decide) hhand hre).2 ?_⟩
  · rw [hmap]
    decide
  · rw [hmap, hrange, hhandoff]
    exact donatable_two

/-- **The kernel image is free at an address without memory.** -/
theorem image_not_realRam : ∃ b st₁ st,
    startKernel lowKernel 0xFFFFFFFF80100000 0xFFFFFFFF80200000 0x100000 twoTag 0 3 (fun _ _ => 0) = some b ∧
      handOver (buddyHandoff (fun mem _ _ => mem) b) Buddy.State.init = some st₁ ∧
      reallocateBootmemPages (bootRegion b) 6 0x100000 0x110000 st₁ = some st ∧ ¬ RealRam b.info.map st := by
  obtain ⟨b, -, st₁, st, hrun, hmap, -, -, -, hhand, hre, c, hc, hfar⟩ := twoTag_run fun mem _ _ => mem
  refine ⟨b, st₁, st, hrun, hhand, hre, fun hreal => ?_⟩
  obtain ⟨e, he, -, hend⟩ := hreal c hc
  rw [hmap] at he
  have hlow : e.base + e.len ≤ 2 ^ 46 := (by decide : ∀ e ∈ ([⟨0, 0x9F000⟩, ⟨0x100000, 0x510000⟩] : List MapEntry),
    e.base + e.len ≤ 2 ^ 46) e he
  have hblock : 0 < 2 ^ c.2 := Nat.two_pow_pos _
  unfold pageSize at hend
  omega

end Boot

end SyncKernel
