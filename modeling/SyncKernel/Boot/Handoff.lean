/-
**What the boot code hands to the buddy allocator** (`boot.c`).

`start_kernel` reads the memory map, makes regions of boot frames, builds the page tables from these
frames, and gives the memory of the regions to the buddy allocator, except for that of the first one.  The
allocator comes to the memory through the direct map.  The direct map has as many huge pages as all the
lengths of the memory map need together; but a hole in the memory moves the addresses behind it up.

The records of the regions are read at their physical addresses, so the loop of `buddy_handoff` ends with a
page fault at the first one that is not in the first huge page.

Main definitions:

* `Boot.startKernel` — what `start_kernel` does before `buddy_handoff`;
* `Boot.buddyHandoff` — the memory that is handed over;
* `Boot.HandoffMapped` — the direct map translates all of it.

Main results:

* `Boot.dmap_iff` — **the direct map ends** behind as many bytes as there are of memory;
* `Boot.handoff_mapped_iff` — **when what is handed over is mapped**.
-/

import SyncKernel.Boot.Pool
import SyncKernel.Pagetbl.Switch

set_option relaxedAutoImplicit false
set_option autoImplicit false

namespace SyncKernel

namespace Boot

open Pagetbl

/-- `maps->entries`, up to `maps->count`. -/
def MapInfo.map (info : MapInfo) : List MapEntry := (List.range info.count).map info.entries

/-- `maps->entries_reclaimable`, up to `maps->count_reclaimable`. -/
def MapInfo.reclaimable (info : MapInfo) : List MapEntry :=
  (List.range info.countReclaimable).map info.entriesReclaimable

/-- All the memory that the memory map lists. -/
def MapInfo.total (info : MapInfo) : ℕ := totalLen info.map + totalLen info.reclaimable

/-- `kernsz` of `pt_init_kcode`. -/
def kernelSize (k : KernelImage) (loadAddr : ℕ) : ℕ := Word.add (Word.sub k.stop k.start) loadAddr

/-- What is there when `buddy_handoff` is called: the memory map, the regions, the frames that the tables
have taken, the memory, and the tables with the address of the top one. -/
structure Booted where
  info : MapInfo
  regions : List ℕ
  frames : List ℕ
  mem : ℕ → UInt8
  cr3 : ℕ
  tables : Tables

/-- `start_kernel`, up to `buddy_handoff`, with a bound for the turns of the loop over the memory map.  The
frames are taken first, and then the tables are built from them; `tables` is what is in them before. -/
def startKernel (k : KernelImage) (begin_ afterRo loadAddr : ℕ) (mem : ℕ → UInt8) (map n : ℕ)
    (tables : ℕ → ℕ → ℕ) : Option Booted := do
  let info ← piLoopMb2Mapentries mem map n MapInfo.blank
  let (regions, mem) ← allocInit k info.map mem
  let (ps, mem) ← Boot.frames regions (tableFrames (kernelSize k loadAddr) info.ramMax + 2) mem
  let (l4, t) ← initHigherHalf begin_ afterRo (kernelSize k loadAddr) info.ramMax ⟨tables, ps⟩
  some ⟨info, regions, ps, mem, l4, t⟩

/-- The loop of `buddy_handoff`: the bases and the lengths of what `kbud_free_range` gets.  The memory is read
through the tables; `give` is what a turn does to it. -/
def handoffLoop (phys : ℕ → ℕ) (give : (ℕ → UInt8) → ℕ → ℕ → ℕ → UInt8) :
    List ℕ → (ℕ → UInt8) → List (ℕ × ℕ)
  | [], _ => []
  | r :: rs, mem =>
      if ∃ i < 16, phys (r + 8 + i) = kpageErr then []
      else
        let region := header (fun a => mem (phys a)) r
        let len := region.curFrames * 4096 % 2 ^ 64
        (region.base, len) :: handoffLoop phys give rs (give mem (physToVirtPm region.base) len)

/-- `buddy_handoff`. -/
def buddyHandoff (give : (ℕ → UInt8) → ℕ → ℕ → ℕ → UInt8) (b : Booted) : List (ℕ × ℕ) :=
  handoffLoop (kptGetPhys b.tables.mem b.cr3) give b.regions.tail b.mem

/-- A range of physical memory is mapped: the direct map translates each address of it. -/
def RangeMapped (b : Booted) (base len : ℕ) : Prop :=
  ∀ p, base ≤ p → p < base + len → kptGetPhys b.tables.mem b.cr3 (physToVirtPm p) = p

/-- Everything that is handed over is mapped. -/
def HandoffMapped (give : (ℕ → UInt8) → ℕ → ℕ → ℕ → UInt8) (b : Booted) : Prop :=
  ∀ r ∈ buddyHandoff give b, RangeMapped b r.1 r.2

/-! ### The end of the direct map -/

section Dmap

variable {begin_ afterRo kernsz ramMax root : ℕ} {t : Tables}

/-- **The direct map ends** behind its last huge page. -/
theorem dmap_iff (h : Layout begin_ afterRo kernsz ramMax root t)
    (hother : ∀ n < 2 ^ 36, ¬ InKernel kernsz n → ¬ InDmap ramMax n →
      find root t n = if n / 512 ^ 2 = 0 then some (2, dmapEntry 0) else none)
    (hk : kernsz ≤ 2 ^ 30) (hram : ramMax ≤ 2 ^ 46) {p : ℕ} (hp : p ≠ kpageErr) :
    kptGetPhys t.mem root (physToVirtPm p) = p ↔ p < ramMax ⌈/⌉ 2 ^ 30 * 2 ^ 30 := by
  have hpages := dmap_pages_le hram
  have htables := kernel_tables_le hk
  constructor
  · intro heq
    by_contra hge
    have hn := pageNumber_lt (physToVirtPm p)
    have hnumber : pageNumber (physToVirtPm p) = (p + kernelPhmap) % 2 ^ 64 / 2 ^ 12 % 2 ^ 36 := rfl
    rw [kptGetPhys_eq _ h.rebase] at heq
    change physOf _ (find root t _) = p at heq
    by_cases hdmap : InDmap ramMax (pageNumber (physToVirtPm p))
    · obtain ⟨hle, hlt⟩ := hdmap
      rw [h.dmap _ hn hle hlt, dmapEntry, physOf_leaf le_rfl dmapFlags_leaf.isFlags (Nat.dvd_mul_left _ _)] at heq
      omega
    by_cases hkernel : InKernel kernsz (pageNumber (physToVirtPm p))
    · obtain ⟨hle, hlt⟩ := hkernel
      obtain ⟨m, hm⟩ := Nat.exists_eq_add_of_le hle
      obtain ⟨flags, hentry, hflags, -⟩ := kcodeEntry_flags begin_ afterRo (m * pageSize)
      have hfind := h.kernel m (by omega)
      have hdvd : 2 ^ (12 + 9 * 0) ∣ m * pageSize := Nat.dvd_mul_left _ _
      rw [kernelEntry, hentry] at hfind
      rw [hm, hfind, physOf_leaf (by decide) hflags.isFlags hdvd] at heq
      unfold kernelPhmap at hnumber
      unfold pageSize at heq
      omega
    · rw [hother _ hn hkernel hdmap] at heq
      by_cases hfirst : pageNumber (physToVirtPm p) / 512 ^ 2 = 0
      · rw [if_pos hfirst, dmapEntry, physOf_leaf le_rfl dmapFlags_leaf.isFlags (Nat.dvd_mul_left _ _)] at heq
        unfold kernelPhmap at hnumber
        omega
      · rw [if_neg hfirst] at heq
        exact hp heq.symm
  · intro hlt
    rw [physToVirtPm_eq (by omega), Nat.add_comm]
    exact (h.dmap_page hram hlt).1

/-- A range of whole pages is mapped exactly when it ends in the direct map, or is empty. -/
theorem range_iff {b : Booted} (h : Layout begin_ afterRo kernsz ramMax b.cr3 b.tables)
    (hother : ∀ n < 2 ^ 36, ¬ InKernel kernsz n → ¬ InDmap ramMax n →
      find b.cr3 b.tables n = if n / 512 ^ 2 = 0 then some (2, dmapEntry 0) else none)
    (hk : kernsz ≤ 2 ^ 30) (hram : ramMax ≤ 2 ^ 46) {base len : ℕ} (hlen : 4096 ∣ len) :
    RangeMapped b base len ↔ len = 0 ∨ base + len ≤ ramMax ⌈/⌉ 2 ^ 30 * 2 ^ 30 := by
  have hpages := dmap_pages_le hram
  have hmapped : ∀ {p}, p ≠ kpageErr → (kptGetPhys b.tables.mem b.cr3 (physToVirtPm p) = p ↔ _) :=
    fun hp => dmap_iff h hother hk hram hp
  have herr : kpageErr = 2 ^ 64 - 1 := rfl
  constructor
  · intro hrange
    by_contra hout
    obtain ⟨hzero, hend⟩ := not_or.1 hout
    -- one of two bytes is not the one whose address is that of the error
    obtain ⟨p, hle, hlt, hge, hp⟩ : ∃ p, base ≤ p ∧ p < base + len ∧ ramMax ⌈/⌉ 2 ^ 30 * 2 ^ 30 ≤ p ∧
        p ≠ kpageErr := by
      by_cases hlast : max base (ramMax ⌈/⌉ 2 ^ 30 * 2 ^ 30) = kpageErr
      · exact ⟨kpageErr + 1, by omega, by omega, by omega, by decide⟩
      · exact ⟨_, le_max_left _ _, by omega, le_max_right _ _, hlast⟩
    exact absurd ((hmapped hp).1 (hrange p hle hlt)) (Nat.not_lt.2 hge)
  · rintro (rfl | hend) p hle hlt
    · exact absurd hlt (Nat.not_lt.2 hle)
    · exact (hmapped (by omega)).2 (by omega)

end Dmap

/-! ### The run -/

theorem frames_length {regions : List ℕ} {n : ℕ} {mem mem' : ℕ → UInt8} {ps : List ℕ}
    (h : frames regions n mem = some (ps, mem')) : ps.length = n := by
  induction n generalizing ps mem' with
  | zero =>
      obtain ⟨rfl, -⟩ := Prod.mk.inj (Option.some_inj.1 h)
      rfl
  | succ n ih =>
      obtain ⟨⟨ps₁, mem₁⟩, hrun, h⟩ := Option.bind_eq_some_iff.1 h
      obtain ⟨⟨p, mem₂⟩, -, h⟩ := Option.bind_eq_some_iff.1 h
      obtain ⟨rfl, -⟩ := Prod.mk.inj (Option.some_inj.1 h)
      rw [List.length_append, ih hrun, List.length_singleton]

/-- The sum that the loop over the memory map makes. -/
theorem ramMax_eq {mem : ℕ → UInt8} {map n : ℕ} {info : MapInfo}
    (h : piLoopMb2Mapentries mem map n MapInfo.blank = some info) : info.ramMax = info.total % 2 ^ 64 := by
  obtain ⟨info₀, hloop, hsort⟩ := Option.bind_eq_some_iff.1 h
  obtain rfl := Option.some_inj.1 hsort
  obtain ⟨k, -, -, hgath⟩ := mapLoop_sound gathered_blank hloop
  have hlen : ∀ {maps : ℕ → MapEntry} {count : ℕ} {es : List MapEntry}, HasSorted maps count es →
      totalLen ((List.range count).map maps) = totalLen es := fun h => (h.1.map _).sum_nat
  rw [MapInfo.total, MapInfo.map, MapInfo.reclaimable, hlen hgath.entries.hasSorted,
    hlen hgath.entriesReclaimable.hasSorted]
  exact hgath.ramMax

section Run

variable {k : KernelImage} {begin_ afterRo loadAddr map n : ℕ} {mem : ℕ → UInt8} {tables : ℕ → ℕ → ℕ}
  {give : (ℕ → UInt8) → ℕ → ℕ → ℕ → UInt8} {b : Booted}

theorem kernelSize_eq {k : KernelImage} {loadAddr : ℕ} (h : k.stop - k.start + loadAddr < 2 ^ 64) :
    kernelSize k loadAddr = k.stop - k.start + loadAddr := by
  have hstop := k.stop_lt
  rw [kernelSize, Word.sub_of_le (Nat.le_of_lt k.start_lt) hstop, Word.add_of_lt h]

/-- The tables of a run. -/
theorem startKernel_tables (hrun : startKernel k begin_ afterRo loadAddr mem map n tables = some b)
    (hframes : Frames b.frames) (hk : k.stop - k.start + loadAddr ≤ 2 ^ 30) (hram : b.info.total ≤ 2 ^ 46) :
    Layout begin_ afterRo (kernelSize k loadAddr) b.info.total b.cr3 b.tables ∧
      ∀ n < 2 ^ 36, ¬ InKernel (kernelSize k loadAddr) n → ¬ InDmap b.info.total n →
        find b.cr3 b.tables n = if n / 512 ^ 2 = 0 then some (2, dmapEntry 0) else none := by
  obtain ⟨info, hparse, hrun⟩ := Option.bind_eq_some_iff.1 hrun
  obtain ⟨⟨regions, mem₁⟩, hinit, hrun⟩ := Option.bind_eq_some_iff.1 hrun
  obtain ⟨⟨ps, mem₂⟩, hps, hrun⟩ := Option.bind_eq_some_iff.1 hrun
  obtain ⟨⟨l4, t⟩, ht, hrun⟩ := Option.bind_eq_some_iff.1 hrun
  obtain rfl := Option.some_inj.1 hrun
  have hmax : info.ramMax = info.total := (ramMax_eq hparse).trans (Nat.mod_eq_of_lt (by
    change info.total ≤ 2 ^ 46 at hram
    omega))
  have hstart := k.start_lt
  have hsize := kernelSize_eq (show k.stop - k.start + loadAddr < 2 ^ 64 by omega)
  obtain ⟨l4', t', ht', hlayout, hother⟩ := initHigherHalf_spec (s := ⟨tables, ps⟩) begin_ afterRo
    (show 0 < kernelSize k loadAddr by omega) (by omega) (show info.ramMax ≤ 2 ^ 46 from hmax ▸ hram) hframes
    (Nat.le_of_eq (frames_length hps).symm)
  obtain ⟨rfl, rfl⟩ := Prod.mk.inj (Option.some_inj.1 (ht'.symm.trans ht))
  rw [hmax] at hlayout hother
  exact ⟨hlayout, hother⟩

/-- In the lower half is only the identity map. -/
theorem find_lower {kernsz ramMax root : ℕ} {t : Tables}
    (hother : ∀ n < 2 ^ 36, ¬ InKernel kernsz n → ¬ InDmap ramMax n →
      find root t n = if n / 512 ^ 2 = 0 then some (2, dmapEntry 0) else none) {a : ℕ} (ha : a < 2 ^ 47) :
    find root t (pageNumber a) = if a < 2 ^ 30 then some (2, dmapEntry 0) else none := by
  have hnumber : pageNumber a = a / 2 ^ 12 := Nat.mod_eq_of_lt (by omega)
  have hkernel : ¬ InKernel kernsz (pageNumber a) := fun hin => by
    have hle := hin.1
    omega
  have hdmap : ¬ InDmap ramMax (pageNumber a) := fun hin => by
    have hle : 2 ^ 17 ≤ _ := hin.1
    omega
  have hfirst : pageNumber a / 512 ^ 2 = 0 ↔ a < 2 ^ 30 := by omega
  rw [hother _ (pageNumber_lt a) hkernel hdmap]
  exact if_congr hfirst rfl rfl

/-- The identity map. -/
theorem identity_page {kernsz ramMax root : ℕ} {t : Tables} (h : Layout begin_ afterRo kernsz ramMax root t)
    (hother : ∀ n < 2 ^ 36, ¬ InKernel kernsz n → ¬ InDmap ramMax n →
      find root t n = if n / 512 ^ 2 = 0 then some (2, dmapEntry 0) else none) {a : ℕ} (ha : a < 2 ^ 30) :
    kptGetPhys t.mem root a = a := by
  rw [kptGetPhys_eq _ h.rebase]
  change physOf a (find root t _) = a
  rw [find_lower hother (by omega), if_pos ha, dmapEntry,
    physOf_leaf le_rfl dmapFlags_leaf.isFlags (Nat.dvd_mul_left _ _)]
  omega

/-- A record in the identity map. -/
theorem handoffLoop_cons {phys : ℕ → ℕ} (hphys : ∀ a < 2 ^ 30, phys a = a) {r : ℕ} (hr : r + 24 ≤ 2 ^ 30)
    (rs : List ℕ) (mem : ℕ → UInt8) :
    handoffLoop phys give (r :: rs) mem =
      ((header mem r).base, (header mem r).curFrames * 4096 % 2 ^ 64) ::
        handoffLoop phys give rs (give mem (physToVirtPm (header mem r).base)
          ((header mem r).curFrames * 4096 % 2 ^ 64)) := by
  have hbase : (header (fun a => mem (phys a)) r).base = (header mem r).base :=
    Bytes.read_congr fun a _ ha => congrArg mem (hphys a (by omega))
  have hframes : (header (fun a => mem (phys a)) r).curFrames = (header mem r).curFrames :=
    Bytes.read_congr fun a _ ha => congrArg mem (hphys a (by omega))
  have hpresent : ¬ ∃ i < 16, phys (r + 8 + i) = kpageErr := by
    rintro ⟨i, hi, herr⟩
    rw [hphys _ (by omega), kpageErr] at herr
    omega
  rw [handoffLoop, if_neg hpresent]
  dsimp only
  rw [hbase, hframes]

/-- The lower half has nothing else. -/
theorem lower_unmapped {kernsz ramMax root : ℕ} {t : Tables} (h : Layout begin_ afterRo kernsz ramMax root t)
    (hother : ∀ n < 2 ^ 36, ¬ InKernel kernsz n → ¬ InDmap ramMax n →
      find root t n = if n / 512 ^ 2 = 0 then some (2, dmapEntry 0) else none) {a : ℕ} (ha : 2 ^ 30 ≤ a)
    (hlast : a < 2 ^ 47) : kptGetPhys t.mem root a = kpageErr := by
  rw [kptGetPhys_eq _ h.rebase]
  change physOf a (find root t _) = kpageErr
  rw [find_lower hother hlast, if_neg (by omega)]
  rfl

/-- The frames of the first region are frames for tables. -/
theorem frames_first {e : MapEntry} {end_ n : ℕ} (hlen : e.len < 2 ^ 64) (hgood : Good k end_ e)
    (hn : n ≤ (pfInitRegion k e).curFrames) (hend : regionAddr k e + regionLen k e ≤ 2 ^ 52) :
    Frames ((List.range n).map (frameAt k e)) := by
  refine ⟨List.Nodup.map_on (fun i hi j hj heq => ?_) List.nodup_range, fun f hf => ?_⟩
  · have hroom := hgood.two_pages hlen (lt_of_lt_of_le (List.mem_range.1 hi) hn)
    have hroom' := hgood.two_pages hlen (lt_of_lt_of_le (List.mem_range.1 hj) hn)
    rw [frameAt, frameAt, pageSize] at heq
    rw [pageSize] at hroom hroom'
    omega
  · obtain ⟨j, hj, rfl⟩ := List.mem_map.1 hf
    obtain ⟨hdvd, -, hlast, -⟩ := hgood.frameAt_spec hlen (lt_of_lt_of_le (List.mem_range.1 hj) hn)
    rw [pageSize] at hlast
    exact ⟨hdvd, by omega⟩

/-- **A run with enough frames** in the first region: the records of the others are those of the memory map. -/
theorem startKernel_run {info : MapInfo} {e : MapEntry} {l : List MapEntry} (begin_ afterRo : ℕ)
    (tables : ℕ → ℕ → ℕ) (hparse : piLoopMb2Mapentries mem map n MapInfo.blank = some info)
    (hentries : info.map = e :: l) (hmap : IsMap (e :: l)) (hap : Apart k (e :: l))
    (hgood : Good k (firstEnd k (e :: l)) e) (hend : regionAddr k e + regionLen k e ≤ 2 ^ 52)
    (hk : k.stop - k.start + loadAddr ≤ 2 ^ 30) (hram : info.total ≤ 2 ^ 46)
    (hroom : tableFrames (k.stop - k.start + loadAddr) info.total + 2 ≤ (pfInitRegion k e).curFrames) :
    ∃ b, startKernel k begin_ afterRo loadAddr mem map n tables = some b ∧ b.info = info ∧
      b.regions = (e :: l).map (regionAddr k) ∧ Frames b.frames ∧
      (∀ e' ∈ l, header b.mem (regionAddr k e') = pfInitRegion k e') ∧
      header b.mem (regionAddr k e) =
        (pfInitRegion k e).after (tableFrames (k.stop - k.start + loadAddr) info.total + 2) := by
  have hmax : info.ramMax = info.total := (ramMax_eq hparse).trans (Nat.mod_eq_of_lt (by omega))
  have hsize := kernelSize_eq (show k.stop - k.start + loadAddr < 2 ^ 64 by omega)
  have hstart := k.start_lt
  obtain ⟨mem₁, hinit, htaken⟩ := taken_init hmap hap mem
  obtain ⟨mem₂, hrun, htaken₂⟩ := htaken.first hmap hap hgood _ hroom
  have hframes := frames_first (hmap.words e List.mem_cons_self).2 hgood hroom hend
  obtain ⟨l4, t, ht, -, -⟩ := initHigherHalf_spec (s := ⟨tables, _⟩) begin_ afterRo
    (show 0 < k.stop - k.start + loadAddr by omega) hk hram hframes
    (by rw [List.length_map, List.length_range])
  refine ⟨⟨info, (e :: l).map (regionAddr k), _, mem₂, l4, t⟩, ?_, rfl, rfl, hframes, fun e' he' => ?_, ?_⟩
  · unfold startKernel
    rw [hparse, hsize]
    simp only [Option.bind_eq_bind, Option.bind_some]
    rw [hentries, hinit, Option.bind_some, hmax, hrun, Option.bind_some, ht, Option.bind_some]
  · have hne : regionAddr k e' ≠ regionAddr k e := by
      have hused := used_ge (k := k) e
      have hused' := used_ge (k := k) e'
      rcases (List.pairwise_cons.1 hap.regions).1 e' he' with h | h <;> omega
    have hrecord := htaken₂.record e' (List.mem_cons_of_mem _ he')
    rwa [Function.update_of_ne hne, Region.after, Nat.zero_mul, Nat.sub_zero, Nat.sub_zero] at hrecord
  · have hrecord := htaken₂.record e List.mem_cons_self
    rwa [Function.update_self] at hrecord

/-- What is handed over are whole pages. -/
theorem dvd_of_mem_handoffLoop {phys : ℕ → ℕ} {rs : List ℕ} {mem : ℕ → UInt8} {r : ℕ × ℕ}
    (h : r ∈ handoffLoop phys give rs mem) : 4096 ∣ r.2 := by
  induction rs generalizing mem with
  | nil => cases h
  | cons a rs ih =>
      rw [handoffLoop] at h
      split at h
      · cases h
      · rcases List.mem_cons.1 h with rfl | h
        · exact (Nat.dvd_mod_iff (by decide)).2 (Nat.dvd_mul_left _ _)
        · exact ih h

end Run

/-- **When what is handed over is mapped.** -/
theorem handoff_mapped_iff {k : KernelImage} {begin_ afterRo loadAddr map n : ℕ} {mem : ℕ → UInt8}
    {tables : ℕ → ℕ → ℕ} {b : Booted} (give : (ℕ → UInt8) → ℕ → ℕ → ℕ → UInt8)
    (hrun : startKernel k begin_ afterRo loadAddr mem map n tables = some b) (hframes : Frames b.frames)
    (hk : k.stop - k.start + loadAddr ≤ 2 ^ 30) (hram : b.info.total ≤ 2 ^ 46) :
    HandoffMapped give b ↔
      ∀ r ∈ buddyHandoff give b, r.2 = 0 ∨ r.1 + r.2 ≤ b.info.total ⌈/⌉ 2 ^ 30 * 2 ^ 30 := by
  obtain ⟨hlayout, hother⟩ := startKernel_tables hrun hframes hk hram
  have hsize := kernelSize_eq (show k.stop - k.start + loadAddr < 2 ^ 64 by omega)
  exact forall₂_congr fun r hr =>
    range_iff hlayout hother (by omega) hram (dvd_of_mem_handoffLoop hr)

/-- A memory map of 256 MiB at zero, and 512 MiB at 768 MiB. -/
def holeTag (a : ℕ) : UInt8 :=
  if a = 0 then 6 else if a = 4 then 64 else if a = 8 then 24 else if a = 27 then 0x10 else if a = 32 then 1
  else if a = 43 then 0x30 else if a = 51 then 0x20 else if a = 56 then 1 else 0

/-- The run for this memory map hands over what is behind the hole. -/
theorem holeTag_run (give : (ℕ → UInt8) → ℕ → ℕ → ℕ → UInt8) :
    ∃ b, startKernel lowKernel 0xFFFFFFFF80100000 0xFFFFFFFF80200000 0x100000 holeTag 0 3 (fun _ _ => 0) = some b ∧
      Frames b.frames ∧ b.info.total = 0x30000000 ∧ buddyHandoff give b = [(0x30000000, 0x1FFFF000)] := by
  obtain ⟨info, hparse, hinfo⟩ : ∃ info, piLoopMb2Mapentries holeTag 0 3 MapInfo.blank = some info ∧
      (info.map, info.reclaimable) = ([⟨0, 0x10000000⟩, ⟨0x30000000, 0x20000000⟩], []) :=
    Option.map_eq_some_iff.1 (show (piLoopMb2Mapentries holeTag 0 3 MapInfo.blank).map
      (fun info => (info.map, info.reclaimable)) = _ by decide)
  obtain ⟨hentries, hreclaimable⟩ := Prod.mk.inj hinfo
  have htotal : info.total = 0x30000000 := by
    rw [MapInfo.total, hentries, hreclaimable]
    decide
  have hap : Apart lowKernel [⟨0, 0x10000000⟩, ⟨0x30000000, 0x20000000⟩] := ⟨by decide, by decide, by decide⟩
  obtain ⟨b, hrun, hb, hregions, hframes, hrecord, -⟩ := startKernel_run
    0xFFFFFFFF80100000 0xFFFFFFFF80200000 (fun _ _ => 0) hparse hentries ⟨by decide, by decide⟩ hap
    (by simp only [Good]; decide) (by decide) (show lowKernel.stop - lowKernel.start + 0x100000 ≤ 2 ^ 30 by decide)
    (by rw [htotal]; decide) (by rw [htotal]; decide)
  have htotal' : b.info.total = 0x30000000 := by rw [hb, htotal]
  obtain ⟨hlayout, hother⟩ := startKernel_tables hrun hframes (by decide) (by rw [htotal']; decide)
  refine ⟨b, hrun, hframes, htotal', ?_⟩
  have hheader := hrecord ⟨0x30000000, 0x20000000⟩ List.mem_cons_self
  have haddr : regionAddr lowKernel ⟨0x30000000, 0x20000000⟩ = 0x30000000 := by decide
  rw [haddr] at hheader
  rw [buddyHandoff, hregions]
  change handoffLoop _ _ [regionAddr lowKernel ⟨0x30000000, 0x20000000⟩] _ = _
  have hbase : (pfInitRegion lowKernel ⟨0x30000000, 0x20000000⟩).base = 0x30000000 := by decide
  have hlen : (pfInitRegion lowKernel ⟨0x30000000, 0x20000000⟩).curFrames * 4096 % 2 ^ 64 = 0x1FFFF000 := by decide
  rw [haddr, handoffLoop_cons (fun a ha => identity_page hlayout hother ha) (by decide), hheader, hbase, hlen,
    handoffLoop]

theorem handoff_mapped_iff_hole :
    ∃ b, b.info.total = 0x30000000 ∧ (HandoffMapped (fun mem _ _ => mem) b ↔
      ∀ r ∈ buddyHandoff (fun mem _ _ => mem) b,
        r.2 = 0 ∨ r.1 + r.2 ≤ b.info.total ⌈/⌉ 2 ^ 30 * 2 ^ 30) := by
  obtain ⟨b, hrun, hframes, htotal, -⟩ := holeTag_run fun mem _ _ => mem
  exact ⟨b, htotal, handoff_mapped_iff _ hrun hframes (by decide) (by rw [htotal]; decide)⟩

/-- **A hole in the memory**: the memory behind it is not mapped to its end. -/
theorem handoff_unmapped :
    ∃ b, startKernel lowKernel 0xFFFFFFFF80100000 0xFFFFFFFF80200000 0x100000 holeTag 0 3 (fun _ _ => 0) = some b ∧
      Frames b.frames ∧ ¬ HandoffMapped (fun mem _ _ => mem) b := by
  obtain ⟨b, hrun, hframes, htotal, hhandoff⟩ := holeTag_run fun mem _ _ => mem
  refine ⟨b, hrun, hframes, fun hmapped => ?_⟩
  obtain ⟨hlayout, hother⟩ := startKernel_tables hrun hframes (by decide) (by rw [htotal]; decide)
  have hrange := hmapped (0x30000000, 0x1FFFF000) (by rw [hhandoff]; exact List.mem_singleton_self _)
  have hend := (range_iff hlayout hother (by decide) (by rw [htotal]; decide) (by decide)).1 hrange
  rw [htotal] at hend
  exact absurd hend (by decide)

end Boot

end SyncKernel
