/-
**The frames of the boot loader** (`boot.c`).

`alloc_init` makes a region of each entry of the memory map.  The record of a region is in its first frame.
`alloc_frame` goes through the regions, and takes the frame at `top` from the first one that has frames.  It
dies if this frame is not below the end of the first region, whatever region it is from.

The list of the regions is in the kernel image; the table ends with `KPAGE_ERR`.

Main definitions:

* `Boot.header`, `Boot.putHeader` — the record of a region in memory;
* `Boot.allocInit`, `Boot.allocFrame` — setting up the regions, and taking a frame;
* `Boot.Serves`, `Boot.Pool` — a call returns what it should, and every call of every run does;
* `Boot.Apart`, `Boot.Usable` — the memory maps for which they do.

Main results:

* `Boot.Taken.step` — a call takes the next frame of a region;
* `Boot.pool_iff` — **when every call returns what it should**.
-/

import SyncKernel.Boot.Frames

set_option relaxedAutoImplicit false
set_option autoImplicit false

namespace SyncKernel

namespace Boot

/-- The record of a region. -/
def header (mem : ℕ → UInt8) (p : ℕ) : Region :=
  ⟨Bytes.read mem p 8, Bytes.read mem (p + 8) 8, Bytes.read mem (p + 16) 8, Bytes.read mem (p + 24) 8⟩

/-- The record goes to its place. -/
def putHeader (mem : ℕ → UInt8) (p : ℕ) (r : Region) : ℕ → UInt8 :=
  Bytes.write (Bytes.write (Bytes.write (Bytes.write mem p r.top 8) (p + 8) r.base 8) (p + 16) r.curFrames 8)
    (p + 24) r.maxFrames 8

/-- `alloc_init`: the table of the regions, and the memory; `none` if the code dies. -/
def allocInit (k : KernelImage) (map : List MapEntry) (mem : ℕ → UInt8) : Option (List ℕ × (ℕ → UInt8)) :=
  if map.length ≤ 64 then
    some (map.map (regionAddr k),
      map.foldl (fun mem ent => putHeader mem (regionAddr k ent) (pfInitRegion k ent)) mem)
  else none

/-- The loop of `alloc_frame`; `none` if the code dies. -/
def frameLoop (end_ : ℕ) : List ℕ → (ℕ → UInt8) → Option (ℕ × (ℕ → UInt8))
  | [], mem => some (kpageErr, mem)
  | r :: rs, mem =>
      if r = kpageErr then some (kpageErr, mem)
      else if (header mem r).curFrames = 0 then frameLoop end_ rs mem
      else if end_ ≤ (header mem r).top then none
      else
        some ((header mem r).top,
          Bytes.fill (Bytes.write (Bytes.write mem r (Word.sub (header mem r).top pageSize) 8)
            (r + 16) (Word.sub (header mem r).curFrames 1) 8) (header mem r).top pageSize 0)

/-- `alloc_frame`; `none` if the code dies, or follows the error pointer. -/
def allocFrame (regions : List ℕ) (mem : ℕ → UInt8) : Option (ℕ × (ℕ → UInt8)) :=
  match regions with
  | [] => none
  | r :: _ =>
      if r = kpageErr then none
      else frameLoop (Word.add (header mem r).base ((header mem r).maxFrames * 4096 % 2 ^ 64)) regions mem

/-- Some calls, and what they return. -/
def frames (regions : List ℕ) : ℕ → (ℕ → UInt8) → Option (List ℕ × (ℕ → UInt8))
  | 0, mem => some ([], mem)
  | n + 1, mem => do
      let (ps, mem) ← frames regions n mem
      let (p, mem) ← allocFrame regions mem
      some (ps ++ [p], mem)

/-! ### What the calls should return -/

/-- The error pointer, exactly when no region has a frame; else a frame of the first region that has one,
which is not the first frame of the region. -/
structure Serves (regions : List ℕ) (mem : ℕ → UInt8) (p : ℕ) : Prop where
  error_iff : p = kpageErr ↔ ∀ r ∈ regions, (header mem r).curFrames = 0
  frame : ∀ r, regions.find? (fun r => (header mem r).curFrames ≠ 0) = some r →
    pageSize ∣ p ∧ (header mem r).base + pageSize ≤ p ∧
      p + pageSize ≤ (header mem r).base + (header mem r).maxFrames * pageSize

/-- Every call of every run returns, and returns what it should and no frame twice. -/
def Pool (k : KernelImage) (map : List MapEntry) : Prop :=
  ∀ mem, ∃ regions mem₁, allocInit k map mem = some (regions, mem₁) ∧
    ∀ n, ∃ ps mem₂, frames regions n mem₁ = some (ps, mem₂) ∧
      ∃ p mem₃, allocFrame regions mem₂ = some (p, mem₃) ∧ Serves regions mem₂ p ∧ (p ≠ kpageErr → p ∉ ps)

/-- A memory map of at most 64 entries. -/
structure IsMap (map : List MapEntry) : Prop where
  few : map.length ≤ 64
  words : ∀ ent ∈ map, ent.base < 2 ^ 64 ∧ ent.len < 2 ^ 64

section Condition

variable (k : KernelImage)

/-- The memory that a region uses: its record, and the frames if there are some. -/
def used (ent : MapEntry) : ℕ :=
  if 2 * pageSize ≤ regionLen k ent ∧ regionAddr k ent + regionLen k ent ≤ 2 ^ 64 then regionLen k ent else 32

/-- The memory that the regions use is apart from each other and from the kernel image. -/
structure Apart (map : List MapEntry) : Prop where
  inside : ∀ ent ∈ map, regionAddr k ent + 32 ≤ 2 ^ 64
  kernel : ∀ ent ∈ map, regionAddr k ent + used k ent ≤ k.start ∨ k.stop ≤ regionAddr k ent
  regions : map.Pairwise fun e e' =>
    regionAddr k e + used k e ≤ regionAddr k e' ∨ regionAddr k e' + used k e' ≤ regionAddr k e

/-- The end of the first region, with which the frames of all regions are compared. -/
def firstEnd : List MapEntry → ℕ
  | [] => 0
  | ent :: _ => Word.add (regionAddr k ent) (regionLen k ent / pageSize * pageSize % 2 ^ 64)

/-- The region has a page; and if it has two, it begins and ends at a page, and its last frame is below the
end of the first region. -/
def Good (end_ : ℕ) (ent : MapEntry) : Prop :=
  pageSize ≤ regionLen k ent ∧ (2 * pageSize ≤ regionLen k ent →
    pageSize ∣ regionAddr k ent ∧ pageSize ∣ regionLen k ent ∧ regionAddr k ent + regionLen k ent ≤ 2 ^ 64 ∧
      regionAddr k ent + regionLen k ent - pageSize < end_)

/-- There is a region, and all of them are good. -/
structure Usable (map : List MapEntry) : Prop where
  some : map ≠ []
  good : ∀ ent ∈ map, Good k (firstEnd k map) ent

end Condition

/-! ### Records in memory -/

theorem header_congr {mem mem' : ℕ → UInt8} {p : ℕ} (h : ∀ b, p ≤ b → b < p + 32 → mem b = mem' b) :
    header mem p = header mem' p := by
  rw [header, header, Bytes.read_congr fun b h₁ h₂ => h b (by omega) (by omega),
    Bytes.read_congr fun b h₁ h₂ => h b (by omega) (by omega),
    Bytes.read_congr (a := p + 16) fun b h₁ h₂ => h b (by omega) (by omega),
    Bytes.read_congr (a := p + 24) fun b h₁ h₂ => h b (by omega) (by omega)]

theorem putHeader_of_notMem {mem : ℕ → UInt8} {p b : ℕ} {r : Region} (h : b < p ∨ p + 32 ≤ b) :
    putHeader mem p r b = mem b := by
  rw [putHeader, Bytes.write_of_notMem (by omega), Bytes.write_of_notMem (by omega),
    Bytes.write_of_notMem (by omega), Bytes.write_of_notMem (by omega)]

/-- The fields of the record are words. -/
structure Region.Words (r : Region) : Prop where
  top : r.top < 2 ^ 64
  base : r.base < 2 ^ 64
  curFrames : r.curFrames < 2 ^ 64
  maxFrames : r.maxFrames < 2 ^ 64

theorem header_putHeader (mem : ℕ → UInt8) (p : ℕ) {r : Region} (h : r.Words) :
    header (putHeader mem p r) p = r := by
  have hword : (256 : ℕ) ^ 8 = 2 ^ 64 := rfl
  rw [header, putHeader, Bytes.read_write_apart (by omega), Bytes.read_write_apart (by omega),
    Bytes.read_write_apart (by omega), Bytes.read_write_self le_rfl, Bytes.read_write_apart (by omega),
    Bytes.read_write_apart (by omega), Bytes.read_write_self le_rfl, Bytes.read_write_apart (by omega),
    Bytes.read_write_self le_rfl, Bytes.read_write_self le_rfl, hword, Nat.mod_eq_of_lt h.top,
    Nat.mod_eq_of_lt h.base, Nat.mod_eq_of_lt h.curFrames, Nat.mod_eq_of_lt h.maxFrames]

theorem pfInitRegion_words {k : KernelImage} {ent : MapEntry} (hbase : ent.base < 2 ^ 64)
    (hlen : ent.len < 2 ^ 64) : (pfInitRegion k ent).Words where
  top := Word.sub_lt _ _
  base := regionAddr_lt hbase
  curFrames := Word.sub_lt _ _
  maxFrames := by
    rw [pfInitRegion_maxFrames hlen]
    exact lt_of_le_of_lt (Nat.div_le_self _ _) (regionLen_lt hlen)

/-- What `alloc_frame` writes when it takes the frame at `f` from the region at `r`. -/
def takeFrame (mem : ℕ → UInt8) (r f : ℕ) : ℕ → UInt8 :=
  Bytes.fill (Bytes.write (Bytes.write mem r (Word.sub f pageSize) 8)
    (r + 16) (Word.sub (header mem r).curFrames 1) 8) f pageSize 0

theorem takeFrame_of_notMem {mem : ℕ → UInt8} {r f b : ℕ} (hr : b < r ∨ r + 32 ≤ b)
    (hf : b < f ∨ f + pageSize ≤ b) : takeFrame mem r f b = mem b := by
  rw [takeFrame, Bytes.fill_of_notMem hf, Bytes.write_of_notMem (by omega), Bytes.write_of_notMem (by omega)]

/-- The record of the region behind which the frame is taken. -/
theorem header_takeFrame {mem : ℕ → UInt8} {r f : ℕ} (h : r + 32 ≤ f) :
    header (takeFrame mem r f) r = { header mem r with
      top := Word.sub f pageSize
      curFrames := Word.sub (header mem r).curFrames 1 } := by
  have hword : (256 : ℕ) ^ 8 = 2 ^ 64 := rfl
  have hfill : header (takeFrame mem r f) r = header (Bytes.write (Bytes.write mem r (Word.sub f pageSize) 8)
      (r + 16) (Word.sub (header mem r).curFrames 1) 8) r :=
    header_congr fun b _ hb => Bytes.fill_of_notMem (by omega)
  rw [hfill, header, Bytes.read_write_apart (by omega), Bytes.read_write_self le_rfl,
    Bytes.read_write_apart (by omega), Bytes.read_write_apart (by omega), Bytes.read_write_self le_rfl,
    Bytes.read_write_apart (by omega), Bytes.read_write_apart (by omega), hword,
    Nat.mod_eq_of_lt (Word.sub_lt _ _), Nat.mod_eq_of_lt (Word.sub_lt _ _)]
  rfl

/-! ### The loop -/

/-- Regions without frames are skipped. -/
theorem frameLoop_skip {end_ : ℕ} {mem : ℕ → UInt8} {l₁ : List ℕ}
    (h : ∀ r ∈ l₁, r ≠ kpageErr ∧ (header mem r).curFrames = 0) (l₂ : List ℕ) :
    frameLoop end_ (l₁ ++ l₂) mem = frameLoop end_ l₂ mem := by
  induction l₁ with
  | nil => rfl
  | cons r l₁ ih =>
      obtain ⟨hne, hzero⟩ := h r List.mem_cons_self
      rw [List.cons_append, frameLoop, if_neg hne, if_pos hzero]
      exact ih fun r' hr' => h r' (List.mem_cons_of_mem r hr')

/-- The first region with frames. -/
theorem frameLoop_first {end_ : ℕ} {mem : ℕ → UInt8} {l₁ : List ℕ} {r : ℕ}
    (h : ∀ r ∈ l₁, r ≠ kpageErr ∧ (header mem r).curFrames = 0) (hne : r ≠ kpageErr)
    (hcur : (header mem r).curFrames ≠ 0) (l₂ : List ℕ) :
    frameLoop end_ (l₁ ++ r :: l₂) mem =
      if end_ ≤ (header mem r).top then none
      else some ((header mem r).top, takeFrame mem r (header mem r).top) := by
  rw [frameLoop_skip h, frameLoop, if_neg hne, if_neg hcur]
  rfl

theorem frames_succ {regions : List ℕ} {n p : ℕ} {mem mem₁ mem₂ : ℕ → UInt8} {ps : List ℕ}
    (h : frames regions n mem = some (ps, mem₁)) (hp : allocFrame regions mem₁ = some (p, mem₂)) :
    frames regions (n + 1) mem = some (ps ++ [p], mem₂) := by
  rw [frames, h]
  show (allocFrame regions mem₁).bind _ = _
  rw [hp]
  rfl

/-! ### Frames of a region -/

/-- The record, after some frames have been taken. -/
def Region.after (r : Region) (j : ℕ) : Region :=
  { r with top := r.top - j * pageSize, curFrames := r.curFrames - j }

section After

variable (r : Region) (j : ℕ)

@[simp] theorem Region.after_top : (r.after j).top = r.top - j * pageSize := rfl

@[simp] theorem Region.after_base : (r.after j).base = r.base := rfl

@[simp] theorem Region.after_curFrames : (r.after j).curFrames = r.curFrames - j := rfl

@[simp] theorem Region.after_maxFrames : (r.after j).maxFrames = r.maxFrames := rfl

end After

/-- The frames of a region, from the last one on. -/
def frameAt (k : KernelImage) (ent : MapEntry) (j : ℕ) : ℕ :=
  regionAddr k ent + regionLen k ent - (j + 1) * pageSize

section Entry

variable {k : KernelImage} {ent : MapEntry} {end_ : ℕ}

theorem Good.curFrames (h : Good k end_ ent) (hlen : ent.len < 2 ^ 64) :
    (pfInitRegion k ent).curFrames = regionLen k ent / pageSize - 1 := by
  have hpage := h.1
  have hlt := regionLen_lt (k := k) hlen
  rw [pfInitRegion_curFrames hlen, pageSize, Word.sub_of_le]
  · rw [pageSize] at hpage
    omega
  · omega

/-- A region with a frame has two pages. -/
theorem Good.two_pages (h : Good k end_ ent) (hlen : ent.len < 2 ^ 64) {j : ℕ}
    (hj : j < (pfInitRegion k ent).curFrames) : (j + 2) * pageSize ≤ regionLen k ent := by
  rw [h.curFrames hlen, pageSize] at hj
  rw [pageSize]
  omega

theorem Good.two_le (h : Good k end_ ent) (hlen : ent.len < 2 ^ 64) {j : ℕ}
    (hj : j < (pfInitRegion k ent).curFrames) : 2 * pageSize ≤ regionLen k ent :=
  (Nat.mul_le_mul_right _ (Nat.le_add_left 2 j)).trans (h.two_pages hlen hj)

theorem Good.top (h : Good k end_ ent) (htwo : 2 * pageSize ≤ regionLen k ent) :
    (pfInitRegion k ent).top = regionAddr k ent + regionLen k ent - pageSize := by
  obtain ⟨-, -, hend, -⟩ := h.2 htwo
  show Word.sub (Word.add (regionAddr k ent) (regionLen k ent)) pageSize = _
  rw [pageSize] at htwo ⊢
  rw [Word.sub, Word.add]
  omega

/-- A bad region has frames by its record. -/
theorem curFrames_ne_zero (hlen : ent.len < 2 ^ 64) (h : ¬ Good k end_ ent) :
    (pfInitRegion k ent).curFrames ≠ 0 := by
  have hlt := regionLen_lt (k := k) hlen
  intro hzero
  rw [pfInitRegion_curFrames hlen, Word.sub] at hzero
  refine h ⟨?_, fun htwo => ?_⟩
  · rw [pageSize]
    omega
  · rw [pageSize] at htwo
    omega

end Entry

/-! ### Runs -/

/-- What some calls have taken: the records are behind the frames that are taken, and only good regions have
given frames. -/
structure Taken (k : KernelImage) (map : List MapEntry) (t : ℕ → ℕ) (ps : List ℕ) (mem : ℕ → UInt8) : Prop where
  record : ∀ e ∈ map, header mem (regionAddr k e) = (pfInitRegion k e).after (t (regionAddr k e))
  few : ∀ e ∈ map, t (regionAddr k e) = 0 ∨
    Good k (firstEnd k map) e ∧ t (regionAddr k e) ≤ (pfInitRegion k e).curFrames
  taken : ∀ p ∈ ps, p ≠ kpageErr → ∃ e ∈ map, ∃ j < t (regionAddr k e), p = frameAt k e j

section Runs

variable {k : KernelImage} {map : List MapEntry} {t : ℕ → ℕ} {ps : List ℕ} {mem : ℕ → UInt8}

theorem used_ge (ent : MapEntry) : 32 ≤ used k ent := by
  rw [used, pageSize]
  split
  · omega
  · exact le_rfl

theorem Good.used {ent : MapEntry} {end_ : ℕ} (h : Good k end_ ent) (htwo : 2 * pageSize ≤ regionLen k ent) :
    used k ent = regionLen k ent := if_pos ⟨htwo, (h.2 htwo).2.2.1⟩

theorem Apart.ne_error (h : Apart k map) {e : MapEntry} (he : e ∈ map) : regionAddr k e ≠ kpageErr := by
  have hin := h.inside e he
  rw [kpageErr]
  omega

/-- Two regions are apart. -/
theorem Apart.pair (h : Apart k map) {e e' : MapEntry} (he : e ∈ map) (he' : e' ∈ map) (hne : e ≠ e') :
    regionAddr k e + used k e ≤ regionAddr k e' ∨ regionAddr k e' + used k e' ≤ regionAddr k e :=
  haveI : Std.Symm fun e e' => regionAddr k e + used k e ≤ regionAddr k e' ∨
      regionAddr k e' + used k e' ≤ regionAddr k e := ⟨fun _ _ => Or.symm⟩
  h.regions.forall he he' hne

/-- Regions at different places of the map have different addresses. -/
theorem Apart.addr_ne (h : Apart k map) {l₁ l₂ : List MapEntry} {e e' : MapEntry} (hsplit : map = l₁ ++ e :: l₂)
    (he' : e' ∈ l₁) : regionAddr k e' ≠ regionAddr k e := by
  have hpair := h.regions
  rw [hsplit] at hpair
  have := (List.pairwise_append.1 hpair).2.2 e' he' e List.mem_cons_self
  have h₁ := used_ge (k := k) e
  have h₂ := used_ge (k := k) e'
  omega

/-- The end with which frames are compared. -/
theorem Taken.allocFrame_eq (h : Taken k map t ps mem) (hmap : IsMap map) (hap : Apart k map) (hne : map ≠ []) :
    allocFrame (map.map (regionAddr k)) mem = frameLoop (firstEnd k map) (map.map (regionAddr k)) mem := by
  cases map with
  | nil => exact absurd rfl hne
  | cons e map =>
      have hmem : e ∈ e :: map := List.mem_cons_self
      rw [List.map_cons, allocFrame, if_neg (hap.ne_error hmem), h.record e hmem, firstEnd, pageSize,
        ← pfInitRegion_maxFrames (hmap.words e hmem).2, Region.after_base, Region.after_maxFrames,
        pfInitRegion_base]

theorem Taken.cur_eq (h : Taken k map t ps mem) {e : MapEntry} (he : e ∈ map) :
    (header mem (regionAddr k e)).curFrames = (pfInitRegion k e).curFrames - t (regionAddr k e) := by
  rw [h.record e he, Region.after_curFrames]

/-- The regions before the first one that has a frame are skipped. -/
theorem Taken.skipped (h : Taken k map t ps mem) (hap : Apart k map) {l₁ l₂ : List MapEntry}
    (hsplit : map = l₁ ++ l₂) (hdone : ∀ e ∈ l₁, t (regionAddr k e) = (pfInitRegion k e).curFrames) :
    ∀ r ∈ l₁.map (regionAddr k), r ≠ kpageErr ∧ (header mem r).curFrames = 0 := by
  intro r hr
  obtain ⟨e, he, rfl⟩ := List.mem_map.1 hr
  have hmem : e ∈ map := by
    rw [hsplit]
    exact List.mem_append_left _ he
  refine ⟨hap.ne_error hmem, ?_⟩
  rw [h.cur_eq hmem, hdone e he, Nat.sub_self]

/-- The first region that has a frame. -/
theorem find_first {l₁ l₂ : List ℕ} {r : ℕ} (h : ∀ r ∈ l₁, r ≠ kpageErr ∧ (header mem r).curFrames = 0)
    (hcur : (header mem r).curFrames ≠ 0) :
    (l₁ ++ r :: l₂).find? (fun r => (header mem r).curFrames ≠ 0) = some r := by
  rw [List.find?_append, List.find?_eq_none.2 fun r' hr' => by simp [(h r' hr').2], Option.none_or,
    List.find?_cons_of_pos (by simpa using hcur)]

/-- The frames of the good regions. -/
theorem Good.frameAt_spec {e : MapEntry} {end_ j : ℕ} (h : Good k end_ e) (hlen : e.len < 2 ^ 64)
    (hj : j < (pfInitRegion k e).curFrames) :
    pageSize ∣ frameAt k e j ∧ regionAddr k e + pageSize ≤ frameAt k e j ∧
      frameAt k e j + pageSize ≤ regionAddr k e + regionLen k e ∧ frameAt k e j < end_ := by
  have hroom := h.two_pages hlen hj
  have htwo := h.two_le hlen hj
  obtain ⟨haddr, hdvd, -, hlast⟩ := h.2 htwo
  rw [pageSize] at *
  rw [frameAt, pageSize]
  exact ⟨by omega, by omega, by omega, by omega⟩

/-- Frames that are taken are different. -/
theorem Taken.frame_notMem (h : Taken k map t ps mem) (hmap : IsMap map) (hap : Apart k map) {e : MapEntry}
    (he : e ∈ map) (hgood : Good k (firstEnd k map) e)
    (hlt : t (regionAddr k e) < (pfInitRegion k e).curFrames)
    (herr : frameAt k e (t (regionAddr k e)) ≠ kpageErr) : frameAt k e (t (regionAddr k e)) ∉ ps := by
  intro hp
  obtain ⟨e', he', j, hj, heq⟩ := h.taken _ hp herr
  have hroom := hgood.two_pages (hmap.words e he).2 hlt
  rcases h.few e' he' with hzero | ⟨hgood', hle⟩
  · omega
  have hroom' := hgood'.two_pages (hmap.words e' he').2 (lt_of_lt_of_le hj hle)
  by_cases hne : e = e'
  · subst hne
    rw [frameAt, frameAt, pageSize] at heq
    rw [pageSize] at hroom
    omega
  · -- each frame lies in its region
    have hap' := hap.pair he he' hne
    obtain ⟨-, hfirst, hlast, -⟩ := hgood.frameAt_spec (hmap.words e he).2 hlt
    obtain ⟨-, hfirst', hlast', -⟩ := hgood'.frameAt_spec (hmap.words e' he').2 (lt_of_lt_of_le hj hle)
    rw [hgood.used (hgood.two_le (hmap.words e he).2 hlt),
      hgood'.used (hgood'.two_le (hmap.words e' he').2 (lt_of_lt_of_le hj hle))] at hap'
    rw [pageSize] at *
    omega

/-- A region has one address. -/
theorem Apart.eq_of_addr (h : Apart k map) {e e' : MapEntry} (he : e ∈ map) (he' : e' ∈ map)
    (haddr : regionAddr k e' = regionAddr k e) : e' = e := by
  by_contra hne
  have hap := h.pair he' he hne
  have h₁ := used_ge (k := k) e
  have h₂ := used_ge (k := k) e'
  omega

/-- The record of the region that has given the next frame. -/
theorem Taken.record_self (h : Taken k map t ps mem) (hmap : IsMap map) {e : MapEntry} (he : e ∈ map)
    (hgood : Good k (firstEnd k map) e) (hlt : t (regionAddr k e) < (pfInitRegion k e).curFrames) :
    header (takeFrame mem (regionAddr k e) (frameAt k e (t (regionAddr k e)))) (regionAddr k e) =
      (pfInitRegion k e).after (t (regionAddr k e) + 1) := by
  have hlen := (hmap.words e he).2
  have hroom := hgood.two_pages hlen hlt
  have htwo := hgood.two_le hlen hlt
  obtain ⟨-, hfirst, -, -⟩ := hgood.frameAt_spec hlen hlt
  have hsum := (hgood.2 htwo).2.2.1
  have htop : Word.sub (frameAt k e (t (regionAddr k e))) pageSize =
      (pfInitRegion k e).top - (t (regionAddr k e) + 1) * pageSize := by
    rw [hgood.top htwo, frameAt, pageSize]
    rw [pageSize] at hroom
    rw [Word.sub_of_le (by omega) (by omega)]
    omega
  have hcur : Word.sub ((pfInitRegion k e).after (t (regionAddr k e))).curFrames 1 =
      (pfInitRegion k e).curFrames - (t (regionAddr k e) + 1) := by
    have hword := (pfInitRegion_words (k := k) (hmap.words e he).1 hlen).curFrames
    rw [Region.after_curFrames, Word.sub_of_le (by omega) (by omega)]
    omega
  rw [header_takeFrame (by rw [pageSize] at hfirst; omega), h.record e he, htop, hcur]
  rfl

/-- The record of another region is in memory that is not touched. -/
theorem Taken.record_other (h : Taken k map t ps mem) (hmap : IsMap map) (hap : Apart k map) {e e' : MapEntry}
    (he : e ∈ map) (he' : e' ∈ map) (hne : e ≠ e') (hgood : Good k (firstEnd k map) e)
    (hlt : t (regionAddr k e) < (pfInitRegion k e).curFrames) :
    header (takeFrame mem (regionAddr k e) (frameAt k e (t (regionAddr k e)))) (regionAddr k e') =
      (pfInitRegion k e').after (t (regionAddr k e')) := by
  have hlen := (hmap.words e he).2
  have htwo := hgood.two_le hlen hlt
  obtain ⟨-, hfirst, hlast, -⟩ := hgood.frameAt_spec hlen hlt
  have hap' := hap.pair he he' hne
  have hused := used_ge (k := k) e'
  rw [hgood.used htwo] at hap'
  rw [pageSize] at *
  rw [← h.record e' he']
  exact header_congr fun b hb hb' => takeFrame_of_notMem (by omega) (by rw [pageSize]; omega)

/-- The next frame of a region is taken. -/
theorem Taken.take (h : Taken k map t ps mem) (hmap : IsMap map) (hap : Apart k map) {e : MapEntry}
    (he : e ∈ map) (hgood : Good k (firstEnd k map) e)
    (hlt : t (regionAddr k e) < (pfInitRegion k e).curFrames) :
    Taken k map (Function.update t (regionAddr k e) (t (regionAddr k e) + 1))
      (ps ++ [frameAt k e (t (regionAddr k e))])
      (takeFrame mem (regionAddr k e) (frameAt k e (t (regionAddr k e)))) := by
  have haddr : ∀ {e'}, e' ∈ map → e' ≠ e → regionAddr k e' ≠ regionAddr k e :=
    fun he' hne heq => hne (hap.eq_of_addr he he' heq)
  refine ⟨fun e' he' => ?_, fun e' he' => ?_, fun p hp hne => ?_⟩
  · by_cases hne : e' = e
    · subst hne
      rw [h.record_self hmap he hgood hlt, Function.update_self]
    · rw [h.record_other hmap hap he he' (Ne.symm hne) hgood hlt, Function.update_of_ne (haddr he' hne)]
  · by_cases hne : e' = e
    · subst hne
      rw [Function.update_self]
      exact Or.inr ⟨hgood, hlt⟩
    · rw [Function.update_of_ne (haddr he' hne)]
      exact h.few e' he'
  · rcases List.mem_append.1 hp with hp | hp
    · obtain ⟨e', he', j, hj, rfl⟩ := h.taken p hp hne
      refine ⟨e', he', j, lt_of_lt_of_le hj ?_, rfl⟩
      by_cases heq : regionAddr k e' = regionAddr k e
      · rw [heq, Function.update_self]
        exact Nat.le_succ _
      · rw [Function.update_of_ne heq]
    · rw [List.mem_singleton.1 hp]
      exact ⟨e, he, t (regionAddr k e), by rw [Function.update_self]; exact Nat.lt_succ_self _, rfl⟩

/-- **A call** takes the next frame of the first region that has one. -/
theorem Taken.step (h : Taken k map t ps mem) (hmap : IsMap map) (hap : Apart k map) {l₁ l₂ : List MapEntry}
    {e : MapEntry} (hsplit : map = l₁ ++ e :: l₂)
    (hdone : ∀ e ∈ l₁, t (regionAddr k e) = (pfInitRegion k e).curFrames)
    (hgood : Good k (firstEnd k map) e) (hlt : t (regionAddr k e) < (pfInitRegion k e).curFrames) :
    ∃ mem', allocFrame (map.map (regionAddr k)) mem = some (frameAt k e (t (regionAddr k e)), mem') ∧
      Serves (map.map (regionAddr k)) mem (frameAt k e (t (regionAddr k e))) ∧
      frameAt k e (t (regionAddr k e)) ≠ kpageErr ∧
      Taken k map (Function.update t (regionAddr k e) (t (regionAddr k e) + 1))
        (ps ++ [frameAt k e (t (regionAddr k e))]) mem' := by
  have he : e ∈ map := by simp [hsplit]
  have hlen := (hmap.words e he).2
  have htwo := hgood.two_le hlen hlt
  obtain ⟨hdvd, hfirst, hlast, hend⟩ := hgood.frameAt_spec hlen hlt
  have hskip := h.skipped hap hsplit hdone
  have hcur : (header mem (regionAddr k e)).curFrames ≠ 0 := by
    rw [h.cur_eq he]
    omega
  have htop : (header mem (regionAddr k e)).top = frameAt k e (t (regionAddr k e)) := by
    rw [h.record e he, Region.after_top, hgood.top htwo, frameAt, Nat.succ_mul]
    omega
  have herr : frameAt k e (t (regionAddr k e)) ≠ kpageErr := by
    rw [pageSize] at hdvd
    rw [kpageErr]
    omega
  have hregions : map.map (regionAddr k) = l₁.map (regionAddr k) ++ regionAddr k e :: l₂.map (regionAddr k) := by
    rw [hsplit, List.map_append, List.map_cons]
  refine ⟨takeFrame mem (regionAddr k e) (frameAt k e (t (regionAddr k e))), ?_, ⟨?_, ?_⟩, herr,
    h.take hmap hap he hgood hlt⟩
  · rw [h.allocFrame_eq hmap hap (List.ne_nil_of_mem he), hregions,
      frameLoop_first hskip (hap.ne_error he) hcur, htop, if_neg (Nat.not_le.2 hend)]
  · exact ⟨fun heq => absurd heq herr, fun hall => absurd (hall _ (List.mem_map_of_mem he)) hcur⟩
  · intro r hr
    rw [hregions, find_first hskip hcur, Option.some_inj] at hr
    subst hr
    have hmax : (header mem (regionAddr k e)).maxFrames = regionLen k e / 4096 := by
      rw [h.record e he, Region.after_maxFrames, pfInitRegion_maxFrames hlen]
    have hbase : (header mem (regionAddr k e)).base = regionAddr k e := by
      rw [h.record e he, Region.after_base, pfInitRegion_base]
    obtain ⟨-, hwhole, -⟩ := hgood.2 htwo
    rw [hmax, hbase]
    refine ⟨hdvd, hfirst, ?_⟩
    rw [pageSize] at hwhole hlast ⊢
    omega

/-- What `alloc_init` leaves alone. -/
theorem foldl_putHeader_of_notMem {map : List MapEntry} {b : ℕ}
    (h : ∀ e ∈ map, b < regionAddr k e ∨ regionAddr k e + 32 ≤ b) (mem : ℕ → UInt8) :
    map.foldl (fun mem ent => putHeader mem (regionAddr k ent) (pfInitRegion k ent)) mem b = mem b := by
  induction map generalizing mem with
  | nil => rfl
  | cons e map ih =>
      rw [List.foldl_cons, ih (fun e' he' => h e' (List.mem_cons_of_mem e he')),
        putHeader_of_notMem (h e List.mem_cons_self)]

theorem IsMap.of_cons {e : MapEntry} (h : IsMap (e :: map)) : IsMap map :=
  ⟨(Nat.le_succ _).trans h.few, fun e' he' => h.words e' (List.mem_cons_of_mem e he')⟩

theorem Apart.of_cons {e : MapEntry} (h : Apart k (e :: map)) : Apart k map :=
  ⟨fun e' he' => h.inside e' (List.mem_cons_of_mem e he'),
    fun e' he' => h.kernel e' (List.mem_cons_of_mem e he'), (List.pairwise_cons.1 h.regions).2⟩

/-- **The records** after `alloc_init`. -/
theorem header_foldl {map : List MapEntry} (hmap : IsMap map) (hap : Apart k map) (mem : ℕ → UInt8) :
    ∀ e ∈ map, header (map.foldl (fun mem ent => putHeader mem (regionAddr k ent) (pfInitRegion k ent)) mem)
      (regionAddr k e) = pfInitRegion k e := by
  induction map generalizing mem with
  | nil => exact fun e he => absurd he List.not_mem_nil
  | cons e map ih =>
      intro e' he'
      rw [List.foldl_cons]
      rcases List.mem_cons.1 he' with rfl | he'
      · have hwords := hmap.words e' List.mem_cons_self
        refine (header_congr fun b hb hb' => foldl_putHeader_of_notMem (fun e he => ?_) _).trans
          (header_putHeader _ _ (pfInitRegion_words hwords.1 hwords.2))
        have hpair := (List.pairwise_cons.1 hap.regions).1 e he
        have h₁ := used_ge (k := k) e
        have h₂ := used_ge (k := k) e'
        omega
      · exact ih hmap.of_cons hap.of_cons _ e' he'

/-- Nothing is taken at the start. -/
theorem taken_init (hmap : IsMap map) (hap : Apart k map) (mem : ℕ → UInt8) :
    ∃ mem', allocInit k map mem = some (map.map (regionAddr k), mem') ∧
      Taken k map (fun _ => 0) [] mem' := by
  refine ⟨_, if_pos hmap.few, fun e he => ?_, fun e _ => Or.inl rfl, fun p hp => absurd hp List.not_mem_nil⟩
  rw [header_foldl hmap hap mem e he, Region.after, Nat.zero_mul, Nat.sub_zero, Nat.sub_zero]

/-- **No region has a frame**: the call returns the error pointer. -/
theorem Taken.none (h : Taken k map t ps mem) (hmap : IsMap map) (hap : Apart k map) (hne : map ≠ [])
    (hdone : ∀ e ∈ map, t (regionAddr k e) = (pfInitRegion k e).curFrames) :
    allocFrame (map.map (regionAddr k)) mem = some (kpageErr, mem) ∧
      Serves (map.map (regionAddr k)) mem kpageErr ∧ Taken k map t (ps ++ [kpageErr]) mem := by
  have hskip := h.skipped hap (List.append_nil map).symm hdone
  refine ⟨?_, ⟨?_, ?_⟩, h.record, h.few, ?_⟩
  · rw [h.allocFrame_eq hmap hap hne, ← List.append_nil (map.map (regionAddr k)), frameLoop_skip hskip, frameLoop]
  · exact ⟨fun _ r hr => (hskip r hr).2, fun _ => rfl⟩
  · intro r hr
    have hcur := List.find?_some hr
    rw [decide_eq_true_iff] at hcur
    exact absurd (hskip r (List.mem_of_find?_eq_some hr)).2 hcur
  · intro p hp hp'
    rcases List.mem_append.1 hp with hp | hp
    · exact h.taken p hp hp'
    · exact absurd (List.mem_singleton.1 hp) hp'

/-- **The next call**, when all regions are good. -/
theorem Taken.next (h : Taken k map t ps mem) (hmap : IsMap map) (hap : Apart k map) (hu : Usable k map) :
    ∃ p mem' t', allocFrame (map.map (regionAddr k)) mem = some (p, mem') ∧
      Serves (map.map (regionAddr k)) mem p ∧ (p ≠ kpageErr → p ∉ ps) ∧ Taken k map t' (ps ++ [p]) mem' := by
  by_cases hdone : ∀ e ∈ map, t (regionAddr k e) = (pfInitRegion k e).curFrames
  · obtain ⟨hcall, hserves, htaken⟩ := h.none hmap hap hu.some hdone
    exact ⟨kpageErr, mem, t, hcall, hserves, fun hne => absurd rfl hne, htaken⟩
  · obtain ⟨e, hfind⟩ : ∃ e, map.find? (fun e => t (regionAddr k e) ≠ (pfInitRegion k e).curFrames) = some e := by
      rw [← Option.isSome_iff_exists, List.find?_isSome]
      push Not at hdone
      obtain ⟨e, he, hne⟩ := hdone
      exact ⟨e, he, by simpa using hne⟩
    obtain ⟨hne, l₁, l₂, hsplit, hbefore⟩ := List.find?_eq_some_iff_append.1 hfind
    have he : e ∈ map := List.mem_of_find?_eq_some hfind
    have hlt : t (regionAddr k e) < (pfInitRegion k e).curFrames := by
      rw [decide_eq_true_iff] at hne
      rcases h.few e he with hzero | ⟨-, hle⟩
      · omega
      · omega
    have hgood := hu.good e he
    obtain ⟨mem', hcall, hserves, herr, htaken⟩ := h.step hmap hap hsplit
      (fun e' he' => by simpa using hbefore e' he') hgood hlt
    exact ⟨_, mem', _, hcall, hserves, fun herr => h.frame_notMem hmap hap he hgood hlt herr, htaken⟩

/-- **A run**, when all regions are good. -/
theorem Taken.run (h : Taken k map t [] mem) (hmap : IsMap map) (hap : Apart k map) (hu : Usable k map) (n : ℕ) :
    ∃ ps mem' t', frames (map.map (regionAddr k)) n mem = some (ps, mem') ∧ Taken k map t' ps mem' := by
  induction n with
  | zero => exact ⟨[], mem, t, rfl, h⟩
  | succ n ih =>
      obtain ⟨ps, mem₁, t₁, hrun, h₁⟩ := ih
      obtain ⟨p, mem₂, t₂, hcall, -, -, h₂⟩ := h₁.next hmap hap hu
      exact ⟨_, mem₂, t₂, frames_succ hrun hcall, h₂⟩

/-- A good region gives all its frames. -/
theorem Taken.drain {regions : List ℕ} {mem₁ : ℕ → UInt8} (hmap : IsMap map) (hap : Apart k map)
    (hregions : regions = map.map (regionAddr k)) {l₁ l₂ : List MapEntry} {e : MapEntry}
    (hsplit : map = l₁ ++ e :: l₂) (hgood : Good k (firstEnd k map) e) {n : ℕ}
    (hrun : frames regions n mem₁ = some (ps, mem)) (h : Taken k map t ps mem)
    (hdone : ∀ e ∈ l₁, t (regionAddr k e) = (pfInitRegion k e).curFrames) :
    ∃ n' ps' mem' t', frames regions n' mem₁ = some (ps', mem') ∧ Taken k map t' ps' mem' ∧
      ∀ e' ∈ l₁ ++ [e], t' (regionAddr k e') = (pfInitRegion k e').curFrames := by
  have he : e ∈ map := by simp [hsplit]
  have hle : t (regionAddr k e) ≤ (pfInitRegion k e).curFrames := by
    rcases h.few e he with hzero | ⟨-, hle⟩
    · omega
    · exact hle
  obtain ⟨d, hd⟩ := Nat.exists_eq_add_of_le hle
  induction d generalizing t ps mem n with
  | zero =>
      refine ⟨n, ps, mem, t, hrun, h, fun e' he' => ?_⟩
      rcases List.mem_append.1 he' with he' | he'
      · exact hdone e' he'
      · rw [List.mem_singleton.1 he', hd, Nat.add_zero]
  | succ d ih =>
      obtain ⟨mem', hcall, -, -, htaken⟩ := h.step hmap hap hsplit hdone hgood (by omega)
      refine ih (frames_succ hrun (hregions ▸ hcall)) htaken (fun e' he' => ?_) ?_ ?_
      · rw [Function.update_of_ne (hap.addr_ne hsplit he')]
        exact hdone e' he'
      · rw [Function.update_self]
        omega
      · rw [Function.update_self]
        omega

/-- **Good regions at the start** of the table come to give no more frames. -/
theorem Taken.drain_all {regions : List ℕ} (hmap : IsMap map) (hap : Apart k map)
    (hregions : regions = map.map (regionAddr k)) (h : Taken k map t [] mem) (l₁ l₂ : List MapEntry)
    (hsplit : map = l₁ ++ l₂) (hgood : ∀ e ∈ l₁, Good k (firstEnd k map) e) :
    ∃ n ps mem' t', frames regions n mem = some (ps, mem') ∧ Taken k map t' ps mem' ∧
      ∀ e ∈ l₁, t' (regionAddr k e) = (pfInitRegion k e).curFrames := by
  induction l₁ using List.reverseRecOn generalizing l₂ with
  | nil => exact ⟨0, [], mem, t, rfl, h, fun e he => absurd he List.not_mem_nil⟩
  | append_singleton l₁ e ih =>
      rw [List.append_assoc] at hsplit
      obtain ⟨n, ps, mem', t', hrun, htaken, hdone⟩ := ih _ hsplit fun e he => hgood e (List.mem_append_left _ he)
      exact Taken.drain hmap hap hregions hsplit (hgood e (by simp)) hrun htaken hdone

/-- **The first region** gives the frames of the first calls, from its last one on. -/
theorem Taken.first {e : MapEntry} {l : List MapEntry} (hmap : IsMap (e :: l)) (hap : Apart k (e :: l))
    (hgood : Good k (firstEnd k (e :: l)) e) (h : Taken k (e :: l) (fun _ => 0) [] mem) (n : ℕ)
    (hn : n ≤ (pfInitRegion k e).curFrames) :
    ∃ mem', frames ((e :: l).map (regionAddr k)) n mem = some ((List.range n).map (frameAt k e), mem') ∧
      Taken k (e :: l) (Function.update (fun _ => 0) (regionAddr k e) n) ((List.range n).map (frameAt k e)) mem' := by
  induction n with
  | zero => exact ⟨mem, rfl, by rwa [Function.update_eq_self_iff.2 rfl]⟩
  | succ n ih =>
      obtain ⟨mem₁, hrun, h₁⟩ := ih (by omega)
      obtain ⟨mem', hcall, -, -, htaken⟩ := h₁.step hmap hap (show e :: l = [] ++ e :: l from rfl)
        (fun e he => absurd he List.not_mem_nil) hgood (by rw [Function.update_self]; omega)
      rw [Function.update_self] at hcall htaken
      rw [Function.update_idem] at htaken
      have hlist : (List.range (n + 1)).map (frameAt k e) = (List.range n).map (frameAt k e) ++ [frameAt k e n] := by
        rw [List.range_succ, List.map_append, List.map_singleton]
      rw [hlist]
      exact ⟨mem', frames_succ hrun hcall, htaken⟩

/-- **A region that serves a call** is good. -/
theorem Taken.good_of_serves (h : Taken k map t ps mem) (hmap : IsMap map) (hap : Apart k map)
    {l₁ l₂ : List MapEntry} {e : MapEntry} (hsplit : map = l₁ ++ e :: l₂)
    (hdone : ∀ e ∈ l₁, t (regionAddr k e) = (pfInitRegion k e).curFrames) {p : ℕ} {mem' : ℕ → UInt8}
    (hcall : allocFrame (map.map (regionAddr k)) mem = some (p, mem'))
    (hserves : Serves (map.map (regionAddr k)) mem p) : Good k (firstEnd k map) e := by
  by_contra hbad
  have he : e ∈ map := by simp [hsplit]
  have hlen := (hmap.words e he).2
  have hzero : t (regionAddr k e) = 0 := (h.few e he).resolve_right fun hgood => hbad hgood.1
  have hrecord : header mem (regionAddr k e) = pfInitRegion k e := by
    rw [h.record e he, hzero, Region.after, Nat.zero_mul, Nat.sub_zero, Nat.sub_zero]
  have hskip := h.skipped hap hsplit hdone
  have hcur : (header mem (regionAddr k e)).curFrames ≠ 0 := by
    rw [hrecord]
    exact curFrames_ne_zero hlen hbad
  have hregions : map.map (regionAddr k) = l₁.map (regionAddr k) ++ regionAddr k e :: l₂.map (regionAddr k) := by
    rw [hsplit, List.map_append, List.map_cons]
  rw [h.allocFrame_eq hmap hap (List.ne_nil_of_mem he), hregions,
    frameLoop_first hskip (hap.ne_error he) hcur, hrecord] at hcall
  obtain ⟨hend, hp⟩ := Option.ite_none_left_eq_some.1 hcall
  obtain ⟨rfl, -⟩ := Prod.mk.inj (Option.some_inj.1 hp)
  have hframe := hserves.frame (regionAddr k e) (by rw [hregions]; exact find_first hskip hcur)
  rw [hrecord, pfInitRegion_maxFrames hlen, pfInitRegion_base] at hframe
  obtain ⟨hdvd, hfirst, hlast⟩ := hframe
  have hlt := regionLen_lt (k := k) hlen
  have hin := hap.inside e he
  have htop : (pfInitRegion k e).top = Word.sub (Word.add (regionAddr k e) (regionLen k e)) pageSize := rfl
  rw [htop, Word.sub, Word.add, pageSize] at hend hdvd hfirst hlast
  refine hbad ⟨?_, fun _ => ?_⟩
  · rw [pageSize]
    omega
  · rw [pageSize]
    exact ⟨by omega, by omega, by omega, by omega⟩

end Runs

/-- **When every call returns what it should.** -/
theorem pool_iff (k : KernelImage) (map : List MapEntry) (hmap : IsMap map) :
    (Apart k map ∧ Usable k map → Pool k map) ∧ (Apart k map → Pool k map → Usable k map) := by
  constructor
  · rintro ⟨hap, hu⟩ mem
    obtain ⟨mem₁, hinit, htaken⟩ := taken_init hmap hap mem
    refine ⟨_, mem₁, hinit, fun n => ?_⟩
    obtain ⟨ps, mem₂, t, hrun, h⟩ := htaken.run hmap hap hu n
    obtain ⟨p, mem₃, t', hcall, hserves, hnew, -⟩ := h.next hmap hap hu
    exact ⟨ps, mem₂, hrun, p, mem₃, hcall, hserves, hnew⟩
  · intro hap hpool
    obtain ⟨mem, hinit, htaken⟩ := taken_init hmap hap fun _ => 0
    obtain ⟨regions, mem₁, hinit', hcalls⟩ := hpool fun _ => 0
    rw [hinit, Option.some_inj] at hinit'
    obtain ⟨rfl, rfl⟩ := Prod.mk.inj hinit'
    refine ⟨?_, fun e he => ?_⟩
    · rintro rfl
      obtain ⟨ps, mem₂, -, p, mem₃, hcall, -⟩ := hcalls 0
      cases hcall
    · suffices hall : ∀ l₁ l₂, map = l₁ ++ l₂ → ∀ e ∈ l₁, Good k (firstEnd k map) e from
        hall map [] (List.append_nil map).symm e he
      intro l₁
      induction l₁ using List.reverseRecOn with
      | nil => exact fun _ _ e he => absurd he List.not_mem_nil
      | append_singleton l₁ e ih =>
          intro l₂ hsplit
          rw [List.append_assoc] at hsplit
          have hgood := ih _ hsplit
          -- the next region serves the call behind those that drain the good ones
          obtain ⟨n, ps, mem₂, t, hrun, h, hdone⟩ := htaken.drain_all hmap hap rfl l₁ _ hsplit hgood
          obtain ⟨ps', mem₂', hrun', p, mem₃, hcall, hserves, -⟩ := hcalls n
          rw [hrun, Option.some_inj] at hrun'
          obtain ⟨rfl, rfl⟩ := Prod.mk.inj hrun'
          intro e' he'
          rcases List.mem_append.1 he' with he' | he'
          · exact hgood e' he'
          · rw [List.mem_singleton.1 he']
            exact h.good_of_serves hmap hap hsplit hdone hcall hserves

/-- A kernel from 1 MiB to 5 MiB. -/
def lowKernel : KernelImage := ⟨0x100000, 0x500000, by decide, by decide⟩

/-- One region below the kernel. -/
theorem apart_low {len : ℕ} (h : len ≤ 0x100000) : Apart lowKernel [⟨0, len⟩] := by
  have hout : ¬ ContainsKernel lowKernel ⟨0, len⟩ := by
    rintro ⟨-, hstop⟩
    rw [Word.add_of_lt (show (0 : ℕ) + len < 2 ^ 64 by omega), Nat.zero_add] at hstop
    have hfive : lowKernel.stop = 0x500000 := rfl
    omega
  have haddr : regionAddr lowKernel ⟨0, len⟩ = 0 := if_neg hout
  have hlen : regionLen lowKernel ⟨0, len⟩ = len := if_neg hout
  refine ⟨fun e he => ?_, fun e he => ?_, List.pairwise_singleton _ _⟩
  · rw [List.mem_singleton.1 he, haddr]
    decide
  · rw [List.mem_singleton.1 he, haddr, Nat.zero_add, used, haddr, hlen]
    refine Or.inl ?_
    split
    · exact h
    · decide

/-- Three regions: the one with the kernel, the one below it, and a single page. -/
theorem pool_low : Pool lowKernel [⟨0x100000, 0x7F00000⟩, ⟨0, 0x9F000⟩, ⟨0x20000000, 0x1000⟩] :=
  (pool_iff lowKernel _ ⟨by decide, by decide⟩).1
    ⟨⟨by decide, by decide, by decide⟩, by decide, by simp only [Good]; decide⟩

/-- **The memory below the tables of the firmware** does not end at a page, and nor do its frames. -/
theorem not_pool_firmware : ¬ Pool lowKernel [⟨0, 0x9FC00⟩] := by
  intro hpool
  have hmap : IsMap [⟨0, 0x9FC00⟩] := ⟨by decide, by decide⟩
  have hap : Apart lowKernel [⟨0, 0x9FC00⟩] := apart_low (by decide)
  obtain ⟨mem, hinit, htaken⟩ := taken_init hmap hap fun _ => 0
  obtain ⟨regions, mem₁, hinit', hcalls⟩ := hpool fun _ => 0
  rw [hinit, Option.some_inj] at hinit'
  obtain ⟨rfl, rfl⟩ := Prod.mk.inj hinit'
  obtain ⟨ps, mem₂, hrun, p, mem₃, hcall, hserves, -⟩ := hcalls 0
  obtain ⟨-, rfl⟩ := Prod.mk.inj (Option.some_inj.1 hrun)
  have hfirst : [(⟨0, 0x9FC00⟩ : MapEntry)] = [] ++ ⟨0, 0x9FC00⟩ :: [] := rfl
  have hgood := htaken.good_of_serves hmap hap hfirst (fun e he => absurd he List.not_mem_nil) hcall hserves
  exact absurd (hgood.2 (by decide)).2.1 (by decide)

end Boot

end SyncKernel
