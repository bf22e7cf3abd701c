/-
**Reading the memory map of the boot loader** (`boot.c`, `bootparams.h`).

`pi_loop_mb2_mapentries` goes through the entries of the memory map tag, which are `map->entry_size` bytes
apart, keeps the available and the reclaimable ones in two arrays, adds their lengths up, and sorts both
arrays.  The loop runs while an entry begins in the tag; it has no test for the end of an entry, for a size
of zero, or for the end of an array.

Main definitions:

* `Boot.MapInfo` — the arrays, their counters and the two sums;
* `Boot.piSortBootMapentries`, `Boot.piLoopMb2Mapentries` — the sort and the loop;
* `Boot.tagEntries` — the entries of a tag;
* `Boot.Parses`, `Boot.Parseable` — the map is read as it should be, and the tags for which it is.

Main results:

* `Boot.piSortBootMapentries_sorts` — what the sort does to an array;
* `Boot.mapLoop_sound`, `Boot.mapLoop_total` — what the loop gathers, and when it ends;
* `Boot.parses_iff` — **when the map is read as it should be**.
-/

import SyncKernel.Boot.Multiboot
import SyncKernel.Lib.Insertion

set_option relaxedAutoImplicit false
set_option autoImplicit false

namespace SyncKernel

namespace Boot

/-- `MULTIBOOT_MEMORY_AVAILABLE`. -/
def multibootMemoryAvailable : ℕ := 1

/-- `MULTIBOOT_MEMORY_ACPI_RECLAIMABLE`. -/
def multibootMemoryAcpiReclaimable : ℕ := 3

/-- `struct bootparam_map_entry`. -/
structure MapEntry where
  base : ℕ
  len : ℕ
deriving DecidableEq

/-- `struct bootparam_map_info`. -/
structure MapInfo where
  entries : ℕ → MapEntry
  entriesReclaimable : ℕ → MapEntry
  ramMax : ℕ
  ramUsable : ℕ
  count : ℕ
  countReclaimable : ℕ

/-- The information at the start, which is all zeros. -/
def MapInfo.blank : MapInfo := ⟨fun _ => ⟨0, 0⟩, fun _ => ⟨0, 0⟩, 0, 0, 0, 0⟩

/-- `struct multiboot_mmap_entry`. -/
structure TagEntry where
  addr : ℕ
  len : ℕ
  type : ℕ

/-- What is kept of an entry. -/
def TagEntry.kept (ent : TagEntry) : MapEntry := ⟨ent.addr, ent.len⟩

/-- The entry at an address. -/
def tagEntry (mem : ℕ → UInt8) (p : ℕ) : TagEntry :=
  ⟨Bytes.read mem p 8, Bytes.read mem (p + 8) 8, Bytes.read mem (p + 16) 4⟩

/-- `map->entry_size`. -/
def entrySize (mem : ℕ → UInt8) (map : ℕ) : ℕ := Bytes.read mem (map + 8) 4

/-- The body of the loop; `none` for a write behind the end of an array. -/
def takeEntry (ent : TagEntry) (info : MapInfo) : Option MapInfo :=
  if ent.type = multibootMemoryAcpiReclaimable then
    if info.countReclaimable < 8 then
      some { info with
        entriesReclaimable := Function.update info.entriesReclaimable info.countReclaimable ent.kept
        ramMax := Word.add info.ramMax ent.len
        countReclaimable := (info.countReclaimable + 1) % 2 ^ 8 }
    else none
  else if ent.type ≠ multibootMemoryAvailable then some info
  else if info.count < 64 then
    some { info with
      entries := Function.update info.entries info.count ent.kept
      ramMax := Word.add info.ramMax ent.len
      ramUsable := Word.add info.ramUsable ent.len
      count := (info.count + 1) % 2 ^ 8 }
  else none

/-- The loop, which may not end. -/
def mapLoop (mem : ℕ → UInt8) (size end_ : ℕ) : ℕ → ℕ → MapInfo → Option MapInfo
  | 0, _, _ => none
  | n + 1, p, info =>
      if p < end_ then do
        let info ← takeEntry (tagEntry mem p) info
        mapLoop mem size end_ n (p + size) info
      else some info

/-- `pi_sort_boot_mapentries`. -/
def piSortBootMapentries (maps : ℕ → MapEntry) (upTo : ℕ) : ℕ → MapEntry :=
  Insertion.sort MapEntry.base upTo maps

/-- `pi_loop_mb2_mapentries`, with a bound for the turns of its loop. -/
def piLoopMb2Mapentries (mem : ℕ → UInt8) (map n : ℕ) (info : MapInfo) : Option MapInfo := do
  let info ← mapLoop mem (entrySize mem map) (map + tagSize mem map) n (map + 16) info
  some { info with
    entries := piSortBootMapentries info.entries info.count
    entriesReclaimable := piSortBootMapentries info.entriesReclaimable info.countReclaimable }

/-! ### What the loop should do -/

/-- Some entries, which stand one behind the other. -/
def entriesFrom (mem : ℕ → UInt8) (size p k : ℕ) : List TagEntry :=
  (List.range k).map fun i => tagEntry mem (p + i * size)

/-- The number of the entries whose 24 bytes are in the tag. -/
def entryCount (mem : ℕ → UInt8) (map : ℕ) : ℕ :=
  (tagSize mem map + entrySize mem map - 40) / entrySize mem map

/-- The entries of the tag. -/
def tagEntries (mem : ℕ → UInt8) (map : ℕ) : List TagEntry :=
  entriesFrom mem (entrySize mem map) (map + 16) (entryCount mem map)

/-- The entries of a type. -/
def ofType (type : ℕ) (es : List TagEntry) : List MapEntry :=
  (es.filter fun e => e.type = type).map TagEntry.kept

/-- The available entries. -/
def available (es : List TagEntry) : List MapEntry := ofType multibootMemoryAvailable es

/-- The reclaimable entries. -/
def reclaimable (es : List TagEntry) : List MapEntry := ofType multibootMemoryAcpiReclaimable es

/-- The sum of the lengths. -/
def totalLen (es : List MapEntry) : ℕ := (es.map MapEntry.len).sum

/-- The array has the entries, in the order of their bases. -/
def HasSorted (maps : ℕ → MapEntry) (count : ℕ) (es : List MapEntry) : Prop :=
  ((List.range count).map maps).Perm es ∧
    ((List.range count).map maps).Pairwise fun a b => a.base ≤ b.base

/-- The loop ends, stays in the arrays, and leaves there the entries of the tag. -/
def Parses (mem : ℕ → UInt8) (map : ℕ) : Prop :=
  ∃ n info, piLoopMb2Mapentries mem map n MapInfo.blank = some info ∧
    HasSorted info.entries info.count (available (tagEntries mem map)) ∧
    HasSorted info.entriesReclaimable info.countReclaimable (reclaimable (tagEntries mem map)) ∧
    info.ramUsable = totalLen (available (tagEntries mem map)) ∧
    info.ramMax = totalLen (available (tagEntries mem map)) + totalLen (reclaimable (tagEntries mem map))

/-- The entries have a size, or there is none; they fit into the arrays; the sum of their lengths fits into
64 bits; and an entry that begins in the tag and ends behind it is of neither kind. -/
structure Parseable (mem : ℕ → UInt8) (map : ℕ) : Prop where
  stride : tagSize mem map ≤ 16 ∨ 0 < entrySize mem map
  few : (available (tagEntries mem map)).length ≤ 64
  fewReclaimable : (reclaimable (tagEntries mem map)).length ≤ 8
  sum : totalLen (available (tagEntries mem map)) + totalLen (reclaimable (tagEntries mem map)) < 2 ^ 64
  partly : ∀ i, 16 + i * entrySize mem map < tagSize mem map → tagSize mem map < 40 + i * entrySize mem map →
    (tagEntry mem (map + 16 + i * entrySize mem map)).type ≠ multibootMemoryAvailable ∧
      (tagEntry mem (map + 16 + i * entrySize mem map)).type ≠ multibootMemoryAcpiReclaimable

/-! ### The sort -/

/-- **The sort** keeps the first entries, puts them in the order of their bases, keeps the order of entries
with one base, and leaves the rest of the array. -/
theorem piSortBootMapentries_sorts (maps : ℕ → MapEntry) (upTo : ℕ) :
    ((List.range upTo).map (piSortBootMapentries maps upTo)).Perm ((List.range upTo).map maps) ∧
      ((List.range upTo).map (piSortBootMapentries maps upTo)).Pairwise (fun a b => a.base ≤ b.base) ∧
      (∀ base, ((List.range upTo).map (piSortBootMapentries maps upTo)).filter (fun e => e.base = base) =
        ((List.range upTo).map maps).filter fun e => e.base = base) ∧
      ∀ j, upTo ≤ j → piSortBootMapentries maps upTo j = maps j := by
  obtain ⟨hperm, hsorted, hrest⟩ := Insertion.sort_spec MapEntry.base upTo maps
  exact ⟨hperm, hsorted, Insertion.sort_stable MapEntry.base upTo maps, hrest⟩

/-! ### Entries -/

theorem ofType_append (type : ℕ) (es es' : List TagEntry) :
    ofType type (es ++ es') = ofType type es ++ ofType type es' := by
  rw [ofType, List.filter_append, List.map_append]
  rfl

theorem ofType_singleton_self {type : ℕ} {e : TagEntry} (h : e.type = type) : ofType type [e] = [e.kept] := by
  simp [ofType, h]

theorem ofType_singleton_ne {type : ℕ} {e : TagEntry} (h : e.type ≠ type) : ofType type [e] = [] := by
  simp [ofType, h]

theorem ofType_eq_nil_iff {type : ℕ} {es : List TagEntry} : ofType type es = [] ↔ ∀ e ∈ es, e.type ≠ type := by
  simp [ofType]

theorem totalLen_append (es es' : List MapEntry) : totalLen (es ++ es') = totalLen es + totalLen es' := by
  rw [totalLen, List.map_append, List.sum_append]
  rfl

theorem entriesFrom_succ (mem : ℕ → UInt8) (size p k : ℕ) :
    entriesFrom mem size p (k + 1) = tagEntry mem p :: entriesFrom mem size (p + size) k := by
  rw [entriesFrom, List.range_succ_eq_map, List.map_cons, List.map_map, Nat.zero_mul, Nat.add_zero]
  refine congrArg _ (List.map_congr_left fun i _ => ?_)
  rw [Function.comp_apply, Nat.succ_mul, Nat.add_assoc, Nat.add_comm size]

theorem entriesFrom_add (mem : ℕ → UInt8) (size p k l : ℕ) :
    entriesFrom mem size p (k + l) = entriesFrom mem size p k ++ entriesFrom mem size (p + k * size) l := by
  rw [entriesFrom, List.range_add, List.map_append, List.map_map]
  refine congrArg _ (List.map_congr_left fun i _ => ?_)
  rw [Function.comp_apply, Nat.add_mul, Nat.add_assoc]

/-! ### Filling the arrays -/

/-- The array has the entries in the order in which they came, and they fit. -/
structure Filled (maps : ℕ → MapEntry) (count bound : ℕ) (es : List MapEntry) : Prop where
  length : count = es.length
  maps : (List.range count).map maps = es
  le : count ≤ bound

theorem Filled.push {maps : ℕ → MapEntry} {count bound : ℕ} {es : List MapEntry}
    (h : Filled maps count bound es) (hlt : count < bound) (hbound : bound < 2 ^ 8) (e : MapEntry) :
    Filled (Function.update maps count e) ((count + 1) % 2 ^ 8) bound (es ++ [e]) := by
  rw [Nat.mod_eq_of_lt (Nat.lt_of_le_of_lt hlt hbound)]
  refine ⟨?_, ?_, hlt⟩
  · rw [List.length_append, ← h.length]
    rfl
  · rw [List.range_succ, List.map_append, Insertion.map_range_update _ _ le_rfl, h.maps, List.map_singleton,
      Function.update_self]

theorem Filled.hasSorted {maps : ℕ → MapEntry} {count bound : ℕ} {es : List MapEntry}
    (h : Filled maps count bound es) : HasSorted (piSortBootMapentries maps count) count es := by
  obtain ⟨hperm, hsorted, -⟩ := Insertion.sort_spec MapEntry.base count maps
  rw [h.maps] at hperm
  exact ⟨hperm, hsorted⟩

/-- What the loop has gathered. -/
structure Gathered (info : MapInfo) (es : List TagEntry) : Prop where
  entries : Filled info.entries info.count 64 (available es)
  entriesReclaimable : Filled info.entriesReclaimable info.countReclaimable 8 (reclaimable es)
  ramUsable : info.ramUsable = totalLen (available es) % 2 ^ 64
  ramMax : info.ramMax = (totalLen (available es) + totalLen (reclaimable es)) % 2 ^ 64

theorem gathered_blank : Gathered MapInfo.blank [] :=
  ⟨⟨rfl, rfl, by decide⟩, ⟨rfl, rfl, by decide⟩, rfl, rfl⟩

theorem add_mod_len (s : ℕ) (e : TagEntry) : Word.add (s % 2 ^ 64) e.len = (s + totalLen [e.kept]) % 2 ^ 64 := by
  rw [Word.add, Nat.mod_add_mod]
  rfl

/-- **One turn** gathers the entry. -/
theorem takeEntry_sound {info info' : MapInfo} {es : List TagEntry} {ent : TagEntry} (h : Gathered info es)
    (htake : takeEntry ent info = some info') : Gathered info' (es ++ [ent]) := by
  rw [takeEntry] at htake
  by_cases hrec : ent.type = multibootMemoryAcpiReclaimable
  · rw [if_pos hrec] at htake
    obtain ⟨hlt, hinfo⟩ := Option.ite_none_right_eq_some.1 htake
    have hnot : ent.type ≠ multibootMemoryAvailable := by
      rw [hrec]
      decide
    have havail : available (es ++ [ent]) = available es := by
      rw [available, ofType_append, ofType_singleton_ne hnot, List.append_nil]
      rfl
    have hreclaim : reclaimable (es ++ [ent]) = reclaimable es ++ [ent.kept] := by
      rw [reclaimable, ofType_append, ofType_singleton_self hrec]
      rfl
    rw [← Option.some_inj.1 hinfo]
    refine ⟨?_, ?_, ?_, ?_⟩
    · rw [havail]
      exact h.entries
    · rw [hreclaim]
      exact h.entriesReclaimable.push hlt (by decide) ent.kept
    · rw [havail]
      exact h.ramUsable
    · rw [havail, hreclaim, totalLen_append, ← Nat.add_assoc, ← add_mod_len, ← h.ramMax]
  · rw [if_neg hrec] at htake
    have hreclaim : reclaimable (es ++ [ent]) = reclaimable es := by
      rw [reclaimable, ofType_append, ofType_singleton_ne hrec, List.append_nil]
      rfl
    by_cases hnot : ent.type ≠ multibootMemoryAvailable
    · rw [if_pos hnot] at htake
      have havail : available (es ++ [ent]) = available es := by
        rw [available, ofType_append, ofType_singleton_ne hnot, List.append_nil]
        rfl
      rw [← Option.some_inj.1 htake]
      refine ⟨?_, ?_, ?_, ?_⟩
      · rw [havail]
        exact h.entries
      · rw [hreclaim]
        exact h.entriesReclaimable
      · rw [havail]
        exact h.ramUsable
      · rw [havail, hreclaim]
        exact h.ramMax
    · rw [if_neg hnot] at htake
      obtain ⟨hlt, hinfo⟩ := Option.ite_none_right_eq_some.1 htake
      have havail : available (es ++ [ent]) = available es ++ [ent.kept] := by
        rw [available, ofType_append, ofType_singleton_self (not_not.1 hnot)]
        rfl
      rw [← Option.some_inj.1 hinfo]
      refine ⟨?_, ?_, ?_, ?_⟩
      · rw [havail]
        exact h.entries.push hlt (by decide) ent.kept
      · rw [hreclaim]
        exact h.entriesReclaimable
      · rw [havail, totalLen_append, ← add_mod_len, ← h.ramUsable]
      · rw [havail, hreclaim, totalLen_append, Nat.add_right_comm, ← add_mod_len, ← h.ramMax]

/-- **One turn** has room for its entry. -/
theorem takeEntry_total {info : MapInfo} {es : List TagEntry} {ent : TagEntry} (h : Gathered info es)
    (hfew : (available (es ++ [ent])).length ≤ 64) (hfew' : (reclaimable (es ++ [ent])).length ≤ 8) :
    ∃ info', takeEntry ent info = some info' := by
  rw [available, ofType_append, List.length_append] at hfew
  rw [reclaimable, ofType_append, List.length_append] at hfew'
  by_cases hrec : ent.type = multibootMemoryAcpiReclaimable
  · rw [ofType_singleton_self hrec] at hfew'
    have hlt : info.countReclaimable < 8 := by
      rw [h.entriesReclaimable.length]
      exact hfew'
    exact ⟨_, by rw [takeEntry, if_pos hrec, if_pos hlt]⟩
  · by_cases hnot : ent.type ≠ multibootMemoryAvailable
    · exact ⟨_, by rw [takeEntry, if_neg hrec, if_pos hnot]⟩
    · rw [ofType_singleton_self (not_not.1 hnot)] at hfew
      have hlt : info.count < 64 := by
        rw [h.entries.length]
        exact hfew
      exact ⟨_, by rw [takeEntry, if_neg hrec, if_neg hnot, if_pos hlt]⟩

/-! ### The loop -/

section Loop

variable {mem : ℕ → UInt8} {size end_ : ℕ}

/-- **A loop that ends** has gathered the entries that begin before the end. -/
theorem mapLoop_sound {n p : ℕ} {info info' : MapInfo} {es : List TagEntry} (h : Gathered info es)
    (hloop : mapLoop mem size end_ n p info = some info') :
    ∃ k, (∀ i < k, p + i * size < end_) ∧ end_ ≤ p + k * size ∧
      Gathered info' (es ++ entriesFrom mem size p k) := by
  induction n generalizing p info es with
  | zero => cases hloop
  | succ n ih =>
      rw [mapLoop] at hloop
      by_cases hlt : p < end_
      · rw [if_pos hlt] at hloop
        obtain ⟨info₁, htake, hrest⟩ := Option.bind_eq_some_iff.1 hloop
        obtain ⟨k, hbegin, hend, hgath⟩ := ih (takeEntry_sound h htake) hrest
        refine ⟨k + 1, fun i hi => ?_, ?_, ?_⟩
        · cases i with
          | zero => rwa [Nat.zero_mul, Nat.add_zero]
          | succ i =>
              have := hbegin i (by omega)
              rw [Nat.succ_mul]
              omega
        · rw [Nat.succ_mul]
          omega
        · rw [entriesFrom_succ, List.append_cons]
          exact hgath
      · rw [if_neg hlt, Option.some_inj] at hloop
        refine ⟨0, fun i hi => absurd hi (Nat.not_lt_zero i), by omega, ?_⟩
        rw [entriesFrom, List.range_zero, List.map_nil, List.append_nil, ← hloop]
        exact h

/-- **The loop ends**, when there is a last entry and all of them fit. -/
theorem mapLoop_total {k p : ℕ} {info : MapInfo} {es : List TagEntry} (h : Gathered info es)
    (hbegin : ∀ i < k, p + i * size < end_) (hend : end_ ≤ p + k * size)
    (hfew : (available (es ++ entriesFrom mem size p k)).length ≤ 64)
    (hfew' : (reclaimable (es ++ entriesFrom mem size p k)).length ≤ 8) :
    ∃ info', mapLoop mem size end_ (k + 1) p info = some info' ∧
      Gathered info' (es ++ entriesFrom mem size p k) := by
  induction k generalizing p info es with
  | zero =>
      refine ⟨info, ?_, ?_⟩
      · rw [mapLoop, if_neg (by omega)]
      · rw [entriesFrom, List.range_zero, List.map_nil, List.append_nil]
        exact h
  | succ k ih =>
      have hlt : p < end_ := by
        have := hbegin 0 (Nat.succ_pos k)
        omega
      rw [entriesFrom_succ, List.append_cons] at hfew hfew' ⊢
      obtain ⟨info₁, htake⟩ : ∃ info₁, takeEntry (tagEntry mem p) info = some info₁ := takeEntry_total h
        (by rw [available, ofType_append, List.length_append] at hfew; exact le_trans (Nat.le_add_right _ _) hfew)
        (by rw [reclaimable, ofType_append, List.length_append] at hfew'; exact le_trans (Nat.le_add_right _ _) hfew')
      obtain ⟨info', hrest, hgath⟩ := ih (p := p + size) (takeEntry_sound h htake)
        (fun i hi => by
          have := hbegin (i + 1) (by omega)
          rw [Nat.succ_mul] at this
          omega)
        (by rw [Nat.succ_mul] at hend; omega) hfew hfew'
      refine ⟨info', ?_, hgath⟩
      rw [mapLoop, if_pos hlt, htake]
      exact hrest

end Loop

/-! ### The tag -/

section Tag

variable {mem : ℕ → UInt8} {map k : ℕ}

theorem lt_entryCount (hsize : 0 < entrySize mem map) (i : ℕ) :
    i < entryCount mem map ↔ 40 + i * entrySize mem map ≤ tagSize mem map := by
  rw [entryCount, Nat.lt_iff_add_one_le, Nat.le_div_iff_mul_le hsize, Nat.succ_mul]
  omega

/-- The number of the entries that begin in the tag. -/
theorem exists_begin (h : tagSize mem map ≤ 16 ∨ 0 < entrySize mem map) :
    ∃ k, (∀ i < k, map + 16 + i * entrySize mem map < map + tagSize mem map) ∧
      map + tagSize mem map ≤ map + 16 + k * entrySize mem map := by
  rcases Nat.lt_or_ge 16 (tagSize mem map) with hlt | hle
  · have hsize : 0 < entrySize mem map := h.resolve_left (Nat.not_le.2 hlt)
    refine ⟨(tagSize mem map - 16 + (entrySize mem map - 1)) / entrySize mem map, fun i hi => ?_, ?_⟩
    · rw [Nat.lt_iff_add_one_le, Nat.le_div_iff_mul_le hsize, Nat.succ_mul] at hi
      omega
    · have hlast := Nat.lt_mul_div_succ (tagSize mem map - 16 + (entrySize mem map - 1)) hsize
      rw [Nat.mul_comm, Nat.succ_mul] at hlast
      omega
  · exact ⟨0, fun i hi => absurd hi (Nat.not_lt_zero i), by omega⟩

/-- The entries that begin in the tag are its entries, and those that end behind it. -/
theorem entriesFrom_eq (hbegin : ∀ i < k, map + 16 + i * entrySize mem map < map + tagSize mem map)
    (hend : map + tagSize mem map ≤ map + 16 + k * entrySize mem map) :
    ∃ l, entriesFrom mem (entrySize mem map) (map + 16) k = tagEntries mem map ++ l ∧
      ∀ e, e ∈ l ↔ ∃ i, 16 + i * entrySize mem map < tagSize mem map ∧
        tagSize mem map < 40 + i * entrySize mem map ∧ e = tagEntry mem (map + 16 + i * entrySize mem map) := by
  have hcount : ∀ i, i < entryCount mem map ↔ i < k ∧ 40 + i * entrySize mem map ≤ tagSize mem map := by
    intro i
    rcases Nat.eq_zero_or_pos (entrySize mem map) with hzero | hsize
    · have hk : k = 0 := by
        by_contra hne
        have := hbegin 0 (Nat.pos_of_ne_zero hne)
        rw [hzero, Nat.mul_zero] at this hend
        omega
      rw [entryCount, hzero, Nat.div_zero, hk]
      omega
    · rw [lt_entryCount hsize]
      refine ⟨fun hle => ⟨?_, hle⟩, And.right⟩
      by_contra hge
      have := Nat.mul_le_mul_right (entrySize mem map) (Nat.le_of_not_lt hge)
      omega
  have hle : entryCount mem map ≤ k := by
    by_contra hlt
    exact absurd ((hcount k).1 (Nat.lt_of_not_le hlt)).1 (Nat.lt_irrefl k)
  refine ⟨entriesFrom mem (entrySize mem map) (map + 16 + entryCount mem map * entrySize mem map)
    (k - entryCount mem map), ?_, fun e => ?_⟩
  · rw [tagEntries, ← entriesFrom_add, Nat.add_sub_cancel' hle]
  · rw [entriesFrom, List.mem_map]
    constructor
    · rintro ⟨j, hj, rfl⟩
      have hjk : entryCount mem map + j < k := by
        have := List.mem_range.1 hj
        omega
      have hout := (not_congr (hcount (entryCount mem map + j))).1 (by omega)
      refine ⟨entryCount mem map + j, ?_, ?_, ?_⟩
      · have := hbegin _ hjk
        omega
      · by_contra hin
        exact hout ⟨hjk, Nat.le_of_not_lt hin⟩
      · rw [Nat.add_mul, Nat.add_assoc (map + 16)]
    · rintro ⟨i, hlt, hout, rfl⟩
      have hik : i < k := by
        by_contra hge
        have := Nat.mul_le_mul_right (entrySize mem map) (Nat.le_of_not_lt hge)
        omega
      have hci : entryCount mem map ≤ i := by
        by_contra hlt
        have := ((hcount i).1 (Nat.lt_of_not_le hlt)).2
        omega
      refine ⟨i - entryCount mem map, List.mem_range.2 (by omega), ?_⟩
      rw [Nat.add_assoc (map + 16), ← Nat.add_mul, Nat.add_sub_cancel' hci]

end Tag

/-- **When the map is read as it should be.** -/
theorem parses_iff (mem : ℕ → UInt8) (map : ℕ) : Parses mem map ↔ Parseable mem map := by
  constructor
  · rintro ⟨n, info, hrun, hentries, hreclaim, -, hmax⟩
    obtain ⟨info₀, hloop, hsort⟩ := Option.bind_eq_some_iff.1 hrun
    rw [← Option.some_inj.1 hsort] at hentries hreclaim hmax
    obtain ⟨k, hbegin, hend, hgath⟩ := mapLoop_sound gathered_blank hloop
    obtain ⟨l, hsplit, hmem⟩ := entriesFrom_eq hbegin hend
    rw [List.nil_append, hsplit] at hgath
    -- the arrays have as many entries as the tag, so the last ones are of neither kind
    have hnil : available l = [] := by
      have hlen := (hentries.1.symm.trans hgath.entries.hasSorted.1).length_eq
      rw [available, available, ofType_append, List.length_append] at hlen
      exact List.eq_nil_of_length_eq_zero (by rw [available]; omega)
    have hnil' : reclaimable l = [] := by
      have hlen := (hreclaim.1.symm.trans hgath.entriesReclaimable.hasSorted.1).length_eq
      rw [reclaimable, reclaimable, ofType_append, List.length_append] at hlen
      exact List.eq_nil_of_length_eq_zero (by rw [reclaimable]; omega)
    have havail : available (tagEntries mem map ++ l) = available (tagEntries mem map) := by
      rw [available, ofType_append, ← available, ← available, hnil, List.append_nil]
    have hrec : reclaimable (tagEntries mem map ++ l) = reclaimable (tagEntries mem map) := by
      rw [reclaimable, ofType_append, ← reclaimable, ← reclaimable, hnil', List.append_nil]
    refine ⟨?_, ?_, ?_, ?_, fun i hlt hout => ⟨?_, ?_⟩⟩
    · by_contra hne
      have hzero : entrySize mem map = 0 := by omega
      rw [hzero, Nat.mul_zero] at hend
      omega
    · rw [← havail, ← hgath.entries.length]
      exact hgath.entries.le
    · rw [← hrec, ← hgath.entriesReclaimable.length]
      exact hgath.entriesReclaimable.le
    · have hram := hgath.ramMax
      rw [havail, hrec] at hram
      rw [← hmax]
      exact hram.trans_lt (Nat.mod_lt _ (by decide))
    · exact ofType_eq_nil_iff.1 hnil _ ((hmem _).2 ⟨i, hlt, hout, rfl⟩)
    · exact ofType_eq_nil_iff.1 hnil' _ ((hmem _).2 ⟨i, hlt, hout, rfl⟩)
  · intro h
    obtain ⟨k, hbegin, hend⟩ := exists_begin h.stride
    obtain ⟨l, hsplit, hmem⟩ := entriesFrom_eq hbegin hend
    have hother : ∀ e ∈ l, e.type ≠ multibootMemoryAvailable ∧ e.type ≠ multibootMemoryAcpiReclaimable := by
      intro e he
      obtain ⟨i, hlt, hout, rfl⟩ := (hmem e).1 he
      exact h.partly i hlt hout
    have havail : available (tagEntries mem map ++ l) = available (tagEntries mem map) := by
      rw [available, ofType_append, ofType_eq_nil_iff.2 fun e he => (hother e he).1, List.append_nil]
      rfl
    have hrec : reclaimable (tagEntries mem map ++ l) = reclaimable (tagEntries mem map) := by
      rw [reclaimable, ofType_append, ofType_eq_nil_iff.2 fun e he => (hother e he).2, List.append_nil]
      rfl
    obtain ⟨info, hloop, hgath⟩ := mapLoop_total gathered_blank hbegin hend
      (by rw [hsplit, List.nil_append, havail]; exact h.few)
      (by rw [hsplit, List.nil_append, hrec]; exact h.fewReclaimable)
    rw [List.nil_append, hsplit] at hgath
    refine ⟨k + 1, _, by rw [piLoopMb2Mapentries, hloop]; rfl, ?_, ?_, ?_, ?_⟩
    · exact havail ▸ hgath.entries.hasSorted
    · exact hrec ▸ hgath.entriesReclaimable.hasSorted
    · refine hgath.ramUsable.trans ?_
      rw [havail]
      exact Nat.mod_eq_of_lt (lt_of_le_of_lt (Nat.le_add_right _ _) h.sum)
    · refine hgath.ramMax.trans ?_
      rw [havail, hrec]
      exact Nat.mod_eq_of_lt h.sum

/-- A tag of 40 bytes, with one entry of the size zero. -/
def unsizedTag (a : ℕ) : UInt8 := if a = 4 then 40 else if a = 32 then 2 else 0

/-- **A size of zero**: the loop does not end. -/
theorem parses_unsized : ¬ Parses unsizedTag 0 := by
  rintro ⟨n, info, hrun, -⟩
  obtain ⟨info₀, hloop, -⟩ := Option.bind_eq_some_iff.1 hrun
  obtain ⟨k, -, hend, -⟩ := mapLoop_sound gathered_blank hloop
  have hzero : entrySize unsizedTag 0 = 0 := by decide
  have hsize : tagSize unsizedTag 0 = 40 := by decide
  rw [hzero, hsize, Nat.mul_zero] at hend
  exact absurd hend (by decide)

end Boot

end SyncKernel
