/-
**Searching the tags of the multiboot2 information** (`boot.c`).

`find_mbt` goes from tag to tag by their sizes, rounded up to eight bytes, until it meets a tag of the
type that is asked for, the end tag, or the end of the block.  The rounded size is a `u32`: for a size of
zero, and for the last seven sizes below `2 ^ 32`, it is zero, and the search stays where it is.

The block is in the first 4 GiB, so no pointer wraps around.

Main definitions:

* `Boot.findMbt` — the search, with the addresses of the bytes that it reads;
* `Boot.tag`, `Boot.IsTag` — the tags of a block;
* `Boot.Finds` — the search returns the first tag, and reads nothing behind the block;
* `Boot.Searchable` — the blocks in which it does.

Main results:

* `Boot.findMbt_iff` — **when the search returns the first tag**.
-/

import SyncKernel.Lib.Bytes
import SyncKernel.Lib.Word

set_option relaxedAutoImplicit false
set_option autoImplicit false

namespace SyncKernel

namespace Boot

/-- `MULTIBOOT_TAG_TYPE_END`. -/
def multibootTagTypeEnd : ℕ := 0

/-- `MB2_TAG_ERR`. -/
def mb2TagErr : ℕ := 2 ^ 64 - 1

section Search

variable (mem : ℕ → UInt8)

/-- `tag->type`. -/
def tagType (p : ℕ) : ℕ := Bytes.read mem p 4

/-- `tag->size`. -/
def tagSize (p : ℕ) : ℕ := Bytes.read mem (p + 4) 4

/-- `(tag->size + 7) & ~7`. -/
def tagStep (p : ℕ) : ℕ := Word.add32 (tagSize mem p) 7 &&& Word.not 7

/-- The addresses of a `u32`. -/
def fieldBytes (p : ℕ) : List ℕ := [p, p + 1, p + 2, p + 3]

/-- The loop of `find_mbt`, which may not end: what is returned, and the bytes that are read. -/
def findLoop (type end_ : ℕ) : ℕ → ℕ → Option (ℕ × List ℕ)
  | 0, _ => none
  | n + 1, p =>
      if p < end_ then
        if tagType mem p = type then some (p, fieldBytes p)
        else if tagType mem p = multibootTagTypeEnd then some (mb2TagErr, fieldBytes p)
        else do
          let (r, as) ← findLoop type end_ n (p + tagStep mem p)
          some (r, fieldBytes p ++ fieldBytes (p + 4) ++ as)
      else some (mb2TagErr, [])

/-- The end of the block. -/
def blockEnd (mbh : ℕ) : ℕ := mbh + Bytes.read mem mbh 4

/-- `find_mbt`, with a bound for the turns of its loop. -/
def findMbt (mbh type n : ℕ) : Option (ℕ × List ℕ) := do
  let (r, as) ← findLoop mem type (blockEnd mem mbh) n (mbh + 8)
  some (r, fieldBytes mbh ++ as)

/-! ### Tags -/

/-- The tag of the given number. -/
def tag (mbh : ℕ) : ℕ → ℕ
  | 0 => mbh + 8
  | i + 1 => tag mbh i + (tagSize mem (tag mbh i) + 7) / 8 * 8

/-- The tags of the block: they begin in it, and none of them but the last one is the end tag. -/
def IsTag (mbh i : ℕ) : Prop :=
  (∀ j ≤ i, tag mem mbh j < blockEnd mem mbh) ∧ ∀ j < i, tagType mem (tag mem mbh j) ≠ multibootTagTypeEnd

/-- The first tag of the type, or the error pointer. -/
def IsFirst (mbh type r : ℕ) : Prop :=
  (∃ i, IsTag mem mbh i ∧ tagType mem (tag mem mbh i) = type ∧
    (∀ j < i, tagType mem (tag mem mbh j) ≠ type) ∧ r = tag mem mbh i) ∨
  (r = mb2TagErr ∧ ∀ i, IsTag mem mbh i → tagType mem (tag mem mbh i) ≠ type)

/-- The search ends with the first tag, and reads no byte behind the block. -/
def Finds (mbh type : ℕ) : Prop :=
  ∃ n r as, findMbt mem mbh type n = some (r, as) ∧ (∀ a ∈ as, a < blockEnd mem mbh) ∧
    IsFirst mem mbh type r

/-- The search gets to the tag of the given number. -/
def Reached (mbh type i : ℕ) : Prop :=
  IsTag mem mbh i ∧ ∀ j < i, tagType mem (tag mem mbh j) ≠ type

/-- The fields that are looked at are in the block, and the sizes are neither zero nor among the last
ones below `2 ^ 32`. -/
def Searchable (mbh type : ℕ) : Prop :=
  4 ≤ Bytes.read mem mbh 4 ∧ ∀ i, Reached mem mbh type i → tag mem mbh i + 4 ≤ blockEnd mem mbh ∧
    (tagType mem (tag mem mbh i) ≠ type → tagType mem (tag mem mbh i) ≠ multibootTagTypeEnd →
      tag mem mbh i + 8 ≤ blockEnd mem mbh ∧ 0 < tagSize mem (tag mem mbh i) ∧
        tagSize mem (tag mem mbh i) + 7 < 2 ^ 32)

end Search

section Proofs

variable {mem : ℕ → UInt8} {mbh type i p : ℕ}

theorem tagSize_lt (mem : ℕ → UInt8) (p : ℕ) : tagSize mem p < 2 ^ 32 := Bytes.read_lt mem (p + 4) 4

theorem tagStep_eq_div (mem : ℕ → UInt8) (p : ℕ) :
    tagStep mem p = Word.add32 (tagSize mem p) 7 / 8 * 8 :=
  Word.and_not_mask (k := 3) (lt_trans (Nat.mod_lt _ (by decide)) (by decide)) (by decide)

/-- The step, where the sum does not wrap around. -/
theorem tagStep_eq (h : tagSize mem p + 7 < 2 ^ 32) : tagStep mem p = (tagSize mem p + 7) / 8 * 8 := by
  rw [tagStep_eq_div, Word.add32_of_lt h]

/-- The sizes that keep the search where it is. -/
theorem tagStep_zero (h : ¬ (0 < tagSize mem p ∧ tagSize mem p + 7 < 2 ^ 32)) : tagStep mem p = 0 := by
  have hlt := tagSize_lt mem p
  rw [tagStep_eq_div, Word.add32]
  omega

/-- A search that stays where it is does not return. -/
theorem findLoop_stuck {end_ : ℕ} (hp : p < end_) (htype : tagType mem p ≠ type)
    (hend : tagType mem p ≠ multibootTagTypeEnd) (hstep : tagStep mem p = 0) (n : ℕ) :
    findLoop mem type end_ n p = none := by
  induction n with
  | zero => rfl
  | succ n ih =>
      rw [findLoop, if_pos hp, if_neg htype, if_neg hend, hstep, Nat.add_zero, ih]
      rfl

theorem Reached.next (h : Reached mem mbh type i) (htype : tagType mem (tag mem mbh i) ≠ type)
    (hend : tagType mem (tag mem mbh i) ≠ multibootTagTypeEnd)
    (hlt : tag mem mbh (i + 1) < blockEnd mem mbh) : Reached mem mbh type (i + 1) := by
  obtain ⟨⟨hbegin, hopen⟩, hother⟩ := h
  refine ⟨⟨fun j hj => ?_, fun j hj => ?_⟩, fun j hj => ?_⟩
  · rcases Nat.le_succ_iff.1 hj with hj | rfl
    · exact hbegin j hj
    · exact hlt
  · rcases Nat.lt_succ_iff_lt_or_eq.1 hj with hj | rfl
    · exact hopen j hj
    · exact hend
  · rcases Nat.lt_succ_iff_lt_or_eq.1 hj with hj | rfl
    · exact hother j hj
    · exact htype

/-- The tags up to the given one are all there are, when the block ends there. -/
theorem IsTag.le_of_end {k : ℕ} (hk : IsTag mem mbh k) (hend : blockEnd mem mbh ≤ tag mem mbh i) : k < i := by
  by_contra hle
  exact absurd (hk.1 i (Nat.le_of_not_lt hle)) (Nat.not_lt.2 hend)

/-- **A searchable block**: from a tag on, the search finds the first one. -/
theorem findLoop_spec (h : Searchable mem mbh type) (i : ℕ)
    (hbefore : ∀ j < i, tagType mem (tag mem mbh j) ≠ type)
    (hreach : tag mem mbh i < blockEnd mem mbh → Reached mem mbh type i) :
    ∃ n r as, findLoop mem type (blockEnd mem mbh) n (tag mem mbh i) = some (r, as) ∧
      (∀ a ∈ as, a < blockEnd mem mbh) ∧ IsFirst mem mbh type r := by
  by_cases hlt : tag mem mbh i < blockEnd mem mbh
  · have hi := hreach hlt
    obtain ⟨hfour, hfields⟩ := h.2 i hi
    have hbytes : ∀ a ∈ fieldBytes (tag mem mbh i), a < blockEnd mem mbh := by
      intro a ha
      simp only [fieldBytes, List.mem_cons, List.not_mem_nil, or_false] at ha
      omega
    by_cases htype : tagType mem (tag mem mbh i) = type
    · refine ⟨1, _, _, by rw [findLoop, if_pos hlt, if_pos htype], hbytes, Or.inl ⟨i, hi.1, htype, hi.2, rfl⟩⟩
    by_cases hend : tagType mem (tag mem mbh i) = multibootTagTypeEnd
    · refine ⟨1, _, _, by rw [findLoop, if_pos hlt, if_neg htype, if_pos hend], hbytes,
        Or.inr ⟨rfl, fun k hk => ?_⟩⟩
      -- no tag comes behind the end tag
      rcases Nat.lt_trichotomy k i with hlt' | rfl | hlt'
      · exact hbefore k hlt'
      · exact htype
      · exact absurd hend (hk.2 i hlt')
    · obtain ⟨height, hsize, hwrap⟩ := hfields htype hend
      have hnext : tag mem mbh i + tagStep mem (tag mem mbh i) = tag mem mbh (i + 1) := by
        rw [tag, tagStep_eq hwrap]
      have hprogress : tag mem mbh i < tag mem mbh (i + 1) := by
        rw [tag]
        omega
      obtain ⟨n, r, as, hn, has, hfirst⟩ := findLoop_spec h (i + 1)
        (fun j hj => by
          rcases Nat.lt_succ_iff_lt_or_eq.1 hj with hj | rfl
          · exact hbefore j hj
          · exact htype)
        (hi.next htype hend)
      refine ⟨n + 1, r, _, by rw [findLoop, if_pos hlt, if_neg htype, if_neg hend, hnext, hn]; rfl, ?_, hfirst⟩
      intro a ha
      rcases List.mem_append.1 ha with ha | ha
      · rcases List.mem_append.1 ha with ha | ha
        · exact hbytes a ha
        · simp only [fieldBytes, List.mem_cons, List.not_mem_nil, or_false] at ha
          omega
      · exact has a ha
  · refine ⟨1, _, _, by rw [findLoop, if_neg hlt], by simp, Or.inr ⟨rfl, fun k hk => ?_⟩⟩
    exact hbefore k (hk.le_of_end (Nat.le_of_not_lt hlt))
termination_by blockEnd mem mbh - tag mem mbh i

/-- **A search that returns** has found nothing but fields in the block and sizes that lead on. -/
theorem findLoop_sound {n r : ℕ} {as : List ℕ} {i : ℕ}
    (hrun : findLoop mem type (blockEnd mem mbh) n (tag mem mbh i) = some (r, as))
    (has : ∀ a ∈ as, a < blockEnd mem mbh) {k : ℕ} (hik : i ≤ k) (hk : Reached mem mbh type k) :
    tag mem mbh k + 4 ≤ blockEnd mem mbh ∧
      (tagType mem (tag mem mbh k) ≠ type → tagType mem (tag mem mbh k) ≠ multibootTagTypeEnd →
        tag mem mbh k + 8 ≤ blockEnd mem mbh ∧ 0 < tagSize mem (tag mem mbh k) ∧
          tagSize mem (tag mem mbh k) + 7 < 2 ^ 32) := by
  induction n generalizing i as with
  | zero => cases hrun
  | succ n ih =>
      have hlt := hk.1.1 i hik
      rw [findLoop, if_pos hlt] at hrun
      have hstop : tagType mem (tag mem mbh i) = type ∨
          tagType mem (tag mem mbh i) = multibootTagTypeEnd → k = i := by
        intro hstop
        by_contra hne
        have hlt' : i < k := by omega
        exact hstop.elim (hk.2 i hlt') (hk.1.2 i hlt')
      by_cases htype : tagType mem (tag mem mbh i) = type
      · obtain rfl := hstop (Or.inl htype)
        rw [if_pos htype, Option.some_inj] at hrun
        obtain ⟨-, rfl⟩ := Prod.mk.inj hrun
        have hlast := has (tag mem mbh k + 3) (by simp [fieldBytes])
        exact ⟨by omega, fun hne => absurd htype hne⟩
      rw [if_neg htype] at hrun
      by_cases hend : tagType mem (tag mem mbh i) = multibootTagTypeEnd
      · obtain rfl := hstop (Or.inr hend)
        rw [if_pos hend, Option.some_inj] at hrun
        obtain ⟨-, rfl⟩ := Prod.mk.inj hrun
        have hlast := has (tag mem mbh k + 3) (by simp [fieldBytes])
        exact ⟨by omega, fun _ hne => absurd hend hne⟩
      rw [if_neg hend] at hrun
      obtain ⟨⟨r', as'⟩, hrest, hrun⟩ := Option.bind_eq_some_iff.1 hrun
      obtain ⟨rfl, rfl⟩ := Prod.mk.inj (Option.some_inj.1 hrun)
      have hsize : 0 < tagSize mem (tag mem mbh i) ∧ tagSize mem (tag mem mbh i) + 7 < 2 ^ 32 := by
        by_contra hstuck
        rw [tagStep_zero hstuck, Nat.add_zero, findLoop_stuck hlt htype hend (tagStep_zero hstuck)] at hrest
        cases hrest
      have hlast := has (tag mem mbh i + 4 + 3) (by simp [fieldBytes])
      rcases Nat.eq_or_lt_of_le hik with rfl | hlt'
      · exact ⟨by omega, fun _ _ => ⟨by omega, hsize⟩⟩
      · refine ih (i := i + 1) ?_ (fun a ha => has a (List.mem_append_right _ ha)) hlt'
        rw [tagStep_eq hsize.2] at hrest
        exact hrest

end Proofs

/-- **When the search returns the first tag.** -/
theorem findMbt_iff (mem : ℕ → UInt8) (mbh type : ℕ) : Finds mem mbh type ↔ Searchable mem mbh type := by
  constructor
  · rintro ⟨n, r, as, hrun, has, -⟩
    obtain ⟨⟨r', as'⟩, hloop, hrun⟩ := Option.bind_eq_some_iff.1 hrun
    obtain ⟨rfl, rfl⟩ := Prod.mk.inj (Option.some_inj.1 hrun)
    have hlast := has (mbh + 3) (by simp [fieldBytes])
    rw [blockEnd] at hlast
    exact ⟨by omega, fun k hk => findLoop_sound (i := 0) hloop
      (fun a ha => has a (List.mem_append_right _ ha)) (Nat.zero_le k) hk⟩
  · intro h
    obtain ⟨n, r, as, hn, has, hfirst⟩ := findLoop_spec h 0 (fun j hj => absurd hj (Nat.not_lt_zero j))
      fun hlt => ⟨⟨fun j hj => by rwa [Nat.le_zero.1 hj], fun j hj => absurd hj (Nat.not_lt_zero j)⟩,
        fun j hj => absurd hj (Nat.not_lt_zero j)⟩
    refine ⟨n, r, fieldBytes mbh ++ as, ?_, fun a ha => ?_, hfirst⟩
    · have hloop : findLoop mem type (blockEnd mem mbh) n (mbh + 8) = some (r, as) := hn
      rw [findMbt, hloop]
      rfl
    · rcases List.mem_append.1 ha with ha | ha
      · have hfour := h.1
        simp only [fieldBytes, List.mem_cons, List.not_mem_nil, or_false] at ha
        rw [blockEnd]
        omega
      · exact has a ha

/-- A block of 32 bytes, whose first tag has the type 6 and no size. -/
def emptyTag (a : ℕ) : UInt8 := if a = 0 then 32 else if a = 8 then 6 else 0

/-- **The search for another type** stays at a tag without a size. -/
theorem findMbt_stuck : ¬ Finds emptyTag 0 8 := by
  rintro ⟨n, r, as, hrun, -⟩
  obtain ⟨x, hloop, -⟩ := Option.bind_eq_some_iff.1 hrun
  rw [findLoop_stuck (by decide) (by decide) (by decide) (by decide)] at hloop
  cases hloop

end Boot

end SyncKernel
