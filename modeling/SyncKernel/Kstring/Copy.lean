/-
**Copying strings** (`kstring.c`).

The six copying functions are built on one another: `strcpy` and `strcat` on `stpcpy`, `strncat` on `memcpy`
and `stpcpy`, `strncpy` on `stpncpy`, and these on `mempcpy` and `memset`.  They take what `mempcpy` and
`memcpy` return for the end of the copy, but both return its start: `stpcpy` writes its NUL over the first
byte, and `stpncpy` its zeros over the first bytes.

Main definitions:

* `Kstring.strlen`, `Kstring.strnlen`, `Kstring.stpcpy` and the others — the functions;
* `Kstring.IsString` — the string that a memory holds at an address;
* `Kstring.Room` — a buffer and a string apart from it.

Main results:

* `Kstring.IsString.eq` — there is one string at an address;
* `Kstring.stpcpy_spec`, `Kstring.stpncpy_spec` — what the functions leave in memory;
* `Kstring.copies_iff` — **when a copy is right**.
-/

import SyncKernel.Kstring.Memory

set_option relaxedAutoImplicit false
set_option autoImplicit false

namespace SyncKernel

namespace Kstring

/-- The loop of `strlen`. -/
def strlenLoop (mem : ℕ → UInt8) : ℕ → ℕ → ℕ → Option ℕ
  | 0, _, _ => none
  | n + 1, str, len =>
      if mem str ≠ 0 then strlenLoop mem n (Word.add str 1) (Word.add len 1) else some len

/-- `strlen`.  There are no more than `2 ^ 64` bytes, so a loop with more turns does not end. -/
def strlen (mem : ℕ → UInt8) (str : ℕ) : Option ℕ := strlenLoop mem (2 ^ 64) str 0

/-- The loop of `strnlen`. -/
def strnlenLoop (mem : ℕ → UInt8) (str : ℕ) : ℕ → ℕ → ℕ
  | 0, i => i
  | n + 1, i => if mem (Word.add str i) ≠ 0 then strnlenLoop mem str n (i + 1) else i

/-- `strnlen`. -/
def strnlen (mem : ℕ → UInt8) (str maxlen : ℕ) : ℕ := strnlenLoop mem str maxlen 0

/-- `stpcpy`. -/
def stpcpy (s : Cpu) (dest src : ℕ) : Option (ℕ × Cpu) := do
  let n ← strlen s.mem src
  let r := mempcpy s dest src n
  some (r.1, r.2.store r.1 0)

/-- `strcpy`. -/
def strcpy (s : Cpu) (dest src : ℕ) : Option (ℕ × Cpu) := do
  let r ← stpcpy s dest src
  some (dest, r.2)

/-- `strcat`. -/
def strcat (s : Cpu) (dest src : ℕ) : Option (ℕ × Cpu) := do
  let n ← strlen s.mem dest
  let r ← stpcpy s (Word.add dest n) src
  some (dest, r.2)

/-- `strncat`, with the address of its literal `""`. -/
def strncat (lit : ℕ) (s : Cpu) (dst src ssize : ℕ) : Option (ℕ × Cpu) := do
  let n ← strlen s.mem dst
  let r := memcpy s (Word.add dst n) src (strnlen s.mem src ssize)
  let r ← stpcpy r.2 r.1 lit
  some (dst, r.2)

/-- `stpncpy`. -/
def stpncpy (s : Cpu) (dest src dsize : ℕ) : ℕ × Cpu :=
  let len := strnlen s.mem src dsize
  let r := mempcpy s dest src len
  memset r.2 r.1 0 (Word.sub dsize len)

/-- `strncpy`. -/
def strncpy (s : Cpu) (dest src dsize : ℕ) : ℕ × Cpu := (dest, (stpncpy s dest src dsize).2)

/-! ### Strings -/

/-- The memory has the bytes `t` at `p`, and a NUL behind them. -/
structure IsString (mem : ℕ → UInt8) (p : ℕ) (t : List UInt8) : Prop where
  bytes : Bytes.slice mem p t.length = t
  noNul : 0 ∉ t
  nul : mem (p + t.length) = 0
  fits : p + t.length < 2 ^ 64

namespace IsString

variable {mem mem' : ℕ → UInt8} {p : ℕ} {t u : List UInt8}

theorem ne_nul (h : IsString mem p t) {i : ℕ} (hi : i < t.length) : mem (p + i) ≠ 0 := by
  intro hnul
  apply h.noNul
  rw [← h.bytes]
  exact Bytes.mem_slice.2 ⟨i, hi, hnul⟩

theorem slice_min (h : IsString mem p t) (n : ℕ) : Bytes.slice mem p (min n t.length) = t.take n := by
  rw [← Bytes.slice_take mem p (Nat.min_le_right n t.length), h.bytes, ← List.take_eq_take_min]

theorem empty (hp : mem p = 0) (hfits : p < 2 ^ 64) : IsString mem p [] :=
  ⟨rfl, by simp, hp, hfits⟩

/-- A string stays while its bytes and its NUL do. -/
theorem congr (h : IsString mem p t) (heq : ∀ i < t.length, mem' (p + i) = mem (p + i))
    (hnul : mem' (p + t.length) = 0) : IsString mem' p t := by
  refine ⟨?_, h.noNul, hnul, h.fits⟩
  rw [Bytes.slice_congr heq, h.bytes]

theorem strlenLoop_eq (h : IsString mem p t) {i n : ℕ} (hi : i ≤ t.length) (hn : t.length < i + n) :
    strlenLoop mem n (p + i) i = some t.length := by
  have hfits := h.fits
  induction n generalizing i with
  | zero => omega
  | succ n ih =>
      rw [strlenLoop]
      by_cases hlt : i < t.length
      · rw [if_pos (h.ne_nul hlt), Word.add_of_lt (by omega), Word.add_of_lt (by omega), Nat.add_assoc]
        exact ih hlt (by omega)
      · have hlast : i = t.length := by omega
        rw [hlast, if_neg (not_not.2 h.nul)]

/-- **The length** of a string. -/
theorem strlen_eq (h : IsString mem p t) : strlen mem p = some t.length := by
  have hfits := h.fits
  exact h.strlenLoop_eq (Nat.zero_le _) (by omega)

theorem strnlenLoop_eq (h : IsString mem p t) {i n : ℕ} (hi : i ≤ t.length) :
    strnlenLoop mem p n i = min (i + n) t.length := by
  have hfits := h.fits
  induction n generalizing i with
  | zero => rw [strnlenLoop, Nat.add_zero, Nat.min_eq_left hi]
  | succ n ih =>
      rw [strnlenLoop, Word.add_of_lt (by omega)]
      by_cases hlt : i < t.length
      · rw [if_pos (h.ne_nul hlt), ih hlt]
        congr 1
        omega
      · have hlast : i = t.length := by omega
        rw [hlast, if_neg (not_not.2 h.nul), Nat.min_eq_right (Nat.le_add_right _ _)]

theorem strnlen_eq (h : IsString mem p t) (n : ℕ) : strnlen mem p n = min n t.length := by
  rw [strnlen, h.strnlenLoop_eq (Nat.zero_le _), Nat.zero_add]

/-- **There is one string** at an address. -/
theorem eq (h : IsString mem p t) (h' : IsString mem p u) : t = u := by
  have hlen : t.length = u.length := Option.some.inj (h.strlen_eq.symm.trans h'.strlen_eq)
  rw [← h.bytes, ← h'.bytes, hlen]

/-- What stands behind a string that ends where it ended before is empty. -/
theorem append_iff (h : IsString mem p t) : IsString mem p (t ++ u) ↔ u = [] := by
  constructor
  · intro h'
    exact List.append_right_eq_self.1 (h'.eq h)
  · rintro rfl
    rwa [List.append_nil]

end IsString

/-! ### What the functions leave in memory -/

/-- A buffer, and a string that is apart from it. -/
structure Room (d size src : ℕ) (t : List UInt8) : Prop where
  fits : d + size ≤ 2 ^ 64
  apart : d + size ≤ src ∨ src + t.length + 1 ≤ d

variable {s : Cpu} {d src lit n size : ℕ} {t u : List UInt8}

/-- **The NUL stands at the start** of the copy. -/
theorem stpcpy_spec (hdf : s.df = false) (ht : IsString s.mem src t) (hroom : Room d (t.length + 1) src t) :
    stpcpy s d src = some (d, ⟨Function.update (Bytes.copy s.mem d src t.length) d 0, false⟩) := by
  have hfits := ht.fits
  obtain ⟨hend, hapart⟩ := hroom
  simp only [stpcpy, ht.strlen_eq, Option.bind_eq_bind, Option.bind_some]
  rw [mempcpy_spec hdf (by omega) (by omega) (by omega), hdf]
  rfl

/-- The byte where the copy begins is NUL, and nothing before it changes. -/
theorem stpcpy_start (hdf : s.df = false) (ht : IsString s.mem src t) (hroom : Room d (t.length + 1) src t) :
    ∃ r, stpcpy s d src = some r ∧ r.1 = d ∧ IsString r.2.mem d [] ∧
      ∀ b < d, r.2.mem b = s.mem b := by
  refine ⟨_, stpcpy_spec hdf ht hroom, rfl, ?_, ?_⟩
  · exact IsString.empty (Function.update_self _ _ _) (by have := hroom.fits; omega)
  · intro b hb
    simp only
    rw [Function.update_of_ne (by omega), Bytes.copy_of_notMem (Or.inl hb)]

/-- **The zeros stand at the start** of the copy. -/
theorem stpncpy_spec (hdf : s.df = false) (ht : IsString s.mem src t) (hroom : Room d n src t)
    (hn : n < 2 ^ 64) :
    stpncpy s d src n = (d, ⟨Bytes.fill (Bytes.copy s.mem d src (min n t.length)) d (n - t.length) 0,
      false⟩) := by
  have hfits := ht.fits
  obtain ⟨hend, hapart⟩ := hroom
  have hcount : Word.sub n (min n t.length) = n - t.length := by
    rw [Word.sub_of_le (Nat.min_le_left _ _) hn]
    omega
  simp only [stpncpy, ht.strnlen_eq, hcount]
  rw [mempcpy_spec hdf (by omega) (by omega) (by omega), memset_spec (by simp only; omega)]
  rfl

/-! ### When a copy is right -/

/-- `strcpy` copies the string. -/
def StrcpyRight (s : Cpu) (d src : ℕ) (t : List UInt8) : Prop :=
  ∃ r, strcpy s d src = some r ∧ IsString r.2.mem d t

/-- `stpcpy` returns a pointer to the NUL at the end of the copy. -/
def StpcpyRight (s : Cpu) (d src : ℕ) (t : List UInt8) : Prop :=
  ∃ r, stpcpy s d src = some r ∧ r.1 = d + t.length ∧ r.2.mem r.1 = 0

/-- `strcat` puts one string behind the other. -/
def StrcatRight (s : Cpu) (d src : ℕ) (u t : List UInt8) : Prop :=
  ∃ r, strcat s d src = some r ∧ IsString r.2.mem d (u ++ t)

/-- `strncat` puts the first bytes of one string behind the other. -/
def StrncatRight (lit : ℕ) (s : Cpu) (d src n : ℕ) (u t : List UInt8) : Prop :=
  ∃ r, strncat lit s d src n = some r ∧ IsString r.2.mem d (u ++ t.take n)

/-- `strncpy` copies the first bytes of the string and fills the rest with zeros. -/
def StrncpyRight (s : Cpu) (d src n : ℕ) (t : List UInt8) : Prop :=
  Bytes.slice (strncpy s d src n).2.mem d n = t.take n ++ List.replicate (n - t.length) 0

theorem strcpyRight_iff (hdf : s.df = false) (ht : IsString s.mem src t)
    (hroom : Room d (t.length + 1) src t) : StrcpyRight s d src t ↔ t = [] := by
  obtain ⟨r, hr, -, hempty, -⟩ := stpcpy_start hdf ht hroom
  have hcopy : strcpy s d src = some (d, r.2) := by rw [strcpy, hr]; rfl
  constructor
  · rintro ⟨r', hr', hstring⟩
    rw [hcopy, Option.some.injEq] at hr'
    rw [← hr'] at hstring
    exact hstring.eq hempty
  · rintro rfl
    exact ⟨_, hcopy, hempty⟩

theorem stpcpyRight_iff (hdf : s.df = false) (ht : IsString s.mem src t)
    (hroom : Room d (t.length + 1) src t) : StpcpyRight s d src t ↔ t = [] := by
  obtain ⟨r, hr, hptr, hempty, -⟩ := stpcpy_start hdf ht hroom
  constructor
  · rintro ⟨r', hr', hptr', -⟩
    rw [hr, Option.some.injEq] at hr'
    rw [← hr', hptr] at hptr'
    exact List.eq_nil_of_length_eq_zero (by omega)
  · rintro rfl
    exact ⟨r, hr, hptr, by rw [hptr]; exact hempty.nul⟩

theorem strcatRight_iff (hdf : s.df = false) (ht : IsString s.mem src t) (hu : IsString s.mem d u)
    (hroom : Room d (u.length + t.length + 1) src t) : StrcatRight s d src u t ↔ t = [] := by
  have hfits := hu.fits
  obtain ⟨hend, hapart⟩ := hroom
  obtain ⟨r, hr, -, hempty, hkept⟩ := stpcpy_start (d := d + u.length) hdf ht ⟨by omega, by omega⟩
  have hcat : strcat s d src = some (d, r.2) := by
    simp only [strcat, hu.strlen_eq, Option.bind_eq_bind, Option.bind_some, Word.add_of_lt hfits, hr]
  have hsame : IsString r.2.mem d u := hu.congr (fun i hi => hkept (d + i) (by omega)) hempty.nul
  rw [← hsame.append_iff]
  constructor
  · rintro ⟨r', hr', hstring⟩
    rw [hcat, Option.some.injEq] at hr'
    rwa [← hr'] at hstring
  · intro hstring
    exact ⟨_, hcat, hstring⟩

theorem strncatRight_iff (ht : IsString s.mem src t) (hu : IsString s.mem d u)
    (hroom : Room d (u.length + min n t.length + 1) src t) (hlit : IsString s.mem lit [])
    (hout : lit < d ∨ d + (u.length + min n t.length + 1) ≤ lit) :
    StrncatRight lit s d src n u t ↔ n = 0 ∨ t = [] := by
  have hfits := hu.fits
  have hfits' := ht.fits
  obtain ⟨hend, hapart⟩ := hroom
  let mem := Bytes.copy s.mem (d + u.length) src (min n t.length)
  have hlit' : IsString mem lit [] :=
    IsString.empty ((Bytes.copy_of_notMem (by omega)).trans hlit.nul) hlit.fits
  obtain ⟨r, hr, -, hempty, hkept⟩ := stpcpy_start (s := ⟨mem, false⟩) (d := d + u.length) rfl hlit'
    ⟨by rw [List.length_nil]; omega, by rw [List.length_nil]; omega⟩
  have hcat : strncat lit s d src n = some (d, r.2) := by
    simp only [strncat, hu.strlen_eq, ht.strnlen_eq, Option.bind_eq_bind, Option.bind_some,
      Word.add_of_lt hfits]
    rw [memcpy_spec (by omega) (by omega) (by omega), hr]
    rfl
  have hsame : IsString r.2.mem d u := by
    refine hu.congr (fun i hi => ?_) hempty.nul
    rw [hkept (d + i) (by omega)]
    exact Bytes.copy_of_notMem (by omega)
  rw [← List.take_eq_nil_iff, ← hsame.append_iff]
  constructor
  · rintro ⟨r', hr', hstring⟩
    rw [hcat, Option.some.injEq] at hr'
    rwa [← hr'] at hstring
  · intro hstring
    exact ⟨_, hcat, hstring⟩

theorem strncpyRight_iff (hdf : s.df = false) (ht : IsString s.mem src t) (hroom : Room d n src t)
    (hn : n < 2 ^ 64) : StrncpyRight s d src n t ↔ t = [] ∨ n ≤ t.length := by
  have hmem : (strncpy s d src n).2.mem =
      Bytes.fill (Bytes.copy s.mem d src (min n t.length)) d (n - t.length) 0 := by
    rw [strncpy, stpncpy_spec hdf ht hroom hn]
  rw [StrncpyRight, hmem]
  constructor
  · intro hright
    by_contra hno
    obtain ⟨hne, hlt⟩ := not_or.1 hno
    have hlong : ¬ n ≤ t.length := hlt
    obtain ⟨x, t', rfl⟩ := List.exists_cons_of_ne_nil hne
    obtain ⟨k, rfl⟩ : ∃ k, n = k + 1 := ⟨n - 1, by omega⟩
    rw [Bytes.slice_succ, Bytes.fill_of_mem le_rfl (by omega), List.take_succ_cons, List.cons_append] at hright
    exact ht.noNul (List.mem_cons.2 (Or.inl (List.cons.inj hright).1))
  · rintro (rfl | hle)
    · rw [List.length_nil, Nat.min_zero, Nat.sub_zero, Bytes.slice_fill, List.take_nil, List.nil_append]
    · rw [Nat.sub_eq_zero_of_le hle, Bytes.fill_zero, Nat.min_eq_left hle, Bytes.slice_copy,
        List.replicate_zero, List.append_nil, ← ht.slice_min, Nat.min_eq_left hle]

/-- **When a copy is right**: when there is nothing to copy, or, for `strncpy`, nothing to fill. -/
theorem copies_iff (hdf : s.df = false) (ht : IsString s.mem src t) (hn : n < 2 ^ 64) :
    (Room d (t.length + 1) src t → (StrcpyRight s d src t ↔ t = [])) ∧
      (IsString s.mem d u → Room d (u.length + t.length + 1) src t → (StrcatRight s d src u t ↔ t = [])) ∧
      (IsString s.mem d u → Room d (u.length + min n t.length + 1) src t → IsString s.mem lit [] →
        (lit < d ∨ d + (u.length + min n t.length + 1) ≤ lit) →
        (StrncatRight lit s d src n u t ↔ n = 0 ∨ t = [])) ∧
      (Room d n src t → (StrncpyRight s d src n t ↔ t = [] ∨ n ≤ t.length)) ∧
      (Room d (t.length + 1) src t → (StpcpyRight s d src t ↔ t = [])) := by
  refine ⟨strcpyRight_iff hdf ht, strcatRight_iff hdf ht, strncatRight_iff ht, ?_, stpcpyRight_iff hdf ht⟩
  intro hroom
  exact strncpyRight_iff hdf ht hroom hn

/-- A memory with `"ab"` at 16, `"c"` at 64, and zeros elsewhere. -/
def letters : Cpu where
  mem a := if a = 16 then 97 else if a = 17 then 98 else if a = 64 then 99 else 0
  df := false

theorem letters_src : IsString letters.mem 16 [97, 98] := ⟨rfl, by decide, rfl, by decide⟩

theorem letters_dst : IsString letters.mem 64 [99] := ⟨rfl, by decide, rfl, by decide⟩

/-- `"ab"` goes to 64, or behind the `"c"` there. -/
theorem copies_iff_letters :
    (StrcpyRight letters 64 16 [97, 98] ↔ [97, 98] = ([] : List UInt8)) ∧
      (StrcatRight letters 64 16 [99] [97, 98] ↔ [97, 98] = ([] : List UInt8)) ∧
      (StrncatRight 128 letters 64 16 1 [99] [97, 98] ↔ 1 = 0 ∨ [97, 98] = ([] : List UInt8)) ∧
      (StrncpyRight letters 64 16 1 [97, 98] ↔ [97, 98] = ([] : List UInt8) ∨ 1 ≤ 2) ∧
      (StpcpyRight letters 64 16 [97, 98] ↔ [97, 98] = ([] : List UInt8)) := by
  obtain ⟨hcpy, hcat, hncat, hncpy, hstp⟩ :=
    @copies_iff letters 64 16 128 1 [97, 98] [99] rfl letters_src (by decide)
  exact ⟨hcpy ⟨by decide, by decide⟩, hcat letters_dst ⟨by decide, by decide⟩,
    hncat letters_dst ⟨by decide, by decide⟩ ⟨rfl, by decide, rfl, by decide⟩ (by decide),
    hncpy ⟨by decide, by decide⟩, hstp ⟨by decide, by decide⟩⟩

/-- `strcpy` of `"ab"` leaves a string that is empty. -/
theorem strcpy_letters : letters.df = false ∧ IsString letters.mem 16 [97, 98] ∧ Room 64 3 16 [97, 98] ∧
    ¬ StrcpyRight letters 64 16 [97, 98] := by
  refine ⟨rfl, letters_src, ⟨by decide, by decide⟩, ?_⟩
  rw [strcpyRight_iff rfl letters_src ⟨by decide, by decide⟩]
  exact List.cons_ne_nil _ _

end Kstring

end SyncKernel
