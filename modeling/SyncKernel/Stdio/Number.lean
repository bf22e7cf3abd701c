/-
**The text of a number** (`str_num`).

`str_num` counts the width down through its loops, each of which starts from what the one before it
has left.  At most one of the three that pad writes anything, so that the text is as long as the
width, or as the number with its sign, prefix and leading zeros when that is longer.

What should be written is stated apart from the code: which sign and which prefix the flags ask for, that
the digits are read back as the magnitude, and where the blanks and the zeros stand.

Main definitions:

* `Stdio.signText`, `Stdio.prefixText` — the sign and the prefix that the flags ask for;
* `Stdio.magnitudeOf`, `Stdio.digitCount` — the magnitude that is printed, and the number of its digits;
* `Stdio.readNat` — reading digits;
* `Stdio.Rendered` — what is written for a number;
* `Stdio.numberText` — the text of an integer, with the digits of the library.

Main results:

* `Stdio.readNat_digitsLoop` — the digits give the magnitude;
* `Stdio.strNum_length` — the length of the text;
* `Stdio.strNum_rendered` — **the text of a number**;
* `Stdio.strNum_numberText` — the same, as one text.
-/

import Mathlib.Data.Nat.Digits.Lemmas
import SyncKernel.Stdio.Basic

set_option relaxedAutoImplicit false
set_option autoImplicit false

namespace SyncKernel

namespace Stdio

/-! ### What the flags ask for -/

/-- The sign of a number of a signed type. -/
def signText (negative : Bool) (flags : Flags) : List Char :=
  match flags.sign, negative, flags.plus, flags.space with
  | false, _, _, _ => []
  | true, true, _, _ => ['-']
  | true, false, true, _ => ['+']
  | true, false, false, true => [' ']
  | true, false, false, false => []

/-- The prefix of a number, in the case of its digits. -/
def prefixText (flags : Flags) : Base → List Char
  | Base.oct => if flags.spec then ['0'] else []
  | Base.dec => []
  | Base.hex => if flags.spec then ['0', if flags.lower then 'x' else 'X'] else []

theorem signOf_toList (negative : Bool) (flags : Flags) :
    (signOf negative flags).toList = signText negative flags := by
  unfold signOf signText
  cases flags.sign <;> cases negative <;> cases flags.plus <;> cases flags.space <;> rfl

theorem prefixOf_eq (base : Base) (flags : Flags) : prefixOf base flags = prefixText flags base := by
  unfold prefixOf prefixText
  cases base <;> cases flags.spec <;> cases flags.lower <;> rfl

/-- The magnitude that `str_num` prints. -/
def magnitudeOf (n : ℕ) (negative : Bool) (flags : Flags) : ℕ :=
  if flags.sign && negative then u64 (-n) else n

/-- The number of digits that `str_num` prints before it fills up with zeros. -/
def digitCount (base : Base) (magnitude : ℕ) (precision : ℤ) : ℕ :=
  if magnitude = 0 ∧ precision = 0 then 0 else max 1 (Nat.digits base.value magnitude).length

theorem Base.one_lt_value (base : Base) : 1 < base.value := by
  cases base <;> decide

theorem u64_lt (n : ℤ) : u64 n < 2 ^ 64 := by
  unfold u64
  omega

theorem fmtSetnum_lt (ext : Ext) (flags : Flags) (slot : ℕ) : (fmtSetnum ext flags slot).1 < 2 ^ 64 := by
  cases ext with
  | ext64 => simp only [fmtSetnum, u64_lt]
  | ext32 =>
      cases hs : flags.sign with
      | true => simp only [fmtSetnum, hs, if_true, u64_lt]
      | false =>
          simp only [fmtSetnum, hs, Bool.false_eq_true, if_false]
          omega
  | ext16 =>
      cases hs : flags.sign with
      | true => simp only [fmtSetnum, hs, if_true, u64_lt]
      | false => simp only [fmtSetnum, hs, Bool.false_eq_true, if_false, u64_lt]

theorem magnitudeOf_lt {n : ℕ} (h : n < 2 ^ 64) (negative : Bool) (flags : Flags) :
    magnitudeOf n negative flags < 2 ^ 64 := by
  unfold magnitudeOf
  split
  · exact u64_lt _
  · exact h

/-! ### Reading digits -/

/-- The value of a digit. -/
def charValue (c : Char) : Option ℕ :=
  if '0' ≤ c ∧ c ≤ '9' then some (c.toNat - '0'.toNat)
  else if 'A' ≤ c ∧ c ≤ 'F' then some (c.toNat - 'A'.toNat + 10)
  else if 'a' ≤ c ∧ c ≤ 'f' then some (c.toNat - 'a'.toNat + 10)
  else none

/-- The value of a digit of a base. -/
def readDigit (base : Base) (c : Char) : Option ℕ := (charValue c).filter (· < base.value)

/-- The value of some digits. -/
def readFrom (base : Base) (n : ℕ) (text : List Char) : Option ℕ :=
  text.foldlM (fun n c => (readDigit base c).map (n * base.value + ·)) n

/-- The value of some digits; none at all stand for zero, as `str_num` prints it with the precision 0. -/
def readNat (base : Base) (text : List Char) : Option ℕ := readFrom base 0 text

section Read

variable {base : Base} {c : Char} {text : List Char} {n m : ℕ}

theorem readFrom_append (base : Base) (n : ℕ) (text text' : List Char) :
    readFrom base n (text ++ text') = (readFrom base n text).bind fun n => readFrom base n text' := by
  rw [readFrom, List.foldlM_append]
  rfl

theorem readNat_append_digit (base : Base) (text : List Char) (c : Char) :
    readNat base (text ++ [c]) =
      (readNat base text).bind fun n => (readDigit base c).map (n * base.value + ·) := by
  rw [readNat, readFrom_append]
  refine congrArg _ (funext fun n => ?_)
  rw [readFrom, List.foldlM_cons]
  cases readDigit base c <;> rfl

/-- The digits that `str_num` takes from its table. -/
theorem readDigit_printfDigits (base : Base) (lower : Bool) {d : ℕ} (h : d < base.value) :
    readDigit base (orLower lower (printfDigits.getD d '0')) = some d := by
  cases base <;> cases lower <;> (revert d; decide)

/-- **The digits give the magnitude.** -/
theorem readNat_digitsLoop (base : Base) (lower : Bool) {size magnitude : ℕ}
    (h : magnitude < base.value ^ size) :
    readNat base (digitsLoop base lower size magnitude) = some magnitude := by
  have hb := base.one_lt_value
  induction size generalizing magnitude with
  | zero =>
      rw [Nat.pow_zero, Nat.lt_one_iff] at h
      rw [digitsLoop, h]
      rfl
  | succ size ih =>
      have hdigit := readDigit_printfDigits base lower (Nat.mod_lt magnitude (by omega : 0 < base.value))
      have hsplit := Nat.div_add_mod' magnitude base.value
      rw [digitsLoop]
      by_cases hdiv : magnitude / base.value = 0
      · rw [if_pos hdiv, ← List.nil_append [_], readNat_append_digit, hdigit]
        rw [hdiv, Nat.zero_mul] at hsplit
        rw [← hsplit]
        simp [readNat, readFrom]
      · have hlt : magnitude / base.value < base.value ^ size :=
          Nat.div_lt_of_lt_mul (by rwa [← pow_succ'])
        rw [if_neg hdiv, readNat_append_digit, ih hlt, hdigit]
        exact congrArg some hsplit

/-- Zeros in front of the digits. -/
theorem readNat_replicate_zero (base : Base) (k : ℕ) (text : List Char) :
    readNat base (List.replicate k '0' ++ text) = readNat base text := by
  induction k with
  | zero => rfl
  | succ k ih =>
      rw [List.replicate_succ, List.cons_append, readNat, readFrom, List.foldlM_cons]
      have hzero : readDigit base '0' = some 0 := by cases base <;> decide
      rw [hzero]
      simpa [readNat, readFrom] using ih

/-- A text that is read begins with a digit. -/
theorem readDigit_of_readFrom (h : readFrom base n (c :: text) = some m) : ∃ d, readDigit base c = some d := by
  rw [readFrom, List.foldlM_cons] at h
  cases hd : readDigit base c with
  | none =>
      rw [hd] at h
      cases h
  | some d => exact ⟨d, rfl⟩

end Read

/-! ### The length -/

/-- The digits of a number that has room in the buffer. -/
theorem digitsLoop_length (base : Base) (lower : Bool) {size magnitude : ℕ} (hsize : 0 < size)
    (h : magnitude < base.value ^ size) :
    (digitsLoop base lower size magnitude).length = max 1 (Nat.digits base.value magnitude).length := by
  have hb := base.one_lt_value
  induction size generalizing magnitude with
  | zero => exact absurd hsize (lt_irrefl 0)
  | succ size ih =>
      rw [digitsLoop]
      by_cases hdiv : magnitude / base.value = 0
      · have hlt : magnitude < base.value := (Nat.div_eq_zero_iff_lt (by omega)).1 hdiv
        have hlen : (Nat.digits base.value magnitude).length ≤ 1 := by
          rw [Nat.digits_length_le_iff hb]
          simpa using hlt
        simp only [hdiv, if_pos]
        simp [hlen]
      · have hsize' : 0 < size := by
          by_contra h0
          obtain rfl : size = 0 := by omega
          exact hdiv (Nat.div_eq_of_lt (by simpa using h))
        have hdiv' : magnitude / base.value < base.value ^ size :=
          Nat.div_lt_of_lt_mul (by rwa [← pow_succ'])
        have hpos : 0 < magnitude := Nat.pos_of_ne_zero fun h0 => hdiv (by simp [h0])
        have hne : Nat.digits base.value (magnitude / base.value) ≠ [] :=
          Nat.digits_ne_nil_iff_ne_zero.2 hdiv
        have hlen := List.length_pos_iff.2 hne
        simp only [hdiv, if_false, List.length_append, ih hsize' hdiv', Nat.digits_def' hb hpos,
          List.length_cons, List.length_nil]
        omega

/-- The digits of a 64-bit number have room. -/
theorem lt_base_pow (base : Base) {n : ℕ} (h : n < 2 ^ 64) : n < base.value ^ 128 := by
  calc n < 2 ^ 64 := h
    _ ≤ base.value ^ 64 := Nat.pow_le_pow_left base.one_lt_value 64
    _ ≤ base.value ^ 128 := Nat.pow_le_pow_right (by have := base.one_lt_value; omega) (by decide)

/-- **The length of a number.** -/
theorem strNum_length {n : ℕ} (h : n < 2 ^ 64) (negative : Bool) (base : Base) (width precision : ℤ)
    (flags : Flags) :
    ((strNum n negative base width precision flags).length : ℤ) =
      max width ((signOf negative flags).toList.length + (prefixOf base flags).length +
        max (digitCount base (magnitudeOf n negative flags) precision : ℤ) precision) := by
  obtain ⟨tmp, htmp, hlen⟩ : ∃ tmp, tmp = (if magnitudeOf n negative flags = 0 ∧ precision = 0 then []
      else digitsLoop base flags.lower 128 (magnitudeOf n negative flags)) ∧
      tmp.length = digitCount base (magnitudeOf n negative flags) precision := by
    refine ⟨_, rfl, ?_⟩
    unfold digitCount
    split
    · rfl
    · exact digitsLoop_length base _ (by decide) (lt_base_pow base (magnitudeOf_lt h _ _))
  unfold strNum
  rw [← magnitudeOf]
  dsimp only
  rw [← htmp, ← hlen]
  cases flags.left <;> cases flags.zeroPad <;> simp [padUntil] <;> omega

/-! ### The text -/

section Text

variable (n : ℕ) (negative : Bool) (base : Base) (width precision : ℤ) (flags : Flags)

/-- The digits that `str_num` takes from its buffer. -/
def digitText : List Char :=
  if magnitudeOf n negative flags = 0 ∧ precision = 0 then []
  else digitsLoop base flags.lower 128 (magnitudeOf n negative flags)

/-- The number of characters without those that fill up the width. -/
def tightLength : ℤ :=
  (signText negative flags).length + (prefixText flags base).length +
    max (digitCount base (magnitudeOf n negative flags) precision : ℤ) precision

/-- The number of characters that fill up the width. -/
def room : ℕ := (width - tightLength n negative base precision flags).toNat

/-- What should be written for a number: with `STR_LEFT`, the room is behind the number; else with
`STR_ZERO_PAD` it becomes zeros in front of the digits; else it is in front of the sign. -/
def Rendered (text : List Char) : Prop :=
  ∃ before digits after, text = List.replicate before ' ' ++ signText negative flags ++
      prefixText flags base ++ digits ++ List.replicate after ' ' ∧
    readNat base digits = some (magnitudeOf n negative flags) ∧
    (text.length : ℤ) = max width (tightLength n negative base precision flags) ∧
    (before, after) =
      if flags.left then (0, room n negative base width precision flags)
      else if flags.zeroPad then (0, 0)
      else (room n negative base width precision flags, 0)

end Text

section Layout

variable {n : ℕ} {negative : Bool} {base : Base} {width precision : ℤ} {flags : Flags}

theorem digitText_length (h : n < 2 ^ 64) :
    (digitText n negative base precision flags).length =
      digitCount base (magnitudeOf n negative flags) precision := by
  unfold digitText digitCount
  split
  · rfl
  · exact digitsLoop_length base _ (by decide) (lt_base_pow base (magnitudeOf_lt h _ _))

theorem readNat_digitText (h : n < 2 ^ 64) :
    readNat base (digitText n negative base precision flags) = some (magnitudeOf n negative flags) := by
  unfold digitText
  split
  case isTrue hzero =>
      rw [hzero.1]
      rfl
  case isFalse => exact readNat_digitsLoop base _ (lt_base_pow base (magnitudeOf_lt h _ _))

theorem digitText_ne_nil (h : precision ≠ 0) : digitText n negative base precision flags ≠ [] := by
  rw [digitText, if_neg fun hzero => h hzero.2, digitsLoop]
  split_ifs
  · exact List.cons_ne_nil _ _
  · exact List.append_ne_nil_of_right_ne_nil _ (List.cons_ne_nil _ _)

/-- The loops of `str_num` write the room at one of three places. -/
theorem strNum_eq (h : n < 2 ^ 64) : strNum n negative base width precision flags =
    List.replicate (if flags.left || flags.zeroPad then 0 else room n negative base width precision flags) ' ' ++
      signText negative flags ++ prefixText flags base ++
      (List.replicate (if flags.zeroPad && !flags.left then room n negative base width precision flags else 0) '0' ++
        (List.replicate (precision - digitCount base (magnitudeOf n negative flags) precision).toNat '0' ++
          digitText n negative base precision flags)) ++
      List.replicate (if flags.left then room n negative base width precision flags else 0) ' ' := by
  have hlen : (digitText n negative base precision flags).length =
      digitCount base (magnitudeOf n negative flags) precision := digitText_length h
  unfold strNum
  rw [← magnitudeOf]
  dsimp only
  rw [← digitText, hlen, signOf_toList, prefixOf_eq]
  generalize digitText n negative base precision flags = text at hlen
  unfold room tightLength
  generalize digitCount base (magnitudeOf n negative flags) precision = count
  have hroom : (width - (signText negative flags).length - (prefixText flags base).length -
      max precision count).toNat = (width - ((signText negative flags).length +
        (prefixText flags base).length + max (count : ℤ) precision)).toNat := by omega
  have hzeros : (max precision count).toNat - count = precision.toNat - count := by omega
  cases flags.left with
  | true => simp [padUntil, hroom, hzeros]
  | false =>
      cases flags.zeroPad with
      | false => simp [padUntil, hroom, hzeros]
      | true =>
          simp only [padUntil, Bool.not_false, Bool.and_true, Bool.true_or, Bool.or_true, if_true, if_false,
            Bool.not_true, Bool.false_eq_true, sub_zero, hroom]
          simp [hzeros, -List.replicate_append_replicate]

/-- The digits with zeros in front are read as the magnitude. -/
theorem readNat_zeros_digitText (h : n < 2 ^ 64) (k l : ℕ) :
    readNat base (List.replicate k '0' ++ (List.replicate l '0' ++ digitText n negative base precision flags)) =
      some (magnitudeOf n negative flags) := by
  rw [readNat_replicate_zero, readNat_replicate_zero, readNat_digitText h]

end Layout

/-- **The text of a number.** -/
theorem strNum_rendered (n : ℕ) (h : n < 2 ^ 64) (negative : Bool) (base : Base) (width precision : ℤ)
    (flags : Flags) :
    Rendered n negative base width precision flags (strNum n negative base width precision flags) := by
  refine ⟨_, _, _, strNum_eq h, readNat_zeros_digitText h _ _, ?_, ?_⟩
  · rw [strNum_length h, signOf_toList, prefixOf_eq, tightLength]
  · cases flags.left <;> cases flags.zeroPad <;> rfl

/-- The number 255 with the width 8, in the base 16 with a prefix and zeros. -/
theorem strNum_rendered_hex :
    Rendered 255 false Base.hex 8 (-1) { zeroPad := true, spec := true }
      (strNum 255 false Base.hex 8 (-1) { zeroPad := true, spec := true }) :=
  strNum_rendered 255 (by decide) false Base.hex 8 (-1) _

/-! ### The text of an integer -/

/-- The digits of a number, by the library, in the case that the flags ask for. -/
def digitsOf (base : Base) (lower : Bool) (n : ℕ) : List Char :=
  (Nat.toDigits base.value n).map fun c => if lower then c else c.toUpper

/-- **The text of an integer**: a sign, a prefix and at least so many digits as the precision says (none
for zero with the precision 0), in a field of the given width.  A field to the left has blanks behind the
number; else there are zeros behind the prefix with `STR_ZERO_PAD`, and blanks in front of the sign without. -/
def numberText (value : ℤ) (base : Base) (width precision : ℤ) (flags : Flags) : List Char :=
  let start := signText (value < 0) flags ++ prefixText flags base
  let digits := if value = 0 ∧ precision = 0 then [] else digitsOf base flags.lower value.natAbs
  let number := List.replicate (precision - digits.length).toNat '0' ++ digits
  let fill := (width - (start.length + number.length)).toNat
  if flags.left then start ++ number ++ List.replicate fill ' '
  else if flags.zeroPad then start ++ List.replicate fill '0' ++ number
  else List.replicate fill ' ' ++ start ++ number

/-- A digit of the table is the digit of the library. -/
theorem orLower_printfDigits (base : Base) (lower : Bool) {d : ℕ} (h : d < base.value) :
    orLower lower (printfDigits.getD d '0') = if lower then d.digitChar else d.digitChar.toUpper := by
  cases base <;> cases lower <;> (revert d; decide)

/-- **The digits that `str_num` writes** are those of the library. -/
theorem digitsLoop_eq (base : Base) (lower : Bool) {size magnitude : ℕ} (hsize : 0 < size)
    (h : magnitude < base.value ^ size) :
    digitsLoop base lower size magnitude = digitsOf base lower magnitude := by
  have hb := base.one_lt_value
  induction size generalizing magnitude with
  | zero => exact absurd hsize (lt_irrefl 0)
  | succ size ih =>
      have hdigit := orLower_printfDigits base lower (Nat.mod_lt magnitude (by omega : 0 < base.value))
      rw [digitsLoop, digitsOf, Nat.toDigits_eq_if hb]
      by_cases hlt : magnitude < base.value
      · rw [Nat.mod_eq_of_lt hlt] at hdigit ⊢
        rw [if_pos (Nat.div_eq_of_lt hlt), if_pos hlt, hdigit]
        rfl
      · have hdiv : magnitude / base.value ≠ 0 := fun h0 => hlt ((Nat.div_eq_zero_iff_lt (by omega)).1 h0)
        have hsize' : 0 < size := by
          by_contra h0
          obtain rfl : size = 0 := by omega
          exact hlt (by simpa using h)
        have hdiv' : magnitude / base.value < base.value ^ size :=
          Nat.div_lt_of_lt_mul (by rwa [← pow_succ'])
        rw [if_neg hdiv, if_neg hlt, ih hsize' hdiv', hdigit, List.map_append]
        rfl

/-- **`str_num` writes the text of an integer** of 64 bits, given by its two's complement and its sign. -/
theorem strNum_numberText {value : ℤ} (h : -2 ^ 63 ≤ value) (h' : value < 2 ^ 64) (base : Base)
    (width precision : ℤ) {flags : Flags} (hs : value < 0 → flags.sign = true) :
    strNum (u64 value) (decide (value < 0)) base width precision flags =
      numberText value base width precision flags := by
  have hmag : magnitudeOf (u64 value) (decide (value < 0)) flags = value.natAbs := by
    unfold magnitudeOf u64
    by_cases hneg : value < 0
    · rw [hs hneg, decide_eq_true hneg, if_pos (by rfl)]
      omega
    · rw [decide_eq_false hneg, Bool.and_false, if_neg Bool.false_ne_true]
      omega
  have hlen : (digitText (u64 value) (decide (value < 0)) base precision flags).length =
      digitCount base (magnitudeOf (u64 value) (decide (value < 0)) flags) precision := digitText_length (u64_lt value)
  have hdigits : digitText (u64 value) (decide (value < 0)) base precision flags =
      if value = 0 ∧ precision = 0 then [] else digitsOf base flags.lower value.natAbs := by
    rw [digitText, hmag, digitsLoop_eq base _ (by decide) (lt_base_pow base (by omega))]
    simp only [Int.natAbs_eq_zero]
  rw [strNum_eq (u64_lt value), numberText, ← hdigits]
  unfold room tightLength
  rw [← hlen]
  generalize digitText (u64 value) (decide (value < 0)) base precision flags = digits
  -- the room that is left is the same, counted from either side
  cases flags.left <;> cases flags.zeroPad <;> simp <;> omega

/-- The text of a number without a sign of its own. -/
theorem strNum_unsigned {n : ℕ} (h : n < 2 ^ 64) (base : Base) (width precision : ℤ) (flags : Flags) :
    strNum n false base width precision flags = numberText n base width precision flags := by
  have hneg : ¬ ((n : ℤ) < 0) := Int.not_lt.2 (Int.natCast_nonneg n)
  have hword : u64 n = n := by
    unfold u64
    omega
  have htext : strNum (u64 n) (decide ((n : ℤ) < 0)) base width precision flags =
      numberText n base width precision flags :=
    strNum_numberText (by omega) (by omega) base width precision fun h => absurd h hneg
  rwa [hword, decide_eq_false hneg] at htext

/-- No digit of a decimal number is a minus. -/
theorem minus_notMem_digitsOf (lower : Bool) (n : ℕ) : '-' ∉ digitsOf Base.dec lower n := by
  intro h
  obtain ⟨c, hc, heq⟩ := List.mem_map.1 h
  have hdigit : c.isDigit = true := Nat.isDigit_of_mem_toDigits (by decide) (by decide) hc
  have hle : c.val ≤ '9'.val := of_decide_eq_true (Bool.and_eq_true_iff.1 hdigit).2
  have hupper : c.toUpper = c := dif_neg fun h =>
    absurd (UInt32.le_trans h.1 hle) (by decide)
  rw [hupper, ite_self] at heq
  rw [heq] at hdigit
  exact absurd hdigit (by decide)

/-- **A minus** stands in the text of the negative numbers of a signed type only. -/
theorem minus_mem_numberText_iff (value width precision : ℤ) (flags : Flags) :
    '-' ∈ numberText value Base.dec width precision flags ↔ value < 0 ∧ flags.sign = true := by
  have hdigits : '-' ∉ (if value = 0 ∧ precision = 0 then [] else digitsOf Base.dec flags.lower value.natAbs) := by
    split_ifs
    · exact List.not_mem_nil
    · exact minus_notMem_digitsOf _ _
  have hsign : '-' ∈ signText (decide (value < 0)) flags ↔ value < 0 ∧ flags.sign = true := by
    unfold signText
    by_cases hneg : value < 0 <;> cases flags.sign <;> cases flags.plus <;> cases flags.space <;> simp [hneg]
  unfold numberText
  generalize (if value = 0 ∧ precision = 0 then [] else digitsOf Base.dec flags.lower value.natAbs) = digits at hdigits
  rw [← hsign]
  cases flags.left <;> cases flags.zeroPad <;> simp [prefixText, hdigits, List.mem_replicate]

end Stdio

end SyncKernel
