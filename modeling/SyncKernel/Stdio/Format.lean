/-
**Formats of the grammar** (`vsprintf`).

A format of the grammar is a row of segments: literal characters, `%%`, and directives
`%[flags][width][.precision][h or l]letter`.  A segment says how it is written, how many arguments
it takes and what text stands for it; the loop of `vsprintf` follows a format when each turn takes it
over one segment, with these arguments and this text.  The text of a number is that of the argument,
converted to the type of the directive.

`fmt_setwidth` and `fmt_setprec` read digits, and `fmt_setprec` everything, through a copy of the
cursor, so that the switch meets a digit or the dot instead of the letter.  The case `'s'` goes on to
print a number, and the case `'c'` counts the width down to zero before it tests it.  `fmt_setnum` loses
the sign of a short.  So the loop follows a format exactly when there is none of these in it.

Main definitions:

* `Stdio.Field`, `Stdio.Segment` — directives, and the segments of a format;
* `Stdio.Conv.argument`, `Stdio.Segment.render` — the argument of a conversion, and the text of a segment;
* `Stdio.Follows` — the turns of `vsprintf` follow the format;
* `Stdio.Plain` — the formats without the parts that are not handled.

Main results:

* `Stdio.fmtSetnum_argument`, `Stdio.fmtSetnum_short` — `fmt_setnum` finds the argument, up to negative shorts;
* `Stdio.turn_segment_iff` — a turn goes over a segment exactly when it is plain;
* `Stdio.vsprintf_follows_iff` — `vsprintf` follows exactly the plain formats.
-/

import SyncKernel.Stdio.Number

set_option relaxedAutoImplicit false
set_option autoImplicit false

namespace SyncKernel

namespace Stdio

/-! ### The grammar -/

/-- A flag. -/
inductive Flag
  | minus | plus | space | hash | zero

/-- How a flag is written. -/
def Flag.char : Flag → Char
  | minus => '-'
  | plus => '+'
  | space => ' '
  | hash => '#'
  | zero => '0'

/-- The flags of a directive with a further flag. -/
def Flag.set (flags : Flags) : Flag → Flags
  | minus => { flags with left := true }
  | plus => { flags with plus := true }
  | space => { flags with space := true }
  | hash => { flags with spec := true }
  | zero => { flags with zeroPad := true }

/-- A nonempty row of digits. -/
structure Numeral where
  first : Char
  others : List Char
  isDigit : ∀ c ∈ first :: others, c.isDigit

/-- How a numeral is written. -/
def Numeral.text (n : Numeral) : List Char := n.first :: n.others

/-- The value of a numeral. -/
def Numeral.value (n : Numeral) : ℕ := n.text.foldl (fun i c => 10 * i + (c.toNat - '0'.toNat)) 0

/-- A width or a precision. -/
inductive Amount
  | absent | digits (n : Numeral) | star

/-- A conversion letter. -/
inductive Conv
  | d | i | u | o | x | X | s | c
  deriving DecidableEq

/-- How a conversion is written. -/
def Conv.char : Conv → Char
  | d => 'd'
  | i => 'i'
  | u => 'u'
  | o => 'o'
  | x => 'x'
  | X => 'X'
  | s => 's'
  | c => 'c'

/-- The base of a conversion. -/
def Conv.base : Conv → Base
  | o => Base.oct
  | x | X => Base.hex
  | _ => Base.dec

/-- The flags with those that a conversion sets. -/
def Conv.flags (flags : Flags) : Conv → Flags
  | d | i => { flags with sign := true }
  | x => { flags with lower := true }
  | _ => flags

/-- The conversion is to a signed type. -/
def Conv.Signed (conv : Conv) : Prop := conv = Conv.d ∨ conv = Conv.i

instance (conv : Conv) : Decidable conv.Signed := inferInstanceAs (Decidable (_ ∨ _))

/-- The number of bits of the types that a modifier stands for. -/
def Ext.bits : Ext → ℕ
  | ext64 => 64
  | ext32 => 32
  | ext16 => 16

/-- The argument in a slot, converted to the type of the directive. -/
def Conv.argument (conv : Conv) (ext : Ext) (slot : ℕ) : ℤ :=
  if conv.Signed then (slot : ℤ).bmod (2 ^ ext.bits) else (slot : ℤ) % 2 ^ ext.bits

/-- How a modifier is written. -/
def Ext.text : Ext → List Char
  | ext64 => ['l']
  | ext32 => []
  | ext16 => ['h']

/-- A directive.  A leading zero would be a flag, and no part of the width. -/
structure Field where
  flags : List Flag
  width : Amount
  prec : Amount
  ext : Ext
  conv : Conv
  width_first : ∀ n, width = Amount.digits n → n.first ≠ '0'

/-- How a width is written. -/
def Amount.widthText : Amount → List Char
  | absent => []
  | digits n => n.text
  | star => ['*']

/-- How a precision is written. -/
def Amount.precText : Amount → List Char
  | absent => []
  | digits n => '.' :: n.text
  | star => ['.', '*']

/-- The number of arguments of a width or a precision. -/
def Amount.takes : Amount → ℕ
  | star => 1
  | _ => 0

/-- The amount, with the arguments from `pos` on. -/
def Amount.value (args : VaList) (pos : ℕ) (none : ℤ) : Amount → ℤ
  | absent => none
  | digits n => n.value
  | star => i32 (args.slot pos)

namespace Field

/-- What follows the flags of a directive. -/
def tail (f : Field) : List Char :=
  f.width.widthText ++ (f.prec.precText ++ (f.ext.text ++ [f.conv.char]))

/-- How a directive is written behind the `%`. -/
def text (f : Field) : List Char := f.flags.map Flag.char ++ f.tail

/-- The number of arguments of a directive. -/
def takes (f : Field) : ℕ := f.width.takes + f.prec.takes + 1

/-- The width of a directive, negative when the argument for it is. -/
def signedWidth (f : Field) (args : VaList) (pos : ℕ) : ℤ := f.width.value args pos 0

/-- The flags of a directive; a negative width stands for a minus sign. -/
def allFlags (f : Field) (args : VaList) (pos : ℕ) : Flags :=
  let flags := f.flags.foldl Flag.set {}
  if f.signedWidth args pos < 0 then { flags with left := true } else flags

/-- The precision of a directive, if there is one; a negative argument for it counts as none. -/
def precision (f : Field) (args : VaList) (pos : ℕ) : ℤ :=
  let precision := f.prec.value args (pos + f.width.takes) (-1)
  if precision < 0 then -1 else precision

/-- A text in a field of the given width. -/
def pad (left : Bool) (width : ℤ) (text : List Char) : List Char :=
  let blanks := List.replicate (width - text.length).toNat ' '
  if left then text ++ blanks else blanks ++ text

/-- The text that stands for a directive, with the arguments from `pos` on. -/
def render (f : Field) (args : VaList) (pos : ℕ) : List Char :=
  let flags := f.conv.flags (f.allFlags args pos)
  let width := (f.signedWidth args pos).natAbs
  let precision := f.precision args pos
  let arg := pos + f.width.takes + f.prec.takes
  match f.conv with
  | Conv.c => pad flags.left width [Char.ofNat (args.slot arg % 256)]
  | Conv.s =>
      let str := args.str (args.slot arg)
      pad flags.left width (if precision < 0 then str else str.take precision.toNat)
  | _ => numberText (f.conv.argument f.ext (args.slot arg)) f.conv.base width precision flags

/-- The argument is a negative short. -/
def NegativeShort (f : Field) (args : VaList) (pos : ℕ) : Prop :=
  f.ext = Ext.ext16 ∧ f.conv.Signed ∧ 2 ^ 15 ≤ args.slot (pos + f.width.takes + f.prec.takes) % 2 ^ 16

end Field

/-- A literal character. -/
abbrev Literal := { c : Char // c ≠ '%' ∧ c ≠ '\x00' }

/-- A segment of a format. -/
inductive Segment
  | literal (c : Literal)
  | percent
  | field (f : Field)

namespace Segment

/-- How a segment is written behind its first character. -/
def after : Segment → List Char
  | literal _ => []
  | percent => ['%']
  | field f => f.text

/-- The first character of a segment. -/
def first : Segment → Char
  | literal c => c
  | _ => '%'

/-- How a segment is written. -/
def text (x : Segment) : List Char := x.first :: x.after

/-- The number of arguments of a segment. -/
def takes : Segment → ℕ
  | field f => f.takes
  | _ => 0

/-- The text that stands for a segment. -/
def render (args : VaList) (pos : ℕ) : Segment → List Char
  | literal c => [c.1]
  | percent => ['%']
  | field f => f.render args pos

end Segment

/-- How a format is written. -/
def formatText (format : List Segment) : List Char := format.flatMap Segment.text

/-- The number of arguments of a format. -/
def formatTakes (format : List Segment) : ℕ := (format.map Segment.takes).sum

/-- The text that stands for a format. -/
def formatRender (args : VaList) (pos : ℕ) : List Segment → List Char
  | [] => []
  | x :: format => x.render args pos ++ formatRender args (pos + x.takes) format

/-- The variables of `vsprintf` behind the first `k` segments of a format. -/
def behind (args : VaList) (format : List Segment) (k : ℕ) : State :=
  ⟨formatText (format.drop k), formatTakes (format.take k), formatRender args 0 (format.take k), []⟩

/-- Each turn of `vsprintf` goes over one segment of the format: to the character behind it, over the
arguments it takes, and with its text written; and so does the whole run over the whole format. -/
def Follows (args : VaList) (format : List Segment) : Prop :=
  (∀ k ≤ format.length, vsprintfLoop args k (start (formatText format)) =
    Except.ok (behind args format k)) ∧
  vsprintf (formatText format) args = Except.ok (behind args format format.length)

/-! ### Plain formats -/

/-- A directive without digits for its width, without a precision, that is no `%s`; that, if it is a
`%c`, is justified to the left with a width of at most one; and whose argument is no negative short. -/
def Field.Plain (f : Field) (args : VaList) (pos : ℕ) : Prop :=
  (∀ n, f.width ≠ Amount.digits n) ∧ f.prec = Amount.absent ∧ f.conv ≠ Conv.s ∧
    (f.conv = Conv.c → (f.allFlags args pos).left = true ∧ (f.signedWidth args pos).natAbs ≤ 1) ∧
    ¬ f.NegativeShort args pos

/-- A format with plain directives only. -/
def Plain (args : VaList) (pos : ℕ) : List Segment → Prop
  | [] => True
  | Segment.field f :: format => f.Plain args pos ∧ Plain args (pos + f.takes) format
  | _ :: format => Plain args pos format

/-! ### The argument of a directive -/

section Argument

/-- The two cases of a conversion to a signed type. -/
theorem bmod_cases (k : ℕ) (n : ℤ) :
    0 ≤ n.bmod (2 ^ (k + 1)) ∧ n.bmod (2 ^ (k + 1)) = n % 2 ^ (k + 1) ∧ n % 2 ^ (k + 1) < 2 ^ k ∨
      n.bmod (2 ^ (k + 1)) < 0 ∧ n.bmod (2 ^ (k + 1)) = n % 2 ^ (k + 1) - 2 ^ (k + 1) ∧
        2 ^ k ≤ n % 2 ^ (k + 1) := by
  have hpos : 0 < (2 : ℤ) ^ k := by positivity
  have hdouble : (2 : ℤ) ^ (k + 1) = 2 * 2 ^ k := by ring
  have hnonneg := Int.emod_nonneg n (by omega : (2 : ℤ) ^ (k + 1) ≠ 0)
  have hlt := Int.emod_lt_of_pos n (by omega : 0 < (2 : ℤ) ^ (k + 1))
  rw [Int.bmod_def]
  push_cast
  split <;> omega

theorem i64_cases (n : ℤ) :
    0 ≤ i64 n ∧ i64 n = n % 2 ^ 64 ∧ n % 2 ^ 64 < 2 ^ 63 ∨
      i64 n < 0 ∧ i64 n = n % 2 ^ 64 - 2 ^ 64 ∧ 2 ^ 63 ≤ n % 2 ^ 64 := bmod_cases 63 n

theorem i32_cases (n : ℤ) :
    0 ≤ i32 n ∧ i32 n = n % 2 ^ 32 ∧ n % 2 ^ 32 < 2 ^ 31 ∨
      i32 n < 0 ∧ i32 n = n % 2 ^ 32 - 2 ^ 32 ∧ 2 ^ 31 ≤ n % 2 ^ 32 := bmod_cases 31 n

theorem i16_cases (n : ℤ) :
    0 ≤ i16 n ∧ i16 n = n % 2 ^ 16 ∧ n % 2 ^ 16 < 2 ^ 15 ∨
      i16 n < 0 ∧ i16 n = n % 2 ^ 16 - 2 ^ 16 ∧ 2 ^ 15 ≤ n % 2 ^ 16 := bmod_cases 15 n

variable {ext : Ext} {conv : Conv} {flags : Flags} {slot : ℕ}

/-- The argument of a signed conversion. -/
theorem Conv.argument_signed (hs : conv.Signed) (ext : Ext) (slot : ℕ) :
    conv.argument ext slot = match ext with
      | Ext.ext64 => i64 slot
      | Ext.ext32 => i32 slot
      | Ext.ext16 => i16 slot := by
  rw [Conv.argument, if_pos hs]
  cases ext <;> rfl

/-- The argument of an unsigned one. -/
theorem Conv.argument_unsigned (hs : ¬ conv.Signed) (ext : Ext) (slot : ℕ) :
    conv.argument ext slot = match ext with
      | Ext.ext64 => (slot : ℤ) % 2 ^ 64
      | Ext.ext32 => (slot : ℤ) % 2 ^ 32
      | Ext.ext16 => (slot : ℤ) % 2 ^ 16 := by
  rw [Conv.argument, if_neg hs]
  cases ext <;> rfl

/-- The argument is a number of its type. -/
theorem Conv.argument_bounds (conv : Conv) (ext : Ext) (slot : ℕ) :
    -2 ^ 63 ≤ conv.argument ext slot ∧ conv.argument ext slot < 2 ^ 64 ∧
      (conv.Signed → conv.argument ext slot < 2 ^ 63) ∧ (¬ conv.Signed → 0 ≤ conv.argument ext slot) := by
  by_cases hs : conv.Signed
  · have h64 := i64_cases slot
    have h32 := i32_cases slot
    have h16 := i16_cases slot
    rw [Conv.argument_signed hs]
    cases ext <;> exact ⟨by dsimp only; omega, by dsimp only; omega, fun _ => by dsimp only; omega,
      fun h => absurd hs h⟩
  · rw [Conv.argument_unsigned hs]
    cases ext <;> exact ⟨by dsimp only; omega, by dsimp only; omega, fun h => absurd h hs,
      fun _ => by dsimp only; omega⟩

/-- **`fmt_setnum`** finds the argument and its sign, unless it is a negative short. -/
theorem fmtSetnum_argument (hsign : flags.sign = decide conv.Signed)
    (h : ¬ (ext = Ext.ext16 ∧ conv.Signed ∧ 2 ^ 15 ≤ slot % 2 ^ 16)) :
    fmtSetnum ext flags slot = (u64 (conv.argument ext slot), decide (conv.argument ext slot < 0)) := by
  by_cases hs : conv.Signed
  · rw [decide_eq_true hs] at hsign
    rw [Conv.argument_signed hs]
    cases ext with
    | ext64 => simp only [fmtSetnum, hsign, Bool.true_and]
    | ext32 => simp only [fmtSetnum, hsign, if_true]
    | ext16 =>
        have hcases := i16_cases slot
        have hlt : slot % 2 ^ 16 < 2 ^ 15 := Nat.not_le.1 fun hle => h ⟨rfl, hs, hle⟩
        have hmod : i16 ((slot : ℤ) % 2 ^ 16) = i16 slot := Int.emod_bmod _ _
        have hneg : ¬ ((slot : ℤ) % 2 ^ 16 < 0) := by omega
        have hneg' : ¬ (i16 slot < 0) := by omega
        simp only [fmtSetnum, hsign, if_true, Bool.true_and, decide_eq_false hneg, decide_eq_false hneg', hmod]
  · rw [decide_eq_false hs] at hsign
    have hneg : ¬ (conv.argument ext slot < 0) :=
      Int.not_lt.2 ((conv.argument_bounds ext slot).2.2.2 hs)
    rw [decide_eq_false hneg, Conv.argument_unsigned hs]
    cases ext with
    | ext64 =>
        have hcases := i64_cases slot
        have heq : u64 (i64 slot) = u64 ((slot : ℤ) % 2 ^ 64) := by
          unfold u64
          omega
        simp only [fmtSetnum, hsign, Bool.false_and, heq]
    | ext32 =>
        have heq : slot % 2 ^ 32 = u64 ((slot : ℤ) % 2 ^ 32) := by
          unfold u64
          omega
        simp only [fmtSetnum, hsign, Bool.false_eq_true, if_false, heq]
    | ext16 => simp only [fmtSetnum, hsign, Bool.false_eq_true, if_false, Bool.false_and]

/-- **A negative short** becomes a large number without a sign. -/
theorem fmtSetnum_short (hsign : flags.sign = decide conv.Signed) (hs : conv.Signed)
    (h : 2 ^ 15 ≤ slot % 2 ^ 16) :
    fmtSetnum Ext.ext16 flags slot = (u64 (conv.argument Ext.ext16 slot), false) ∧
      conv.argument Ext.ext16 slot < 0 := by
  rw [decide_eq_true hs] at hsign
  rw [Conv.argument_signed hs]
  have hcases := i16_cases slot
  have hmod : i16 ((slot : ℤ) % 2 ^ 16) = i16 slot := Int.emod_bmod _ _
  have hneg : ¬ ((slot : ℤ) % 2 ^ 16 < 0) := by omega
  refine ⟨?_, by dsimp only; omega⟩
  simp only [fmtSetnum, hsign, if_true, Bool.true_and, decide_eq_false hneg, hmod]

theorem sign_foldl (l : List Flag) (h : flags.sign = false) : (l.foldl Flag.set flags).sign = false := by
  induction l generalizing flags with
  | nil => exact h
  | cons x l ih => exact ih (by cases x <;> exact h)

/-- The flag for a sign is set by the signed conversions. -/
theorem Conv.sign_flags (conv : Conv) (h : flags.sign = false) :
    (conv.flags flags).sign = decide conv.Signed := by
  cases conv <;> first | rfl | exact h

theorem Field.sign_allFlags (f : Field) (args : VaList) (pos : ℕ) : (f.allFlags args pos).sign = false := by
  have hsign : (f.flags.foldl Flag.set {}).sign = false := sign_foldl f.flags rfl
  unfold Field.allFlags
  dsimp only
  split_ifs
  · exact hsign
  · exact hsign

end Argument

/-! ### The helpers on a directive -/

section Helpers

variable {args : VaList} {f : Field}

theorem setFlag_char (flags : Flags) (x : Flag) : setFlag flags x.char = some (x.set flags) := by
  cases x <;> rfl

/-- The flags of a directive, in front of a character that is none. -/
theorem fmtSetflags_map (l : List Flag) (flags : Flags) {c : Char} {fmt : List Char}
    (h : ∀ flags, setFlag flags c = none) :
    fmtSetflags flags (l.map Flag.char ++ c :: fmt) = (l.foldl Flag.set flags, c :: fmt) := by
  induction l generalizing flags with
  | nil => simp [fmtSetflags, h]
  | cons x l ih => simp [fmtSetflags, setFlag_char, ih]

theorem setFlag_digit {c : Char} (h : c.isDigit) (h0 : c ≠ '0') (flags : Flags) :
    setFlag flags c = none := by
  unfold setFlag
  split <;> first | rfl | exact absurd h (by decide) | exact absurd rfl h0

theorem setFlag_conv (conv : Conv) (flags : Flags) : setFlag flags conv.char = none := by
  cases conv <;> rfl

/-- What follows the flags of a directive does not begin with a flag. -/
theorem Field.tail_first (f : Field) (fmt : List Char) :
    ∃ c fmt', f.tail ++ fmt = c :: fmt' ∧ ∀ flags, setFlag flags c = none := by
  obtain ⟨flags, width, prec, ext, conv, hw⟩ := f
  cases width with
  | digits n =>
      exact ⟨n.first, _, rfl, setFlag_digit (n.isDigit _ List.mem_cons_self) (hw n rfl)⟩
  | star => exact ⟨'*', _, rfl, fun _ => rfl⟩
  | absent =>
      cases prec with
      | digits n => exact ⟨'.', _, rfl, fun _ => rfl⟩
      | star => exact ⟨'.', _, rfl, fun _ => rfl⟩
      | absent =>
          cases ext with
          | ext64 => exact ⟨'l', _, rfl, fun _ => rfl⟩
          | ext16 => exact ⟨'h', _, rfl, fun _ => rfl⟩
          | ext32 => exact ⟨conv.char, _, rfl, setFlag_conv conv⟩

theorem fmtSetflags_field (f : Field) (fmt : List Char) :
    fmtSetflags {} (f.text ++ fmt) = (f.flags.foldl Flag.set {}, f.tail ++ fmt) := by
  obtain ⟨c, fmt', h, hc⟩ := f.tail_first fmt
  rw [Field.text, List.append_assoc, h, fmtSetflags_map _ _ hc]

/-- The cursor stays in front of the digits of a width. -/
theorem directive_digits (args : VaList) {n : Numeral} (h : f.width = Amount.digits n) (fmt : List Char) (pos : ℕ) :
    ∃ fmt', (directive args (f.text ++ fmt) pos).fmt = n.first :: fmt' ∧ fmt.length < fmt'.length := by
  have hn := n.isDigit _ List.mem_cons_self
  have hh : n.first ≠ 'h' := fun h => by simp [h] at hn
  have hl : n.first ≠ 'l' := fun h => by simp [h] at hn
  refine ⟨n.others ++ (f.prec.precText ++ (f.ext.text ++ [f.conv.char])) ++ fmt, ?_, by simp; omega⟩
  rw [directive, fmtSetflags_field, Field.tail, h]
  simp [Amount.widthText, Numeral.text, fmtSetwidth, hn, fmtSetext, hh, hl]

/-- The width of a directive without digits for it. -/
theorem fmtSetwidth_field (hw : ∀ n, f.width ≠ Amount.digits n) (fmt : List Char) (pos : ℕ) :
    fmtSetwidth args (f.flags.foldl Flag.set {}) pos (f.tail ++ fmt) =
      (((f.signedWidth args pos).natAbs : ℤ), f.allFlags args pos,
        f.prec.precText ++ (f.ext.text ++ f.conv.char :: fmt), pos + f.width.takes) := by
  obtain ⟨flags, width, prec, ext, conv, _⟩ := f
  cases width with
  | digits n => exact absurd rfl (hw n)
  | star =>
      rw [Field.tail, List.append_assoc, Amount.widthText, List.singleton_append, fmtSetwidth_star]
      by_cases h : i32 (args.slot pos) < 0
      · simp only [Field.signedWidth, Field.allFlags, Amount.value, Amount.takes, h, if_true,
          List.append_assoc, List.cons_append, List.nil_append]
      · simp only [Field.signedWidth, Field.allFlags, Amount.value, Amount.takes, h, if_false,
          List.append_assoc, List.cons_append, List.nil_append]
  | absent =>
      cases prec <;> cases ext <;> cases conv <;>
        simp [Field.tail, Amount.widthText, Amount.precText, Ext.text, Conv.char, fmtSetwidth,
          Field.signedWidth, Field.allFlags, Amount.value, Amount.takes]

/-- The cursor stays in front of the dot of a precision. -/
theorem directive_dot (args : VaList) (hw : ∀ n, f.width ≠ Amount.digits n) (hp : f.prec ≠ Amount.absent)
    (fmt : List Char) (pos : ℕ) :
    ∃ fmt', (directive args (f.text ++ fmt) pos).fmt = '.' :: fmt' ∧ fmt.length < fmt'.length := by
  obtain ⟨prec', hprec, hlen⟩ : ∃ prec', f.prec.precText = '.' :: prec' ∧ 0 < prec'.length := by
    cases h : f.prec with
    | absent => exact absurd h hp
    | digits n => exact ⟨n.text, rfl, by simp [Numeral.text]⟩
    | star => exact ⟨['*'], rfl, by simp⟩
  refine ⟨prec' ++ (f.ext.text ++ f.conv.char :: fmt), ?_, by simp; omega⟩
  rw [directive, fmtSetflags_field]
  simp only [fmtSetwidth_field hw]
  simp [hprec, fmtSetext]

/-- **The helpers on a directive** without digits for its width and without a precision: all its parts
are found, and the cursor is at the letter. -/
theorem directive_letter (hw : ∀ n, f.width ≠ Amount.digits n) (hp : f.prec = Amount.absent)
    (fmt : List Char) (pos : ℕ) :
    directive args (f.text ++ fmt) pos = ⟨f.allFlags args pos, (f.signedWidth args pos).natAbs, -1,
      f.ext, f.conv.char :: fmt, pos + f.width.takes⟩ := by
  rw [directive, fmtSetflags_field]
  simp only [fmtSetwidth_field hw, hp]
  cases f.ext <;> cases f.conv <;>
    simp [Amount.precText, Ext.text, Conv.char, fmtSetprec, fmtSetext]

end Helpers

/-! ### One segment -/

section Turn

variable {args : VaList} {f : Field} {d : Directive} {s s' : State}

/-- In front of a digit the switch takes its default case. -/
theorem convert_digit {c : Char} {fmt : List Char} (hc : c.isDigit) (hd : d.fmt = c :: fmt)
    (h : convert args d s = Except.ok s') : s'.fmt = fmt := by
  unfold convert at h
  rw [hd] at h
  dsimp only at h
  split at h <;> first | exact absurd hc (by decide) | (cases h; rfl)

/-- In front of a dot the switch takes its default case. -/
theorem convert_dot {fmt : List Char} (hd : d.fmt = '.' :: fmt)
    (h : convert args d s = Except.ok s') : s'.fmt = fmt := by
  rw [convert, hd] at h
  cases h
  rfl

/-- What `vsprintf` writes for a directive for an integer that has no precision. -/
def Field.written (f : Field) (args : VaList) (pos : ℕ) : List Char :=
  let flags := f.conv.flags (f.allFlags args pos)
  let num := fmtSetnum f.ext flags (args.slot (pos + f.width.takes))
  strNum num.1 num.2 f.conv.base (f.signedWidth args pos).natAbs (-1) flags

/-- A directive for an integer, whose parts the helpers find. -/
theorem convert_int (hs : f.conv ≠ Conv.s) (hc : f.conv ≠ Conv.c) (fmt : List Char) (pos : ℕ) :
    convert args ⟨f.allFlags args pos, (f.signedWidth args pos).natAbs, -1, f.ext,
        f.conv.char :: fmt, pos + f.width.takes⟩ s =
      Except.ok ⟨fmt, pos + f.width.takes + 1, s.out ++ f.written args pos, s.stores⟩ := by
  cases h : f.conv with
  | s => exact absurd h hs
  | c => exact absurd h hc
  | _ => simp [convert, Conv.char, convNum, Field.written, h, Conv.flags, Conv.base]

/-- **The text of an integer** is written unless it is a negative short. -/
theorem written_eq_render_iff (hp : f.prec = Amount.absent) (hs : f.conv ≠ Conv.s) (hc : f.conv ≠ Conv.c)
    (pos : ℕ) : f.written args pos = f.render args pos ↔ ¬ f.NegativeShort args pos := by
  have hprec : f.precision args pos = -1 := by simp [Field.precision, hp, Amount.value]
  have hrender : f.render args pos = numberText (f.conv.argument f.ext (args.slot (pos + f.width.takes)))
      f.conv.base (f.signedWidth args pos).natAbs (-1) (f.conv.flags (f.allFlags args pos)) := by
    unfold Field.render
    rw [hprec, hp]
    cases h : f.conv with
    | s => exact absurd h hs
    | c => exact absurd h hc
    | _ => rfl
  have hsign := f.conv.sign_flags (f.sign_allFlags args pos)
  obtain ⟨hlo, hhi, -, hnonneg⟩ := f.conv.argument_bounds f.ext (args.slot (pos + f.width.takes))
  have hshort : f.NegativeShort args pos ↔
      f.ext = Ext.ext16 ∧ f.conv.Signed ∧ 2 ^ 15 ≤ args.slot (pos + f.width.takes) % 2 ^ 16 := by
    rw [Field.NegativeShort, hp]
    rfl
  rw [hrender, hshort, Field.written]
  constructor
  · rintro heq ⟨hext, hsd, hle⟩
    -- the text of a negative number has a minus, and that of its two's complement has none
    obtain ⟨hnum, hneg⟩ := fmtSetnum_short hsign hsd hle
    have hbase : f.conv.base = Base.dec := by
      rcases hsd with h | h <;> rw [h] <;> rfl
    rw [hext, hnum, hbase, strNum_unsigned (u64_lt _)] at heq
    have hminus := (minus_mem_numberText_iff _ (f.signedWidth args pos).natAbs (-1)
      (f.conv.flags (f.allFlags args pos))).2 ⟨hneg, hsign.trans (decide_eq_true hsd)⟩
    rw [← heq, minus_mem_numberText_iff] at hminus
    exact absurd hminus.1 (not_lt.2 (Int.natCast_nonneg _))
  · intro h
    rw [fmtSetnum_argument hsign h]
    refine strNum_numberText hlo hhi _ _ _ fun hneg => ?_
    rw [hsign, decide_eq_true_iff]
    by_contra hsd
    exact absurd (hnonneg hsd) (not_le.2 hneg)

/-- A directive whose parts the helpers find is handled when it is no `%s`, no `%c` with blanks and no
negative short. -/
theorem convert_letter_iff (hp : f.prec = Amount.absent) (fmt : List Char) (pos : ℕ) :
    convert args ⟨f.allFlags args pos, (f.signedWidth args pos).natAbs, -1, f.ext,
        f.conv.char :: fmt, pos + f.width.takes⟩ s =
      Except.ok ⟨fmt, pos + f.takes, s.out ++ f.render args pos, s.stores⟩ ↔
    f.conv ≠ Conv.s ∧ (f.conv = Conv.c →
      (f.allFlags args pos).left = true ∧ (f.signedWidth args pos).natAbs ≤ 1) ∧ ¬ f.NegativeShort args pos := by
  have htakes : f.takes = f.width.takes + 1 := by simp [Field.takes, hp, Amount.takes]
  by_cases hs : f.conv = Conv.s
  · -- the number that is printed takes one more argument
    refine iff_of_false (fun h => ?_) fun h => h.1 hs
    rw [convert, hs] at h
    have hpos := congrArg State.pos (Except.ok.inj h)
    simp only [htakes] at hpos
    omega
  by_cases hc : f.conv = Conv.c
  · have hshort : ¬ f.NegativeShort args pos := by
      rintro ⟨-, hsig | hsig, -⟩ <;> rw [hc] at hsig <;> cases hsig
    cases hl : (f.allFlags args pos).left with
    | false =>
        refine iff_of_false (fun h => ?_) fun h => Bool.false_ne_true (h.2.1 hc).1
        have hleft : (Directive.mk (f.allFlags args pos) (f.signedWidth args pos).natAbs (-1) f.ext
            ('c' :: fmt) (pos + f.width.takes)).flags.left = false := hl
        obtain ⟨e, he⟩ := convChar_right args s.out hleft
        rw [convert, hc] at h
        simp only [Conv.char, he] at h
        cases h
    | true =>
        have hrender : f.render args pos = charArg args (pos + f.width.takes) ::
            List.replicate ((f.signedWidth args pos).natAbs - 1) ' ' := by
          simp only [Field.render, hc, Conv.flags, hl, Field.pad, hp, Amount.takes, if_true, Nat.add_zero,
            List.length_singleton, Int.toNat_sub, List.singleton_append]
          rfl
        rw [convert, hrender, htakes, hc]
        simp [Conv.char, convChar, hl, hshort, Nat.add_assoc, bind, Except.bind]
        omega
  · rw [convert_int hs hc, ← written_eq_render_iff hp hs hc, htakes, ← Nat.add_assoc]
    simp [hs, hc]

/-- **One directive.**  A turn goes over a directive, its arguments and its text exactly when it is
plain. -/
theorem turn_field_iff (fmt out : List Char) (pos : ℕ) (stores : List (ℕ × ℤ)) :
    turn args '%' ⟨f.text ++ fmt, pos, out, stores⟩ =
      Except.ok ⟨fmt, pos + f.takes, out ++ f.render args pos, stores⟩ ↔ f.Plain args pos := by
  rw [turn, if_neg (by simp)]
  by_cases hw : ∃ n, f.width = Amount.digits n
  · obtain ⟨n, hn⟩ := hw
    refine iff_of_false (fun h => ?_) fun h => h.1 n hn
    obtain ⟨fmt', hfmt, hlen⟩ := directive_digits args hn fmt pos
    rw [← convert_digit (n.isDigit _ List.mem_cons_self) hfmt h] at hlen
    exact lt_irrefl _ hlen
  · rw [not_exists] at hw
    by_cases hp : f.prec = Amount.absent
    · rw [directive_letter hw hp, convert_letter_iff hp]
      exact ⟨fun h => ⟨hw, hp, h⟩, fun h => h.2.2⟩
    · refine iff_of_false (fun h => ?_) fun h => hp h.2.1
      obtain ⟨fmt', hfmt, hlen⟩ := directive_dot args hw hp fmt pos
      rw [← convert_dot hfmt h] at hlen
      exact lt_irrefl _ hlen

/-- The same for any segment. -/
theorem turn_segment_iff (x : Segment) (fmt out : List Char) (pos : ℕ) (stores : List (ℕ × ℤ)) :
    turn args x.first ⟨x.after ++ fmt, pos, out, stores⟩ =
      Except.ok ⟨fmt, pos + x.takes, out ++ x.render args pos, stores⟩ ↔ Plain args pos [x] := by
  cases x with
  | literal c =>
      refine iff_of_true ?_ trivial
      rw [turn, if_pos (by exact c.2.1)]
      rfl
  | percent => exact iff_of_true rfl trivial
  | field f => exact (turn_field_iff fmt out pos stores).trans (and_iff_left trivial).symm

end Turn

/-! ### The whole format -/

section Loop

variable {args : VaList}

theorem formatText_cons (x : Segment) (format : List Segment) :
    formatText (x :: format) = x.first :: (x.after ++ formatText format) := rfl

/-- The loop over segments, one turn for each: it follows them exactly when they are plain. -/
theorem vsprintfLoop_segments_iff (args : VaList) (format : List Segment) (pos : ℕ) (out : List Char)
    (stores : List (ℕ × ℤ)) :
    (∀ k ≤ format.length, vsprintfLoop args k ⟨formatText format, pos, out, stores⟩ =
      Except.ok ⟨formatText (format.drop k), pos + formatTakes (format.take k),
        out ++ formatRender args pos (format.take k), stores⟩) ↔ Plain args pos format := by
  induction format generalizing pos out with
  | nil =>
      refine iff_of_true (fun k hk => ?_) trivial
      obtain rfl : k = 0 := by simpa using hk
      simp [vsprintfLoop, formatTakes, formatRender]
  | cons x format ih =>
      have hplain : Plain args pos (x :: format) ↔
          Plain args pos [x] ∧ Plain args (pos + x.takes) format := by
        cases x <;> simp [Plain, Segment.takes]
      rw [hplain, ← turn_segment_iff x (formatText format) out pos stores,
        ← ih (pos + x.takes) (out ++ x.render args pos)]
      constructor
      · intro h
        have hturn : turn args x.first ⟨x.after ++ formatText format, pos, out, stores⟩ =
            Except.ok ⟨formatText format, pos + x.takes, out ++ x.render args pos, stores⟩ := by
          have h1 := h 1 (by simp)
          rw [vsprintfLoop_succ (formatText_cons x format)] at h1
          cases hrun : turn args x.first ⟨x.after ++ formatText format, pos, out, stores⟩ with
          | error e =>
              rw [hrun] at h1
              cases h1
          | ok s =>
              rw [hrun] at h1
              simpa [bind, Except.bind, vsprintfLoop, formatTakes, formatRender] using h1
        refine ⟨hturn, fun k hk => ?_⟩
        have hk' := h (k + 1) (by simpa using hk)
        rw [vsprintfLoop_succ (formatText_cons x format), hturn] at hk'
        simpa [bind, Except.bind, formatTakes, formatRender, Nat.add_assoc] using hk'
      · rintro ⟨hturn, h⟩ k hk
        cases k with
        | zero => simp [vsprintfLoop, formatTakes, formatRender]
        | succ k =>
            have hk' := h k (by simpa using hk)
            rw [vsprintfLoop_succ (formatText_cons x format), hturn]
            simpa [bind, Except.bind, formatTakes, formatRender, Nat.add_assoc] using hk'

theorem length_le_formatText (format : List Segment) : format.length ≤ (formatText format).length := by
  induction format with
  | nil => exact Nat.le_refl _
  | cons x format ih =>
      simp only [formatText, List.flatMap_cons, List.length_append, List.length_cons,
        Segment.text] at ih ⊢
      omega

/-- **Formats of the grammar** (`vsprintf`).  Whatever the format and the arguments, each turn of the
loop goes over one segment of the format, over the arguments that it takes, and writes its text, if
and only if no directive has digits for its width or a precision, none is a `%s`, each `%c` is
justified to the left with a width of at most one, and no argument of a `%hd` or `%hi` is negative. -/
theorem vsprintf_follows_iff (args : VaList) (format : List Segment) :
    Follows args format ↔ Plain args 0 format := by
  have hiff := vsprintfLoop_segments_iff args format 0 [] []
  simp only [Nat.zero_add, List.nil_append] at hiff
  refine ⟨fun h => hiff.1 h.1, fun h => ⟨hiff.2 h, ?_⟩⟩
  exact vsprintfLoop_of_end (length_le_formatText format) (hiff.2 h _ le_rfl) (by simp [behind, formatText])

end Loop

/-! ### A width in digits -/

/-- The directive `%5d`. -/
def fiveWide : Field where
  flags := []
  width := Amount.digits ⟨'5', [], List.forall_mem_singleton.2 rfl⟩
  prec := Amount.absent
  ext := Ext.ext32
  conv := Conv.d
  width_first := by
    intro n h
    cases h
    decide

/-- The number seven does not come out as four blanks and a seven: the directive itself does. -/
theorem not_follows_fiveWide :
    formatText [Segment.field fiveWide] = "%5d".toList ∧
      formatRender ⟨fun _ => 7, fun _ => []⟩ 0 [Segment.field fiveWide] = "    7".toList ∧
      (vsprintf "%5d".toList ⟨fun _ => 7, fun _ => []⟩).map State.out = Except.ok "%5d".toList ∧
      ¬ Follows ⟨fun _ => 7, fun _ => []⟩ [Segment.field fiveWide] := by
  refine ⟨by decide, by decide +kernel, by rfl, fun h => ?_⟩
  have h1 := congrArg (fun r => r.map State.fmt) (h.1 1 le_rfl)
  have h2 : Except.ok ['d'] = Except.ok (ε := Fault) [] := h1
  simp at h2

end Stdio

end SyncKernel
