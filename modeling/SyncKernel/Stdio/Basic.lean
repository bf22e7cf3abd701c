/-
**The formatter** (`stdio.c`) **and the log** (`printk.c`).

`vsprintf` copies the format to the buffer and replaces each directive by the text of its
arguments.  Four helpers move the cursor over the optional parts of a directive, then a switch looks
at the conversion letter, and the cases that print a number meet behind it.

A string is the list of its characters up to the NUL, so that the cursor stands at the NUL when the
list is empty.  The variadic arguments are the slots they are passed in, and the strings that
pointers among them lead to.  The buffer is the list of the characters written so far.

Main definitions:

* `Stdio.strNum` — one number with its sign, prefix and padding;
* `Stdio.fmtSetflags`, `Stdio.fmtSetwidth`, `Stdio.fmtSetprec`, `Stdio.fmtSetext`,
  `Stdio.fmtSetnum` — the helpers;
* `Stdio.vsprintf` — the loop over the format;
* `Stdio.vprintk` — the log, with its buffer.

A function stops with a `Fault` where the C code does not return, reads behind the NUL of the
format, or writes behind the end of the buffer.
-/

import Mathlib.Algebra.Order.Group.Int
import Mathlib.Algebra.Order.Ring.Nat
import Mathlib.Data.Nat.Notation
import Mathlib.Tactic.Common

set_option relaxedAutoImplicit false
set_option autoImplicit false

namespace SyncKernel

namespace Stdio

/-! ### Flags, bases and arguments -/

/-- `enum strnum_flags`. -/
structure Flags where
  sign : Bool := false
  plus : Bool := false
  left : Bool := false
  zeroPad : Bool := false
  lower : Bool := false
  space : Bool := false
  spec : Bool := false

/-- `enum printf_bases`. -/
inductive Base
  | oct | dec | hex
  deriving DecidableEq

/-- The value of a base. -/
def Base.value : Base → ℕ
  | oct => 8
  | dec => 10
  | hex => 16

/-- `enum printf_exts`. -/
inductive Ext
  | ext64 | ext32 | ext16
  deriving DecidableEq

/-- What goes wrong. -/
inductive Fault
  | endless | pastNul | overrun
  deriving DecidableEq

/-- `va_list`: the slots, and the string at a pointer. -/
structure VaList where
  slot : ℕ → ℕ
  str : ℕ → List Char

/-- The conversion to `i16`. -/
def i16 (n : ℤ) : ℤ := n.bmod (2 ^ 16)

/-- The conversion to `i32`. -/
def i32 (n : ℤ) : ℤ := n.bmod (2 ^ 32)

/-- The conversion to `i64`. -/
def i64 (n : ℤ) : ℤ := n.bmod (2 ^ 64)

/-- The conversion to `u64`. -/
def u64 (n : ℤ) : ℕ := (n % 2 ^ 64).toNat

/-! ### Numbers -/

/-- The accumulator of `atoi_bit`. -/
def atoiLoop (i : ℤ) : List Char → ℤ
  | [] => i
  | c :: str => if c.isDigit then atoiLoop (i * 10 + (c.toNat - '0'.toNat)) str else i

/-- `atoi_bit`; both of its callers pass it a copy of the cursor. -/
def atoiBit (str : List Char) : ℤ := atoiLoop 0 str

/-- `printf_digits`. -/
def printfDigits : List Char := "0123456789ABCDEF".toList

/-- A character or-ed with `STR_LOWER`, where the flag is set. -/
def orLower (lower : Bool) (c : Char) : Char := if lower then Char.ofNat (c.toNat ||| 0x20) else c

/-- The `do` loop of `str_num` for a buffer of the given size: what it leaves in `tmp`, backwards. -/
def digitsLoop (base : Base) (lower : Bool) : ℕ → ℕ → List Char
  | 0, _ => []
  | size + 1, magnitude =>
      let digit := orLower lower (printfDigits.getD (magnitude % base.value) '0')
      let magnitude := magnitude / base.value
      if magnitude = 0 then [digit] else digitsLoop base lower size magnitude ++ [digit]

/-- `while (bound < width--) *str++ = c`, and the width behind it. -/
def padUntil (c : Char) (bound width : ℤ) : List Char × ℤ :=
  (List.replicate (width - bound).toNat c, min width bound - 1)

/-- The sign that `str_num` writes. -/
def signOf (negative : Bool) (flags : Flags) : Option Char :=
  if flags.sign then
    if negative then some '-' else if flags.plus then some '+' else if flags.space then some ' ' else none
  else none

/-- The prefix that `str_num` writes. -/
def prefixOf (base : Base) (flags : Flags) : List Char :=
  if flags.spec then
    match base with
    | Base.oct => ['0']
    | Base.hex => ['0', orLower flags.lower 'X']
    | Base.dec => []
  else []

/-- `str_num`. -/
def strNum (magnitude : ℕ) (negative : Bool) (base : Base) (width precision : ℤ) (flags : Flags) :
    List Char :=
  let pad := if flags.zeroPad then '0' else ' '
  let zeroPad := flags.zeroPad && !flags.left
  let magnitude := if flags.sign && negative then u64 (-magnitude) else magnitude
  let sign := signOf negative flags
  let width := width - sign.toList.length
  let width := width - (prefixOf base flags).length
  let tmp := if magnitude = 0 ∧ precision = 0 then [] else digitsLoop base flags.lower 128 magnitude
  let precision := max precision tmp.length
  let width := width - precision
  let before := if !(zeroPad || flags.left) then padUntil ' ' 0 width else ([], width)
  let inside := if !flags.left then padUntil pad 0 before.2 else ([], before.2)
  let zeros := padUntil '0' tmp.length precision
  let behind := padUntil ' ' 0 inside.2
  before.1 ++ sign.toList ++ prefixOf base flags ++ inside.1 ++ zeros.1 ++ tmp ++ behind.1

/-! ### The parts of a directive -/

/-- The switch of `fmt_setflags`; nothing is its default case. -/
def setFlag (flags : Flags) : Char → Option Flags
  | '+' => some { flags with plus := true }
  | '-' => some { flags with left := true }
  | ' ' => some { flags with space := true }
  | '#' => some { flags with spec := true }
  | '0' => some { flags with zeroPad := true }
  | _ => none

/-- `fmt_setflags`, from the flags collected so far: the flags and the cursor. -/
def fmtSetflags (flags : Flags) : List Char → Flags × List Char
  | [] => (flags, [])
  | c :: fmt =>
      match setFlag flags c with
      | some flags => fmtSetflags flags fmt
      | none => (flags, c :: fmt)

/-- `fmt_setwidth` with the arguments from `pos` on: the width, the flags, the cursor and the next
argument.  The digits of a width are read through a copy of the cursor. -/
def fmtSetwidth (args : VaList) (flags : Flags) (pos : ℕ) : List Char → ℤ × Flags × List Char × ℕ
  | [] => (0, flags, [], pos)
  | c :: fmt =>
      if c.isDigit then (atoiBit (c :: fmt), flags, c :: fmt, pos)
      else if c = '*' then
        let width := i32 (args.slot pos)
        if width < 0 then (-width, { flags with left := true }, fmt, pos + 1)
        else (width, flags, fmt, pos + 1)
      else (0, flags, c :: fmt, pos)

/-- A star takes an argument; a negative one stands for a minus sign. -/
theorem fmtSetwidth_star (args : VaList) (flags : Flags) (pos : ℕ) (fmt : List Char) :
    fmtSetwidth args flags pos ('*' :: fmt) =
      (((i32 (args.slot pos)).natAbs : ℤ),
        if i32 (args.slot pos) < 0 then { flags with left := true } else flags, fmt, pos + 1) := by
  rw [fmtSetwidth, if_neg (by decide), if_pos rfl]
  by_cases h : i32 (args.slot pos) < 0
  · rw [if_pos h, if_pos h, Int.ofNat_natAbs_of_nonpos h.le]
  · rw [if_neg h, if_neg h, Int.natAbs_of_nonneg (not_lt.1 h)]

/-- What `fmt_setprec` reads behind the dot. -/
def precAfterDot (args : VaList) (pos : ℕ) : List Char → ℤ × ℕ
  | [] => (-1, pos)
  | c :: fmt =>
      if c.isDigit then (atoiBit (c :: fmt), pos)
      else if c = '*' then (i32 (args.slot pos), pos + 1)
      else (-1, pos)

/-- `fmt_setprec`: the precision and the next argument.  The cursor stays where it is. -/
def fmtSetprec (args : VaList) (pos : ℕ) : List Char → ℤ × ℕ
  | [] => (-1, pos)
  | c :: fmt =>
      if c = '.' then
        let (precision, pos) := precAfterDot args pos fmt
        (if precision < 0 then 0 else precision, pos)
      else (-1, pos)

/-- `fmt_setext`: the modifier and the cursor. -/
def fmtSetext : List Char → Ext × List Char
  | [] => (Ext.ext32, [])
  | c :: fmt =>
      if c = 'h' then (Ext.ext16, fmt)
      else if c = 'l' then (Ext.ext64, fmt)
      else (Ext.ext32, c :: fmt)

/-- `fmt_setnum` with the argument in the slot: the number and `*negative`. -/
def fmtSetnum (ext : Ext) (flags : Flags) (slot : ℕ) : ℕ × Bool :=
  match ext with
  | Ext.ext64 =>
      let t := i64 slot
      (u64 t, flags.sign && decide (t < 0))
  | Ext.ext16 =>
      let t : ℤ := slot % 2 ^ 16
      (if flags.sign then u64 (i16 t) else u64 t, flags.sign && decide (t < 0))
  | Ext.ext32 =>
      if flags.sign then
        let t := i32 slot
        (u64 t, decide (t < 0))
      else (slot % 2 ^ 32, false)

/-! ### The loop -/

/-- The variables of the loop: the cursor, the next argument, the characters written, and the values
stored through pointers. -/
structure State where
  fmt : List Char
  pos : ℕ
  out : List Char
  stores : List (ℕ × ℤ)

/-- What the helpers find in a directive. -/
structure Directive where
  flags : Flags
  width : ℤ
  precision : ℤ
  ext : Ext
  fmt : List Char
  pos : ℕ

/-- The calls of the helpers. -/
def directive (args : VaList) (fmt : List Char) (pos : ℕ) : Directive :=
  let (flags, fmt) := fmtSetflags {} fmt
  let (width, flags, fmt, pos) := fmtSetwidth args flags pos fmt
  let (precision, pos) := fmtSetprec args pos fmt
  let (ext, fmt) := fmtSetext fmt
  ⟨flags, width, precision, ext, fmt, pos⟩

/-- `while (--width) *str++ = c`, and the width behind it. -/
def padDown (c : Char) (width : ℤ) : Except Fault (List Char × ℤ) :=
  if width < 1 then Except.error Fault.endless else Except.ok (List.replicate (width - 1).toNat c, 0)

/-- `(char)va_arg(args, int)`. -/
def charArg (args : VaList) (pos : ℕ) : Char := Char.ofNat (args.slot pos % 2 ^ 8)

/-- The case `'c'`. -/
def convChar (args : VaList) (d : Directive) (out : List Char) : Except Fault (List Char) :=
  if d.flags.left then Except.ok (out ++ [charArg args d.pos])
  else do
    let (before, width) ← padDown ' ' d.width
    let (behind, _) ← padDown ' ' width
    Except.ok (out ++ before ++ [charArg args d.pos] ++ behind)

/-- With the flag for the left, the case `'c'` writes the character alone. -/
theorem convChar_left {args : VaList} {d : Directive} {out : List Char} (h : d.flags.left = true) :
    convChar args d out = Except.ok (out ++ [charArg args d.pos]) := by
  rw [convChar, if_pos h]

/-- Without it, the width is counted down past zero. -/
theorem convChar_right (args : VaList) {d : Directive} (out : List Char)
    (h : d.flags.left = false) : ∃ e, convChar args d out = Except.error e := by
  unfold convChar
  rw [h]
  unfold padDown
  by_cases hw : d.width < 1
  · exact ⟨_, by simp [hw]; rfl⟩
  · exact ⟨_, by simp [hw]; rfl⟩

/-- The code behind the switch: a number from the next argument. -/
def convNum (args : VaList) (d : Directive) (base : Base) (out : List Char) : List Char :=
  let (n, negative) := fmtSetnum d.ext d.flags (args.slot d.pos)
  out ++ strNum n negative base d.width d.precision d.flags

/-- `strnlen`, for a precision converted to `size_t`. -/
def strnlen (str : List Char) (precision : ℤ) : ℕ := min str.length (u64 precision)

/-- The case `'s'`: the string, and the width that is left behind it. -/
def convStr (args : VaList) (d : Directive) (out : List Char) : List Char × ℤ :=
  let strarg := args.str (args.slot d.pos)
  let len := strnlen strarg d.precision
  let before := if !d.flags.left then padUntil ' ' len d.width else ([], d.width)
  let behind := if !d.flags.left then padUntil ' ' len before.2 else ([], before.2)
  (out ++ before.1 ++ strarg.take len ++ behind.1, behind.2)

/-- The case `'p'`. -/
def convPtr (args : VaList) (d : Directive) (out : List Char) : List Char :=
  let width := if d.width = -1 then 16 else d.width
  let flags := if d.width = -1 then { d.flags with zeroPad := true } else d.flags
  out ++ strNum (u64 (args.slot d.pos)) false Base.hex width d.precision flags

/-- The case `'n'`: the address and the value stored there. -/
def convStore (args : VaList) (d : Directive) (out : List Char) : ℕ × ℤ :=
  match d.ext with
  | Ext.ext64 => (args.slot d.pos, i64 out.length)
  | _ => (args.slot d.pos, i32 out.length)

/-- The switch over the conversion letter, up to the `fmt++` of the loop. -/
def convert (args : VaList) (d : Directive) (s : State) : Except Fault State :=
  match d.fmt with
  | [] => Except.error Fault.pastNul
  | c :: fmt =>
      match c with
      | 'c' => do
          let out ← convChar args d s.out
          Except.ok ⟨fmt, d.pos + 1, out, s.stores⟩
      | 's' =>
          -- the string is printed, and then a number, as there is no `continue`
          let (out, width) := convStr args d s.out
          let d := { d with width := width, pos := d.pos + 1 }
          Except.ok ⟨fmt, d.pos + 1, convNum args d Base.dec out, s.stores⟩
      | 'd' | 'i' =>
          let d := { d with flags := { d.flags with sign := true } }
          Except.ok ⟨fmt, d.pos + 1, convNum args d Base.dec s.out, s.stores⟩
      | 'u' => Except.ok ⟨fmt, d.pos + 1, convNum args d Base.dec s.out, s.stores⟩
      | 'o' => Except.ok ⟨fmt, d.pos + 1, convNum args d Base.oct s.out, s.stores⟩
      | 'n' => Except.ok ⟨fmt, d.pos + 1, s.out, s.stores ++ [convStore args d s.out]⟩
      | 'x' =>
          let d := { d with flags := { d.flags with lower := true } }
          Except.ok ⟨fmt, d.pos + 1, convNum args d Base.hex s.out, s.stores⟩
      | 'X' => Except.ok ⟨fmt, d.pos + 1, convNum args d Base.hex s.out, s.stores⟩
      | 'p' => Except.ok ⟨fmt, d.pos + 1, convPtr args d s.out, s.stores⟩
      | '%' => Except.ok ⟨fmt, d.pos, s.out ++ ['%'], s.stores⟩
      | c => Except.ok ⟨fmt, d.pos, s.out ++ ['%', c], s.stores⟩

/-- One turn of the loop of `vsprintf`, at the character `c` in front of the cursor. -/
def turn (args : VaList) (c : Char) (s : State) : Except Fault State :=
  if c ≠ '%' then Except.ok ⟨s.fmt, s.pos, s.out ++ [c], s.stores⟩
  else convert args (directive args s.fmt s.pos) s

/-- At most the given number of turns of the loop of `vsprintf`. -/
def vsprintfLoop (args : VaList) : ℕ → State → Except Fault State
  | 0, s => Except.ok s
  | n + 1, s =>
      match s.fmt with
      | [] => Except.ok s
      | c :: fmt => do
          let s ← turn args c { s with fmt := fmt }
          vsprintfLoop args n s

/-- The variables before the first turn. -/
def start (fmt : List Char) : State := ⟨fmt, 0, [], []⟩

/-- `vsprintf`: each turn moves the cursor, so the loop ends after so many. -/
def vsprintf (fmt : List Char) (args : VaList) : Except Fault State :=
  vsprintfLoop args fmt.length (start fmt)

section Loop

variable {args : VaList} {s s' : State} {c : Char} {fmt : List Char} {n m : ℕ}

theorem vsprintfLoop_succ (h : s.fmt = c :: fmt) :
    vsprintfLoop args (n + 1) s = turn args c { s with fmt := fmt } >>= vsprintfLoop args n := by
  rw [vsprintfLoop, h]

/-- Nothing happens behind the end of the format. -/
theorem vsprintfLoop_nil (h : s.fmt = []) (n : ℕ) : vsprintfLoop args n s = Except.ok s := by
  cases n with
  | zero => rfl
  | succ n => rw [vsprintfLoop, h]

/-- More turns change nothing once the loop has come to the end. -/
theorem vsprintfLoop_of_end (hnm : n ≤ m) (h : vsprintfLoop args n s = Except.ok s')
    (hs' : s'.fmt = []) : vsprintfLoop args m s = Except.ok s' := by
  induction n generalizing m s with
  | zero =>
      obtain rfl : s = s' := by simpa [vsprintfLoop] using h
      exact vsprintfLoop_nil hs' m
  | succ n ih =>
      obtain ⟨m, rfl⟩ : ∃ m', m = m' + 1 := ⟨m - 1, by omega⟩
      cases hfmt : s.fmt with
      | nil => rwa [vsprintfLoop_nil hfmt] at h ⊢
      | cons c fmt =>
          rw [vsprintfLoop_succ hfmt] at h ⊢
          cases hrun : turn args c { s with fmt := fmt } with
          | error e =>
              rw [hrun] at h
              cases h
          | ok s₁ =>
              rw [hrun] at h
              exact ih (by omega) h

end Loop

/-! ### The log -/

/-- `sizeof(buf)`. -/
def bufSize : ℕ := 1024

/-- `vprintk`: its result, and what it hands to `kcon_write`. -/
def vprintk (kernLogLevel lvl : ℕ) (fmt : List Char) (args : VaList) :
    Except Fault (ℤ × Option (List Char)) := do
  let s ← vsprintf fmt args
  if s.out.length + 1 > bufSize then Except.error Fault.overrun
  else
    let ret : ℤ := s.out.length
    let text := s.out.take (min ret (bufSize - 1)).toNat
    Except.ok (ret, if ret > 0 ∧ lvl ≤ kernLogLevel then some text else none)

end Stdio

end SyncKernel
