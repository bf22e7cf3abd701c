/-
**Reading numbers back** (`fmt_setnum`, `str_num`).

The text of a directive for an integer is read back: a sign, a prefix, and digits of the base of the
directive.

`fmt_setnum` converts the argument.  For the modifier `h` it tests the sign of a number that has been
converted to `u16`, which is never negative: a negative short is printed as a 64-bit number.

Main definitions:

* `Stdio.readNumber` — reading a number with a sign and a prefix;
* `Stdio.IntDirective`, `Stdio.IntDirective.argument` — a directive for an integer, and the argument that
  it converts;
* `Stdio.ReadsBack` — the text of a directive is read back as its argument.

Main results:

* `Stdio.readNumber_append` — the sign, the prefix and the digits are found;
* `Stdio.readsBack_iff` — **when the text of a directive gives its argument**.
-/

import SyncKernel.Stdio.Format

set_option relaxedAutoImplicit false
set_option autoImplicit false

namespace SyncKernel

namespace Stdio

/-! ### Reading -/

/-- A sign at the start of a text: it is a minus, and what is behind it. -/
def readSign : List Char → Bool × List Char
  | '-' :: text => (true, text)
  | '+' :: text => (false, text)
  | ' ' :: text => (false, text)
  | text => (false, text)

/-- What is behind the prefix of a hexadecimal number. -/
def dropPrefix : Base → List Char → List Char
  | Base.hex, '0' :: 'x' :: text => text
  | Base.hex, '0' :: 'X' :: text => text
  | _, text => text

/-- The value of a number: a sign, a prefix, and one digit or more. -/
def readNumber (base : Base) (text : List Char) : Option ℤ :=
  let digits := dropPrefix base (readSign text).2
  if digits = [] then none
  else (readNat base digits).map fun n => if (readSign text).1 then -(n : ℤ) else n

/-! ### Directives -/

/-- A directive `%[flags][h or l]letter` for an integer. -/
structure IntDirective where
  flags : List Flag
  ext : Ext
  conv : Conv
  int : conv ≠ Conv.s ∧ conv ≠ Conv.c

namespace IntDirective

/-- The directive, without a width and a precision. -/
def field (d : IntDirective) : Field where
  flags := d.flags
  width := Amount.absent
  prec := Amount.absent
  ext := d.ext
  conv := d.conv
  width_first := fun _ h => by cases h

/-- The conversion is to a signed type. -/
def Signed (d : IntDirective) : Prop := d.conv.Signed

instance (d : IntDirective) : Decidable d.Signed := inferInstanceAs (Decidable d.conv.Signed)

/-- The argument, converted to the type of the directive. -/
def argument (d : IntDirective) (slot : ℕ) : ℤ := d.conv.argument d.ext slot

end IntDirective

/-- From any state in front of the directive, the loop writes a text that is read back as the argument, and
goes on behind the directive and the argument. -/
def ReadsBack (args : VaList) (d : IntDirective) (pos : ℕ) : Prop :=
  ∃ text, readNumber d.conv.base text = some (d.argument (args.slot pos)) ∧
    ∀ n fmt out stores, vsprintfLoop args (n + 1) ⟨'%' :: (d.field.text ++ fmt), pos, out, stores⟩ =
      vsprintfLoop args n ⟨fmt, pos + 1, out ++ text, stores⟩

/-- The argument is no negative short. -/
def NoShort (args : VaList) (d : IntDirective) (pos : ℕ) : Prop :=
  d.ext = Ext.ext16 → d.Signed → args.slot pos % 2 ^ 16 < 2 ^ 15

section Directives

variable {args : VaList} {d : IntDirective} {pos : ℕ}

/-- The flags of a directive for an integer. -/
def IntDirective.allFlags (d : IntDirective) : Flags := d.conv.flags (d.flags.foldl Flag.set {})

theorem IntDirective.sign_allFlags (d : IntDirective) : d.allFlags.sign = decide d.Signed :=
  d.conv.sign_flags (sign_foldl d.flags rfl)

/-- The text that is written. -/
def IntDirective.render (d : IntDirective) (slot : ℕ) : List Char :=
  strNum (fmtSetnum d.ext d.allFlags slot).1 (fmtSetnum d.ext d.allFlags slot).2 d.conv.base 0 (-1) d.allFlags

/-- **A turn** over the directive. -/
theorem vsprintfLoop_int (args : VaList) (d : IntDirective) (n pos : ℕ) (fmt out : List Char)
    (stores : List (ℕ × ℤ)) :
    vsprintfLoop args (n + 1) ⟨'%' :: (d.field.text ++ fmt), pos, out, stores⟩ =
      vsprintfLoop args n ⟨fmt, pos + 1, out ++ d.render (args.slot pos), stores⟩ := by
  have hturn : turn args '%' ⟨d.field.text ++ fmt, pos, out, stores⟩ =
      Except.ok ⟨fmt, pos + 1, out ++ d.render (args.slot pos), stores⟩ := by
    rw [turn, if_neg (by simp), directive_letter (fun _ h => by cases h) rfl,
      convert_int d.int.1 d.int.2]
    rfl
  rw [vsprintfLoop_succ rfl, hturn]
  rfl

/-! ### Reading a directive back -/

/-- No digit is a sign or the letter of a prefix. -/
theorem readDigit_mark {base : Base} {c : Char} {m : ℕ} (h : readDigit base c = some m) :
    c ≠ '-' ∧ c ≠ '+' ∧ c ≠ ' ' ∧ c ≠ 'x' ∧ c ≠ 'X' := by
  refine ⟨?_, ?_, ?_, ?_, ?_⟩ <;> (rintro rfl; cases base <;> cases h)

/-- Digits have no sign. -/
theorem readSign_digits {base : Base} {text : List Char} {m : ℕ} (h : readNat base text = some m) :
    readSign text = (false, text) := by
  cases text with
  | nil => rfl
  | cons c text =>
      obtain ⟨k, hk⟩ := readDigit_of_readFrom h
      obtain ⟨hminus, hplus, hspace, -, -⟩ := readDigit_mark hk
      rw [readSign]
      · exact fun _ heq => hminus (List.cons.inj heq).1
      · exact fun _ heq => hplus (List.cons.inj heq).1
      · exact fun _ heq => hspace (List.cons.inj heq).1

/-- Digits have no prefix. -/
theorem dropPrefix_digits {base : Base} {text : List Char} {m : ℕ} (h : readNat base text = some m) :
    dropPrefix base text = text := by
  cases base with
  | oct => rfl
  | dec => rfl
  | hex =>
      match text, h with
      | [], _ => rfl
      | [c], _ =>
          rw [dropPrefix]
          · exact fun _ _ heq => by cases heq
          · exact fun _ _ heq => by cases heq
      | c :: c' :: text, h =>
          obtain ⟨k, hk⟩ := readDigit_of_readFrom h
          rw [readNat, readFrom, List.foldlM_cons, hk] at h
          obtain ⟨k', hk'⟩ := readDigit_of_readFrom h
          obtain ⟨-, -, -, hx, hX⟩ := readDigit_mark hk'
          rw [dropPrefix]
          · intro _ _ heq
            exact hx (List.cons.inj (List.cons.inj heq).2).1
          · intro _ _ heq
            exact hX (List.cons.inj (List.cons.inj heq).2).1

/-- Digits behind a prefix. -/
theorem readNat_prefixText {base : Base} {flags : Flags} {digits : List Char} {m : ℕ}
    (h : readNat base digits = some m) (hne : digits ≠ []) :
    readNat base (dropPrefix base (prefixText flags base ++ digits)) = some m ∧
      dropPrefix base (prefixText flags base ++ digits) ≠ [] ∧
      readSign (prefixText flags base ++ digits) = (false, prefixText flags base ++ digits) := by
  have hnone : readNat base (dropPrefix base ([] ++ digits)) = some m ∧ dropPrefix base ([] ++ digits) ≠ [] ∧
      readSign ([] ++ digits) = (false, [] ++ digits) := by
    rw [List.nil_append, dropPrefix_digits h, readSign_digits h]
    exact ⟨h, hne, rfl⟩
  unfold prefixText
  cases base with
  | dec => exact hnone
  | oct =>
      cases flags.spec with
      | false => exact hnone
      | true => exact ⟨(readNat_replicate_zero Base.oct 1 digits).trans h, List.cons_ne_nil _ _, rfl⟩
  | hex =>
      cases flags.spec with
      | false => exact hnone
      | true => cases flags.lower <;> exact ⟨h, hne, rfl⟩

/-- A number without a sign, and with each of them. -/
theorem readNumber_sign {base : Base} {text : List Char} {m : ℕ}
    (hnat : readNat base (dropPrefix base text) = some m)
    (hne : dropPrefix base text ≠ []) (hsign : readSign text = (false, text)) :
    readNumber base text = some (m : ℤ) ∧ readNumber base ('-' :: text) = some (-(m : ℤ)) ∧
      readNumber base ('+' :: text) = some (m : ℤ) ∧ readNumber base (' ' :: text) = some (m : ℤ) := by
  have hmark : ∀ text' b, readSign text' = (b, text) →
      readNumber base text' = some (if b then -(m : ℤ) else m) := by
    intro text' b hc
    rw [readNumber, hc]
    dsimp only
    rw [if_neg hne, hnat]
    rfl
  exact ⟨hmark text false hsign, hmark _ true rfl, hmark _ false rfl, hmark _ false rfl⟩

/-- What `readNumber` finds behind the sign and the prefix. -/
theorem readNumber_append {base : Base} {flags : Flags} {negative : Bool} {digits : List Char} {m : ℕ}
    (h : readNat base digits = some m) (hne : digits ≠ []) :
    readNumber base (signText negative flags ++ prefixText flags base ++ digits) =
      some (if flags.sign && negative then -(m : ℤ) else m) := by
  obtain ⟨hnat, hbehind, hsign⟩ : _ ∧ _ ∧ readSign (prefixText flags base ++ digits) = _ :=
    readNat_prefixText h hne
  obtain ⟨hplain, hminus, hplus, hspace⟩ := readNumber_sign hnat hbehind hsign
  rw [List.append_assoc]
  unfold signText
  cases flags.sign with
  | false => exact hplain
  | true =>
      cases negative with
      | true => exact hminus
      | false =>
          cases flags.plus with
          | true => exact hplus
          | false =>
              cases flags.space with
              | true => exact hspace
              | false => exact hplain

/-- The number that is printed for a signed type. -/
def printed (n : ℕ × Bool) : ℤ := if n.2 then -(u64 (-n.1) : ℤ) else n.1

/-- The number that is read back. -/
theorem readNumber_render (d : IntDirective) (slot : ℕ) :
    readNumber d.conv.base (d.render slot) =
      some (if d.Signed then printed (fmtSetnum d.ext d.allFlags slot)
        else (fmtSetnum d.ext d.allFlags slot).1) := by
  have hlt := fmtSetnum_lt d.ext d.allFlags slot
  have hroom : room (fmtSetnum d.ext d.allFlags slot).1 (fmtSetnum d.ext d.allFlags slot).2 d.conv.base 0 (-1)
      d.allFlags = 0 := by
    unfold room tightLength
    omega
  have hne : digitText (fmtSetnum d.ext d.allFlags slot).1 (fmtSetnum d.ext d.allFlags slot).2 d.conv.base (-1)
      d.allFlags ≠ [] := digitText_ne_nil (by decide)
  rw [IntDirective.render, strNum_eq hlt, hroom]
  simp only [ite_self, List.replicate_zero, List.nil_append, List.append_nil]
  rw [readNumber_append ((readNat_replicate_zero _ _ _).trans (readNat_digitText hlt))
    (List.append_ne_nil_of_right_ne_nil _ hne), magnitudeOf, d.sign_allFlags, printed]
  by_cases hs : d.Signed <;> cases (fmtSetnum d.ext d.allFlags slot).2 <;> simp [hs]

theorem u64_cast (t : ℤ) : (u64 t : ℤ) = t % 2 ^ 64 := Int.toNat_of_nonneg (Int.emod_nonneg t (by decide))

/-- A number of 64 bits is printed with its sign. -/
theorem printed_word {t : ℤ} (h : -2 ^ 63 ≤ t) (h' : t < 2 ^ 63) : printed (u64 t, decide (t < 0)) = t := by
  rw [printed]
  by_cases hneg : t < 0
  · rw [if_pos (decide_eq_true hneg), u64_cast, u64_cast]
    omega
  · rw [if_neg (by simpa using hneg), u64_cast]
    omega

/-- **The number that is read back** is the argument, except for a negative short. -/
theorem printed_eq_iff (d : IntDirective) (slot : ℕ) :
    (if d.Signed then printed (fmtSetnum d.ext d.allFlags slot) else (fmtSetnum d.ext d.allFlags slot).1) =
        d.argument slot ↔ (d.ext = Ext.ext16 → d.Signed → slot % 2 ^ 16 < 2 ^ 15) := by
  obtain ⟨hlo, hhi, hsigned, hunsigned⟩ := d.conv.argument_bounds d.ext slot
  by_cases hshort : d.ext = Ext.ext16 ∧ d.conv.Signed ∧ 2 ^ 15 ≤ slot % 2 ^ 16
  · -- the sign is that of a number without one
    obtain ⟨hext, hs, hle⟩ := hshort
    obtain ⟨hnum, hneg⟩ := fmtSetnum_short d.sign_allFlags hs hle
    refine iff_of_false (fun heq => ?_) fun h => absurd (h hext hs) (Nat.not_lt.2 hle)
    rw [if_pos (show d.Signed from hs), IntDirective.argument, hext, hnum, printed, if_neg Bool.false_ne_true] at heq
    exact absurd hneg (not_lt.2 (heq ▸ Int.natCast_nonneg _))
  · have hlt : d.ext = Ext.ext16 → d.Signed → slot % 2 ^ 16 < 2 ^ 15 := fun hext hs =>
      Nat.not_le.1 fun hle => hshort ⟨hext, hs, hle⟩
    refine iff_of_true ?_ hlt
    rw [fmtSetnum_argument d.sign_allFlags hshort, IntDirective.argument]
    by_cases hs : d.Signed
    · rw [if_pos hs, printed_word hlo (hsigned hs)]
    · have hnonneg := hunsigned hs
      rw [if_neg hs, u64_cast]
      omega

end Directives

/-- **When the text of a directive gives its argument.** -/
theorem readsBack_iff (args : VaList) (d : IntDirective) (pos : ℕ) :
    ReadsBack args d pos ↔ NoShort args d pos := by
  rw [NoShort, ← printed_eq_iff d (args.slot pos)]
  constructor
  · rintro ⟨text, hread, hloop⟩
    have hone := hloop 0 [] [] []
    rw [vsprintfLoop_int, vsprintfLoop, vsprintfLoop] at hone
    have htext : d.render (args.slot pos) = text := congrArg State.out (Except.ok.inj hone)
    rw [← htext, readNumber_render] at hread
    exact Option.some_inj.1 hread
  · intro heq
    exact ⟨d.render (args.slot pos), by rw [readNumber_render, heq], fun n fmt out stores =>
      vsprintfLoop_int args d n pos fmt out stores⟩

/-- The directive `%hd`. -/
def shortDirective : IntDirective := ⟨[], Ext.ext16, Conv.d, by decide⟩

/-- **The short minus one** is printed as a 64-bit number. -/
theorem not_readsBack_short :
    (vsprintf ('%' :: shortDirective.field.text) ⟨fun _ => 2 ^ 32 - 1, fun _ => []⟩).map State.out =
        Except.ok "18446744073709551615".toList ∧
      shortDirective.argument (2 ^ 32 - 1) = -1 ∧
      ¬ ReadsBack ⟨fun _ => 2 ^ 32 - 1, fun _ => []⟩ shortDirective 0 := by
  refine ⟨by rfl, by decide, ?_⟩
  rintro ⟨text, hread, hloop⟩
  have hone := hloop 0 [] [] []
  rw [vsprintfLoop_int, vsprintfLoop, vsprintfLoop] at hone
  have htext : shortDirective.render (2 ^ 32 - 1) = text := congrArg State.out (Except.ok.inj hone)
  rw [← htext, readNumber_render] at hread
  exact absurd (Option.some_inj.1 hread) (by decide)

end Stdio

end SyncKernel
