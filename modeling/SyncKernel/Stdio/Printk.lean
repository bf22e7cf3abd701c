/-
**The safety of the log** (`vprintk`).

Whatever the format, `vsprintf` takes it apart in the same way for all arguments: into literal
characters and directives, each of which is known by its flags, by the stars in it, by its modifier
and by the letter that the switch meets.  From these pieces one can tell how many arguments each
takes and how many characters it writes.

A run goes wrong in three ways only.  A directive that the format ends in takes the cursor over the
NUL; a `%c` that is not justified to the left counts its width down past zero; and the text is put
into a buffer of 1024 bytes, however long it is.

Main definitions:

* `Stdio.Scan`, `Stdio.Piece`, `Stdio.pieces` — the pieces of any format;
* `Stdio.place` — the pieces with their arguments;
* `Stdio.Piece.length` — the number of characters a piece writes;
* `Stdio.Loggable` — the formats and arguments that are safe.

Main results:

* `Stdio.turn_piece` — a turn goes over one piece, or stops;
* `Stdio.vprintk_safe_iff` — `vprintk` is safe exactly for these.
-/

import SyncKernel.Stdio.Number

set_option relaxedAutoImplicit false
set_option autoImplicit false

namespace SyncKernel

namespace Stdio

/-! ### The pieces of a format -/

/-- What a directive looks like, whatever the arguments: its flags, whether its width is a star,
whether a dot and a star follow, its modifier, and its letter, if the format does not end before. -/
structure Scan where
  flags : Flags
  star : Bool
  dotStar : Bool
  ext : Ext
  letter : Option Char

/-- The format behind a star. -/
def dropStar (fmt : List Char) : Bool × List Char :=
  if fmt.head? = some '*' then (true, fmt.tail) else (false, fmt)

/-- The directive behind a `%`, and the format behind the directive. -/
def scan (fmt : List Char) : Scan × List Char :=
  let (flags, fmt) := fmtSetflags {} fmt
  let (star, fmt) := dropStar fmt
  let dotStar := decide (fmt.take 2 = ['.', '*'])
  let (ext, fmt) := fmtSetext fmt
  (⟨flags, star, dotStar, ext, fmt.head?⟩, fmt.tail)

/-- A literal character, or a directive. -/
inductive Piece
  | char
  | directive (d : Scan)

/-- The piece at the character `c`, and the format behind it. -/
def pieceAt (c : Char) (fmt : List Char) : Piece × List Char :=
  if c ≠ '%' then (Piece.char, fmt) else (Piece.directive (scan fmt).1, (scan fmt).2)

/-- At most the given number of pieces. -/
def piecesLoop : ℕ → List Char → List Piece
  | 0, _ => []
  | _ + 1, [] => []
  | n + 1, c :: fmt => (pieceAt c fmt).1 :: piecesLoop n (pieceAt c fmt).2

/-- The pieces of a format. -/
def pieces (fmt : List Char) : List Piece := piecesLoop fmt.length fmt

/-! ### Arguments and lengths -/

/-- The number of arguments that the letter takes. -/
def letterTakes : Option Char → ℕ
  | none => 0
  | some c =>
      match c with
      | 's' => 2
      | 'c' | 'd' | 'i' | 'u' | 'o' | 'x' | 'X' | 'n' | 'p' => 1
      | _ => 0

namespace Scan

/-- The argument for the letter, where those of the directive begin at `pos`. -/
def arg (d : Scan) (pos : ℕ) : ℕ := pos + d.star.toNat + d.dotStar.toNat

/-- The width of a directive, negative when the argument for it is. -/
def width (d : Scan) (args : VaList) (pos : ℕ) : ℤ := if d.star then i32 (args.slot pos) else 0

/-- The flags of a directive; a negative width stands for a minus sign. -/
def allFlags (d : Scan) (args : VaList) (pos : ℕ) : Flags :=
  { d.flags with left := d.flags.left || decide (d.width args pos < 0) }

end Scan

/-- The number of characters of a number. -/
def numberLength (n : ℕ) (negative : Bool) (base : Base) (width : ℤ) (flags : Flags) : ℕ :=
  (max width ((signOf negative flags).toList.length + (prefixOf base flags).length +
    digitCount base (magnitudeOf n negative flags) (-1) : ℕ)).toNat

/-- The number of characters of a number from an argument. -/
def Scan.numLength (d : Scan) (slot : ℕ) (base : Base) (width : ℤ) (flags : Flags) : ℕ :=
  numberLength (fmtSetnum d.ext flags slot).1 (fmtSetnum d.ext flags slot).2 base width flags

/-- The number of characters of a string and of the number behind it. -/
def Scan.strLength (d : Scan) (args : VaList) (pos : ℕ) : ℕ :=
  let flags := d.allFlags args pos
  let width : ℤ := (d.width args pos).natAbs
  let len := strnlen (args.str (args.slot (d.arg pos))) (-1)
  let slot := args.slot (d.arg pos + 1)
  if flags.left then len + d.numLength slot Base.dec width flags
  else max width.toNat len + d.numLength slot Base.dec (min width len - 2) flags

/-- The number of characters that a directive writes, by its letter. -/
def Scan.letterLength (d : Scan) (args : VaList) (pos : ℕ) (letter : Char) : ℕ :=
  let flags := d.allFlags args pos
  let width : ℤ := (d.width args pos).natAbs
  let slot := args.slot (d.arg pos)
  match letter with
  | 'c' => 1
  | 's' => d.strLength args pos
  | 'd' | 'i' => d.numLength slot Base.dec width { flags with sign := true }
  | 'u' => d.numLength slot Base.dec width flags
  | 'o' => d.numLength slot Base.oct width flags
  | 'x' => d.numLength slot Base.hex width { flags with lower := true }
  | 'X' => d.numLength slot Base.hex width flags
  | 'p' => numberLength (u64 slot) false Base.hex width flags
  | 'n' => 0
  | '%' => 1
  | _ => 2

namespace Piece

/-- The number of arguments that a piece takes. -/
def takes : Piece → ℕ
  | char => 0
  | directive d => d.star.toNat + d.dotStar.toNat + letterTakes d.letter

/-- The number of characters that a piece writes. -/
def length (args : VaList) (pos : ℕ) : Piece → ℕ
  | char => 1
  | directive d => (d.letter.map (d.letterLength args pos)).getD 0

/-- A directive has a letter, and is justified to the left if that is `c`. -/
def Handled (args : VaList) (pos : ℕ) : Piece → Prop
  | char => True
  | directive d =>
      d.letter ≠ none ∧ (d.letter = some 'c' → (d.allFlags args pos).left = true)

end Piece

/-- The pieces with their arguments: each with the number of those in front of it. -/
def place (pos : ℕ) : List Piece → List (ℕ × Piece)
  | [] => []
  | p :: ps => (pos, p) :: place (pos + p.takes) ps

/-- The number of characters that the pieces write. -/
def textLength (args : VaList) (ps : List (ℕ × Piece)) : ℕ :=
  (ps.map fun p => p.2.length args p.1).sum

/-- **What is safe to log.**  No directive is cut off by the end of the format, each `%c` is justified
to the left, and the text and its NUL have room in the buffer. -/
structure Loggable (fmt : List Char) (args : VaList) : Prop where
  handled : ∀ p ∈ place 0 (pieces fmt), p.2.Handled args p.1
  room : textLength args (place 0 (pieces fmt)) < bufSize

/-! ### The helpers on any format -/

section Helpers

variable (args : VaList)

/-- `fmt_setprec` takes an argument for a dot and a star, and finds no precision without a dot. -/
theorem fmtSetprec_scan (pos : ℕ) (fmt : List Char) :
    (fmtSetprec args pos fmt).2 = pos + (decide (fmt.take 2 = ['.', '*'])).toNat ∧
      (fmt.head? ≠ some '.' → (fmtSetprec args pos fmt).1 = -1) := by
  cases fmt with
  | nil => simp [fmtSetprec]
  | cons c fmt =>
      by_cases hc : c = '.'
      · subst hc
        refine ⟨?_, fun h => absurd rfl h⟩
        cases fmt with
        | nil => simp [fmtSetprec, precAfterDot]
        | cons c' fmt =>
            by_cases hd : c'.isDigit
            · have hstar : c' ≠ '*' := fun h => by simp [h] at hd
              simp [fmtSetprec, precAfterDot, hd, hstar]
            · by_cases hstar : c' = '*'
              · simp [fmtSetprec, precAfterDot, hstar]
              · simp [fmtSetprec, precAfterDot, hd, hstar]
      · simp [fmtSetprec, hc]

/-- The letter behind a dot is the dot itself. -/
theorem fmtSetext_dot {fmt : List Char} (h : fmt.head? = some '.') :
    (fmtSetext fmt).2.head? = some '.' := by
  cases fmt with
  | nil => cases h
  | cons c fmt =>
      obtain rfl : c = '.' := by simpa using h
      rfl

/-- The letter at a digit is the digit itself. -/
theorem fmtSetext_digit {c : Char} {fmt : List Char} (h : c.isDigit) :
    (fmtSetext (c :: fmt)).2 = c :: fmt := by
  have hh : c ≠ 'h' := fun hc => by simp [hc] at h
  have hl : c ≠ 'l' := fun hc => by simp [hc] at h
  simp [fmtSetext, hh, hl]

/-- `fmt_setwidth` finds a star like `dropStar`, and a width when the cursor is at no digit. -/
theorem fmtSetwidth_scan (flags : Flags) (pos : ℕ) (fmt : List Char) :
    (fmtSetwidth args flags pos fmt).2 =
      ({ flags with left := flags.left || decide ((if (dropStar fmt).1 then i32 (args.slot pos) else 0) < 0) },
        (dropStar fmt).2, pos + (dropStar fmt).1.toNat) ∧
      ((∀ c, (dropStar fmt).2.head? = some c → c.isDigit = false) →
        (fmtSetwidth args flags pos fmt).1 =
          ((if (dropStar fmt).1 then i32 (args.slot pos) else 0) : ℤ).natAbs) := by
  cases fmt with
  | nil => simp [fmtSetwidth, dropStar]
  | cons c fmt =>
      by_cases hstar : c = '*'
      · subst hstar
        have hdrop : dropStar ('*' :: fmt) = (true, fmt) := rfl
        rw [fmtSetwidth_star, hdrop]
        simp only [if_true]
        generalize i32 (args.slot pos) = w
        by_cases h : w < 0
        · simp [h]
        · simp [h]
      · by_cases hd : c.isDigit
        · simp [fmtSetwidth, dropStar, hstar, hd]
        · simp [fmtSetwidth, dropStar, hstar, hd]

/-- The helpers find what the scan finds, with the arguments filled in. -/
theorem directive_scan (fmt : List Char) (pos : ℕ) :
    (directive args fmt pos).fmt = (scan fmt).1.letter.toList ++ (scan fmt).2 ∧
      (directive args fmt pos).ext = (scan fmt).1.ext ∧
      (directive args fmt pos).flags = (scan fmt).1.allFlags args pos ∧
      (directive args fmt pos).pos = (scan fmt).1.arg pos ∧
      ∀ c, (scan fmt).1.letter = some c → c.isDigit = false → c ≠ '.' →
        (directive args fmt pos).width = ((scan fmt).1.width args pos).natAbs ∧
          (directive args fmt pos).precision = -1 := by
  obtain ⟨hwidth, hwidth'⟩ := fmtSetwidth_scan args (fmtSetflags {} fmt).1 pos
    (fmtSetflags {} fmt).2
  unfold directive scan
  generalize hflags : fmtSetflags {} fmt = r at hwidth hwidth' ⊢
  obtain ⟨flags, fmt₁⟩ := r
  generalize hdrop : dropStar fmt₁ = r at hwidth hwidth' ⊢
  obtain ⟨star, fmt₂⟩ := r
  generalize hset : fmtSetwidth args flags pos fmt₁ = r at hwidth hwidth' ⊢
  obtain ⟨width, flags', fmt', pos'⟩ := r
  dsimp only at hwidth hwidth' hset ⊢
  rw [hset, hdrop]
  obtain ⟨rfl, rfl, rfl⟩ : flags' = _ ∧ fmt' = _ ∧ pos' = _ := by simpa using hwidth
  obtain ⟨hpos, hprec⟩ := fmtSetprec_scan args (pos + star.toNat) fmt'
  refine ⟨?_, rfl, rfl, hpos, fun c hletter hc hdot => ⟨hwidth' fun c' hc' => ?_, hprec fun h => ?_⟩⟩
  · cases (fmtSetext fmt').2 <;> rfl
  · cases hdigit : c'.isDigit with
    | false => rfl
    | true =>
        obtain ⟨fmt'', rfl⟩ : ∃ fmt'', fmt' = c' :: fmt'' := by
          cases fmt' with
          | nil => cases hc'
          | cons a fmt'' => exact ⟨fmt'', by simpa using hc'⟩
        rw [fmtSetext_digit hdigit, hc', Option.some.injEq] at hletter
        rw [← hletter, hdigit] at hc
        cases hc
  · rw [fmtSetext_dot h, Option.some.injEq] at hletter
    exact hdot hletter.symm

end Helpers

/-! ### One piece -/

section Turn

variable {args : VaList} {c : Char} {fmt : List Char} {pos : ℕ}

/-- The length of a number without a precision. -/
theorem length_strNum {n : ℕ} (h : n < 2 ^ 64) (negative : Bool) (base : Base) (width : ℤ)
    (flags : Flags) :
    (strNum n negative base width (-1) flags).length = numberLength n negative base width flags := by
  have hlen := strNum_length h negative base width (-1) flags
  unfold numberLength
  omega

theorem length_convNum (out : List Char) (d : Directive) (hp : d.precision = -1) (base : Base) :
    (convNum args d base out).length = out.length +
      numberLength (fmtSetnum d.ext d.flags (args.slot d.pos)).1
        (fmtSetnum d.ext d.flags (args.slot d.pos)).2 base d.width d.flags := by
  unfold convNum
  rw [List.length_append, hp, length_strNum (fmtSetnum_lt _ _ _)]

/-- The case `'s'`: its length and the width behind it. -/
theorem length_convStr (args : VaList) (out : List Char) (d : Directive) (hp : d.precision = -1) (hw : 0 ≤ d.width) :
    let len := strnlen (args.str (args.slot d.pos)) (-1)
    (convStr args d out).1.length =
        out.length + (if d.flags.left then len else max d.width.toNat len) ∧
      (convStr args d out).2 = if d.flags.left then d.width else min d.width len - 2 := by
  unfold convStr
  rw [hp]
  cases d.flags.left with
  | true => simp [strnlen]
  | false =>
      simp [padUntil, strnlen]
      omega

/-- **The switch** at a letter that the scan has found. -/
theorem convert_letter {D : Directive} {d : Scan} {a : Char} {rest : List Char} {s : State}
    (hfmt : D.fmt = a :: rest) (hext : D.ext = d.ext) (hflags : D.flags = d.allFlags args pos)
    (hpos : D.pos = d.arg pos)
    (hw : a.isDigit = false → a ≠ '.' →
      D.width = (d.width args pos).natAbs ∧ D.precision = -1)
    (hleft : a = 'c' → D.flags.left = true) :
    ∃ s', convert args D s = Except.ok s' ∧ s'.fmt = rest ∧
      s'.pos = d.arg pos + letterTakes (some a) ∧
      s'.out.length = s.out.length + d.letterLength args pos a := by
  obtain ⟨flags, width, precision, ext, fmt', pos'⟩ := D
  dsimp only at hfmt hext hflags hpos hw hleft
  subst hfmt hext hflags hpos
  unfold convert
  dsimp only
  split
  · obtain ⟨rfl, rfl⟩ := hw rfl (by decide)
    rw [convChar_left (hleft rfl)]
    exact ⟨_, rfl, rfl, rfl, by simp [Scan.letterLength]⟩
  case h_2 =>
    -- a string, and the number behind it
    obtain ⟨rfl, rfl⟩ := hw rfl (by decide)
    refine ⟨_, rfl, rfl, rfl, ?_⟩
    rw [length_convNum _ _ rfl]
    obtain ⟨hlen, hwidth⟩ := length_convStr args s.out ⟨d.allFlags args pos,
      (d.width args pos).natAbs, -1, d.ext, 's' :: rest, d.arg pos⟩ rfl (Int.natCast_nonneg _)
    rw [hlen, hwidth, Scan.letterLength, Scan.strLength, Nat.add_assoc]
    dsimp only
    cases (d.allFlags args pos).left <;> rfl
  case h_7 => exact ⟨_, rfl, rfl, rfl, by simp [Scan.letterLength]⟩
  case h_10 =>
    -- a pointer
    obtain ⟨rfl, rfl⟩ := hw rfl (by decide)
    have hne : ((d.width args pos).natAbs : ℤ) ≠ -1 := by omega
    refine ⟨_, rfl, rfl, rfl, ?_⟩
    simp only [convPtr, hne, if_false, List.length_append, length_strNum (u64_lt _),
      Scan.letterLength]
  case h_11 => exact ⟨_, rfl, rfl, rfl, by simp [Scan.letterLength]⟩
  case h_12 => exact ⟨_, rfl, rfl, by simp [letterTakes, *], by simp [Scan.letterLength, *]⟩
  all_goals
    obtain ⟨rfl, rfl⟩ := hw rfl (by decide)
    exact ⟨_, rfl, rfl, rfl, length_convNum _ _ rfl _⟩

/-- **A turn over a piece** that is handled goes to the format behind it, over its arguments, and
writes as many characters as it has. -/
theorem turn_piece (out : List Char) (stores : List (ℕ × ℤ))
    (h : (pieceAt c fmt).1.Handled args pos) :
    ∃ s', turn args c ⟨fmt, pos, out, stores⟩ = Except.ok s' ∧ s'.fmt = (pieceAt c fmt).2 ∧
      s'.pos = pos + (pieceAt c fmt).1.takes ∧
      s'.out.length = out.length + (pieceAt c fmt).1.length args pos := by
  unfold turn pieceAt at *
  by_cases hc : c ≠ '%'
  · rw [if_pos hc] at h ⊢
    rw [if_pos hc]
    exact ⟨_, rfl, rfl, rfl, by simp [Piece.length]⟩
  · rw [if_neg hc] at h ⊢
    rw [if_neg hc]
    obtain ⟨hfmt, hext, hflags, hpos, hw⟩ := directive_scan args fmt pos
    obtain ⟨hletter, hleft⟩ := h
    obtain ⟨a, ha⟩ := Option.ne_none_iff_exists'.1 hletter
    obtain ⟨s', hrun, hfmt', hpos', hout⟩ := convert_letter (s := ⟨fmt, pos, out, stores⟩)
      (by rw [hfmt, ha]; rfl) hext hflags hpos (hw a ha) (fun h => hflags ▸ hleft (h ▸ ha))
    refine ⟨s', hrun, hfmt', ?_, ?_⟩
    · rw [hpos', Piece.takes, ha, Scan.arg]
      omega
    · rw [hout, Piece.length, ha]
      rfl

theorem scan_none (h : (scan fmt).1.letter = none) : (scan fmt).2 = [] := by
  simp only [scan, List.head?_eq_none_iff] at h
  simp [scan, h]

/-- A turn over a piece that is not handled stops. -/
theorem turn_piece_error (out : List Char) (stores : List (ℕ × ℤ))
    (h : ¬ (pieceAt c fmt).1.Handled args pos) :
    ∃ e, turn args c ⟨fmt, pos, out, stores⟩ = Except.error e := by
  unfold turn pieceAt at *
  by_cases hc : c ≠ '%'
  · rw [if_pos hc] at h
    exact absurd trivial h
  · rw [if_neg hc] at h ⊢
    obtain ⟨hfmt, -, hflags, -, -⟩ := directive_scan args fmt pos
    cases hletter : (scan fmt).1.letter with
    | none =>
        -- the format ends in the directive
        rw [hletter, scan_none hletter] at hfmt
        exact ⟨Fault.pastNul, by rw [convert, hfmt]; rfl⟩
    | some a =>
        have hc : a = 'c' ∧ ((scan fmt).1.allFlags args pos).left = false := by
          simpa [Piece.Handled, hletter] using h
        obtain ⟨rfl, hleft⟩ := hc
        obtain ⟨e, he⟩ := convChar_right args out (hflags ▸ hleft)
        rw [hletter] at hfmt
        refine ⟨e, ?_⟩
        rw [convert, hfmt]
        simp [he]
        rfl

theorem length_fmtSetflags_le (flags : Flags) (fmt : List Char) :
    (fmtSetflags flags fmt).2.length ≤ fmt.length := by
  induction fmt generalizing flags with
  | nil => exact Nat.le_refl _
  | cons c fmt ih =>
      rw [fmtSetflags]
      cases setFlag flags c with
      | none => exact Nat.le_refl _
      | some flags' => exact (ih flags').trans (Nat.le_succ _)

theorem length_pieceAt_le (c : Char) (fmt : List Char) : (pieceAt c fmt).2.length ≤ fmt.length := by
  unfold pieceAt
  split
  · exact Nat.le_refl _
  · have hflags := length_fmtSetflags_le {} fmt
    have hstar : ∀ fmt, (dropStar fmt).2.length ≤ fmt.length := fun fmt => by
      unfold dropStar
      split <;> simp
    have hext : ∀ fmt, (fmtSetext fmt).2.length ≤ fmt.length := fun fmt => by
      cases fmt with
      | nil => exact Nat.le_refl _
      | cons c fmt =>
          by_cases hh : c = 'h'
          · simp [fmtSetext, hh]
          · by_cases hl : c = 'l'
            · simp [fmtSetext, hl]
            · simp [fmtSetext, hh, hl]
    have hstar' := hstar (fmtSetflags {} fmt).2
    have hext' := hext (dropStar (fmtSetflags {} fmt).2).2
    simp only [scan, List.length_tail]
    omega

end Turn

/-! ### The whole format -/

section Loop

variable {args : VaList} {n : ℕ} {s s' : State}

/-- A run over pieces that are handled comes to the end of the format, and writes as many characters
as they have. -/
theorem vsprintfLoop_pieces (hn : s.fmt.length ≤ n)
    (h : ∀ p ∈ place s.pos (piecesLoop n s.fmt), p.2.Handled args p.1) :
    ∃ s', vsprintfLoop args n s = Except.ok s' ∧ s'.fmt = [] ∧
      s'.out.length = s.out.length + textLength args (place s.pos (piecesLoop n s.fmt)) := by
  induction n generalizing s with
  | zero =>
      have hfmt : s.fmt = [] := List.length_eq_zero_iff.1 (Nat.le_zero.1 hn)
      exact ⟨s, rfl, hfmt, by simp [piecesLoop, place, textLength]⟩
  | succ n ih =>
      cases hfmt : s.fmt with
      | nil => exact ⟨s, vsprintfLoop_nil hfmt _, hfmt, by simp [piecesLoop, place, textLength]⟩
      | cons c fmt =>
          rw [hfmt, piecesLoop, place] at h
          obtain ⟨s₁, hrun, hfmt₁, hpos₁, hout₁⟩ := turn_piece s.out s.stores
            (h _ List.mem_cons_self)
          have hn₁ : s₁.fmt.length ≤ n := by
            have := length_pieceAt_le c fmt
            rw [hfmt, List.length_cons] at hn
            rw [hfmt₁]
            omega
          obtain ⟨s₂, hrun₂, hend, hout₂⟩ := ih hn₁ fun p hp =>
            h p (List.mem_cons_of_mem _ (by rwa [hfmt₁, hpos₁] at hp))
          refine ⟨s₂, ?_, hend, ?_⟩
          · rw [vsprintfLoop_succ hfmt, hrun]
            exact hrun₂
          · rw [hout₂, hout₁, hfmt₁, hpos₁, piecesLoop, place, textLength, textLength, List.map_cons,
              List.sum_cons, Nat.add_assoc]

/-- A run over other pieces stops. -/
theorem vsprintfLoop_error (h : ¬ ∀ p ∈ place s.pos (piecesLoop n s.fmt), p.2.Handled args p.1) :
    ∃ e, vsprintfLoop args n s = Except.error e := by
  induction n generalizing s with
  | zero => exact absurd (by simp [piecesLoop, place]) h
  | succ n ih =>
      cases hfmt : s.fmt with
      | nil => exact absurd (by simp [hfmt, piecesLoop, place]) h
      | cons c fmt =>
          rw [hfmt, piecesLoop, place, List.forall_mem_cons] at h
          rw [vsprintfLoop_succ hfmt]
          by_cases hc : (pieceAt c fmt).1.Handled args s.pos
          · obtain ⟨s₁, hrun, hfmt₁, hpos₁, -⟩ := turn_piece s.out s.stores hc
            rw [hrun]
            exact ih fun h' => h ⟨hc, by rwa [hfmt₁, hpos₁] at h'⟩
          · obtain ⟨e, he⟩ := turn_piece_error s.out s.stores hc
            rw [he]
            exact ⟨e, rfl⟩

/-- **The safety of the log** (`vprintk`).  Whatever the format and the arguments, the call returns
without a read behind the NUL of the format and without a write behind the end of the buffer if and
only if no directive is cut off by the end of the format, each `%c` is justified to the left, and the
text is shorter than the buffer. -/
theorem vprintk_safe_iff (kernLogLevel lvl : ℕ) (fmt : List Char) (args : VaList) :
    (∃ r, vprintk kernLogLevel lvl fmt args = Except.ok r) ↔ Loggable fmt args := by
  by_cases h : ∀ p ∈ place 0 (pieces fmt), p.2.Handled args p.1
  · obtain ⟨s, hrun, -, hout⟩ := vsprintfLoop_pieces (s := start fmt) le_rfl h
    have hlen : s.out.length = textLength args (place 0 (pieces fmt)) := by
      simpa [start, pieces] using hout
    have hvs : vsprintf fmt args = Except.ok s := hrun
    rw [vprintk, hvs]
    by_cases hroom : s.out.length + 1 > bufSize
    · refine iff_of_false ?_ fun hlog => absurd hlog.room (by omega)
      rintro ⟨r, hr⟩
      simp [bind, Except.bind, hroom] at hr
    · refine iff_of_true ?_ ⟨h, by omega⟩
      simp [bind, Except.bind, hroom]
  · refine iff_of_false ?_ fun hlog => h hlog.handled
    obtain ⟨e, he⟩ := vsprintfLoop_error (s := start fmt) h
    have hvs : vsprintf fmt args = Except.error e := he
    rw [vprintk, hvs]
    rintro ⟨r, hr⟩
    cases hr

/-- A format that ends in a `%` is read behind its NUL, and a plain `%c` is never done. -/
theorem vprintk_unsafe :
    vprintk 3 0 "%".toList ⟨fun _ => 0, fun _ => []⟩ = Except.error Fault.pastNul ∧
      vprintk 3 0 "%c".toList ⟨fun _ => 65, fun _ => []⟩ = Except.error Fault.endless ∧
      ¬ ∃ r, vprintk 3 0 "%".toList ⟨fun _ => 0, fun _ => []⟩ = Except.ok r := by
  refine ⟨rfl, rfl, ?_⟩
  rintro ⟨r, hr⟩
  cases hr

end Loop

end Stdio

end SyncKernel
