/-
**The console shows consecutive lines** (`kcon_write`).

A text is broken into lines at newlines and where the characters of a line reach the right edge.  The
screen is looked at in bands of the height of a cell.  Behind each text of printable characters and
newlines, the bands from the top to the one of the cursor hold consecutive lines, each of them whole
and alone in its band, the last of them being the line that the text is at; the bands below are blank.

What carries this through a run is that only the first row of a band has marks, and that a cursor
below the part of the screen with room for a cell is at the beginning of a line, so that nothing but
the next byte, which scrolls first, finds it there.

The functions that draw take the sizes of the framebuffer as `i32`.  So this holds on the framebuffers with
columns whose sizes are below `2 ^ 31`, and on no others: there a character is not drawn at all.  (Above,
the sum of `u32` that `con_ctrl_newl` compares can wrap around, too.)

Main definitions:

* `Console.Page` — the lines of a text;
* `Console.band`, `Console.Shows` — the bands of the screen, and what they show;
* `Console.Display.Visible` — the displays on which a character is drawn.

Main results:

* `Console.writeByte_holds` — what a byte does to the lines on the screen;
* `Console.writes_shows_iff` — **when the bands show the lines** of every text.
-/

import SyncKernel.Console.Basic

set_option relaxedAutoImplicit false
set_option autoImplicit false

namespace SyncKernel

namespace Console

/-! ### Lines and bands -/

/-- The lines of a text: those that are finished, the current one, and where it goes on. -/
structure Page where
  lines : List (List Mark)
  current : List Mark
  cx : ℕ

namespace Page

/-- The line of the given number. -/
def line (p : Page) (i : ℕ) : List Mark := (p.lines ++ [p.current]).getD i []

/-- The page with the current line finished. -/
def newLine (p : Page) : Page := ⟨p.lines ++ [p.current], [], 0⟩

/-- The page with a further character in the current line. -/
def add (D : Display) (c : ℕ) (p : Page) : Page :=
  ⟨p.lines, p.current ++ [Mark.glyph c p.cx], p.cx + (D.glyphs (c - 0x20)).xAdvance⟩

/-- The page with a further byte, a newline or a printable character. -/
def put (D : Display) (p : Page) (c : ℕ) : Page :=
  if c = 0x0A then p.newLine
  else if (p.add D c).cx ≥ D.fbW then (p.add D c).newLine else p.add D c

/-- The page of a text. -/
def text (D : Display) (buf : List ℕ) : Page := buf.foldl (put D) ⟨[], [], 0⟩

end Page

/-- What is on the band of the given number. -/
def band (D : Display) (s : KernelConsole) (j : ℕ) : List Mark :=
  (List.range D.cellH).flatMap fun r => s.rows (j * D.cellH + r)

/-- The bands down to the cursor show consecutive lines of the page, ending with the current one; the
others are blank. -/
structure Shows (D : Display) (s : KernelConsole) (p : Page) : Prop where
  enough : s.cy / D.cellH ≤ p.lines.length
  lines : ∀ j ≤ s.cy / D.cellH, band D s j = p.line (p.lines.length - s.cy / D.cellH + j)
  blank : ∀ j, s.cy / D.cellH < j → band D s j = []

/-- A newline or a printable character. -/
def IsText (c : ℕ) : Prop := c = 0x0A ∨ (0x20 ≤ c ∧ c ≤ 0x7E)

/-- The display draws, and both of its sizes are positive as `i32`. -/
structure Display.Visible (D : Display) : Prop where
  blit : D.blitPixel = true
  fbW_pos : 0 < D.fbW
  fbW_small : D.fbW < 2 ^ 31
  fbH_small : D.fbH < 2 ^ 31

/-! ### Lines on the screen -/

/-- The lines of the page are on the first rows of the bands down to the one of the cursor, with the
number `c`. -/
structure Held (D : Display) (s : KernelConsole) (p : Page) (c : ℕ) : Prop where
  cy_eq : s.cy = c * D.cellH
  enough : c ≤ p.lines.length
  inside : s.cy < D.fbH
  rows_line : ∀ j ≤ c, s.rows (j * D.cellH) = p.line (p.lines.length - c + j)
  rows_blank : ∀ y, (∀ j ≤ c, y ≠ j * D.cellH) → s.rows y = []

section Pages

variable (p : Page)

@[simp] theorem Page.line_length : p.line p.lines.length = p.current := by
  simp [Page.line]

theorem Page.line_newLine {i : ℕ} (h : i ≤ p.lines.length) : p.newLine.line i = p.line i := by
  unfold Page.line Page.newLine
  rw [List.getD_append _ _ _ _ (by simp; omega)]

@[simp] theorem Page.length_newLine : p.newLine.lines.length = p.lines.length + 1 := by
  simp [Page.newLine]

theorem Page.line_add (D : Display) (c : ℕ) {i : ℕ} (h : i < p.lines.length) :
    (p.add D c).line i = p.line i := by
  unfold Page.line Page.add
  rw [List.getD_append _ _ _ _ h, List.getD_append _ _ _ _ h]

end Pages

section Steps

variable {D : Display} {s : KernelConsole} {p : Page} {c : ℕ}

/-- The bands of a screen that holds the lines show them. -/
theorem Held.shows (h : Held D s p c) : Shows D s p := by
  have hc : s.cy / D.cellH = c := by rw [h.cy_eq, Nat.mul_div_cancel _ D.cellH_pos]
  have hband : ∀ j, band D s j = s.rows (j * D.cellH) := fun j => by
    obtain ⟨n, hn⟩ : ∃ n, D.cellH = n + 1 := ⟨D.cellH - 1, by have := D.cellH_pos; omega⟩
    rw [band, hn, List.range_succ_eq_map, List.flatMap_cons, Nat.add_zero, ← hn]
    -- the other rows of the band are blank
    refine List.append_right_eq_self.2 (List.flatMap_eq_nil_iff.2 fun r hr => ?_)
    obtain ⟨r', hr', rfl⟩ := List.mem_map.1 hr
    have hlt : r'.succ < D.cellH := by
      have := List.mem_range.1 hr'
      omega
    refine h.rows_blank _ fun i _ heq => ?_
    have hmod := congrArg (· % D.cellH) heq
    simp [Nat.add_mod, Nat.mod_eq_of_lt hlt] at hmod
  refine ⟨hc ▸ h.enough, fun j hj => ?_, fun j hj => ?_⟩
  · rw [hband, hc]
    exact h.rows_line j (hc ▸ hj)
  · rw [hband]
    refine h.rows_blank _ fun i hi heq => ?_
    have := Nat.eq_of_mul_eq_mul_right D.cellH_pos heq
    omega

/-- **A scroll.**  The cursor and the lines go up by one band. -/
theorem Held.scroll (h : Held D s p (c + 1)) (hs : D.scroll = true) :
    Held D (conScroll D s) p c := by
  have hle : D.cellH ≤ s.cy := by
    rw [h.cy_eq]
    exact Nat.le_mul_of_pos_left _ c.succ_pos
  have hcy : (conScroll D s).cy = s.cy - D.cellH :=
    Word.sub32_of_le hle (lt_trans h.inside D.fbH_lt)
  have hrows : (conScroll D s).rows = scrollRows D D.cellH s.rows := by
    simp [conScroll, conScrollBy, hs]
  refine ⟨?_, Nat.le_of_succ_le h.enough, ?_, fun j hj => ?_, fun y hy => ?_⟩
  · rw [hcy, h.cy_eq, Nat.succ_mul, Nat.add_sub_cancel]
  · have := h.inside
    omega
  · have hinside : j * D.cellH + D.cellH < D.fbH := by
      calc j * D.cellH + D.cellH = (j + 1) * D.cellH := (Nat.succ_mul _ _).symm
        _ ≤ (c + 1) * D.cellH := Nat.mul_le_mul_right _ (by omega)
        _ < D.fbH := h.cy_eq ▸ h.inside
    have hnum : p.lines.length - (c + 1) + (j + 1) = p.lines.length - c + j := by
      have := h.enough
      omega
    rw [hrows, scrollRows, if_pos hinside, ← Nat.succ_mul, h.rows_line _ (by omega), hnum]
  · rw [hrows, scrollRows]
    split
    · refine h.rows_blank _ fun j hj heq => ?_
      cases j with
      | zero =>
          have := D.cellH_pos
          omega
      | succ j =>
          rw [Nat.succ_mul] at heq
          exact hy j (by omega) (Nat.add_right_cancel heq)
    · rfl

/-- **A new line** on a screen with room for it. -/
theorem Held.newl (h : Held D s p c) (hroom : s.cy + D.cellH < D.fbH) :
    Held D (conCtrlNewl D s) p.newLine (c + 1) := by
  have hadd : Word.add32 s.cy D.cellH = s.cy + D.cellH :=
    Word.add32_of_lt (lt_trans hroom D.fbH_lt)
  have hnewl : conCtrlNewl D s = ⟨0, s.cy + D.cellH, s.rows⟩ := by
    simp [conCtrlNewl, conCtrlCarriageRet, hadd, Nat.not_le.2 hroom]
  have hnum : p.lines.length + 1 - (c + 1) = p.lines.length - c := by omega
  have henough := h.enough
  rw [hnewl]
  refine ⟨?_, ?_, hroom, fun j hj => ?_, fun y hy => h.rows_blank y fun j hj => hy j (by omega)⟩
  · simp only [h.cy_eq, Nat.succ_mul]
  · simpa using h.enough
  · rw [Page.length_newLine, hnum]
    rcases Nat.lt_or_ge c j with hlt | hle
    · obtain rfl : j = c + 1 := by omega
      -- the new line is blank, and so is its band
      have hblank : s.rows ((c + 1) * D.cellH) = [] := h.rows_blank _ fun i hi heq => by
        have := Nat.eq_of_mul_eq_mul_right D.cellH_pos heq
        omega
      have hlast : p.lines.length - c + (c + 1) = p.newLine.lines.length := by
        rw [Page.length_newLine]
        omega
      rw [hlast, Page.line_length]
      exact hblank
    · rw [Page.line_newLine _ (by omega)]
      exact h.rows_line j hle

/-- The positions on the screen pass the tests. -/
theorem Display.Visible.passes (hD : D.Visible) {x y : ℕ} (hx : x < D.fbW) (hy : y < D.fbH) :
    Passes D x y := by
  have hwidth := hD.fbW_small
  have hheight := hD.fbH_small
  rw [Passes, toI32_eq (by omega), toI32_eq hwidth, toI32_eq (by omega), toI32_eq hheight]
  omega

/-- No position passes them on a screen without columns, or with a size that is negative as an `i32`. -/
theorem Display.Visible.of_passes (hb : D.blitPixel = true) {x y : ℕ} (h : Passes D x y) : D.Visible := by
  obtain ⟨⟨hx, hx'⟩, hy, hy'⟩ := h
  have hwidth := D.fbW_lt
  have hheight := D.fbH_lt
  unfold toI32 at hx hx' hy hy'
  refine ⟨hb, ?_, ?_, ?_⟩
  · split_ifs at hx hx' <;> omega
  · split_ifs at hx hx' <;> omega
  · split_ifs at hy hy' <;> omega

/-- **A character** goes behind the current line. -/
theorem Held.draw (h : Held D s p c) (hD : D.Visible) (hcx : p.cx < D.fbW) (a : ℕ) :
    Held D (conDrawGlyph D a p.cx s.cy s) (p.add D a) c := by
  have hdraw : conDrawGlyph D a p.cx s.cy s =
      { s with rows := Function.update s.rows s.cy (s.rows s.cy ++ [Mark.glyph a p.cx]) } := by
    rw [conDrawGlyph, hD.blit, if_neg (by decide), mark, if_pos (hD.passes hcx h.inside)]
  have hlen : (p.add D a).lines = p.lines := rfl
  have henough := h.enough
  rw [hdraw]
  refine ⟨h.cy_eq, h.enough, h.inside, fun j hj => ?_, fun y hy => ?_⟩
  · dsimp only
    rw [hlen]
    rcases Nat.lt_or_ge j c with hlt | hge
    · have hne : j * D.cellH ≠ s.cy := fun heq => by
        rw [h.cy_eq] at heq
        have := Nat.eq_of_mul_eq_mul_right D.cellH_pos heq
        omega
      rw [Function.update_of_ne hne, Page.line_add _ _ _ (by omega)]
      exact h.rows_line j hj
    · obtain rfl : j = c := le_antisymm hj hge
      have hlast : p.lines.length - j + j = p.lines.length := by omega
      have hline : (p.add D a).line p.lines.length = p.current ++ [Mark.glyph a p.cx] :=
        Page.line_length (p.add D a)
      rw [← h.cy_eq, Function.update_self, h.cy_eq, h.rows_line j le_rfl, hlast, Page.line_length, hline]
  · dsimp only
    rw [Function.update_of_ne (by rw [h.cy_eq]; exact hy c le_rfl)]
    exact h.rows_blank y hy

end Steps

/-! ### Runs -/

/-- The screen holds the page, the cursor is on it where the text goes on, and it is at the beginning of a
line when there is no room for a cell. -/
def Holds (D : Display) (s : KernelConsole) (p : Page) : Prop :=
  ∃ c, Held D s p c ∧ s.cx = p.cx ∧ p.cx < D.fbW ∧ (D.fbH - D.cellH ≤ s.cy → p.cx = 0)

section Runs

variable {D : Display} {s : KernelConsole} {p : Page}

theorem holds_cleared (hD : D.Visible) : Holds D conCtrlClear (Page.text D []) := by
  refine ⟨0, ⟨(Nat.zero_mul _).symm, Nat.zero_le _, ?_, fun j _ => ?_, fun _ _ => rfl⟩, rfl, hD.fbW_pos,
    fun _ => rfl⟩
  · exact lt_trans D.cellH_pos D.cellH_lt
  · cases j <;> rfl

/-- Before a byte is written, there is room for a cell. -/
theorem settle_holds (h : Holds D s p) (hs : D.scroll = true) (hD : D.Visible) :
    ∃ c, Held D (settle D s) p c ∧ (settle D s).cx = p.cx ∧ (settle D s).cy + D.cellH < D.fbH := by
  obtain ⟨c, hheld, hcx, -, hpending⟩ := h
  have hlt := D.cellH_lt
  have hsmall := hD.fbH_small
  have hinside := hheld.inside
  have hsub : Word.sub32 D.fbH D.cellH = D.fbH - D.cellH := Word.sub32_of_le hlt.le D.fbH_lt
  by_cases hcy : D.fbH - D.cellH ≤ s.cy
  · -- the cursor was put below: the screen scrolls
    have hadd : Word.add32 s.cy D.cellH = s.cy + D.cellH := Word.add32_of_lt (by omega)
    have hsettle : settle D s = { conScroll D (conCtrlCarriageRet s) with cx := 0 } := by
      rw [settle, hsub, if_pos hcy, conCtrlNewl]
      simp only [conCtrlCarriageRet, hadd]
      rw [if_pos (by omega)]
    obtain ⟨c, rfl⟩ : ∃ c', c = c' + 1 := by
      cases c with
      | zero =>
          have := hheld.cy_eq
          omega
      | succ c => exact ⟨c, rfl⟩
    have hheld' : Held D (conScroll D (conCtrlCarriageRet s)) p c :=
      Held.scroll ⟨hheld.cy_eq, hheld.enough, hheld.inside, hheld.rows_line, hheld.rows_blank⟩ hs
    rw [hsettle]
    refine ⟨c, ⟨hheld'.cy_eq, hheld'.enough, hheld'.inside, hheld'.rows_line, hheld'.rows_blank⟩,
      (hpending hcy).symm, ?_⟩
    calc (conScroll D (conCtrlCarriageRet s)).cy + D.cellH = (c + 1) * D.cellH := by
          rw [hheld'.cy_eq, Nat.succ_mul]
      _ = s.cy := hheld.cy_eq.symm
      _ < D.fbH := hheld.inside
  · have hsettle : settle D s = s := by rw [settle, hsub, if_neg hcy]
    rw [hsettle]
    exact ⟨c, hheld, hcx, by omega⟩

/-- A new line leaves the screen with the page. -/
theorem newl_holds (hD : D.Visible) {c : ℕ} (h : Held D s p c) (hroom : s.cy + D.cellH < D.fbH) :
    Holds D (conCtrlNewl D s) p.newLine :=
  ⟨c + 1, h.newl hroom, rfl, hD.fbW_pos, fun _ => rfl⟩

/-- **One byte.** -/
theorem writeByte_holds (h : Holds D s p) (hs : D.scroll = true) (hD : D.Visible)
    (hadvance : ∀ c, (D.glyphs c).xAdvance < 2 ^ 8) {a : ℕ} (ha : IsText a) :
    Holds D (writeByte D s a).1 (p.put D a) := by
  have hlt : p.cx < D.fbW := h.choose_spec.2.2.1
  obtain ⟨c, hheld, hcx, hroom⟩ := settle_holds h hs hD
  rw [writeByte, Page.put]
  by_cases hnl : a = 0x0A
  · subst hnl
    exact newl_holds hD hheld hroom
  · obtain ⟨hlo, hhi⟩ := ha.resolve_left hnl
    have hsmall := hD.fbW_small
    have hstep := hadvance (a - 0x20)
    have hadd : Word.add32 p.cx (D.glyphs (a - 0x20)).xAdvance = (p.add D a).cx :=
      Word.add32_of_lt (by omega)
    have hdraw := hheld.draw hD hlt a
    have hcy : (conDrawGlyph D a p.cx (settle D s).cy (settle D s)).cy = (settle D s).cy := by
      rw [hdraw.cy_eq, hheld.cy_eq]
    have hput : putChar D a (settle D s) =
        if (p.add D a).cx ≥ D.fbW then
          conCtrlNewl D { conDrawGlyph D a p.cx (settle D s).cy (settle D s) with cx := (p.add D a).cx }
        else { conDrawGlyph D a p.cx (settle D s).cy (settle D s) with cx := (p.add D a).cx } := by
      simp only [putChar, conDrawGlyph_cursor, hcx, hadd]
    have hheld' : Held D { conDrawGlyph D a p.cx (settle D s).cy (settle D s) with
        cx := (p.add D a).cx } (p.add D a) c :=
      ⟨hdraw.cy_eq, hdraw.enough, hdraw.inside, hdraw.rows_line, hdraw.rows_blank⟩
    rw [if_neg (by omega), if_neg hnl, hput]
    by_cases hwrap : (p.add D a).cx ≥ D.fbW
    · rw [if_pos hwrap, if_pos hwrap]
      exact newl_holds hD hheld' (by dsimp only; rwa [hcy])
    · rw [if_neg hwrap, if_neg hwrap]
      refine ⟨c, hheld', rfl, Nat.lt_of_not_le hwrap, fun hle => ?_⟩
      dsimp only at hle
      rw [hcy] at hle
      omega

/-- A row of bytes. -/
theorem bytes_holds (h : Holds D s p) (hs : D.scroll = true) (hD : D.Visible)
    (hadvance : ∀ c, (D.glyphs c).xAdvance < 2 ^ 8) (buf : List ℕ) (htext : ∀ a ∈ buf, IsText a) :
    Holds D (bytes D s buf) (buf.foldl (Page.put D) p) := by
  induction buf generalizing s p with
  | nil => exact h
  | cons a buf ih =>
      rw [List.forall_mem_cons] at htext
      exact ih (writeByte_holds h hs hD hadvance htext.1) htext.2

/-- **Nothing is drawn** on a screen that is not visible. -/
theorem conDrawGlyph_blank (hD : ¬ D.Visible) (a x y : ℕ) (s : KernelConsole) : conDrawGlyph D a x y s = s := by
  unfold conDrawGlyph
  cases hb : D.blitPixel with
  | false => rfl
  | true => rw [if_neg (by decide), mark, if_neg fun h => hD (Display.Visible.of_passes hb h)]

/-- The console behind a single character then. -/
theorem writes_blank (hD : ¬ D.Visible) (hadvance : (D.glyphs 33).xAdvance < 2 ^ 8) :
    writes D conCtrlClear [[65]] =
      if (D.glyphs 33).xAdvance ≥ D.fbW then ⟨0, D.cellH, fun _ => []⟩
      else ⟨(D.glyphs 33).xAdvance, 0, fun _ => []⟩ := by
  have hlt := D.cellH_lt
  have hsub : Word.sub32 D.fbH D.cellH = D.fbH - D.cellH := Word.sub32_of_le hlt.le D.fbH_lt
  have hsettle : settle D conCtrlClear = conCtrlClear := by
    rw [settle, hsub, if_neg (show ¬ conCtrlClear.cy ≥ _ from Nat.not_le.2 (Nat.sub_pos_of_lt hlt))]
  have hcx : Word.add32 0 (D.glyphs 33).xAdvance = (D.glyphs 33).xAdvance := by
    rw [Word.add32_of_lt (by omega), Nat.zero_add]
  have hcy : Word.add32 0 D.cellH = D.cellH := by
    rw [Word.add32_of_lt (by have := D.fbH_lt; omega), Nat.zero_add]
  have hnewl : conCtrlNewl D ⟨(D.glyphs 33).xAdvance, 0, fun _ => []⟩ = ⟨0, D.cellH, fun _ => []⟩ := by
    simp only [conCtrlNewl, conCtrlCarriageRet, hcy]
    rw [if_neg (Nat.not_le.2 hlt)]
  have hput : putChar D 65 conCtrlClear =
      if (D.glyphs 33).xAdvance ≥ D.fbW then conCtrlNewl D ⟨(D.glyphs 33).xAdvance, 0, fun _ => []⟩
      else ⟨(D.glyphs 33).xAdvance, 0, fun _ => []⟩ := by
    simp only [putChar, conDrawGlyph_blank hD, conCtrlClear, hcx]
  rw [writes_eq, List.flatten_singleton, bytes_cons, writeByte, hsettle, if_neg (by decide), hput, hnewl]
  rfl

/-- The page of a single character. -/
theorem text_char (D : Display) : Page.text D [65] =
    if (D.glyphs 33).xAdvance ≥ D.fbW then ⟨[[Mark.glyph 65 0]], [], 0⟩
    else ⟨[], [Mark.glyph 65 0], (D.glyphs 33).xAdvance⟩ := by
  simp [Page.text, Page.put, Page.add, Page.newLine]

/-- The character is missing. -/
theorem not_shows_blank (hD : ¬ D.Visible) (hadvance : (D.glyphs 33).xAdvance < 2 ^ 8) :
    ¬ Shows D (writes D conCtrlClear [[65]]) (Page.text D [65]) := by
  intro h
  rw [writes_blank hD hadvance, text_char] at h
  have hblank : ∀ cx cy j, band D ⟨cx, cy, fun _ => []⟩ j = [] := fun cx cy j =>
    List.flatMap_eq_nil_iff.2 fun _ _ => rfl
  by_cases hwrap : (D.glyphs 33).xAdvance ≥ D.fbW
  · rw [if_pos hwrap, if_pos hwrap] at h
    have hline := h.lines 0 (Nat.zero_le _)
    dsimp only at hline
    rw [hblank, Nat.div_self D.cellH_pos] at hline
    cases hline
  · rw [if_neg hwrap, if_neg hwrap] at h
    have hline := h.lines 0 (Nat.zero_le _)
    rw [hblank] at hline
    dsimp only at hline
    rw [Nat.zero_div] at hline
    cases hline

/-- **When the console shows consecutive lines** (`kcon_write`).  On a framebuffer with a scroll operation:
after every sequence of calls with printable characters and newlines on the cleared screen the bands down to
the cursor show consecutive lines of the text, each of them alone in its band and the last one being the
current line, and the bands below are blank — if and only if pixels are drawn, and the framebuffer has
columns and sizes below `2 ^ 31`. -/
theorem writes_shows_iff (D : Display) (hs : D.scroll = true) (hadvance : ∀ c, (D.glyphs c).xAdvance < 2 ^ 8) :
    (∀ calls : List (List ℕ), (∀ a ∈ calls.flatten, IsText a) →
      Shows D (writes D conCtrlClear calls) (Page.text D calls.flatten)) ↔ D.Visible := by
  constructor
  · intro h
    by_contra hD
    exact not_shows_blank hD (hadvance 33) (h [[65]] (by simp [IsText]))
  · intro hD calls htext
    rw [writes_eq]
    obtain ⟨c, hheld, -⟩ := bytes_holds (holds_cleared hD) hs hD hadvance calls.flatten htext
    exact hheld.shows

end Runs

/-- Two columns and two and a half bands. -/
def smallDisplay : Display where
  blitPixel := true
  scroll := true
  fbW := 2
  fbH := 5
  cellW := 1
  cellH := 2
  glyphs := fun _ => ⟨1, 2, 1⟩
  cellH_pos := by decide
  cellH_lt := by decide
  fbW_lt := by decide
  fbH_lt := by decide

/-- Two calls with six bytes, in four lines. -/
theorem writes_shows_small :
    Shows smallDisplay (writes smallDisplay conCtrlClear [[65, 66, 67], [10, 10, 68]])
      (Page.text smallDisplay [65, 66, 67, 10, 10, 68]) :=
  (writes_shows_iff smallDisplay rfl fun _ => (by decide : 1 < 2 ^ 8)).2
    ⟨rfl, by decide, by decide, by decide⟩ [[65, 66, 67], [10, 10, 68]] (by simp [IsText])

/-- A screen of `2 ^ 31` rows, with cells of 16 rows. -/
def highDisplay : Display where
  blitPixel := true
  scroll := true
  fbW := 640
  fbH := 0x80000000
  cellW := 8
  cellH := 16
  glyphs := fun _ => ⟨7, 10, 9⟩
  cellH_pos := Nat.succ_pos _
  cellH_lt := (by decide : 16 < 0x80000000)
  fbW_lt := by decide
  fbH_lt := by decide

/-- **The height is negative** as an `i32`: the character is not drawn. -/
theorem not_shows_high :
    ¬ Shows highDisplay (writes highDisplay conCtrlClear [[65]]) (Page.text highDisplay [65]) :=
  not_shows_blank (fun hD => absurd hD.fbH_small (by decide)) (by decide)

end Console

end SyncKernel
