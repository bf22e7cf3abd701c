/-
**The console** (`io/console.c`).

`kcon_write` draws the printable characters one behind the other and moves to a new line at a newline
and at the right edge.  Near the bottom a new line is only put down: the cursor leaves the part of
the screen that has room for a cell, and the next byte scrolls before anything else.

The screen is the rows of the framebuffer, each with what was drawn from there downwards, in order.
The scroll operation moves the rows up and leaves blank ones at the bottom.  The functions that draw take
the position and the sizes of the framebuffer as `i32`: on a framebuffer of `2 ^ 31` rows or columns they
draw nothing.

Left out: the colours, the bitmap of the font and the offsets of a glyph in its cell, which only
decide about single pixels.

Main definitions:

* `Console.Display` — the framebuffer and the font;
* `Console.KernelConsole` — the cursor and the screen;
* `Console.conCtrlNewl`, `Console.conAsciiCtrl` — the control characters;
* `Console.kconWrite` — the loop over the bytes.
-/

import SyncKernel.Lib.Word

set_option relaxedAutoImplicit false
set_option autoImplicit false

namespace SyncKernel

namespace Console

/-- `font_glyph_t`. -/
structure Glyph where
  width : ℕ
  height : ℕ
  xAdvance : ℕ

/-- The framebuffer, with the operations it has, and the font.  The screen is higher than a cell. -/
structure Display where
  blitPixel : Bool
  scroll : Bool
  fbW : ℕ
  fbH : ℕ
  cellW : ℕ
  cellH : ℕ
  glyphs : ℕ → Glyph
  cellH_pos : 0 < cellH
  cellH_lt : cellH < fbH
  fbW_lt : fbW < 2 ^ 32
  fbH_lt : fbH < 2 ^ 32

/-- What is drawn: a character, or a filled rectangle. -/
inductive Mark
  | glyph (c x : ℕ)
  | fill (x w h : ℕ)
  deriving DecidableEq

/-- The cursor, and the marks by the row where their cell begins. -/
structure KernelConsole where
  cx : ℕ
  cy : ℕ
  rows : ℕ → List Mark

/-- `KCONSOLE_TABSTOP`. -/
def tabStop : ℕ := 8

/-- A `u32` as an `i32`. -/
def toI32 (x : ℕ) : ℤ := if x < 2 ^ 31 then x else x - 2 ^ 32

theorem toI32_eq {x : ℕ} (h : x < 2 ^ 31) : toI32 x = x := if_pos h

variable (D : Display)

/-! ### Drawing and scrolling -/

/-- The position passes the tests of `gop_blit` and `gop_fill_rect`, in `i32`. -/
def Passes (x y : ℕ) : Prop :=
  (0 ≤ toI32 x ∧ toI32 x < toI32 D.fbW) ∧ 0 ≤ toI32 y ∧ toI32 y < toI32 D.fbH

instance (x y : ℕ) : Decidable (Passes D x y) := inferInstanceAs (Decidable (_ ∧ _))

/-- A mark at a position, if the framebuffer draws there. -/
def mark (m : Mark) (x y : ℕ) (s : KernelConsole) : KernelConsole :=
  if Passes D x y then { s with rows := Function.update s.rows y (s.rows y ++ [m]) } else s

/-- The scroll operation. -/
def scrollRows (pxRows : ℕ) (rows : ℕ → List Mark) : ℕ → List Mark :=
  fun y => if y + pxRows < D.fbH then rows (y + pxRows) else []

/-- `con_scroll_by`. -/
def conScrollBy (pixels : ℕ) (s : KernelConsole) : KernelConsole :=
  let rows := if D.scroll then scrollRows D pixels s.rows else s.rows
  { s with rows := rows, cy := Word.sub32 s.cy pixels }

/-- `con_scroll`. -/
def conScroll (s : KernelConsole) : KernelConsole := conScrollBy D D.cellH s

/-- `con_fill_glyph`, with a glyph. -/
def conFillGlyph (glyph : Glyph) (x y : ℕ) (s : KernelConsole) : KernelConsole :=
  if !D.blitPixel then s
  else if toI32 x < 0 ∨ toI32 y < 0 then s
  else mark D (Mark.fill x glyph.width glyph.height) x y s

/-- `con_draw_glyph` for the glyph of the character `c`. -/
def conDrawGlyph (c x y : ℕ) (s : KernelConsole) : KernelConsole :=
  if !D.blitPixel then s else mark D (Mark.glyph c x) x y s

/-- A console that is drawn on has the cursor where it was. -/
theorem mark_cursor (m : Mark) (x y : ℕ) (s : KernelConsole) :
    (mark D m x y s).cx = s.cx ∧ (mark D m x y s).cy = s.cy := by
  unfold mark
  split <;> exact ⟨rfl, rfl⟩

theorem conFillGlyph_cursor (glyph : Glyph) (x y : ℕ) (s : KernelConsole) :
    (conFillGlyph D glyph x y s).cx = s.cx ∧ (conFillGlyph D glyph x y s).cy = s.cy := by
  unfold conFillGlyph
  split
  · exact ⟨rfl, rfl⟩
  · split
    · exact ⟨rfl, rfl⟩
    · exact mark_cursor D _ _ _ _

theorem conDrawGlyph_cursor (c x y : ℕ) (s : KernelConsole) :
    (conDrawGlyph D c x y s).cx = s.cx ∧ (conDrawGlyph D c x y s).cy = s.cy := by
  unfold conDrawGlyph
  split
  · exact ⟨rfl, rfl⟩
  · exact mark_cursor D _ _ _ _

/-! ### Control characters -/

/-- `con_ctrl_carriage_ret`. -/
def conCtrlCarriageRet (s : KernelConsole) : KernelConsole := { s with cx := 0 }

/-- `con_ctrl_newl`. -/
def conCtrlNewl (s : KernelConsole) : KernelConsole :=
  let s := conCtrlCarriageRet s
  let s := if Word.add32 s.cy D.cellH ≥ D.fbH then conScroll D s
    else { s with cy := Word.add32 s.cy D.cellH }
  { s with cx := 0 }

/-- The width of the glyph of a space, where `con_ctrl_tab` and `con_ctrl_backspace` look at it. -/
def glyW : ℕ :=
  let glyph := D.glyphs 0
  let glyW := if glyph.width ≠ 0 then glyph.width else glyph.xAdvance
  if glyW = 0 then D.cellW else glyW

/-- `con_ctrl_tab`. -/
def conCtrlTab (s : KernelConsole) : KernelConsole :=
  let tabW := (glyW D * tabStop) % 2 ^ 32
  if tabW = 0 then s
  else
    let s := { s with cx := Word.add32 s.cx (tabW - s.cx % tabW) }
    if s.cx ≥ D.fbW then conCtrlNewl D s else s

/-- `con_ctrl_backspace`. -/
def conCtrlBackspace (s : KernelConsole) : KernelConsole :=
  if s.cx ≥ glyW D then
    let s := { s with cx := Word.sub32 s.cx (glyW D) }
    conFillGlyph D (D.glyphs 0) s.cx s.cy s
  else if s.cy ≥ D.cellH then
    let s := { s with cy := Word.sub32 s.cy D.cellH, cx := Word.sub32 D.fbW (glyW D) }
    conFillGlyph D (D.glyphs 0) s.cx s.cy s
  else s

/-- `con_ascii_ctrl`: the console, and whether the character is one of them. -/
def conAsciiCtrl (c : ℕ) (s : KernelConsole) : KernelConsole × Bool :=
  if c = 0x0D then (conCtrlCarriageRet s, true)
  else if c = 0x0A then (conCtrlNewl D s, true)
  else if c = 0x09 then (conCtrlTab D s, true)
  else if c = 0x08 then (conCtrlBackspace D s, true)
  else (s, false)

/-! ### Writing -/

/-- What `kcon_write` does first for each byte: a new line, when the cursor is below the part of the
screen that has room for a cell. -/
def settle (s : KernelConsole) : KernelConsole :=
  if s.cy ≥ Word.sub32 D.fbH D.cellH then conCtrlNewl D s else s

/-- `kcon_write` for a printable character. -/
def putChar (c : ℕ) (s : KernelConsole) : KernelConsole :=
  let s := conDrawGlyph D c s.cx s.cy s
  let s := { s with cx := Word.add32 s.cx (D.glyphs (c - 0x20)).xAdvance }
  if s.cx ≥ D.fbW then conCtrlNewl D s else s

/-- One turn of the loop of `kcon_write`: the console, and whether the byte counts. -/
def writeByte (s : KernelConsole) (c : ℕ) : KernelConsole × Bool :=
  let s := settle D s
  if c < 0x20 ∨ c > 0x7E then conAsciiCtrl D c s else (putChar D c s, true)

/-- The loop of `kcon_write`. -/
def writeLoop (consumed : ℤ) (s : KernelConsole) : List ℕ → KernelConsole × ℤ
  | [] => (s, consumed)
  | c :: buf =>
      let (s, counts) := writeByte D s c
      writeLoop (consumed + counts.toNat) s buf

/-- `kcon_write`; nothing stands for the null pointer. -/
def kconWrite (buf : Option (List ℕ)) (s : KernelConsole) : KernelConsole × ℤ :=
  match buf with
  | none => (s, -1)
  | some buf => writeLoop D 0 s buf

/-- `con_ctrl_clear`, on a framebuffer that can be cleared. -/
def conCtrlClear : KernelConsole := ⟨0, 0, fun _ => []⟩

/-- A sequence of calls. -/
def writes (s : KernelConsole) (calls : List (List ℕ)) : KernelConsole :=
  calls.foldl (fun s buf => (kconWrite D (some buf) s).1) s

/-- The console behind a row of bytes. -/
def bytes (s : KernelConsole) (buf : List ℕ) : KernelConsole := buf.foldl (fun s c => (writeByte D s c).1) s

theorem bytes_cons (s : KernelConsole) (c : ℕ) (buf : List ℕ) :
    bytes D s (c :: buf) = bytes D (writeByte D s c).1 buf := rfl

theorem bytes_append (s : KernelConsole) (buf buf' : List ℕ) :
    bytes D s (buf ++ buf') = bytes D (bytes D s buf) buf' := List.foldl_append

theorem writeLoop_fst (consumed : ℤ) (s : KernelConsole) (buf : List ℕ) :
    (writeLoop D consumed s buf).1 = bytes D s buf := by
  induction buf generalizing consumed s with
  | nil => rfl
  | cons c buf ih => exact ih _ _

/-- The bounds of the calls leave no trace. -/
theorem writes_eq (s : KernelConsole) (calls : List (List ℕ)) :
    writes D s calls = bytes D s calls.flatten := by
  induction calls generalizing s with
  | nil => rfl
  | cons buf calls ih =>
      have hbuf : (kconWrite D (some buf) s).1 = bytes D s buf := writeLoop_fst D 0 s buf
      rw [writes, List.foldl_cons, hbuf, ← writes, ih, List.flatten_cons, bytes_append]

end Console

end SyncKernel
