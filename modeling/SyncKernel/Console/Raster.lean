/-
**The console on the framebuffer** (`io/console.c`, `drivers/video/gop/gop.c`).

The functions of the console are stated once more, with a framebuffer instead of marks: `con_draw_glyph`
goes through the bits of a glyph and calls `gop_blit` for those that are set, `con_fill_glyph` calls
`gop_fill_rect`, a scroll `gop_scroll`, and `kcon_clear` `gop_clear`.

A coordinate is a `u32` that the drawing functions take as an `i32`.  A sum of two `i32` that overflows, a
product that `gop_blit` cannot form, a bit that is not in the bitmap and a glyph that is not in the font
are failures.

Main definitions:

* `Console.Panel` — a framebuffer with a font and the two colours;
* `Console.Screen` — the cursor and the bytes of the framebuffer;
* `Console.Raster.conDrawGlyph`, `Console.Raster.conFillGlyph` — drawing;
* `Console.Raster.kconWrite`, `Console.Raster.kconClear`, `Console.Raster.run` — the calls, with what they
  return.

Left out is `kcon_setcolor`, which nothing calls: the colours are those of the panel.
-/

import SyncKernel.Console.Cursor
import SyncKernel.Console.Font
import SyncKernel.Gop.Screen

set_option relaxedAutoImplicit false
set_option autoImplicit false

namespace SyncKernel

namespace Console

/-- The framebuffer, the font and the colours of the console. -/
structure Panel where
  fb : Gop.Framebuffer
  font : Font
  colorFg : Gop.Rgba
  colorBg : Gop.Rgba
  fits : fb.Fits
  drawable : font.Drawable
  pixelH_pos : 0 < font.pixelH.toNat
  pixelH_lt : font.pixelH.toNat < fb.height

/-- The cursor, and the framebuffer. -/
structure Screen where
  cx : ℕ
  cy : ℕ
  mem : Gop.Memory

namespace Raster

/-! ### Numbers -/

/-- An `i32`, if the number is one. -/
def i32 (z : ℤ) : Option ℤ := if -2 ^ 31 ≤ z ∧ z < 2 ^ 31 then some z else none

/-- A rectangle whose coordinates are `i32`. -/
def rect (x y w h : ℤ) : Option Gop.Rect :=
  if hr : ((-2 ^ 31 ≤ x ∧ x < 2 ^ 31) ∧ (-2 ^ 31 ≤ y ∧ y < 2 ^ 31)) ∧
      ((-2 ^ 31 ≤ w ∧ w < 2 ^ 31) ∧ (-2 ^ 31 ≤ h ∧ h < 2 ^ 31)) ∧
      (-2 ^ 31 ≤ x + w ∧ x + w < 2 ^ 31) ∧ (-2 ^ 31 ≤ y + h ∧ y + h < 2 ^ 31) then
    some ⟨x, y, w, h, hr.1.1, hr.1.2, hr.2.1.1, hr.2.1.2, hr.2.2.1, hr.2.2.2⟩
  else none

variable (P : Panel)

/-! ### Drawing and scrolling -/

/-- `con_scroll_by`. -/
def conScrollBy (pixels : ℕ) (s : Screen) : Screen :=
  { s with mem := Gop.gopScroll P.fb pixels s.mem, cy := Word.sub32 s.cy pixels }

/-- `con_scroll`. -/
def conScroll (s : Screen) : Screen := conScrollBy P P.font.pixelH.toNat s

/-- `con_fill_glyph`, with a glyph. -/
def conFillGlyph (glyph : FontGlyph) (x y : ℕ) (s : Screen) : Option Screen :=
  let cx := toI32 x
  let cy := toI32 y
  if cx < 0 ∨ cy < 0 then some s
  else do
    let r ← rect cx cy glyph.width.toNat glyph.height.toNat
    some { s with mem := Gop.gopFillRect P.fb r P.colorBg s.mem }

/-- The body of the two loops of `con_draw_glyph`, for the row `h` and the column `w`. -/
def drawBit (glyph : FontGlyph) (dxBase dy : ℤ) (h : ℕ) (mem : Gop.Memory) (w : ℕ) : Option Gop.Memory := do
  let bit ← P.font.bit (Font.globlBit glyph h w)
  if bit then do
    let dx ← i32 (dxBase + w)
    Gop.gopBlit P.fb dx dy P.colorFg mem
  else some mem

/-- The outer loop of `con_draw_glyph`. -/
def drawRow (glyph : FontGlyph) (dxBase bY : ℤ) (mem : Gop.Memory) (h : ℕ) : Option Gop.Memory := do
  let dy ← i32 (bY + glyph.yOffset.toInt)
  let dy ← i32 (dy + h)
  (List.range glyph.width.toNat).foldlM (drawBit P glyph dxBase dy h) mem

/-- `con_draw_glyph`. -/
def conDrawGlyph (glyph : FontGlyph) (x y : ℕ) (s : Screen) : Option Screen := do
  let bY ← i32 (toI32 y + P.font.baseline.toInt)
  let dxBase ← i32 (toI32 x + glyph.xOffset.toInt)
  let mem ← (List.range glyph.height.toNat).foldlM (drawRow P glyph dxBase bY) s.mem
  some { s with mem := mem }

/-! ### Control characters -/

/-- `con_ctrl_carriage_ret`. -/
def conCtrlCarriageRet (s : Screen) : Screen := { s with cx := 0 }

/-- `con_ctrl_newl`. -/
def conCtrlNewl (s : Screen) : Screen :=
  let s := conCtrlCarriageRet s
  let s := if Word.add32 s.cy P.font.pixelH.toNat ≥ P.fb.height then conScroll P s
    else { s with cy := Word.add32 s.cy P.font.pixelH.toNat }
  { s with cx := 0 }

/-- The width of the glyph of a space, where `con_ctrl_tab` and `con_ctrl_backspace` look at it. -/
def glyW : ℕ :=
  let glyph := P.font.glyph 0
  let glyW := if glyph.width.toNat ≠ 0 then glyph.width.toNat else glyph.xAdvance.toNat
  if glyW = 0 then P.font.pixelW.toNat else glyW

/-- `con_ctrl_tab`. -/
def conCtrlTab (s : Screen) : Screen :=
  let tabW := (glyW P * tabStop) % 2 ^ 32
  if tabW = 0 then s
  else
    let s := { s with cx := Word.add32 s.cx (tabW - s.cx % tabW) }
    if s.cx ≥ P.fb.width then conCtrlNewl P s else s

/-- `con_ctrl_backspace`. -/
def conCtrlBackspace (s : Screen) : Option Screen :=
  if s.cx ≥ glyW P then
    let s := { s with cx := Word.sub32 s.cx (glyW P) }
    conFillGlyph P (P.font.glyph 0) s.cx s.cy s
  else if s.cy ≥ P.font.pixelH.toNat then
    let s := { s with
      cy := Word.sub32 s.cy P.font.pixelH.toNat
      cx := Word.sub32 P.fb.width (glyW P) }
    conFillGlyph P (P.font.glyph 0) s.cx s.cy s
  else some s

/-- `con_ascii_ctrl`: the screen, and whether the character is one of them. -/
def conAsciiCtrl (c : ℕ) (s : Screen) : Option (Screen × Bool) :=
  if c = 0x0D then some (conCtrlCarriageRet s, true)
  else if c = 0x0A then some (conCtrlNewl P s, true)
  else if c = 0x09 then some (conCtrlTab P s, true)
  else if c = 0x08 then (conCtrlBackspace P s).map fun s => (s, true)
  else some (s, false)

/-! ### Writing -/

/-- What `kcon_write` does first for each byte. -/
def settle (s : Screen) : Screen :=
  if s.cy ≥ Word.sub32 P.fb.height P.font.pixelH.toNat then conCtrlNewl P s else s

/-- `kcon_write` for a printable character. -/
def putChar (c : ℕ) (s : Screen) : Option Screen := do
  let glyph ← P.font.fontGlyphs[c - 0x20]?
  let s ← conDrawGlyph P glyph s.cx s.cy s
  let s := { s with cx := Word.add32 s.cx glyph.xAdvance.toNat }
  some (if s.cx ≥ P.fb.width then conCtrlNewl P s else s)

/-- One turn of the loop of `kcon_write`: the screen, and whether the byte counts. -/
def writeByte (s : Screen) (c : ℕ) : Option (Screen × Bool) :=
  let s := settle P s
  if c < 0x20 ∨ c > 0x7E then conAsciiCtrl P c s else (putChar P c s).map fun s => (s, true)

/-- The loop of `kcon_write`. -/
def writeLoop (consumed : ℤ) (s : Screen) : List ℕ → Option (Screen × ℤ)
  | [] => some (s, consumed)
  | c :: buf => do
      let (s, counts) ← writeByte P s c
      writeLoop (consumed + counts.toNat) s buf

/-- `kcon_write`; nothing stands for the null pointer. -/
def kconWrite (buf : Option (List ℕ)) (s : Screen) : Option (Screen × ℤ) :=
  match buf with
  | none => some (s, -1)
  | some buf => writeLoop P 0 s buf

/-- `kcon_clear`. -/
def kconClear (s : Screen) : Screen := ⟨0, 0, Gop.gopClear P.fb s.mem⟩

/-- A call: the screen behind it, and what it returns. -/
def runCall (s : Screen) : Call → Option (Screen × Option ℤ)
  | Call.write buf => (kconWrite P buf s).map fun r => (r.1, some r.2)
  | Call.clear => some (kconClear P s, none)

/-- A sequence of calls. -/
def run (s : Screen) : List Call → Option (Screen × List (Option ℤ))
  | [] => some (s, [])
  | call :: calls => do
      let (s, ret) ← runCall P s call
      let (s, rets) ← run s calls
      some (s, ret :: rets)

end Raster

end Console

end SyncKernel
