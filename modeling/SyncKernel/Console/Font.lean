/-
**The fonts of the console** (`font.h`, `font.c`).

A glyph is a rectangle of bits, row by row and without gaps between the rows, in a bitmap that all
glyphs of the font share.  Its place in the cell of a character is given from the base line.

Main definitions:

* `Console.FontGlyph`, `Console.Font` — a glyph, and a font;
* `Console.Font.lit` — the pixels of a cell that a glyph sets;
* `Console.fontIbm3270` — the font that `kcon_init` chooses.

Main results:

* `Console.Font.Drawable` — the bits of each glyph lie in the bitmap, and their pixels in the rows of a
  cell; `Console.fontIbm3270_drawable` — **that font is**.

The second font of the source is left out, which nothing chooses.
-/

import Mathlib.Data.Nat.Bitwise
import Mathlib.Data.Int.Order.Basic

set_option relaxedAutoImplicit false
set_option autoImplicit false

namespace SyncKernel

namespace Console

/-- `font_glyph_t`. -/
structure FontGlyph where
  bitmapOffset : UInt16
  width : UInt8
  height : UInt8
  xAdvance : UInt8
  xOffset : Int8
  yOffset : Int8
  deriving DecidableEq, Inhabited

/-- `kfont_t`, with its bitmap and its glyphs. -/
structure Font where
  fontBitmap : List UInt8
  fontGlyphs : List FontGlyph
  baseline : Int32
  pixelH : UInt8
  pixelW : UInt8

namespace Font

variable (font : Font)

/-- A glyph of the font. -/
def glyph (i : ℕ) : FontGlyph := font.fontGlyphs.getD i default

/-- The bit of the bitmap that `con_draw_glyph` looks at, the high bit of a byte first. -/
def bit (globlBit : ℕ) : Option Bool :=
  font.fontBitmap[globlBit >>> 3]?.map fun byte => (byte.toNat >>> (7 - globlBit % 8)) &&& 1 ≠ 0

/-- The number of the bit in the row `h` and the column `w` of a glyph. -/
def globlBit (glyph : FontGlyph) (h w : ℕ) : ℕ :=
  glyph.bitmapOffset.toNat <<< 3 + h * glyph.width.toNat + w

/-- The bit `n` of the bitmap is set, where the bits are counted from the high bit of the first byte on. -/
def IsSet (n : ℕ) : Prop := (font.fontBitmap.getD (n / 8) 0).toNat.testBit (7 - n % 8) = true

instance (n : ℕ) : Decidable (font.IsSet n) := inferInstanceAs (Decidable (_ = _))

/-- The glyph sets the pixel that is `dx` columns from the cursor and `d` rows from the top of the cell: the
rows of a glyph follow each other in the bitmap, from its byte on. -/
def lit (glyph : FontGlyph) (dx d : ℤ) : Prop :=
  ∃ h < glyph.height.toNat, ∃ w < glyph.width.toNat,
    font.IsSet (8 * glyph.bitmapOffset.toNat + glyph.width.toNat * h + w) ∧
      dx = glyph.xOffset.toInt + w ∧ d = font.baseline.toInt + glyph.yOffset.toInt + h

instance (glyph : FontGlyph) (dx d : ℤ) : Decidable (font.lit glyph dx d) :=
  inferInstanceAs (Decidable (∃ h < glyph.height.toNat, ∃ w < glyph.width.toNat, _))

/-- A glyph has its bits in the bitmap, and its rows in a cell. -/
structure Inside (glyph : FontGlyph) : Prop where
  bits : glyph.bitmapOffset.toNat * 8 + glyph.height.toNat * glyph.width.toNat ≤ 8 * font.fontBitmap.length
  above : 0 ≤ font.baseline.toInt + glyph.yOffset.toInt
  below : font.baseline.toInt + glyph.yOffset.toInt + glyph.height.toNat ≤ font.pixelH.toNat

instance (glyph : FontGlyph) : Decidable (font.Inside glyph) :=
  decidable_of_iff (_ ∧ _ ∧ _) ⟨fun h => ⟨h.1, h.2.1, h.2.2⟩, fun h => ⟨h.1, h.2, h.3⟩⟩

/-- There are glyphs for the printable characters, and all of them can be drawn. -/
structure Drawable : Prop where
  printable : font.fontGlyphs.length = 95
  inside : ∀ glyph ∈ font.fontGlyphs, font.Inside glyph

instance : Decidable font.Drawable :=
  decidable_of_iff (_ ∧ _) ⟨fun h => ⟨h.1, h.2⟩, fun h => ⟨h.1, h.2⟩⟩

variable {font : Font} {glyph : FontGlyph}

/-- **The bits of a glyph** are there, and are those that the glyph sets. -/
theorem Inside.bit_eq (hg : font.Inside glyph) {h w : ℕ} (hh : h < glyph.height.toNat)
    (hw : w < glyph.width.toNat) : font.bit (globlBit glyph h w) =
      some (decide (font.IsSet (8 * glyph.bitmapOffset.toNat + glyph.width.toNat * h + w))) := by
  have hrow : h * glyph.width.toNat + glyph.width.toNat ≤ glyph.height.toNat * glyph.width.toNat := by
    rw [← Nat.succ_mul]
    exact Nat.mul_le_mul_right _ hh
  have hbits := hg.bits
  have hbit : globlBit glyph h w = 8 * glyph.bitmapOffset.toNat + glyph.width.toNat * h + w := by
    rw [globlBit, Nat.shiftLeft_eq, Nat.mul_comm _ h, Nat.mul_comm _ (2 ^ 3)]
  rw [hbit]
  generalize 8 * glyph.bitmapOffset.toNat + glyph.width.toNat * h + w = n at hbit
  have hlt : n / 8 < font.fontBitmap.length := by
    rw [globlBit, Nat.shiftLeft_eq] at hbit
    omega
  rw [bit, Nat.shiftRight_eq_div_pow, List.getElem?_eq_getElem hlt, Option.map_some]
  refine congrArg some (decide_eq_decide.2 ?_)
  rw [IsSet, List.getD_eq_getElem _ _ hlt, Nat.testBit, Nat.and_comm, bne_iff_ne]

/-- A glyph sets pixels in the rows of its cell only. -/
theorem Inside.lit_row (hg : font.Inside glyph) {dx d : ℤ} (h : font.lit glyph dx d) :
    0 ≤ d ∧ d < font.pixelH.toNat := by
  obtain ⟨h, hh, w, hw, -, -, rfl⟩ := h
  have habove := hg.above
  have hbelow := hg.below
  omega

/-- The glyph of a printable character is in the font. -/
theorem Drawable.getElem? (hf : font.Drawable) {i : ℕ} (hi : i < 95) :
    font.fontGlyphs[i]? = some (font.glyph i) := by
  rw [glyph, List.getD_eq_getElem?_getD, List.getElem?_eq_getElem (hf.printable.symm ▸ hi)]
  rfl

theorem Drawable.glyph_inside (hf : font.Drawable) {i : ℕ} (hi : i < 95) : font.Inside (font.glyph i) :=
  hf.inside _ (List.mem_of_getElem? (hf.getElem? hi))

end Font

/-! ### The font of the kernel -/

/-- `ibm3270_regular_16px_1b_bitmaps`. -/
def ibm3270Regular16px1bBitmaps : List UInt8 :=
  [
    0xFE, 0x40, 0x99, 0x90, 0x4B, 0xF4, 0x92, 0xFD, 0x20, 0x10, 0x21, 0xFC,
    0x89, 0x0F, 0x84, 0x89, 0xFC, 0x20, 0x40, 0xC1, 0x43, 0x08, 0x20, 0x82,
    0x08, 0x20, 0x8C, 0x14, 0x30, 0x62, 0x49, 0x24, 0xE2, 0x89, 0x66, 0x7C,
    0xE0, 0x2A, 0x49, 0x22, 0x20, 0x88, 0x92, 0x4A, 0x80, 0x12, 0x45, 0x5A,
    0x56, 0x41, 0x00, 0x10, 0x23, 0xF8, 0x81, 0x02, 0x00, 0x33, 0x6C, 0xF8,
    0xF0, 0x02, 0x08, 0x20, 0x82, 0x08, 0x20, 0x00, 0x38, 0x8A, 0x0C, 0x99,
    0x32, 0x60, 0xC3, 0x4C, 0x70, 0x2E, 0x92, 0x49, 0x24, 0x3C, 0x8E, 0x08,
    0x30, 0x41, 0x04, 0x10, 0x41, 0xFC, 0x7E, 0x0C, 0x10, 0x41, 0x80, 0x81,
    0x83, 0x84, 0xF0, 0x0C, 0x69, 0x96, 0x28, 0x5F, 0xC1, 0x02, 0x04, 0x08,
    0xFF, 0x02, 0x07, 0xC0, 0x40, 0xC0, 0x83, 0x05, 0xF0, 0x20, 0x82, 0x04,
    0x0B, 0x98, 0xA1, 0xC3, 0x4C, 0x70, 0xFE, 0x0C, 0x30, 0x41, 0x04, 0x08,
    0x10, 0x20, 0x40, 0x38, 0x89, 0x12, 0x27, 0x88, 0xA1, 0xC1, 0x44, 0x70,
    0x3C, 0x8E, 0x1C, 0x38, 0xAE, 0x40, 0x81, 0x02, 0x08, 0xF0, 0xF0, 0x33,
    0x00, 0x33, 0x6C, 0x11, 0x99, 0x88, 0x20, 0x82, 0x18, 0xFE, 0x00, 0x07,
    0xF0, 0x82, 0x08, 0x20, 0x88, 0x88, 0xC0, 0x7A, 0x38, 0xC6, 0x30, 0x82,
    0x00, 0x00, 0x80, 0x7D, 0x0E, 0x0C, 0xDA, 0xF7, 0xA0, 0x40, 0x80, 0xFC,
    0x10, 0x71, 0x34, 0x38, 0x3F, 0xE0, 0xC1, 0x82, 0xF9, 0x34, 0x51, 0x79,
    0x34, 0x53, 0xF8, 0x1C, 0x84, 0x20, 0x82, 0x04, 0x08, 0x1C, 0xF8, 0x99,
    0x1A, 0x14, 0x28, 0x51, 0xA6, 0xF8, 0xFF, 0x02, 0x04, 0x0F, 0x90, 0x20,
    0x40, 0xFE, 0xFF, 0x02, 0x04, 0x0F, 0xD0, 0x20, 0x40, 0x80, 0x38, 0x8A,
    0x04, 0x08, 0x13, 0xE1, 0x22, 0x3C, 0x83, 0x06, 0x0C, 0x1F, 0xF0, 0x60,
    0xC1, 0x82, 0xE9, 0x24, 0x92, 0xE0, 0x1C, 0x20, 0x82, 0x08, 0x28, 0xA2,
    0x70, 0x87, 0x0A, 0x24, 0x8A, 0x1A, 0x22, 0x42, 0x86, 0x81, 0x02, 0x04,
    0x08, 0x10, 0x20, 0x40, 0xFE, 0x87, 0x8E, 0xEC, 0x99, 0x30, 0x60, 0xC1,
    0x82, 0x83, 0x86, 0x8C, 0x98, 0xF0, 0xE0, 0xC1, 0x82, 0x7D, 0x0E, 0x0C,
    0x18, 0x30, 0x60, 0xC3, 0x7C, 0xF9, 0x0A, 0x1C, 0x38, 0x5F, 0x20, 0x40,
    0x80, 0x38, 0x8A, 0x1C, 0x18, 0x30, 0x65, 0xAE, 0x38, 0x08, 0x10, 0xFD,
    0x0E, 0x0C, 0x3F, 0xD2, 0x22, 0x46, 0x86, 0x7D, 0x0E, 0x03, 0x03, 0x01,
    0x81, 0xC3, 0x7C, 0xFE, 0x20, 0x40, 0x81, 0x02, 0x04, 0x08, 0x10, 0x83,
    0x06, 0x0C, 0x18, 0x30, 0x60, 0xC3, 0x7C, 0x83, 0x06, 0x12, 0x24, 0x85,
    0x0A, 0x18, 0x10, 0x83, 0x06, 0x0C, 0x19, 0x32, 0x64, 0xDF, 0x44, 0x83,
    0x0D, 0x11, 0xC3, 0x05, 0x13, 0x43, 0x82, 0x86, 0x88, 0xA0, 0x81, 0x02,
    0x04, 0x08, 0x10, 0xFE, 0x0C, 0x10, 0x41, 0x04, 0x10, 0x40, 0xFE, 0xF2,
    0x49, 0x24, 0x93, 0x80, 0x80, 0x80, 0x80, 0x80, 0x80, 0x80, 0x80, 0xE4,
    0x92, 0x49, 0x27, 0x80, 0x22, 0xA2, 0xFE, 0x88, 0x80, 0x78, 0x08, 0x13,
    0xE8, 0x50, 0x9F, 0x80, 0x82, 0x08, 0x3C, 0x8A, 0x18, 0x61, 0x8B, 0xC0,
    0x3D, 0x08, 0x20, 0x81, 0x03, 0xC0, 0x04, 0x10, 0x4F, 0x46, 0x18, 0x61,
    0x44, 0xF0, 0x7A, 0x18, 0x7F, 0x82, 0x07, 0xC0, 0x1C, 0x82, 0x3E, 0x20,
    0x82, 0x08, 0x20, 0x80, 0x39, 0x18, 0x61, 0x4C, 0xD0, 0x51, 0x3C, 0x82,
    0x08, 0x2E, 0xC6, 0x18, 0x61, 0x86, 0x10, 0x9F, 0xC0, 0x08, 0x00, 0x10,
    0x84, 0x21, 0x08, 0x62, 0xE0, 0x84, 0x21, 0x08, 0xCB, 0x92, 0x8C, 0x00,
    0xAA, 0xAA, 0xB0, 0xFD, 0x26, 0x4C, 0x99, 0x32, 0x64, 0x80, 0xF9, 0x14,
    0x51, 0x45, 0x14, 0x40, 0x7A, 0x18, 0x61, 0x86, 0x17, 0x80, 0xF2, 0x28,
    0x61, 0x86, 0x2F, 0x20, 0x82, 0x00, 0x3C, 0x8A, 0x14, 0x28, 0x48, 0x8F,
    0x02, 0x04, 0x0C, 0xB9, 0x94, 0x10, 0x41, 0x04, 0x00, 0x7A, 0x34, 0x0C,
    0x1A, 0x37, 0x80, 0x21, 0x09, 0xF2, 0x10, 0x84, 0x21, 0x80, 0x85, 0x0A,
    0x14, 0x28, 0x50, 0x9F, 0x80, 0x83, 0x07, 0x12, 0x62, 0x86, 0x04, 0x00,
    0x83, 0x06, 0x0C, 0x99, 0x37, 0xD1, 0x00, 0x82, 0x88, 0xA1, 0x82, 0x88,
    0xA0, 0x80, 0x86, 0x18, 0x61, 0x44, 0xA3, 0x08, 0x42, 0x00, 0xFC, 0x10,
    0x20, 0x82, 0x08, 0x3F, 0x80, 0x34, 0x44, 0x48, 0xC4, 0x44, 0x30, 0xFF,
    0xFC, 0xC2, 0x22, 0x23, 0x22, 0x22, 0xC0, 0xC1, 0x06]

/-- `ibm3270_regular_16px_1b_glyphs`. -/
def ibm3270Regular16px1bGlyphs : List FontGlyph :=
  [
    ⟨0, 0, 0, 9, 0, 0⟩, ⟨0, 1, 10, 9, 4, -11⟩, ⟨2, 4, 3, 9, 2, -11⟩, ⟨4, 6, 6, 9, 1, -10⟩,
    ⟨9, 7, 11, 9, 1, -11⟩, ⟨19, 7, 11, 9, 1, -11⟩, ⟨29, 6, 9, 9, 1, -10⟩, ⟨36, 1, 3, 9, 4, -11⟩,
    ⟨37, 3, 9, 9, 3, -10⟩, ⟨41, 3, 9, 9, 3, -10⟩, ⟨45, 6, 7, 9, 1, -10⟩, ⟨51, 7, 6, 9, 1, -8⟩,
    ⟨57, 4, 4, 9, 2, -3⟩, ⟨59, 5, 1, 9, 2, -6⟩, ⟨60, 2, 2, 9, 3, -3⟩, ⟨61, 7, 7, 9, 1, -9⟩,
    ⟨68, 7, 10, 9, 1, -11⟩, ⟨77, 3, 10, 9, 2, -11⟩, ⟨81, 7, 10, 9, 1, -11⟩, ⟨90, 7, 10, 9, 1, -11⟩,
    ⟨99, 7, 10, 9, 1, -11⟩, ⟨108, 7, 10, 9, 1, -11⟩, ⟨117, 7, 10, 9, 1, -11⟩, ⟨126, 7, 10, 9, 1, -11⟩,
    ⟨135, 7, 10, 9, 1, -11⟩, ⟨144, 7, 10, 9, 1, -11⟩, ⟨153, 2, 6, 9, 3, -7⟩, ⟨155, 4, 8, 9, 2, -7⟩,
    ⟨159, 5, 9, 9, 2, -10⟩, ⟨165, 7, 4, 9, 1, -8⟩, ⟨169, 5, 9, 9, 2, -10⟩, ⟨175, 6, 10, 9, 2, -11⟩,
    ⟨183, 7, 10, 9, 1, -11⟩, ⟨192, 7, 9, 9, 1, -10⟩, ⟨200, 6, 9, 9, 1, -10⟩, ⟨207, 6, 9, 9, 1, -10⟩,
    ⟨214, 7, 9, 9, 1, -10⟩, ⟨222, 7, 9, 9, 1, -10⟩, ⟨230, 7, 9, 9, 1, -10⟩, ⟨238, 7, 9, 9, 1, -10⟩,
    ⟨246, 7, 9, 9, 1, -10⟩, ⟨254, 3, 9, 9, 3, -10⟩, ⟨258, 6, 9, 9, 1, -10⟩, ⟨265, 7, 9, 9, 1, -10⟩,
    ⟨273, 7, 9, 9, 1, -10⟩, ⟨281, 7, 9, 9, 1, -10⟩, ⟨289, 7, 9, 9, 1, -10⟩, ⟨297, 7, 9, 9, 1, -10⟩,
    ⟨305, 7, 9, 9, 1, -10⟩, ⟨313, 7, 11, 9, 1, -10⟩, ⟨323, 7, 9, 9, 1, -10⟩, ⟨331, 7, 9, 9, 1, -10⟩,
    ⟨339, 7, 9, 9, 1, -10⟩, ⟨347, 7, 9, 9, 1, -10⟩, ⟨355, 7, 9, 9, 1, -10⟩, ⟨363, 7, 9, 9, 1, -10⟩,
    ⟨371, 7, 9, 9, 1, -10⟩, ⟨379, 7, 9, 9, 1, -10⟩, ⟨387, 7, 9, 9, 1, -10⟩, ⟨395, 3, 11, 9, 3, -11⟩,
    ⟨400, 7, 7, 9, 1, -9⟩, ⟨407, 3, 11, 9, 3, -11⟩, ⟨412, 5, 3, 9, 2, -11⟩, ⟨414, 7, 1, 9, 1, -1⟩,
    ⟨415, 3, 3, 9, 3, -11⟩, ⟨417, 7, 7, 9, 1, -8⟩, ⟨424, 6, 10, 9, 1, -11⟩, ⟨432, 6, 7, 9, 1, -8⟩,
    ⟨438, 6, 10, 9, 1, -11⟩, ⟨446, 6, 7, 9, 1, -8⟩, ⟨452, 6, 10, 9, 1, -11⟩, ⟨460, 6, 9, 9, 1, -8⟩,
    ⟨467, 6, 10, 9, 1, -11⟩, ⟨475, 1, 10, 9, 4, -11⟩, ⟨477, 5, 12, 9, 2, -11⟩, ⟨485, 5, 10, 9, 1, -11⟩,
    ⟨492, 2, 10, 9, 4, -11⟩, ⟨495, 7, 7, 9, 1, -8⟩, ⟨502, 6, 7, 9, 1, -8⟩, ⟨508, 6, 7, 9, 1, -8⟩,
    ⟨514, 6, 10, 9, 1, -8⟩, ⟨522, 7, 10, 9, 1, -8⟩, ⟨531, 6, 7, 9, 1, -8⟩, ⟨537, 6, 7, 9, 1, -8⟩,
    ⟨543, 5, 10, 9, 2, -11⟩, ⟨550, 7, 7, 9, 1, -8⟩, ⟨557, 7, 7, 9, 1, -8⟩, ⟨564, 7, 7, 9, 1, -8⟩,
    ⟨571, 7, 7, 9, 1, -8⟩, ⟨578, 6, 10, 9, 1, -8⟩, ⟨586, 7, 7, 9, 1, -8⟩, ⟨593, 4, 11, 9, 2, -11⟩,
    ⟨599, 1, 14, 9, 4, -12⟩, ⟨601, 4, 11, 9, 2, -11⟩, ⟨607, 5, 3, 9, 2, -11⟩]

/-- `FONT_IBM_3270_16PX`. -/
def fontIbm3270 : Font where
  fontBitmap := ibm3270Regular16px1bBitmaps
  fontGlyphs := ibm3270Regular16px1bGlyphs
  baseline := 12
  pixelH := 16
  pixelW := 8

/-- **Each glyph has its bits in the bitmap and its rows in a cell.** -/
theorem fontIbm3270_drawable : fontIbm3270.Drawable := by decide +kernel

end Console

end SyncKernel
