/-
**Drawing on the framebuffer** (`drivers/video/gop/gop.c`).

The memory of the framebuffer is known by the distance from its base.  A pixel takes three bytes of it,
whatever the depth.

Left out is the byte of a colour that nobody reads, `alpha`; `gop_clear` and `gop_scroll` are in
`Gop.Screen`.

Main definitions:

* `Gop.Framebuffer`, `Gop.Rect` — a framebuffer, and a rectangle whose corners are no overflow;
* `Gop.gopBlit` — a single pixel;
* `Gop.gopFillRect` — a rectangle.

A function returns nothing where an `i32` overflows.
-/

import Mathlib.Data.Nat.Bitwise
import Mathlib.Logic.Function.Basic

set_option relaxedAutoImplicit false
set_option autoImplicit false

namespace SyncKernel

namespace Gop

/-- `fb_rgba_color_t`. -/
structure Rgba where
  red : UInt8
  green : UInt8
  blue : UInt8
  deriving DecidableEq

/-- `framebuffer_t`, with 24 or 32 bits for a pixel. -/
structure Framebuffer where
  width : ℕ
  height : ℕ
  pitch : ℕ
  bpp : ℕ
  width_lt : width < 2 ^ 31
  height_lt : height < 2 ^ 31
  pitch_lt : pitch < 2 ^ 32
  bpp_eq : bpp = 24 ∨ bpp = 32
  pitch_ge : width * (bpp / 8) ≤ pitch

/-- The bytes of the framebuffer. -/
abbrev Memory := ℕ → UInt8

/-- The three bytes of a pixel. -/
def putPixel (b₀ b₁ b₂ : UInt8) (mem : Memory) (px : ℕ) : Memory :=
  Function.update (Function.update (Function.update mem px b₀) (px + 1) b₁) (px + 2) b₂

/-- `sizeof(struct gop_pixel_24)`. -/
def pixel24Sz : ℕ := 3

/-- `gop_blit`.  The product of the row and the pitch is a `u32`, the one of the column and the depth an
`i32`. -/
def gopBlit (fb : Framebuffer) (x y : ℤ) (rgba : Rgba) (mem : Memory) : Option Memory :=
  if x < 0 ∨ x ≥ fb.width ∨ y < 0 ∨ y ≥ fb.height then some mem
  else
    let column := x.toNat * (fb.bpp >>> 3)
    if column ≥ 2 ^ 31 then none
    else
      let px := y.toNat * fb.pitch % 2 ^ 32 + column
      some (putPixel rgba.blue rgba.green rgba.red mem px)

/-- The position and the size of a rectangle, whose other corner has `i32` coordinates, too. -/
structure Rect where
  x : ℤ
  y : ℤ
  w : ℤ
  h : ℤ
  x_range : -2 ^ 31 ≤ x ∧ x < 2 ^ 31
  y_range : -2 ^ 31 ≤ y ∧ y < 2 ^ 31
  w_range : -2 ^ 31 ≤ w ∧ w < 2 ^ 31
  h_range : -2 ^ 31 ≤ h ∧ h < 2 ^ 31
  right_range : -2 ^ 31 ≤ x + w ∧ x + w < 2 ^ 31
  bottom_range : -2 ^ 31 ≤ y + h ∧ y + h < 2 ^ 31

/-- The inner loop of `gop_fill_rect`, over the pixels of a row.  `struct gop_pixel_24` begins with
`r`. -/
def fillRow (color : Rgba) (row w : ℕ) (mem : Memory) : Memory :=
  (List.range w).foldl
    (fun mem j => putPixel color.red color.green color.blue mem (row + j * pixel24Sz)) mem

/-- `gop_fill_rect`. -/
def gopFillRect (fb : Framebuffer) (r : Rect) (color : Rgba) (mem : Memory) : Memory :=
  if r.x ≥ fb.width ∨ r.y ≥ fb.height then mem
  else if r.x + r.w ≤ 0 ∨ r.y + r.h ≤ 0 then mem
  else
    let x2 := r.x + r.w
    let y2 := r.y + r.h
    let x := if r.x < 0 then 0 else r.x
    let y := if r.y < 0 then 0 else r.y
    let x2 := if x2 > fb.width then (fb.width : ℤ) else x2
    let y2 := if y2 > fb.height then (fb.height : ℤ) else y2
    let w := x2 - x
    let h := y2 - y
    if w ≤ 0 ∨ h ≤ 0 then mem
    else
      let row := y.toNat * fb.pitch % 2 ^ 32 + x.toNat * pixel24Sz
      ((List.range h.toNat).foldl
        (fun s _ => (fillRow color s.2 w.toNat s.1, s.2 + fb.pitch)) (mem, row)).1

/-- `gop_blit` for each pixel of a rectangle. -/
def blitRect (fb : Framebuffer) (r : Rect) (color : Rgba) (mem : Memory) : Option Memory :=
  (List.range r.h.toNat).foldlM
    (fun mem (j : ℕ) => (List.range r.w.toNat).foldlM
      (fun mem (i : ℕ) => gopBlit fb (r.x + i) (r.y + j) color mem) mem) mem

end Gop

end SyncKernel
