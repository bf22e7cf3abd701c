/-
**Filling a rectangle.**

`gop_fill_rect` is to change the framebuffer as `gop_blit` does for each of the pixels.  But it stores
the bytes of a pixel in the other order, goes on by three bytes from one pixel to the next whatever the
depth, and by a pointer from one row to the next, where `gop_blit` has a product of 32 bits.

Both paint certain bytes; where they agree, they paint the same bytes at the same places.

Main definitions:

* `Gop.Rect.Visible`, `Gop.Rect.left`, `Gop.Rect.right` — the part of a rectangle on the screen;
* `Gop.Agrees` — both change the framebuffer in the same way;
* `Gop.FillFits` — the colours and rectangles for which they do.

Main results:

* `Gop.gopFillRect_paints`, `Gop.blitRect_paints` — the bytes that they paint;
* `Gop.fillRect_iff` — **when they agree**.
-/

import Mathlib.Tactic.Ring
import SyncKernel.Gop.Basic
import SyncKernel.Lib.Paint

set_option relaxedAutoImplicit false
set_option autoImplicit false

namespace SyncKernel

namespace Gop

/-! ### The visible part -/

namespace Rect

variable (fb : Framebuffer) (r : Rect)

/-- The first column. -/
def left : ℕ := r.x.toNat

/-- The end of the columns. -/
def right : ℕ := min (r.x + r.w).toNat fb.width

/-- The first row. -/
def top : ℕ := r.y.toNat

/-- The end of the rows. -/
def bottom : ℕ := min (r.y + r.h).toNat fb.height

/-- A pixel of the rectangle is on the screen. -/
def Visible : Prop := r.left < r.right fb ∧ r.top < r.bottom fb

instance : Decidable (r.Visible fb) := inferInstanceAs (Decidable (_ ∧ _))

/-- The columns of the part on the screen. -/
theorem column_iff {fb : Framebuffer} {r : Rect} {k : ℕ} :
    (r.left ≤ k ∧ k < r.right fb) ↔ (r.x ≤ k ∧ (k : ℤ) < r.x + r.w) ∧ k < fb.width := by
  rw [left, right, lt_min_iff, Int.toNat_le, Int.lt_toNat, and_assoc]

/-- The rows of the part on the screen. -/
theorem row_iff {fb : Framebuffer} {r : Rect} {i : ℕ} :
    (r.top ≤ i ∧ i < r.bottom fb) ↔ (r.y ≤ i ∧ (i : ℤ) < r.y + r.h) ∧ i < fb.height := by
  rw [top, bottom, lt_min_iff, Int.toNat_le, Int.lt_toNat, and_assoc]

end Rect

/-- A lower corner, clipped. -/
theorem clip_low (x : ℤ) : (if x < 0 then 0 else x) = (x.toNat : ℤ) := by
  split
  · omega
  · omega

/-- An upper corner, clipped. -/
theorem clip_high {x : ℤ} (n : ℕ) (hx : 0 < x) : (if x > n then (n : ℤ) else x) = (min x.toNat n : ℕ) := by
  split
  · omega
  · omega

/-! ### Bytes -/

/-- The bytes of the pixel at `px`. -/
def PixelAt (b₀ b₁ b₂ : UInt8) (px a : ℕ) (b : UInt8) : Prop :=
  (a = px ∧ b = b₀) ∨ (a = px + 1 ∧ b = b₁) ∨ (a = px + 2 ∧ b = b₂)

section Paints

variable {fb : Framebuffer} {r : Rect} {color : Rgba} {b₀ b₁ b₂ : UInt8}

theorem putPixel_paints (b₀ b₁ b₂ : UInt8) (mem : Memory) (px : ℕ) :
    Paints (PixelAt b₀ b₁ b₂ px) mem (putPixel b₀ b₁ b₂ mem px) := by
  have h₀ := Paints.update mem px b₀
  have h₁ := h₀.trans (Paints.update _ (px + 1) b₁)
  exact (h₁.trans (Paints.update _ (px + 2) b₂)).congr fun a b => by rw [PixelAt, or_assoc]

/-- The column of a pixel in a row, for `gop_blit`. -/
def column (fb : Framebuffer) (k : ℕ) : ℕ := k * (fb.bpp / 8)

/-- The start of a row, for `gop_blit`. -/
def rowStart (fb : Framebuffer) (i : ℕ) : ℕ := i * fb.pitch % 2 ^ 32

theorem gopBlit_outside {x y : ℤ} (mem : Memory)
    (h : x < 0 ∨ x ≥ fb.width ∨ y < 0 ∨ y ≥ fb.height) : gopBlit fb x y color mem = some mem := if_pos h

theorem gopBlit_inside {x y : ℤ} (mem : Memory) (hx : 0 ≤ x ∧ x < fb.width) (hy : 0 ≤ y ∧ y < fb.height) :
    gopBlit fb x y color mem =
      if column fb x.toNat ≥ 2 ^ 31 then none
      else some (putPixel color.blue color.green color.red mem (rowStart fb y.toNat + column fb x.toNat)) := by
  have hdepth : fb.bpp >>> 3 = fb.bpp / 8 := Nat.shiftRight_eq_div_pow _ 3
  rw [gopBlit, if_neg (by omega)]
  simp only [hdepth]
  rfl

/-- What the pixels of a rectangle paint. -/
def BlitBytes (fb : Framebuffer) (r : Rect) (color : Rgba) (a : ℕ) (b : UInt8) : Prop :=
  ∃ i k, (r.top ≤ i ∧ i < r.bottom fb) ∧ (r.left ≤ k ∧ k < r.right fb) ∧
    PixelAt color.blue color.green color.red (rowStart fb i + column fb k) a b

/-- The columns are no overflow. -/
def ColumnsFit (fb : Framebuffer) (r : Rect) : Prop := column fb (r.right fb - 1) < 2 ^ 31

theorem gopBlit_paints (hfit : r.Visible fb → ColumnsFit fb r) {i j : ℕ} (hi : i < r.w.toNat)
    (hj : j < r.h.toNat) (mem : Memory) :
    ∃ mem', gopBlit fb (r.x + i) (r.y + j) color mem = some mem' ∧
      Paints (fun a b => (0 ≤ r.x + i ∧ r.x + i < fb.width) ∧ (0 ≤ r.y + j ∧ r.y + j < fb.height) ∧
        PixelAt color.blue color.green color.red
          (rowStart fb (r.y + j).toNat + column fb (r.x + i).toNat) a b) mem mem' := by
  by_cases hin : (0 ≤ r.x + i ∧ r.x + i < fb.width) ∧ (0 ≤ r.y + j ∧ r.y + j < fb.height)
  · obtain ⟨hleft, hright⟩ := Rect.column_iff.2 (show (r.x ≤ ((r.x + i).toNat : ℕ) ∧
      ((r.x + i).toNat : ℤ) < r.x + r.w) ∧ (r.x + i).toNat < fb.width by omega)
    obtain ⟨htop, hbottom⟩ := Rect.row_iff.2 (show (r.y ≤ ((r.y + j).toNat : ℕ) ∧
      ((r.y + j).toNat : ℤ) < r.y + r.h) ∧ (r.y + j).toNat < fb.height by omega)
    have hcolumn : column fb (r.x + i).toNat < 2 ^ 31 :=
      Nat.lt_of_le_of_lt (Nat.mul_le_mul_right _ (Nat.le_sub_one_of_lt hright))
        (hfit ⟨hleft.trans_lt hright, htop.trans_lt hbottom⟩)
    refine ⟨_, (gopBlit_inside mem hin.1 hin.2).trans (if_neg (Nat.not_le.2 hcolumn)), ?_⟩
    exact (putPixel_paints _ _ _ mem _).congr fun a b => ⟨fun h => ⟨hin.1, hin.2, h⟩, fun h => h.2.2⟩
  · refine ⟨mem, gopBlit_outside mem (by omega), ?_⟩
    exact (Paints.refl mem).congr fun a b => ⟨False.elim, fun h => hin ⟨h.1, h.2.1⟩⟩

/-- **The pixels one by one**: all of the visible part is painted. -/
theorem blitRect_paints (color : Rgba) (hfit : r.Visible fb → ColumnsFit fb r) (mem : Memory) :
    ∃ mem', blitRect fb r color mem = some mem' ∧ Paints (BlitBytes fb r color) mem mem' := by
  rw [blitRect]
  obtain ⟨mem', hmem', hpaint⟩ := Paints.foldlM (l := List.range r.h.toNat) (fun j hj mem =>
    Paints.foldlM (l := List.range r.w.toNat) (fun i hi mem =>
      gopBlit_paints hfit (List.mem_range.1 hi) (List.mem_range.1 hj) mem) mem) mem
  refine ⟨mem', hmem', hpaint.congr fun a b => ?_⟩
  constructor
  · rintro ⟨j, hj, i, hi, hx, hy, hpixel⟩
    rw [List.mem_range] at hi hj
    exact ⟨(r.y + j).toNat, (r.x + i).toNat, Rect.row_iff.2 (by omega), Rect.column_iff.2 (by omega), hpixel⟩
  · rintro ⟨j, i, hj, hi, hpixel⟩
    rw [Rect.row_iff] at hj
    rw [Rect.column_iff] at hi
    have hrow : (r.y + ((j - r.y).toNat : ℕ)).toNat = j := by omega
    have hcol : (r.x + ((i - r.x).toNat : ℕ)).toNat = i := by omega
    refine ⟨(j - r.y).toNat, List.mem_range.2 (by omega), (i - r.x).toNat, List.mem_range.2 (by omega),
      by omega, by omega, ?_⟩
    rwa [hrow, hcol]

/-- A column that overflows. -/
theorem blitRect_none (hvisible : r.Visible fb) (hfit : ¬ ColumnsFit fb r) (mem : Memory) :
    blitRect fb r color mem = none := by
  obtain ⟨hcolumns, hrows⟩ := hvisible
  have hrow := Rect.row_iff.1 ⟨le_rfl, hrows⟩
  have hcolumn := Rect.column_iff.1 ⟨Nat.le_sub_one_of_lt hcolumns, Nat.sub_one_lt_of_lt hcolumns⟩
  have hj : (r.top - r.y).toNat ∈ List.range r.h.toNat := List.mem_range.2 (by omega)
  have hi : ((r.right fb - 1 : ℕ) - r.x).toNat ∈ List.range r.w.toNat := List.mem_range.2 (by omega)
  refine foldlM_eq_none hj (fun mem => foldlM_eq_none hi (fun mem => ?_) mem) mem
  have hcol : (r.x + ((((r.right fb - 1 : ℕ) : ℤ) - r.x).toNat : ℕ)).toNat = r.right fb - 1 := by omega
  rw [gopBlit_inside mem (by omega) (by omega), hcol, if_pos (Nat.le_of_not_lt hfit)]

/-- The bytes of the visible pixels, when the rows follow each other in memory, and `sz` bytes lie between
the pixels. -/
def RectBytes (fb : Framebuffer) (r : Rect) (sz : ℕ) (b₀ b₁ b₂ : UInt8) (a : ℕ) (b : UInt8) : Prop :=
  ∃ i k, (r.top ≤ i ∧ i < r.bottom fb) ∧ (r.left ≤ k ∧ k < r.right fb) ∧
    PixelAt b₀ b₁ b₂ (rowStart fb r.top + (i - r.top) * fb.pitch + k * sz) a b

/-- What the rows of `gop_fill_rect` paint. -/
def FillBytes (fb : Framebuffer) (r : Rect) (color : Rgba) : ℕ → UInt8 → Prop :=
  RectBytes fb r pixel24Sz color.red color.green color.blue

theorem fillRow_paints (color : Rgba) (row w : ℕ) (mem : Memory) :
    Paints (fun a b => ∃ j < w, PixelAt color.red color.green color.blue (row + j * pixel24Sz) a b) mem
      (fillRow color row w mem) := by
  refine (Paints.foldl (fun j mem => putPixel_paints color.red color.green color.blue mem
    (row + j * pixel24Sz)) (List.range w) mem).congr fun a b => ?_
  simp only [List.mem_range]

/-- The outer loop, which goes from row to row. -/
theorem fillRows_paints (fb : Framebuffer) (color : Rgba) (row w h : ℕ) (mem : Memory) :
    ((List.range h).foldl (fun s _ => (fillRow color s.2 w s.1, s.2 + fb.pitch)) (mem, row)).2 =
        row + h * fb.pitch ∧
      Paints (fun a b => ∃ i < h, ∃ j < w,
        PixelAt color.red color.green color.blue (row + i * fb.pitch + j * pixel24Sz) a b) mem
        ((List.range h).foldl (fun s _ => (fillRow color s.2 w s.1, s.2 + fb.pitch)) (mem, row)).1 := by
  induction h with
  | zero => exact ⟨by simp, (Paints.refl mem).congr fun a b => by simp⟩
  | succ h ih =>
      obtain ⟨hrow, hpaint⟩ := ih
      rw [List.range_succ, List.foldl_append, List.foldl_cons, List.foldl_nil]
      refine ⟨?_, (hpaint.trans (fillRow_paints color _ w _)).congr fun a b => ?_⟩
      · dsimp only
        rw [hrow, Nat.succ_mul, Nat.add_assoc]
      · rw [hrow]
        constructor
        · rintro (⟨i, hi, hpixel⟩ | hpixel)
          · exact ⟨i, Nat.lt_succ_of_lt hi, hpixel⟩
          · exact ⟨h, Nat.lt_succ_self h, hpixel⟩
        · rintro ⟨i, hi, hpixel⟩
          rcases Nat.lt_succ_iff_lt_or_eq.1 hi with hi | rfl
          · exact Or.inl ⟨i, hi, hpixel⟩
          · exact Or.inr hpixel

/-- **The filled rectangle.** -/
theorem gopFillRect_paints (fb : Framebuffer) (r : Rect) (color : Rgba) (mem : Memory) :
    Paints (FillBytes fb r color) mem (gopFillRect fb r color mem) := by
  have hempty : ¬ r.Visible fb → Paints (FillBytes fb r color) mem mem := fun hout =>
    (Paints.refl mem).congr fun a b => ⟨False.elim, fun ⟨i, k, hi, hk, _⟩ =>
      hout ⟨lt_of_le_of_lt hk.1 hk.2, lt_of_le_of_lt hi.1 hi.2⟩⟩
  unfold gopFillRect
  dsimp only
  by_cases hout : r.x ≥ fb.width ∨ r.y ≥ fb.height
  · rw [if_pos hout]
    refine hempty fun hvisible => ?_
    have hrow := Rect.row_iff.1 ⟨le_rfl, hvisible.2⟩
    have hcolumn := Rect.column_iff.1 ⟨le_rfl, hvisible.1⟩
    omega
  by_cases hneg : r.x + r.w ≤ 0 ∨ r.y + r.h ≤ 0
  · rw [if_neg hout, if_pos hneg]
    refine hempty fun hvisible => ?_
    have hrow := Rect.row_iff.1 ⟨le_rfl, hvisible.2⟩
    have hcolumn := Rect.column_iff.1 ⟨le_rfl, hvisible.1⟩
    omega
  -- the corners, clipped
  have hx : (if r.x < 0 then 0 else r.x) = (r.left : ℤ) := clip_low r.x
  have hy : (if r.y < 0 then 0 else r.y) = (r.top : ℤ) := clip_low r.y
  have hx2 : (if r.x + r.w > fb.width then (fb.width : ℤ) else r.x + r.w) = (r.right fb : ℤ) :=
    clip_high fb.width (by omega)
  have hy2 : (if r.y + r.h > fb.height then (fb.height : ℤ) else r.y + r.h) = (r.bottom fb : ℤ) :=
    clip_high fb.height (by omega)
  rw [if_neg hout, if_neg hneg, hx, hy, hx2, hy2]
  by_cases hzero : (r.right fb : ℤ) - r.left ≤ 0 ∨ (r.bottom fb : ℤ) - r.top ≤ 0
  · rw [if_pos hzero]
    exact hempty fun h => by obtain ⟨hx, hy⟩ := h; omega
  rw [if_neg hzero, Int.toNat_natCast, Int.toNat_natCast]
  refine (fillRows_paints fb color _ _ _ mem).2.congr fun a b => ?_
  have hplace : ∀ i j, rowStart fb r.top + r.left * pixel24Sz + i * fb.pitch + j * pixel24Sz =
      rowStart fb r.top + i * fb.pitch + (r.left + j) * pixel24Sz := fun i j => by ring
  constructor
  · rintro ⟨i, hi, j, hj, hpixel⟩
    refine ⟨r.top + i, r.left + j, by omega, by omega, ?_⟩
    rw [Nat.add_sub_cancel_left, ← hplace]
    exact hpixel
  · rintro ⟨i, k, hi, hk, hpixel⟩
    refine ⟨i - r.top, by omega, k - r.left, by omega, ?_⟩
    have hcol : r.left + (k - r.left) = k := by omega
    change PixelAt _ _ _ (rowStart fb r.top + r.left * pixel24Sz + _ + _) a b
    rwa [hplace, hcol]

end Paints

/-! ### When they agree -/

/-- Both change the framebuffer in the same way, whatever it shows. -/
def Agrees (fb : Framebuffer) (r : Rect) (color : Rgba) : Prop :=
  ∀ mem, blitRect fb r color mem = some (gopFillRect fb r color mem)

/-- The product of 32 bits does not wrap from the first to the last row. -/
def RowsFit (fb : Framebuffer) (r : Rect) : Prop :=
  rowStart fb r.top + (r.bottom fb - 1 - r.top) * fb.pitch < 2 ^ 32

/-- Nothing is drawn; or red and blue are the same, no row and no column is an overflow, and a pixel takes
three bytes, or only those of the first column are drawn. -/
def FillFits (fb : Framebuffer) (r : Rect) (color : Rgba) : Prop :=
  ¬ r.Visible fb ∨ (color.red = color.blue ∧ RowsFit fb r ∧ ColumnsFit fb r ∧
    (fb.bpp = 24 ∨ r.right fb = 1))

instance (fb : Framebuffer) (r : Rect) : Decidable (ColumnsFit fb r) := inferInstanceAs (Decidable (_ < _))

instance (fb : Framebuffer) (r : Rect) : Decidable (RowsFit fb r) := inferInstanceAs (Decidable (_ < _))

instance (fb : Framebuffer) (r : Rect) (color : Rgba) : Decidable (FillFits fb r color) :=
  inferInstanceAs (Decidable (_ ∨ _))

instance nontrivial_uint8 : Nontrivial UInt8 := ⟨0, 1, by decide⟩

section Agree

variable {fb : Framebuffer} {r : Rect} {color : Rgba}

/-- The bytes of a pixel, by their number. -/
theorem pixelAt_iff {b₀ b₁ b₂ b : UInt8} {px a : ℕ} : PixelAt b₀ b₁ b₂ px a b ↔
    ∃ d < 3, a = px + d ∧ b = if d = 0 then b₀ else if d = 1 then b₁ else b₂ := by
  constructor
  · rintro (⟨rfl, rfl⟩ | ⟨rfl, rfl⟩ | ⟨rfl, rfl⟩)
    · exact ⟨0, by decide, rfl, rfl⟩
    · exact ⟨1, by decide, rfl, rfl⟩
    · exact ⟨2, by decide, rfl, rfl⟩
  · rintro ⟨d, hd, rfl, rfl⟩
    obtain rfl | rfl | rfl : d = 0 ∨ d = 1 ∨ d = 2 := by omega
    · exact Or.inl ⟨rfl, rfl⟩
    · exact Or.inr (Or.inl ⟨rfl, rfl⟩)
    · exact Or.inr (Or.inr ⟨rfl, rfl⟩)

/-- The bytes between two pixels, for either function. -/
theorem pixel24Sz_le (fb : Framebuffer) : 3 ≤ pixel24Sz ∧ pixel24Sz ≤ fb.bpp / 8 := by
  unfold pixel24Sz
  have hbpp := fb.bpp_eq
  omega

theorem depth_le (fb : Framebuffer) : 3 ≤ fb.bpp / 8 ∧ fb.bpp / 8 ≤ fb.bpp / 8 :=
  ⟨(pixel24Sz_le fb).1.trans (pixel24Sz_le fb).2, le_rfl⟩

/-- A pixel lies in its row. -/
theorem column_lt {sz k d : ℕ} (hsz : 3 ≤ sz ∧ sz ≤ fb.bpp / 8) (hk : k < r.right fb) (hd : d < 3) :
    k * sz + d < fb.pitch := by
  have hright : r.right fb ≤ fb.width := min_le_right _ _
  have hmul : (k + 1) * sz ≤ fb.width * (fb.bpp / 8) := Nat.mul_le_mul (by omega) hsz.2
  have hpitch := fb.pitch_ge
  rw [Nat.succ_mul] at hmul
  omega

/-- An earlier row, or column, ends before a later one begins. -/
theorem mul_add_le {p i j : ℕ} (h : i < j) : i * p + p ≤ j * p := by
  rw [← Nat.succ_mul]
  exact Nat.mul_le_mul_right p h

/-- The rows of `gop_blit` follow each other as the ones of `gop_fill_rect` do. -/
theorem rowStart_eq (hrows : RowsFit fb r) {i : ℕ} (hi : r.top ≤ i ∧ i < r.bottom fb) :
    rowStart fb i = rowStart fb r.top + (i - r.top) * fb.pitch := by
  have hle : (i - r.top) * fb.pitch ≤ (r.bottom fb - 1 - r.top) * fb.pitch :=
    Nat.mul_le_mul_right _ (by omega)
  have hsum : i * fb.pitch = r.top * fb.pitch + (i - r.top) * fb.pitch := by
    rw [← Nat.add_mul, Nat.add_sub_cancel' hi.1]
  unfold RowsFit rowStart at *
  rw [hsum]
  omega

/-- **Without wrapping** the pixels that are drawn one by one lie in rows. -/
theorem blitBytes_iff (hrows : RowsFit fb r) (a : ℕ) (b : UInt8) : BlitBytes fb r color a b ↔
    RectBytes fb r (fb.bpp / 8) color.blue color.green color.red a b := by
  refine exists_congr fun i => exists_congr fun k => and_congr_right fun hi => and_congr_right fun _ => ?_
  rw [rowStart_eq hrows hi, column]

/-- **No byte belongs to two pixels**: at a byte of a pixel there is one value. -/
theorem rectBytes_at {sz i k d : ℕ} (b₀ b₁ b₂ : UInt8) (hsz : 3 ≤ sz ∧ sz ≤ fb.bpp / 8)
    (hi : r.top ≤ i ∧ i < r.bottom fb) (hk : r.left ≤ k ∧ k < r.right fb) (hd : d < 3) (b : UInt8) :
    RectBytes fb r sz b₀ b₁ b₂ (rowStart fb r.top + (i - r.top) * fb.pitch + k * sz + d) b ↔
      b = if d = 0 then b₀ else if d = 1 then b₁ else b₂ := by
  constructor
  · rintro ⟨i', k', hi', hk', hpixel⟩
    obtain ⟨d', hd', ha, hb⟩ := pixelAt_iff.1 hpixel
    have hlt := column_lt hsz hk.2 hd
    have hlt' := column_lt hsz hk'.2 hd'
    obtain hne | hne | heq : i - r.top < i' - r.top ∨ i' - r.top < i - r.top ∨ i - r.top = i' - r.top := by
      omega
    · have hrow := mul_add_le (p := fb.pitch) hne
      omega
    · have hrow := mul_add_le (p := fb.pitch) hne
      omega
    · rw [heq] at ha
      obtain hne | hne | rfl : k < k' ∨ k' < k ∨ k = k' := by omega
      · have hcol := mul_add_le (p := sz) hne
        omega
      · have hcol := mul_add_le (p := sz) hne
        omega
      · obtain rfl : d = d' := by omega
        exact hb
  · rintro rfl
    exact ⟨i, k, hi, hk, pixelAt_iff.2 ⟨d, hd, rfl, rfl⟩⟩

theorem rectBytes_unique {sz a : ℕ} {b₀ b₁ b₂ b b' : UInt8} (hsz : 3 ≤ sz ∧ sz ≤ fb.bpp / 8)
    (h : RectBytes fb r sz b₀ b₁ b₂ a b) (h' : RectBytes fb r sz b₀ b₁ b₂ a b') : b = b' := by
  obtain ⟨i, k, hi, hk, hpixel⟩ := h
  obtain ⟨d, hd, rfl, rfl⟩ := pixelAt_iff.1 hpixel
  exact ((rectBytes_at b₀ b₁ b₂ hsz hi hk hd b').1 h').symm

/-- **Where everything fits**, both paint the same bytes. -/
theorem bytes_iff (h : FillFits fb r color) (a : ℕ) (b : UInt8) :
    BlitBytes fb r color a b ↔ FillBytes fb r color a b := by
  rcases h with hout | ⟨hcolor, hrows, -, hdepth⟩
  · exact ⟨fun ⟨_, _, hi, hk, _⟩ => absurd ⟨hk.1.trans_lt hk.2, hi.1.trans_lt hi.2⟩ hout,
      fun ⟨_, _, hi, hk, _⟩ => absurd ⟨hk.1.trans_lt hk.2, hi.1.trans_lt hi.2⟩ hout⟩
  · rw [blitBytes_iff hrows, hcolor]
    refine exists_congr fun i => exists_congr fun k => and_congr_right fun _ => and_congr_right fun hk => ?_
    have hcolumn : k * (fb.bpp / 8) = k * pixel24Sz := by
      rcases hdepth with hbpp | hone
      · rw [hbpp]
        rfl
      · obtain rfl : k = 0 := by omega
        rw [Nat.zero_mul, Nat.zero_mul]
    rw [hcolumn, hcolor]

theorem FillFits.agrees (h : FillFits fb r color) : Agrees fb r color := by
  intro mem
  have hcolumns : r.Visible fb → ColumnsFit fb r := fun hv => by
    rcases h with hout | h
    · exact absurd hv hout
    · exact h.2.2.1
  obtain ⟨mem', hmem', hpaint⟩ := blitRect_paints color hcolumns mem
  rw [hmem', Option.some_inj]
  exact ((gopFillRect_paints fb r color mem).eq_of_iff hpaint (fun a b => (bytes_iff h a b).symm)
    fun a b b' => rectBytes_unique (pixel24Sz_le fb)).symm

/-- Where both agree, both have painted the framebuffer. -/
theorem Agrees.paints (h : Agrees fb r color) (hvisible : r.Visible fb) :
    ColumnsFit fb r ∧ ∀ mem, ∃ mem', Paints (BlitBytes fb r color) mem mem' ∧
      Paints (FillBytes fb r color) mem mem' := by
  have hcolumns : ColumnsFit fb r := by
    by_contra hfit
    cases (blitRect_none hvisible hfit fun _ => 0).symm.trans (h fun _ => 0)
  refine ⟨hcolumns, fun mem => ?_⟩
  obtain ⟨mem', hmem', hpaint⟩ := blitRect_paints color (fun _ => hcolumns) mem
  obtain rfl := Option.some_inj.1 (hmem'.symm.trans (h mem))
  exact ⟨_, hpaint, gopFillRect_paints fb r color mem⟩

/-- **Rows that wrap** are painted elsewhere: the last byte of the rectangle is not. -/
theorem Agrees.rowsFit (h : Agrees fb r color) (hvisible : r.Visible fb) : RowsFit fb r := by
  by_contra hwrap
  obtain ⟨hcolumns, hrows⟩ := hvisible
  obtain ⟨b, i, k, hi, hk, hpixel⟩ := Paints.exists_of_both (h.paints ⟨hcolumns, hrows⟩).2
    (rectBytes_at _ _ _ (pixel24Sz_le fb) (i := r.bottom fb - 1) (k := r.right fb - 1) (d := 2) (by omega)
      (by omega) (by decide))
  obtain ⟨d, hd, ha, -⟩ := pixelAt_iff.1 hpixel
  have hcol : column fb k + d < fb.pitch :=
    column_lt (depth_le fb) hk.2 hd
  have hpitch := fb.pitch_lt
  have hsum : i * fb.pitch = r.top * fb.pitch + (i - r.top) * fb.pitch := by
    rw [← Nat.add_mul, Nat.add_sub_cancel' hi.1]
  unfold RowsFit rowStart at *
  rw [hsum] at ha
  rcases Nat.lt_or_ge (i - r.top) (r.bottom fb - 1 - r.top) with hlt | hge
  · have hrow := mul_add_le (p := fb.pitch) hlt
    omega
  · have hlast : i - r.top = r.bottom fb - 1 - r.top := by omega
    rw [hlast] at ha
    omega

/-- **Pixels of four bytes** are painted elsewhere, but for the first one of a row. -/
theorem Agrees.depth (h : Agrees fb r color) (hvisible : r.Visible fb) :
    fb.bpp = 24 ∨ r.right fb = 1 := by
  have hfit := h.rowsFit hvisible
  obtain ⟨hcolumns, hrows⟩ := hvisible
  rcases fb.bpp_eq with hbpp | hbpp
  · exact Or.inl hbpp
  by_contra hne
  have hlast := rectBytes_at color.blue color.green color.red (d := 2)
    (depth_le fb)
    (show r.top ≤ r.bottom fb - 1 ∧ r.bottom fb - 1 < r.bottom fb by omega)
    (show r.left ≤ r.right fb - 1 ∧ r.right fb - 1 < r.right fb by omega) (by decide)
  obtain ⟨b, i, k, hi, hk, hpixel⟩ := Paints.exists_of_both
    (fun mem => (h.paints ⟨hcolumns, hrows⟩).2 mem |>.imp fun _ h => h.symm)
    (fun b => (blitBytes_iff hfit _ b).trans (hlast b))
  obtain ⟨d, hd, ha, -⟩ := pixelAt_iff.1 hpixel
  have hrow : (i - r.top) * fb.pitch ≤ (r.bottom fb - 1 - r.top) * fb.pitch :=
    Nat.mul_le_mul_right _ (by omega)
  rw [hbpp] at ha
  unfold pixel24Sz at ha
  omega

/-- **The bytes are stored in the other order.** -/
theorem Agrees.red_eq_blue (h : Agrees fb r color) (hvisible : r.Visible fb) : color.red = color.blue := by
  have hfit := h.rowsFit hvisible
  have hdepth := h.depth hvisible
  obtain ⟨mem', hblit, hfill⟩ := (h.paints hvisible).2 fun _ => 0
  obtain ⟨hcolumns, hrows⟩ := hvisible
  have hfirst : r.left * pixel24Sz = r.left * (fb.bpp / 8) := by
    rcases hdepth with hbpp | hone
    · rw [hbpp]
      rfl
    · have hzero : r.left = 0 := by omega
      rw [hzero, Nat.zero_mul, Nat.zero_mul]
  have hred := rectBytes_at color.red color.green color.blue (d := 0) (pixel24Sz_le fb)
    ⟨le_rfl, hrows⟩ ⟨le_rfl, hcolumns⟩ (by decide)
  have hblue := rectBytes_at color.blue color.green color.red (d := 0)
    (depth_le fb) ⟨le_rfl, hrows⟩ ⟨le_rfl, hcolumns⟩
    (by decide)
  rw [hfirst] at hred
  have hshown := (hred _).1 (hfill.of_exists _ ((hred _).2 rfl))
  have hshown' := (hblue _).1 ((blitBytes_iff hfit _ _).1
    (hblit.of_exists _ ((blitBytes_iff hfit _ _).2 ((hblue _).2 rfl))))
  exact hshown.symm.trans hshown'

end Agree

/-- **When both agree**: when nothing is drawn, or the colour is the same in both orders, no product
overflows, and the pixels lie at the same places. -/
theorem fillRect_iff (fb : Framebuffer) (r : Rect) (color : Rgba) :
    Agrees fb r color ↔ FillFits fb r color := by
  refine ⟨fun h => ?_, FillFits.agrees⟩
  by_cases hvisible : r.Visible fb
  · exact Or.inr ⟨h.red_eq_blue hvisible, h.rowsFit hvisible, (h.paints hvisible).1, h.depth hvisible⟩
  · exact Or.inl hvisible

/-- A screen of one pixel. -/
def onePixel : Framebuffer :=
  ⟨1, 1, 3, 24, by decide, by decide, by decide, Or.inl rfl, by decide⟩

/-- Its pixel. -/
def corner : Rect :=
  ⟨0, 0, 1, 1, by decide, by decide, by decide, by decide, by decide, by decide⟩

/-- **A red pixel** is filled with blue. -/
theorem fillRect_red : ¬ Agrees onePixel corner ⟨255, 0, 0⟩ := by
  intro h
  have hbyte := congrArg (Option.map fun mem => mem 0) (h fun _ => 0)
  exact absurd hbyte (by decide)

end Gop

end SyncKernel
