/-
**What the framebuffer shows.**

The operations of the framebuffer write bytes.  As long as the size of the framebuffer is a number of 32
bits, the pixels lie apart in its memory, and each operation is one on pictures: a pixel is set, the
picture moves up, all of it is black, or a rectangle is set.

`gop_fill_rect` stores the bytes of a colour in the other order, and its pixels are those of the picture
only where a pixel takes three bytes.

Main definitions:

* `Gop.gopScroll`, `Gop.gopClear` — the operations that are no loops over `putPixel`, or over all of it;
* `Gop.picture` — what the pixels show;
* `Gop.Framebuffer.Fits` — the framebuffers whose size is a number of 32 bits;
* `Gop.KeepsBehind` — the bytes behind the framebuffer stay as they are.

Main results:

* `Gop.picture_gopBlit`, `Gop.picture_gopScroll`, `Gop.picture_gopClear`, `Gop.picture_gopFillRect` —
  the operations on pictures;
* `Gop.keepsBehind_gopBlit`, `Gop.keepsBehind_gopScroll`, `Gop.keepsBehind_gopClear`,
  `Gop.keepsBehind_gopFillRect` — **none writes outside of the framebuffer**.
-/

import SyncKernel.Gop.Rect
import SyncKernel.Kstring.Memory

set_option relaxedAutoImplicit false
set_option autoImplicit false

namespace SyncKernel

namespace Gop

/-! ### Scrolling and clearing -/

/-- `gop_scroll`.  The two products are those of `u32`. -/
def gopScroll (fb : Framebuffer) (pxRows : ℕ) (mem : Memory) : Memory :=
  let bytesRow := pxRows * fb.pitch % 2 ^ 32
  let bytesTotal := fb.height * fb.pitch % 2 ^ 32
  let mem := (Kstring.memmove mem 0 bytesRow (Word.sub bytesTotal bytesRow)).2
  (Kstring.memset ⟨mem, false⟩ (Word.sub bytesTotal bytesRow) 0 bytesRow).2.mem

/-- `gop_clear`, whose products are both those of `u32`. -/
def gopClear (fb : Framebuffer) (mem : Memory) : Memory :=
  let bpp := fb.bpp >>> 3
  (List.range fb.height).foldl
    (fun mem y => (List.range fb.width).foldl
      (fun mem x => putPixel 0 0 0 mem (y * fb.pitch % 2 ^ 32 + x * bpp % 2 ^ 32)) mem) mem

/-! ### Pictures -/

/-- The three bytes of a pixel, in the order of memory. -/
abbrev Pixel := UInt8 × UInt8 × UInt8

/-- A pixel that was cleared. -/
def black : Pixel := (0, 0, 0)

/-- The pixel of the column `p.1` in the row `p.2` is on the screen. -/
def OnPicture (fb : Framebuffer) (p : ℕ × ℕ) : Prop := p.1 < fb.width ∧ p.2 < fb.height

instance (fb : Framebuffer) (p : ℕ × ℕ) : Decidable (OnPicture fb p) := inferInstanceAs (Decidable (_ ∧ _))

/-- The first byte of a pixel. -/
def place (fb : Framebuffer) (p : ℕ × ℕ) : ℕ := rowStart fb p.2 + column fb p.1

/-- What the framebuffer shows; around the screen it is black. -/
def picture (fb : Framebuffer) (mem : Memory) (p : ℕ × ℕ) : Pixel :=
  if OnPicture fb p then (mem (place fb p), mem (place fb p + 1), mem (place fb p + 2)) else black

/-- The size of the framebuffer is a `u32`, and the distance of two rows is no overflow of an `i32`. -/
structure Framebuffer.Fits (fb : Framebuffer) : Prop where
  total : fb.height * fb.pitch < 2 ^ 32
  row : fb.pitch ≤ 2 ^ 31

/-- What a pixel shows that `gop_blit` has set. -/
def blitted (c : Rgba) : Pixel := (c.blue, c.green, c.red)

/-- What a pixel shows that `gop_fill_rect` has set. -/
def filled (c : Rgba) : Pixel := (c.red, c.green, c.blue)

section Places

variable {fb : Framebuffer} {p q : ℕ × ℕ}

theorem rowStart_of_fits (hfit : fb.Fits) {y : ℕ} (hy : y < fb.height) : rowStart fb y = y * fb.pitch :=
  Nat.mod_eq_of_lt (Nat.lt_of_le_of_lt (Nat.mul_le_mul_right _ hy.le) hfit.total)

/-- A pixel ends in its row. -/
theorem column_add_le {x : ℕ} (hx : x < fb.width) : column fb x + 3 ≤ fb.pitch := by
  have hdepth := depth_le fb
  have hrow := mul_add_le (p := fb.bpp / 8) hx
  have hpitch := fb.pitch_ge
  unfold column
  omega

theorem column_lt_i32 (hfit : fb.Fits) {x : ℕ} (hx : x < fb.width) : column fb x < 2 ^ 31 := by
  have hcol := column_add_le hx
  have hrow := hfit.row
  omega

theorem place_eq (hfit : fb.Fits) (hp : OnPicture fb p) : place fb p = p.2 * fb.pitch + column fb p.1 := by
  rw [place, rowStart_of_fits hfit hp.2]

/-- **Pixels lie apart.** -/
theorem place_apart (hfit : fb.Fits) (hp : OnPicture fb p) (hq : OnPicture fb q) (hne : p ≠ q) :
    place fb p + 3 ≤ place fb q ∨ place fb q + 3 ≤ place fb p := by
  rw [place_eq hfit hp, place_eq hfit hq]
  have hcolp := column_add_le hp.1
  have hcolq := column_add_le hq.1
  rcases Nat.lt_trichotomy p.2 q.2 with hrow | hrow | hrow
  · have hlt := mul_add_le (p := fb.pitch) hrow
    omega
  · rw [hrow]
    have hdepth := depth_le fb
    unfold column
    rcases Nat.lt_trichotomy p.1 q.1 with hcol | hcol | hcol
    · have hlt := mul_add_le (p := fb.bpp / 8) hcol
      omega
    · exact absurd (Prod.ext hcol hrow) hne
    · have hlt := mul_add_le (p := fb.bpp / 8) hcol
      omega
  · have hlt := mul_add_le (p := fb.pitch) hrow
    omega

theorem putPixel_of_apart (b₀ b₁ b₂ : UInt8) (mem : Memory) {px a : ℕ} (h : a < px ∨ px + 3 ≤ a) :
    putPixel b₀ b₁ b₂ mem px a = mem a := by
  rw [putPixel, Function.update_of_ne (by omega), Function.update_of_ne (by omega),
    Function.update_of_ne (by omega)]

/-- **A pixel is set.** -/
theorem picture_putPixel (hfit : fb.Fits) (hp : OnPicture fb p) (b₀ b₁ b₂ : UInt8) (mem : Memory) :
    picture fb (putPixel b₀ b₁ b₂ mem (place fb p)) =
      Function.update (picture fb mem) p (b₀, b₁, b₂) := by
  funext q
  by_cases hpq : q = p
  · subst hpq
    rw [picture, if_pos hp, Function.update_self, putPixel]
    simp
  · rw [Function.update_of_ne hpq, picture, picture]
    by_cases hq : OnPicture fb q
    · have hapart := place_apart hfit hq hp hpq
      rw [if_pos hq, if_pos hq, putPixel_of_apart _ _ _ _ (by omega), putPixel_of_apart _ _ _ _ (by omega),
        putPixel_of_apart _ _ _ _ (by omega)]
    · rw [if_neg hq, if_neg hq]

end Places

/-! ### The operations -/

section Operations

variable {fb : Framebuffer}

/-- `gop_blit` sets the pixel, if it is on the screen. -/
theorem picture_gopBlit (hfit : fb.Fits) (x y : ℤ) (c : Rgba) (mem : Memory) :
    ∃ mem', gopBlit fb x y c mem = some mem' ∧
      Paints (fun p b => (((p.1 : ℤ) = x ∧ (p.2 : ℤ) = y) ∧ OnPicture fb p) ∧ b = blitted c)
        (picture fb mem) (picture fb mem') := by
  by_cases hin : (0 ≤ x ∧ x < fb.width) ∧ 0 ≤ y ∧ y < fb.height
  · obtain ⟨hx, hy⟩ := hin
    have hp : OnPicture fb (x.toNat, y.toNat) := ⟨by dsimp only; omega, by dsimp only; omega⟩
    have hcol : column fb x.toNat < 2 ^ 31 := column_lt_i32 hfit hp.1
    refine ⟨_, (gopBlit_inside mem hx hy).trans (if_neg (Nat.not_le.2 hcol)), ?_⟩
    change Paints _ _ (picture fb (putPixel _ _ _ mem (place fb (x.toNat, y.toNat))))
    rw [picture_putPixel hfit hp]
    refine (Paints.update _ _ _).congr fun p b => and_congr_left fun _ => ⟨?_, ?_⟩
    · rintro rfl
      exact ⟨⟨by dsimp only; omega, by dsimp only; omega⟩, hp⟩
    · rintro ⟨⟨hpx, hpy⟩, -⟩
      exact Prod.ext (by dsimp only; omega) (by dsimp only; omega)
  · refine ⟨mem, gopBlit_outside mem (by omega), (Paints.refl _).congr fun p b => ⟨False.elim, ?_⟩⟩
    rintro ⟨⟨⟨hpx, hpy⟩, hp⟩, -⟩
    unfold OnPicture at hp
    omega

/-- `gop_scroll` as a copy and a fill. -/
theorem gopScroll_eq (hfit : fb.Fits) {pxRows : ℕ} (hle : pxRows ≤ fb.height) (mem : Memory) :
    gopScroll fb pxRows mem =
      Bytes.fill (Bytes.copy mem 0 (pxRows * fb.pitch) ((fb.height - pxRows) * fb.pitch))
        ((fb.height - pxRows) * fb.pitch) (pxRows * fb.pitch) 0 := by
  have htotal := hfit.total
  have hsum : (fb.height - pxRows) * fb.pitch + pxRows * fb.pitch = fb.height * fb.pitch := by
    rw [← Nat.add_mul, Nat.sub_add_cancel hle]
  have hrow : pxRows * fb.pitch % 2 ^ 32 = pxRows * fb.pitch := Nat.mod_eq_of_lt (by omega)
  have hall : fb.height * fb.pitch % 2 ^ 32 = fb.height * fb.pitch := Nat.mod_eq_of_lt htotal
  have hsub : Word.sub (fb.height * fb.pitch) (pxRows * fb.pitch) = (fb.height - pxRows) * fb.pitch := by
    rw [Word.sub_of_le (by omega) (by omega)]
    omega
  rw [gopScroll]
  simp only [hrow, hall, hsub]
  rw [Kstring.memmove_eq (by omega) (by omega), Kstring.memset_spec (by omega)]
  rfl

/-- **The picture moves up**, and rows of black pixels follow it. -/
theorem picture_gopScroll (hfit : fb.Fits) {pxRows : ℕ} (hle : pxRows ≤ fb.height) (mem : Memory) :
    picture fb (gopScroll fb pxRows mem) = fun p =>
      if p.2 + pxRows < fb.height then picture fb mem (p.1, p.2 + pxRows) else black := by
  rw [gopScroll_eq hfit hle]
  funext p
  by_cases hp : OnPicture fb p
  · have hcol := column_add_le hp.1
    rw [picture, if_pos hp, place_eq hfit hp]
    by_cases hlow : p.2 + pxRows < fb.height
    · -- the byte comes from `pxRows` rows below
      have hq : OnPicture fb (p.1, p.2 + pxRows) := ⟨hp.1, hlow⟩
      have hrow := mul_add_le (p := fb.pitch) (show p.2 < fb.height - pxRows by omega)
      have hbyte : ∀ d < 3, Bytes.fill (Bytes.copy mem 0 (pxRows * fb.pitch) ((fb.height - pxRows) * fb.pitch))
          ((fb.height - pxRows) * fb.pitch) (pxRows * fb.pitch) 0 (p.2 * fb.pitch + column fb p.1 + d) =
            mem (place fb (p.1, p.2 + pxRows) + d) := by
        intro d hd
        rw [Bytes.fill_of_notMem (by omega), place_eq hfit hq]
        have hcopy : Bytes.copy mem 0 (pxRows * fb.pitch) ((fb.height - pxRows) * fb.pitch)
            (0 + (p.2 * fb.pitch + column fb p.1 + d)) =
              mem (pxRows * fb.pitch + (p.2 * fb.pitch + column fb p.1 + d)) :=
          Bytes.copy_of_mem (by omega)
        rw [Nat.zero_add] at hcopy
        rw [hcopy]
        congr 1
        dsimp only
        rw [Nat.add_mul]
        omega
      rw [if_pos hlow, picture, if_pos hq]
      exact Prod.ext (hbyte 0 (by decide)) (Prod.ext (hbyte 1 (by decide)) (hbyte 2 (by decide)))
    · have hrow := mul_add_le (p := fb.pitch) hp.2
      have hblank : (fb.height - pxRows) * fb.pitch ≤ p.2 * fb.pitch := Nat.mul_le_mul_right _ (by omega)
      have hsum : (fb.height - pxRows) * fb.pitch + pxRows * fb.pitch = fb.height * fb.pitch := by
        rw [← Nat.add_mul, Nat.sub_add_cancel hle]
      rw [if_neg hlow, Bytes.fill_of_mem (by omega) (by omega), Bytes.fill_of_mem (by omega) (by omega),
        Bytes.fill_of_mem (by omega) (by omega)]
      rfl
  · rw [picture, if_neg hp]
    by_cases hlow : p.2 + pxRows < fb.height
    · rw [if_pos hlow, picture, if_neg fun hq => hp ⟨hq.1, by have := hq.2; dsimp only at this; omega⟩]
    · rw [if_neg hlow]

/-- The place of a pixel, as `gop_clear` computes it. -/
theorem gopClear_place (hfit : fb.Fits) {x : ℕ} (hx : x < fb.width) (y : ℕ) :
    y * fb.pitch % 2 ^ 32 + x * (fb.bpp >>> 3) % 2 ^ 32 = place fb (x, y) := by
  have hdepth : fb.bpp >>> 3 = fb.bpp / 8 := Nat.shiftRight_eq_div_pow _ 3
  have hlt := column_lt_i32 hfit hx
  have hcol : x * (fb.bpp >>> 3) % 2 ^ 32 = column fb x := by
    rw [hdepth]
    exact Nat.mod_eq_of_lt (by unfold column at hlt; omega)
  rw [hcol]
  rfl

/-- **All of it is black.** -/
theorem picture_gopClear (hfit : fb.Fits) (mem : Memory) : picture fb (gopClear fb mem) = fun _ => black := by
  have hpaint : Paints (fun p b => ∃ y ∈ List.range fb.height, ∃ x ∈ List.range fb.width,
      p = (x, y) ∧ b = black) (picture fb mem) (picture fb (gopClear fb mem)) := by
    refine Paints.foldl_view (picture fb) (fun y hy mem => Paints.foldl_view (picture fb)
      (fun x hx mem => ?_) mem) mem
    have hp : OnPicture fb (x, y) := ⟨List.mem_range.1 hx, List.mem_range.1 hy⟩
    rw [gopClear_place hfit hp.1, picture_putPixel hfit hp]
    exact Paints.update _ _ _
  funext p
  by_cases hp : OnPicture fb p
  · obtain ⟨y, -, x, -, -, hblack⟩ := hpaint.of_exists black
      ⟨p.2, List.mem_range.2 hp.2, p.1, List.mem_range.2 hp.1, rfl, rfl⟩
    exact hblack
  · rw [picture, if_neg hp]

/-- The pixel is in the rectangle. -/
def Rect.Has (r : Rect) (p : ℕ × ℕ) : Prop :=
  (r.x ≤ p.1 ∧ (p.1 : ℤ) < r.x + r.w) ∧ r.y ≤ p.2 ∧ (p.2 : ℤ) < r.y + r.h

instance (r : Rect) (p : ℕ × ℕ) : Decidable (r.Has p) := inferInstanceAs (Decidable (_ ∧ _))

/-- With three bytes for a pixel, a rectangle is filled as its pixels are set one by one, with red and
blue exchanged. -/
theorem gopFillRect_eq_blitRect (hfit : fb.Fits) (hbpp : fb.bpp = 24) (r : Rect) (c : Rgba) (mem : Memory) :
    blitRect fb r ⟨c.blue, c.green, c.red⟩ mem = some (gopFillRect fb r c mem) := by
  have hcolumns : r.Visible fb → ColumnsFit fb r := by
    rintro ⟨hleft, -⟩
    exact column_lt_i32 hfit (Rect.column_iff.1 ⟨Nat.le_sub_one_of_lt hleft, by omega⟩).2
  obtain ⟨mem', hrun, hpaint⟩ := blitRect_paints ⟨c.blue, c.green, c.red⟩ hcolumns mem
  have hiff : ∀ a b, BlitBytes fb r ⟨c.blue, c.green, c.red⟩ a b ↔ FillBytes fb r c a b := by
    intro a b
    by_cases hvisible : r.Visible fb
    · have hrows : RowsFit fb r := by
        have htop := Rect.row_iff.1 ⟨le_rfl, hvisible.2⟩
        have hlast := Rect.row_iff.1 ⟨Nat.le_sub_one_of_lt hvisible.2, Nat.sub_one_lt_of_lt hvisible.2⟩
        have hsum : r.top * fb.pitch + (r.bottom fb - 1 - r.top) * fb.pitch = (r.bottom fb - 1) * fb.pitch := by
          have hlt := hvisible.2
          rw [← Nat.add_mul]
          congr 1
          omega
        have hle : (r.bottom fb - 1) * fb.pitch ≤ fb.height * fb.pitch := Nat.mul_le_mul_right _ hlast.2.le
        have htotal := hfit.total
        rw [RowsFit, rowStart_of_fits hfit htop.2]
        omega
      have hsz : fb.bpp / 8 = pixel24Sz := by
        rw [hbpp]
        rfl
      rw [blitBytes_iff hrows, hsz]
      rfl
    · constructor
      · rintro ⟨i, k, hi, hk, -⟩
        exact absurd ⟨hk.1.trans_lt hk.2, hi.1.trans_lt hi.2⟩ hvisible
      · rintro ⟨i, k, hi, hk, -⟩
        exact absurd ⟨hk.1.trans_lt hk.2, hi.1.trans_lt hi.2⟩ hvisible
  rw [hrun, (gopFillRect_paints fb r c mem).eq_of_iff hpaint (fun a b => (hiff a b).symm)
    fun a b b' => rectBytes_unique (pixel24Sz_le fb)]

/-- **A rectangle is set**, where a pixel takes three bytes. -/
theorem picture_gopFillRect (hfit : fb.Fits) (hbpp : fb.bpp = 24) (r : Rect) (c : Rgba) (mem : Memory) :
    Paints (fun p b => (r.Has p ∧ OnPicture fb p) ∧ b = filled c) (picture fb mem)
      (picture fb (gopFillRect fb r c mem)) := by
  obtain ⟨mem', hrun, hpaint⟩ := Paints.foldlM_view (picture fb) (l := List.range r.h.toNat)
    (fun j _ mem => Paints.foldlM_view (picture fb) (l := List.range r.w.toNat)
      (fun i _ mem => picture_gopBlit hfit (r.x + i) (r.y + j) ⟨c.blue, c.green, c.red⟩ mem) mem) mem
  obtain rfl : mem' = gopFillRect fb r c mem :=
    Option.some_inj.1 (hrun.symm.trans (gopFillRect_eq_blitRect hfit hbpp r c mem))
  refine hpaint.congr fun p b => ⟨?_, ?_⟩
  · rintro ⟨j, hj, i, hi, ⟨⟨hx, hy⟩, hp⟩, hb⟩
    rw [List.mem_range] at hi hj
    exact ⟨⟨⟨by omega, by omega⟩, hp⟩, hb⟩
  · rintro ⟨⟨⟨hx, hy⟩, hp⟩, hb⟩
    exact ⟨(p.2 - r.y).toNat, List.mem_range.2 (by omega), (p.1 - r.x).toNat, List.mem_range.2 (by omega),
      ⟨⟨by omega, by omega⟩, hp⟩, hb⟩

/-- Nothing is drawn of a rectangle without width or height. -/
theorem gopFillRect_empty {r : Rect} (h : r.w ≤ 0 ∨ r.h ≤ 0) (c : Rgba) (mem : Memory) :
    gopFillRect fb r c mem = mem := by
  funext a
  rcases gopFillRect_paints fb r c mem a with ⟨i, k, hi, hk, -⟩ | ⟨-, heq⟩
  · rw [Rect.row_iff] at hi
    rw [Rect.column_iff] at hk
    omega
  · exact heq

end Operations

/-! ### Behind the framebuffer -/

/-- The bytes behind the last row of the framebuffer are as they were. -/
def KeepsBehind (fb : Framebuffer) (mem mem' : Memory) : Prop :=
  ∀ a, fb.height * fb.pitch ≤ a → mem' a = mem a

section Behind

variable {fb : Framebuffer} {mem mem' mem'' : Memory}

theorem KeepsBehind.refl (fb : Framebuffer) (mem : Memory) : KeepsBehind fb mem mem := fun _ _ => rfl

theorem KeepsBehind.trans (h : KeepsBehind fb mem mem') (h' : KeepsBehind fb mem' mem'') :
    KeepsBehind fb mem mem'' := fun a ha => (h' a ha).trans (h a ha)

/-- The pixels of the screen end before. -/
theorem place_add_le (hfit : fb.Fits) {p : ℕ × ℕ} (hp : OnPicture fb p) :
    place fb p + 3 ≤ fb.height * fb.pitch := by
  have hcol := column_add_le hp.1
  have hrow := mul_add_le (p := fb.pitch) hp.2
  rw [place_eq hfit hp]
  omega

theorem keepsBehind_putPixel (hfit : fb.Fits) {p : ℕ × ℕ} (hp : OnPicture fb p) (b₀ b₁ b₂ : UInt8)
    (mem : Memory) : KeepsBehind fb mem (putPixel b₀ b₁ b₂ mem (place fb p)) := by
  intro a ha
  have hle := place_add_le hfit hp
  exact putPixel_of_apart _ _ _ _ (Or.inr (by omega))

theorem keepsBehind_gopBlit (hfit : fb.Fits) {x y : ℤ} {c : Rgba} (h : gopBlit fb x y c mem = some mem') :
    KeepsBehind fb mem mem' := by
  by_cases hin : (0 ≤ x ∧ x < fb.width) ∧ 0 ≤ y ∧ y < fb.height
  · obtain ⟨hx, hy⟩ := hin
    have hp : OnPicture fb (x.toNat, y.toNat) := ⟨by dsimp only; omega, by dsimp only; omega⟩
    have hcol : column fb x.toNat < 2 ^ 31 := column_lt_i32 hfit hp.1
    rw [gopBlit_inside mem hx hy, if_neg (Nat.not_le.2 hcol)] at h
    rw [← Option.some_inj.1 h]
    exact keepsBehind_putPixel hfit hp _ _ _ mem
  · rw [gopBlit_outside mem (by omega)] at h
    rw [← Option.some_inj.1 h]
    exact KeepsBehind.refl fb mem

theorem keepsBehind_gopScroll (hfit : fb.Fits) {pxRows : ℕ} (hle : pxRows ≤ fb.height) (mem : Memory) :
    KeepsBehind fb mem (gopScroll fb pxRows mem) := by
  intro a ha
  have hsum : (fb.height - pxRows) * fb.pitch + pxRows * fb.pitch = fb.height * fb.pitch := by
    rw [← Nat.add_mul, Nat.sub_add_cancel hle]
  rw [gopScroll_eq hfit hle, Bytes.fill_of_notMem (Or.inr (by omega)), Bytes.copy_of_notMem (Or.inr (by omega))]

theorem keepsBehind_gopClear (hfit : fb.Fits) (mem : Memory) : KeepsBehind fb mem (gopClear fb mem) := by
  refine List.foldlRecOn (List.range fb.height) _ (KeepsBehind.refl fb mem) fun mem₁ h₁ y hy => ?_
  refine List.foldlRecOn (List.range fb.width) _ h₁ fun mem₂ h₂ x hx => h₂.trans ?_
  have hp : OnPicture fb (x, y) := ⟨List.mem_range.1 hx, List.mem_range.1 hy⟩
  rw [gopClear_place hfit hp.1]
  exact keepsBehind_putPixel hfit hp _ _ _ mem₂

theorem keepsBehind_gopFillRect (hfit : fb.Fits) (r : Rect) (c : Rgba) (mem : Memory) :
    KeepsBehind fb mem (gopFillRect fb r c mem) := by
  intro a ha
  rcases gopFillRect_paints fb r c mem a with ⟨i, k, hi, hk, hat⟩ | ⟨-, heq⟩
  · -- a byte of a visible pixel is in its row
    have htop : r.top < fb.height := (Rect.row_iff.1 ⟨le_rfl, hi.1.trans_lt hi.2⟩).2
    have hrow := mul_add_le (p := fb.pitch) (Rect.row_iff.1 hi).2
    have hcol := column_lt (pixel24Sz_le fb) hk.2 (show 2 < 3 by decide)
    have hsum : r.top * fb.pitch + (i - r.top) * fb.pitch = i * fb.pitch := by
      rw [← Nat.add_mul, Nat.add_sub_cancel' hi.1]
    rw [rowStart_of_fits hfit htop] at hat
    rcases hat with ⟨rfl, -⟩ | ⟨rfl, -⟩ | ⟨rfl, -⟩ <;> omega
  · exact heq

end Behind

end Gop

end SyncKernel
