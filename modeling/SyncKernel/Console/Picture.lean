/-
**The framebuffer shows the console.**

The console draws marks in rows; the framebuffer has bytes.  A mark is a picture of one cell: the bits of a
glyph in one colour, or a rectangle in the other.  What the framebuffer shows is at each pixel the last
mark of its band that covers the pixel, and black where none does.

A run of calls on the framebuffer does not fail, returns what the same run on marks does, and shows what
that describes.  With what is known of the marks, the framebuffer shows the last lines of a text.

What carries this through a run is that marks are put only in the first row of a band that has room for a
cell.  So no mark is clipped at the bottom, no two bands meet in a pixel, and a scroll takes each band to
the place of the one above it as a whole.

Main definitions:

* `Console.Panel.display` — the console of a panel, with marks;
* `Console.Panel.Usual` — the panels on which the cursor moves by less than the screen;
* `Console.Covers`, `Console.shade`, `Console.render` — the picture of a mark, of a band and of all of it;
* `Console.Draws` — a framebuffer that shows the marks of a console.

Main results:

* `Console.Draws.putChar`, `Console.Draws.newl`, `Console.Draws.conCtrlBackspace` — the functions;
* `Console.run_draws` — **the framebuffer shows what a run draws**;
* `Console.writes_pictured` — **the framebuffer shows the last lines of a text**.
-/

import Mathlib.Data.List.Induction
import SyncKernel.Console.Lines
import SyncKernel.Console.Outside

set_option relaxedAutoImplicit false
set_option autoImplicit false

namespace SyncKernel

namespace Console

open Gop (OnPicture picture black)

/-! ### Marks and pictures -/

/-- The console of a panel, with marks instead of a framebuffer. -/
def Panel.display (P : Panel) : Display where
  blitPixel := true
  scroll := true
  fbW := P.fb.width
  fbH := P.fb.height
  cellW := P.font.pixelW.toNat
  cellH := P.font.pixelH.toNat
  glyphs c := ⟨(P.font.glyph c).width.toNat, (P.font.glyph c).height.toNat, (P.font.glyph c).xAdvance.toNat⟩
  cellH_pos := P.pixelH_pos
  cellH_lt := P.pixelH_lt
  fbW_lt := by
    have hwidth := P.fb.width_lt
    omega
  fbH_lt := by
    have hheight := P.fb.height_lt
    omega

/-- The glyph of a space fits on the screen.  What a backspace erases is filled as it is drawn: a pixel
takes three bytes, or the glyph of a space is empty. -/
structure Panel.Usual (P : Panel) : Prop where
  glyW_pos : 0 < glyW P.display
  glyW_le : glyW P.display ≤ P.fb.width
  erases : P.fb.bpp = 24 ∨ (P.font.glyph 0).width = 0 ∨ (P.font.glyph 0).height = 0

variable (P : Panel)

/-- The mark covers the pixel in the column `x`, `d` rows from the top of its cell. -/
def Covers : Mark → ℕ → ℤ → Prop
  | Mark.glyph c cx, x, d => P.font.lit (P.font.glyph (c - 0x20)) (x - cx) d
  | Mark.fill cx w h, x, d => (cx ≤ x ∧ x < cx + w) ∧ 0 ≤ d ∧ d < h

instance : ∀ (m : Mark) (x : ℕ) (d : ℤ), Decidable (Covers P m x d)
  | Mark.glyph c cx, x, d => inferInstanceAs (Decidable (P.font.lit (P.font.glyph (c - 0x20)) (x - cx) d))
  | Mark.fill cx w h, x, d => inferInstanceAs (Decidable ((cx ≤ x ∧ x < cx + w) ∧ 0 ≤ d ∧ d < h))

/-- The bytes of a pixel that the mark covers. -/
def colour : Mark → Gop.Pixel
  | Mark.glyph _ _ => Gop.blitted P.colorFg
  | Mark.fill _ _ _ => Gop.filled P.colorBg

/-- The pixel in the column `x`, `d` rows from the top of a band with the given marks. -/
def shade (ms : List Mark) (x d : ℕ) : Gop.Pixel :=
  ms.foldl (fun b m => if Covers P m x d then colour P m else b) black

/-- The picture of the rows of a console. -/
def render (rows : ℕ → List Mark) (p : ℕ × ℕ) : Gop.Pixel :=
  if OnPicture P.fb p then
    shade P (rows (p.2 / P.font.pixelH.toNat * P.font.pixelH.toNat)) p.1 (p.2 % P.font.pixelH.toNat)
  else black

/-- The framebuffer shows the marks of the console, which are in the first rows of bands with room for a
cell. -/
structure Draws (scr : Screen) (s : KernelConsole) : Prop where
  cx_eq : scr.cx = s.cx
  cy_eq : scr.cy = s.cy
  shows : picture P.fb scr.mem = render P s.rows
  rows : ∀ y, s.rows y ≠ [] → P.font.pixelH.toNat ∣ y ∧ y + P.font.pixelH.toNat ≤ P.fb.height

/-- The framebuffer shows the lines of a page up to the current one, the last of them in the band `c`: a
pixel has the colour of the foreground where a character of its line has a bit, and all others are
black. -/
structure Pictures (scr : Screen) (page : Page) (c : ℕ) : Prop where
  cx_eq : scr.cx = page.cx
  cy_eq : scr.cy = c * P.font.pixelH.toNat
  inside : scr.cy < P.fb.height
  enough : c ≤ page.lines.length
  shows : ∀ p, picture P.fb scr.mem p =
    if OnPicture P.fb p ∧ p.2 / P.font.pixelH.toNat ≤ c ∧
        ∃ m ∈ page.line (page.lines.length - c + p.2 / P.font.pixelH.toNat),
          Covers P m p.1 (p.2 % P.font.pixelH.toNat : ℕ) then
      Gop.blitted P.colorFg
    else black

section Marks

variable {P}

@[simp] theorem shade_nil (x d : ℕ) : shade P [] x d = black := rfl

/-- **The last mark is seen.** -/
theorem shade_concat (ms : List Mark) (m : Mark) (x d : ℕ) :
    shade P (ms ++ [m]) x d = if Covers P m x d then colour P m else shade P ms x d := by
  rw [shade, List.foldl_append]
  rfl

theorem Panel.Usual.display (hP : P.Usual) : P.display.Usual where
  fbW_lt := P.fb.width_lt
  fbH_lt := P.fb.height_lt
  cellW_lt := P.font.pixelW.toNat_lt
  width_lt _ := UInt8.toNat_lt _
  xAdvance_lt _ := UInt8.toNat_lt _
  glyW_pos := hP.glyW_pos
  glyW_le := hP.glyW_le

/-- The rows and columns of a screen are far from an overflow. -/
theorem Panel.small (hwidth : 0 < P.fb.width) : P.fb.width < 2 ^ 30 ∧ P.fb.height < 2 ^ 31 - 2 ^ 16 := by
  have hdepth := Gop.depth_le P.fb
  have hpitch := P.fb.pitch_ge
  have hrow := P.fits.row
  have htotal := P.fits.total
  have hcols : P.fb.width * 3 ≤ P.fb.width * (P.fb.bpp / 8) := Nat.mul_le_mul_left _ hdepth.1
  have hrows : P.fb.height * 3 ≤ P.fb.height * P.fb.pitch := Nat.mul_le_mul_left _ (by omega)
  omega

/-- The screen of a panel with columns draws. -/
theorem Panel.visible (hwidth : 0 < P.fb.width) : P.display.Visible :=
  ⟨rfl, hwidth, P.fb.width_lt, P.fb.height_lt⟩

/-- **A mark is drawn** in the first row of a band with room for a cell. -/
theorem Draws.mark {scr : Screen} {s : KernelConsole} (h : Draws P scr s) {m : Mark} {x y : ℕ}
    {mem : Gop.Memory} (hx : x < P.fb.width) (hy : P.font.pixelH.toNat ∣ y)
    (hroom : y + P.font.pixelH.toNat ≤ P.fb.height)
    (hin : ∀ x d, Covers P m x d → 0 ≤ d ∧ d < P.font.pixelH.toNat)
    (hpaint : Paints (fun p b => (Covers P m p.1 (p.2 - y : ℤ) ∧ OnPicture P.fb p) ∧ b = colour P m)
      (picture P.fb scr.mem) (picture P.fb mem)) :
    Draws P ⟨scr.cx, scr.cy, mem⟩ (Console.mark P.display m x y s) := by
  have hpos := P.pixelH_pos
  obtain ⟨hcx, hcy⟩ := mark_cursor P.display m x y s
  have hrows : (Console.mark P.display m x y s).rows = Function.update s.rows y (s.rows y ++ [m]) := by
    have hlt : y < P.display.fbH := Nat.lt_of_lt_of_le (by omega) hroom
    rw [Console.mark, if_pos ((P.visible (Nat.zero_lt_of_lt hx)).passes hx hlt)]
  refine ⟨h.cx_eq.trans hcx.symm, h.cy_eq.trans hcy.symm, ?_, fun z hz => ?_⟩
  · rw [hpaint.eq_ite, hrows]
    funext p
    have hmod := Nat.mod_lt p.2 hpos
    have hdiv := Nat.div_add_mod' p.2 P.font.pixelH.toNat
    by_cases hp : OnPicture P.fb p
    · have hold : picture P.fb scr.mem p = render P s.rows p := congrFun h.shows p
      rw [hold, render, render, if_pos hp, if_pos hp]
      by_cases hband : p.2 / P.font.pixelH.toNat * P.font.pixelH.toNat = y
      · have hd : ((p.2 : ℤ) - y) = (p.2 % P.font.pixelH.toNat : ℕ) := by omega
        rw [hband, Function.update_self, shade_concat, hd]
        simp only [hp, and_true]
      · -- another band: the mark does not reach it
        rw [Function.update_of_ne hband, if_neg]
        rintro ⟨hcov, -⟩
        obtain ⟨hlo, hhi⟩ := hin _ _ hcov
        obtain ⟨k, rfl⟩ := hy
        have hquot : p.2 / P.font.pixelH.toNat = k := by
          rw [Nat.div_eq_iff hpos]
          constructor
          · rw [Nat.mul_comm]
            omega
          · rw [Nat.mul_comm]
            omega
        exact hband (by rw [hquot, Nat.mul_comm])
    · rw [if_neg fun hc => hp hc.2, render, if_neg hp, picture, if_neg hp]
  · rw [hrows] at hz
    by_cases hzy : z = y
    · subst hzy
      exact ⟨hy, hroom⟩
    · rw [Function.update_of_ne hzy] at hz
      exact h.rows z hz

end Marks

/-! ### Drawing -/

section Drawing

variable {P}

theorem i32_eq {z : ℤ} (h : -2 ^ 31 ≤ z ∧ z < 2 ^ 31) : Raster.i32 z = some z := if_pos h

/-- One bit of a glyph. -/
theorem drawBit_paints {g : FontGlyph} (hg : P.font.Inside g) {dxBase dy : ℤ} {h w : ℕ}
    (hh : h < g.height.toNat) (hw : w < g.width.toNat) (hdx : -2 ^ 31 ≤ dxBase + w ∧ dxBase + w < 2 ^ 31)
    (mem : Gop.Memory) :
    ∃ mem', Raster.drawBit P g dxBase dy h mem w = some mem' ∧
      Paints (fun p b => ((P.font.IsSet (8 * g.bitmapOffset.toNat + g.width.toNat * h + w) ∧
        (p.1 : ℤ) = dxBase + w ∧ (p.2 : ℤ) = dy) ∧ OnPicture P.fb p) ∧ b = Gop.blitted P.colorFg)
        (picture P.fb mem) (picture P.fb mem') := by
  rw [Raster.drawBit, hg.bit_eq hh hw, Option.bind_eq_bind, Option.bind_some]
  by_cases hset : P.font.IsSet (8 * g.bitmapOffset.toNat + g.width.toNat * h + w)
  · rw [decide_eq_true hset, if_pos rfl, i32_eq hdx, Option.bind_eq_bind, Option.bind_some]
    obtain ⟨mem', hblit, hpaint⟩ := Gop.picture_gopBlit P.fits (dxBase + w) dy P.colorFg mem
    exact ⟨mem', hblit, hpaint.congr fun p b => by simp [hset]⟩
  · rw [decide_eq_false hset]
    exact ⟨mem, rfl, (Paints.refl _).congr fun p b => by simp [hset]⟩

/-- A row of the bits. -/
theorem drawRow_paints {g : FontGlyph} (hg : P.font.Inside g) (dxBase bY : ℤ) {h : ℕ}
    (hh : h < g.height.toNat)
    (hdx : ∀ w < g.width.toNat, -2 ^ 31 ≤ dxBase + w ∧ dxBase + w < 2 ^ 31)
    (hdy : -2 ^ 31 ≤ bY + g.yOffset.toInt ∧ bY + g.yOffset.toInt + h < 2 ^ 31) (mem : Gop.Memory) :
    ∃ mem', Raster.drawRow P g dxBase bY mem h = some mem' ∧
      Paints (fun p b => ∃ w ∈ List.range g.width.toNat,
        ((P.font.IsSet (8 * g.bitmapOffset.toNat + g.width.toNat * h + w) ∧ (p.1 : ℤ) = dxBase + w ∧
          (p.2 : ℤ) = bY + g.yOffset.toInt + h) ∧ OnPicture P.fb p) ∧ b = Gop.blitted P.colorFg)
        (picture P.fb mem) (picture P.fb mem') := by
  rw [Raster.drawRow, i32_eq (by omega), Option.bind_eq_bind, Option.bind_some, i32_eq (by omega),
    Option.bind_some]
  exact Paints.foldlM_view (picture P.fb)
    (fun w hw mem => drawBit_paints hg hh (List.mem_range.1 hw) (hdx w (List.mem_range.1 hw)) mem) mem

/-- **A glyph is drawn.** -/
theorem conDrawGlyph_paints {g : FontGlyph} (hg : P.font.Inside g) {x y : ℕ} (hx : x < P.fb.width)
    (hy : y + P.font.pixelH.toNat ≤ P.fb.height) (s : Screen) :
    ∃ mem, Raster.conDrawGlyph P g x y s = some ⟨s.cx, s.cy, mem⟩ ∧
      Paints (fun p b => (P.font.lit g (p.1 - x) (p.2 - y) ∧ OnPicture P.fb p) ∧
        b = Gop.blitted P.colorFg) (picture P.fb s.mem) (picture P.fb mem) := by
  obtain ⟨hwidth, hheight⟩ := P.small (Nat.zero_lt_of_lt hx)
  have habove := hg.above
  have hbelow := hg.below
  have hrows := g.height.toNat_lt
  have hcols := g.width.toNat_lt
  have hcell := P.font.pixelH.toNat_lt
  have hxoff := Int8.le_toInt g.xOffset
  have hxoff' := Int8.toInt_lt g.xOffset
  have hyoff := Int8.le_toInt g.yOffset
  have hyoff' := Int8.toInt_lt g.yOffset
  rw [Raster.conDrawGlyph, toI32_eq (by omega), toI32_eq (by omega), i32_eq (by omega), i32_eq (by omega)]
  simp only [Option.bind_eq_bind, Option.bind_some]
  obtain ⟨mem, hrun, hpaint⟩ := Paints.foldlM_view (picture P.fb) (fun h hh mem =>
    drawRow_paints hg (x + g.xOffset.toInt) (y + P.font.baseline.toInt) (List.mem_range.1 hh)
      (fun w hw => by omega) (by have hlt := List.mem_range.1 hh; omega) mem) s.mem
  rw [hrun]
  refine ⟨mem, rfl, hpaint.congr fun p b => ⟨?_, ?_⟩⟩
  · rintro ⟨h, hh, w, hw, ⟨⟨hbit, hcol, hrow⟩, hp⟩, hb⟩
    exact ⟨⟨⟨h, List.mem_range.1 hh, w, List.mem_range.1 hw, hbit, by omega, by omega⟩, hp⟩, hb⟩
  · rintro ⟨⟨⟨h, hh, w, hw, hbit, hcol, hrow⟩, hp⟩, hb⟩
    exact ⟨h, List.mem_range.2 hh, w, List.mem_range.2 hw, ⟨⟨hbit, by omega, by omega⟩, hp⟩, hb⟩

/-- **A cell is erased.** -/
theorem conFillGlyph_paints (hP : P.Usual) {x y : ℕ} (hx : x < P.fb.width)
    (hy : y + P.font.pixelH.toNat ≤ P.fb.height) (s : Screen) :
    ∃ mem, Raster.conFillGlyph P (P.font.glyph 0) x y s = some ⟨s.cx, s.cy, mem⟩ ∧
      Paints (fun p b => (Covers P (Mark.fill x (P.font.glyph 0).width.toNat (P.font.glyph 0).height.toNat)
        p.1 (p.2 - y) ∧ OnPicture P.fb p) ∧ b = Gop.filled P.colorBg)
        (picture P.fb s.mem) (picture P.fb mem) := by
  obtain ⟨hwidth, hheight⟩ := P.small (Nat.zero_lt_of_lt hx)
  have hrows := (P.font.glyph 0).height.toNat_lt
  have hcols := (P.font.glyph 0).width.toNat_lt
  rw [Raster.conFillGlyph, toI32_eq (by omega), toI32_eq (by omega), if_neg (by omega), Raster.rect,
    dif_pos (by omega), Option.bind_eq_bind, Option.bind_some]
  refine ⟨_, rfl, ?_⟩
  rcases hP.erases with hbpp | hempty
  · refine (Gop.picture_gopFillRect P.fits hbpp _ P.colorBg s.mem).congr fun p b =>
      and_congr_left fun _ => and_congr_left fun _ => ?_
    unfold Gop.Rect.Has Covers
    dsimp only
    omega
  · have hzero : (P.font.glyph 0).width.toNat = 0 ∨ (P.font.glyph 0).height.toNat = 0 :=
      hempty.imp (fun h => by rw [h]; rfl) fun h => by rw [h]; rfl
    rw [Gop.gopFillRect_empty (by dsimp only; omega)]
    refine (Paints.refl _).congr fun p b => ⟨False.elim, ?_⟩
    rintro ⟨⟨hcov, -⟩, -⟩
    unfold Covers at hcov
    omega

end Drawing

/-! ### The functions of the console -/

section Steps

variable {P} {scr : Screen} {s : KernelConsole}

/-- The cursor is moved. -/
theorem Draws.setCx (h : Draws P scr s) (cx : ℕ) : Draws P { scr with cx := cx } { s with cx := cx } :=
  ⟨rfl, h.cy_eq, h.shows, h.rows⟩

theorem Draws.setCy (h : Draws P scr s) (cy : ℕ) : Draws P { scr with cy := cy } { s with cy := cy } :=
  ⟨h.cx_eq, rfl, h.shows, h.rows⟩

/-- **A scroll** takes each band to the place of the one above it. -/
theorem Draws.conScroll (h : Draws P scr s) :
    Draws P (Raster.conScroll P scr) (Console.conScroll P.display s) := by
  have hpos := P.pixelH_pos
  have hlt := P.pixelH_lt
  have hrows : (Console.conScroll P.display s).rows = scrollRows P.display P.font.pixelH.toNat s.rows := rfl
  refine ⟨h.cx_eq, congrArg (Word.sub32 · P.font.pixelH.toNat) h.cy_eq, ?_, fun y hy => ?_⟩
  · rw [hrows]
    change picture P.fb (Gop.gopScroll P.fb P.font.pixelH.toNat scr.mem) = _
    rw [Gop.picture_gopScroll P.fits hlt.le, h.shows]
    funext p
    have hmod := Nat.mod_lt p.2 hpos
    have hdiv := Nat.div_add_mod' p.2 P.font.pixelH.toNat
    have hquot : (p.2 + P.font.pixelH.toNat) / P.font.pixelH.toNat * P.font.pixelH.toNat =
        p.2 / P.font.pixelH.toNat * P.font.pixelH.toNat + P.font.pixelH.toNat := by
      rw [Nat.add_div_right _ hpos, Nat.succ_mul]
    by_cases hlow : p.2 + P.font.pixelH.toNat < P.fb.height
    · rw [if_pos hlow, render, render, hquot, Nat.add_mod_right, scrollRows,
        if_pos (show _ < P.display.fbH from (by change _ < P.fb.height; omega))]
      by_cases hp : OnPicture P.fb p
      · rw [if_pos hp, if_pos ⟨hp.1, hlow⟩]
      · rw [if_neg hp, if_neg fun hq => hp ⟨hq.1, by omega⟩]
    · -- the last rows: the bands that come there had no room
      rw [if_neg hlow, render]
      split
      · rw [scrollRows]
        split
        · have hnil : s.rows (p.2 / P.font.pixelH.toNat * P.font.pixelH.toNat + P.font.pixelH.toNat) = [] := by
            by_contra hne
            have hroom := (h.rows _ hne).2
            omega
          rw [hnil, shade_nil]
        · rw [shade_nil]
      · rfl
  · rw [hrows, scrollRows] at hy
    split at hy
    · obtain ⟨hdvd, hroom⟩ := h.rows _ hy
      exact ⟨(Nat.dvd_add_left dvd_rfl).1 hdvd, by omega⟩
    · exact absurd rfl hy

/-- **A new line.** -/
theorem Draws.newl (h : Draws P scr s) :
    Draws P (Raster.conCtrlNewl P scr) (Console.conCtrlNewl P.display s) := by
  have h₀ : Draws P (Raster.conCtrlCarriageRet scr) (Console.conCtrlCarriageRet s) := h.setCx 0
  rw [Raster.conCtrlNewl]
  by_cases hlast : Word.add32 (Raster.conCtrlCarriageRet scr).cy P.font.pixelH.toNat ≥ P.fb.height
  · rw [if_pos hlast, conCtrlNewl_scroll (show Word.add32 s.cy P.display.cellH ≥ P.display.fbH from
      h.cy_eq ▸ hlast)]
    exact h₀.conScroll.setCx 0
  · rw [if_neg hlast, conCtrlNewl_down (show ¬ Word.add32 s.cy P.display.cellH ≥ P.display.fbH from
      h.cy_eq ▸ hlast), ← h.cy_eq]
    exact (h₀.setCy _).setCx 0

/-- The cursor moves to the right, or to a new line. -/
theorem Draws.advance (h : Draws P scr s) :
    Draws P (if scr.cx ≥ P.fb.width then Raster.conCtrlNewl P scr else scr)
      (if s.cx ≥ P.display.fbW then Console.conCtrlNewl P.display s else s) := by
  rw [h.cx_eq]
  by_cases hend : s.cx ≥ P.fb.width
  · rw [if_pos hend, if_pos (show _ ≥ P.display.fbW from hend)]
    exact h.newl
  · rw [if_neg hend, if_neg (show ¬ _ ≥ P.display.fbW from hend)]
    exact h

/-- The start of a turn. -/
theorem Draws.settle (h : Draws P scr s) :
    Draws P (Raster.settle P scr) (Console.settle P.display s) := by
  rw [Raster.settle, Console.settle, h.cy_eq]
  by_cases hlast : s.cy ≥ Word.sub32 P.fb.height P.font.pixelH.toNat
  · rw [if_pos hlast, if_pos (show _ ≥ Word.sub32 P.display.fbH P.display.cellH from hlast)]
    exact h.newl
  · rw [if_neg hlast, if_neg (show ¬ _ ≥ Word.sub32 P.display.fbH P.display.cellH from hlast)]
    exact h

/-- A tab. -/
theorem Draws.conCtrlTab (h : Draws P scr s) :
    Draws P (Raster.conCtrlTab P scr) (Console.conCtrlTab P.display s) := by
  rw [Raster.conCtrlTab, Console.conCtrlTab, h.cx_eq]
  change Draws P (if glyW P.display * tabStop % 2 ^ 32 = 0 then _ else _) _
  by_cases hzero : glyW P.display * tabStop % 2 ^ 32 = 0
  · rw [if_pos hzero]
    simp only [hzero, if_true]
    exact h
  · rw [if_neg hzero]
    simp only [hzero, if_false]
    exact (h.setCx _).advance

/-- **A printable character.** -/
theorem Draws.putChar (h : Draws P scr s) (hon : OnScreen P.display s)
    (hroom : s.cy + P.font.pixelH.toNat < P.fb.height) {c : ℕ} (hc : 0x20 ≤ c ∧ c ≤ 0x7E) :
    ∃ scr', Raster.putChar P c scr = some scr' ∧ Draws P scr' (Console.putChar P.display c s) := by
  have hlt : c - 0x20 < 95 := by omega
  have hg := P.drawable.glyph_inside hlt
  obtain ⟨mem, hrun, hpaint⟩ := conDrawGlyph_paints hg (show s.cx < P.fb.width from hon.cx_lt) hroom.le scr
  have hdraw : Draws P ⟨scr.cx, scr.cy, mem⟩ (Console.conDrawGlyph P.display c s.cx s.cy s) :=
    h.mark hon.cx_lt hon.cy_dvd hroom.le (fun x d hcov => hg.lit_row hcov) hpaint
  rw [Raster.putChar, P.drawable.getElem? hlt, Option.bind_eq_bind, Option.bind_some, h.cx_eq, h.cy_eq, hrun]
  have hcx : scr.cx = (Console.conDrawGlyph P.display c s.cx s.cy s).cx := hdraw.cx_eq
  refine ⟨_, rfl, ?_⟩
  rw [Console.putChar]
  dsimp only
  rw [← hcx]
  exact (hdraw.setCx (Word.add32 scr.cx (P.font.glyph (c - 0x20)).xAdvance.toNat)).advance

/-- A cell is erased. -/
theorem Draws.conFillGlyph (hP : P.Usual) (h : Draws P scr s) {x y : ℕ} (hx : x < P.fb.width)
    (hy : P.font.pixelH.toNat ∣ y) (hroom : y + P.font.pixelH.toNat ≤ P.fb.height) :
    ∃ scr', Raster.conFillGlyph P (P.font.glyph 0) x y scr = some scr' ∧
      Draws P scr' (Console.conFillGlyph P.display (P.display.glyphs 0) x y s) := by
  obtain ⟨hwidth, hheight⟩ := P.small (Nat.zero_lt_of_lt hx)
  have hg := P.drawable.glyph_inside (show 0 < 95 by decide)
  obtain ⟨mem, hrun, hpaint⟩ := conFillGlyph_paints hP hx hroom scr
  have hfill : Console.conFillGlyph P.display (P.display.glyphs 0) x y s =
      Console.mark P.display (Mark.fill x (P.display.glyphs 0).width (P.display.glyphs 0).height) x y s := by
    rw [Console.conFillGlyph, if_neg (show ¬ (!P.display.blitPixel) = true from Bool.false_ne_true),
      toI32_eq (by omega), toI32_eq (by omega), if_neg (by omega)]
  refine ⟨_, hrun, ?_⟩
  rw [hfill]
  refine h.mark hx hy hroom (fun x d hcov => ?_) hpaint
  have habove := hg.above
  have hbelow := hg.below
  obtain ⟨-, hlo, hhi⟩ := hcov
  change d < (P.font.glyph 0).height.toNat at hhi
  omega

/-- **A backspace.** -/
theorem Draws.conCtrlBackspace (hP : P.Usual) (h : Draws P scr s) (hon : OnScreen P.display s)
    (hroom : s.cy + P.font.pixelH.toNat < P.fb.height) :
    ∃ scr', Raster.conCtrlBackspace P scr = some scr' ∧
      Draws P scr' (Console.conCtrlBackspace P.display s) := by
  have hcx : s.cx < P.fb.width := hon.cx_lt
  have hdvd : P.font.pixelH.toNat ∣ s.cy := hon.cy_dvd
  have hpos := hP.glyW_pos
  have hle := hP.glyW_le
  obtain ⟨hwidth, hheight⟩ := P.small (Nat.zero_lt_of_lt hcx)
  obtain ⟨cx, cy, mem⟩ := scr
  obtain rfl : cx = s.cx := h.cx_eq
  obtain rfl : cy = s.cy := h.cy_eq
  rw [Raster.conCtrlBackspace, Console.conCtrlBackspace]
  change ∃ scr', (if s.cx ≥ glyW P.display then _ else _) = _ ∧ _
  by_cases hleft : s.cx ≥ glyW P.display
  · have hsub : Word.sub32 s.cx (glyW P.display) = s.cx - glyW P.display := Word.sub32_of_le hleft (by omega)
    rw [if_pos hleft, if_pos hleft]
    exact (h.setCx (Word.sub32 s.cx (glyW P.display))).conFillGlyph hP
      (show Word.sub32 s.cx (glyW P.display) < _ by omega) hdvd hroom.le
  · by_cases hup : s.cy ≥ P.font.pixelH.toNat
    · have hsub : Word.sub32 s.cy P.font.pixelH.toNat = s.cy - P.font.pixelH.toNat :=
        Word.sub32_of_le hup (by omega)
      have hsub' : Word.sub32 P.fb.width (glyW P.display) = P.fb.width - glyW P.display :=
        Word.sub32_of_le hle (by omega)
      rw [if_neg hleft, if_neg hleft, if_pos hup, if_pos (show s.cy ≥ P.display.cellH from hup)]
      refine ((h.setCy (Word.sub32 s.cy P.font.pixelH.toNat)).setCx
        (Word.sub32 P.fb.width (glyW P.display))).conFillGlyph hP
        (show Word.sub32 P.fb.width (glyW P.display) < _ by omega) ?_ ?_
      · dsimp only
        rw [hsub]
        exact Nat.dvd_sub hdvd dvd_rfl
      · dsimp only
        omega
    · rw [if_neg hleft, if_neg hleft, if_neg hup, if_neg (show ¬ s.cy ≥ P.display.cellH from hup)]
      exact ⟨_, rfl, h⟩

/-- **One byte.** -/
theorem Draws.writeByte (hP : P.Usual) (h : Draws P scr s) (hon : OnScreen P.display s) (c : ℕ) :
    ∃ scr', Raster.writeByte P scr c = some (scr', (Console.writeByte P.display s c).2) ∧
      Draws P scr' (Console.writeByte P.display s c).1 := by
  obtain ⟨-, hon', hroom⟩ := hon.settle hP.display
  have hset := h.settle
  rw [Raster.writeByte, Console.writeByte]
  by_cases hctrl : c < 0x20 ∨ c > 0x7E
  · rw [if_pos hctrl, if_pos hctrl, Raster.conAsciiCtrl, Console.conAsciiCtrl]
    split_ifs
    · exact ⟨_, rfl, hset.setCx 0⟩
    · exact ⟨_, rfl, hset.newl⟩
    · exact ⟨_, rfl, hset.conCtrlTab⟩
    · obtain ⟨scr', hrun, hdraws⟩ := hset.conCtrlBackspace hP hon' hroom
      rw [hrun]
      exact ⟨scr', rfl, hdraws⟩
    · exact ⟨_, rfl, hset⟩
  · rw [if_neg hctrl, if_neg hctrl]
    obtain ⟨scr', hrun, hdraws⟩ := hset.putChar hon' hroom (show 0x20 ≤ c ∧ c ≤ 0x7E by omega)
    rw [hrun]
    exact ⟨scr', rfl, hdraws⟩

/-- A row of bytes. -/
theorem Draws.writeLoop (hP : P.Usual) (h : Draws P scr s) (hon : OnScreen P.display s) (consumed : ℤ)
    (buf : List ℕ) :
    ∃ scr', Raster.writeLoop P consumed scr buf = some (scr', (Console.writeLoop P.display consumed s buf).2) ∧
      Draws P scr' (Console.writeLoop P.display consumed s buf).1 := by
  induction buf generalizing consumed scr s with
  | nil => exact ⟨scr, rfl, h⟩
  | cons c buf ih =>
      obtain ⟨scr', hbyte, hdraws⟩ := h.writeByte hP hon c
      rw [Raster.writeLoop, hbyte, Option.bind_eq_bind, Option.bind_some]
      exact ih hdraws (hon.writeByte hP.display c).2 _

/-- **A call of `kcon_write`** gives the same number back. -/
theorem Draws.kconWrite (hP : P.Usual) (h : Draws P scr s) (hon : OnScreen P.display s)
    (buf : Option (List ℕ)) :
    ∃ scr', Raster.kconWrite P buf scr = some (scr', (Console.kconWrite P.display buf s).2) ∧
      Draws P scr' (Console.kconWrite P.display buf s).1 := by
  cases buf with
  | none => exact ⟨scr, rfl, h⟩
  | some buf => exact h.writeLoop hP hon 0 buf

/-- A cleared framebuffer shows no marks. -/
theorem draws_clear (mem : Gop.Memory) : Draws P ⟨0, 0, Gop.gopClear P.fb mem⟩ conCtrlClear := by
  refine ⟨rfl, rfl, ?_, fun y hy => absurd rfl hy⟩
  rw [Gop.picture_gopClear P.fits]
  funext p
  rw [render]
  split
  · rfl
  · rfl

/-- **One call** returns what it returns with marks. -/
theorem Draws.runCall (hP : P.Usual) (h : Draws P scr s) (hon : OnScreen P.display s) (call : Call) :
    ∃ scr', Raster.runCall P scr call = some (scr', result P.display s call) ∧
      Draws P scr' (Console.runCall P.display true s call) := by
  cases call with
  | write buf =>
      obtain ⟨scr', hrun, hdraws⟩ := h.kconWrite hP hon buf
      rw [Raster.runCall, hrun]
      exact ⟨scr', rfl, hdraws⟩
  | clear => exact ⟨_, rfl, draws_clear scr.mem⟩

/-- A sequence of calls. -/
theorem Draws.run (hP : P.Usual) (calls : List Call) (h : Draws P scr s) (hon : OnScreen P.display s) :
    ∃ scr', Raster.run P scr calls = some (scr', results P.display true s calls) ∧
      Draws P scr' (Console.run P.display true s calls) := by
  induction calls generalizing scr s with
  | nil => exact ⟨scr, rfl, h⟩
  | cons call calls ih =>
      obtain ⟨scr₁, hcall, hdraws⟩ := h.runCall hP hon call
      obtain ⟨scr', hrun, hdraws'⟩ := ih hdraws (hon.runCall hP.display true call).2
      rw [Raster.run, hcall, Option.bind_eq_bind, Option.bind_some]
      dsimp only
      rw [hrun]
      exact ⟨scr', rfl, hdraws'⟩

end Steps

/-! ### Runs -/

section Runs

variable {P}

/-- **The framebuffer shows what a run draws.**  On a black screen with the cursor at the first position,
no sequence of calls fails, each call returns what it does with marks, the framebuffer shows the marks of the
same calls at the end, and the bytes behind it are as they were. -/
theorem run_draws (hP : P.Usual) {mem : Gop.Memory} (hblack : ∀ p, picture P.fb mem p = black)
    (calls : List Call) :
    ∃ scr, Raster.run P ⟨0, 0, mem⟩ calls =
        some (scr, results P.display true ⟨0, 0, fun _ => []⟩ calls) ∧
      Draws P scr (run P.display true ⟨0, 0, fun _ => []⟩ calls) ∧ Gop.KeepsBehind P.fb mem scr.mem := by
  have hstart : Draws P ⟨0, 0, mem⟩ ⟨0, 0, fun _ => []⟩ := by
    refine ⟨rfl, rfl, funext fun p => (hblack p).trans ?_, fun y hy => absurd rfl hy⟩
    rw [render]
    split
    · rfl
    · rfl
  obtain ⟨scr, hrun, hdraws⟩ := hstart.run hP calls ⟨Nat.lt_of_lt_of_le hP.glyW_pos hP.glyW_le,
    Nat.lt_trans P.pixelH_pos P.pixelH_lt, Nat.dvd_zero _⟩
  exact ⟨scr, hrun, hdraws, Raster.run_keeps hrun⟩

/-- The lines of a page consist of characters. -/
def Page.Plain (p : Page) : Prop := ∀ l ∈ p.lines ++ [p.current], ∀ m ∈ l, ∃ c x, m = Mark.glyph c x

theorem Page.Plain.newLine {p : Page} (h : p.Plain) : p.newLine.Plain := by
  intro l hl m hm
  rcases List.mem_append.1 hl with hl | hl
  · exact h l hl m hm
  · rw [List.mem_singleton.1 hl] at hm
    exact absurd hm List.not_mem_nil

theorem Page.Plain.add {p : Page} (h : p.Plain) (D : Display) (c : ℕ) : (p.add D c).Plain := by
  intro l hl m hm
  rcases List.mem_append.1 hl with hl | hl
  · exact h l (List.mem_append_left _ hl) m hm
  · rw [List.mem_singleton.1 hl] at hm
    rcases List.mem_append.1 hm with hm | hm
    · exact h p.current (List.mem_append_right _ (List.mem_singleton_self _)) m hm
    · exact ⟨c, p.cx, List.mem_singleton.1 hm⟩

theorem Page.Plain.put {p : Page} (h : p.Plain) (D : Display) (c : ℕ) : (p.put D c).Plain := by
  rw [Page.put]
  split
  · exact h.newLine
  · split
    · exact (h.add D c).newLine
    · exact h.add D c

theorem Page.plain_text (D : Display) (buf : List ℕ) : (Page.text D buf).Plain := by
  rw [Page.text]
  induction buf using List.reverseRecOn with
  | nil =>
      intro l hl m hm
      rw [List.mem_singleton.1 hl] at hm
      exact absurd hm List.not_mem_nil
  | append_singleton buf c ih =>
      rw [List.foldl_append]
      exact ih.put D c

/-- Each line of such a page does. -/
theorem Page.Plain.line {p : Page} (h : p.Plain) (i : ℕ) : ∀ m ∈ p.line i, ∃ c x, m = Mark.glyph c x := by
  intro m hm
  rw [Page.line] at hm
  rcases Nat.lt_or_ge i (p.lines ++ [p.current]).length with hi | hi
  · rw [List.getD_eq_getElem _ _ hi] at hm
    exact h _ (List.getElem_mem hi) m hm
  · rw [List.getD_eq_default _ _ hi] at hm
    exact absurd hm List.not_mem_nil

/-- A line of characters shows the foreground where one of them has a bit. -/
theorem shade_glyphs {ms : List Mark} (h : ∀ m ∈ ms, ∃ c x, m = Mark.glyph c x) (x d : ℕ) :
    shade P ms x d = if ∃ m ∈ ms, Covers P m x d then Gop.blitted P.colorFg else black := by
  induction ms using List.reverseRecOn with
  | nil => simp
  | append_singleton ms m ih =>
      obtain ⟨c, cx, rfl⟩ := h m (List.mem_append_right _ (List.mem_singleton_self m))
      rw [shade_concat, ih fun m hm => h m (List.mem_append_left _ hm)]
      by_cases hcov : Covers P (Mark.glyph c cx) x d
      · rw [if_pos hcov, if_pos ⟨_, List.mem_append_right _ (List.mem_singleton_self _), hcov⟩]
        rfl
      · rw [if_neg hcov]
        refine if_congr ⟨?_, ?_⟩ rfl rfl
        · rintro ⟨m, hm, hm'⟩
          exact ⟨m, List.mem_append_left _ hm, hm'⟩
        · rintro ⟨m, hm, hm'⟩
          rcases List.mem_append.1 hm with hm | hm
          · exact ⟨m, hm, hm'⟩
          · exact absurd (List.mem_singleton.1 hm ▸ hm') hcov

/-- What is drawn for the lines of a page is a picture of them. -/
theorem Draws.pictures {scr : Screen} {s : KernelConsole} {page : Page} {c : ℕ} (h : Draws P scr s)
    (hheld : Held P.display s page c) (hcx : s.cx = page.cx) (hplain : page.Plain) :
    Pictures P scr page c := by
  refine ⟨h.cx_eq.trans hcx, h.cy_eq.trans hheld.cy_eq, h.cy_eq.trans_lt hheld.inside, hheld.enough,
    fun p => ?_⟩
  rw [h.shows, render]
  by_cases hp : OnPicture P.fb p
  · rw [if_pos hp]
    by_cases hj : p.2 / P.font.pixelH.toNat ≤ c
    · rw [show s.rows (p.2 / P.font.pixelH.toNat * P.font.pixelH.toNat) = _ from hheld.rows_line _ hj,
        shade_glyphs (hplain.line _)]
      exact if_congr ⟨fun h => ⟨hp, hj, h⟩, fun h => h.2.2⟩ rfl rfl
    · -- the bands below the cursor are blank
      have hblank : s.rows (p.2 / P.font.pixelH.toNat * P.font.pixelH.toNat) = [] :=
        hheld.rows_blank _ fun i hi heq => hj (Nat.eq_of_mul_eq_mul_right P.pixelH_pos heq ▸ hi)
      rw [hblank, shade_nil, if_neg fun h => hj h.2.1]
  · rw [if_neg hp, if_neg fun h => hp h.1]

/-- **The framebuffer shows the last lines of a text.**  Whatever it showed before: when it is cleared and
any number of calls write printable characters and newlines, no call fails, and the bands down to the
cursor show consecutive lines of the text, up to the current one. -/
theorem writes_pictured (hP : P.Usual) (scr : Screen) (calls : List (List ℕ))
    (htext : ∀ a ∈ calls.flatten, IsText a) :
    ∃ scr' rets c, Raster.run P scr (Call.clear :: calls.map fun buf => Call.write (some buf)) =
        some (scr', rets) ∧ Pictures P scr' (Page.text P.display calls.flatten) c := by
  have hon : OnScreen P.display conCtrlClear := ⟨Nat.lt_of_lt_of_le hP.glyW_pos hP.glyW_le,
    Nat.lt_trans P.pixelH_pos P.pixelH_lt, Nat.dvd_zero _⟩
  obtain ⟨scr', hrun, hdraws⟩ := (draws_clear scr.mem).run hP
    (calls.map fun buf => Call.write (some buf)) hon
  have hwrites : run P.display true conCtrlClear (calls.map fun buf => Call.write (some buf)) =
      bytes P.display conCtrlClear calls.flatten := by
    rw [run, List.foldl_map, ← writes_eq]
    rfl
  have hvisible := P.visible (Nat.lt_of_lt_of_le hP.glyW_pos hP.glyW_le)
  obtain ⟨c, hheld, hcx, -⟩ := bytes_holds (holds_cleared hvisible) rfl hvisible hP.display.xAdvance_lt
    calls.flatten htext
  rw [hwrites] at hdraws
  refine ⟨scr', none :: results P.display true conCtrlClear (calls.map fun buf => Call.write (some buf)), c,
    ?_, hdraws.pictures hheld hcx (Page.plain_text P.display calls.flatten)⟩
  have hclear : Raster.runCall P scr Call.clear = some (⟨0, 0, Gop.gopClear P.fb scr.mem⟩, none) := rfl
  rw [Raster.run, hclear, Option.bind_eq_bind, Option.bind_some]
  dsimp only
  rw [hrun]
  rfl

end Runs

/-- The panel that the kernel starts with, on a screen with 32 bits for a pixel. -/
def bootPanel : Panel where
  fb := ⟨640, 480, 2560, 32, by decide, by decide, by decide, Or.inr rfl, by decide⟩
  font := fontIbm3270
  colorFg := ⟨0, 255, 255⟩
  colorBg := ⟨0, 0, 0⟩
  fits := ⟨by decide, by decide⟩
  drawable := fontIbm3270_drawable
  pixelH_pos := by decide
  pixelH_lt := by decide

/-- The glyph of a space is empty in its font: a backspace erases nothing. -/
theorem bootPanel_usual : bootPanel.Usual := ⟨by decide, by decide, Or.inr (Or.inl rfl)⟩

/-- A character, a backspace and another character on a black screen. -/
theorem run_draws_boot : (∀ p, picture bootPanel.fb (fun _ => 0) p = black) ∧
    ∃ scr, Raster.run bootPanel ⟨0, 0, fun _ => 0⟩ [Call.write (some [0x41, 0x08, 0x42]), Call.clear] =
        some (scr, results bootPanel.display true ⟨0, 0, fun _ => []⟩
          [Call.write (some [0x41, 0x08, 0x42]), Call.clear]) ∧
      Draws bootPanel scr (run bootPanel.display true ⟨0, 0, fun _ => []⟩
        [Call.write (some [0x41, 0x08, 0x42]), Call.clear]) ∧
      Gop.KeepsBehind bootPanel.fb (fun _ => 0) scr.mem := by
  have hblack : ∀ p, picture bootPanel.fb (fun _ => 0) p = black := fun p => by
    rw [picture]
    split
    · rfl
    · rfl
  exact ⟨hblack, run_draws bootPanel_usual hblack _⟩

/-- Two lines in two calls. -/
theorem writes_pictured_boot :
    ∃ scr' rets c, Raster.run bootPanel ⟨7, 3, fun _ => 1⟩
        [Call.clear, Call.write (some [0x41, 0x0A]), Call.write (some [0x42])] = some (scr', rets) ∧
      Pictures bootPanel scr' (Page.text bootPanel.display [0x41, 0x0A, 0x42]) c :=
  writes_pictured bootPanel_usual ⟨7, 3, fun _ => 1⟩ [[0x41, 0x0A], [0x42]] (by simp [IsText])

end Console

end SyncKernel
