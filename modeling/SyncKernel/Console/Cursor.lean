/-
**The cursor stays on the screen** (`io/console.c`).

The functions that move the cursor are stated a second time, as they are with numbers that cannot wrap
around: a sum or a difference that would, and a character that is drawn outside of the screen, make them
fail.  From the first position on they never do, and lead to the same console as the code.

The rows of the cursor are those where a cell begins.  So it is at least one cell from the top whenever
there is no room for another one below it, and the scroll operation does not take it above the screen.

Main definitions:

* `Console.Call`, `Console.run`, `Console.results` — sequences of `kcon_write` and `kcon_clear`;
* `Console.Checked` — the functions that fail;
* `Console.OnScreen` — where the cursor is between two bytes.

Main results:

* `Console.OnScreen.writeByte` — a byte does not fail;
* `Console.run_checked` — **no sequence of calls fails**.
-/

import SyncKernel.Console.Basic

set_option relaxedAutoImplicit false
set_option autoImplicit false

namespace SyncKernel

namespace Console

/-! ### Calls -/

/-- `kcon_clear`, on a framebuffer that can be cleared or not. -/
def kconClear (clear : Bool) (s : KernelConsole) : KernelConsole := if !clear then s else conCtrlClear

/-- A call of `kcon_write` or of `kcon_clear`. -/
inductive Call
  | write (buf : Option (List ℕ))
  | clear
  deriving DecidableEq

/-- The console behind a call. -/
def runCall (D : Display) (clear : Bool) (s : KernelConsole) : Call → KernelConsole
  | Call.write buf => (kconWrite D buf s).1
  | Call.clear => kconClear clear s

/-- The console behind a sequence of calls. -/
def run (D : Display) (clear : Bool) (s : KernelConsole) (calls : List Call) : KernelConsole :=
  calls.foldl (runCall D clear) s

/-- What a call returns; `kcon_clear` returns nothing. -/
def result (D : Display) (s : KernelConsole) : Call → Option ℤ
  | Call.write buf => some (kconWrite D buf s).2
  | Call.clear => none

/-- What the calls of a sequence return. -/
def results (D : Display) (clear : Bool) (s : KernelConsole) : List Call → List (Option ℤ)
  | [] => []
  | call :: calls => result D s call :: results D clear (runCall D clear s call) calls

/-! ### Failing where something wraps around -/

namespace Checked

/-- A sum of two `u32`. -/
def add (a b : ℕ) : Option ℕ := if a + b < 2 ^ 32 then some (a + b) else none

/-- A difference of two `u32`. -/
def sub (a b : ℕ) : Option ℕ := if b ≤ a then some (a - b) else none

variable (D : Display)

/-- Nothing is drawn unless the cursor is on the screen, with a cell below it. -/
def onScreen (s : KernelConsole) : Option KernelConsole :=
  if s.cx < D.fbW ∧ s.cy + D.cellH ≤ D.fbH then some s else none

/-- `con_scroll_by`. -/
def conScrollBy (pixels : ℕ) (s : KernelConsole) : Option KernelConsole := do
  let rows := if D.scroll then scrollRows D pixels s.rows else s.rows
  let cy ← sub s.cy pixels
  some { s with rows := rows, cy := cy }

/-- `con_ctrl_newl`. -/
def conCtrlNewl (s : KernelConsole) : Option KernelConsole := do
  let s := conCtrlCarriageRet s
  let cy ← add s.cy D.cellH
  let s ← if cy ≥ D.fbH then conScrollBy D D.cellH s else some { s with cy := cy }
  some { s with cx := 0 }

/-- `con_ctrl_tab`. -/
def conCtrlTab (s : KernelConsole) : Option KernelConsole :=
  let tabW := (glyW D * tabStop) % 2 ^ 32
  if tabW = 0 then some s
  else do
    let dist ← sub tabW (s.cx % tabW)
    let cx ← add s.cx dist
    let s := { s with cx := cx }
    if s.cx ≥ D.fbW then conCtrlNewl D s else some s

/-- `con_ctrl_backspace`. -/
def conCtrlBackspace (s : KernelConsole) : Option KernelConsole :=
  if s.cx ≥ glyW D then do
    let cx ← sub s.cx (glyW D)
    let s ← onScreen D { s with cx := cx }
    some (conFillGlyph D (D.glyphs 0) s.cx s.cy s)
  else if s.cy ≥ D.cellH then do
    let cy ← sub s.cy D.cellH
    let cx ← sub D.fbW (glyW D)
    let s ← onScreen D { s with cy := cy, cx := cx }
    some (conFillGlyph D (D.glyphs 0) s.cx s.cy s)
  else some s

/-- `con_ascii_ctrl`. -/
def conAsciiCtrl (c : ℕ) (s : KernelConsole) : Option KernelConsole :=
  if c = 0x0D then some (conCtrlCarriageRet s)
  else if c = 0x0A then conCtrlNewl D s
  else if c = 0x09 then conCtrlTab D s
  else if c = 0x08 then conCtrlBackspace D s
  else some s

/-- The start of a turn of `kcon_write`. -/
def settle (s : KernelConsole) : Option KernelConsole := do
  let room ← sub D.fbH D.cellH
  if s.cy ≥ room then conCtrlNewl D s else some s

/-- `kcon_write` for a printable character. -/
def putChar (c : ℕ) (s : KernelConsole) : Option KernelConsole := do
  let s ← onScreen D s
  let s := conDrawGlyph D c s.cx s.cy s
  let cx ← add s.cx (D.glyphs (c - 0x20)).xAdvance
  let s := { s with cx := cx }
  if s.cx ≥ D.fbW then conCtrlNewl D s else some s

/-- One turn of the loop of `kcon_write`. -/
def writeByte (s : KernelConsole) (c : ℕ) : Option KernelConsole := do
  let s ← settle D s
  if c < 0x20 ∨ c > 0x7E then conAsciiCtrl D c s else putChar D c s

/-- A call. -/
def runCall (clear : Bool) (s : KernelConsole) : Call → Option KernelConsole
  | Call.write none => some s
  | Call.write (some buf) => buf.foldlM (writeByte D) s
  | Call.clear => some (kconClear clear s)

/-- A sequence of calls. -/
def run (clear : Bool) (s : KernelConsole) (calls : List Call) : Option KernelConsole :=
  calls.foldlM (runCall D clear) s

end Checked

/-! ### Between two bytes -/

/-- The font and the framebuffer of the console: the sizes of a glyph and of a cell are bytes, and the
glyph of a space, which is erased by a backspace, fits on the screen. -/
structure Display.Usual (D : Display) : Prop where
  fbW_lt : D.fbW < 2 ^ 31
  fbH_lt : D.fbH < 2 ^ 31
  cellW_lt : D.cellW < 2 ^ 8
  width_lt : ∀ c, (D.glyphs c).width < 2 ^ 8
  xAdvance_lt : ∀ c, (D.glyphs c).xAdvance < 2 ^ 8
  glyW_pos : 0 < glyW D
  glyW_le : glyW D ≤ D.fbW

/-- The cursor is on the screen, in a row where a cell begins. -/
structure OnScreen (D : Display) (s : KernelConsole) : Prop where
  cx_lt : s.cx < D.fbW
  cy_lt : s.cy < D.fbH
  cy_dvd : D.cellH ∣ s.cy

section Steps

variable {D : Display} {s : KernelConsole}

theorem checked_add {a b : ℕ} (h : a + b < 2 ^ 32) : Checked.add a b = some (Word.add32 a b) := by
  rw [Checked.add, if_pos h, Word.add32_of_lt h]

theorem checked_sub {a b : ℕ} (h : b ≤ a) (ha : a < 2 ^ 32) :
    Checked.sub a b = some (Word.sub32 a b) := by
  rw [Checked.sub, if_pos h, Word.sub32_of_le h ha]

theorem glyW_lt (hD : D.Usual) : glyW D < 2 ^ 8 := by
  have hwidth := hD.width_lt 0
  have hadvance := hD.xAdvance_lt 0
  have hcell := hD.cellW_lt
  unfold glyW
  dsimp only
  split_ifs <;> omega

theorem conCtrlNewl_scroll (h : Word.add32 s.cy D.cellH ≥ D.fbH) :
    conCtrlNewl D s = { conScroll D (conCtrlCarriageRet s) with cx := 0 } :=
  congrArg (fun s : KernelConsole => { s with cx := 0 }) (if_pos h)

theorem conCtrlNewl_down (h : ¬ Word.add32 s.cy D.cellH ≥ D.fbH) :
    conCtrlNewl D s = ⟨0, Word.add32 s.cy D.cellH, s.rows⟩ :=
  congrArg (fun s : KernelConsole => { s with cx := 0 }) (if_neg h)

namespace OnScreen

/-- **A new line**, wherever the cursor is in its row. -/
theorem newl (hD : D.Usual) (hcy : s.cy < D.fbH) (hdvd : D.cellH ∣ s.cy) :
    Checked.conCtrlNewl D s = some (conCtrlNewl D s) ∧ OnScreen D (conCtrlNewl D s) ∧
      (D.fbH ≤ s.cy + D.cellH → (conCtrlNewl D s).cy + D.cellH < D.fbH) := by
  have hcell := D.cellH_lt
  have hpos := D.cellH_pos
  have hfbH := hD.fbH_lt
  have hwidth := Nat.lt_of_lt_of_le hD.glyW_pos hD.glyW_le
  have hsum : s.cy + D.cellH < 2 ^ 32 := by omega
  have hadd : Word.add32 s.cy D.cellH = s.cy + D.cellH := Word.add32_of_lt hsum
  have hchecked : Checked.add (conCtrlCarriageRet s).cy D.cellH = some (Word.add32 s.cy D.cellH) :=
    checked_add hsum
  rw [Checked.conCtrlNewl, Option.bind_eq_bind, hchecked, Option.bind_some]
  by_cases hlast : Word.add32 s.cy D.cellH ≥ D.fbH
  · have hle : D.cellH ≤ s.cy := Nat.le_of_dvd (by omega) hdvd
    have hsub : Word.sub32 s.cy D.cellH = s.cy - D.cellH := Word.sub32_of_le hle (by omega)
    have hscroll : Checked.conScrollBy D D.cellH (conCtrlCarriageRet s) =
        some (conScroll D (conCtrlCarriageRet s)) := by
      have hcy : Checked.sub (conCtrlCarriageRet s).cy D.cellH = some (Word.sub32 s.cy D.cellH) :=
        checked_sub hle (Nat.lt_trans hcy (by omega))
      rw [Checked.conScrollBy, hcy]
      rfl
    rw [if_pos hlast, hscroll, conCtrlNewl_scroll hlast]
    have hcy : (conScroll D (conCtrlCarriageRet s)).cy = s.cy - D.cellH := hsub
    exact ⟨rfl, ⟨hwidth, by rw [hcy]; omega, by rw [hcy]; exact Nat.dvd_sub hdvd dvd_rfl⟩,
      fun _ => by rw [hcy]; omega⟩
  · rw [if_neg hlast, conCtrlNewl_down hlast]
    exact ⟨rfl, ⟨hwidth, Nat.lt_of_not_le hlast, by rw [hadd]; exact Nat.dvd_add hdvd dvd_rfl⟩,
      fun _ => by omega⟩

/-- A step of the cursor to the right, which may leave the row. -/
theorem advance (hD : D.Usual) (cx : ℕ) (hcy : s.cy < D.fbH) (hdvd : D.cellH ∣ s.cy) :
    (if cx ≥ D.fbW then Checked.conCtrlNewl D { s with cx := cx } else some { s with cx := cx }) =
        some (if cx ≥ D.fbW then conCtrlNewl D { s with cx := cx } else { s with cx := cx }) ∧
      OnScreen D (if cx ≥ D.fbW then conCtrlNewl D { s with cx := cx } else { s with cx := cx }) := by
  by_cases hend : cx ≥ D.fbW
  · obtain ⟨hnewl, hon, -⟩ := newl (s := { s with cx := cx }) hD hcy hdvd
    rw [if_pos hend, if_pos hend]
    exact ⟨hnewl, hon⟩
  · rw [if_neg hend, if_neg hend]
    exact ⟨rfl, Nat.lt_of_not_le hend, hcy, hdvd⟩

/-- **The start of a turn**: there is room for a cell below the cursor. -/
theorem settle (hD : D.Usual) (h : OnScreen D s) :
    Checked.settle D s = some (Console.settle D s) ∧ OnScreen D (Console.settle D s) ∧
      (Console.settle D s).cy + D.cellH < D.fbH := by
  have hcell := D.cellH_lt
  have hfbH := hD.fbH_lt
  have hroom := checked_sub (Nat.le_of_lt hcell) (show D.fbH < 2 ^ 32 by omega)
  have hsub : Word.sub32 D.fbH D.cellH = D.fbH - D.cellH := Word.sub32_of_le (by omega) (by omega)
  rw [Checked.settle, Console.settle, hroom, Option.bind_eq_bind, Option.bind_some]
  by_cases hlast : s.cy ≥ Word.sub32 D.fbH D.cellH
  · obtain ⟨hnewl, hon, hbelow⟩ := newl hD h.cy_lt h.cy_dvd
    simp only [if_pos hlast]
    exact ⟨hnewl, hon, hbelow (by omega)⟩
  · simp only [if_neg hlast]
    exact ⟨trivial, h, by omega⟩

/-- A printable character. -/
theorem putChar (hD : D.Usual) (h : OnScreen D s) (hroom : s.cy + D.cellH < D.fbH) (c : ℕ) :
    Checked.putChar D c s = some (Console.putChar D c s) ∧ OnScreen D (Console.putChar D c s) := by
  have hfbW := hD.fbW_lt
  have hcx := h.cx_lt
  have hadvance := hD.xAdvance_lt (c - 0x20)
  obtain ⟨hx, hy⟩ := conDrawGlyph_cursor D c s.cx s.cy s
  have hsum : (conDrawGlyph D c s.cx s.cy s).cx + (D.glyphs (c - 0x20)).xAdvance < 2 ^ 32 := by omega
  rw [Checked.putChar, Console.putChar, Checked.onScreen, if_pos ⟨hcx, Nat.le_of_lt hroom⟩]
  simp only [Option.bind_eq_bind, Option.bind_some, checked_add hsum]
  exact advance hD _ (by rw [hy]; exact h.cy_lt) (by rw [hy]; exact h.cy_dvd)

/-- A tab. -/
theorem conCtrlTab (hD : D.Usual) (h : OnScreen D s) :
    Checked.conCtrlTab D s = some (Console.conCtrlTab D s) ∧ OnScreen D (Console.conCtrlTab D s) := by
  have hfbW := hD.fbW_lt
  have hcx := h.cx_lt
  have hglyW := glyW_lt hD
  have htab : glyW D * tabStop % 2 ^ 32 = glyW D * 8 := Nat.mod_eq_of_lt (by unfold tabStop; omega)
  rw [Checked.conCtrlTab, Console.conCtrlTab]
  simp only [htab]
  by_cases hzero : glyW D * 8 = 0
  · simp only [if_pos hzero]
    exact ⟨trivial, h⟩
  · have hmod : s.cx % (glyW D * 8) < glyW D * 8 := Nat.mod_lt _ (by omega)
    have hdist : Checked.sub (glyW D * 8) (s.cx % (glyW D * 8)) =
        some (glyW D * 8 - s.cx % (glyW D * 8)) := if_pos (Nat.le_of_lt hmod)
    have hsum : s.cx + (glyW D * 8 - s.cx % (glyW D * 8)) < 2 ^ 32 := by omega
    simp only [if_neg hzero, hdist, checked_add hsum, Option.bind_eq_bind, Option.bind_some]
    exact advance hD _ h.cy_lt h.cy_dvd

/-- A backspace. -/
theorem conCtrlBackspace (hD : D.Usual) (h : OnScreen D s) (hroom : s.cy + D.cellH < D.fbH) :
    Checked.conCtrlBackspace D s = some (Console.conCtrlBackspace D s) ∧
      OnScreen D (Console.conCtrlBackspace D s) := by
  have hfbW := hD.fbW_lt
  have hfbH := hD.fbH_lt
  have hcx := h.cx_lt
  have hpos := hD.glyW_pos
  have hle := hD.glyW_le
  rw [Checked.conCtrlBackspace, Console.conCtrlBackspace]
  by_cases hleft : s.cx ≥ glyW D
  · have hsub : Word.sub32 s.cx (glyW D) = s.cx - glyW D := Word.sub32_of_le hleft (by omega)
    simp only [if_pos hleft, checked_sub hleft (show s.cx < 2 ^ 32 by omega), Option.bind_eq_bind,
      Option.bind_some, Checked.onScreen, hsub]
    rw [if_pos ⟨by omega, Nat.le_of_lt hroom⟩]
    obtain ⟨hx, hy⟩ := conFillGlyph_cursor (D := D) (s := { s with cx := s.cx - glyW D }) (D.glyphs 0)
      (s.cx - glyW D) s.cy
    exact ⟨rfl, by rw [hx]; dsimp only; omega, by rw [hy]; exact h.cy_lt, by rw [hy]; exact h.cy_dvd⟩
  · by_cases hup : s.cy ≥ D.cellH
    · have hsub : Word.sub32 s.cy D.cellH = s.cy - D.cellH := Word.sub32_of_le hup (by omega)
      have hsub' : Word.sub32 D.fbW (glyW D) = D.fbW - glyW D := Word.sub32_of_le hle (by omega)
      simp only [if_neg hleft, if_pos hup, checked_sub hup (show s.cy < 2 ^ 32 by omega),
        checked_sub hle (show D.fbW < 2 ^ 32 by omega), Option.bind_eq_bind, Option.bind_some,
        Checked.onScreen, hsub, hsub']
      rw [if_pos ⟨by omega, by omega⟩]
      obtain ⟨hx, hy⟩ := conFillGlyph_cursor (D := D)
        (s := { s with cy := s.cy - D.cellH, cx := D.fbW - glyW D }) (D.glyphs 0) (D.fbW - glyW D)
        (s.cy - D.cellH)
      refine ⟨rfl, by rw [hx]; dsimp only; omega, by rw [hy]; dsimp only; omega, ?_⟩
      rw [hy]
      exact Nat.dvd_sub h.cy_dvd dvd_rfl
    · simp only [if_neg hleft, if_neg hup]
      exact ⟨trivial, h⟩

/-- **A byte does not fail.** -/
theorem writeByte (hD : D.Usual) (h : OnScreen D s) (c : ℕ) :
    Checked.writeByte D s c = some (Console.writeByte D s c).1 ∧
      OnScreen D (Console.writeByte D s c).1 := by
  obtain ⟨hsettle, hon, hroom⟩ := h.settle hD
  rw [Checked.writeByte, Console.writeByte, hsettle, Option.bind_eq_bind, Option.bind_some]
  by_cases hctrl : c < 0x20 ∨ c > 0x7E
  · rw [if_pos hctrl, if_pos hctrl, Checked.conAsciiCtrl, conAsciiCtrl]
    split_ifs
    · exact ⟨rfl, Nat.lt_of_lt_of_le hD.glyW_pos hD.glyW_le, hon.cy_lt, hon.cy_dvd⟩
    · obtain ⟨hnewl, hon', -⟩ := newl hD hon.cy_lt hon.cy_dvd
      exact ⟨hnewl, hon'⟩
    · exact hon.conCtrlTab hD
    · exact hon.conCtrlBackspace hD hroom
    · exact ⟨rfl, hon⟩
  · rw [if_neg hctrl, if_neg hctrl]
    exact hon.putChar hD hroom c

/-- A call of `kcon_write`. -/
theorem bytes (hD : D.Usual) (buf : List ℕ) {s : KernelConsole} (h : OnScreen D s) :
    buf.foldlM (Checked.writeByte D) s = some (Console.bytes D s buf) ∧
      OnScreen D (Console.bytes D s buf) := by
  induction buf generalizing s with
  | nil => exact ⟨rfl, h⟩
  | cons c buf ih =>
      obtain ⟨hbyte, hon⟩ := h.writeByte hD c
      rw [List.foldlM_cons, hbyte, Option.bind_eq_bind, Option.bind_some, bytes_cons]
      exact ih hon

/-- **A call does not fail.** -/
theorem runCall (hD : D.Usual) (h : OnScreen D s) (clear : Bool) (call : Call) :
    Checked.runCall D clear s call = some (Console.runCall D clear s call) ∧
      OnScreen D (Console.runCall D clear s call) := by
  cases call with
  | write buf =>
      cases buf with
      | none => exact ⟨rfl, h⟩
      | some buf =>
          have hwrite : (kconWrite D (some buf) s).1 = Console.bytes D s buf := writeLoop_fst D 0 s buf
          rw [Console.runCall, hwrite]
          exact h.bytes hD buf
  | clear =>
      refine ⟨rfl, ?_⟩
      rw [Console.runCall, kconClear]
      split
      · exact h
      · exact ⟨Nat.lt_of_lt_of_le hD.glyW_pos hD.glyW_le, Nat.lt_trans D.cellH_pos D.cellH_lt,
          Nat.dvd_zero _⟩

theorem run (hD : D.Usual) (clear : Bool) (calls : List Call) {s : KernelConsole} (h : OnScreen D s) :
    Checked.run D clear s calls = some (Console.run D clear s calls) := by
  induction calls generalizing s with
  | nil => rfl
  | cons call calls ih =>
      obtain ⟨hcall, hon⟩ := h.runCall hD clear call
      rw [Checked.run, List.foldlM_cons, hcall, Option.bind_eq_bind, Option.bind_some]
      exact ih hon

end OnScreen

end Steps

/-- **The cursor stays on the screen**: from the first position on, no sequence of calls draws outside of
the screen or wraps around. -/
theorem run_checked {D : Display} (hD : D.Usual) (clear : Bool) (rows : ℕ → List Mark)
    (calls : List Call) :
    Checked.run D clear ⟨0, 0, rows⟩ calls = some (run D clear ⟨0, 0, rows⟩ calls) :=
  OnScreen.run hD clear calls ⟨Nat.lt_of_lt_of_le hD.glyW_pos hD.glyW_le,
    Nat.lt_trans D.cellH_pos D.cellH_lt, Nat.dvd_zero _⟩

/-- A screen of two columns and two and a half bands. -/
def twoColumns : Display where
  blitPixel := true
  scroll := true
  fbW := 16
  fbH := 40
  cellW := 8
  cellH := 16
  glyphs _ := ⟨8, 16, 8⟩
  cellH_pos := by decide
  cellH_lt := by decide
  fbW_lt := by decide
  fbH_lt := by decide

/-- A newline, a tab, a backspace and a character. -/
theorem run_checked_two : Checked.run twoColumns true ⟨0, 0, fun _ => []⟩
    [Call.write (some [0x0A, 0x09, 0x08, 0x41]), Call.clear] =
      some (run twoColumns true ⟨0, 0, fun _ => []⟩
        [Call.write (some [0x0A, 0x09, 0x08, 0x41]), Call.clear]) :=
  run_checked ⟨by decide, by decide, by decide, fun _ => (show 8 < 2 ^ 8 by decide),
    fun _ => (show 8 < 2 ^ 8 by decide), by decide, by decide⟩
    true _ _

end Console

end SyncKernel
