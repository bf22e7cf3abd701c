/-
**The console writes nothing outside of the framebuffer.**

A pixel that `gop_blit` or `gop_fill_rect` sets is clipped to the screen, `gop_scroll` moves the rows of the
framebuffer, and `gop_clear` sets its pixels.  So no call of the console, wherever the cursor is, changes a
byte behind the last row.

Main results:

* `Console.Raster.conDrawGlyph_keeps`, `Console.Raster.conFillGlyph_keeps`,
  `Console.Raster.conScroll_keeps` — drawing and scrolling;
* `Console.Raster.run_keeps` — **a sequence of calls**.
-/

import SyncKernel.Console.Raster

set_option relaxedAutoImplicit false
set_option autoImplicit false

namespace SyncKernel

namespace Console

open Gop (KeepsBehind)

namespace Raster

variable {P : Panel} {s s' : Screen} {mem mem' : Gop.Memory}

/-! ### Drawing and scrolling -/

theorem drawBit_keeps {glyph : FontGlyph} {dxBase dy : ℤ} {h w : ℕ}
    (hrun : drawBit P glyph dxBase dy h mem w = some mem') : KeepsBehind P.fb mem mem' := by
  obtain ⟨bit, -, hrun⟩ := Option.bind_eq_some_iff.1 hrun
  cases bit with
  | false => exact Option.some_inj.1 hrun ▸ KeepsBehind.refl P.fb mem
  | true =>
      obtain ⟨dx, -, hrun⟩ := Option.bind_eq_some_iff.1 hrun
      exact Gop.keepsBehind_gopBlit P.fits hrun

theorem drawRow_keeps {glyph : FontGlyph} {dxBase bY : ℤ} {h : ℕ}
    (hrun : drawRow P glyph dxBase bY mem h = some mem') : KeepsBehind P.fb mem mem' := by
  obtain ⟨dy, -, hrun⟩ := Option.bind_eq_some_iff.1 hrun
  obtain ⟨dy', -, hrun⟩ := Option.bind_eq_some_iff.1 hrun
  exact foldlM_keeps (Q := KeepsBehind P.fb mem) (fun w _ _ _ hkeep hbit => hkeep.trans (drawBit_keeps hbit))
    (KeepsBehind.refl P.fb mem) hrun

/-- **A glyph.** -/
theorem conDrawGlyph_keeps {glyph : FontGlyph} {x y : ℕ} (hrun : conDrawGlyph P glyph x y s = some s') :
    KeepsBehind P.fb s.mem s'.mem := by
  obtain ⟨bY, -, hrun⟩ := Option.bind_eq_some_iff.1 hrun
  obtain ⟨dxBase, -, hrun⟩ := Option.bind_eq_some_iff.1 hrun
  obtain ⟨mem, hrows, hrun⟩ := Option.bind_eq_some_iff.1 hrun
  obtain rfl := Option.some_inj.1 hrun
  exact foldlM_keeps (Q := KeepsBehind P.fb s.mem) (fun h _ _ _ hkeep hrow => hkeep.trans (drawRow_keeps hrow))
    (KeepsBehind.refl P.fb s.mem) hrows

/-- **A cell that is erased.** -/
theorem conFillGlyph_keeps {glyph : FontGlyph} {x y : ℕ} (hrun : conFillGlyph P glyph x y s = some s') :
    KeepsBehind P.fb s.mem s'.mem := by
  rw [conFillGlyph] at hrun
  split at hrun
  · exact Option.some_inj.1 hrun ▸ KeepsBehind.refl P.fb s.mem
  · obtain ⟨r, -, hrun⟩ := Option.bind_eq_some_iff.1 hrun
    obtain rfl := Option.some_inj.1 hrun
    exact Gop.keepsBehind_gopFillRect P.fits r P.colorBg s.mem

/-- **A scroll.** -/
theorem conScroll_keeps (P : Panel) (s : Screen) : KeepsBehind P.fb s.mem (conScroll P s).mem :=
  Gop.keepsBehind_gopScroll P.fits P.pixelH_lt.le s.mem

/-! ### Control characters -/

/-- Only the cursor moved. -/
theorem keeps_of_same {β : Type} {s₁ : Screen} {a b : β} (hrun : some (s₁, a) = some (s', b))
    (hmem : s₁.mem = s.mem) : KeepsBehind P.fb s.mem s'.mem := by
  obtain ⟨rfl, -⟩ := Prod.mk.inj (Option.some_inj.1 hrun)
  rw [hmem]
  exact KeepsBehind.refl P.fb s.mem

theorem conCtrlNewl_keeps (P : Panel) (s : Screen) : KeepsBehind P.fb s.mem (conCtrlNewl P s).mem := by
  rw [conCtrlNewl]
  split
  · exact conScroll_keeps P (conCtrlCarriageRet s)
  · exact KeepsBehind.refl P.fb s.mem

theorem conCtrlTab_keeps (P : Panel) (s : Screen) : KeepsBehind P.fb s.mem (conCtrlTab P s).mem := by
  rw [conCtrlTab]
  dsimp only
  split_ifs
  · exact KeepsBehind.refl P.fb s.mem
  · exact conCtrlNewl_keeps P _
  · exact KeepsBehind.refl P.fb s.mem

theorem conCtrlBackspace_keeps (hrun : conCtrlBackspace P s = some s') : KeepsBehind P.fb s.mem s'.mem := by
  rw [conCtrlBackspace] at hrun
  split_ifs at hrun
  · exact conFillGlyph_keeps (s := { s with cx := Word.sub32 s.cx (glyW P) }) hrun
  · exact conFillGlyph_keeps (s := { s with
      cy := Word.sub32 s.cy P.font.pixelH.toNat
      cx := Word.sub32 P.fb.width (glyW P) }) hrun
  · exact Option.some_inj.1 hrun ▸ KeepsBehind.refl P.fb s.mem

theorem conAsciiCtrl_keeps {c : ℕ} {b : Bool} (hrun : conAsciiCtrl P c s = some (s', b)) :
    KeepsBehind P.fb s.mem s'.mem := by
  rw [conAsciiCtrl] at hrun
  split_ifs at hrun
  · exact keeps_of_same hrun rfl
  · obtain ⟨rfl, -⟩ := Prod.mk.inj (Option.some_inj.1 hrun)
    exact conCtrlNewl_keeps P s
  · obtain ⟨rfl, -⟩ := Prod.mk.inj (Option.some_inj.1 hrun)
    exact conCtrlTab_keeps P s
  · obtain ⟨s₁, hback, heq⟩ := Option.map_eq_some_iff.1 hrun
    obtain ⟨rfl, -⟩ := Prod.mk.inj heq
    exact conCtrlBackspace_keeps hback
  · exact keeps_of_same hrun rfl

/-! ### Writing -/

theorem settle_keeps (P : Panel) (s : Screen) : KeepsBehind P.fb s.mem (settle P s).mem := by
  rw [settle]
  split
  · exact conCtrlNewl_keeps P s
  · exact KeepsBehind.refl P.fb s.mem

theorem putChar_keeps {c : ℕ} (hrun : putChar P c s = some s') : KeepsBehind P.fb s.mem s'.mem := by
  obtain ⟨glyph, -, hrun⟩ := Option.bind_eq_some_iff.1 hrun
  obtain ⟨s₁, hdraw, hrun⟩ := Option.bind_eq_some_iff.1 hrun
  obtain rfl := Option.some_inj.1 hrun
  refine (conDrawGlyph_keeps hdraw).trans ?_
  dsimp only
  split
  · exact conCtrlNewl_keeps P _
  · exact KeepsBehind.refl P.fb s₁.mem

theorem writeByte_keeps {c : ℕ} {b : Bool} (hrun : writeByte P s c = some (s', b)) :
    KeepsBehind P.fb s.mem s'.mem := by
  refine (settle_keeps P s).trans ?_
  rw [writeByte] at hrun
  split_ifs at hrun
  · exact conAsciiCtrl_keeps hrun
  · obtain ⟨s₁, hput, heq⟩ := Option.map_eq_some_iff.1 hrun
    obtain ⟨rfl, -⟩ := Prod.mk.inj heq
    exact putChar_keeps hput

theorem writeLoop_keeps {buf : List ℕ} {consumed n : ℤ} (hrun : writeLoop P consumed s buf = some (s', n)) :
    KeepsBehind P.fb s.mem s'.mem := by
  induction buf generalizing consumed s with
  | nil =>
      exact keeps_of_same hrun rfl
  | cons c buf ih =>
      obtain ⟨⟨s₁, b⟩, hbyte, hrun⟩ := Option.bind_eq_some_iff.1 hrun
      exact (writeByte_keeps hbyte).trans (ih hrun)

theorem kconWrite_keeps {buf : Option (List ℕ)} {n : ℤ} (hrun : kconWrite P buf s = some (s', n)) :
    KeepsBehind P.fb s.mem s'.mem := by
  cases buf with
  | none =>
      exact keeps_of_same hrun rfl
  | some buf => exact writeLoop_keeps hrun

theorem runCall_keeps {call : Call} {ret : Option ℤ} (hrun : runCall P s call = some (s', ret)) :
    KeepsBehind P.fb s.mem s'.mem := by
  cases call with
  | write buf =>
      obtain ⟨⟨s₁, n⟩, hwrite, heq⟩ := Option.map_eq_some_iff.1 hrun
      obtain ⟨rfl, -⟩ := Prod.mk.inj heq
      exact kconWrite_keeps hwrite
  | clear =>
      obtain ⟨rfl, -⟩ := Prod.mk.inj (Option.some_inj.1 hrun)
      exact Gop.keepsBehind_gopClear P.fits s.mem

/-- **A sequence of calls** leaves the bytes behind the framebuffer as they are. -/
theorem run_keeps {calls : List Call} {rets : List (Option ℤ)} (hrun : run P s calls = some (s', rets)) :
    KeepsBehind P.fb s.mem s'.mem := by
  induction calls generalizing s rets with
  | nil =>
      exact keeps_of_same hrun rfl
  | cons call calls ih =>
      obtain ⟨⟨s₁, ret⟩, hcall, hrun⟩ := Option.bind_eq_some_iff.1 hrun
      obtain ⟨⟨s₂, rets'⟩, hcalls, hrun⟩ := Option.bind_eq_some_iff.1 hrun
      obtain ⟨rfl, -⟩ := Prod.mk.inj (Option.some_inj.1 hrun)
      exact (runCall_keeps hcall).trans (ih hcalls)

end Raster

end Console

end SyncKernel
