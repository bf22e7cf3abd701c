/-
**A processor in 64-bit mode.**

The general registers, the segment registers and a memory of bytes, and what some instructions do to them:
those that code at the edge of an interrupt handler consists of.  The flags of the arithmetic instructions are
left out, and so are the faults of loading a segment register.

Main definitions:

* `X86.Reg`, `X86.Seg`, `X86.Cpu` — the state;
* `X86.Instr`, `X86.exec` — the instructions, and what a list of them does;
* `X86.Stacked` — the words that lie on a stack.

Main results:

* `X86.exec_pushes` — **saving registers** on the stack;
* `X86.exec_pops` — **loading registers** from the stack.
-/

import SyncKernel.Lib.Bytes
import SyncKernel.Lib.Word
import Mathlib.Logic.Function.Basic

set_option relaxedAutoImplicit false
set_option autoImplicit false

namespace SyncKernel

namespace X86

/-! ### The state -/

/-- The general registers. -/
inductive Reg
  | rax | rbx | rcx | rdx | rsi | rdi | rbp | rsp | r8 | r9 | r10 | r11 | r12 | r13 | r14 | r15
  deriving DecidableEq

/-- The segment registers for data. -/
inductive Seg
  | ds | es | fs | gs
  deriving DecidableEq

/-- The state of the processor, with the memory. -/
structure Cpu where
  reg : Reg → ℕ
  seg : Seg → ℕ
  cs : ℕ
  ss : ℕ
  rip : ℕ
  rflags : ℕ
  mem : ℕ → UInt8

namespace Cpu

variable (c : Cpu)

/-- The stack pointer. -/
def sp : ℕ := c.reg Reg.rsp

/-- Setting a general register. -/
def setReg (r : Reg) (v : ℕ) : Cpu := { c with reg := Function.update c.reg r v }

/-- Setting a segment register. -/
def setSeg (s : Seg) (v : ℕ) : Cpu := { c with seg := Function.update c.seg s v }

/-- The stack pointer moves, and a word lies where it points. -/
def place (a v : ℕ) : Cpu :=
  { c with
    reg := Function.update c.reg Reg.rsp a
    mem := Bytes.write c.mem a v 8 }

/-- A word goes on the stack. -/
def push (v : ℕ) : Cpu := c.place (Word.sub c.sp 8) v

/-- Words go on the stack, one after the other. -/
def pushAll (vs : List ℕ) : Cpu := vs.foldl push c

/-- The word on the stack. -/
def top : ℕ := Bytes.read c.mem c.sp 8

/-- Words leave the stack. -/
def drop (n : ℕ) : Cpu := c.setReg Reg.rsp (Word.add c.sp n)

/-- The register with other low 16 bits. -/
def low16 (r : Reg) (v : ℕ) : ℕ := c.reg r / 2 ^ 16 * 2 ^ 16 + v % 2 ^ 16

variable {c}

theorem setReg_reg (r : Reg) (v : ℕ) : (c.setReg r v).reg = Function.update c.reg r v := rfl

@[simp] theorem setReg_reg_self (r : Reg) (v : ℕ) : (c.setReg r v).reg r = v := by
  rw [setReg_reg, Function.update_self]

theorem setReg_reg_of_ne {r r' : Reg} (hr : r' ≠ r) (v : ℕ) : (c.setReg r v).reg r' = c.reg r' := by
  rw [setReg_reg, Function.update_of_ne hr]

theorem setReg_sp {r : Reg} (hr : Reg.rsp ≠ r) (v : ℕ) : (c.setReg r v).sp = c.sp :=
  setReg_reg_of_ne hr v

theorem setReg_rsp_sp (v : ℕ) : (c.setReg Reg.rsp v).sp = v := setReg_reg_self Reg.rsp v

theorem place_reg {r : Reg} (hr : r ≠ Reg.rsp) (a v : ℕ) : (c.place a v).reg r = c.reg r :=
  Function.update_of_ne hr _ _

theorem place_reg_rsp (a v : ℕ) : (c.place a v).reg Reg.rsp = a := by
  simp [place]

theorem place_sp (a v : ℕ) : (c.place a v).sp = a := place_reg_rsp a v

theorem place_mem (a v : ℕ) : (c.place a v).mem = Bytes.write c.mem a v 8 := rfl

theorem drop_sp {n : ℕ} (h : c.sp + n < 2 ^ 64) : (c.drop n).sp = c.sp + n := by
  unfold drop
  rw [setReg_rsp_sp, Word.add_of_lt h]

theorem drop_reg {r : Reg} (hr : r ≠ Reg.rsp) (n : ℕ) : (c.drop n).reg r = c.reg r :=
  setReg_reg_of_ne hr _

theorem push_eq (h : 8 ≤ c.sp) (hlt : c.sp < 2 ^ 64) (v : ℕ) : c.push v = c.place (c.sp - 8) v := by
  unfold push
  rw [Word.sub_of_le h hlt]

end Cpu

/-! ### Instructions -/

/-- The instructions.  `load16` is a `mov` from memory to the low 16 bits of a register, `fromSeg` and
`toSeg` are those from and to a segment register, and `clear` is the `xor` of a register with itself. -/
inductive Instr
  | push (r : Reg)
  | pushImm (v : ℕ)
  | pop (r : Reg)
  | mov (r s : Reg)
  | clear (r : Reg)
  | load16 (a : ℕ) (r : Reg)
  | fromSeg (s : Seg) (r : Reg)
  | toSeg (r : Reg) (s : Seg)
  | add (n : ℕ) (r : Reg)
  | iretq

/-- One instruction.  `iretq` stays in the same ring, and loads the stack pointer also then. -/
def step (c : Cpu) : Instr → Cpu
  | Instr.push r => c.push (c.reg r)
  | Instr.pushImm v => c.push v
  | Instr.pop r => (c.drop 8).setReg r c.top
  | Instr.mov r s => c.setReg s (c.reg r)
  | Instr.clear r => c.setReg r 0
  | Instr.load16 a r => c.setReg r (c.low16 r (Bytes.read c.mem a 2))
  | Instr.fromSeg s r => c.setReg r (c.low16 r (c.seg s))
  | Instr.toSeg r s => c.setSeg s (c.reg r % 2 ^ 16)
  | Instr.add n r => c.setReg r (Word.add (c.reg r) n)
  | Instr.iretq =>
      { c with
        rip := Bytes.read c.mem c.sp 8
        cs := Bytes.read c.mem (c.sp + 8) 8 % 2 ^ 16
        rflags := Bytes.read c.mem (c.sp + 16) 8
        reg := Function.update c.reg Reg.rsp (Bytes.read c.mem (c.sp + 24) 8)
        ss := Bytes.read c.mem (c.sp + 32) 8 % 2 ^ 16 }

/-- A list of instructions. -/
def exec (c : Cpu) (is : List Instr) : Cpu := is.foldl step c

theorem exec_append (c : Cpu) (is js : List Instr) : exec c (is ++ js) = exec (exec c is) js :=
  List.foldl_append

theorem step_add_sp {c : Cpu} {n : ℕ} (h : c.sp + n < 2 ^ 64) : (step c (Instr.add n Reg.rsp)).sp = c.sp + n := by
  have hreg : c.reg Reg.rsp = c.sp := rfl
  rw [step, Cpu.setReg_rsp_sp, hreg, Word.add_of_lt h]

theorem step_iretq_reg (c : Cpu) {r : Reg} (hr : r ≠ Reg.rsp) : (step c Instr.iretq).reg r = c.reg r := by
  simp [step, hr]

/-! ### The stack -/

/-- The words from an address on. -/
def Stacked (mem : ℕ → UInt8) : ℕ → List ℕ → Prop
  | _, [] => True
  | a, v :: vs => Bytes.read mem a 8 = v ∧ Stacked mem (a + 8) vs

theorem stacked_append {mem : ℕ → UInt8} {vs ws : List ℕ} :
    ∀ {a : ℕ}, Stacked mem a (vs ++ ws) ↔ Stacked mem a vs ∧ Stacked mem (a + 8 * vs.length) ws := by
  induction vs with
  | nil => intro a; simp [Stacked]
  | cons v vs ih =>
      intro a
      rw [List.cons_append, Stacked, Stacked, ih, List.length_cons, and_assoc,
        show a + 8 + 8 * vs.length = a + 8 * (vs.length + 1) by omega]

/-- A word that lies on a stack. -/
theorem Stacked.get {mem : ℕ → UInt8} {vs : List ℕ} :
    ∀ {a i : ℕ}, Stacked mem a vs → ∀ h : i < vs.length, Bytes.read mem (a + 8 * i) 8 = vs.get ⟨i, h⟩ := by
  induction vs with
  | nil => exact fun _ h => absurd h (Nat.not_lt_zero _)
  | cons v vs ih =>
      intro a i hst h
      cases i with
      | zero => exact hst.1
      | succ i =>
          rw [show a + 8 * (i + 1) = a + 8 + 8 * i by omega]
          exact ih hst.2 (Nat.lt_of_succ_lt_succ h)

theorem Stacked.congr {mem mem' : ℕ → UInt8} {vs : List ℕ} :
    ∀ {a : ℕ}, Stacked mem a vs → (∀ b, a ≤ b → b < a + 8 * vs.length → mem' b = mem b) →
      Stacked mem' a vs := by
  induction vs with
  | nil => exact fun _ _ => trivial
  | cons v vs ih =>
      intro a h hsame
      rw [List.length_cons] at hsame
      refine ⟨Eq.trans (Bytes.read_congr fun b h₁ h₂ => hsame b h₁ (by omega)) h.1, ih h.2 fun b h₁ h₂ => ?_⟩
      exact hsame b (by omega) (by omega)

/-- **Returning from an interrupt**, with the words of the processor on the stack. -/
theorem step_iretq {c : Cpu} {rip cs rflags sp ss : ℕ} (h : Stacked c.mem c.sp [rip, cs, rflags, sp, ss]) :
    (step c Instr.iretq).rip = rip ∧ (step c Instr.iretq).cs = cs % 2 ^ 16 ∧
      (step c Instr.iretq).rflags = rflags ∧ (step c Instr.iretq).reg Reg.rsp = sp ∧
      (step c Instr.iretq).ss = ss % 2 ^ 16 := by
  obtain ⟨hrip, hcs, hflags, hsp, hss, -⟩ := h
  simp only [Nat.add_assoc, Nat.reduceAdd] at hflags hsp hss
  simp [step, hrip, hcs, hflags, hsp, hss]

/-- The state after some words went on the stack: they lie below the old stack pointer, and what is above it
is as it was. -/
structure Pushed (c : Cpu) (vs : List ℕ) (c' : Cpu) : Prop where
  sp : c'.sp + 8 * vs.length = c.sp
  reg : ∀ r, r ≠ Reg.rsp → c'.reg r = c.reg r
  seg : c'.seg = c.seg
  cs : c'.cs = c.cs
  ss : c'.ss = c.ss
  rip : c'.rip = c.rip
  rflags : c'.rflags = c.rflags
  words : Stacked c'.mem c'.sp vs
  above : ∀ b, c.sp ≤ b → c'.mem b = c.mem b
  below : ∀ b, b < c'.sp → c'.mem b = c.mem b

theorem Pushed.refl (c : Cpu) : Pushed c [] c :=
  ⟨rfl, fun _ _ => rfl, rfl, rfl, rfl, rfl, rfl, trivial, fun _ _ => rfl, fun _ _ => rfl⟩

/-- One word more. -/
theorem Pushed.push {c c' : Cpu} {vs : List ℕ} (h : Pushed c vs c') {v : ℕ} (hv : v < 2 ^ 64)
    (hroom : 8 ≤ c'.sp) (hlt : c.sp < 2 ^ 64) : Pushed c (v :: vs) (c'.push v) := by
  have hsp := h.sp
  rw [Cpu.push_eq hroom (by omega)]
  have hnew : (c'.place (c'.sp - 8) v).sp = c'.sp - 8 := Cpu.place_sp ..
  refine ⟨?_, fun r hr => (Cpu.place_reg hr ..).trans (h.reg r hr), h.seg, h.cs, h.ss, h.rip, h.rflags,
    ⟨?_, ?_⟩, fun b hb => ?_, fun b hb => ?_⟩
  · rw [hnew, List.length_cons]
    omega
  · rw [hnew, Cpu.place_mem, Bytes.read_write_self le_rfl]
    exact Nat.mod_eq_of_lt hv
  · rw [hnew, show c'.sp - 8 + 8 = c'.sp by omega, Cpu.place_mem]
    exact h.words.congr fun b h₁ h₂ => Bytes.write_of_notMem (by omega)
  · rw [Cpu.place_mem, Bytes.write_of_notMem (by omega), h.above b hb]
  · rw [hnew] at hb
    rw [Cpu.place_mem, Bytes.write_of_notMem (by omega), h.below b (by omega)]

/-- Some words more. -/
theorem Pushed.pushAll {c : Cpu} (hlt : c.sp < 2 ^ 64) :
    ∀ (ws : List ℕ) {vs : List ℕ} {c' : Cpu}, Pushed c vs c' → (∀ v ∈ ws, v < 2 ^ 64) →
      8 * ws.length ≤ c'.sp → Pushed c (ws.reverse ++ vs) (c'.pushAll ws) := by
  intro ws
  induction ws with
  | nil => exact fun h _ _ => h
  | cons v ws ih =>
      intro vs c' h hws hroom
      rw [List.length_cons] at hroom
      have hpush := h.push (hws v List.mem_cons_self) (by omega) hlt
      have hsp := hpush.sp
      have hsp' := h.sp
      rw [List.length_cons] at hsp
      have hrest := ih hpush (fun w hw => hws w (List.mem_cons_of_mem _ hw)) (by omega)
      rwa [List.reverse_cons, List.append_assoc]

/-- **Saving registers** on the stack, the last of them on top. -/
theorem exec_pushes {c c' : Cpu} {vs : List ℕ} (h : Pushed c vs c') (hlt : c.sp < 2 ^ 64)
    (hreg : ∀ r, c.reg r < 2 ^ 64) :
    ∀ (rs : List Reg), Reg.rsp ∉ rs → 8 * rs.length ≤ c'.sp →
      Pushed c (rs.reverse.map c.reg ++ vs) (exec c' (rs.map Instr.push)) := by
  intro rs
  induction rs generalizing c' vs with
  | nil => exact fun _ _ => h
  | cons r rs ih =>
      intro hrs hroom
      rw [List.length_cons] at hroom
      have hr : r ≠ Reg.rsp := fun heq => hrs (heq ▸ List.mem_cons_self)
      have hval : c'.reg r = c.reg r := h.reg r hr
      have hpush : Pushed c (c.reg r :: vs) (step c' (Instr.push r)) := by
        rw [step, hval]
        exact h.push (hreg r) (by omega) hlt
      have hsp := hpush.sp
      have hsp' := h.sp
      rw [List.length_cons] at hsp
      have hrest := ih hpush (fun hmem => hrs (List.mem_cons_of_mem _ hmem)) (by omega)
      rwa [List.reverse_cons, List.map_append, List.append_assoc]

/-- The state after some words left the stack, for registers. -/
structure Popped (c : Cpu) (rs : List Reg) (f : Reg → ℕ) (c' : Cpu) : Prop where
  sp : c'.sp = c.sp + 8 * rs.length
  loaded : ∀ r ∈ rs, c'.reg r = f r
  kept : ∀ r, r ≠ Reg.rsp → r ∉ rs → c'.reg r = c.reg r
  seg : c'.seg = c.seg
  mem : c'.mem = c.mem

/-- **Loading registers** from the stack. -/
theorem exec_pops {f : Reg → ℕ} :
    ∀ (rs : List Reg) {c : Cpu}, Reg.rsp ∉ rs → c.sp + 8 * rs.length < 2 ^ 64 → Stacked c.mem c.sp (rs.map f) →
      Popped c rs f (exec c (rs.map Instr.pop)) := by
  intro rs
  induction rs with
  | nil => exact fun _ _ _ => ⟨rfl, fun _ hr => absurd hr List.not_mem_nil, fun _ _ _ => rfl, rfl, rfl⟩
  | cons r rs ih =>
      intro c hrs hlt hst
      rw [List.length_cons] at hlt
      have hr : r ≠ Reg.rsp := fun heq => hrs (heq ▸ List.mem_cons_self)
      have hsp : (step c (Instr.pop r)).sp = c.sp + 8 :=
        (Cpu.setReg_sp hr.symm _).trans (Cpu.drop_sp (by omega))
      obtain ⟨htop, hst⟩ := hst
      have hval : (step c (Instr.pop r)).reg r = f r := (Cpu.setReg_reg_self r _).trans htop
      have hrest := ih (c := step c (Instr.pop r)) (fun hmem => hrs (List.mem_cons_of_mem _ hmem))
        (by rw [hsp]; omega) (by rw [hsp]; exact hst)
      refine ⟨?_, fun r' hr' => ?_, fun r' hne hr' => ?_, hrest.seg, hrest.mem⟩
      · rw [List.length_cons]
        refine hrest.sp.trans ?_
        rw [hsp]
        omega
      · by_cases hin : r' ∈ rs
        · exact hrest.loaded r' hin
        · obtain rfl := (List.mem_cons.1 hr').resolve_right hin
          exact (hrest.kept r' hr hin).trans hval
      · obtain ⟨hne', hin⟩ := not_or.1 (mt List.mem_cons.2 hr')
        exact (hrest.kept r' hne hin).trans ((Cpu.setReg_reg_of_ne hne' _).trans (Cpu.drop_reg hne 8))

end X86

end SyncKernel
