/-
**The entry of an interrupt, and the return from it.**

An interrupt goes through the stub of its vector to `isr_common`, which saves the registers on the stack of
what was interrupted, calls `x64_isr_handler` with a pointer to them, and loads them again.  The stub pushes a
zero where the processor pushes no error code, so that `isr_regs` has one layout for every vector.

Main definitions:

* `Interrupt.deliver` — what the processor does for an interrupt in ring 0;
* `Interrupt.isrStub`, `Interrupt.isrEntry`, `Interrupt.isrExit` — the code of the stubs and of `isr_common`,
  before and after the call;
* `Interrupt.IsrRegs`, `Interrupt.isrRegs` — `isr_regs`, and its fields in memory;
* `Interrupt.X86IsrError`, `Interrupt.table` — the vectors of `isr.h`, and the handlers by position;
* `Interrupt.x64IsrHandler` — the text that the handler panics with;
* `Interrupt.interrupted`, `Interrupt.PanicText` — what the fields, and the text, should be.

Main results:

* `Interrupt.isr_frame` — **the handler gets the interrupted state**;
* `Interrupt.isr_resumes` — **a handler that returns is not seen** by what was interrupted.
-/

import SyncKernel.Lib.X86
import Mathlib.Tactic.FinCases
import Mathlib.Tactic.Set

set_option relaxedAutoImplicit false
set_option autoImplicit false

namespace SyncKernel

namespace Interrupt

open X86

/-! ### The code -/

/-- The vectors of `ISR_ERROR`; the others are of `ISR_NOERR`. -/
def isrError : List ℕ := [8, 10, 11, 12, 13, 14, 17, 21, 29, 30]

/-- What the stub `x64_ISR<irq>` pushes. -/
def isrStub (irq : ℕ) : List ℕ := if irq ∈ isrError then [irq] else [0, irq]

/-- The operands of `mpush` in `isr_common`. -/
def saved : List Reg :=
  [Reg.rax, Reg.rbx, Reg.rcx, Reg.rdx, Reg.rsi, Reg.rdi, Reg.rbp, Reg.r8, Reg.r9, Reg.r10, Reg.r11, Reg.r12,
    Reg.r13, Reg.r14, Reg.r15]

/-- The operands of `mpop` in `isr_common`. -/
def loaded : List Reg :=
  [Reg.r15, Reg.r14, Reg.r13, Reg.r12, Reg.r11, Reg.r10, Reg.r9, Reg.r8, Reg.rbp, Reg.rdi, Reg.rsi, Reg.rdx,
    Reg.rcx, Reg.rbx, Reg.rax]

/-- `isr_common` up to the call.  `codeSegment` is the address of `CODE_SEGMENT64`. -/
def isrEntry (codeSegment : ℕ) : List Instr :=
  saved.map Instr.push ++
    [Instr.clear Reg.rax, Instr.fromSeg Seg.ds Reg.rax, Instr.push Reg.rax] ++
    [Instr.load16 codeSegment Reg.rax, Instr.toSeg Reg.rax Seg.ds, Instr.toSeg Reg.rax Seg.es,
      Instr.toSeg Reg.rax Seg.fs, Instr.toSeg Reg.rax Seg.gs, Instr.mov Reg.rsp Reg.rdi]

/-- `isr_common` after the call. -/
def isrExit : List Instr :=
  [Instr.pop Reg.rax, Instr.toSeg Reg.rax Seg.ds, Instr.toSeg Reg.rax Seg.es, Instr.toSeg Reg.rax Seg.fs,
    Instr.toSeg Reg.rax Seg.gs] ++
  loaded.map Instr.pop ++ [Instr.add 16 Reg.rsp, Instr.iretq]

/-- The state with the stack pointer aligned. -/
def aligned (c : Cpu) : Cpu := c.setReg Reg.rsp (c.sp / 16 * 16)

/-- What the processor pushes for an interrupt in ring 0. -/
def pushed (c : Cpu) (err : Option ℕ) : List ℕ := [c.ss, c.sp, c.rflags, c.cs, c.rip] ++ err.toList

/-- An interrupt in ring 0, through a gate without a stack of its own: the stack pointer is aligned first. -/
def deliver (c : Cpu) (err : Option ℕ) : Cpu := (aligned c).pushAll (pushed c err)

/-- The state at the call of `x64_isr_handler`. -/
def atCall (c : Cpu) (err : Option ℕ) (irq codeSegment : ℕ) : Cpu :=
  exec ((deliver c err).pushAll (isrStub irq)) (isrEntry codeSegment)

/-- `isr_regs`. -/
structure IsrRegs where
  ds : ℕ
  r15 : ℕ
  r14 : ℕ
  r13 : ℕ
  r12 : ℕ
  r11 : ℕ
  r10 : ℕ
  r9 : ℕ
  r8 : ℕ
  rbp : ℕ
  rdi : ℕ
  rsi : ℕ
  rdx : ℕ
  rcx : ℕ
  rbx : ℕ
  rax : ℕ
  interrupt : ℕ
  err : ℕ
  rip : ℕ
  cs : ℕ
  rflags : ℕ
  rsp : ℕ
  ss : ℕ

/-- The fields of `isr_regs` at an address; each is a `u64`, and the struct is packed. -/
def isrRegs (mem : ℕ → UInt8) (regs : ℕ) : IsrRegs :=
  let field i := Bytes.read mem (regs + 8 * i) 8
  { ds := field 0, r15 := field 1, r14 := field 2, r13 := field 3, r12 := field 4, r11 := field 5, r10 := field 6,
    r9 := field 7, r8 := field 8, rbp := field 9, rdi := field 10, rsi := field 11, rdx := field 12,
    rcx := field 13, rbx := field 14, rax := field 15, interrupt := field 16, err := field 17, rip := field 18,
    cs := field 19, rflags := field 20, rsp := field 21, ss := field 22 }

/-- `enum x86_isr_error`. -/
inductive X86IsrError
  | div | debug | nmi | brkp | ovrflw | bound | invOp | devNa | dfault | overrun | invTss | noSeg | stack | gp
  | pageFault | intel | fpuerr | alignchk | machinechk | avxFpe | virt | cpe | hyperInject | vmComm | security

/-- The value of an enumerator: the vector. -/
def X86IsrError.vector : X86IsrError → ℕ
  | div => 0
  | debug => 1
  | nmi => 2
  | brkp => 3
  | ovrflw => 4
  | bound => 5
  | invOp => 6
  | devNa => 7
  | dfault => 8
  | overrun => 9
  | invTss => 10
  | noSeg => 11
  | stack => 12
  | gp => 13
  | pageFault => 14
  | intel => 15
  | fpuerr => 16
  | alignchk => 17
  | machinechk => 18
  | avxFpe => 19
  | virt => 20
  | cpe => 21
  | hyperInject => 28
  | vmComm => 29
  | security => 30

/-- The text that the handler of an error gives to `panic`. -/
def X86IsrError.handler : X86IsrError → String
  | div => "division by zero error!\n"
  | debug => "debug interrupt\n"
  | nmi => "received NMI\n"
  | brkp => "debug breakpoint\n"
  | ovrflw => "overflow error!\n"
  | bound => "bound range error!\n"
  | invOp => "invalid opcode error!\n"
  | devNa => "device not available!\n"
  | dfault => "double fault!!!\n"
  | overrun => "coprocessor overrun error!\n"
  | invTss => "invalid TSS error!\n"
  | noSeg => "no segment error!\n"
  | stack => "stack error!\n"
  | gp => "general purpose fault error!\n"
  | pageFault => "page fault error!\n"
  | intel => "mfw intel\n"
  | fpuerr => "floating point error!\n"
  | alignchk => "alignment check error!\n"
  | machinechk => "machine check!\n"
  | avxFpe => "SSE/AVX floating point exception!\n"
  | virt => "virtualization exception!\n"
  | cpe => "control protection exception!\n"
  | hyperInject => "hypervsior injection\n"
  | vmComm => "VM comm error!\n"
  | security => "security exception!\n"

/-- `table`: the handlers by position; the entries behind them are null. -/
def table : List X86IsrError :=
  [X86IsrError.div, X86IsrError.debug, X86IsrError.nmi, X86IsrError.brkp, X86IsrError.ovrflw, X86IsrError.bound,
    X86IsrError.invOp, X86IsrError.devNa, X86IsrError.dfault, X86IsrError.overrun, X86IsrError.invTss,
    X86IsrError.noSeg, X86IsrError.stack, X86IsrError.gp, X86IsrError.pageFault, X86IsrError.intel,
    X86IsrError.fpuerr, X86IsrError.alignchk, X86IsrError.machinechk, X86IsrError.avxFpe, X86IsrError.virt,
    X86IsrError.cpe, X86IsrError.hyperInject, X86IsrError.vmComm, X86IsrError.security]

/-- `x64_isr_handler`: the text that it panics with. -/
def x64IsrHandler (mem : ℕ → UInt8) (regs : ℕ) : String :=
  match table[(isrRegs mem regs).interrupt]? with
  | some e => e.handler
  | none => "temporary"

/-! ### What the handler should get -/

/-- The interrupted state in the fields of `isr_regs`. -/
def interrupted (c : Cpu) (err : Option ℕ) (irq : ℕ) : IsrRegs where
  ds := c.seg Seg.ds % 2 ^ 16
  r15 := c.reg Reg.r15
  r14 := c.reg Reg.r14
  r13 := c.reg Reg.r13
  r12 := c.reg Reg.r12
  r11 := c.reg Reg.r11
  r10 := c.reg Reg.r10
  r9 := c.reg Reg.r9
  r8 := c.reg Reg.r8
  rbp := c.reg Reg.rbp
  rdi := c.reg Reg.rdi
  rsi := c.reg Reg.rsi
  rdx := c.reg Reg.rdx
  rcx := c.reg Reg.rcx
  rbx := c.reg Reg.rbx
  rax := c.reg Reg.rax
  interrupt := irq
  err := err.getD 0
  rip := c.rip
  cs := c.cs
  rflags := c.rflags
  rsp := c.reg Reg.rsp
  ss := c.ss

/-- The text for a vector.  Up to 21 it is that of the error with this vector.  The three errors from 28 on have
their handlers at the reserved vectors 22 to 24, and the vectors behind these have none. -/
structure PanicText (irq : ℕ) (text : String) : Prop where
  named : ∀ e : X86IsrError, e.vector = irq → irq < 22 → text = e.handler
  moved : ∀ e : X86IsrError, e.vector = irq + 6 → 22 ≤ irq → irq < 25 → text = e.handler
  other : 25 ≤ irq → text = "temporary"

/-- The registers hold what fits into them, and there is room below the stack pointer. -/
structure Sane (c : Cpu) : Prop where
  reg : ∀ r, c.reg r < 2 ^ 64
  rip : c.rip < 2 ^ 64
  rflags : c.rflags < 2 ^ 64
  cs : c.cs < 2 ^ 16
  ss : c.ss < 2 ^ 16
  room : 200 ≤ c.sp

/-- A handler that returns: the stack is as it was at the call. -/
structure Returned (e h : Cpu) : Prop where
  sp : h.sp = e.sp
  mem : ∀ b, e.sp ≤ b → b < e.sp + 184 → h.mem b = e.mem b

/-! ### The entry -/

/-- The words of the stack at the call, in the order in which `isr_common` loads them again. -/
def frame (c : Cpu) (err : Option ℕ) (irq : ℕ) : List ℕ :=
  c.seg Seg.ds % 2 ^ 16 ::
    (loaded.map c.reg ++ [irq, err.getD 0, c.rip, c.cs, c.rflags, c.sp, c.ss])

theorem aligned_sp (c : Cpu) : (aligned c).sp = c.sp / 16 * 16 := Cpu.setReg_rsp_sp _

theorem aligned_reg (c : Cpu) {r : Reg} (hr : r ≠ Reg.rsp) : (aligned c).reg r = c.reg r :=
  Cpu.setReg_reg_of_ne hr _

theorem loaded_eq : loaded = saved.reverse := rfl

theorem rsp_notMem_saved : Reg.rsp ∉ saved := by decide

/-- The words of the processor and of the stub, in the layout of `isr_regs`. -/
theorem stub_words {err : Option ℕ} {irq : ℕ} (herr : err.isSome ↔ irq ∈ isrError) (c : Cpu) :
    (isrStub irq).reverse ++ (pushed c err).reverse =
      [irq, err.getD 0, c.rip, c.cs, c.rflags, c.sp, c.ss] := by
  unfold isrStub pushed
  cases err with
  | none => rw [if_neg (by simp [← herr])]; rfl
  | some e => rw [if_pos (by simp [← herr])]; rfl

/-- The stack after the stub. -/
theorem pushed_stub {c : Cpu} (hc : Sane c) {err : Option ℕ} (hfits : ∀ e ∈ err, e < 2 ^ 64) {irq : ℕ}
    (hirq : irq < 256) (herr : err.isSome ↔ irq ∈ isrError) :
    Pushed (aligned c) [irq, err.getD 0, c.rip, c.cs, c.rflags, c.sp, c.ss]
      ((deliver c err).pushAll (isrStub irq)) := by
  have hsp : c.sp < 2 ^ 64 := hc.reg Reg.rsp
  have hroom := hc.room
  have hbase : (aligned c).sp < 2 ^ 64 := by rw [aligned_sp]; omega
  have hlen : (pushed c err).length ≤ 6 := by cases err <;> simp [pushed]
  have hwords : ∀ v ∈ pushed c err, v < 2 ^ 64 := by
    intro v hv
    rcases List.mem_append.1 hv with hv | hv
    · have := hc.rip
      have := hc.rflags
      have := hc.cs
      have := hc.ss
      fin_cases hv <;> omega
    · exact hfits v (Option.mem_toList.1 hv)
  have hdel := (Pushed.refl (aligned c)).pushAll hbase (pushed c err) hwords (by rw [aligned_sp]; omega)
  have hdelsp := hdel.sp
  rw [aligned_sp, List.append_nil, List.length_reverse] at hdelsp
  have hstub : ∀ v ∈ isrStub irq, v < 2 ^ 64 := by
    intro v hv
    unfold isrStub at hv
    split at hv <;> fin_cases hv <;> omega
  have hlen' : (isrStub irq).length ≤ 2 := by unfold isrStub; split <;> simp
  have hall := hdel.pushAll hbase (isrStub irq) hstub (by omega)
  rwa [List.append_nil, stub_words herr] at hall

/-- The stack after the registers are saved. -/
theorem pushed_saved {c : Cpu} (hc : Sane c) {err : Option ℕ} (hfits : ∀ e ∈ err, e < 2 ^ 64) {irq : ℕ}
    (hirq : irq < 256) (herr : err.isSome ↔ irq ∈ isrError) :
    Pushed (aligned c) (loaded.map c.reg ++ [irq, err.getD 0, c.rip, c.cs, c.rflags, c.sp, c.ss])
      (exec ((deliver c err).pushAll (isrStub irq)) (saved.map Instr.push)) := by
  have hstub := pushed_stub hc hfits hirq herr
  have hsp := hstub.sp
  have hroom := hc.room
  have hmax : c.sp < 2 ^ 64 := hc.reg Reg.rsp
  rw [aligned_sp] at hsp
  have hreg : ∀ r, (aligned c).reg r < 2 ^ 64 := by
    intro r
    by_cases hr : r = Reg.rsp
    · rw [hr]
      exact lt_of_eq_of_lt (aligned_sp c) (by omega)
    · rw [aligned_reg c hr]
      exact hc.reg r
  have hsame : saved.reverse.map (aligned c).reg = loaded.map c.reg := by
    rw [loaded_eq]
    refine List.map_congr_left fun r hr => aligned_reg c fun heq => rsp_notMem_saved ?_
    rw [← heq]
    exact List.mem_reverse.1 hr
  rw [← hsame]
  refine exec_pushes hstub (by rw [aligned_sp]; omega) hreg saved rsp_notMem_saved ?_
  simp only [List.length_cons, List.length_nil] at hsp
  simp only [saved, List.length_cons, List.length_nil]
  omega

/-- The data segment goes on the stack. -/
def saveDs : List Instr := [Instr.clear Reg.rax, Instr.fromSeg Seg.ds Reg.rax, Instr.push Reg.rax]

/-- The segment registers get the selector in memory, and `rdi` the stack pointer. -/
def loadSegs (codeSegment : ℕ) : List Instr :=
  [Instr.load16 codeSegment Reg.rax, Instr.toSeg Reg.rax Seg.ds, Instr.toSeg Reg.rax Seg.es,
    Instr.toSeg Reg.rax Seg.fs, Instr.toSeg Reg.rax Seg.gs, Instr.mov Reg.rsp Reg.rdi]

/-- The data segment is on the stack, and the pointer to the frame in `rdi`. -/
structure Called (b : Cpu) (e : Cpu) : Prop where
  sp : e.sp = b.sp - 8
  rdi : e.reg Reg.rdi = e.sp
  mem : e.mem = Bytes.write b.mem (b.sp - 8) (b.seg Seg.ds % 2 ^ 16) 8

/-- The instructions between the registers and the call. -/
theorem exec_call {b : Cpu} (hroom : 8 ≤ b.sp) (hlt : b.sp < 2 ^ 64) (codeSegment : ℕ) :
    Called b (exec (exec b saveDs) (loadSegs codeSegment)) := by
  set b₁ := exec b [Instr.clear Reg.rax, Instr.fromSeg Seg.ds Reg.rax] with hb₁
  have hsp : b₁.sp = b.sp := by
    rw [hb₁]
    exact (Cpu.setReg_sp (by decide) _).trans (Cpu.setReg_sp (by decide) _)
  have hrax : b₁.reg Reg.rax = b.seg Seg.ds % 2 ^ 16 := by
    rw [hb₁]
    refine (Cpu.setReg_reg_self Reg.rax _).trans ?_
    unfold Cpu.low16
    rw [step, Cpu.setReg_reg_self, Nat.zero_div, Nat.zero_mul, Nat.zero_add]
    rfl
  have hmem : b₁.mem = b.mem := rfl
  have hpush : exec b saveDs = b₁.place (b.sp - 8) (b.seg Seg.ds % 2 ^ 16) := by
    rw [← hsp, ← hrax]
    have heq := Cpu.push_eq (c := b₁) (by omega) (by omega) (b₁.reg Reg.rax)
    exact heq
  rw [hpush]
  set b₂ := b₁.place (b.sp - 8) (b.seg Seg.ds % 2 ^ 16) with hb₂
  have hsp₂ : b₂.sp = b.sp - 8 := Cpu.place_sp ..
  set b₃ := exec b₂ [Instr.load16 codeSegment Reg.rax, Instr.toSeg Reg.rax Seg.ds, Instr.toSeg Reg.rax Seg.es,
    Instr.toSeg Reg.rax Seg.fs, Instr.toSeg Reg.rax Seg.gs] with hb₃
  have hload : (step b₂ (Instr.load16 codeSegment Reg.rax)).sp = b₂.sp := Cpu.setReg_sp (by decide) _
  have hsp₃ : b₃.sp = b₂.sp := hload
  have hmem₃ : b₃.mem = b₂.mem := rfl
  have hend : (b₃.setReg Reg.rdi (b₃.reg Reg.rsp)).sp = b₃.sp := Cpu.setReg_sp (by decide) _
  refine ⟨hend.trans (hsp₃.trans hsp₂), (Cpu.setReg_reg_self Reg.rdi _).trans hend.symm, ?_⟩
  exact hmem₃.trans ((Cpu.place_mem _ _).trans (congrArg (Bytes.write · _ _ 8) hmem))

/-- The three parts of `isr_common` before the call. -/
theorem atCall_eq (c : Cpu) (err : Option ℕ) (irq codeSegment : ℕ) :
    atCall c err irq codeSegment =
      exec (exec (exec ((deliver c err).pushAll (isrStub irq)) (saved.map Instr.push)) saveDs)
        (loadSegs codeSegment) := by
  unfold atCall isrEntry
  rw [exec_append, exec_append]
  rfl

/-- The stack at the call. -/
theorem atCall_stack {c : Cpu} (hc : Sane c) {err : Option ℕ} (hfits : ∀ e ∈ err, e < 2 ^ 64) {irq : ℕ}
    (hirq : irq < 256) (herr : err.isSome ↔ irq ∈ isrError) (codeSegment : ℕ) :
    (atCall c err irq codeSegment).sp + 184 = c.sp / 16 * 16 ∧
      (atCall c err irq codeSegment).reg Reg.rdi = (atCall c err irq codeSegment).sp ∧
      Stacked (atCall c err irq codeSegment).mem (atCall c err irq codeSegment).sp (frame c err irq) ∧
      ∀ b, c.sp ≤ b → (atCall c err irq codeSegment).mem b = c.mem b := by
  have hsaved := pushed_saved hc hfits hirq herr
  have hsp := hsaved.sp
  have hroom := hc.room
  have hmax : c.sp < 2 ^ 64 := hc.reg Reg.rsp
  rw [aligned_sp] at hsp
  simp only [loaded, List.map_cons, List.map_nil, List.length_append, List.length_cons, List.length_nil] at hsp
  have hcall := exec_call (b := exec ((deliver c err).pushAll (isrStub irq)) (saved.map Instr.push)) (by omega)
    (by omega) codeSegment
  rw [atCall_eq]
  have hsp' := hcall.sp
  have hds := hsaved.seg
  refine ⟨by omega, hcall.rdi, ⟨?_, ?_⟩, fun b hb => ?_⟩
  · rw [hcall.mem, hcall.sp, Bytes.read_write_self le_rfl, hds]
    exact Nat.mod_eq_of_lt ((Nat.mod_lt _ (by decide)).trans (by decide))
  · rw [hcall.mem, hcall.sp, Nat.sub_add_cancel (by omega)]
    exact hsaved.words.congr fun b h₁ _ => Bytes.write_of_notMem (by omega)
  · rw [hcall.mem, Bytes.write_of_notMem (by omega)]
    exact hsaved.above b (by rw [aligned_sp]; omega)

/-! ### The return -/

/-- What `isr_common` leaves behind, for the state that was interrupted. -/
structure Resumed (c h f : Cpu) : Prop where
  reg : ∀ r, f.reg r = c.reg r
  seg : ∀ s, f.seg s = c.seg Seg.ds % 2 ^ 16
  cs : f.cs = c.cs
  ss : f.ss = c.ss
  rip : f.rip = c.rip
  rflags : f.rflags = c.rflags
  mem : f.mem = h.mem

/-- The registers but the stack pointer are those of the list. -/
theorem mem_loaded {r : Reg} (hr : r ≠ Reg.rsp) : r ∈ loaded := by
  cases r <;> first | exact absurd rfl hr | decide

/-- The end of `isr_common`, with the frame on the stack. -/
theorem exec_isrExit {c h : Cpu} (hc : Sane c) {err : Option ℕ} {irq : ℕ} (hroom : h.sp + 184 < 2 ^ 64)
    (hst : Stacked h.mem h.sp (frame c err irq)) : Resumed c h (exec h isrExit) := by
  obtain ⟨hds, hst⟩ := hst
  obtain ⟨hregs, hrest⟩ := stacked_append.1 hst
  have hlen : loaded.length = 15 := rfl
  rw [List.length_map, hlen] at hrest
  set g₀ := step h (Instr.pop Reg.rax) with hg₀
  set g := exec h [Instr.pop Reg.rax, Instr.toSeg Reg.rax Seg.ds, Instr.toSeg Reg.rax Seg.es,
    Instr.toSeg Reg.rax Seg.fs, Instr.toSeg Reg.rax Seg.gs] with hg
  have hsp : g.sp = h.sp + 8 :=
    ((show g.sp = g₀.sp from rfl).trans (Cpu.setReg_sp (by decide) _)).trans (Cpu.drop_sp (by omega))
  have hrax : g₀.reg Reg.rax = c.seg Seg.ds % 2 ^ 16 := (Cpu.setReg_reg_self Reg.rax _).trans hds
  have hseg : ∀ s, g.seg s = c.seg Seg.ds % 2 ^ 16 := by
    intro s
    have hset : g.seg s = g₀.reg Reg.rax % 2 ^ 16 := by cases s <;> rfl
    rw [hset, hrax, Nat.mod_mod]
  have hpops := exec_pops (f := c.reg) loaded (c := g) (by decide) (by rw [hsp, hlen]; omega)
    (by rw [hsp]; exact hregs)
  set p := exec g (loaded.map Instr.pop) with hp
  have hpsp : p.sp = h.sp + 128 := by
    rw [hpops.sp, hsp, hlen]
  have hpmem : p.mem = h.mem := hpops.mem
  set q := step p (Instr.add 16 Reg.rsp) with hq
  have hqsp : q.sp = h.sp + 144 := by
    rw [hq, step_add_sp (by omega), hpsp]
  have hsplit : exec h isrExit = step q Instr.iretq := by
    unfold isrExit
    rw [exec_append, exec_append]
    rfl
  obtain ⟨-, -, hrest⟩ := hrest
  have hqmem : q.mem = h.mem := hpmem
  have hstack : Stacked q.mem q.sp [c.rip, c.cs, c.rflags, c.sp, c.ss] := by
    rw [hqmem, hqsp, show h.sp + 144 = h.sp + 8 + 8 * 15 + 8 + 8 by omega]
    exact hrest
  obtain ⟨hrip, hcs, hflags, hrsp, hss⟩ := step_iretq hstack
  rw [hsplit]
  refine ⟨fun r => ?_, fun s => (congrFun hpops.seg s).trans (hseg s), ?_, ?_, hrip, hflags, hqmem⟩
  · by_cases hr : r = Reg.rsp
    · rw [hr]
      exact hrsp
    · refine (step_iretq_reg q hr).trans ((Cpu.setReg_reg_of_ne hr _).trans ?_)
      exact hpops.loaded r (mem_loaded hr)
  · rw [hcs, Nat.mod_eq_of_lt hc.cs]
  · rw [hss, Nat.mod_eq_of_lt hc.ss]

/-! ### The main results -/

/-- Code in the kernel, with a stack. -/
def running : Cpu where
  reg r := if r = Reg.rsp then 0x1234 else 7
  seg _ := 0
  cs := 8
  ss := 0
  rip := 0x200000
  rflags := 0x202
  mem _ := 0

theorem running_sane : Sane running := by
  refine ⟨fun r => ?_, by decide, by decide, by decide, by decide, by decide⟩
  unfold running
  dsimp only
  split <;> decide

/-- **The words on the stack** are the fields of `isr_regs`. -/
theorem isrRegs_of_frame {mem : ℕ → UInt8} {a : ℕ} {c : Cpu} {err : Option ℕ} {irq : ℕ}
    (h : Stacked mem a (frame c err irq)) : isrRegs mem a = interrupted c err irq := by
  have hword : ∀ i (hi : i < 23), Bytes.read mem (a + 8 * i) 8 = (frame c err irq).get ⟨i, hi⟩ :=
    fun i hi => h.get hi
  unfold isrRegs
  dsimp only
  rw [hword 0 (by decide), hword 1 (by decide), hword 2 (by decide), hword 3 (by decide), hword 4 (by decide),
    hword 5 (by decide), hword 6 (by decide), hword 7 (by decide), hword 8 (by decide), hword 9 (by decide),
    hword 10 (by decide), hword 11 (by decide), hword 12 (by decide), hword 13 (by decide), hword 14 (by decide),
    hword 15 (by decide), hword 16 (by decide), hword 17 (by decide), hword 18 (by decide), hword 19 (by decide),
    hword 20 (by decide), hword 21 (by decide), hword 22 (by decide)]
  rfl

/-- **The entries of the table** are those of the vectors up to 21, and the three errors behind them. -/
theorem panicText_table (irq : ℕ) : PanicText irq (match table[irq]? with
    | some e => e.handler
    | none => "temporary") := by
  refine ⟨?_, ?_, fun h => ?_⟩
  · rintro e rfl hlt
    cases e <;> first | rfl | exact absurd hlt (by decide)
  · intro e he hle hlt
    obtain rfl : irq = e.vector - 6 := by omega
    cases e <;> first | rfl | exact absurd hle (by decide)
  · rw [List.getElem?_eq_none h]

/-- **The handler gets the interrupted state**: at the call `rdi` points to `isr_regs` with each field of the
interrupted state in its place, the text of the panic is that of the vector, and nothing above the stack pointer
has changed.  The stack is 8 bytes away from the alignment that a call needs. -/
theorem isr_frame (c : Cpu) (hc : Sane c) (err : Option ℕ) (hfits : ∀ e ∈ err, e < 2 ^ 64) (irq : ℕ)
    (hirq : irq < 256) (herr : err.isSome ↔ irq ∈ isrError) (codeSegment : ℕ) :
    let e := atCall c err irq codeSegment
    e.reg Reg.rdi = e.sp ∧ isrRegs e.mem (e.reg Reg.rdi) = interrupted c err irq ∧
      (∀ b, c.sp ≤ b → e.mem b = c.mem b) ∧ PanicText irq (x64IsrHandler e.mem (e.reg Reg.rdi)) ∧
      e.sp % 16 = 8 := by
  intro e
  obtain ⟨hsp, hrdi, hst, habove⟩ := atCall_stack hc hfits hirq herr codeSegment
  have hregs : isrRegs e.mem (e.reg Reg.rdi) = interrupted c err irq := by
    rw [show e.reg Reg.rdi = e.sp from hrdi]
    exact isrRegs_of_frame hst
  have halign : e.sp % 16 = 8 := by
    have hsp' : e.sp + 184 = c.sp / 16 * 16 := hsp
    omega
  refine ⟨hrdi, hregs, habove, ?_, halign⟩
  rw [x64IsrHandler, hregs]
  exact panicText_table irq

/-- A page fault, with its error code. -/
theorem isr_frame_page_fault :
    let e := atCall running (some 2) 14 0x3000
    e.reg Reg.rdi = e.sp ∧ isrRegs e.mem (e.reg Reg.rdi) = interrupted running (some 2) 14 ∧
      (∀ b, running.sp ≤ b → e.mem b = running.mem b) ∧
      PanicText 14 (x64IsrHandler e.mem (e.reg Reg.rdi)) ∧ e.sp % 16 = 8 :=
  isr_frame running running_sane (some 2) (by simp) 14 (by decide) (by decide) 0x3000

/-- **A handler that returns is not seen**: if it leaves its stack as it was, then the registers, the flags and
the place in the code are those that were interrupted, and memory is as the handler left it.  The data segment is
in each of the segment registers. -/
theorem isr_resumes (c : Cpu) (hc : Sane c) (err : Option ℕ) (hfits : ∀ e ∈ err, e < 2 ^ 64) (irq : ℕ)
    (hirq : irq < 256) (herr : err.isSome ↔ irq ∈ isrError) (codeSegment : ℕ) (h : Cpu)
    (hret : Returned (atCall c err irq codeSegment) h) : Resumed c h (exec h isrExit) := by
  obtain ⟨hsp, -, hst, -⟩ := atCall_stack hc hfits hirq herr codeSegment
  have hmax : c.sp < 2 ^ 64 := hc.reg Reg.rsp
  have hhsp := hret.sp
  have hlen : (frame c err irq).length = 23 := by simp [frame, loaded]
  have hst' : Stacked h.mem h.sp (frame c err irq) := by
    rw [hhsp]
    refine hst.congr fun b h₁ h₂ => hret.mem b h₁ ?_
    rw [hlen] at h₂
    omega
  exact exec_isrExit hc (by omega) hst'

/-- A breakpoint, and a handler that does nothing. -/
theorem isr_resumes_breakpoint :
    Resumed running (atCall running none 3 0x3000) (exec (atCall running none 3 0x3000) isrExit) :=
  isr_resumes running running_sane none (by simp) 3 (by decide) (by decide) 0x3000 _ ⟨rfl, fun _ _ _ => rfl⟩

end Interrupt

end SyncKernel
