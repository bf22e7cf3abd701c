/-
**The table of the interrupt gates.**

`IDT_arr` is an array of packed entries of 16 bytes.  `idt64_setgate` takes the address of a handler apart into
three fields; the processor puts them together again when an interrupt comes.  What the functions do to the bytes
is what they do to a table of gates.

Main definitions:

* `Interrupt.idt64Setgate`, `Interrupt.idt64Enablegate`, `Interrupt.idt64Disablegate` — the functions, on bytes;
* `Interrupt.isrInit` — the loop over the 256 vectors;
* `Interrupt.gateAt` — what the processor reads from an entry;
* `Interrupt.GateOp`, `Interrupt.gateStep` — the same calls on a table of gates.

Main results:

* `Interrupt.run_gates` — **the bytes are the table**, after any calls in any order;
* `Interrupt.isrInit_gates` — **every vector leads to its stub** after `isr_init`, and when the processor takes
  the gates.
-/

import SyncKernel.Lib.Bytes

set_option relaxedAutoImplicit false
set_option autoImplicit false

namespace SyncKernel

namespace Interrupt

/-! ### The functions -/

/-- `F_IDT_PRESENT`. -/
def fIdtPresent : ℕ := 0x80

/-- `F_IDT_GATE_IRQ`. -/
def fIdtGateIrq : ℕ := 0xE

/-- `F_IDT_RING_0`. -/
def fIdtRing0 : ℕ := 0

/-- `sizeof(idt64_entry)`. -/
def entrySize : ℕ := 16

/-- `&IDT_arr[interrupt]`. -/
def entryAddr (arr interrupt : ℕ) : ℕ := arr + entrySize * interrupt

/-- `idt64_setgate`. -/
def idt64Setgate (arr : ℕ) (mem : ℕ → UInt8) (interrupt base segDesc flags : ℕ) : ℕ → UInt8 :=
  let idt := entryAddr arr interrupt
  let mem := Bytes.write mem idt (base % 2 ^ 16) 2
  let mem := Bytes.write mem (idt + 6) (base / 2 ^ 16 % 2 ^ 16) 2
  let mem := Bytes.write mem (idt + 8) (base / 2 ^ 32) 4
  let mem := Bytes.write mem (idt + 5) flags 1
  let mem := Bytes.write mem (idt + 2) segDesc 2
  let mem := Bytes.write mem (idt + 4) 0 1
  Bytes.write mem (idt + 12) 0 4

/-- `flags` of an entry becomes another value. -/
def updateFlags (arr : ℕ) (mem : ℕ → UInt8) (interrupt : ℕ) (f : ℕ → ℕ) : ℕ → UInt8 :=
  let a := entryAddr arr interrupt + 5
  Bytes.write mem a (f (Bytes.read mem a 1)) 1

/-- `idt64_enablegate`. -/
def idt64Enablegate (arr : ℕ) (mem : ℕ → UInt8) (interrupt : ℕ) : ℕ → UInt8 :=
  updateFlags arr mem interrupt (· ||| fIdtPresent)

/-- `idt64_disablegate`. -/
def idt64Disablegate (arr : ℕ) (mem : ℕ → UInt8) (interrupt : ℕ) : ℕ → UInt8 :=
  updateFlags arr mem interrupt (· &&& (2 ^ 32 - 1 - fIdtPresent))

/-- `vector_switch_idtflags`: the same for every vector. -/
def vectorSwitchIdtflags (_ : ℕ) : ℕ := fIdtRing0 ||| fIdtGateIrq

/-- `isr_init`.  The selector is made of the address of `CODE_SEGMENT64`. -/
def isrInit (arr : ℕ) (isrTable : ℕ → ℕ) (codeSegment : ℕ) (mem : ℕ → UInt8) : ℕ → UInt8 :=
  (List.range 256).foldl
    (fun mem i =>
      idt64Enablegate arr
        (idt64Setgate arr mem i (isrTable i) (codeSegment % 2 ^ 16) (vectorSwitchIdtflags i)) i)
    mem

/-! ### The table -/

/-- A gate. -/
structure Gate where
  offset : ℕ
  selector : ℕ
  ist : ℕ
  kind : ℕ
  dpl : ℕ
  present : Bool
  deriving DecidableEq

/-- What the processor reads from the entry at an address. -/
def gateAt (mem : ℕ → UInt8) (a : ℕ) : Gate where
  offset := Bytes.read mem a 2 + 2 ^ 16 * Bytes.read mem (a + 6) 2 + 2 ^ 32 * Bytes.read mem (a + 8) 4
  selector := Bytes.read mem (a + 2) 2
  ist := Bytes.read mem (a + 4) 1 % 8
  kind := Bytes.read mem (a + 5) 1 % 16
  dpl := Bytes.read mem (a + 5) 1 / 32 % 4
  present := Bytes.read mem (a + 5) 1 / 128 % 2 = 1

/-- A gate with the flags of a call. -/
def Gate.make (base segDesc flags : ℕ) : Gate where
  offset := base
  selector := segDesc
  ist := 0
  kind := flags % 16
  dpl := flags / 32 % 4
  present := flags / 128 % 2 = 1

/-- The calls. -/
inductive GateOp
  | set (interrupt base segDesc flags : ℕ)
  | enable (interrupt : ℕ)
  | disable (interrupt : ℕ)

/-- The vector of a call. -/
def GateOp.vector : GateOp → ℕ
  | set i _ _ _ => i
  | enable i => i
  | disable i => i

/-- The arguments fit into their types, and the vector into the table. -/
def GateOp.Valid (o : GateOp) : Prop :=
  o.vector < 256 ∧
    match o with
    | set _ base segDesc flags => base < 2 ^ 64 ∧ segDesc < 2 ^ 16 ∧ flags < 2 ^ 8
    | _ => True

/-- A call, on bytes. -/
def byteStep (arr : ℕ) (mem : ℕ → UInt8) : GateOp → ℕ → UInt8
  | GateOp.set i base segDesc flags => idt64Setgate arr mem i base segDesc flags
  | GateOp.enable i => idt64Enablegate arr mem i
  | GateOp.disable i => idt64Disablegate arr mem i

/-- The gate that a call leaves at its vector. -/
def GateOp.after (g : Gate) : GateOp → Gate
  | set _ base segDesc flags => Gate.make base segDesc flags
  | enable _ => { g with present := true }
  | disable _ => { g with present := false }

/-- A call, on a table. -/
def gateStep (T : ℕ → Gate) (o : GateOp) : ℕ → Gate := Function.update T o.vector (o.after (T o.vector))

/-- The calls of `isr_init`. -/
def isrInitOps (isrTable : ℕ → ℕ) (codeSegment : ℕ) (n : ℕ) : List GateOp :=
  (List.range n).flatMap fun i =>
    [GateOp.set i (isrTable i) (codeSegment % 2 ^ 16) (vectorSwitchIdtflags i), GateOp.enable i]

/-- `CODE_SEGMENT64`: the offset of the code segment in `KERN_GDT`. -/
def codeSegment64 : ℕ := 8

/-- The processor takes a selector for code: it is in the global table, and names the only descriptor there,
which is that of the code segment. -/
def SelectsCode (selector : ℕ) : Prop := selector / 4 % 2 = 0 ∧ selector / 8 * 8 = codeSegment64

instance (selector : ℕ) : Decidable (SelectsCode selector) := instDecidableAnd

/-! ### One call -/

/-- The entries do not overlap. -/
theorem entryAddr_apart (arr : ℕ) {i j : ℕ} (h : i ≠ j) :
    entryAddr arr i + 16 ≤ entryAddr arr j ∨ entryAddr arr j + 16 ≤ entryAddr arr i := by
  unfold entryAddr entrySize
  omega

/-- The gate is read from the 16 bytes of its entry. -/
theorem gateAt_congr {mem mem' : ℕ → UInt8} {a : ℕ} (h : ∀ b, a ≤ b → b < a + 16 → mem' b = mem b) :
    gateAt mem' a = gateAt mem a := by
  have hread : ∀ k n, k + n ≤ 16 → Bytes.read mem' (a + k) n = Bytes.read mem (a + k) n := fun k n hk =>
    Bytes.read_congr fun b h₁ h₂ => h b (by omega) (by omega)
  have hfirst : Bytes.read mem' a 2 = Bytes.read mem a 2 := hread 0 2 (by decide)
  unfold gateAt
  rw [hfirst, hread 2 2 (by decide), hread 4 1 (by decide), hread 5 1 (by decide),
    hread 6 2 (by decide), hread 8 4 (by decide)]

/-- A call writes in the entry of its vector. -/
theorem byteStep_of_notMem {arr : ℕ} {mem : ℕ → UInt8} {o : GateOp} {b : ℕ}
    (h : b < entryAddr arr o.vector ∨ entryAddr arr o.vector + 16 ≤ b) : byteStep arr mem o b = mem b := by
  cases o with
  | set i base segDesc flags =>
      change b < entryAddr arr i ∨ entryAddr arr i + 16 ≤ b at h
      simp (disch := omega) only [byteStep, idt64Setgate, Bytes.write_of_notMem]
  | enable i =>
      change b < entryAddr arr i ∨ entryAddr arr i + 16 ≤ b at h
      exact Bytes.write_of_notMem (by omega)
  | disable i =>
      change b < entryAddr arr i ∨ entryAddr arr i + 16 ≤ b at h
      exact Bytes.write_of_notMem (by omega)

/-- `idt64_setgate` takes the address apart, and the processor puts it together. -/
theorem gateAt_setgate (arr : ℕ) (mem : ℕ → UInt8) (i : ℕ) {base segDesc flags : ℕ} (hbase : base < 2 ^ 64)
    (hseg : segDesc < 2 ^ 16) (hflags : flags < 2 ^ 8) :
    gateAt (idt64Setgate arr mem i base segDesc flags) (entryAddr arr i) = Gate.make base segDesc flags := by
  unfold idt64Setgate gateAt Gate.make
  simp (disch := omega) only [Bytes.read_write_apart, Bytes.read_write_self]
  have hoffset : base % 2 ^ 16 % 256 ^ 2 + 2 ^ 16 * (base / 2 ^ 16 % 2 ^ 16 % 256 ^ 2) +
      2 ^ 32 * (base / 2 ^ 32 % 256 ^ 4) = base := by omega
  rw [hoffset, Nat.mod_eq_of_lt (show segDesc < 256 ^ 2 by omega),
    Nat.mod_eq_of_lt (show flags < 256 ^ 1 by omega), Nat.zero_mod, Nat.zero_mod]

/-- A change of the flags that keeps the kind and the ring. -/
theorem gateAt_updateFlags (arr : ℕ) (mem : ℕ → UInt8) (i : ℕ) {f : ℕ → ℕ} {p : Bool}
    (hf : ∀ x < 256, f x < 256 ∧ f x % 16 = x % 16 ∧ f x / 32 % 4 = x / 32 % 4 ∧ (f x / 128 % 2 = 1 ↔ p)) :
    gateAt (updateFlags arr mem i f) (entryAddr arr i) = { gateAt mem (entryAddr arr i) with present := p } := by
  obtain ⟨hlt, hkind, hdpl, hpresent⟩ := hf _ (Bytes.read_lt mem (entryAddr arr i + 5) 1)
  unfold updateFlags gateAt
  simp (disch := omega) only [Bytes.read_write_apart, Bytes.read_write_self]
  rw [Nat.mod_eq_of_lt (show _ < 256 ^ 1 from hlt), hkind, hdpl]
  simp [hpresent]

theorem enable_flags : ∀ x < 256, (x ||| fIdtPresent) < 256 ∧ (x ||| fIdtPresent) % 16 = x % 16 ∧
    (x ||| fIdtPresent) / 32 % 4 = x / 32 % 4 ∧ ((x ||| fIdtPresent) / 128 % 2 = 1 ↔ true) := by
  decide +kernel

theorem disable_flags : ∀ x < 256, (x &&& (2 ^ 32 - 1 - fIdtPresent)) < 256 ∧
    (x &&& (2 ^ 32 - 1 - fIdtPresent)) % 16 = x % 16 ∧
    (x &&& (2 ^ 32 - 1 - fIdtPresent)) / 32 % 4 = x / 32 % 4 ∧
    ((x &&& (2 ^ 32 - 1 - fIdtPresent)) / 128 % 2 = 1 ↔ false) := by
  decide +kernel

/-- **One call**: what it does to the bytes is what it does to the table. -/
theorem gateAt_byteStep {arr : ℕ} {mem : ℕ → UInt8} {T : ℕ → Gate} {o : GateOp} (ho : o.Valid)
    (hT : ∀ i < 256, gateAt mem (entryAddr arr i) = T i) :
    ∀ i < 256, gateAt (byteStep arr mem o) (entryAddr arr i) = gateStep T o i := by
  intro i hi
  unfold gateStep
  by_cases h : i = o.vector
  · subst h
    rw [Function.update_self, ← hT o.vector hi]
    cases o with
    | set j base segDesc flags =>
        obtain ⟨-, hbase, hseg, hflags⟩ := ho
        exact gateAt_setgate arr mem j hbase hseg hflags
    | enable j => exact gateAt_updateFlags arr mem j enable_flags
    | disable j => exact gateAt_updateFlags arr mem j disable_flags
  · rw [Function.update_of_ne h, ← hT i hi]
    refine gateAt_congr fun b h₁ h₂ => byteStep_of_notMem ?_
    have := entryAddr_apart arr h
    omega

/-! ### The main results -/

/-- **The bytes are the table**: after any calls, the processor reads from each entry the gate that the same calls
leave in a table of gates, and no byte outside the array has changed. -/
theorem run_gates (arr : ℕ) (os : List GateOp) (mem : ℕ → UInt8) (hos : ∀ o ∈ os, o.Valid) :
    (∀ i < 256, gateAt (os.foldl (byteStep arr) mem) (entryAddr arr i) =
      os.foldl gateStep (fun i => gateAt mem (entryAddr arr i)) i) ∧
    ∀ b, b < arr ∨ arr + 4096 ≤ b → os.foldl (byteStep arr) mem b = mem b := by
  suffices h : ∀ (os : List GateOp) (mem : ℕ → UInt8) (T : ℕ → Gate), (∀ o ∈ os, o.Valid) →
      (∀ i < 256, gateAt mem (entryAddr arr i) = T i) →
      (∀ i < 256, gateAt (os.foldl (byteStep arr) mem) (entryAddr arr i) = os.foldl gateStep T i) ∧
      ∀ b, b < arr ∨ arr + 4096 ≤ b → os.foldl (byteStep arr) mem b = mem b from
    h os mem _ hos fun _ _ => rfl
  intro os
  induction os with
  | nil => exact fun _ _ _ hT => ⟨hT, fun _ _ => rfl⟩
  | cons o os ih =>
      intro mem T hos hT
      have ho := hos o List.mem_cons_self
      obtain ⟨hgates, hout⟩ := ih (byteStep arr mem o) (gateStep T o)
        (fun o' ho' => hos o' (List.mem_cons_of_mem _ ho')) (gateAt_byteStep ho hT)
      refine ⟨hgates, fun b hb => (hout b hb).trans (byteStep_of_notMem ?_)⟩
      have hvec := ho.1
      unfold entryAddr entrySize
      omega

/-- A gate of ring 3 is set, enabled and disabled. -/
theorem run_gates_disabled :
    (∀ i < 256, gateAt ([GateOp.set 3 0xFFFF800000201230 8 0x6E, GateOp.enable 3, GateOp.disable 3].foldl
        (byteStep 0x5000) fun _ => 0) (entryAddr 0x5000 i) =
      [GateOp.set 3 0xFFFF800000201230 8 0x6E, GateOp.enable 3, GateOp.disable 3].foldl gateStep
        (fun i => gateAt (fun _ => 0) (entryAddr 0x5000 i)) i) ∧
    ∀ b, b < 0x5000 ∨ 0x5000 + 4096 ≤ b →
      [GateOp.set 3 0xFFFF800000201230 8 0x6E, GateOp.enable 3, GateOp.disable 3].foldl
        (byteStep 0x5000) (fun _ => 0) b = 0 :=
  run_gates 0x5000 _ (fun _ => 0) (by simp [GateOp.Valid, GateOp.vector])

/-- The loop of `isr_init` makes the calls. -/
theorem isrInit_eq (arr : ℕ) (isrTable : ℕ → ℕ) (codeSegment : ℕ) (mem : ℕ → UInt8) :
    isrInit arr isrTable codeSegment mem =
      (isrInitOps isrTable codeSegment 256).foldl (byteStep arr) mem := by
  unfold isrInit isrInitOps
  rw [List.foldl_flatMap]
  rfl

theorem isrInitOps_valid {isrTable : ℕ → ℕ} (htable : ∀ i < 256, isrTable i < 2 ^ 64) (codeSegment : ℕ) :
    ∀ o ∈ isrInitOps isrTable codeSegment 256, o.Valid := by
  intro o ho
  obtain ⟨i, hi, ho⟩ := List.mem_flatMap.1 ho
  have hi := List.mem_range.1 hi
  rcases List.mem_cons.1 ho with rfl | ho
  · exact ⟨hi, htable i hi, Nat.mod_lt _ (by decide), (by decide : fIdtRing0 ||| fIdtGateIrq < 2 ^ 8)⟩
  · obtain rfl := List.mem_singleton.1 ho
    exact ⟨hi, trivial⟩

/-- The table after some turns of `isr_init`. -/
theorem isrInitOps_table (isrTable : ℕ → ℕ) (codeSegment : ℕ) (T : ℕ → Gate) (n : ℕ) :
    ∀ i < n, (isrInitOps isrTable codeSegment n).foldl gateStep T i =
      ⟨isrTable i, codeSegment % 2 ^ 16, 0, fIdtGateIrq, 0, true⟩ := by
  induction n with
  | zero => exact fun i hi => absurd hi (Nat.not_lt_zero i)
  | succ n ih =>
      intro i hi
      have hsplit : isrInitOps isrTable codeSegment (n + 1) = isrInitOps isrTable codeSegment n ++
          [GateOp.set n (isrTable n) (codeSegment % 2 ^ 16) (vectorSwitchIdtflags n), GateOp.enable n] := by
        unfold isrInitOps
        rw [List.range_succ, List.flatMap_append, List.flatMap_singleton]
      rw [hsplit, List.foldl_append]
      set T' := (isrInitOps isrTable codeSegment n).foldl gateStep T
      rcases Nat.lt_succ_iff_lt_or_eq.1 hi with h | rfl
      · refine Eq.trans ?_ (ih i h)
        exact (Function.update_of_ne h.ne _ _).trans (Function.update_of_ne h.ne _ _)
      · simp only [List.foldl_cons, List.foldl_nil, gateStep, GateOp.vector, Function.update_self]
        simp [GateOp.after, Gate.make, vectorSwitchIdtflags, fIdtRing0, fIdtGateIrq]

/-- **Every vector leads to its stub**: after `isr_init` each entry is a present interrupt gate of ring 0 to the
address in `isr_table`, with no stack of its own.  The processor takes the gates exactly if the address of
`CODE_SEGMENT64`, from which the selector is made, lies right in its low 16 bits. -/
theorem isrInit_gates (arr : ℕ) (isrTable : ℕ → ℕ) (htable : ∀ i < 256, isrTable i < 2 ^ 64) (codeSegment : ℕ)
    (mem : ℕ → UInt8) :
    (∀ i < 256, gateAt (isrInit arr isrTable codeSegment mem) (entryAddr arr i) =
      ⟨isrTable i, codeSegment % 2 ^ 16, 0, fIdtGateIrq, 0, true⟩) ∧
    (∀ b, b < arr ∨ arr + 4096 ≤ b → isrInit arr isrTable codeSegment mem b = mem b) ∧
    ∀ i < 256, SelectsCode (gateAt (isrInit arr isrTable codeSegment mem) (entryAddr arr i)).selector ↔
      codeSegment % 2 ^ 16 / 4 = 2 := by
  obtain ⟨hgates, hout⟩ := run_gates arr (isrInitOps isrTable codeSegment 256) mem
    (isrInitOps_valid htable codeSegment)
  rw [isrInit_eq]
  have hall : ∀ i < 256, gateAt ((isrInitOps isrTable codeSegment 256).foldl (byteStep arr) mem)
      (entryAddr arr i) = ⟨isrTable i, codeSegment % 2 ^ 16, 0, fIdtGateIrq, 0, true⟩ := fun i hi =>
    (hgates i hi).trans (isrInitOps_table isrTable codeSegment _ 256 i hi)
  refine ⟨hall, hout, fun i hi => ?_⟩
  rw [hall i hi]
  unfold SelectsCode codeSegment64
  dsimp only
  omega

/-- The stubs are 16 bytes apart, and the address of `CODE_SEGMENT64` ends in 8. -/
theorem isrInit_gates_stubs :
    (∀ i < 256, gateAt (isrInit 0x5000 (fun i => 0x200000 + 16 * i) 0x300008 fun _ => 0) (entryAddr 0x5000 i) =
      ⟨0x200000 + 16 * i, 0x300008 % 2 ^ 16, 0, fIdtGateIrq, 0, true⟩) ∧
    (∀ b, b < 0x5000 ∨ 0x5000 + 4096 ≤ b →
      isrInit 0x5000 (fun i => 0x200000 + 16 * i) 0x300008 (fun _ => 0) b = 0) ∧
    ∀ i < 256, SelectsCode
        (gateAt (isrInit 0x5000 (fun i => 0x200000 + 16 * i) 0x300008 fun _ => 0) (entryAddr 0x5000 i)).selector ↔
      0x300008 % 2 ^ 16 / 4 = 2 :=
  isrInit_gates 0x5000 (fun i => 0x200000 + 16 * i) (fun i hi => by omega) 0x300008 fun _ => 0

end Interrupt

end SyncKernel
