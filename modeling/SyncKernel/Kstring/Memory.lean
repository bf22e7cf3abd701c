/-
**Copying, setting and moving memory** (`kstring.c`, `str_io.h`).

`memcpy`, `mempcpy` and `memset` are single string instructions with a repeat prefix.  Such an
instruction goes up or down in memory as the direction flag says, one byte at each turn, and counts down;
the compiler passes its operands by value, so that a caller of `rep_movsb` still has the pointer from
before.  The calling convention has the flag clear at every call.

`memmove` is two loops over the same bytes, of which it chooses one by the order of the two addresses: the
bytes that a turn writes are not read by a later turn.

Main definitions:

* `Kstring.Cpu`, `Kstring.Rep` — the machine, and what a repeated string instruction leaves;
* `Kstring.repMovsb`, `Kstring.repStosb`, `Kstring.repneScasb` — the instructions;
* `Kstring.memcpy`, `Kstring.mempcpy`, `Kstring.memset`, `Kstring.memmove` — the functions.

Main results:

* `Kstring.repMovsb_cpu`, `Kstring.repStosb_cpu` — what the instructions do to a range;
* `Kstring.memmove_moves` — **a move is correct**, however the two ranges overlap.
-/

import SyncKernel.Lib.Bytes
import SyncKernel.Lib.Word

set_option relaxedAutoImplicit false
set_option autoImplicit false

namespace SyncKernel

namespace Kstring

/-- The memory and the direction flag. -/
structure Cpu where
  mem : ℕ → UInt8
  df : Bool

/-- The next address for a string instruction. -/
def Cpu.next (s : Cpu) (p : ℕ) : ℕ := if s.df then Word.sub p 1 else Word.add p 1

/-- A byte of memory is written. -/
def Cpu.store (s : Cpu) (p : ℕ) (x : UInt8) : Cpu := { s with mem := Function.update s.mem p x }

/-- `x86_cld`. -/
def x86Cld (s : Cpu) : Cpu := { s with df := false }

/-- `x86_std`. -/
def x86Std (s : Cpu) : Cpu := { s with df := true }

/-- The registers `rdi` and `rcx` and the machine behind a repeated instruction. -/
structure Rep where
  ptr : ℕ
  remaining : ℕ
  cpu : Cpu

/-- `rep_movsb`. -/
def repMovsb : Cpu → ℕ → ℕ → ℕ → Rep
  | s, dest, _, 0 => ⟨dest, 0, s⟩
  | s, dest, src, n + 1 => repMovsb (s.store dest (s.mem src)) (s.next dest) (s.next src) n

/-- `rep_stosb`. -/
def repStosb : Cpu → ℕ → UInt8 → ℕ → Rep
  | s, dest, _, 0 => ⟨dest, 0, s⟩
  | s, dest, c, n + 1 => repStosb (s.store dest c) (s.next dest) c n

/-- `repne_scasb`. -/
def repneScasb (s : Cpu) : ℕ → UInt8 → ℕ → Rep
  | p, _, 0 => ⟨p, 0, s⟩
  | p, v, n + 1 => if s.mem p = v then ⟨s.next p, n, s⟩ else repneScasb s (s.next p) v n

/-- `memcpy`. -/
def memcpy (s : Cpu) (dest src n : ℕ) : ℕ × Cpu := (dest, (repMovsb (x86Cld s) dest src n).cpu)

/-- `mempcpy`. -/
def mempcpy (s : Cpu) (dest src n : ℕ) : ℕ × Cpu := (dest, (repMovsb s dest src n).cpu)

/-- `memset`. -/
def memset (s : Cpu) (p : ℕ) (c : ℤ) (n : ℕ) : ℕ × Cpu := (p, (repStosb (x86Cld s) p (UInt8.ofInt c) n).cpu)

/-- The loop of `memmove` that goes up. -/
def moveUp (destination source : ℕ) : (ℕ → UInt8) → ℕ → ℕ → ℕ → UInt8
  | mem, _, 0 => mem
  | mem, i, n + 1 =>
      moveUp destination source
        (Function.update mem (Word.add destination i) (mem (Word.add source i))) (i + 1) n

/-- The loop of `memmove` that goes down. -/
def moveDown (destination source : ℕ) : (ℕ → UInt8) → ℕ → ℕ → UInt8
  | mem, 0 => mem
  | mem, i + 1 =>
      moveDown destination source
        (Function.update mem (Word.add destination i) (mem (Word.add source i))) i

/-- `memmove`. -/
def memmove (mem : ℕ → UInt8) (dest src n : ℕ) : ℕ × (ℕ → UInt8) :=
  if dest = src ∨ n = 0 then (dest, mem)
  else if dest < src then (dest, moveUp dest src mem 0 n)
  else if dest > src then (dest, moveDown dest src mem n)
  else (dest, mem)

/-! ### The string instructions -/

@[simp] theorem Cpu.store_mem (s : Cpu) (p : ℕ) (x : UInt8) :
    (s.store p x).mem = Function.update s.mem p x := rfl

@[simp] theorem Cpu.store_df (s : Cpu) (p : ℕ) (x : UInt8) : (s.store p x).df = s.df := rfl

@[simp] theorem x86Cld_mem (s : Cpu) : (x86Cld s).mem = s.mem := rfl

@[simp] theorem x86Cld_df (s : Cpu) : (x86Cld s).df = false := rfl

@[simp] theorem x86Std_mem (s : Cpu) : (x86Std s).mem = s.mem := rfl

@[simp] theorem x86Std_df (s : Cpu) : (x86Std s).df = true := rfl

theorem Cpu.next_up {s : Cpu} {p : ℕ} (h : s.df = false) (hp : p + 1 < 2 ^ 64) : s.next p = p + 1 := by
  simp [Cpu.next, h, Word.add_of_lt hp]

/-- What a copy does to the memory, in a buffer that may end with the last byte there is. -/
theorem repMovsb_cpu (s : Cpu) {dest src n : ℕ} (h : s.df = false) (hdest : dest + n ≤ 2 ^ 64)
    (hsrc : src + n ≤ 2 ^ 64) (hapart : dest ≤ src ∨ src + n ≤ dest) :
    (repMovsb s dest src n).cpu = { s with mem := Bytes.copy s.mem dest src n } := by
  induction n generalizing s dest src with
  | zero => rw [repMovsb, Bytes.copy_zero]
  | succ n ih =>
      rw [repMovsb, ← Bytes.copy_first (by omega)]
      cases n with
      | zero => rw [repMovsb, Bytes.copy_zero]; rfl
      | succ n =>
          have hrest := ih (s.store dest (s.mem src)) h (show dest + 1 + (n + 1) ≤ 2 ^ 64 by omega)
            (show src + 1 + (n + 1) ≤ 2 ^ 64 by omega) (by omega)
          rw [Cpu.next_up h (by omega), Cpu.next_up h (by omega), hrest]
          rfl

theorem repStosb_cpu (s : Cpu) {dest n : ℕ} {c : UInt8} (h : s.df = false) (hdest : dest + n ≤ 2 ^ 64) :
    (repStosb s dest c n).cpu = { s with mem := Bytes.fill s.mem dest n c } := by
  induction n generalizing s dest with
  | zero => rw [repStosb, Bytes.fill_zero]
  | succ n ih =>
      rw [repStosb, ← Bytes.fill_first]
      cases n with
      | zero => rw [repStosb, Bytes.fill_zero]; rfl
      | succ n =>
          have hrest := ih (s.store dest c) h (show dest + 1 + (n + 1) ≤ 2 ^ 64 by omega)
          rw [Cpu.next_up h (by omega), hrest]
          rfl

/-! ### Copying and setting -/

theorem memcpy_spec {s : Cpu} {dest src n : ℕ} (hdest : dest + n ≤ 2 ^ 64) (hsrc : src + n ≤ 2 ^ 64)
    (hapart : dest ≤ src ∨ src + n ≤ dest) :
    memcpy s dest src n = (dest, ⟨Bytes.copy s.mem dest src n, false⟩) := by
  rw [memcpy, repMovsb_cpu (x86Cld s) (x86Cld_df s) hdest hsrc hapart]
  rfl

/-- **The pointer that is returned** is the one that was given. -/
theorem mempcpy_spec {s : Cpu} {dest src n : ℕ} (h : s.df = false) (hdest : dest + n ≤ 2 ^ 64)
    (hsrc : src + n ≤ 2 ^ 64) (hapart : dest ≤ src ∨ src + n ≤ dest) :
    mempcpy s dest src n = (dest, { s with mem := Bytes.copy s.mem dest src n }) := by
  rw [mempcpy, repMovsb_cpu s h hdest hsrc hapart]

theorem memset_spec {s : Cpu} {p n : ℕ} {c : ℤ} (hp : p + n ≤ 2 ^ 64) :
    memset s p c n = (p, ⟨Bytes.fill s.mem p n (UInt8.ofInt c), false⟩) := by
  rw [memset, repStosb_cpu (x86Cld s) (x86Cld_df s) hp]
  rfl

/-! ### Moving -/

section

variable {mem : ℕ → UInt8} {dest src n : ℕ}

/-- Each turn of the loop copies the first byte that is left. -/
theorem moveUp_spec {i : ℕ} (hdest : dest + i + n ≤ 2 ^ 64) (hsrc : src + i + n ≤ 2 ^ 64) (hle : dest ≤ src) :
    moveUp dest src mem i n = Bytes.copy mem (dest + i) (src + i) n := by
  induction n generalizing mem i with
  | zero => rw [moveUp, Bytes.copy_zero]
  | succ n ih =>
      rw [moveUp, ih (by omega) (by omega), Word.add_of_lt (by omega), Word.add_of_lt (by omega)]
      exact Bytes.copy_first (by omega)

/-- Each turn of the loop copies the last byte that is left. -/
theorem moveDown_spec (hdest : dest + n ≤ 2 ^ 64) (hsrc : src + n ≤ 2 ^ 64) (hle : src ≤ dest) :
    moveDown dest src mem n = Bytes.copy mem dest src n := by
  induction n generalizing mem with
  | zero => rw [moveDown, Bytes.copy_zero]
  | succ n ih =>
      rw [moveDown, ih (by omega) (by omega), Word.add_of_lt (by omega), Word.add_of_lt (by omega)]
      exact Bytes.copy_last (by omega)

theorem memmove_eq (hdest : dest + n ≤ 2 ^ 64) (hsrc : src + n ≤ 2 ^ 64) :
    memmove mem dest src n = (dest, Bytes.copy mem dest src n) := by
  rw [memmove]
  by_cases hnone : dest = src ∨ n = 0
  · rw [if_pos hnone]
    rcases hnone with rfl | rfl
    · rw [Bytes.copy_self]
    · rw [Bytes.copy_zero]
  · rw [if_neg hnone]
    rcases Nat.lt_trichotomy dest src with hlt | heq | hgt
    · rw [if_pos hlt, moveUp_spec hdest hsrc hlt.le]
      rfl
    · exact absurd (Or.inl heq) hnone
    · rw [if_neg (Nat.lt_asymm hgt), if_pos hgt, moveDown_spec hdest hsrc hgt.le]

/-- **A move is correct**, however the two ranges overlap. -/
theorem memmove_moves (hdest : dest + n ≤ 2 ^ 64) (hsrc : src + n ≤ 2 ^ 64) :
    (memmove mem dest src n).1 = dest ∧
      (∀ i < n, (memmove mem dest src n).2 (dest + i) = mem (src + i)) ∧
      ∀ b, b < dest ∨ dest + n ≤ b → (memmove mem dest src n).2 b = mem b := by
  rw [memmove_eq hdest hsrc]
  exact ⟨rfl, fun _ hi => Bytes.copy_of_mem hi, fun _ hb => Bytes.copy_of_notMem hb⟩

end

/-- Four bytes move up by one, where the ranges overlap. -/
theorem memmove_moves_overlap : (memmove UInt8.ofNat 101 100 4).1 = 101 ∧
    (∀ i < 4, (memmove UInt8.ofNat 101 100 4).2 (101 + i) = UInt8.ofNat (100 + i)) ∧
    ∀ b, b < 101 ∨ 101 + 4 ≤ b → (memmove UInt8.ofNat 101 100 4).2 b = UInt8.ofNat b :=
  memmove_moves (by decide) (by decide)

end Kstring

end SyncKernel
