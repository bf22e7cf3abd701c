/-
**Memory as bytes.**

A memory is a function from addresses to bytes.  A number of `n` bytes is stored with its low byte
first.  Reads and writes may overlap: what a read gives is determined byte by byte.

Main definitions:

* `Bytes.read`, `Bytes.write` — reading and writing a number of some bytes;
* `Bytes.fill` — setting a range of bytes;
* `Bytes.slice`, `Bytes.copy` — the bytes of a range, and a copy of them elsewhere.

Main results:

* `Bytes.read_add` — a read splits into its low and its high bytes;
* `Bytes.read_byte` — the bytes of the number that is read;
* `Bytes.read_write_self`, `Bytes.read_write_apart` — reading what was written, or something else;
* `Bytes.copy_first`, `Bytes.copy_last` — **copying byte by byte**, from either end.
-/

import Mathlib.Data.Nat.Bitwise

set_option relaxedAutoImplicit false
set_option autoImplicit false

namespace SyncKernel

namespace Bytes

/-- The number in the `n` bytes from `a` on. -/
def read (mem : ℕ → UInt8) : ℕ → ℕ → ℕ
  | _, 0 => 0
  | a, n + 1 => (mem a).toNat + 256 * read mem (a + 1) n

/-- The number `v` goes to the `n` bytes from `a` on. -/
def write (mem : ℕ → UInt8) (a v n : ℕ) : ℕ → UInt8 :=
  fun b => if a ≤ b ∧ b < a + n then UInt8.ofNat (v / 256 ^ (b - a)) else mem b

/-- The `n` bytes from `a` on become `x`. -/
def fill (mem : ℕ → UInt8) (a n : ℕ) (x : UInt8) : ℕ → UInt8 :=
  fun b => if a ≤ b ∧ b < a + n then x else mem b

/-- The `n` bytes from `a` on. -/
def slice (mem : ℕ → UInt8) (a n : ℕ) : List UInt8 := (List.range n).map fun i => mem (a + i)

/-- The `n` bytes from `d` on become those from `a` on. -/
def copy (mem : ℕ → UInt8) (d a n : ℕ) : ℕ → UInt8 :=
  fun b => if d ≤ b ∧ b < d + n then mem (a + (b - d)) else mem b

variable {mem mem' : ℕ → UInt8}

/-! ### Bytes -/

theorem write_of_notMem {a b v n : ℕ} (h : b < a ∨ a + n ≤ b) : write mem a v n b = mem b :=
  if_neg (by omega)

theorem write_of_mem {a v n i : ℕ} (h : i < n) :
    (write mem a v n (a + i)).toNat = v / 256 ^ i % 256 := by
  unfold write
  rw [if_pos ⟨Nat.le_add_right a i, by omega⟩, Nat.add_sub_cancel_left, UInt8.toNat_ofNat']

theorem fill_of_notMem {a b n : ℕ} {x : UInt8} (h : b < a ∨ a + n ≤ b) : fill mem a n x b = mem b :=
  if_neg (by omega)

theorem fill_of_mem {a b n : ℕ} {x : UInt8} (h : a ≤ b) (h' : b < a + n) : fill mem a n x b = x :=
  if_pos ⟨h, h'⟩

/-! ### Reading -/

theorem read_lt (mem : ℕ → UInt8) (a n : ℕ) : read mem a n < 256 ^ n := by
  induction n generalizing a with
  | zero => exact Nat.one_pos
  | succ n ih =>
      have hbyte := (mem a).toNat_lt
      have hrest := ih (a + 1)
      rw [read, Nat.pow_succ]
      omega

theorem read_congr {a n : ℕ} (h : ∀ b, a ≤ b → b < a + n → mem b = mem' b) :
    read mem a n = read mem' a n := by
  induction n generalizing a with
  | zero => rfl
  | succ n ih =>
      rw [read, read, h a le_rfl (by omega), ih fun b h₁ h₂ => h b (by omega) (by omega)]

/-- **A read splits** into its low and its high bytes. -/
theorem read_add (mem : ℕ → UInt8) (a m n : ℕ) :
    read mem a (m + n) = read mem a m + 256 ^ m * read mem (a + m) n := by
  induction m generalizing a with
  | zero => rw [Nat.zero_add, read, Nat.pow_zero, Nat.one_mul, Nat.zero_add, Nat.add_zero]
  | succ m ih =>
      rw [Nat.succ_add, read, read, ih, Nat.pow_succ, Nat.mul_add, ← Nat.add_assoc, ← Nat.mul_assoc,
        Nat.mul_comm 256 (256 ^ m), Nat.add_assoc a 1 m, Nat.add_comm 1 m]

theorem read_mod (mem : ℕ → UInt8) (a m n : ℕ) : read mem a (m + n) % 256 ^ m = read mem a m := by
  rw [read_add, Nat.add_mul_mod_self_left, Nat.mod_eq_of_lt (read_lt mem a m)]

theorem read_div (mem : ℕ → UInt8) (a m n : ℕ) :
    read mem a (m + n) / 256 ^ m = read mem (a + m) n := by
  rw [read_add, Nat.add_mul_div_left _ _ (Nat.pow_pos (by decide)), Nat.div_eq_of_lt (read_lt mem a m),
    Nat.zero_add]

/-- The bytes of the number that is read. -/
theorem read_byte (mem : ℕ → UInt8) (a : ℕ) {n i : ℕ} (hi : i < n) :
    read mem a n / 256 ^ i % 256 = (mem (a + i)).toNat := by
  obtain ⟨d, rfl⟩ := Nat.exists_eq_add_of_lt hi
  rw [Nat.add_assoc, read_div, read, Nat.add_mul_mod_self_left]
  exact Nat.mod_eq_of_lt (mem (a + i)).toNat_lt

/-! ### Reading behind a write -/

theorem read_write_apart {a b v m n : ℕ} (h : a + n ≤ b ∨ b + m ≤ a) :
    read (write mem b v m) a n = read mem a n :=
  read_congr fun _ _ _ => write_of_notMem (by omega)

/-- The low bytes of what was written. -/
theorem read_write_self {a v m n : ℕ} (h : n ≤ m) : read (write mem a v m) a n = v % 256 ^ n := by
  induction n with
  | zero => rw [read, Nat.pow_zero, Nat.mod_one]
  | succ n ih =>
      rw [read_add, ih (by omega), read, read, write_of_mem (by omega), Nat.mul_zero, Nat.add_zero,
        Nat.pow_succ, ← Nat.mod_mul]

/-! ### Ranges -/

@[simp] theorem slice_length (mem : ℕ → UInt8) (a n : ℕ) : (slice mem a n).length = n := by simp [slice]

@[simp] theorem slice_zero (mem : ℕ → UInt8) (a : ℕ) : slice mem a 0 = [] := rfl

theorem slice_succ (mem : ℕ → UInt8) (a n : ℕ) :
    slice mem a (n + 1) = mem a :: slice mem (a + 1) n := by
  rw [slice, List.range_succ_eq_map, List.map_cons, List.map_map]
  refine congrArg _ (List.map_congr_left fun i _ => ?_)
  rw [Function.comp_apply, Nat.succ_eq_add_one, Nat.add_assoc, Nat.add_comm 1]

theorem slice_take (mem : ℕ → UInt8) (a : ℕ) {m n : ℕ} (h : m ≤ n) :
    (slice mem a n).take m = slice mem a m := by
  rw [slice, ← List.map_take, List.take_range, Nat.min_eq_left h]
  rfl

theorem slice_congr {a b n : ℕ} (h : ∀ i < n, mem (a + i) = mem' (b + i)) :
    slice mem a n = slice mem' b n :=
  List.map_congr_left fun i hi => h i (List.mem_range.1 hi)

theorem mem_slice {a n : ℕ} {x : UInt8} : x ∈ slice mem a n ↔ ∃ i < n, mem (a + i) = x := by
  simp [slice]

theorem slice_fill {a n : ℕ} {x : UInt8} : slice (fill mem a n x) a n = List.replicate n x := by
  refine List.eq_replicate_iff.2 ⟨slice_length _ _ _, fun y hy => ?_⟩
  obtain ⟨i, hi, rfl⟩ := mem_slice.1 hy
  exact fill_of_mem (Nat.le_add_right a i) (by omega)

theorem copy_of_notMem {d a b n : ℕ} (h : b < d ∨ d + n ≤ b) : copy mem d a n b = mem b :=
  if_neg (by omega)

theorem copy_of_mem {d a n i : ℕ} (h : i < n) : copy mem d a n (d + i) = mem (a + i) := by
  rw [copy, if_pos ⟨Nat.le_add_right d i, by omega⟩, Nat.add_sub_cancel_left]

@[simp] theorem copy_zero (mem : ℕ → UInt8) (d a : ℕ) : copy mem d a 0 = mem :=
  funext fun _ => copy_of_notMem (by omega)

theorem copy_self (mem : ℕ → UInt8) (a n : ℕ) : copy mem a a n = mem := by
  funext b
  by_cases hb : a ≤ b ∧ b < a + n
  · rw [copy, if_pos hb, Nat.add_sub_cancel' hb.1]
  · rw [copy, if_neg hb]

theorem slice_copy {d a n : ℕ} : slice (copy mem d a n) d n = slice mem a n :=
  slice_congr fun _ hi => copy_of_mem hi

/-- **From the first byte on**: the bytes that are still to be read lie behind the first of the new ones. -/
theorem copy_first {d a n : ℕ} (h : d ≤ a ∨ a + n < d) :
    copy (Function.update mem d (mem a)) (d + 1) (a + 1) n = copy mem d a (n + 1) := by
  funext b
  rcases Nat.lt_or_ge b d with hb | hb
  · rw [copy_of_notMem (by omega), copy_of_notMem (by omega), Function.update_of_ne (by omega)]
  obtain ⟨i, rfl⟩ := Nat.exists_eq_add_of_le hb
  cases i with
  | zero => rw [copy_of_notMem (by omega), copy_of_mem (by omega), Nat.add_zero, Function.update_self]; rfl
  | succ i =>
      rw [show d + (i + 1) = d + 1 + i by omega]
      by_cases hi : i < n
      · rw [copy_of_mem hi, Function.update_of_ne (by omega), show d + 1 + i = d + (i + 1) by omega,
          copy_of_mem (by omega), show a + 1 + i = a + (i + 1) by omega]
      · rw [copy_of_notMem (by omega), copy_of_notMem (by omega), Function.update_of_ne (by omega)]

/-- **From the last byte on**: the bytes that are still to be read lie before the last of the new ones. -/
theorem copy_last {d a n : ℕ} (h : a ≤ d ∨ d + n < a) :
    copy (Function.update mem (d + n) (mem (a + n))) d a n = copy mem d a (n + 1) := by
  funext b
  rcases Nat.lt_or_ge b d with hb | hb
  · rw [copy_of_notMem (by omega), copy_of_notMem (by omega), Function.update_of_ne (by omega)]
  obtain ⟨i, rfl⟩ := Nat.exists_eq_add_of_le hb
  rcases Nat.lt_trichotomy i n with hi | rfl | hi
  · rw [copy_of_mem hi, copy_of_mem (by omega), Function.update_of_ne (by omega)]
  · rw [copy_of_notMem (by omega), copy_of_mem (by omega), Function.update_self]
  · rw [copy_of_notMem (by omega), copy_of_notMem (by omega), Function.update_of_ne (by omega)]

@[simp] theorem fill_zero (mem : ℕ → UInt8) (a : ℕ) (x : UInt8) : fill mem a 0 x = mem :=
  funext fun _ => fill_of_notMem (by omega)

/-- One byte after the other becomes `x`. -/
theorem fill_first {a n : ℕ} {x : UInt8} :
    fill (Function.update mem a x) (a + 1) n x = fill mem a (n + 1) x := by
  funext b
  rcases Nat.lt_trichotomy b a with hb | rfl | hb
  · rw [fill_of_notMem (by omega), fill_of_notMem (by omega), Function.update_of_ne (by omega)]
  · rw [fill_of_notMem (by omega), fill_of_mem le_rfl (by omega), Function.update_self]
  · by_cases hi : b < a + (n + 1)
    · rw [fill_of_mem (by omega) (by omega), fill_of_mem (by omega) hi]
    · rw [fill_of_notMem (by omega), fill_of_notMem (by omega), Function.update_of_ne (by omega)]

end Bytes

end SyncKernel
