/-
**Searching a string for a character** (`kstring.c`, `str_io.h`).

`strchr` and `strchrnul` scan a string from its first byte up, `strrchr` from its NUL down, each with the
string instruction `repne scasb`, which stops behind the byte that it looks for.  `strchr` and `strrchr` take
a count of zero for a byte that is not there, but the count is also zero when the byte that was found is the
last one of the scan: the NUL for `strchr`, the first byte for `strrchr`.

Main definitions:

* `Kstring.strchr`, `Kstring.strrchr`, `Kstring.strchrnul` — the functions;
* `Kstring.positions` — where a byte stands in a string, its NUL included.

Main results:

* `Kstring.repneScasb_up`, `Kstring.repneScasb_down` — where a scan stops;
* `Kstring.searches_iff` — **when the searches are right**.
-/

import Mathlib.Order.Bounds.Basic
import SyncKernel.Kstring.Copy

set_option relaxedAutoImplicit false
set_option autoImplicit false

namespace SyncKernel

namespace Kstring

/-- `strchr`. -/
def strchr (s : Cpu) (str : ℕ) (c : ℤ) : Option (ℕ × Cpu) := do
  let n ← strlen s.mem str
  let r := repneScasb (x86Cld s) str (UInt8.ofInt c) (Word.add n 1)
  some (if r.remaining ≠ 0 then Word.sub r.ptr 1 else 0, r.cpu)

/-- `strrchr`. -/
def strrchr (s : Cpu) (str : ℕ) (c : ℤ) : Option (ℕ × Cpu) := do
  let strsz ← strlen s.mem str
  let r := repneScasb (x86Std s) (Word.add str strsz) (UInt8.ofInt c) (Word.add strsz 1)
  some (if r.remaining ≠ 0 then Word.add r.ptr 1 else 0, x86Cld r.cpu)

/-- `strchrnul`. -/
def strchrnul (s : Cpu) (str : ℕ) (c : ℤ) : Option (ℕ × Cpu) := do
  let n ← strlen s.mem str
  let r := repneScasb (x86Cld s) str (UInt8.ofInt c) (Word.add n 1)
  some (Word.sub r.ptr 1, r.cpu)

/-! ### Where a scan stops -/

variable {s : Cpu} {p n : ℕ} {v : UInt8}

/-- A scan of `n + 1` bytes that goes up stops behind the first match, or behind the last byte. -/
theorem repneScasb_up (hdf : s.df = false) (hp : p + n < 2 ^ 64) :
    (∃ i ≤ n, s.mem (p + i) = v ∧ (∀ j < i, s.mem (p + j) ≠ v) ∧
      repneScasb s p v (n + 1) = ⟨Word.add (p + i) 1, n - i, s⟩) ∨
    ((∀ j ≤ n, s.mem (p + j) ≠ v) ∧ repneScasb s p v (n + 1) = ⟨Word.add (p + n) 1, 0, s⟩) := by
  have hnext : ∀ q, s.next q = Word.add q 1 := by simp [Cpu.next, hdf]
  induction n generalizing p with
  | zero =>
      by_cases hv : s.mem p = v
      · exact Or.inl ⟨0, le_rfl, hv, by simp, by simp [repneScasb, hv, hnext]⟩
      · refine Or.inr ⟨fun j hj => ?_, by simp [repneScasb, hv, hnext]⟩
        rwa [Nat.le_zero.1 hj]
  | succ n ih =>
      rw [repneScasb]
      by_cases hv : s.mem p = v
      · refine Or.inl ⟨0, Nat.zero_le _, hv, by simp, ?_⟩
        rw [if_pos hv, hnext]
        rfl
      · rw [if_neg hv, hnext, Word.add_of_lt (by omega)]
        have hall : ∀ k, (∀ j < k, s.mem (p + 1 + j) ≠ v) → ∀ j < k + 1, s.mem (p + j) ≠ v := by
          intro k hk j hj
          cases j with
          | zero => exact hv
          | succ j =>
              rw [Nat.add_comm j 1, ← Nat.add_assoc]
              exact hk j (by omega)
        rcases ih (p := p + 1) (by omega) with ⟨i, hi, hat, hbefore, heq⟩ | ⟨hnone, heq⟩
        · refine Or.inl ⟨i + 1, by omega, ?_, hall i hbefore, ?_⟩
          · rwa [Nat.add_comm i 1, ← Nat.add_assoc]
          · rw [heq, Nat.add_sub_add_right, Nat.add_comm i 1, ← Nat.add_assoc]
        · refine Or.inr ⟨fun j hj => hall (n + 1) (fun j hj => hnone j (by omega)) j (by omega), ?_⟩
          rw [heq, Nat.add_comm n 1, ← Nat.add_assoc]

/-- A scan of `n + 1` bytes that goes down stops below the last match, or below the first byte. -/
theorem repneScasb_down (hdf : s.df = true) (hp : p + n < 2 ^ 64) :
    (∃ i ≤ n, s.mem (p + i) = v ∧ (∀ j ≤ n, i < j → s.mem (p + j) ≠ v) ∧
      repneScasb s (p + n) v (n + 1) = ⟨Word.sub (p + i) 1, i, s⟩) ∨
    ((∀ j ≤ n, s.mem (p + j) ≠ v) ∧ repneScasb s (p + n) v (n + 1) = ⟨Word.sub p 1, 0, s⟩) := by
  have hnext : ∀ q, s.next q = Word.sub q 1 := by simp [Cpu.next, hdf]
  induction n with
  | zero =>
      by_cases hv : s.mem p = v
      · exact Or.inl ⟨0, le_rfl, hv, fun j hj hj' => by omega, by simp [repneScasb, hv, hnext]⟩
      · refine Or.inr ⟨fun j hj => ?_, by simp [repneScasb, hv, hnext]⟩
        rwa [Nat.le_zero.1 hj]
  | succ n ih =>
      rw [repneScasb]
      by_cases hv : s.mem (p + (n + 1)) = v
      · refine Or.inl ⟨n + 1, le_rfl, hv, fun j hj hj' => by omega, ?_⟩
        rw [if_pos hv, hnext]
      · have hdown : s.next (p + (n + 1)) = p + n := by
          rw [hnext, Word.sub_of_le (by omega) (by omega)]
          rfl
        rw [if_neg hv, hdown]
        have hlast : ∀ j ≤ n + 1, ¬ j ≤ n → s.mem (p + j) ≠ v := by
          intro j hj hj'
          rwa [show j = n + 1 by omega]
        rcases ih (by omega) with ⟨i, hi, hat, hbehind, heq⟩ | ⟨hnone, heq⟩
        · refine Or.inl ⟨i, by omega, hat, fun j hj hij => ?_, heq⟩
          by_cases hjn : j ≤ n
          · exact hbehind j hjn hij
          · exact hlast j hj hjn
        · refine Or.inr ⟨fun j hj => ?_, heq⟩
          by_cases hjn : j ≤ n
          · exact hnone j hjn
          · exact hlast j hj hjn

/-! ### What the searches should return -/

/-- The places of a byte in the string of `n` bytes at `str`, or of its NUL. -/
def positions (mem : ℕ → UInt8) (str n : ℕ) (v : UInt8) : Set ℕ := {q | ∃ i ≤ n, q = str + i ∧ mem q = v}

/-- `strchr` returns the first place, and null exactly when there is none. -/
def StrchrRight (s : Cpu) (str n : ℕ) (c : ℤ) : Prop :=
  ∃ r, strchr s str c = some r ∧ (r.1 = 0 ↔ positions s.mem str n (UInt8.ofInt c) = ∅) ∧
    (r.1 ≠ 0 → IsLeast (positions s.mem str n (UInt8.ofInt c)) r.1)

/-- `strrchr` returns the last place, and null exactly when there is none. -/
def StrrchrRight (s : Cpu) (str n : ℕ) (c : ℤ) : Prop :=
  ∃ r, strrchr s str c = some r ∧ (r.1 = 0 ↔ positions s.mem str n (UInt8.ofInt c) = ∅) ∧
    (r.1 ≠ 0 → IsGreatest (positions s.mem str n (UInt8.ofInt c)) r.1)

/-- `strchrnul` returns the first place of the byte or of the NUL. -/
def StrchrnulRight (s : Cpu) (str n : ℕ) (c : ℤ) : Prop :=
  ∃ r, strchrnul s str c = some r ∧
    IsLeast (positions s.mem str n (UInt8.ofInt c) ∪ positions s.mem str n 0) r.1

variable {mem : ℕ → UInt8} {str i : ℕ} {t : List UInt8} {c : ℤ}

theorem mem_positions (hi : i ≤ n) (hv : mem (str + i) = v) : str + i ∈ positions mem str n v :=
  ⟨i, hi, rfl, hv⟩

theorem positions_eq_empty (h : ∀ j ≤ n, mem (str + j) ≠ v) : positions mem str n v = ∅ := by
  refine Set.eq_empty_of_forall_notMem fun q hq => ?_
  obtain ⟨j, hj, rfl, hat⟩ := hq
  exact h j hj hat

theorem isLeast_positions (hi : i ≤ n) (hv : mem (str + i) = v) (hbefore : ∀ j < i, mem (str + j) ≠ v) :
    IsLeast (positions mem str n v) (str + i) := by
  refine ⟨mem_positions hi hv, ?_⟩
  rintro q ⟨j, -, rfl, hat⟩
  by_contra hlt
  exact hbefore j (by omega) hat

theorem isGreatest_positions (hi : i ≤ n) (hv : mem (str + i) = v)
    (hbehind : ∀ j ≤ n, i < j → mem (str + j) ≠ v) : IsGreatest (positions mem str n v) (str + i) := by
  refine ⟨mem_positions hi hv, ?_⟩
  rintro q ⟨j, hj, rfl, hat⟩
  by_contra hlt
  exact hbehind j hj (by omega) hat

/-! ### What the searches return -/

/-- `strchr` finds a byte that stands before the NUL. -/
theorem strchr_spec (ht : IsString s.mem str t) (hnull : 0 < str) :
    ∃ r, strchr s str c = some r ∧
      ((∃ i < t.length, r.1 = str + i ∧ s.mem (str + i) = UInt8.ofInt c ∧
        ∀ j < i, s.mem (str + j) ≠ UInt8.ofInt c) ∨
      (r.1 = 0 ∧ ∀ j < t.length, s.mem (str + j) ≠ UInt8.ofInt c)) := by
  have hfits := ht.fits
  simp only [strchr, ht.strlen_eq, Option.bind_eq_bind, Option.bind_some,
    Word.add_of_lt (show t.length + 1 < 2 ^ 64 by omega)]
  refine ⟨_, rfl, ?_⟩
  rcases repneScasb_up (s := x86Cld s) (v := UInt8.ofInt c) rfl hfits with
    ⟨i, hi, hat, hbefore, heq⟩ | ⟨hnone, heq⟩
  · by_cases hlast : i = t.length
    · refine Or.inr ⟨?_, fun j hj => hbefore j (hlast ▸ hj)⟩
      rw [heq, hlast, if_neg (by simp)]
    · refine Or.inl ⟨i, by omega, ?_, hat, hbefore⟩
      rw [heq, if_pos (by simp only; omega)]
      exact Word.sub_add_self (by omega) (by omega)
  · refine Or.inr ⟨?_, fun j hj => hnone j hj.le⟩
    rw [heq, if_neg (by simp)]

/-- `strrchr` finds a byte that stands behind the first one. -/
theorem strrchr_spec (ht : IsString s.mem str t) (hnull : 0 < str) :
    ∃ r, strrchr s str c = some r ∧
      ((∃ i ≤ t.length, 0 < i ∧ r.1 = str + i ∧ s.mem (str + i) = UInt8.ofInt c ∧
        ∀ j ≤ t.length, i < j → s.mem (str + j) ≠ UInt8.ofInt c) ∨
      (r.1 = 0 ∧ ∀ j ≤ t.length, 0 < j → s.mem (str + j) ≠ UInt8.ofInt c)) := by
  have hfits := ht.fits
  simp only [strrchr, ht.strlen_eq, Option.bind_eq_bind, Option.bind_some, Word.add_of_lt hfits,
    Word.add_of_lt (show t.length + 1 < 2 ^ 64 by omega)]
  refine ⟨_, rfl, ?_⟩
  rcases repneScasb_down (s := x86Std s) (v := UInt8.ofInt c) rfl hfits with
    ⟨i, hi, hat, hbehind, heq⟩ | ⟨hnone, heq⟩
  · by_cases hfirst : i = 0
    · refine Or.inr ⟨?_, fun j hj hpos => hbehind j hj (hfirst ▸ hpos)⟩
      rw [heq, hfirst, if_neg (by simp)]
    · refine Or.inl ⟨i, hi, by omega, ?_, hat, hbehind⟩
      rw [heq, if_pos hfirst]
      exact Word.add_sub_self (by omega) (by omega)
  · refine Or.inr ⟨?_, fun j hj _ => hnone j hj⟩
    rw [heq, if_neg (by simp)]

/-! ### When the searches are right -/

/-- **`strchr` does not find the NUL.** -/
theorem strchrRight_iff (ht : IsString s.mem str t) (hnull : 0 < str) :
    StrchrRight s str t.length c ↔ UInt8.ofInt c ≠ 0 := by
  obtain ⟨r, hr, hspec⟩ := strchr_spec (c := c) ht hnull
  constructor
  · rintro ⟨r', hr', hnone, -⟩ hc
    rw [hr, Option.some.injEq] at hr'
    rw [← hr'] at hnone
    rcases hspec with ⟨i, hi, -, hat, -⟩ | ⟨hret, -⟩
    · exact ht.ne_nul hi (hat.trans hc)
    · have hin := mem_positions (v := UInt8.ofInt c) le_rfl (ht.nul.trans hc.symm)
      rw [hnone.1 hret] at hin
      exact hin
  · intro hc
    refine ⟨r, hr, ?_⟩
    rcases hspec with ⟨i, hi, hret, hat, hbefore⟩ | ⟨hret, hout⟩
    · have hleast := isLeast_positions hi.le hat hbefore
      rw [hret]
      refine ⟨⟨fun h => by omega, fun h => ?_⟩, fun _ => hleast⟩
      exact absurd hleast.1 (h ▸ Set.notMem_empty _)
    · refine ⟨⟨fun _ => positions_eq_empty fun j hj => ?_, fun _ => hret⟩, fun h => absurd hret h⟩
      rcases Nat.lt_or_eq_of_le hj with hlt | rfl
      · exact hout j hlt
      · rw [ht.nul]
        exact hc.symm

/-- **`strrchr` does not find the first byte.** -/
theorem strrchrRight_iff (ht : IsString s.mem str t) (hnull : 0 < str) :
    StrrchrRight s str t.length c ↔ ¬ IsGreatest (positions s.mem str t.length (UInt8.ofInt c)) str := by
  obtain ⟨r, hr, hspec⟩ := strrchr_spec (c := c) ht hnull
  constructor
  · rintro ⟨r', hr', hnone, -⟩ hfirst
    rw [hr, Option.some.injEq] at hr'
    rw [← hr'] at hnone
    rcases hspec with ⟨i, hi, hpos, -, hat, -⟩ | ⟨hret, -⟩
    · have hle := hfirst.2 (mem_positions hi hat)
      omega
    · have hin := hfirst.1
      rw [hnone.1 hret] at hin
      exact hin
  · intro hfirst
    refine ⟨r, hr, ?_⟩
    rcases hspec with ⟨i, hi, hpos, hret, hat, hbehind⟩ | ⟨hret, hout⟩
    · have hgreatest := isGreatest_positions hi hat hbehind
      rw [hret]
      refine ⟨⟨fun h => by omega, fun h => ?_⟩, fun _ => hgreatest⟩
      exact absurd hgreatest.1 (h ▸ Set.notMem_empty _)
    · refine ⟨⟨fun _ => positions_eq_empty fun j hj => ?_, fun _ => hret⟩, fun h => absurd hret h⟩
      rcases Nat.eq_zero_or_pos j with rfl | hpos
      · intro hat
        exact hfirst (isGreatest_positions hj hat hout)
      · exact hout j hj hpos

/-- **`strchrnul` is right** for every byte. -/
theorem strchrnulRight (ht : IsString s.mem str t) (hnull : 0 < str) : StrchrnulRight s str t.length c := by
  have hfits := ht.fits
  rw [StrchrnulRight]
  simp only [strchrnul, ht.strlen_eq, Option.bind_eq_bind, Option.bind_some,
    Word.add_of_lt (show t.length + 1 < 2 ^ 64 by omega)]
  refine ⟨_, rfl, ?_⟩
  have hend : ∀ q ∈ positions s.mem str t.length 0, q = str + t.length := by
    rintro q ⟨j, hj, rfl, hat⟩
    rcases Nat.lt_or_eq_of_le hj with hlt | rfl
    · exact absurd hat (ht.ne_nul hlt)
    · rfl
  rcases repneScasb_up (s := x86Cld s) (v := UInt8.ofInt c) rfl hfits with
    ⟨i, hi, hat, hbefore, heq⟩ | ⟨hnone, heq⟩
  · have hleast := isLeast_positions hi hat hbefore
    rw [heq, Word.sub_add_self (by omega) (by omega)]
    refine ⟨Or.inl hleast.1, ?_⟩
    rintro q (hq | hq)
    · exact hleast.2 hq
    · rw [hend q hq]
      omega
  · rw [heq, Word.sub_add_self hfits (by omega)]
    refine ⟨Or.inr (mem_positions le_rfl ht.nul), ?_⟩
    rintro q (⟨j, hj, rfl, hat⟩ | hq)
    · exact absurd hat (hnone j hj)
    · rw [hend q hq]

/-- **When the searches are right**: the byte is not NUL, and the string does not have it at its start
only. -/
theorem searches_iff (ht : IsString s.mem str t) (hnull : 0 < str) :
    (StrchrRight s str t.length c ∧ StrrchrRight s str t.length c ∧ StrchrnulRight s str t.length c) ↔
      UInt8.ofInt c ≠ 0 ∧ ¬ IsGreatest (positions s.mem str t.length (UInt8.ofInt c)) str := by
  rw [strchrRight_iff ht hnull, strrchrRight_iff ht hnull]
  have hnul := strchrnulRight (c := c) ht hnull
  constructor
  · rintro ⟨hc, hfirst, -⟩
    exact ⟨hc, hfirst⟩
  · rintro ⟨hc, hfirst⟩
    exact ⟨hc, hfirst, hnul⟩

/-- A search of `"ab"` for `'b'`. -/
theorem searches_iff_letters :
    (StrchrRight letters 16 2 98 ∧ StrrchrRight letters 16 2 98 ∧ StrchrnulRight letters 16 2 98) ↔
      UInt8.ofInt 98 ≠ 0 ∧ ¬ IsGreatest (positions letters.mem 16 2 (UInt8.ofInt 98)) 16 :=
  searches_iff letters_src (by decide)

/-- `strchr` does not find the NUL of `"ab"`, nor `strrchr` its `'a'`. -/
theorem searches_letters : IsString letters.mem 16 [97, 98] ∧
    ¬ StrchrRight letters 16 2 0 ∧ ¬ StrrchrRight letters 16 2 97 := by
  refine ⟨letters_src, fun h => ?_, fun h => ?_⟩
  · exact (strchrRight_iff letters_src (by decide)).1 h rfl
  · refine (strrchrRight_iff letters_src (by decide)).1 h ?_
    exact isGreatest_positions (i := 0) (by decide) rfl (by decide)

end Kstring

end SyncKernel
