/-
**The three ways to map a window.**

`pt_map_huge`, `pt_map_large` and `pt_map_norm` are the same loops with leaves of three sizes.  Each of
them is the task of mapping leaves that `Pagetbl.Job` describes, as long as `kbud_alloc` has frames.

Main definitions:

* `Vmalloc.Window` — what the loops rely on, for leaves of one size;
* `Vmalloc.Window.job` — the task.

Main results:

* `Vmalloc.Window.huge_spec`, `Vmalloc.Window.large_spec`, `Vmalloc.Window.norm_spec` — what the loops
  map.
-/

import SyncKernel.Pagetbl.Build
import SyncKernel.Vmalloc.Basic

set_option relaxedAutoImplicit false
set_option autoImplicit false

namespace SyncKernel

namespace Vmalloc

open Pagetbl Radix Radix.Format

/-! ### Flags -/

theorem IsFlags.or {f g : ℕ} (hf : IsFlags f) (hg : IsFlags g) : IsFlags (f ||| g) := fun j hj hj' => by
  rw [Nat.testBit_or, hf j hj hj', hg j hj hj', Bool.or_false]

theorem isFlags_bit {k : ℕ} (hk : k < 12 ∨ 52 ≤ k) : IsFlags (1 <<< k) := fun j hj hj' => by
  rw [Nat.one_shiftLeft, Nat.testBit_two_pow]
  exact decide_eq_false (by omega)

/-- The flags of an entry that is present. -/
def EntryFlags (f : ℕ) : Prop := IsFlags f ∧ f &&& ptFlagPresent ≠ 0

theorem EntryFlags.or {f g : ℕ} (hf : EntryFlags f) (hg : IsFlags g) : EntryFlags (f ||| g) := by
  refine ⟨IsFlags.or hf.1 hg, fun hzero => hf.2 ?_⟩
  rw [Nat.and_or_distrib_right] at hzero
  exact (Nat.or_eq_zero_iff.1 hzero).1

theorem EntryFlags.ite {c : Prop} [Decidable c] {f g : ℕ} (hf : EntryFlags f) (hg : IsFlags g) :
    EntryFlags (if c then f ||| g else f) := by
  split
  · exact hf.or hg
  · exact hf

/-- The flags of an area are flags of an entry. -/
theorem vmaToPteFlags_entryFlags (flags : ℕ) : EntryFlags (vmaToPteFlags flags) := by
  have hpresent : EntryFlags ptFlagPresent := ⟨isFlags_bit (Or.inl (by decide)), by decide⟩
  have hwritable : IsFlags ptFlagWritable := isFlags_bit (Or.inl (by decide))
  have huser : IsFlags ptFlagUser := isFlags_bit (Or.inl (by decide))
  have hcache : IsFlags ptFlagPagecacheDisable := isFlags_bit (Or.inl (by decide))
  have hthrough : IsFlags ptFlagWriteThrough := isFlags_bit (Or.inl (by decide))
  have hnx : IsFlags (1 <<< 63) := isFlags_bit (Or.inr (by decide))
  exact (((((hpresent.ite hwritable).ite huser).ite (IsFlags.or hpresent.1 hwritable)).ite hcache).ite
    hthrough).ite hnx

/-- The flags of a leaf with `w` digits behind it. -/
def leafFlags (w pteFlags : ℕ) : ℕ := if w = 0 then pteFlags else pteFlags ||| ptFlagPagesize

theorem leafFlags_leaf {f : ℕ} (w : ℕ) (hf : EntryFlags f) : IsLeafFlags w (leafFlags w f) := by
  have hsize : IsFlags ptFlagPagesize := isFlags_bit (Or.inl (by decide))
  unfold leafFlags
  split
  · next hw => exact ⟨hf.1, hf.2, Or.inl hw⟩
  · refine ⟨(hf.or hsize).1, (hf.or hsize).2, Or.inr fun hzero => ?_⟩
    rw [Nat.and_or_distrib_right] at hzero
    exact absurd (Nat.or_eq_zero_iff.1 hzero).2 (by decide)

/-! ### Tables -/

theorem ptr_ne {t : ℕ} (ht : 4096 ∣ t) : directMap.ptr t ≠ kpageErr := by
  change physToVirtPm t ≠ _
  unfold physToVirtPm Word.add kernelPhmap kpageErr
  omega

/-- As long as there are frames, `return_pt_or_alloc` returns a table. -/
theorem returnPtOrAlloc_eq {t i : ℕ} {s : Tables} {x : ℕ × Tables} (ht : 4096 ∣ t)
    (h : tableFor directMap (directMap.ptr t) i s = some x) :
    returnPtOrAlloc (directMap.ptr t) i s = some x := by
  rw [returnPtOrAlloc, if_neg (ptr_ne ht), Pagetbl.returnPtOrAlloc, h]
  rfl

section Fills

variable {J : Job} {k : ℕ} {bound : ℕ → ℕ} {body : ℕ → Cursor → Option Cursor}

/-- The innermost loop. -/
theorem fills_putEntry (hroot : 4096 ∣ J.root) : J.Fills directMap 0 (putEntry (J.w + 1) J.flags) :=
  J.fills_put directMap fun hat => if_neg (ptr_ne (hat.aligned hroot))

/-- The loop around another one. -/
theorem fills_turnWith (hroot : 4096 ∣ J.root) (hk : J.w + k < 3)
    (hbound : ∀ r ≤ J.count ⌈/⌉ 512 ^ k, bound r = capped r) (h : J.Fills directMap k body) :
    J.Fills directMap (k + 1) (turnWith returnPtOrAlloc (J.w + 1 + k) bound body) := by
  refine Job.fills_turn hk hbound (fun hat hq => ?_) h
  rw [turn, turnWith, turnWith, hq, returnPtOrAlloc_eq (hat.aligned hroot) hq]

end Fills

/-! ### Windows -/

/-- A window of `vma_tree` that is to be mapped by leaves with `w` digits behind them. -/
structure Window (w root : ℕ) (s : Tables) (vaddr paddr size : ℕ) : Prop where
  w_le : w ≤ 2
  root_dvd : 4096 ∣ root
  sound : Sound root s
  vaddr_dvd : 2 ^ (12 + 9 * w) ∣ vaddr
  paddr_dvd : 2 ^ (12 + 9 * w) ∣ paddr
  size_dvd : 2 ^ (12 + 9 * w) ∣ size
  paddr_lt : paddr < 2 ^ 64
  lo : kernelVmmap ≤ vaddr
  hi : vaddr + size ≤ 2 ^ 64
  clear : ∀ m < size / 2 ^ (12 + 9 * w), ∀ n < 2 ^ 36,
    n / 512 ^ w = addDigits 512 (4 - w) (slot w vaddr) m → ∀ x, find root s n = some x → x.1 ≤ w

theorem ceilDiv_mul_mul {u : ℕ} (hu : 0 < u) {d : ℕ} (hd : 0 < d) (c : ℕ) :
    (c * u) ⌈/⌉ (u * d) = c ⌈/⌉ d := by
  refine eq_of_forall_ge_iff fun x => ?_
  rw [ceilDiv_le_iff_le_mul (Nat.mul_pos hu hd), ceilDiv_le_iff_le_mul hd, Nat.mul_comm c,
    Nat.mul_assoc, Nat.mul_le_mul_left_iff hu]

/-- The counts of `ioremap` for a window of leaves with `w` digits behind them. -/
theorem windowCount_eq {w size j : ℕ} (hsize : 2 ^ (12 + 9 * w) ∣ size) (hlt : size < 2 ^ 63)
    (hj : w + j ≤ 3) :
    pagetblCount size (2 ^ (12 + 9 * (w + j))) = size / 2 ^ (12 + 9 * w) ⌈/⌉ 512 ^ j := by
  have hunit : 2 ^ (12 + 9 * (w + j)) ≤ 2 ^ 39 := Nat.pow_le_pow_right (by decide) (by omega)
  have hsplit : 2 ^ (12 + 9 * (w + j)) = 2 ^ (12 + 9 * w) * 512 ^ j := by
    rw [show 512 = 2 ^ 9 from rfl, ← Nat.pow_mul, ← Nat.pow_add]
    congr 1
    omega
  rw [pagetblCount_eq (by omega) (by omega), hsplit]
  calc size ⌈/⌉ (2 ^ (12 + 9 * w) * 512 ^ j)
      = (size / 2 ^ (12 + 9 * w) * 2 ^ (12 + 9 * w)) ⌈/⌉ (2 ^ (12 + 9 * w) * 512 ^ j) := by
        rw [Nat.div_mul_cancel hsize]
    _ = size / 2 ^ (12 + 9 * w) ⌈/⌉ 512 ^ j :=
        ceilDiv_mul_mul (Nat.two_pow_pos _) (Nat.pow_pos (by decide)) _

/-- The entries that remain in front of the loops. -/
theorem windowRem_eq {w size j : ℕ} (hsize : 2 ^ (12 + 9 * w) ∣ size) (hlt : size < 2 ^ 63)
    (hj : w + j < 3) (vaddr paddr flags : ℕ) (s : Tables) :
    ((pageCtx vaddr paddr size flags).cursor s).rem (w + 1 + j) =
      size / 2 ^ (12 + 9 * w) ⌈/⌉ 512 ^ j := by
  obtain heq | heq | heq : w + j = 2 ∨ w + j = 1 ∨ w + j = 0 := by omega
  · have hlevel : w + 1 + j = 3 := by omega
    have hcount := windowCount_eq (j := j) hsize hlt (by omega)
    rw [heq] at hcount
    rw [hlevel, ← hcount, PageCtx.cursor_rem_three]
    exact congrArg (pagetblCount size) (by decide)
  · have hlevel : w + 1 + j = 2 := by omega
    have hcount := windowCount_eq (j := j) hsize hlt (by omega)
    rw [heq] at hcount
    rw [hlevel, ← hcount, PageCtx.cursor_rem_two]
    exact congrArg (pagetblCount size) (by decide)
  · obtain ⟨rfl, rfl⟩ : w = 0 ∧ j = 0 := by omega
    rw [Nat.pow_zero, ceilDiv_one, PageCtx.cursor_rem_one]
    exact Nat.shiftRight_eq_div_pow size 12

/-- The turns of the loop over the top table. -/
theorem windowTop_eq {w size k : ℕ} (hsize : 2 ^ (12 + 9 * w) ∣ size) (hlt : size < 2 ^ 63)
    (hk : w + k = 3) (vaddr paddr flags : ℕ) :
    (pageCtx vaddr paddr size flags).l4EntCount = size / 2 ^ (12 + 9 * w) ⌈/⌉ 512 ^ k := by
  have hcount := windowCount_eq (j := k) hsize hlt (by omega)
  rwa [hk] at hcount

namespace Window

variable {w root vaddr paddr size k : ℕ} {s : Tables}

/-- The task of mapping the window. -/
def job (h : Window w root s vaddr paddr size) (flags : ℕ) : Job where
  w := w
  root := root
  start := s
  vaddr := vaddr
  paddr := paddr
  flags := leafFlags w (vmaToPteFlags flags)
  count := size / 2 ^ (12 + 9 * w)
  w_le := h.w_le
  vaddr_dvd := h.vaddr_dvd
  paddr_dvd := h.paddr_dvd
  paddr_lt := h.paddr_lt
  flags_leaf := leafFlags_leaf w (vmaToPteFlags_entryFlags flags)
  count_le := by
    have hlo := h.lo
    have hhi := h.hi
    have hvaddr := h.vaddr_dvd
    rw [slot_eq h.w_le]
    unfold kernelVmmap at hlo
    obtain rfl | rfl | rfl : w = 0 ∨ w = 1 ∨ w = 2 := by have := h.w_le; omega
    all_goals omega
  clear := h.clear

theorem size_lt (h : Window w root s vaddr paddr size) : size < 2 ^ 63 := by
  have hlo := h.lo
  have hhi := h.hi
  have hbase : 2 ^ 64 - 2 ^ 47 ≤ kernelVmmap := by decide
  omega

/-- **What the loops map**, when their body sets the leaves below one entry of the top table. -/
theorem map_spec (h : Window w root s vaddr paddr size) (flags : ℕ) {body : ℕ → Cursor → Option Cursor}
    (hk : w + k = 3) (hbody : (h.job flags).Fills directMap k body)
    (hfree : tablesFor k (size / 2 ^ (12 + 9 * w)) ≤ s.free.length) :
    ∃ s', ptMap body (physToVirtPm root) (pageCtx vaddr paddr size flags) s = some s' ∧ Sound root s' ∧
      Placed root s w (h.job flags).place (size / 2 ^ (12 + 9 * w)) (h.job flags).entry s' := by
  have hstart : (h.job flags).State k 0 0 ((pageCtx vaddr paddr size flags).cursor s) :=
    Job.state_start h.sound (fun j hj => windowRem_eq h.size_dvd h.size_lt (by omega) vaddr paddr flags s)
      ((Nat.zero_add _).trans_le hfree)
  obtain ⟨c, hc, hst⟩ := Job.fill (J := h.job flags) hk hbody hstart
  refine ⟨c.tables, ?_, hst.sound, hst.placed⟩
  rw [ptMap, windowTop_eq h.size_dvd h.size_lt hk]
  exact congrArg (Option.map Cursor.tables) hc

/-- `pt_map_huge`. -/
theorem huge_spec (h : Window 2 root s vaddr paddr size) (flags : ℕ)
    (hfree : tablesFor 1 (size / 2 ^ (12 + 9 * 2)) ≤ s.free.length) :
    ∃ s', ptMapHuge returnPtOrAlloc (physToVirtPm root) (pageCtx vaddr paddr size flags) s = some s' ∧
      Sound root s' ∧
      Placed root s 2 (h.job flags).place (size / 2 ^ (12 + 9 * 2)) (h.job flags).entry s' := by
  refine h.map_spec flags rfl ?_ hfree
  exact fills_turnWith (k := 0) h.root_dvd (show 2 + 0 < 3 by decide) (fun _ _ => rfl)
    (fills_putEntry h.root_dvd)

/-- `pt_map_large`, for at most 512 GiB: then `l3_ent_rem` is `l3_ent_count`. -/
theorem large_spec (h : Window 1 root s vaddr paddr size) (flags : ℕ) (hsize : size ≤ 2 ^ 39)
    (hfree : tablesFor 2 (size / 2 ^ (12 + 9 * 1)) ≤ s.free.length) :
    ∃ s', ptMapLarge returnPtOrAlloc (physToVirtPm root) (pageCtx vaddr paddr size flags) s = some s' ∧
      Sound root s' ∧
      Placed root s 1 (h.job flags).place (size / 2 ^ (12 + 9 * 1)) (h.job flags).entry s' := by
  refine h.map_spec flags rfl ?_ hfree
  have hbound : ∀ r ≤ (h.job flags).count ⌈/⌉ 512 ^ 1, id r = capped r := by
    intro r hr
    have hcount : (h.job flags).count ≤ 512 ^ 1 * 512 := by
      change size / 2 ^ (12 + 9 * 1) ≤ 512 ^ 1 * 512
      omega
    have hle : r ≤ 512 := le_trans hr ((ceilDiv_le_iff_le_mul (by decide)).2 hcount)
    exact (if_neg (Nat.not_lt.2 hle)).symm
  exact fills_turnWith (k := 1) h.root_dvd (show 1 + 1 < 3 by decide) hbound
    (fills_turnWith (k := 0) h.root_dvd (show 1 + 0 < 3 by decide) (fun _ _ => rfl)
      (fills_putEntry h.root_dvd))

/-- `pt_map_norm`. -/
theorem norm_spec (h : Window 0 root s vaddr paddr size) (flags : ℕ)
    (hfree : tablesFor 3 (size / 2 ^ (12 + 9 * 0)) ≤ s.free.length) :
    ∃ s', ptMapNorm returnPtOrAlloc (physToVirtPm root) (pageCtx vaddr paddr size flags) s = some s' ∧
      Sound root s' ∧
      Placed root s 0 (h.job flags).place (size / 2 ^ (12 + 9 * 0)) (h.job flags).entry s' := by
  refine h.map_spec flags rfl ?_ hfree
  exact fills_turnWith (k := 2) h.root_dvd (show 0 + 2 < 3 by decide) (fun _ _ => rfl)
    (fills_turnWith (k := 1) h.root_dvd (show 0 + 1 < 3 by decide) (fun _ _ => rfl)
      (fills_turnWith (k := 0) h.root_dvd (show 0 + 0 < 3 by decide) (fun _ _ => rfl)
        (fills_putEntry h.root_dvd)))

/-- Where a leaf is put, addresses translate to what it stands for. -/
theorem phys_eq (h : Window w root s vaddr paddr size) (flags m v : ℕ) :
    physOf v (some (w, (h.job flags).entry m)) =
      (paddr + m * 2 ^ (12 + 9 * w)) % 2 ^ 52 + v % 2 ^ (12 + 9 * w) :=
  (h.job flags).physOf_entry m v

end Window

/-! ### Blank tables -/

/-- A blank top table at `0x1000`, and `n` frames behind it. -/
def blankTables (n : ℕ) : Tables :=
  ⟨clear (fun _ _ => 0) 0x1000 0, (List.range n).map fun k => 0x2000 + k * 0x1000⟩

theorem blankTables_sound {n : ℕ} (hn : n < 2 ^ 39) :
    Sound 0x1000 (blankTables n) ∧ ∀ m, find 0x1000 (blankTables n) m = none := by
  refine sound_start _ (by decide) (List.nodup_cons.2 ⟨?_, ?_⟩) ?_
  · simp only [List.mem_map, List.mem_range, not_exists, not_and]
    omega
  · exact List.nodup_range.map fun a b (hab : 0x2000 + a * 0x1000 = 0x2000 + b * 0x1000) => by omega
  · simp only [List.mem_map, List.mem_range]
    rintro f ⟨k, hk, rfl⟩
    omega

end Vmalloc

end SyncKernel
