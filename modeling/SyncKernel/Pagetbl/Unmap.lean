/-
**Unmapping a page** (`pagetbl.c`).

`kpt_unmap_page` asks `kpt_get_l1` for the table of the last level, and clears the present bit of the
entry in it.  `kpt_get_l1` and `kpt_get_l2` return `KPT_NOT_PRESENT` for an entry that is not present, and
the null pointer for a large page; `kpt_get_l3` tests nothing.  Neither `kpt_get_l1`, for what
`kpt_get_l2` returns, nor `kpt_unmap_page` looks whether it got a table.

What is read through the null pointer or through `KPT_NOT_PRESENT` is not known.

Main definitions:

* `Pagetbl.kptGetL1`, `Pagetbl.kptUnmapPage` — the walk of the code, and unmapping a page;
* `Pagetbl.linkTable` — the tables that the code comes to;
* `Pagetbl.UnmapExact` — only the page is unmapped, and nothing is written through what is no table;
* `Pagetbl.Unmappable` — the tables and addresses for which it is so.

Main results:

* `Pagetbl.kptUnmapPage_eq`, `Pagetbl.linked_of_unmap` — the entry that is cleared, and when there is one;
* `Pagetbl.Sound.unmappable` — a page of sound tables can be unmapped;
* `Pagetbl.unmapExact_iff` — **when unmapping is exact**.
-/

import SyncKernel.Pagetbl.Walk

set_option relaxedAutoImplicit false
set_option autoImplicit false

namespace SyncKernel

namespace Pagetbl

open Radix Radix.Format

/-- The null pointer. -/
def nullptr : ℕ := 0

/-- `KPT_NOT_PRESENT`. -/
def kptNotPresent : ℕ := 2 ^ 64 - 1

section Walkers

variable (wild mem : ℕ → ℕ → ℕ) (cr3 : ℕ)

/-- An entry behind a pointer, where `wild` stands for what is read through the pointers of no table. -/
def entryOf (p i : ℕ) : ℕ := if p = nullptr ∨ p = kptNotPresent then wild p i else mem (virtToPhysPm p) i

/-- `kpt_get_l4`. -/
def kptGetL4 : ℕ := physToVirtPm (ptRebase cr3)

/-- `kpt_get_l3`. -/
def kptGetL3 (vaddr l4 : ℕ) : ℕ :=
  if l4 ≠ nullptr then physToVirtPm (ptRebase (entryOf wild mem l4 (pageL4Idx vaddr)))
  else physToVirtPm (ptRebase (entryOf wild mem (kptGetL4 cr3) (pageL4Idx vaddr)))

/-- The entry of an address in a table of the level `ℓ`, at the end of `kpt_get_l2` and `kpt_get_l1`. -/
def tableBehind (ℓ vaddr p : ℕ) : ℕ :=
  let e := entryOf wild mem p (pageIdx ℓ vaddr)
  if e &&& ptFlagPresent = 0 then kptNotPresent
  else if e &&& ptFlagPagesize ≠ 0 then nullptr
  else physToVirtPm (ptRebase e)

/-- `kpt_get_l2`. -/
def kptGetL2 (vaddr l3 : ℕ) : ℕ :=
  if l3 ≠ nullptr then physToVirtPm (ptRebase (entryOf wild mem l3 (pageL3Idx vaddr)))
  else tableBehind wild mem 3 vaddr (kptGetL3 wild mem cr3 vaddr nullptr)

/-- `kpt_get_l1`. -/
def kptGetL1 (vaddr l2 : ℕ) : ℕ :=
  if l2 ≠ nullptr then physToVirtPm (ptRebase (entryOf wild mem l2 (pageL2Idx vaddr)))
  else tableBehind wild mem 2 vaddr (kptGetL2 wild mem cr3 vaddr nullptr)

/-- `kpt_unmap_page`: the memory of the tables behind it; `none` if it writes through the null pointer or
through `KPT_NOT_PRESENT`. -/
def kptUnmapPage (vaddr : ℕ) : Option (ℕ → ℕ → ℕ) :=
  if vaddr = nullptr then some mem
  else
    let v := pageAlignDown vaddr
    let l1 := kptGetL1 wild mem cr3 v nullptr
    if l1 = nullptr ∨ l1 = kptNotPresent then none
    else some (set mem (virtToPhysPm l1) (pageL1Idx v)
      (mem (virtToPhysPm l1) (pageL1Idx v) &&& Word.not ptFlagPresent))

end Walkers

/-! ### What unmapping should do -/

section Exact

variable (mem : ℕ → ℕ → ℕ) (cr3 vaddr : ℕ)

/-- What is found for a page. -/
def pageOf (n : ℕ) : Option (ℕ × ℕ) := format.lookup mem 4 (ptRebase cr3) n

/-- The entries that are read for a page. -/
def entriesOf (n : ℕ) : List (ℕ × ℕ) := format.reads mem 4 (ptRebase cr3) n

/-- Nothing is written through what is no table.  If the address is mapped by a last-level entry, its present
bit is cleared, and the page is no longer translated; no other translation changes. -/
def UnmapExact : Prop :=
  ∀ wild, ∃ mem', kptUnmapPage wild mem cr3 vaddr = some mem' ∧
    ((∃ e, pageOf mem cr3 (pageNumber vaddr) = some (0, e)) →
      (∃ t i, (entriesOf mem cr3 (pageNumber vaddr)).getLast? = some (t, i) ∧
        mem' = set mem t i (mem t i &&& Word.not ptFlagPresent)) ∧
      ∀ w, kptGetPhys mem' cr3 w =
        if pageNumber w = pageNumber vaddr then kpageErr else kptGetPhys mem cr3 w) ∧
    ((¬ ∃ e, pageOf mem cr3 (pageNumber vaddr) = some (0, e)) →
      ∀ w, kptGetPhys mem' cr3 w = kptGetPhys mem cr3 w)

/-- The tables that the code comes to for a page, whether the entries are present or not. -/
def linkTable (n : ℕ) : ℕ → ℕ
  | 0 => ptRebase cr3
  | k + 1 => ptRebase (mem (linkTable n k) (format.index (3 - k) n))

/-- The entry of the last table. -/
def lastEntry (n : ℕ) : ℕ × ℕ := (linkTable mem cr3 n 3, format.index 0 n)

/-- No pointer to a table is null, and the entries behind the first one lead to tables. -/
structure Linked (n : ℕ) : Prop where
  ptr : ∀ k ≤ 3, physToVirtPm (linkTable mem cr3 n k) ≠ nullptr
  present : ∀ k, k = 1 ∨ k = 2 → mem (linkTable mem cr3 n k) (format.index (3 - k) n) &&& ptFlagPresent ≠ 0
  table : ∀ k, k = 1 ∨ k = 2 → mem (linkTable mem cr3 n k) (format.index (3 - k) n) &&& ptFlagPagesize = 0

/-- The code comes to an entry, and no other page is translated through it. -/
structure Unmappable : Prop where
  linked : Linked mem cr3 (pageNumber vaddr)
  alone : ∀ n < 2 ^ 36, n ≠ pageNumber vaddr → pageOf mem cr3 n ≠ none →
    lastEntry mem cr3 (pageNumber vaddr) ∉ entriesOf mem cr3 n

end Exact

section Proofs

variable {wild mem mem' : ℕ → ℕ → ℕ} {cr3 vaddr n : ℕ}

/-! ### Pointers -/

theorem virtToPhysPm_rebase (e : ℕ) : virtToPhysPm (physToVirtPm (ptRebase e)) = ptRebase e :=
  directMap.phys_ptr _ (lt_trans (ptRebase_lt e) (by decide))

/-- A pointer to a page is no sentinel. -/
theorem physToVirtPm_ne_sentinel (e : ℕ) : physToVirtPm (ptRebase e) ≠ kptNotPresent := by
  have hdvd := ptRebase_dvd e
  unfold physToVirtPm Word.add kernelPhmap kptNotPresent
  omega

theorem linkTable_rebase (mem : ℕ → ℕ → ℕ) (cr3 n k : ℕ) : ∃ e, linkTable mem cr3 n k = ptRebase e := by
  cases k with
  | zero => exact ⟨cr3, rfl⟩
  | succ k => exact ⟨_, rfl⟩

theorem virtToPhysPm_linkTable (n k : ℕ) :
    virtToPhysPm (physToVirtPm (linkTable mem cr3 n k)) = linkTable mem cr3 n k := by
  obtain ⟨e, he⟩ := linkTable_rebase mem cr3 n k
  rw [he, virtToPhysPm_rebase]

/-- An entry behind a pointer to a table. -/
theorem entryOf_linkTable {k : ℕ} (h : physToVirtPm (linkTable mem cr3 n k) ≠ nullptr) (i : ℕ) :
    entryOf wild mem (physToVirtPm (linkTable mem cr3 n k)) i = mem (linkTable mem cr3 n k) i := by
  have hsentinel : physToVirtPm (linkTable mem cr3 n k) ≠ kptNotPresent := by
    obtain ⟨e, he⟩ := linkTable_rebase mem cr3 n k
    rw [he]
    exact physToVirtPm_ne_sentinel e
  rw [entryOf, if_neg (not_or.2 ⟨h, hsentinel⟩), virtToPhysPm_linkTable]

/-- Rounding an address down does not change its page. -/
theorem pageNumber_pageAlignDown (h : vaddr < 2 ^ 64) : pageNumber (pageAlignDown vaddr) = pageNumber vaddr := by
  rw [pageAlignDown_eq h, pageNumber, pageNumber]
  omega

/-! ### The walk of the code -/

/-- The next table, behind an entry that leads to one. -/
theorem tableBehind_eq {k : ℕ} (hk : k ≤ 3) {v : ℕ} (hv : pageNumber v = n)
    (hptr : physToVirtPm (linkTable mem cr3 n k) ≠ nullptr)
    (hpresent : mem (linkTable mem cr3 n k) (format.index (3 - k) n) &&& ptFlagPresent ≠ 0)
    (htable : mem (linkTable mem cr3 n k) (format.index (3 - k) n) &&& ptFlagPagesize = 0) :
    tableBehind wild mem (4 - k) v (physToVirtPm (linkTable mem cr3 n k)) =
      physToVirtPm (linkTable mem cr3 n (k + 1)) := by
  have hidx : pageIdx (4 - k) v = format.index (3 - k) n := by
    rw [← hv, ← pageIdx_eq (Nat.sub_le 3 k)]
    congr 1
    omega
  simp only [tableBehind, hidx, entryOf_linkTable hptr]
  rw [if_neg hpresent, if_neg (not_not.2 htable), linkTable]

/-- **The entry that is cleared.** -/
theorem kptUnmapPage_eq (h0 : vaddr ≠ nullptr) (hvaddr : vaddr < 2 ^ 64)
    (h : Linked mem cr3 (pageNumber vaddr)) :
    kptUnmapPage wild mem cr3 vaddr = some (set mem (lastEntry mem cr3 (pageNumber vaddr)).1
      (lastEntry mem cr3 (pageNumber vaddr)).2 (mem (lastEntry mem cr3 (pageNumber vaddr)).1
        (lastEntry mem cr3 (pageNumber vaddr)).2 &&& Word.not ptFlagPresent)) := by
  have hv := pageNumber_pageAlignDown hvaddr
  have hl3 : kptGetL3 wild mem cr3 (pageAlignDown vaddr) nullptr =
      physToVirtPm (linkTable mem cr3 (pageNumber vaddr) 1) := by
    have hroot : kptGetL4 cr3 = physToVirtPm (linkTable mem cr3 (pageNumber vaddr) 0) := rfl
    rw [kptGetL3, if_neg (not_not.2 rfl), hroot, entryOf_linkTable (h.ptr 0 (by decide)), pageL4Idx,
      pageIdx_eq le_rfl, hv]
    rfl
  have hl1 : kptGetL1 wild mem cr3 (pageAlignDown vaddr) nullptr =
      physToVirtPm (linkTable mem cr3 (pageNumber vaddr) 3) := by
    rw [kptGetL1, if_neg (not_not.2 rfl), kptGetL2, if_neg (not_not.2 rfl), hl3]
    rw [tableBehind_eq (k := 1) (by decide) hv (h.ptr 1 (by decide)) (h.present 1 (Or.inl rfl))
      (h.table 1 (Or.inl rfl))]
    exact tableBehind_eq (k := 2) (by decide) hv (h.ptr 2 (by decide)) (h.present 2 (Or.inr rfl))
      (h.table 2 (Or.inr rfl))
  have hsentinel : physToVirtPm (linkTable mem cr3 (pageNumber vaddr) 3) ≠ kptNotPresent :=
    physToVirtPm_ne_sentinel _
  have hidx : pageL1Idx (pageAlignDown vaddr) = format.index 0 (pageNumber vaddr) := by
    rw [pageL1Idx, pageIdx_eq (Nat.zero_le 3), hv]
  simp only [kptUnmapPage, if_neg h0, hl1, if_neg (not_or.2 ⟨h.ptr 3 le_rfl, hsentinel⟩),
    virtToPhysPm_linkTable, hidx, lastEntry]

/-- What the pointers of no table may lead to: an entry that is not present, with the address of the null
pointer. -/
def noTable (_ _ : ℕ) : ℕ := 2 ^ 47

/-- A table that is returned is behind a pointer to a table. -/
theorem tableBehind_inv {ℓ v p : ℕ} (hnull : tableBehind noTable mem ℓ v p ≠ nullptr)
    (hsentinel : tableBehind noTable mem ℓ v p ≠ kptNotPresent) :
    (p ≠ nullptr ∧ p ≠ kptNotPresent) ∧ mem (virtToPhysPm p) (pageIdx ℓ v) &&& ptFlagPresent ≠ 0 ∧
      mem (virtToPhysPm p) (pageIdx ℓ v) &&& ptFlagPagesize = 0 := by
  have hptr : ¬ (p = nullptr ∨ p = kptNotPresent) := by
    intro hp
    have hentry : entryOf noTable mem p (pageIdx ℓ v) = 2 ^ 47 := if_pos hp
    refine hsentinel ?_
    rw [tableBehind]
    simp only [hentry]
    exact if_pos (by decide)
  have hentry : entryOf noTable mem p (pageIdx ℓ v) = mem (virtToPhysPm p) (pageIdx ℓ v) := if_neg hptr
  rw [tableBehind] at hnull hsentinel
  simp only [hentry] at hnull hsentinel
  refine ⟨not_or.1 hptr, fun habsent => hsentinel (if_pos habsent), ?_⟩
  by_contra hlarge
  by_cases hpresent : mem (virtToPhysPm p) (pageIdx ℓ v) &&& ptFlagPresent = 0
  · exact hsentinel (if_pos hpresent)
  · rw [if_neg hpresent, if_pos hlarge] at hnull
    exact hnull rfl

/-- **When there is an entry** to clear, whatever is behind the pointers of no table. -/
theorem linked_of_unmap (h0 : vaddr ≠ nullptr) (hvaddr : vaddr < 2 ^ 64)
    (h : kptUnmapPage noTable mem cr3 vaddr = some mem') : Linked mem cr3 (pageNumber vaddr) := by
  have hv := pageNumber_pageAlignDown hvaddr
  have hsome : ¬ (kptGetL1 noTable mem cr3 (pageAlignDown vaddr) nullptr = nullptr ∨
      kptGetL1 noTable mem cr3 (pageAlignDown vaddr) nullptr = kptNotPresent) := by
    intro hnone
    rw [kptUnmapPage, if_neg h0] at h
    simp only [if_pos hnone] at h
    cases h
  have hl1 : kptGetL1 noTable mem cr3 (pageAlignDown vaddr) nullptr =
      tableBehind noTable mem 2 (pageAlignDown vaddr) (kptGetL2 noTable mem cr3 (pageAlignDown vaddr) nullptr) :=
    if_neg (not_not.2 rfl)
  have hl2 : kptGetL2 noTable mem cr3 (pageAlignDown vaddr) nullptr =
      tableBehind noTable mem 3 (pageAlignDown vaddr) (kptGetL3 noTable mem cr3 (pageAlignDown vaddr) nullptr) :=
    if_neg (not_not.2 rfl)
  have hl3 : kptGetL3 noTable mem cr3 (pageAlignDown vaddr) nullptr =
      physToVirtPm (ptRebase (entryOf noTable mem (kptGetL4 cr3) (pageL4Idx (pageAlignDown vaddr)))) :=
    if_neg (not_not.2 rfl)
  obtain ⟨hnull₁, hsentinel₁⟩ := not_or.1 hsome
  rw [hl1] at hnull₁ hsentinel₁
  obtain ⟨⟨hnull₂, hsentinel₂⟩, hpresent₂, htable₂⟩ := tableBehind_inv hnull₁ hsentinel₁
  rw [hl2] at hnull₂ hsentinel₂
  obtain ⟨⟨hnull₃, -⟩, hpresent₁, htable₁⟩ := tableBehind_inv hnull₂ hsentinel₂
  -- the table of the third level is behind the null pointer when the top table is
  have hptr₀ : physToVirtPm (linkTable mem cr3 (pageNumber vaddr) 0) ≠ nullptr := by
    intro hroot
    refine hnull₃ ?_
    have hentry : entryOf noTable mem (kptGetL4 cr3) (pageL4Idx (pageAlignDown vaddr)) = 2 ^ 47 :=
      if_pos (Or.inl hroot)
    rw [hl3, hentry]
    decide
  have heq₁ : kptGetL3 noTable mem cr3 (pageAlignDown vaddr) nullptr =
      physToVirtPm (linkTable mem cr3 (pageNumber vaddr) 1) := by
    have hroot : kptGetL4 cr3 = physToVirtPm (linkTable mem cr3 (pageNumber vaddr) 0) := rfl
    rw [hl3, hroot, entryOf_linkTable hptr₀, pageL4Idx, pageIdx_eq le_rfl, hv]
    rfl
  rw [heq₁] at hnull₃
  rw [heq₁, virtToPhysPm_linkTable, pageIdx_eq (by decide : 2 ≤ 3), hv] at hpresent₁ htable₁
  have heq₂ : kptGetL2 noTable mem cr3 (pageAlignDown vaddr) nullptr =
      physToVirtPm (linkTable mem cr3 (pageNumber vaddr) 2) := by
    rw [hl2, heq₁]
    exact tableBehind_eq (k := 1) (by decide) hv hnull₃ hpresent₁ htable₁
  rw [← hl2, heq₂] at hnull₂
  rw [heq₂, virtToPhysPm_linkTable, pageIdx_eq (by decide : 1 ≤ 3), hv] at hpresent₂ htable₂
  rw [heq₂, tableBehind_eq (k := 2) (by decide) hv hnull₂ hpresent₂ htable₂] at hnull₁
  refine ⟨fun k hk => ?_, ?_, ?_⟩
  · obtain rfl | rfl | rfl | rfl : k = 0 ∨ k = 1 ∨ k = 2 ∨ k = 3 := by omega
    · exact hptr₀
    · exact hnull₃
    · exact hnull₂
    · exact hnull₁
  · rintro k (rfl | rfl)
    · exact hpresent₁
    · exact hpresent₂
  · rintro k (rfl | rfl)
    · exact htable₁
    · exact htable₂

/-! ### What is found behind it -/

/-- An entry without its present bit is absent. -/
theorem decode_clear (ℓ e : ℕ) : format.decode ℓ (e &&& Word.not ptFlagPresent) = Node.absent := by
  have hzero : e &&& Word.not ptFlagPresent &&& ptFlagPresent = 0 := by
    have hnot : Word.not ptFlagPresent &&& ptFlagPresent = 0 := by decide
    rw [Nat.and_assoc, hnot, Nat.and_zero]
  exact if_pos hzero

/-- The translation of an address, in any memory. -/
theorem kptGetPhys_pageOf (mem : ℕ → ℕ → ℕ) (cr3 v : ℕ) :
    kptGetPhys mem cr3 v = physOf v (pageOf mem cr3 (pageNumber v)) := by
  have hroot : ptRebase (ptRebase cr3) = ptRebase cr3 := ptRebase_eq (ptRebase_dvd cr3) (ptRebase_lt cr3)
  have h := kptGetPhys_eq mem hroot v
  rw [pageOf, ← h, kptGetPhys, kptGetPhys, hroot]

/-- What is found is an address. -/
theorem physOf_some_ne (v : ℕ) (x : ℕ × ℕ) (hx : x.1 ≤ 2) : physOf v (some x) ≠ kpageErr := by
  obtain ⟨ℓ, e⟩ := x
  have hmask : ∀ a b, bitrangeMask a b = 2 ^ (a - b + 1) - 1 := fun a b => by rw [bitrangeMask, Nat.one_shiftLeft]
  have hℓ : ℓ ≤ 2 := hx
  have hbase : pagePhysRebase e (12 + 9 * ℓ) (bitrangeMask 51 (12 + 9 * ℓ)) < 2 ^ 52 := by
    rw [pagePhysRebase, hmask, Nat.and_two_pow_sub_one_eq_mod, Nat.shiftLeft_eq]
    calc _ < 2 ^ (51 - (12 + 9 * ℓ) + 1) * 2 ^ (12 + 9 * ℓ) :=
          Nat.mul_lt_mul_of_pos_right (Nat.mod_lt _ (Nat.two_pow_pos _)) (Nat.two_pow_pos _)
      _ = 2 ^ 52 := by
          rw [← Nat.pow_add]
          congr 1
          omega
  have hoffset : v &&& bitrangeMask (11 + 9 * ℓ) 0 < 2 ^ 52 := by
    rw [hmask, Nat.and_two_pow_sub_one_eq_mod]
    exact lt_of_lt_of_le (Nat.mod_lt _ (Nat.two_pow_pos _)) (Nat.pow_le_pow_right (by decide) (by omega))
  exact ne_of_lt (lt_trans (Nat.or_lt_two_pow hbase hoffset) (by decide))

/-- An entry that leads on. -/
theorem lookup_table {ℓ t t' : ℕ} (h : decode ℓ (mem t (format.index ℓ n)) = Node.table t') :
    format.lookup mem (ℓ + 1) t n = format.lookup mem ℓ t' n ∧
      format.reads mem (ℓ + 1) t n = (t, format.index ℓ n) :: format.reads mem ℓ t' n := by
  have hnode : format.decode ℓ (mem t (format.index ℓ n)) = Node.table t' := h
  exact ⟨by rw [lookup, hnode], by rw [reads, hnode]⟩

/-- **What a linked page leads to**: the last entry, if the first and the last one are present. -/
theorem pageOf_linked (h : Linked mem cr3 n) :
    pageOf mem cr3 n = none ∨
      (∃ e, pageOf mem cr3 n = some (0, e)) ∧
        (entriesOf mem cr3 n).getLast? = some (lastEntry mem cr3 n) ∧
        lastEntry mem cr3 n ∈ entriesOf mem cr3 n := by
  by_cases habsent : mem (ptRebase cr3) (format.index 3 n) &&& ptFlagPresent = 0
  · refine Or.inl ?_
    rw [pageOf, lookup_succ, if_pos habsent]
  have hone : decode 3 (mem (ptRebase cr3) (format.index 3 n)) = Node.table (linkTable mem cr3 n 1) := by
    rw [decode, if_neg habsent, if_neg (by simp)]
    rfl
  have htwo : decode 2 (mem (linkTable mem cr3 n 1) (format.index 2 n)) = Node.table (linkTable mem cr3 n 2) := by
    have hlarge : ¬ (2 = 0 ∨ 2 ≤ 2 ∧ mem (linkTable mem cr3 n 1) (format.index 2 n) &&& ptFlagPagesize ≠ 0) := by
      simp [h.table 1 (Or.inl rfl)]
    rw [decode, if_neg (h.present 1 (Or.inl rfl)), if_neg hlarge]
    rfl
  have hthree : decode 1 (mem (linkTable mem cr3 n 2) (format.index 1 n)) = Node.table (linkTable mem cr3 n 3) := by
    have hlarge : ¬ (1 = 0 ∨ 1 ≤ 2 ∧ mem (linkTable mem cr3 n 2) (format.index 1 n) &&& ptFlagPagesize ≠ 0) := by
      simp [h.table 2 (Or.inr rfl)]
    rw [decode, if_neg (h.present 2 (Or.inr rfl)), if_neg hlarge]
    rfl
  obtain ⟨hlook₁, hread₁⟩ := lookup_table hone
  obtain ⟨hlook₂, hread₂⟩ := lookup_table htwo
  obtain ⟨hlook₃, hread₃⟩ := lookup_table hthree
  have hlook : pageOf mem cr3 n = format.lookup mem 1 (linkTable mem cr3 n 3) n := by
    rw [pageOf, hlook₁, hlook₂, hlook₃]
  by_cases hlast : mem (linkTable mem cr3 n 3) (format.index 0 n) &&& ptFlagPresent = 0
  · refine Or.inl ?_
    rw [hlook, lookup_succ, if_pos hlast]
  · refine Or.inr ⟨⟨_, by rw [hlook, lookup_succ, if_neg hlast, if_pos (Or.inl rfl)]⟩, ?_⟩
    have hleaf : format.decode 0 (mem (linkTable mem cr3 n 3) (format.index 0 n)) =
        Node.leaf (0, mem (linkTable mem cr3 n 3) (format.index 0 n)) := by
      change decode 0 _ = _
      rw [decode, if_neg hlast, if_pos (Or.inl rfl)]
    have hreads : entriesOf mem cr3 n = [(ptRebase cr3, format.index 3 n), (linkTable mem cr3 n 1, format.index 2 n),
        (linkTable mem cr3 n 2, format.index 1 n), lastEntry mem cr3 n] := by
      rw [entriesOf, hread₁, hread₂, hread₃, reads, hleaf]
      rfl
    rw [hreads]
    exact ⟨rfl, by simp⟩

/-- The memory behind unmapping. -/
def unmapped (mem : ℕ → ℕ → ℕ) (cr3 n : ℕ) : ℕ → ℕ → ℕ :=
  set mem (lastEntry mem cr3 n).1 (lastEntry mem cr3 n).2
    (mem (lastEntry mem cr3 n).1 (lastEntry mem cr3 n).2 &&& Word.not ptFlagPresent)

/-- Another page, through which no translation goes. -/
theorem pageOf_unmapped_of_ne (h : Unmappable mem cr3 vaddr) {n : ℕ} (hn : n < 2 ^ 36)
    (hne : n ≠ pageNumber vaddr) :
    pageOf (unmapped mem cr3 (pageNumber vaddr)) cr3 n = pageOf mem cr3 n := by
  by_cases hfound : pageOf mem cr3 n = none
  · rw [hfound]
    exact lookup_set_none (fun ℓ => decode_clear ℓ _) hfound
  · exact lookup_set_of_notMem _ (h.alone n hn hne hfound)

/-! ### Sound tables -/

/-- A table below the end of the direct map is behind a pointer that is not null. -/
theorem physToVirtPm_ne_null {t : ℕ} (h : t < 2 ^ 47) : physToVirtPm t ≠ nullptr := by
  rw [physToVirtPm_eq h, kernelPhmap, nullptr]
  omega

/-- The tables that the code comes to are reached, as long as the entries lead to tables. -/
theorem at_linkTable {root k : ℕ} {s : Tables} (hroot : ptRebase root = root) (hk : k ≤ 3)
    (h : ∀ j < k, decode (3 - j) (s.mem (linkTable s.mem root n j) (format.index (3 - j) n)) =
      Node.table (linkTable s.mem root n (j + 1))) :
    ∃ a, At root s (3 - k) (linkTable s.mem root n k) a := by
  induction k with
  | zero => exact ⟨0, by rw [linkTable, hroot]; exact Reach.root⟩
  | succ k ih =>
      obtain ⟨a, hat⟩ := ih (by omega) fun j hj => h j (by omega)
      have hstep : 3 - k = 3 - (k + 1) + 1 := by omega
      have hnode := h k (Nat.lt_succ_self k)
      rw [hstep] at hat hnode
      exact ⟨_, Reach.step hat (index_lt _ _) hnode⟩

/-- Above the last level, the entry for a page leads to a table. -/
theorem lookup_page_step {ℓ t e : ℕ} (h : format.lookup mem (ℓ + 2) t n = some (0, e)) :
    decode (ℓ + 1) (mem t (format.index (ℓ + 1) n)) = Node.table (ptRebase (mem t (format.index (ℓ + 1) n))) ∧
      format.lookup mem (ℓ + 1) (ptRebase (mem t (format.index (ℓ + 1) n))) n = some (0, e) := by
  rw [lookup_succ] at h
  split_ifs at h with hpresent hleaf
  · exact absurd (Prod.mk.inj (Option.some_inj.1 h)).1 (Nat.succ_ne_zero ℓ)
  · exact ⟨by rw [decode, if_neg hpresent, if_neg (by simpa using hleaf)], h⟩

/-- An entry that leads to a table is present and no large page. -/
theorem decode_table_inv {ℓ e t : ℕ} (hℓ : ℓ ≤ 2) (h : decode ℓ e = Node.table t) :
    e &&& ptFlagPresent ≠ 0 ∧ e &&& ptFlagPagesize = 0 := by
  unfold decode at h
  split_ifs at h with hpresent hleaf
  obtain ⟨-, hlarge⟩ := not_or.1 hleaf
  exact ⟨hpresent, by simpa [hℓ] using hlarge⟩

/-- **Sound tables** in the direct map: a page that is mapped by a last-level entry can be unmapped. -/
theorem Sound.unmappable {root e : ℕ} {s : Tables} (hs : Sound root s) (hroot : ptRebase root = root)
    (hlow : ∀ ℓ t a, At root s ℓ t a → t < 2 ^ 47)
    (hfound : find root s (pageNumber vaddr) = some (0, e)) : Unmappable s.mem root vaddr := by
  have hstart : linkTable s.mem root (pageNumber vaddr) 0 = root := hroot
  have hpage : pageOf s.mem root (pageNumber vaddr) = some (0, e) := by
    rw [pageOf, hroot]
    exact hfound
  rw [find, ← hstart] at hfound
  obtain ⟨hnode₀, hfound⟩ := lookup_page_step hfound
  obtain ⟨hnode₁, hfound⟩ := lookup_page_step hfound
  obtain ⟨hnode₂, -⟩ := lookup_page_step hfound
  have hnodes : ∀ j < 3, decode (3 - j) (s.mem (linkTable s.mem root (pageNumber vaddr) j)
      (format.index (3 - j) (pageNumber vaddr))) =
        Node.table (linkTable s.mem root (pageNumber vaddr) (j + 1)) := by
    intro j hj
    obtain rfl | rfl | rfl : j = 0 ∨ j = 1 ∨ j = 2 := by omega
    · exact hnode₀
    · exact hnode₁
    · exact hnode₂
  have hat : ∀ k ≤ 3, ∃ a, At root s (3 - k) (linkTable s.mem root (pageNumber vaddr) k) a := fun k hk =>
    at_linkTable hroot hk fun j hj => hnodes j (by omega)
  have hlinked : Linked s.mem root (pageNumber vaddr) := by
    refine ⟨fun k hk => ?_, ?_, ?_⟩
    · obtain ⟨a, ha⟩ := hat k hk
      exact physToVirtPm_ne_null (hlow _ _ a ha)
    · rintro k (rfl | rfl)
      · exact (decode_table_inv le_rfl (hnodes 1 (by decide))).1
      · exact (decode_table_inv (by decide) (hnodes 2 (by decide))).1
    · rintro k (rfl | rfl)
      · exact (decode_table_inv le_rfl (hnodes 1 (by decide))).2
      · exact (decode_table_inv (by decide) (hnodes 2 (by decide))).2
  refine ⟨hlinked, fun n hn hne _ hmem => hne ?_⟩
  -- the register has one number for the last table
  obtain ⟨reg, hT, -⟩ := hs
  obtain ⟨a, ha⟩ := hat 3 le_rfl
  have hreg := ha.registered hT
  have hlast : ∀ m < 2 ^ 36, lastEntry s.mem root (pageNumber vaddr) ∈ entriesOf s.mem root m →
      m = a * 512 + format.index 0 (pageNumber vaddr) := by
    intro m hm hread
    rw [entriesOf, hroot] at hread
    obtain ⟨ℓ, hreg', hidx⟩ := hT.registered_of_reads hm hread
    obtain ⟨hℓ, hdiv⟩ := Prod.mk.inj (Option.some_inj.1 (hreg'.symm.trans hreg))
    obtain rfl : ℓ = 0 := by omega
    have hdigits : m / 512 ^ 0 = m / 512 ^ 1 * 512 + format.index 0 m := div_pow_eq (F := format) 0 m
    have hdiv' : m / 512 ^ 1 = a := hdiv
    rwa [Nat.pow_zero, Nat.div_one, hdiv', hidx] at hdigits
  have hself : lastEntry s.mem root (pageNumber vaddr) ∈ entriesOf s.mem root (pageNumber vaddr) :=
    ((pageOf_linked hlinked).resolve_left fun hnone => by cases hnone.symm.trans hpage).2.2
  exact (hlast n hn hmem).trans (hlast _ (pageNumber_lt vaddr) hself).symm

end Proofs

/-- **When unmapping is exact.** -/
theorem unmapExact_iff (mem : ℕ → ℕ → ℕ) (cr3 vaddr : ℕ) (h0 : vaddr ≠ 0) (hvaddr : vaddr < 2 ^ 64) :
    UnmapExact mem cr3 vaddr ↔ Unmappable mem cr3 vaddr := by
  constructor
  · intro h
    obtain ⟨mem', hrun, hpage, hother⟩ := h noTable
    have hlinked := linked_of_unmap h0 hvaddr hrun
    rw [kptUnmapPage_eq h0 hvaddr hlinked, Option.some_inj] at hrun
    refine ⟨hlinked, fun n hn hne hfound hmem => ?_⟩
    have hlost : pageOf mem' cr3 n = none := by
      rw [← hrun]
      exact lookup_set_absent (fun ℓ => decode_clear ℓ _) hmem
    have hnum : pageNumber (n * 4096) = n := by
      rw [pageNumber]
      omega
    have hsame : kptGetPhys mem' cr3 (n * 4096) = kptGetPhys mem cr3 (n * 4096) := by
      by_cases hmapped : ∃ e, pageOf mem cr3 (pageNumber vaddr) = some (0, e)
      · rw [(hpage hmapped).2, if_neg (by rwa [hnum])]
      · exact hother hmapped _
    rw [kptGetPhys_pageOf, kptGetPhys_pageOf, hnum, hlost] at hsame
    obtain ⟨x, hx⟩ := Option.ne_none_iff_exists'.1 hfound
    rw [hx] at hsame
    exact physOf_some_ne _ x (find_level (s := ⟨mem, []⟩) hx) hsame.symm
  · intro h wild
    refine ⟨unmapped mem cr3 (pageNumber vaddr), kptUnmapPage_eq h0 hvaddr h.linked, ?_, ?_⟩
    · rintro ⟨e, he⟩
      obtain hnone | ⟨-, hlast, hmem⟩ := pageOf_linked h.linked
      · cases hnone.symm.trans he
      refine ⟨⟨_, _, hlast, rfl⟩, fun w => ?_⟩
      rw [kptGetPhys_pageOf, kptGetPhys_pageOf]
      split
      · next hw =>
          have hlost : pageOf (unmapped mem cr3 (pageNumber vaddr)) cr3 (pageNumber vaddr) = none :=
            lookup_set_absent (fun ℓ => decode_clear ℓ _) hmem
          rw [hw, hlost]
          rfl
      · next hw => rw [pageOf_unmapped_of_ne h (pageNumber_lt w) hw]
    · intro hnot w
      have hnone := (pageOf_linked h.linked).resolve_right fun hfound => hnot hfound.1
      rw [kptGetPhys_pageOf, kptGetPhys_pageOf]
      by_cases hw : pageNumber w = pageNumber vaddr
      · have hlost : pageOf (unmapped mem cr3 (pageNumber vaddr)) cr3 (pageNumber vaddr) = none :=
          lookup_set_none (fun ℓ => decode_clear ℓ _) hnone
        rw [hw, hnone, hlost]
      · rw [pageOf_unmapped_of_ne h (pageNumber_lt w) hw]

/-- Tables with a single page, the first one of the virtual memory area. -/
def onePage (t i : ℕ) : ℕ :=
  if t = 0x1000 ∧ i = 384 then 0x2003
  else if t = 0x2000 ∧ i = 0 then 0x3003
  else if t = 0x3000 ∧ i = 0 then 0x4003
  else if t = 0x4000 ∧ i = 0 then 0x5003
  else 0

/-- The only entry of a table that is not blank leads to the next table. -/
theorem onePage_reads {ℓ t i t' n : ℕ} (hnode : format.decode ℓ (onePage t i) = Node.table t')
    (hblank : ∀ j, j ≠ i → onePage t j = 0) (ht : t ≠ 0x4000)
    (hmem : (0x4000, 0) ∈ format.reads onePage (ℓ + 1) t n) :
    format.index ℓ n = i ∧ (0x4000, 0) ∈ format.reads onePage ℓ t' n := by
  rw [reads, List.mem_cons] at hmem
  rcases hmem with heq | hmem
  · exact absurd (Prod.mk.inj heq).1.symm ht
  · by_cases hi : format.index ℓ n = i
    · rw [hi, hnode] at hmem
      exact ⟨hi, hmem⟩
    · rw [hblank _ hi, decode_zero] at hmem
      exact absurd hmem List.not_mem_nil

theorem onePage_unmappable : Unmappable onePage 0x1000 kernelVmmap := by
  refine ⟨⟨by decide, ?_, ?_⟩, fun n hn hne _ hmem => hne ?_⟩
  · rintro k (rfl | rfl)
    · decide
    · decide
  · rintro k (rfl | rfl)
    · decide
    · decide
  · have hlast : lastEntry onePage 0x1000 (pageNumber kernelVmmap) = (0x4000, 0) := by decide
    have hroot : ptRebase 0x1000 = 0x1000 := by decide
    rw [hlast, entriesOf, hroot] at hmem
    obtain ⟨h₃, hmem⟩ := onePage_reads (i := 384) (show format.decode 3 0x2003 = Node.table 0x2000 from rfl)
      (fun j hj => by simp [onePage, hj]) (by decide) hmem
    obtain ⟨h₂, hmem⟩ := onePage_reads (i := 0) (show format.decode 2 0x3003 = Node.table 0x3000 from rfl)
      (fun j hj => by simp [onePage, hj]) (by decide) hmem
    obtain ⟨h₁, hmem⟩ := onePage_reads (i := 0) (show format.decode 1 0x4003 = Node.table 0x4000 from rfl)
      (fun j hj => by simp [onePage, hj]) (by decide) hmem
    have h₀ : format.index 0 n = 0 := by
      rw [reads, List.mem_cons] at hmem
      rcases hmem with heq | hmem
      · exact (Prod.mk.inj heq).2.symm
      · split at hmem
        · exact absurd hmem List.not_mem_nil
        · exact absurd hmem List.not_mem_nil
    have hnumber : pageNumber kernelVmmap = 384 * 512 ^ 3 := by decide
    have hfan : format.fan = 512 := rfl
    rw [index, hfan] at h₀ h₁ h₂ h₃
    omega

/-- The page is unmapped, and nothing else. -/
theorem unmapExact_vmmap : UnmapExact onePage 0x1000 kernelVmmap :=
  (unmapExact_iff onePage 0x1000 kernelVmmap (by decide) (by decide)).2 onePage_unmappable

/-- **Blank tables**: the present bit is cleared through `KPT_NOT_PRESENT`. -/
theorem unmapExact_blank : ¬ UnmapExact (fun _ _ => 0) 0 kernelVmmap := by
  intro h
  obtain ⟨mem', hrun, -⟩ := h fun _ _ => 0
  have hnone : kptUnmapPage (fun _ _ => 0) (fun _ _ => 0) 0 kernelVmmap = none := rfl
  cases hnone.symm.trans hrun

end Pagetbl

end SyncKernel
