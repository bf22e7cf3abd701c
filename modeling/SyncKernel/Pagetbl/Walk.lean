/-
**Walking the page tables.**

The page tables are tables of tables for the number of a page, with four digits: an entry is absent,
or a leaf (each entry of the last table, and those for large pages), or leads to the next table.
`kpt_get_phys` looks the number of the page up, and puts the offset behind the address it finds.

An entry is an address with flags in the bits that no address has; it reads back as what it was made
of.

Main definitions:

* `Pagetbl.decode`, `Pagetbl.format` — how an entry is read;
* `Pagetbl.pageNumber` — the digits of an address;
* `Pagetbl.IsFlags` — the flags of an entry;
* `Pagetbl.Sound` — tables that agree with a register, and frames that are in no table.

Main results:

* `Pagetbl.kptGetPhys_eq` — the translation is what a lookup finds;
* `Pagetbl.Sound.canWrite_eq` — so is the right to write;
* `Pagetbl.tableFor_spec` — the table for an entry, which changes no lookup;
* `Pagetbl.set_leaf_spec` — what a leaf changes.
-/

import SyncKernel.Pagetbl.Basic

set_option relaxedAutoImplicit false
set_option autoImplicit false

namespace SyncKernel

namespace Pagetbl

open Radix Radix.Format

/-! ### Entries -/

/-- No bit of an address: the flags of an entry are in its low bits, and above the addresses. -/
def IsFlags (flags : ℕ) : Prop := ∀ j, 12 ≤ j → j < 52 → flags.testBit j = false

section Entries

variable {base flags s : ℕ}

/-- `page_phys_rebase` takes the address out of an entry. -/
theorem pagePhysRebase_or (hs : 12 ≤ s) (hs' : s < 52) (hdvd : 2 ^ s ∣ base) (hflags : IsFlags flags) :
    pagePhysRebase (base ||| flags) s (bitrangeMask 51 s) = base % 2 ^ 52 := by
  obtain ⟨k, rfl⟩ := hdvd
  have hmask : bitrangeMask 51 s = 2 ^ (52 - s) - 1 := by
    rw [bitrangeMask, Nat.one_shiftLeft]
    congr 2
    omega
  rw [hmask]
  refine Nat.eq_of_testBit_eq fun j => ?_
  rw [pagePhysRebase, Nat.testBit_shiftLeft, Nat.testBit_and, Nat.testBit_shiftRight, Nat.testBit_or,
    Nat.testBit_two_pow_sub_one, Nat.testBit_mod_two_pow]
  by_cases hj : s ≤ j
  · have hadd : s + (j - s) = j := by omega
    rw [hadd]
    by_cases hj' : j < 52
    · have hlt : j - s < 52 - s := by omega
      simp [hj, hj', hlt, hflags j (by omega) hj']
    · have hge : ¬ j - s < 52 - s := by omega
      simp [hj', hge]
  · simp [hj, Nat.testBit_two_pow_mul]

theorem ptRebase_or (hdvd : 4096 ∣ base) (hbase : base < 2 ^ 52) (hflags : IsFlags flags) :
    ptRebase (base ||| flags) = base :=
  (pagePhysRebase_or le_rfl (by decide) hdvd hflags).trans (Nat.mod_eq_of_lt hbase)

theorem ptRebase_eq (hdvd : 4096 ∣ base) (hbase : base < 2 ^ 52) : ptRebase base = base := by
  have hflags : IsFlags 0 := fun j _ _ => Nat.zero_testBit j
  have h := ptRebase_or hdvd hbase hflags
  rwa [Nat.or_zero] at h

theorem ptRebase_lt (p : ℕ) : ptRebase p < 2 ^ 52 := by
  have hmask : bitrangeMask 51 12 = 2 ^ 40 - 1 := rfl
  rw [ptRebase, pagePhysRebase, hmask, Nat.and_two_pow_sub_one_eq_mod, Nat.shiftLeft_eq]
  omega

theorem ptRebase_dvd (p : ℕ) : 4096 ∣ ptRebase p := by
  rw [ptRebase, pagePhysRebase, Nat.shiftLeft_eq]
  exact Nat.dvd_mul_left _ _

/-- A low bit of an entry is one of its flags. -/
theorem and_low (hdvd : 4096 ∣ base) {k : ℕ} (hk : k < 12) :
    (base ||| flags) &&& 2 ^ k = flags &&& 2 ^ k := by
  obtain ⟨a, rfl⟩ := hdvd
  have hzero : 4096 * a &&& 2 ^ k = 0 := by
    refine Nat.eq_of_testBit_eq fun j => ?_
    rw [Nat.testBit_and, show 4096 = 2 ^ 12 from rfl, Nat.testBit_two_pow_mul, Nat.testBit_two_pow]
    by_cases hj : k = j
    · simp [show ¬ 12 ≤ j by omega]
    · simp [hj]
  rw [Nat.and_or_distrib_right, hzero, Nat.zero_or]

/-- The offset is put behind an address. -/
theorem or_offset (hdvd : 2 ^ s ∣ base) (v : ℕ) :
    base ||| (v &&& (2 ^ s - 1)) = base + v % 2 ^ s := by
  obtain ⟨k, rfl⟩ := hdvd
  rw [Nat.and_two_pow_sub_one_eq_mod, ← Nat.two_pow_add_eq_or_of_lt (Nat.mod_lt _ (Nat.two_pow_pos s))]

end Entries

/-! ### The walk -/

/-- How an entry is read, where `ℓ` digits are left behind it. -/
def decode (ℓ e : ℕ) : Node ℕ (ℕ × ℕ) :=
  if e &&& ptFlagPresent = 0 then Node.absent
  else if ℓ = 0 ∨ (ℓ ≤ 2 ∧ e &&& ptFlagPagesize ≠ 0) then Node.leaf (ℓ, e)
  else Node.table (ptRebase e)

/-- Page tables as tables of tables. -/
def format : Format ℕ ℕ (ℕ × ℕ) := ⟨ptEntries, by decide, decode⟩

/-- A leaf is read with its level. -/
theorem decode_eq_leaf {ℓ e : ℕ} {x : ℕ × ℕ} (h : decode ℓ e = Node.leaf x) : x = (ℓ, e) := by
  unfold decode at h
  split_ifs at h
  exact (Node.leaf.inj h).symm

/-- An entry of the top table is no leaf. -/
theorem decode_three (e : ℕ) (x : ℕ × ℕ) : decode 3 e ≠ Node.leaf x := by
  intro h
  have hleaf : ¬ (3 = 0 ∨ (3 ≤ 2 ∧ e &&& ptFlagPagesize ≠ 0)) := by simp
  rw [decode, if_neg hleaf] at h
  split_ifs at h

/-- A blank entry is absent. -/
theorem decode_zero (ℓ : ℕ) : format.decode ℓ 0 = Node.absent := by
  change decode ℓ 0 = _
  rw [decode, if_pos (Nat.zero_and _)]

/-- The number of the page of an address, without the bits that extend its sign. -/
def pageNumber (v : ℕ) : ℕ := v / 2 ^ 12 % 2 ^ 36

theorem pageNumber_lt (v : ℕ) : pageNumber v < format.fan ^ 4 := Nat.mod_lt _ (by decide)

/-- The indices of an address are the digits of its page. -/
theorem pageIdx_eq {ℓ : ℕ} (hℓ : ℓ ≤ 3) (v : ℕ) : pageIdx (ℓ + 1) v = format.index ℓ (pageNumber v) := by
  have hidx : pageIdx (ℓ + 1) v = v / 2 ^ (3 + 9 * (ℓ + 1)) % 2 ^ 9 := by
    rw [pageIdx, Nat.shiftRight_eq_div_pow, show 0x1FF = 2 ^ 9 - 1 from rfl,
      Nat.and_two_pow_sub_one_eq_mod]
  rw [hidx]
  change v / 2 ^ (3 + 9 * (ℓ + 1)) % 2 ^ 9 = v / 2 ^ 12 % 2 ^ 36 / 512 ^ ℓ % 512
  obtain rfl | rfl | rfl | rfl : ℓ = 0 ∨ ℓ = 1 ∨ ℓ = 2 ∨ ℓ = 3 := by omega
  all_goals omega

theorem pageIdx_lt (ℓ v : ℕ) : pageIdx ℓ v < 512 := by
  rw [pageIdx, show 0x1FF = 2 ^ 9 - 1 from rfl, Nat.and_two_pow_sub_one_eq_mod]
  exact Nat.mod_lt _ (by decide)

/-- The address behind what a lookup finds. -/
def physOf (v : ℕ) : Option (ℕ × ℕ) → ℕ
  | none => kpageErr
  | some (ℓ, e) =>
      pagePhysRebase e (12 + 9 * ℓ) (bitrangeMask 51 (12 + 9 * ℓ)) ||| (v &&& bitrangeMask (11 + 9 * ℓ) 0)

/-- One step of a lookup. -/
theorem lookup_succ (mem : ℕ → ℕ → ℕ) (ℓ t v : ℕ) :
    format.lookup mem (ℓ + 1) t v =
      if mem t (format.index ℓ v) &&& ptFlagPresent = 0 then none
      else if ℓ = 0 ∨ (ℓ ≤ 2 ∧ mem t (format.index ℓ v) &&& ptFlagPagesize ≠ 0) then
        some (ℓ, mem t (format.index ℓ v))
      else format.lookup mem ℓ (ptRebase (mem t (format.index ℓ v))) v := by
  have hdecode : format.decode ℓ = decode ℓ := rfl
  rw [lookup, hdecode, decode]
  by_cases hp : mem t (format.index ℓ v) &&& ptFlagPresent = 0
  · simp only [hp, if_true]
  · by_cases hl : ℓ = 0 ∨ (ℓ ≤ 2 ∧ mem t (format.index ℓ v) &&& ptFlagPagesize ≠ 0)
    · simp only [hp, hl, if_true, if_false]
    · simp only [hp, hl, if_false]

/-- The level of what is found. -/
theorem lookup_level {mem : ℕ → ℕ → ℕ} {ℓ t v : ℕ} {x : ℕ × ℕ} (h : format.lookup mem ℓ t v = some x) :
    x.1 < ℓ := by
  induction ℓ generalizing t with
  | zero => cases h
  | succ ℓ ih =>
      rw [lookup_succ] at h
      split_ifs at h
      · exact Option.some_inj.1 h ▸ Nat.lt_succ_self ℓ
      · exact Nat.lt_succ_of_lt (ih h)

/-- A leaf is found for all numbers that begin with its digits. -/
theorem lookup_congr {mem : ℕ → ℕ → ℕ} {ℓ t v v' : ℕ} {x : ℕ × ℕ} (h : format.lookup mem ℓ t v = some x)
    (hv : v' / 512 ^ x.1 = v / 512 ^ x.1) : format.lookup mem ℓ t v' = some x := by
  induction ℓ generalizing t with
  | zero => cases h
  | succ ℓ ih =>
      have hindex : format.index ℓ v' = format.index ℓ v := by
        obtain ⟨j, rfl⟩ := Nat.exists_eq_add_of_le (Nat.le_of_lt_succ (lookup_level h))
        change v' / 512 ^ (x.1 + j) % 512 = v / 512 ^ (x.1 + j) % 512
        rw [Nat.pow_add, ← Nat.div_div_eq_div_mul, ← Nat.div_div_eq_div_mul, hv]
      rw [lookup_succ] at h ⊢
      rw [hindex]
      split_ifs at h ⊢
      · exact h
      · exact ih h

/-- **The translation** is what a lookup finds. -/
theorem kptGetPhys_eq (mem : ℕ → ℕ → ℕ) {cr3 : ℕ} (hcr3 : ptRebase cr3 = cr3) (v : ℕ) :
    kptGetPhys mem cr3 v = physOf v (format.lookup mem 4 cr3 (pageNumber v)) := by
  have hptr : ∀ e, virtToPhysPm (physToVirtPm (ptRebase e)) = ptRebase e := fun e =>
    directMap.phys_ptr _ (lt_trans (ptRebase_lt e) (by decide))
  unfold kptGetPhys
  simp only [hptr, pageL4Idx, pageL3Idx, pageL2Idx, pageL1Idx, pageIdx_eq le_rfl,
    pageIdx_eq (show 2 ≤ 3 by decide), pageIdx_eq (show 1 ≤ 3 by decide), pageIdx_eq (show 0 ≤ 3 by decide)]
  rw [hcr3, lookup_succ, lookup_succ, lookup_succ, lookup_succ]
  generalize mem cr3 (format.index 3 (pageNumber v)) = e₃
  generalize mem (ptRebase e₃) (format.index 2 (pageNumber v)) = e₂
  generalize mem (ptRebase e₂) (format.index 1 (pageNumber v)) = e₁
  generalize mem (ptRebase e₁) (format.index 0 (pageNumber v)) = e₀
  by_cases h₃ : e₃ &&& ptFlagPresent = 0
  · simp [h₃, physOf]
  by_cases h₂ : e₂ &&& ptFlagPresent = 0
  · simp [h₃, h₂, physOf]
  by_cases l₂ : e₂ &&& ptFlagPagesize = 0
  · by_cases h₁ : e₁ &&& ptFlagPresent = 0
    · simp [h₃, h₂, l₂, h₁, physOf]
    by_cases l₁ : e₁ &&& ptFlagPagesize = 0
    · by_cases h₀ : e₀ &&& ptFlagPresent = 0
      · simp [h₃, h₂, l₂, h₁, l₁, h₀, physOf]
      · simp [h₃, h₂, l₂, h₁, l₁, h₀, physOf, ptRebase]
    · simp [h₃, h₂, l₂, h₁, l₁, physOf]
  · simp [h₃, h₂, l₂, physOf]

/-- Whether the processor lets a page be written: each entry of the walk has to allow it. -/
def canWrite (mem : ℕ → ℕ → ℕ) : ℕ → ℕ → ℕ → Bool
  | 0, _, _ => false
  | ℓ + 1, t, n =>
      let e := mem t (format.index ℓ n)
      decide (e &&& ptFlagWritable ≠ 0) &&
        match decode ℓ e with
        | Node.absent => false
        | Node.leaf _ => true
        | Node.table t' => canWrite mem ℓ t' n

/-- `canWrite` for an address, with the physical address of the top table in `cr3`. -/
def kptCanWrite (mem : ℕ → ℕ → ℕ) (cr3 vaddr : ℕ) : Bool :=
  canWrite mem 4 (ptRebase cr3) (pageNumber vaddr)

/-! ### Sound tables -/

/-- The links between registered tables can be written through. -/
def RwLinks (mem : ℕ → ℕ → ℕ) (reg : ℕ → Option (ℕ × ℕ)) : Prop :=
  ∀ {t ℓ a i t'}, reg t = some (ℓ + 1, a) → i < 512 → decode ℓ (mem t i) = Node.table t' →
    mem t i &&& ptFlagWritable ≠ 0

/-- The tables agree with a register, and the free frames are in no table. -/
def Sound (root : ℕ) (s : Tables) : Prop :=
  ∃ reg, format.Tree s.mem 4 root reg ∧ RwLinks s.mem reg ∧ (∀ t x, reg t = some x → t < 2 ^ 52) ∧
    s.free.Nodup ∧ ∀ f ∈ s.free, 4096 ∣ f ∧ f < 2 ^ 52 ∧ reg f = none

/-- What a lookup finds. -/
def find (root : ℕ) (s : Tables) (n : ℕ) : Option (ℕ × ℕ) := format.lookup s.mem 4 root n

/-- What is found is a page, a large page or a huge page. -/
theorem find_level {root n : ℕ} {s : Tables} {x : ℕ × ℕ} (h : find root s n = some x) : x.1 ≤ 2 := by
  have hleaf : ∀ e, ¬ (3 = 0 ∨ (3 ≤ 2 ∧ e &&& ptFlagPagesize ≠ 0)) := fun e => by simp
  rw [find, lookup_succ, if_neg (hleaf _)] at h
  split_ifs at h
  exact Nat.le_of_lt_succ (lookup_level h)

/-- The table at `t` is reached for the entries with `ℓ` digits behind them, by the digits of `a`. -/
def At (root : ℕ) (s : Tables) (ℓ t a : ℕ) : Prop := format.Reach s.mem 4 root (ℓ + 1) t a

/-- The second memory has further tables, and nothing else that is new. -/
structure Grown (root : ℕ) (s s' : Tables) : Prop where
  find_eq : ∀ n < 2 ^ 36, find root s' n = find root s n
  at_of : ∀ {ℓ t a}, At root s ℓ t a → At root s' ℓ t a

section Spec

variable {P : Pointers} {root : ℕ} {s s' s'' : Tables} {ℓ t a i : ℕ}

theorem Grown.refl (root : ℕ) (s : Tables) : Grown root s s := ⟨fun _ _ => rfl, fun h => h⟩

theorem At.lt (h : At root s ℓ t a) (hs : Sound root s) : t < 2 ^ 64 := by
  obtain ⟨reg, hT, -, hbound, -, -⟩ := hs
  exact lt_trans (hbound t _ (h.registered hT)) (by decide)

/-- A table lies on a page of its own when the top table does. -/
theorem At.aligned (h : At root s ℓ t a) (hroot : 4096 ∣ root) : 4096 ∣ t := by
  cases h with
  | root => exact hroot
  | step hat hi hnode =>
      have hdecode : decode (ℓ + 1) _ = Node.table t := hnode
      unfold decode at hdecode
      split_ifs at hdecode
      rw [← Node.table.inj hdecode]
      exact ptRebase_dvd _

theorem Sound.root_lt (hs : Sound root s) : root < 2 ^ 52 := by
  obtain ⟨reg, hT, -, hbound, -, -⟩ := hs
  exact hbound root _ hT.root

/-- Where a number is not found, no leaf is in its way. -/
theorem At.not_leaf (h : At root s ℓ t a) (hi : i < 512) {n : ℕ} (hn : n / 512 ^ ℓ = a * 512 + i)
    (hnone : find root s n = none) (x : ℕ × ℕ) : decode ℓ (s.mem t i) ≠ Node.leaf x := by
  intro hnode
  cases hnone.symm.trans (Reach.lookup_leaf h hi hnode hn)

/-- The flags of a link are those of an entry. -/
theorem isFlags_rw : IsFlags ptFlagsRw := fun j hj _ =>
  Nat.testBit_lt_two_pow (lt_of_lt_of_le (by decide) (Nat.pow_le_pow_right (by decide) hj))

/-- A link reads back as the table it leads to. -/
theorem decode_link {f : ℕ} (hℓ : 0 < ℓ) (hdvd : 4096 ∣ f) (hf : f < 2 ^ 52) :
    decode ℓ (f ||| ptFlagsRw) = Node.table f := by
  have hpresent : (f ||| ptFlagsRw) &&& ptFlagPresent ≠ 0 := by
    rw [show ptFlagPresent = 2 ^ 0 from rfl, and_low hdvd (by decide)]
    decide
  have hsize : (f ||| ptFlagsRw) &&& ptFlagPagesize = 0 := by
    rw [show ptFlagPagesize = 2 ^ 7 from rfl, and_low hdvd (by decide)]
    decide
  rw [decode, if_neg hpresent, if_neg (by simp [hsize]; omega), ptRebase_or hdvd hf isFlags_rw]

/-- A new table keeps the links open. -/
theorem RwLinks.extend {mem : ℕ → ℕ → ℕ} {reg : ℕ → Option (ℕ × ℕ)} {f : ℕ} {x : ℕ × ℕ}
    (h : RwLinks mem reg) (hdvd : 4096 ∣ f) :
    RwLinks (extend mem 0 f t i (f ||| ptFlagsRw)) (Function.update reg f (some x)) := by
  intro t₀ ℓ₀ a₀ i₀ t₁ hreg hi₀ hnode
  by_cases hslot : t₀ = t ∧ i₀ = i
  · obtain ⟨rfl, rfl⟩ := hslot
    rw [Format.extend, set_self, show ptFlagWritable = 2 ^ 1 from rfl, and_low hdvd (by decide)]
    decide
  · rw [Format.extend, set_of_ne _ (not_and_or.1 hslot)] at hnode ⊢
    by_cases heq : t₀ = f
    · rw [heq, clear_self] at hnode
      cases (decode_zero ℓ₀).symm.trans hnode
    · rw [clear_of_ne _ heq] at hnode ⊢
      rw [Function.update_of_ne heq] at hreg
      exact h hreg hi₀ hnode

/-- A leaf is no link. -/
theorem RwLinks.set_leaf {mem : ℕ → ℕ → ℕ} {reg : ℕ → Option (ℕ × ℕ)} {e : ℕ} (h : RwLinks mem reg)
    (ht : reg t = some (ℓ + 1, a)) (he : decode ℓ e = Node.leaf (ℓ, e)) :
    RwLinks (set mem t i e) reg := by
  intro t₀ ℓ₀ a₀ i₀ t₁ hreg hi₀ hnode
  by_cases hslot : t₀ = t ∧ i₀ = i
  · obtain ⟨rfl, rfl⟩ := hslot
    have := hreg.symm.trans ht
    simp only [Option.some.injEq, Prod.mk.injEq, Nat.add_right_cancel_iff] at this
    rw [set_self, this.1, he] at hnode
    cases hnode
  · rw [set_of_ne _ (not_and_or.1 hslot)] at hnode ⊢
    exact h hreg hi₀ hnode

/-- A page can be written when the entry that is found for it says so. -/
theorem Sound.canWrite_eq (hs : Sound root s) {n : ℕ} (hn : n < 2 ^ 36) :
    canWrite s.mem 4 root n = (find root s n).any fun x => decide (x.2 &&& ptFlagWritable ≠ 0) := by
  obtain ⟨reg, hT, hrw, -⟩ := hs
  suffices h : ∀ ℓ t, reg t = some (ℓ, n / 512 ^ ℓ) → canWrite s.mem ℓ t n =
      (format.lookup s.mem ℓ t n).any fun x => decide (x.2 &&& ptFlagWritable ≠ 0) from
    h 4 root (by rw [hT.root, show n / 512 ^ 4 = 0 from Nat.div_eq_of_lt hn])
  intro ℓ
  induction ℓ with
  | zero => exact fun _ _ => rfl
  | succ ℓ ih =>
      intro t hreg
      have hdecode : format.decode ℓ = decode ℓ := rfl
      have hlt : format.index ℓ n < 512 := index_lt _ _
      rw [canWrite, lookup, hdecode]
      cases hnode : decode ℓ (s.mem t (format.index ℓ n)) with
      | absent => simp
      | leaf x =>
          simp [decode_eq_leaf hnode]
      | table t' =>
          have hopen := hrw hreg hlt hnode
          have hreg' : reg t' = some (ℓ, n / 512 ^ ℓ) := by
            rw [hT.link hreg hlt hnode]
            exact congrArg (fun a => some (ℓ, a)) (div_pow_eq (F := format) ℓ n).symm
          simp [hopen, ih t' hreg']

/-- **The table for an entry** that is no leaf: it is reached, and nothing else changes; if it is
new, it takes a frame. -/
theorem tableFor_spec (hs : Sound root s) (hat : At root s (ℓ + 1) t a) (hi : i < 512)
    (hleaf : ∀ x, decode (ℓ + 1) (s.mem t i) ≠ Node.leaf x)
    (hfree : s.mem t i &&& ptFlagPresent = 0 → 0 < s.free.length) :
    ∃ q s', tableFor P (P.ptr t) i s = some (P.ptr q, s') ∧ Sound root s' ∧
      At root s' ℓ q (a * 512 + i) ∧ Grown root s s' ∧ s.free.length ≤ s'.free.length + 1 := by
  have hphys : P.phys (P.ptr t) = t := P.phys_ptr t (hat.lt hs)
  obtain ⟨reg, hT, hrw, hbound, hnodup, hframes⟩ := hs
  unfold tableFor
  rw [hphys]
  by_cases hpresent : s.mem t i &&& ptFlagPresent = 0
  · obtain ⟨f, free, hfs⟩ := List.exists_cons_of_length_pos (hfree hpresent)
    rw [hfs] at hnodup hframes
    obtain ⟨hnotin, hnodup'⟩ := List.nodup_cons.1 hnodup
    obtain ⟨hdvd, hf, hreg⟩ := hframes f List.mem_cons_self
    have hphysf : P.phys (P.ptr f) = f := P.phys_ptr f (lt_trans hf (by decide))
    have habsent : format.decode (ℓ + 1) (s.mem t i) = Node.absent := if_pos hpresent
    obtain ⟨hT', hat', hfind, hreach⟩ := hT.grow hat hi habsent hreg decode_zero
      (decode_link (Nat.succ_pos ℓ) hdvd hf)
    refine ⟨f, ⟨extend s.mem 0 f t i (f ||| ptFlagsRw), free⟩, ?_, ⟨_, hT', ?_, ?_, hnodup', ?_⟩, hat',
      ⟨fun n hn => hfind n hn, fun h => hreach _ _ _ h⟩, by simp [hfs]⟩
    · rw [if_pos hpresent, hfs]
      simp only [hphysf]
      rfl
    · exact hrw.extend hdvd
    · intro t' x ht'
      by_cases heq : t' = f
      · exact heq ▸ hf
      · rw [Function.update_of_ne heq] at ht'
        exact hbound t' x ht'
    · intro f' hf'
      obtain ⟨hdvd', hlt', hreg'⟩ := hframes f' (List.mem_cons_of_mem _ hf')
      have hne : f' ≠ f := fun heq => hnotin (heq ▸ hf')
      exact ⟨hdvd', hlt', by rwa [Function.update_of_ne hne]⟩
  · have hnode : decode (ℓ + 1) (s.mem t i) = Node.table (ptRebase (s.mem t i)) := by
      have h := hleaf (ℓ + 1, s.mem t i)
      unfold decode at h ⊢
      rw [if_neg hpresent] at h ⊢
      split
      · next hl => exact absurd (if_pos hl) h
      · rfl
    refine ⟨ptRebase (s.mem t i), s, by rw [if_neg hpresent], ⟨reg, hT, hrw, hbound, hnodup, hframes⟩,
      Reach.step hat hi hnode, Grown.refl root s, Nat.le_succ _⟩

/-- The table that was returned for an entry that is no leaf. -/
theorem tableFor_inv {p : ℕ} (hs : Sound root s) (hat : At root s (ℓ + 1) t a) (hi : i < 512)
    (hleaf : ∀ x, decode (ℓ + 1) (s.mem t i) ≠ Node.leaf x)
    (h : tableFor P (P.ptr t) i s = some (p, s')) :
    ∃ q, p = P.ptr q ∧ Sound root s' ∧ At root s' ℓ q (a * 512 + i) ∧ Grown root s s' := by
  have hfree : s.mem t i &&& ptFlagPresent = 0 → 0 < s.free.length := by
    intro habsent
    refine List.length_pos_of_ne_nil fun hnil => ?_
    unfold tableFor at h
    rw [P.phys_ptr t (hat.lt hs), if_pos habsent, hnil] at h
    cases h
  obtain ⟨q, s₁, hq, hsound, hat', hgrown, -⟩ := tableFor_spec (P := P) hs hat hi hleaf hfree
  obtain ⟨rfl, rfl⟩ := Prod.mk.inj (Option.some_inj.1 (h.symm.trans hq))
  exact ⟨q, rfl, hsound, hat', hgrown⟩

/-- Whatever the entry is, asking for its table changes no lookup. -/
theorem tableFor_grown {p : ℕ} (hs : Sound root s) (hat : At root s (ℓ + 1) t a) (hi : i < 512)
    (h : tableFor P (P.ptr t) i s = some (p, s')) : Sound root s' ∧ Grown root s s' := by
  by_cases hleaf : ∀ x, decode (ℓ + 1) (s.mem t i) ≠ Node.leaf x
  · obtain ⟨q, -, hsound, -, hgrown⟩ := tableFor_inv hs hat hi hleaf h
    exact ⟨hsound, hgrown⟩
  · have hpresent : s.mem t i &&& ptFlagPresent ≠ 0 := by
      intro habsent
      refine hleaf fun x hnode => ?_
      rw [decode, if_pos habsent] at hnode
      cases hnode
    unfold tableFor at h
    rw [P.phys_ptr t (hat.lt hs), if_neg hpresent] at h
    obtain ⟨-, rfl⟩ := Prod.mk.inj (Option.some_inj.1 h)
    exact ⟨hs, Grown.refl root s⟩

/-- **A leaf** changes what is found for the numbers that begin with its digits, and for no others. -/
theorem set_leaf_spec (hs : Sound root s) (hat : At root s ℓ t a) (hi : i < 512) {e : ℕ}
    (he : decode ℓ e = Node.leaf (ℓ, e)) :
    Sound root { s with mem := set s.mem t i e } ∧
      (∀ n < 2 ^ 36, find root { s with mem := set s.mem t i e } n =
        if n / 512 ^ ℓ = a * 512 + i then some (ℓ, e) else find root s n) ∧
      ∀ {ℓ' t' a'}, ℓ ≤ ℓ' → At root s ℓ' t' a' → At root { s with mem := set s.mem t i e } ℓ' t' a' := by
  obtain ⟨reg, hT, hrw, hbound, hnodup, hframes⟩ := hs
  have hreg := hat.registered hT
  refine ⟨⟨reg, hT.set_leaf hreg he, hrw.set_leaf hreg he, hbound, hnodup, hframes⟩, fun n hn => ?_,
    fun hle hat' => hat'.set hT hreg (by omega) e⟩
  split
  · next h => exact lookup_set_leaf hat hT hi he h
  · next h => exact lookup_set_of_ne hT hreg e hn h

/-- The tables that consist of a blank top table. -/
theorem sound_start {f : ℕ} {free : List ℕ} (mem : ℕ → ℕ → ℕ) (hf : f < 2 ^ 52)
    (hnodup : (f :: free).Nodup) (hframes : ∀ f' ∈ free, 4096 ∣ f' ∧ f' < 2 ^ 52) :
    Sound f ⟨clear mem f 0, free⟩ ∧ ∀ n, find f ⟨clear mem f 0, free⟩ n = none := by
  obtain ⟨hnotin, hnodup'⟩ := List.nodup_cons.1 hnodup
  have hzero : ∀ ℓ i, format.decode ℓ (clear mem f 0 f i) = Node.absent := fun ℓ i => by
    rw [clear_self, decode_zero]
  refine ⟨⟨Function.update (fun _ => none) f (some (4, 0)), ⟨Function.update_self _ _ _, ?_⟩, ?_, ?_,
    hnodup', ?_⟩, fun n => ?_⟩
  · intro t ℓ a i t' hreg _ hnode
    by_cases heq : t = f
    · rw [heq, hzero] at hnode
      cases hnode
    · rw [Function.update_of_ne heq] at hreg
      cases hreg
  · intro t ℓ a i t' hreg _ hnode
    by_cases heq : t = f
    · rw [heq] at hnode
      cases (hzero ℓ i).symm.trans hnode
    · rw [Function.update_of_ne heq] at hreg
      cases hreg
  · intro t x ht
    by_cases heq : t = f
    · exact heq ▸ hf
    · rw [Function.update_of_ne heq] at ht
      cases ht
  · intro f' hf'
    have hne : f' ≠ f := fun heq => hnotin (heq ▸ hf')
    exact ⟨(hframes f' hf').1, (hframes f' hf').2, Function.update_of_ne hne _ _⟩
  · rw [find, lookup, hzero]

end Spec

end Pagetbl

end SyncKernel
