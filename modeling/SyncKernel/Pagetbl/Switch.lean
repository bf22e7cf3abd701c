/-
**The switch of the page tables** (`boot.c`, `pagetbl.c`).

The boot code builds tables for the kernel and for the direct map and goes on in the higher half;
there, both are built again, with other frames and through the direct map.  At the switch the
processor goes on with the next instruction, so both have to translate the same addresses to the same
ones.

What is built is the same for either way to come to the tables.  The kernel is mapped page by page,
the memory by huge pages, and neither is in the other's way.

Main definitions:

* `Pagetbl.Layout` — the lookups of the tables that are built.

Main results:

* `Pagetbl.kcodePages_spec`, `Pagetbl.dmapPages_spec` — what the loops for the kernel and for the
  memory build;
* `Pagetbl.switch_preserves` — **the switch changes no translation** and no right to write.
-/

import SyncKernel.Pagetbl.Build

set_option relaxedAutoImplicit false
set_option autoImplicit false

namespace SyncKernel

namespace Pagetbl

open Radix Radix.Format

variable {P : Pointers} {begin_ afterRo root first kernsz ramMax room : ℕ} {s₀ s : Tables}

/-! ### The pages of the kernel -/

/-- The entry for the page `m` of the kernel. -/
def kernelEntry (begin_ afterRo m : ℕ) : ℕ := kcodeEntry begin_ afterRo (m * pageSize)

theorem kcodeEntry_flags (begin_ afterRo phy : ℕ) :
    ∃ flags, kcodeEntry begin_ afterRo phy = phy ||| flags ∧ IsLeafFlags 0 flags ∧
      (flags &&& ptFlagWritable ≠ 0 ↔ physToVirtOf phy < begin_ ∨ physToVirtOf phy ≥ afterRo) := by
  have hlow : ∀ {flags}, flags < 2 ^ 12 → IsFlags flags := fun h j hj _ =>
    Nat.testBit_lt_two_pow (lt_of_lt_of_le h (Nat.pow_le_pow_right (by decide) hj))
  by_cases h : physToVirtOf phy < begin_ ∨ physToVirtOf phy ≥ afterRo
  · refine ⟨ptFlagPresent ||| ptFlagWritable, ?_, ⟨hlow (by decide), by decide, Or.inl rfl⟩,
      iff_of_true (by decide) h⟩
    simp only [kcodeEntry, if_pos h]
  · refine ⟨ptFlagPresent, ?_, ⟨hlow (by decide), by decide, Or.inl rfl⟩, iff_of_false (by decide) h⟩
    simp only [kcodeEntry, if_neg h]

/-- The tables once `m` pages of the kernel are mapped. -/
structure KernelState (begin_ afterRo root first : ℕ) (s₀ : Tables) (m : ℕ) (s : Tables) : Prop where
  sound : Sound root s
  mapped : Mapped root s₀ 0 first m (kernelEntry begin_ afterRo) s

/-- The loop over a table of pages. -/
theorem kcodePt_spec {pt a m : ℕ} (hm : m < 2 ^ 18) (hat : At root s 0 pt a)
    (ha : a * 512 = first + m) (hst : KernelState begin_ afterRo root first s₀ m s) :
    ∃ s', kcodePt P begin_ afterRo (P.ptr pt) (s, m * pageSize) = some (s', (m + 512) * pageSize) ∧
      KernelState begin_ afterRo root first s₀ (m + 512) s' ∧ s'.free = s.free ∧
      ∀ ℓ t a, At root s ℓ t a → At root s' ℓ t a := by
  have hphys : P.phys (P.ptr pt) = pt := P.phys_ptr pt (hat.lt hst.sound)
  obtain ⟨⟨s', phy⟩, hs', hphy, hst', hfree, hats⟩ := Run.loop_spec
    (f := fun k s => some ((⟨set s.1.mem (P.phys (P.ptr pt)) k (kcodeEntry begin_ afterRo s.2), s.1.free⟩ :
      Tables), Word.add s.2 pageSize))
    (I := fun k s' => s'.2 = (m + k) * pageSize ∧ KernelState begin_ afterRo root first s₀ (m + k) s'.1 ∧
      s'.1.free = s.free ∧ ∀ ℓ t a, At root s ℓ t a → At root s'.1 ℓ t a) (n := ptEntries)
    (by
      rintro k hk ⟨s₁, phy⟩ ⟨rfl, hst₁, hfree₁, hats₁⟩
      have hk' : k < 512 := hk
      obtain ⟨flags, hentry, hflags, -⟩ := kcodeEntry_flags begin_ afterRo ((m + k) * pageSize)
      have hdecode := hentry ▸ decode_leaf (by decide) hflags (Nat.dvd_mul_left pageSize (m + k))
      obtain ⟨hsound, hfind, hats₂⟩ := set_leaf_spec hst₁.sound (hats₁ _ _ _ hat) hk' hdecode
      rw [ha, Nat.add_assoc] at hfind
      rw [hphys]
      refine ⟨_, rfl, ?_, ⟨hsound, hst₁.mapped.succ hfind⟩, hfree₁,
        fun ℓ t a h => hats₂ (Nat.zero_le ℓ) (hats₁ ℓ t a h)⟩
      change Word.add ((m + k) * pageSize) pageSize = (m + (k + 1)) * pageSize
      unfold Word.add pageSize
      omega)
    (s := (s, m * pageSize)) ⟨rfl, hst, rfl, fun _ _ _ h => h⟩
  obtain rfl : phy = (m + 512) * pageSize := hphy
  exact ⟨s', hs', hst', hfree, hats⟩

/-- The loop over a page directory. -/
theorem kcodePd_spec {pd count : ℕ} (hfirst : first = 2 ^ 36 - 2 ^ 19) (hcount : count ≤ 512) (hs : Sound root s)
    (hat : At root s 1 pd (first / 512 ^ 2))
    (hblank : ∀ n, first ≤ n → n < 2 ^ 36 → find root s n = none)
    (hfree : room + count ≤ s.free.length) :
    ∃ s', kcodePd P begin_ afterRo (P.ptr pd) kernelOffset count (s, 0) = some (s', count * 512 * pageSize) ∧
      KernelState begin_ afterRo root first s (count * 512) s' ∧ room ≤ s'.free.length := by
  have hloop : ∃ s', kcodePd P begin_ afterRo (P.ptr pd) kernelOffset count (s, 0) = some s' ∧
      s'.2 = count * 512 * pageSize ∧ KernelState begin_ afterRo root first s (count * 512) s'.1 ∧
      room + (count - count) ≤ s'.1.free.length ∧ ∀ ℓ t a, 1 ≤ ℓ → At root s ℓ t a → At root s'.1 ℓ t a := by
    refine Run.loop_spec
      (I := fun j (s' : Tables × ℕ) => s'.2 = j * 512 * pageSize ∧
        KernelState begin_ afterRo root first s (j * 512) s'.1 ∧ room + (count - j) ≤ s'.1.free.length ∧ ∀ ℓ t a, 1 ≤ ℓ → At root s ℓ t a → At root s'.1 ℓ t a)
      ?_ ⟨rfl, ⟨hs, mapped_zero _ _ _ _ _⟩, hfree, fun _ _ _ _ h => h⟩
    rintro j hj ⟨s₁, phy⟩ ⟨rfl, hst₁, hfree₁, hats₁⟩
    replace hst₁ : KernelState begin_ afterRo root first s (j * 512) s₁ := hst₁
    replace hfree₁ : room + (count - j) ≤ s₁.free.length := hfree₁
    have hnone : find root s₁ (first + j * 512) = none := by
      rw [hst₁.mapped _ (by omega), Nat.pow_zero, Nat.div_one, if_neg (by omega)]
      exact hblank _ (Nat.le_add_right _ _) (by omega)
    have hdigits : (first + j * 512) / 512 ^ 1 = first / 512 ^ 2 * 512 + j := by omega
    have hj' : j < 512 := by omega
    have hm : j * 512 < 2 ^ 18 := by omega
    have hroom : 0 < s₁.free.length := by omega
    have hat₁ : At root s₁ 1 pd (first / 512 ^ 2) := hats₁ _ _ _ le_rfl hat
    have htable : (first / 512 ^ 2 * 512 + j) * 512 = first + j * 512 := by omega
    obtain ⟨pt, s₂, hpt, hsound₂, hat₂, hgrown₂, hfree₂⟩ := tableFor_spec (P := P) hst₁.sound hat₁ hj'
      (hat₁.not_leaf hj' hdigits hnone) fun _ => hroom
    obtain ⟨s₃, hs₃, hst₃, hfree₃, hats₃⟩ := kcodePt_spec (P := P) (m := j * 512) hm hat₂ htable
      ⟨hsound₂, hst₁.mapped.grown hgrown₂⟩
    have hfree₄ : room + (count - (j + 1)) ≤ s₃.free.length := by
      rw [hfree₃]
      omega
    have hnext : (j + 1) * 512 = j * 512 + 512 := Nat.succ_mul j 512
    refine ⟨(s₃, (j * 512 + 512) * pageSize), ?_, by rw [hnext], by rw [hnext]; exact hst₃, hfree₄,
      fun ℓ t a hℓ h => hats₃ ℓ t a (hgrown₂.at_of (hats₁ ℓ t a hℓ h))⟩
    have hidx : pageL2Idx (Word.add kernelOffset (j * ptL2Entrysz)) = j := by
      have h := pageIdx_eq (show 1 ≤ 3 by decide) (Word.add kernelOffset (j * ptL2Entrysz))
      rw [pageL2Idx, h]
      change pageNumber (Word.add kernelOffset (j * ptL2Entrysz)) / 512 ^ 1 % 512 = j
      unfold pageNumber Word.add kernelOffset ptL2Entrysz pageSize ptEntries
      omega
    simp only [hidx, hpt, Option.bind_eq_bind, Option.bind_some]
    exact hs₃
  obtain ⟨⟨s', phy⟩, hs', hphy, hst', hfree', -⟩ := hloop
  obtain rfl : phy = count * 512 * pageSize := hphy
  exact ⟨s', hs', hst', by simp only at hfree'; omega⟩

/-- The number of tables for the pages of the kernel. -/
theorem kernel_tables_le (hk : kernsz ≤ 2 ^ 30) : kernsz ⌈/⌉ 2 ^ 21 ≤ 512 :=
  (ceilDiv_le_iff_le_mul (by decide)).2 hk

/-- **The loops for the kernel** map its pages, for a kernel of at most 1 GiB. -/
theorem kcodePages_spec (hfirst : first = 2 ^ 36 - 2 ^ 19) (hpos : 0 < kernsz) (hk : kernsz ≤ 2 ^ 30)
    (hs : Sound root s) (hblank : ∀ n, first ≤ n → n < 2 ^ 36 → find root s n = none)
    (hfree : room + (2 + kernsz ⌈/⌉ 2 ^ 21) ≤ s.free.length) :
    ∃ s', kcodePages P begin_ afterRo (P.ptr root) kernelOffset kernsz s = some s' ∧
      KernelState begin_ afterRo root first s (kernsz ⌈/⌉ 2 ^ 21 * 512) s' ∧ room ≤ s'.free.length := by
  have hl1 : pagetblCount kernsz ptL2Entrysz = kernsz ⌈/⌉ 2 ^ 21 := pagetblCount_eq (k := 21) (by omega) (by decide)
  have hl2 : pagetblCount kernsz ptL3Entrysz = 1 := by
    have h : pagetblCount kernsz ptL3Entrysz = kernsz ⌈/⌉ 2 ^ 30 :=
      pagetblCount_eq (k := 30) (by omega) (by decide)
    rw [h, Nat.ceilDiv_eq_add_pred_div]
    omega
  have hl4 : pageL4Idx kernelOffset = 511 := by decide
  have hl3 : pageL3Idx (Word.add kernelOffset (0 * ptL3Entrysz)) = 510 := by decide
  have hnone := hblank first le_rfl (by omega)
  have htop : At root s 3 root 0 := Reach.root
  obtain ⟨l3, s₁, hs₁, hsound₁, hat₁, hgrown₁, hfree₁⟩ := tableFor_spec (P := P) hs htop
    (show 511 < 512 by decide) (htop.not_leaf (by decide) (by omega) hnone) fun _ => by omega
  have hnone₁ : find root s₁ first = none := (hgrown₁.find_eq _ (by omega)).trans hnone
  obtain ⟨pd, s₂, hs₂, hsound₂, hat₂, hgrown₂, hfree₂⟩ := tableFor_spec (P := P) hsound₁ hat₁
    (show 510 < 512 by decide) (hat₁.not_leaf (by decide) (by omega) hnone₁) fun _ => by omega
  have hdigits : (0 * 512 + 511) * 512 + 510 = first / 512 ^ 2 := by omega
  rw [hdigits] at hat₂
  have hblank₂ : ∀ n, first ≤ n → n < 2 ^ 36 → find root s₂ n = none := fun n hle hlt =>
    (hgrown₂.find_eq n hlt).trans ((hgrown₁.find_eq n hlt).trans (hblank n hle hlt))
  have hfree' : room + kernsz ⌈/⌉ 2 ^ 21 ≤ s₂.free.length := by omega
  obtain ⟨s₃, hs₃, hst₃, hfree₃⟩ : ∃ s₃, kcodePd P begin_ afterRo (P.ptr pd) kernelOffset (kernsz ⌈/⌉ 2 ^ 21)
      (s₂, 0) = some (s₃, kernsz ⌈/⌉ 2 ^ 21 * 512 * pageSize) ∧
      KernelState begin_ afterRo root first s₂ (kernsz ⌈/⌉ 2 ^ 21 * 512) s₃ ∧ room ≤ s₃.free.length :=
    kcodePd_spec hfirst (kernel_tables_le hk) hsound₂ hat₂ hblank₂ hfree'
  refine ⟨s₃, ?_, ⟨hst₃.sound, fun n hn => ?_⟩, hfree₃⟩
  · unfold kcodePages
    rw [hl1, hl2, hl4, hs₁]
    simp only [Option.bind_eq_bind, Option.bind_some]
    rw [Run.loop_one, hl3, hs₂, Option.bind_some, hs₃, Option.bind_some]
  · rw [hst₃.mapped n hn, hgrown₂.find_eq n hn, hgrown₁.find_eq n hn]

/-! ### The direct map -/

/-- The number of the first huge page of the direct map. -/
def dmapFirst : ℕ := 2 ^ 17

theorem slot_dmap : slot 2 kernelPhmap = dmapFirst := by decide

/-- The flags of the pages of the direct map. -/
def dmapFlags : ℕ := ptFlagsRw ||| ptFlagPagesize

theorem dmapFlags_leaf : IsLeafFlags 2 dmapFlags :=
  ⟨fun _ hj _ => Nat.testBit_lt_two_pow (lt_of_lt_of_le (by decide) (Nat.pow_le_pow_right (by decide) hj)),
    by decide, Or.inr (by decide)⟩

/-- The entry for the huge page `m` of the memory. -/
def dmapEntry (m : ℕ) : ℕ := m * 2 ^ 30 ||| dmapFlags

/-- The number of huge pages of the memory. -/
theorem dmap_pages_le (hram : ramMax ≤ 2 ^ 46) : ramMax ⌈/⌉ 2 ^ 30 ≤ 2 ^ 16 :=
  (ceilDiv_le_iff_le_mul (by decide)).2 hram

/-- The direct map begins with a table, so no carry is lost. -/
theorem dmap_place (hram : ramMax ≤ 2 ^ 46) {m : ℕ} (hm : m < ramMax ⌈/⌉ 2 ^ 30) :
    addDigits 512 (4 - 2) dmapFirst m = dmapFirst + m := by
  have hfirst : dmapFirst = 2 ^ 17 := rfl
  have hpages := dmap_pages_le hram
  refine addDigits_of_fits (by decide) (by omega) (fun j hj => Or.inl ?_) hm
  exact (Nat.pow_dvd_pow 512 (show j ≤ 1 by omega)).trans (by decide)

/-- The direct map of the memory is to be built where nothing is mapped. -/
def dmapJob (root : ℕ) (s : Tables) (ramMax : ℕ) (hram : ramMax ≤ 2 ^ 46)
    (hblank : ∀ n < 2 ^ 36, dmapFirst ≤ n / 512 ^ 2 → n / 512 ^ 2 < dmapFirst + ramMax ⌈/⌉ 2 ^ 30 →
      find root s n = none) : Job where
  w := 2
  root := root
  start := s
  vaddr := kernelPhmap
  paddr := 0
  flags := dmapFlags
  count := ramMax ⌈/⌉ 2 ^ 30
  w_le := le_rfl
  vaddr_dvd := by decide
  paddr_dvd := Nat.dvd_zero _
  flags_leaf := dmapFlags_leaf
  count_le := by
    rw [slot_dmap]
    exact le_trans (Nat.add_le_add_left (dmap_pages_le hram) _) (by decide)
  paddr_lt := by decide
  clear := by
    intro m hm n hn heq x hx
    rw [slot_dmap, dmap_place hram hm] at heq
    cases (hblank n hn (by omega) (by omega)).symm.trans hx

/-- **The loops for the memory** map it by huge pages. -/
theorem dmapPages_spec (hram : ramMax ≤ 2 ^ 46) (hs : Sound root s)
    (hblank : ∀ n < 2 ^ 36, dmapFirst ≤ n / 512 ^ 2 → n / 512 ^ 2 < dmapFirst + ramMax ⌈/⌉ 2 ^ 30 →
      find root s n = none)
    (hfree : room + ramMax ⌈/⌉ 2 ^ 39 ≤ s.free.length) :
    ∃ s', dmapPages P (P.ptr root) kernelPhmap ramMax s = some s' ∧ Sound root s' ∧
      Mapped root s 2 dmapFirst (ramMax ⌈/⌉ 2 ^ 30) dmapEntry s' ∧ room ≤ s'.free.length := by
  have hl2 : pagetblCount ramMax ptL3Entrysz = ramMax ⌈/⌉ 2 ^ 30 :=
    pagetblCount_eq (k := 30) (by omega) (by decide)
  have hl3 : pagetblCount ramMax ptL4Entrysz = ramMax ⌈/⌉ 2 ^ 39 :=
    pagetblCount_eq (k := 39) (by omega) (by decide)
  have htables : ramMax ⌈/⌉ 2 ^ 30 ⌈/⌉ 512 ^ 1 = ramMax ⌈/⌉ 2 ^ 39 := by
    refine eq_of_forall_ge_iff fun c => ?_
    rw [ceilDiv_le_iff_le_mul (by decide), ceilDiv_le_iff_le_mul (by decide),
      ceilDiv_le_iff_le_mul (by decide)]
    omega
  have hbody : (dmapJob root s ramMax hram hblank).Fills P 1 (hugeTurn P ptFlagsRw) :=
    Job.fills_turn (k := 0) (show 2 + 0 < 3 by decide) (fun _ _ => rfl) (fun _ _ => rfl)
      (Job.fills_put _ P fun _ => rfl)
  have hrem : ∀ j < 1, (fun _ => ramMax ⌈/⌉ 2 ^ 30) (2 + 1 + j) = ramMax ⌈/⌉ 2 ^ 30 ⌈/⌉ 512 ^ j := by
    intro j hj
    rw [Nat.lt_one_iff.1 hj, Nat.pow_zero, ceilDiv_one]
  have hroom : room + tablesFor 1 (ramMax ⌈/⌉ 2 ^ 30) ≤ s.free.length := by
    change room + (0 + ramMax ⌈/⌉ 2 ^ 30 ⌈/⌉ 512 ^ 1) ≤ _
    rwa [Nat.zero_add, htables]
  have hstart := @Job.state_start (dmapJob root s ramMax hram hblank) 1 room (fun _ => ramMax ⌈/⌉ 2 ^ 30) hs
    hrem hroom
  obtain ⟨c, hc, hst⟩ := Job.fill (k := 1) rfl hbody hstart
  have hloop : Run.loop (fun _ => hugeTurn P ptFlagsRw (P.ptr root)) (ramMax ⌈/⌉ 2 ^ 39)
      ⟨s, kernelPhmap, 0, fun _ => ramMax ⌈/⌉ 2 ^ 30⟩ = some c := by
    rw [← htables]
    exact hc
  refine ⟨c.tables, ?_, hst.sound, fun n hn => ?_, le_trans (Nat.le_add_right _ _) hst.free_le⟩
  · unfold dmapPages
    rw [hl2, hl3]
    simp only [hloop, Option.bind_eq_bind, Option.bind_some]
  · have hpages := dmap_pages_le hram
    have hplace : ∀ m < ramMax ⌈/⌉ 2 ^ 30, (dmapJob root s ramMax hram hblank).place m = dmapFirst + m := by
      intro m hm
      change addDigits 512 (4 - 2) (slot 2 kernelPhmap) m = _
      rw [slot_dmap, dmap_place hram hm]
    have hmapped := hst.placed.mapped hplace
    have hentry : ∀ m < ramMax ⌈/⌉ 2 ^ 30, (dmapJob root s ramMax hram hblank).entry m = dmapEntry m := by
      intro m hm
      have hadd : Word.add 0 (m * 2 ^ 30) = m * 2 ^ 30 := by
        rw [Word.add_of_lt (by omega), Nat.zero_add]
      exact congrArg (· ||| dmapFlags) hadd
    refine (hmapped n hn).trans ?_
    by_cases hlt : dmapFirst ≤ n / 512 ^ 2 ∧ n / 512 ^ 2 < dmapFirst + ramMax ⌈/⌉ 2 ^ 30
    · rw [if_pos hlt, ← hentry _ (by omega)]
      exact if_pos hlt
    · rw [if_neg hlt]
      exact if_neg hlt

/-! ### The tables before and behind the switch -/

/-- The lookups of the tables that are built. -/
structure Layout (begin_ afterRo kernsz ramMax root : ℕ) (s : Tables) : Prop where
  sound : Sound root s
  rebase : ptRebase root = root
  kernel : ∀ m < kernsz ⌈/⌉ 2 ^ 21 * 512,
    find root s (2 ^ 36 - 2 ^ 19 + m) = some (0, kernelEntry begin_ afterRo m)
  dmap : ∀ n < 2 ^ 36, dmapFirst ≤ n / 512 ^ 2 → n / 512 ^ 2 < dmapFirst + ramMax ⌈/⌉ 2 ^ 30 →
    find root s n = some (2, dmapEntry (n / 512 ^ 2 - dmapFirst))

/-- The number of a page of the kernel. -/
def InKernel (kernsz n : ℕ) : Prop := 2 ^ 36 - 2 ^ 19 ≤ n ∧ n < 2 ^ 36 - 2 ^ 19 + kernsz ⌈/⌉ 2 ^ 21 * 512

/-- The number of a page of the direct map. -/
def InDmap (ramMax n : ℕ) : Prop :=
  dmapFirst ≤ n / 512 ^ 2 ∧ n / 512 ^ 2 < dmapFirst + ramMax ⌈/⌉ 2 ^ 30

/-- The frames that the tables for the kernel and for the memory take. -/
def tableFrames (kernsz ramMax : ℕ) : ℕ := 2 + kernsz ⌈/⌉ 2 ^ 21 + ramMax ⌈/⌉ 2 ^ 39

/-- **Either way to come to the tables** builds the same, where nothing but the first huge page is
mapped. -/
theorem layout_of_blank (P : Pointers) (begin_ afterRo : ℕ) (hpos : 0 < kernsz) (hk : kernsz ≤ 2 ^ 30)
    (hram : ramMax ≤ 2 ^ 46) (hs : Sound root s) (hrebase : ptRebase root = root)
    (hblank : ∀ n, 512 ^ 2 ≤ n → n < 2 ^ 36 → find root s n = none)
    (hfree : tableFrames kernsz ramMax ≤ s.free.length) :
    ∃ s₁ s', kcodePages P begin_ afterRo (P.ptr root) kernelOffset kernsz s = some s₁ ∧
      dmapPages P (P.ptr root) kernelPhmap ramMax s₁ = some s' ∧
      Layout begin_ afterRo kernsz ramMax root s' ∧
      ∀ n < 2 ^ 36, ¬ InKernel kernsz n → ¬ InDmap ramMax n → find root s' n = find root s n := by
  have htables := kernel_tables_le hk
  have hpages := dmap_pages_le hram
  have hdmap : dmapFirst = 2 ^ 17 := rfl
  unfold tableFrames at hfree
  have hroom : ramMax ⌈/⌉ 2 ^ 39 + (2 + kernsz ⌈/⌉ 2 ^ 21) ≤ s.free.length := by omega
  obtain ⟨s₁, hs₁, hst₁, hfree₁⟩ :
      ∃ s₁, kcodePages P begin_ afterRo (P.ptr root) kernelOffset kernsz s = some s₁ ∧
        KernelState begin_ afterRo root (2 ^ 36 - 2 ^ 19) s (kernsz ⌈/⌉ 2 ^ 21 * 512) s₁ ∧
        ramMax ⌈/⌉ 2 ^ 39 ≤ s₁.free.length :=
    kcodePages_spec rfl hpos hk hs (fun n hle hlt => hblank n (by omega) hlt) hroom
  -- the direct map is in front of the kernel
  have hblank₁ : ∀ n < 2 ^ 36, dmapFirst ≤ n / 512 ^ 2 →
      n / 512 ^ 2 < dmapFirst + ramMax ⌈/⌉ 2 ^ 30 → find root s₁ n = none := by
    intro n hn hle hlt
    rw [hst₁.mapped n hn, Nat.pow_zero, Nat.div_one, if_neg (by omega)]
    exact hblank n (by omega) hn
  have hroom₁ : 0 + ramMax ⌈/⌉ 2 ^ 39 ≤ s₁.free.length := by omega
  obtain ⟨s', hs', hsound', hmapped', -⟩ := dmapPages_spec (P := P) hram hst₁.sound hblank₁ hroom₁
  refine ⟨s₁, s', hs₁, hs', ⟨hsound', hrebase, fun m hm => ?_, fun n hn hle hlt => ?_⟩, fun n hn hkn hdn => ?_⟩
  · have hlt : 2 ^ 36 - 2 ^ 19 + m < 2 ^ 36 := by omega
    rw [hmapped' _ hlt, if_neg (by omega), hst₁.mapped _ hlt, Nat.pow_zero, Nat.div_one,
      if_pos ⟨by omega, by omega⟩, Nat.add_sub_cancel_left]
  · rw [hmapped' n hn, if_pos ⟨hle, hlt⟩]
  · rw [InKernel] at hkn
    rw [InDmap] at hdn
    rw [hmapped' n hn, if_neg hdn, hst₁.mapped n hn, Nat.pow_zero, Nat.div_one, if_neg hkn]

/-- Frames that can be tables: aligned addresses of memory, each of them once. -/
def Frames (free : List ℕ) : Prop := free.Nodup ∧ ∀ f ∈ free, 4096 ∣ f ∧ f < 2 ^ 52

/-- **The identity map** of the boot code is the first huge page. -/
theorem ptInitTempIdentmap_spec (hs : Sound root s) (hzero : s.mem root 0 = 0)
    (hblank : ∀ n, find root s n = none) (hfree : room + 1 ≤ s.free.length) :
    ∃ s', ptInitTempIdentmap root s = some s' ∧ Sound root s' ∧
      (∀ n < 2 ^ 36, find root s' n = if n / 512 ^ 2 = 0 then some (2, dmapEntry 0) else none) ∧
      room ≤ s'.free.length := by
  have htop : At root s 3 root 0 := Reach.root
  obtain ⟨q, s₁, hq, hsound₁, hat₁, hgrown₁, hfree₁⟩ := tableFor_spec (P := identMap) hs htop
    (show 0 < 512 by decide) (htop.not_leaf (by decide) (n := 0) (by decide) (hblank 0)) fun _ => by omega
  -- the entry that leads to the new table is written a second time
  have hentry : s₁.mem root 0 = q ||| ptFlagsRw := by
    obtain ⟨f, free, hfs⟩ := List.exists_cons_of_length_pos (show 0 < s.free.length by omega)
    have hq' := hq
    unfold tableFor at hq'
    change (if s.mem root 0 &&& ptFlagPresent = 0 then _ else _) = _ at hq'
    rw [hzero, Nat.zero_and, if_pos rfl, hfs] at hq'
    simp only [Option.some.injEq, Prod.mk.injEq] at hq'
    obtain ⟨hfq, rfl⟩ := hq'
    obtain rfl : f = q := hfq
    exact set_self _ _ _ _
  have hdecode : decode 2 (0 ||| ptFlagsRw ||| ptFlagPagesize) =
      Node.leaf (2, 0 ||| ptFlagsRw ||| ptFlagPagesize) := by
    rw [show 0 ||| ptFlagsRw ||| ptFlagPagesize = 0 ||| dmapFlags by decide]
    exact decode_leaf le_rfl dmapFlags_leaf (Nat.dvd_zero _)
  obtain ⟨hsound, hfind, -⟩ := set_leaf_spec hsound₁ hat₁ (show 0 < 512 by decide) hdecode
  refine ⟨_, ?_, hsound, fun n hn => ?_, ?_⟩
  · have hchk : chkPtAlloc root 0 s = some (q, s₁) := hq
    unfold ptInitTempIdentmap
    rw [hchk]
    simp only [Option.bind_eq_bind, Option.bind_some]
    rw [← hentry, set_eq_self]
  · rw [hfind n hn, hgrown₁.find_eq n hn, hblank n]
    rfl
  · change room ≤ s₁.free.length
    omega

/-- **The boot tables.** -/
theorem initHigherHalf_spec (begin_ afterRo : ℕ) (hpos : 0 < kernsz) (hk : kernsz ≤ 2 ^ 30)
    (hram : ramMax ≤ 2 ^ 46) (hs : Frames s.free) (hfree : tableFrames kernsz ramMax + 2 ≤ s.free.length) :
    ∃ l4 t, initHigherHalf begin_ afterRo kernsz ramMax s = some (l4, t) ∧
      Layout begin_ afterRo kernsz ramMax l4 t ∧
      ∀ n < 2 ^ 36, ¬ InKernel kernsz n → ¬ InDmap ramMax n →
        find l4 t n = if n / 512 ^ 2 = 0 then some (2, dmapEntry 0) else none := by
  obtain ⟨l4, free, hfs⟩ := List.exists_cons_of_length_pos (show 0 < s.free.length by omega)
  obtain ⟨hnodup, hframes⟩ := hs
  rw [hfs] at hnodup hframes hfree
  obtain ⟨hdvd, hlt⟩ := hframes l4 List.mem_cons_self
  obtain ⟨hsound, hblank⟩ := sound_start s.mem hlt hnodup fun f hf => hframes f (List.mem_cons_of_mem _ hf)
  have hroom : tableFrames kernsz ramMax + 1 ≤ free.length := by
    rw [List.length_cons] at hfree
    exact Nat.le_of_succ_le_succ hfree
  obtain ⟨s₁, hs₁, hsound₁, hfirst₁, hfree₁⟩ := ptInitTempIdentmap_spec hsound (clear_self _ _ _) hblank hroom
  obtain ⟨s₂, t, hs₂, ht, hlayout, hother⟩ := layout_of_blank identMap begin_ afterRo hpos hk hram hsound₁
    (ptRebase_eq hdvd hlt) (fun n hle hn => (hfirst₁ n hn).trans (if_neg (by omega))) hfree₁
  refine ⟨l4, t, ?_, hlayout, fun n hn hkn hdn => (hother n hn hkn hdn).trans (hfirst₁ n hn)⟩
  have hkcode : ptInitKcode begin_ afterRo l4 kernsz s₁ = some s₂ := hs₂
  have hdram : ptInitDramMap l4 ramMax s₂ = some t := ht
  rw [initHigherHalf, hfs]
  change (ptInitTempIdentmap l4 ⟨clear s.mem l4 0, free⟩).bind (fun s =>
    (ptInitKcode begin_ afterRo l4 kernsz s).bind fun s =>
      (ptInitDramMap l4 ramMax s).bind fun s => some (l4, s)) = _
  rw [hs₁, Option.bind_some, hkcode, Option.bind_some, hdram, Option.bind_some]

/-- **The tables behind the switch.** -/
theorem remapBootmemPages_spec (begin_ afterRo : ℕ) (hpos : 0 < kernsz) (hk : kernsz ≤ 2 ^ 30)
    (hram : ramMax ≤ 2 ^ 46) (hs : Frames s.free) (hfree : tableFrames kernsz ramMax + 1 ≤ s.free.length) :
    ∃ l4 t, remapBootmemPages begin_ afterRo kernsz ramMax s = some (l4, t) ∧
      Layout begin_ afterRo kernsz ramMax l4 t := by
  obtain ⟨l4, free, hfs⟩ := List.exists_cons_of_length_pos (show 0 < s.free.length by omega)
  obtain ⟨hnodup, hframes⟩ := hs
  rw [hfs] at hnodup hframes hfree
  obtain ⟨hdvd, hlt⟩ := hframes l4 List.mem_cons_self
  have hphys : virtToPhysPm (physToVirtPm l4) = l4 := directMap.phys_ptr l4 (lt_trans hlt (by decide))
  obtain ⟨hsound, hblank⟩ := sound_start s.mem hlt hnodup fun f hf => hframes f (List.mem_cons_of_mem _ hf)
  obtain ⟨s₂, t, hs₂, ht, hlayout, -⟩ := layout_of_blank directMap begin_ afterRo hpos hk hram hsound
    (ptRebase_eq hdvd hlt) (fun n _ _ => hblank n)
    (by rw [List.length_cons] at hfree; exact Nat.le_of_succ_le_succ hfree)
  refine ⟨l4, t, ?_, hlayout⟩
  have hkcode : remapBootmemKcodePages begin_ afterRo (physToVirtPm l4) kernelOffset kernsz
      ⟨clear s.mem l4 0, free⟩ = some s₂ := hs₂
  have hdmap : remapBootmemDmapPages (physToVirtPm l4) kernelPhmap ramMax s₂ = some t := ht
  rw [remapBootmemPages, hfs]
  change (remapBootmemKcodePages begin_ afterRo (physToVirtPm l4) kernelOffset kernsz
      ⟨clear s.mem (virtToPhysPm (physToVirtPm l4)) 0, free⟩).bind (fun s =>
    (remapBootmemDmapPages (physToVirtPm l4) kernelPhmap ramMax s).bind fun s =>
      some (virtToPhysPm (physToVirtPm l4), s)) = _
  rw [hphys, hkcode, Option.bind_some, hdmap, Option.bind_some]

namespace Layout

variable {p : ℕ}

/-- The pages of the kernel. -/
theorem kernel_page (h : Layout begin_ afterRo kernsz ramMax root s) (hk : kernsz ≤ 2 ^ 30)
    (hp : p < kernsz ⌈/⌉ 2 ^ 21 * 2 ^ 21) :
    kptGetPhys s.mem root (kernelOffset + p) = p ∧
      (kptCanWrite s.mem root (kernelOffset + p) = false ↔
        begin_ ≤ pageAlignDown (kernelOffset + p) ∧ pageAlignDown (kernelOffset + p) < afterRo) := by
  have htables := kernel_tables_le hk
  have hnumber : pageNumber (kernelOffset + p) = 2 ^ 36 - 2 ^ 19 + p / 4096 := by
    unfold pageNumber kernelOffset
    omega
  have hpage : physToVirtOf (p / 4096 * pageSize) = pageAlignDown (kernelOffset + p) := by
    rw [pageAlignDown_eq (by unfold kernelOffset; omega)]
    unfold physToVirtOf Word.add kernelOffset pageSize
    omega
  have hfind := h.kernel (p / 4096) (by omega)
  obtain ⟨flags, hentry, hflags, hwrite⟩ := kcodeEntry_flags begin_ afterRo (p / 4096 * pageSize)
  have hdvd : 4096 ∣ p / 4096 * pageSize := Nat.dvd_mul_left _ _
  rw [kernelEntry, hentry] at hfind
  rw [hpage] at hwrite
  constructor
  · rw [kptGetPhys_eq _ h.rebase, hnumber]
    change physOf _ (find root s _) = p
    rw [hfind, physOf_leaf (by decide) hflags.isFlags hdvd]
    unfold kernelOffset pageSize
    omega
  · rw [kptCanWrite, h.rebase, h.sound.canWrite_eq (pageNumber_lt _), hnumber, hfind, Option.any_some]
    have hlow : (p / 4096 * pageSize ||| flags) &&& ptFlagWritable = flags &&& ptFlagWritable := by
      rw [show ptFlagWritable = 2 ^ 1 from rfl, and_low hdvd (by decide)]
    simp only [hlow, decide_eq_false_iff_not, hwrite]
    omega

/-- The pages of the direct map. -/
theorem dmap_page (h : Layout begin_ afterRo kernsz ramMax root s) (hram : ramMax ≤ 2 ^ 46)
    (hp : p < ramMax ⌈/⌉ 2 ^ 30 * 2 ^ 30) :
    kptGetPhys s.mem root (kernelPhmap + p) = p ∧ kptCanWrite s.mem root (kernelPhmap + p) = true := by
  have hpages := dmap_pages_le hram
  have hfirst : dmapFirst = 2 ^ 17 := rfl
  have hnumber : pageNumber (kernelPhmap + p) / 512 ^ 2 = dmapFirst + p / 2 ^ 30 := by
    unfold pageNumber kernelPhmap
    omega
  have hfind := h.dmap _ (pageNumber_lt _) (by rw [hnumber]; exact Nat.le_add_right _ _)
    (by rw [hnumber]; omega)
  rw [hnumber, Nat.add_sub_cancel_left, dmapEntry] at hfind
  constructor
  · rw [kptGetPhys_eq _ h.rebase]
    change physOf _ (find root s _) = p
    rw [hfind, physOf_leaf le_rfl dmapFlags_leaf.isFlags (Nat.dvd_mul_left _ _)]
    unfold kernelPhmap
    omega
  · rw [kptCanWrite, h.rebase, h.sound.canWrite_eq (pageNumber_lt _), hfind, Option.any_some]
    have hlow : (p / 2 ^ 30 * 2 ^ 30 ||| dmapFlags) &&& ptFlagWritable = dmapFlags &&& ptFlagWritable := by
      rw [show ptFlagWritable = 2 ^ 1 from rfl,
        and_low (Nat.dvd_trans (by decide : 4096 ∣ 2 ^ 30) (Nat.dvd_mul_left _ _)) (by decide)]
    rw [hlow]
    decide

end Layout

theorem alignUp_eq_ceilDiv {x k : ℕ} (hx : x + (2 ^ k - 1) < 2 ^ 64) (hk : k ≤ 64) :
    Word.alignUp x (2 ^ k) = x ⌈/⌉ 2 ^ k * 2 ^ k := by
  rw [Word.alignUp_eq hx hk, Nat.ceilDiv_eq_add_pred_div, Nat.add_sub_assoc (Nat.two_pow_pos k)]

/-- **The switch changes no translation.**  For the pages of the kernel and those of the direct map,
the boot tables and the ones that replace them translate an address to the same address, and it can
be written by both or by none; the pages of the kernel that cannot are those in
`[_begin, _after_ro)`. -/
theorem switch_preserves {begin_ afterRo kernsz ramMax : ℕ} {s s' : Tables} (hpos : 0 < kernsz)
    (hk : kernsz ≤ 2 ^ 30) (hram : ramMax ≤ 2 ^ 46) (hs : Frames s.free) (hs' : Frames s'.free)
    (hfree : tableFrames kernsz ramMax + 2 ≤ s.free.length)
    (hfree' : tableFrames kernsz ramMax + 1 ≤ s'.free.length) :
    ∃ l4 t l4' t', initHigherHalf begin_ afterRo kernsz ramMax s = some (l4, t) ∧
      remapBootmemPages begin_ afterRo kernsz ramMax s' = some (l4', t') ∧
      (∀ p < Word.alignUp kernsz ptL2Entrysz,
        kptGetPhys t.mem l4 (kernelOffset + p) = p ∧ kptGetPhys t'.mem l4' (kernelOffset + p) = p ∧
        kptCanWrite t.mem l4 (kernelOffset + p) = kptCanWrite t'.mem l4' (kernelOffset + p) ∧
        (kptCanWrite t'.mem l4' (kernelOffset + p) = false ↔
          begin_ ≤ pageAlignDown (kernelOffset + p) ∧ pageAlignDown (kernelOffset + p) < afterRo)) ∧
      ∀ p < Word.alignUp ramMax ptL3Entrysz,
        kptGetPhys t.mem l4 (kernelPhmap + p) = p ∧ kptGetPhys t'.mem l4' (kernelPhmap + p) = p ∧
        kptCanWrite t.mem l4 (kernelPhmap + p) = true ∧
        kptCanWrite t'.mem l4' (kernelPhmap + p) = true := by
  obtain ⟨l4, t, ht, hl, -⟩ := initHigherHalf_spec begin_ afterRo hpos hk hram hs hfree
  obtain ⟨l4', t', ht', hl'⟩ := remapBootmemPages_spec begin_ afterRo hpos hk hram hs' hfree'
  have hkernel : Word.alignUp kernsz ptL2Entrysz = kernsz ⌈/⌉ 2 ^ 21 * 2 ^ 21 :=
    alignUp_eq_ceilDiv (k := 21) (by omega) (by decide)
  have hdmap : Word.alignUp ramMax ptL3Entrysz = ramMax ⌈/⌉ 2 ^ 30 * 2 ^ 30 :=
    alignUp_eq_ceilDiv (k := 30) (by omega) (by decide)
  refine ⟨l4, t, l4', t', ht, ht', fun p hp => ?_, fun p hp => ?_⟩
  · rw [hkernel] at hp
    obtain ⟨hphys, hwrite⟩ := hl.kernel_page hk hp
    obtain ⟨hphys', hwrite'⟩ := hl'.kernel_page hk hp
    refine ⟨hphys, hphys', ?_, hwrite'⟩
    rw [Bool.eq_iff_iff, ← not_iff_not, Bool.not_eq_true, Bool.not_eq_true, hwrite, hwrite']
  · rw [hdmap] at hp
    obtain ⟨hphys, hwrite⟩ := hl.dmap_page hram hp
    obtain ⟨hphys', hwrite'⟩ := hl'.dmap_page hram hp
    exact ⟨hphys, hphys', hwrite, hwrite'⟩

/-- Frames for the tables of a small kernel. -/
def smallFrames : Tables := ⟨fun _ _ => 0, (List.range 9).map fun i => 0x1000 * (i + 1)⟩

/-- A kernel of 5 MiB, with a part that cannot be written, and a memory of 600 GiB: three tables of the last
level, and two for the direct map. -/
theorem switch_preserves_small :
    let begin_ := kernelOffset + 0x100000
    let afterRo := kernelOffset + 0x280000
    ∃ l4 t l4' t', initHigherHalf begin_ afterRo 0x500000 0x9600000000 smallFrames = some (l4, t) ∧
      remapBootmemPages begin_ afterRo 0x500000 0x9600000000 smallFrames = some (l4', t') ∧
      (kptGetPhys t.mem l4 (kernelOffset + 0x201234) = 0x201234 ∧
        kptGetPhys t'.mem l4' (kernelOffset + 0x201234) = 0x201234 ∧
        kptCanWrite t.mem l4 (kernelOffset + 0x201234) = false ∧
        kptCanWrite t'.mem l4' (kernelOffset + 0x201234) = false) ∧
      (kptCanWrite t.mem l4 (kernelOffset + 0x281234) = true ∧
        kptCanWrite t'.mem l4' (kernelOffset + 0x281234) = true) ∧
      kptGetPhys t.mem l4 (kernelPhmap + 0x9500001234) = 0x9500001234 ∧
      kptGetPhys t'.mem l4' (kernelPhmap + 0x9500001234) = 0x9500001234 := by
  intro begin_ afterRo
  have hframes : Frames smallFrames.free := ⟨by decide, by decide⟩
  obtain ⟨l4, t, l4', t', ht, ht', hkernel, hdmap⟩ :=
    @switch_preserves begin_ afterRo 0x500000 0x9600000000 smallFrames smallFrames (by decide) (by decide)
      (by decide) hframes hframes (by decide) (by decide)
  obtain ⟨hphys, hphys', hsame, hro⟩ := hkernel 0x201234 (by decide)
  obtain ⟨-, -, hsameW, hroW⟩ := hkernel 0x281234 (by decide)
  obtain ⟨hd, hd', -⟩ := hdmap 0x9500001234 (by decide)
  have hread := hro.2 ⟨by decide, by decide⟩
  have hwrite := Bool.eq_true_of_not_eq_false fun hno => absurd (hroW.1 hno).2 (by decide)
  exact ⟨l4, t, l4', t', ht, ht', ⟨hphys, hphys', hsame.trans hread, hread⟩, ⟨hsameW.trans hwrite, hwrite⟩,
    hd, hd'⟩

end Pagetbl

end SyncKernel
