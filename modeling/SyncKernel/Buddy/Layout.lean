/-
**The layout of a region.**

`kbud_init_region` puts the bitmaps of the orders behind the record, each rounded up to 64 bytes, and
the memory of the region behind the last of them, rounded up to a page.  The module works with the
bytes of the region: which of them belong to which bitmap, which are cleared, and how the pages of
the range divide into the first one, the reserved ones and those that are handed out.

Addresses wrap around, so a place in a region is its distance from the start of the region.

Main definitions:

* `Buddy.virtCur`, `Buddy.regionMbase` — where the bitmaps and where the header ends;
* `Buddy.initRegionBytes` — the bytes that the initialisation clears;
* `Buddy.RegionLayout` — what the layout of a region should be.

Main results:

* `Buddy.initBitmaps_place` — the place of each bitmap;
* `Buddy.kbudInitRegion_layout` — **the layout of a region** whose header does not wrap around.
-/

import SyncKernel.Buddy.Donate

set_option relaxedAutoImplicit false
set_option autoImplicit false

namespace SyncKernel

namespace Buddy

/-! ### The bytes of a region -/

/-- `memset` to zero. -/
def memset (bytes : ℕ → ℕ) (dst n : ℕ) : ℕ → ℕ :=
  fun a => if Word.sub a dst < n then 0 else bytes a

/-- `virt_cur` when the loop of `kbud_init_region` ends. -/
def virtCur (phy len : ℕ) : ℕ :=
  (initBitmaps (pageAlignDown len / 4096) pframeMaxOrder 0 SlaveBuddy.zeroed
    (Word.alignUp (Word.add (physToVirtPm phy) slaveSz) 8)).2

/-- The `mbase` that `kbud_init_region` computes. -/
def regionMbase (phy len : ℕ) : ℕ :=
  pageAlignUp (Word.add phy (Word.sub (virtCur phy len) (physToVirtPm phy)))

/-- The bytes of memory when `kbud_init_region` returns: a region that it keeps has its bitmaps
cleared. -/
def initRegionBytes (bytes : ℕ → ℕ) (phy len : ℕ) : ℕ → ℕ :=
  let r := physToVirtPm phy
  if regionMbase phy len ≥ Word.add phy len then bytes
  else
    let hdrOffs := Word.sub (virtCur phy len) r
    memset bytes (Word.add r slaveSz) (Word.sub hdrOffs slaveSz)

/-- The byte `j` of the bitmap of the order `i`. -/
def SlaveBuddy.bitmapByte (s : SlaveBuddy) (i j : ℕ) : ℕ := Word.add (s.bitmapArr i) j

/-- The bytes of the bitmap of the order `i`. -/
def SlaveBuddy.bitmapLen (s : SlaveBuddy) (i : ℕ) : ℕ := (s.maxbits i + 7) / 8

/-- **The layout of a region** of `len` bytes at `phy` with the header `s`: the bitmaps lie apart
from each other between the record and the memory of the region and are cleared, and all pages of
the range are accounted for. -/
structure RegionLayout (bytes : ℕ → ℕ) (s : SlaveBuddy) (phy len : ℕ) : Prop where
  maxbits : ∀ i ≤ s.maxOrder, s.maxbits i = len / pageSize / 2 ^ (i + 1)
  inside : ∀ i ≤ s.maxOrder, ∀ j < s.bitmapLen i,
    slaveSz ≤ Word.sub (s.bitmapByte i j) (physToVirtPm phy) ∧
      Word.sub (s.bitmapByte i j) (physToVirtPm phy) < Word.sub s.mbase phy
  apart : ∀ i ≤ s.maxOrder, ∀ i' ≤ s.maxOrder, i ≠ i' →
    ∀ j < s.bitmapLen i, ∀ j' < s.bitmapLen i', s.bitmapByte i j ≠ s.bitmapByte i' j'
  zero : ∀ i ≤ s.maxOrder, ∀ j < s.bitmapLen i, bytes (s.bitmapByte i j) = 0
  pages : 1 + s.bitmapReserved + s.totalPages = len / pageSize
  fits : Word.sub s.mbase phy + s.totalPages * pageSize ≤ len

/-! ### The places of the bitmaps -/

theorem bitmapBytes_add (rpages m n i : ℕ) :
    bitmapBytes rpages (m + n) i = bitmapBytes rpages m i + bitmapBytes rpages n (i + m) := by
  induction m generalizing i with
  | zero => rw [Nat.zero_add, bitmapBytes, Nat.zero_add, Nat.add_zero]
  | succ m ih =>
      rw [Nat.succ_add, bitmapBytes, bitmapBytes, ih, Nat.add_assoc, Nat.add_assoc,
        Nat.add_comm 1 m]

/-- The bitmap of an order ends where the next one starts, or before. -/
theorem bitmapBytes_lt (rpages : ℕ) {i n : ℕ} (hi : i < n) :
    bitmapBytes rpages i 0 + (rpages / 2 ^ (i + 1) + 7) / 8 ≤ bitmapBytes rpages n 0 := by
  obtain ⟨d, rfl⟩ := Nat.exists_eq_add_of_lt hi
  rw [Nat.add_assoc, bitmapBytes_add, Nat.add_comm d 1, bitmapBytes_add, Nat.zero_add, bitmapBytes,
    bitmapBytes]
  omega

/-- What the loop over the orders from `i` on leaves in the header `s`. -/
structure BitmapsAt (rpages n i cur : ℕ) (s s' : SlaveBuddy) : Prop where
  below : ∀ j < i, s'.bitmapArr j = s.bitmapArr j ∧ s'.maxbits j = s.maxbits j
  none : ∀ j, rpages / 2 ^ (j + 1) = 0 → s'.maxbits j = s.maxbits j
  place : ∀ j, i ≤ j → j < i + n → rpages / 2 ^ (j + 1) ≠ 0 →
    s'.bitmapArr j = (cur + bitmapBytes rpages (j - i) i) % 2 ^ 64 ∧
      s'.maxbits j = rpages / 2 ^ (j + 1)
  top : s'.maxOrder = s.maxOrder ∨
    s'.maxOrder < i + n ∧ rpages / 2 ^ (s'.maxOrder + 1) ≠ 0

/-- **The place of each bitmap**, from the place where the loop starts. -/
theorem initBitmaps_place (rpages : ℕ) (hr : rpages < 2 ^ 52) :
    ∀ (n i : ℕ) (s : SlaveBuddy) (cur : ℕ), cur < 2 ^ 64 →
      (initBitmaps rpages n i s cur).2 = (cur + bitmapBytes rpages n i) % 2 ^ 64 ∧
        BitmapsAt rpages n i cur s (initBitmaps rpages n i s cur).1 := by
  intro n
  induction n with
  | zero =>
      intro i s cur hcur
      exact ⟨(Nat.mod_eq_of_lt hcur).symm, fun _ _ => ⟨rfl, rfl⟩, fun _ _ => rfl,
        fun j h₁ h₂ => absurd h₂ (by omega), Or.inl rfl⟩
  | succ n ih =>
      intro i s cur hcur
      by_cases hzero : rpages / 2 ^ (i + 1) = 0
      · rw [initBitmaps_stop hzero, bitmapBytes_eq_zero (n + 1) hzero]
        exact ⟨(Nat.mod_eq_of_lt hcur).symm, fun _ _ => ⟨rfl, rfl⟩, fun _ _ => rfl,
          fun j h₁ _ hne => absurd (div_pow_eq_zero hzero h₁) hne, Or.inl rfl⟩
      · obtain ⟨hend, hat⟩ := ih (i + 1)
          { s with
            bitmapArr := Function.update s.bitmapArr i cur
            maxbits := Function.update s.maxbits i (rpages / 2 ^ (i + 1))
            maxOrder := i }
          ((cur + ((rpages / 2 ^ (i + 1) + 7) / 8 + 63) / 64 * 64) % 2 ^ 64)
          (Nat.mod_lt _ (by decide))
        rw [initBitmaps_next hzero hr, hend, bitmapBytes]
        refine ⟨by omega, fun j hj => ?_, fun j hj => ?_, fun j h₁ h₂ hj => ?_, ?_⟩
        · obtain ⟨harr, hbits⟩ := hat.below j (by omega)
          rw [harr, hbits]
          exact ⟨Function.update_of_ne (by omega) _ _, Function.update_of_ne (by omega) _ _⟩
        · rw [hat.none j hj]
          refine Function.update_of_ne (fun heq => ?_) _ _
          subst heq
          exact hzero hj
        · rcases Nat.eq_or_lt_of_le h₁ with rfl | h₁
          · obtain ⟨harr, hbits⟩ := hat.below i (Nat.lt_succ_self i)
            rw [harr, hbits, Nat.sub_self, bitmapBytes]
            exact ⟨(Function.update_self ..).trans (Nat.mod_eq_of_lt hcur).symm,
              Function.update_self ..⟩
          · obtain ⟨harr, hbits⟩ := hat.place j h₁ (by omega) hj
            obtain ⟨d, rfl⟩ := Nat.exists_eq_add_of_lt h₁
            rw [harr, show i + d + 1 - i = d + 1 by omega, show i + d + 1 - (i + 1) = d by omega,
              bitmapBytes]
            exact ⟨by omega, hbits⟩
        · rcases hat.top with htop | ⟨hlt, hne⟩
          · rw [htop]
            exact Or.inr ⟨by dsimp only; omega, hzero⟩
          · exact Or.inr ⟨by omega, hne⟩

/-! ### The header of a region -/

/-- The header of a region is far shorter than the address space. -/
theorem headerBytes_lt (rpages : ℕ) (h : rpages < 2 ^ 52) : headerBytes rpages < 2 ^ 57 := by
  have hle := bitmapBytes_le rpages pframeMaxOrder 0
  unfold pframeMaxOrder at hle
  unfold headerBytes slaveSz pframeMaxOrder
  omega

/-- A range starts at a page of the virtual address space. -/
theorem physToVirtPm_dvd (p : ℕ) :
    physToVirtPm (4096 * p) % 4096 = 0 ∧ physToVirtPm (4096 * p) < 2 ^ 64 := by
  unfold physToVirtPm Word.add kernelPhmap
  omega

/-- The first bitmap stands right behind the record. -/
theorem bitmapStart_eq (p : ℕ) :
    Word.alignUp (Word.add (physToVirtPm (4096 * p)) slaveSz) 8 =
      physToVirtPm (4096 * p) + slaveSz := by
  obtain ⟨hmod, hlt⟩ := physToVirtPm_dvd p
  rw [Word.add_of_lt (by unfold slaveSz; omega)]
  refine (Word.alignUp_eq (k := 3) (by unfold slaveSz; omega) (by decide)).trans ?_
  unfold slaveSz
  omega

variable {p len : ℕ}

theorem pageAlignDown_div (hlen : len < 2 ^ 64) : pageAlignDown len / 4096 = len / 4096 := by
  rw [pageAlignDown_eq hlen, Nat.mul_div_cancel _ (by decide)]

theorem virtCur_eq (hlen : len < 2 ^ 64) :
    virtCur (4096 * p) len =
      (physToVirtPm (4096 * p) + headerBytes (len / 4096)) % 2 ^ 64 := by
  obtain ⟨hmod, hlt⟩ := physToVirtPm_dvd p
  unfold virtCur
  rw [pageAlignDown_div hlen, bitmapStart_eq,
    (initBitmaps_place (len / 4096) (by omega) _ _ _ _ (by unfold slaveSz; omega)).1, headerBytes,
    Nat.add_assoc]

theorem virtCur_sub (hlen : len < 2 ^ 64) :
    Word.sub (virtCur (4096 * p) len) (physToVirtPm (4096 * p)) = headerBytes (len / 4096) := by
  have hbytes := headerBytes_lt (len / 4096) (by omega)
  have hlt := (physToVirtPm_dvd p).2
  rw [virtCur_eq hlen]
  unfold Word.sub
  omega

/-- The memory of a region starts behind the pages of its header. -/
theorem regionMbase_eq (hp : p + headerPages (len / 4096) < 2 ^ 52) (hlen : len < 2 ^ 64) :
    regionMbase (4096 * p) len = 4096 * (p + headerPages (len / 4096)) := by
  unfold headerPages at hp ⊢
  unfold regionMbase
  rw [virtCur_sub hlen, Word.add_of_lt (by omega)]
  by_cases hwrap : 4096 * p + headerBytes (len / 4096) + 4095 < 2 ^ 64
  · rw [pageAlignUp_eq hwrap]
    omega
  · omega

/-- A region that is kept is longer than its header. -/
theorem lt_of_kept (hp : p + headerPages (len / 4096) < 2 ^ 52) (hlen : len < 2 ^ 64)
    (hkept : regionMbase (4096 * p) len < Word.add (4096 * p) len) :
    4096 * headerPages (len / 4096) < len := by
  rw [regionMbase_eq hp hlen] at hkept
  unfold Word.add at hkept
  omega

theorem enter_self (st : State) (r : ℕ) : (st.enter r).slaves r = SlaveBuddy.zeroed :=
  Function.update_self ..

theorem setSlave_self (st : State) (r : ℕ) (s : SlaveBuddy) : (st.setSlave r s).slaves r = s :=
  Function.update_self ..

/-- **The header of a region** that is kept. -/
theorem kbudInitRegion_header (st : State) (hlen : len < 2 ^ 64)
    (hkept : regionMbase (4096 * p) len < Word.add (4096 * p) len) :
    ∃ s, BitmapsAt (len / 4096) pframeMaxOrder 0 (physToVirtPm (4096 * p) + slaveSz)
        SlaveBuddy.zeroed s ∧
      (kbudInitRegion (st.enter (physToVirtPm (4096 * p))) (4096 * p) len).slaves
          (physToVirtPm (4096 * p)) =
        { s with
          mbase := regionMbase (4096 * p) len
          bitmapReserved :=
            reservedPages (regionMbase (4096 * p) len) (Word.add (4096 * p) pageSize)
          totalPages := Word.sub (Word.add (4096 * p) len) (regionMbase (4096 * p) len) / 4096
          bitmap := fun _ _ => false } := by
  obtain ⟨hmod, hlt⟩ := physToVirtPm_dvd p
  have hzero : (st.enter (physToVirtPm (4096 * p))).slaves (physToVirtPm (4096 * p)) =
      SlaveBuddy.zeroed := enter_self st _
  obtain ⟨hend, hat⟩ := initBitmaps_place (len / 4096) (by omega) pframeMaxOrder 0
    { SlaveBuddy.zeroed with totalPages := len / 4096, rbase := 4096 * p }
    (physToVirtPm (4096 * p) + slaveSz) (by unfold slaveSz; omega)
  rw [Nat.add_assoc] at hend
  have hcur := hend.trans (virtCur_eq (p := p) hlen).symm
  generalize hrun : initBitmaps (len / 4096) pframeMaxOrder 0
    { SlaveBuddy.zeroed with totalPages := len / 4096, rbase := 4096 * p }
    (physToVirtPm (4096 * p) + slaveSz) = out at hcur hat
  obtain ⟨s, cur⟩ := out
  refine ⟨s, ⟨hat.below, hat.none, hat.place, hat.top⟩, ?_⟩
  rw [← hzero] at hrun
  dsimp only at hcur
  subst hcur
  rw [kbudInitRegion_eq rfl (pageAlignDown_div hlen) (bitmapStart_eq p) hrun rfl hkept]
  exact setSlave_self _ _ _

/-- The orders of a kept region, and the places of their bitmaps in it. -/
theorem BitmapsAt.order {rpages r : ℕ} {s : SlaveBuddy} (hr : r < 2 ^ 64) (hrp : rpages < 2 ^ 52)
    (h : BitmapsAt rpages pframeMaxOrder 0 (r + slaveSz) SlaveBuddy.zeroed s) {i : ℕ}
    (hi : i ≤ s.maxOrder) :
    i < pframeMaxOrder ∧ s.maxbits i = rpages / 2 ^ (i + 1) ∧ ∀ j < s.bitmapLen i,
      Word.sub (s.bitmapByte i j) r = slaveSz + bitmapBytes rpages i 0 + j := by
  have hlt : i < pframeMaxOrder := by
    unfold pframeMaxOrder
    rcases h.top with htop | ⟨htop, -⟩
    · rw [htop] at hi
      exact lt_of_le_of_lt hi (by decide)
    · unfold pframeMaxOrder at htop
      omega
  refine ⟨hlt, ?_⟩
  by_cases hzero : rpages / 2 ^ (i + 1) = 0
  · have hbits : s.maxbits i = 0 := h.none i hzero
    refine ⟨by rw [hbits, hzero], fun j hj => ?_⟩
    unfold SlaveBuddy.bitmapLen at hj
    omega
  · obtain ⟨harr, hbits⟩ := h.place i (Nat.zero_le _) (by omega) hzero
    refine ⟨hbits, fun j hj => ?_⟩
    have hbytes := headerBytes_lt rpages hrp
    have hle := bitmapBytes_lt rpages hlt
    unfold SlaveBuddy.bitmapLen at hj
    rw [hbits] at hj
    unfold headerBytes slaveSz at hbytes
    unfold SlaveBuddy.bitmapByte
    rw [harr, Nat.sub_zero]
    unfold Word.sub Word.add slaveSz
    omega

/-- The bitmap of a smaller order ends before the next ones start. -/
theorem BitmapsAt.apart {rpages r : ℕ} {s : SlaveBuddy} (hr : r < 2 ^ 64) (hrp : rpages < 2 ^ 52)
    (h : BitmapsAt rpages pframeMaxOrder 0 (r + slaveSz) SlaveBuddy.zeroed s) {i i' : ℕ}
    (hlt : i < i') (hi' : i' ≤ s.maxOrder) {j j' : ℕ} (hj : j < s.bitmapLen i)
    (hj' : j' < s.bitmapLen i') : s.bitmapByte i j ≠ s.bitmapByte i' j' := by
  obtain ⟨-, hbits, hplace⟩ := h.order hr hrp (hlt.le.trans hi')
  obtain ⟨-, -, hplace'⟩ := h.order hr hrp hi'
  have hend := bitmapBytes_lt rpages hlt
  intro heq
  have hsub := hplace j hj
  rw [heq, hplace' j' hj'] at hsub
  unfold SlaveBuddy.bitmapLen at hj
  rw [hbits] at hj
  omega

/-- The bytes that a kept region clears are those behind its record, up to the end of the bitmaps. -/
theorem initRegionBytes_eq (bytes : ℕ → ℕ) (hlen : len < 2 ^ 64)
    (hkept : regionMbase (4096 * p) len < Word.add (4096 * p) len) {a : ℕ}
    (hle : slaveSz ≤ Word.sub a (physToVirtPm (4096 * p)))
    (hlt : Word.sub a (physToVirtPm (4096 * p)) < headerBytes (len / 4096)) :
    initRegionBytes bytes (4096 * p) len a = 0 := by
  have hbytes := headerBytes_lt (len / 4096) (by omega)
  have hr := (physToVirtPm_dvd p).2
  unfold initRegionBytes
  rw [if_neg (Nat.not_le.2 hkept), virtCur_sub hlen]
  unfold memset
  rw [if_pos]
  unfold Word.sub Word.add slaveSz at *
  omega

/-! ### The layout -/

/-- **The layout of a region** that `kbud_init_region` keeps, when its header does not reach the end
of the physical address space. -/
theorem kbudInitRegion_layout (st : State) (bytes : ℕ → ℕ) (phy len : ℕ) (hphy : pageSize ∣ phy)
    (hlen : len < 2 ^ 64) (hwrap : phy + headerPages (len / pageSize) * pageSize < 2 ^ 64)
    (hkept : regionMbase phy len < Word.add phy len) :
    RegionLayout (initRegionBytes bytes phy len)
      ((kbudInitRegion (st.enter (physToVirtPm phy)) phy len).slaves (physToVirtPm phy)) phy len := by
  obtain ⟨p, rfl⟩ := hphy
  unfold pageSize at hwrap hkept ⊢
  have hp : p + headerPages (len / 4096) < 2 ^ 52 := by omega
  have hr := (physToVirtPm_dvd p).2
  have hfit := lt_of_kept hp hlen hkept
  obtain ⟨s, hat, hs⟩ := kbudInitRegion_header st hlen hkept
  have hmb := regionMbase_eq hp hlen
  have horder := fun i (hi : i ≤ s.maxOrder) => hat.order hr (by omega) hi
  have hend : ∀ i ≤ s.maxOrder, ∀ j < s.bitmapLen i,
      Word.sub (s.bitmapByte i j) (physToVirtPm (4096 * p)) < headerBytes (len / 4096) := by
    intro i hi j hj
    obtain ⟨hlt, hbits, hplace⟩ := horder i hi
    have hle := bitmapBytes_lt (len / 4096) hlt
    rw [hplace j hj]
    unfold SlaveBuddy.bitmapLen at hj
    rw [hbits] at hj
    unfold headerBytes
    omega
  have hmbase : Word.sub (regionMbase (4096 * p) len) (4096 * p) =
      4096 * headerPages (len / 4096) := by
    rw [hmb, Word.sub_of_le (by omega) (by omega)]
    omega
  have hpos := headerPages_pos (len / 4096)
  have hadd : Word.add (4096 * p) len = 4096 * p + len := by
    rw [hmb] at hkept
    unfold Word.add at hkept ⊢
    omega
  have htotal : Word.sub (Word.add (4096 * p) len) (regionMbase (4096 * p) len) / 4096 =
      len / 4096 - headerPages (len / 4096) := by
    rw [hadd, hmb, Word.sub_of_le (by omega) (by rw [hadd] at hkept; unfold Word.add at hadd; omega)]
    omega
  have hreserved : reservedPages (regionMbase (4096 * p) len) (Word.add (4096 * p) pageSize) =
      headerPages (len / 4096) - 1 := by
    unfold reservedPages pageSize
    rw [hmb, Word.add_of_lt (by omega)]
    by_cases hone : headerPages (len / 4096) = 1
    · rw [hone, if_neg (by omega)]
    · rw [if_pos (by omega)]
      omega
  rw [hs]
  refine ⟨fun i hi => (horder i hi).2.1, fun i hi j hj => ?_, fun i hi i' hi' hne j hj j' hj' => ?_,
    fun i hi j hj => ?_, ?_, ?_⟩
  · have hlt := hend i hi j hj
    have heq := (horder i hi).2.2 j hj
    change slaveSz ≤ Word.sub (s.bitmapByte i j) _ ∧ Word.sub (s.bitmapByte i j) _ < _
    rw [hmbase]
    unfold headerPages
    omega
  · rcases Nat.lt_or_gt_of_ne hne with hlt | hlt
    · exact hat.apart hr (by omega) hlt hi' hj hj'
    · exact (hat.apart hr (by omega) hlt hi hj' hj).symm
  · have hle : slaveSz ≤ Word.sub (s.bitmapByte i j) (physToVirtPm (4096 * p)) := by
      have heq := (horder i hi).2.2 j hj
      omega
    exact initRegionBytes_eq bytes hlen hkept hle (hend i hi j hj)
  · dsimp only
    rw [hreserved, htotal, Nat.add_sub_cancel' hpos]
    exact Nat.add_sub_cancel' (by omega)
  · dsimp only
    rw [hmbase, htotal]
    unfold pageSize
    omega

/-- The layout of a region of sixteen pages. -/
theorem kbudInitRegion_layout_sixteen :
    RegionLayout (initRegionBytes (fun _ => 1) 0x100000 0x10000)
      ((kbudInitRegion (State.init.enter (physToVirtPm 0x100000)) 0x100000 0x10000).slaves
        (physToVirtPm 0x100000)) 0x100000 0x10000 :=
  kbudInitRegion_layout State.init (fun _ => 1) 0x100000 0x10000 (by decide) (by decide)
    (by decide +kernel) (by decide +kernel)

/-- In the last page of the physical address space the end of the header wraps around to zero, so
that half a page is kept as a region, with `2 ^ 52 - 1` pages. -/
theorem kbudInitRegion_wraps :
    regionMbase (2 ^ 64 - 4096) 0x800 < Word.add (2 ^ 64 - 4096) 0x800 ∧
      ¬ RegionLayout (initRegionBytes (fun _ => 1) (2 ^ 64 - 4096) 0x800)
        ((kbudInitRegion (State.init.enter (physToVirtPm (2 ^ 64 - 4096))) (2 ^ 64 - 4096)
          0x800).slaves (physToVirtPm (2 ^ 64 - 4096))) (2 ^ 64 - 4096) 0x800 := by
  refine ⟨by decide +kernel, fun h => ?_⟩
  have hpages := h.pages
  unfold pageSize at hpages
  omega

end Buddy

end SyncKernel
