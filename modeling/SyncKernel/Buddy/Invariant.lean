/-
**The invariant of the buddy allocator.**

The free blocks and the live blocks of an allocator are pairwise apart, aligned to their size and
inside the memory of their regions, and the headers and the links describe exactly the free ones.
A block is counted in pages: it has a first page and an order.  The invariant is stated for the free
lists together with a list of blocks that are in use, so that a block in the hands of the code, on
its way from one list to another, counts as one of those.

Main definitions:

* `Buddy.Region`, `Buddy.Blk`, `Buddy.Apart` — regions and blocks, in pages;
* `Buddy.HeaderOk`, `Buddy.ListOk` — a header and a free list in memory;
* `Buddy.Inv` — **the invariant**.

Main results:

* `Buddy.Inv.setList` — the rule for an operation that changes one free list;
* `Buddy.kbudPush_spec`, `Buddy.kbudPop_spec`, `Buddy.kbudPopHead_spec` — the operations on lists.
-/

import Mathlib.Data.List.Pairwise
import SyncKernel.Buddy.Basic

set_option relaxedAutoImplicit false
set_option autoImplicit false

namespace SyncKernel

namespace Buddy

/-! ### Pages, blocks and regions -/

/-- The pointer to a page. -/
def ptr (pg : ℕ) : ℕ := 4096 * pg + kernelPhmap

theorem ptr_injective : Function.Injective ptr := by
  intro a b h
  unfold ptr at h
  omega

theorem ptr_le_ptr {a b : ℕ} : ptr a ≤ ptr b ↔ a ≤ b := by
  unfold ptr
  omega

theorem ptr_ne_zero (pg : ℕ) : ptr pg ≠ 0 := by
  unfold ptr kernelPhmap
  omega

theorem physToVirtPm_page {pg : ℕ} (h : pg < 2 ^ 35) : physToVirtPm (4096 * pg) = ptr pg :=
  physToVirtPm_eq (by omega)

theorem virtToPhysPm_ptr {pg : ℕ} (h : pg < 2 ^ 35) : virtToPhysPm (ptr pg) = 4096 * pg := by
  rw [← physToVirtPm_page h, virtToPhysPm_physToVirtPm (by omega)]

theorem ptr_ne_kpageErr (pg : ℕ) : ptr pg ≠ kpageErr := by
  unfold ptr kernelPhmap kpageErr
  omega

attribute [irreducible] ptr

/-- A block: its order and its first page. -/
structure Blk where
  ord : ℕ
  pg : ℕ
  deriving DecidableEq

/-- Two blocks have no page in common. -/
def Apart (b b' : Blk) : Prop := b.pg + 2 ^ b.ord ≤ b'.pg ∨ b'.pg + 2 ^ b'.ord ≤ b.pg

instance (b b' : Blk) : Decidable (Apart b b') := inferInstanceAs (Decidable (_ ∨ _))

theorem Apart.symm {b b' : Blk} (h : Apart b b') : Apart b' b := Or.symm h

theorem Apart.pg_ne {b b' : Blk} (h : Apart b b') : b.pg ≠ b'.pg := by
  have h₁ : 0 < 2 ^ b.ord := Nat.two_pow_pos _
  have h₂ : 0 < 2 ^ b'.ord := Nat.two_pow_pos _
  rcases h with h | h <;> omega

/-- A region: the page of its header, the first page and the number of the pages it hands out, and
the number of all its pages. -/
structure Region where
  head : ℕ
  start : ℕ
  pages : ℕ
  rpages : ℕ

/-- A region ends with the pages that it hands out, below the end of the direct map. -/
structure Region.Valid (g : Region) : Prop where
  lt : g.head < g.start
  sum : g.start + g.pages = g.head + g.rpages
  le : g.head + g.rpages ≤ 2 ^ 34

/-- The block lies in the pages that the region hands out. -/
def Region.In (g : Region) (b : Blk) : Prop :=
  g.start ≤ b.pg ∧ b.pg + 2 ^ b.ord ≤ g.start + g.pages

instance (g : Region) (b : Blk) : Decidable (g.In b) := inferInstanceAs (Decidable (_ ∧ _))

/-- The bitmap of the region has a bit for the block. -/
def Region.Accepts (g : Region) (b : Blk) : Prop :=
  b.ord ≤ 10 ∧ (b.pg - g.start) / 2 ^ (b.ord + 1) < g.rpages / 2 ^ (b.ord + 1)

instance (g : Region) (b : Blk) : Decidable (g.Accepts b) := inferInstanceAs (Decidable (_ ∧ _))

theorem Region.In.pg_lt {g : Region} {b : Blk} (h : g.In b) (hg : g.Valid) :
    g.head < b.pg ∧ b.pg < 2 ^ 34 := by
  have hpos : 0 < 2 ^ b.ord := Nat.two_pow_pos _
  obtain ⟨h₁, h₂⟩ := h
  obtain ⟨hlt, hsum, hle⟩ := hg
  omega

/-- A region that has a bit for a block has one for its first pages. -/
theorem Region.Accepts.of_le {g : Region} {k k' pg : ℕ} (h : g.Accepts ⟨k, pg⟩) (hk : k' ≤ k) :
    g.Accepts ⟨k', pg⟩ := by
  obtain ⟨hord, hlt⟩ := h
  dsimp only at hord hlt
  refine ⟨hk.trans hord, ?_⟩
  dsimp only
  by_contra hge
  obtain ⟨d, rfl⟩ := Nat.exists_eq_add_of_le hk
  have hmono : g.rpages / 2 ^ (k' + 1) / 2 ^ d ≤ (pg - g.start) / 2 ^ (k' + 1) / 2 ^ d :=
    Nat.div_le_div_right (by omega)
  have hpow : 2 ^ (k' + 1) * 2 ^ d = 2 ^ (k' + d + 1) := by
    rw [← Nat.pow_add]
    congr 1
    omega
  rw [Nat.div_div_eq_div_mul, Nat.div_div_eq_div_mul, hpow] at hmono
  omega

/-! ### The invariant -/

/-- The header describes the region. -/
structure HeaderOk (s : SlaveBuddy) (g : Region) : Prop where
  rbase : s.rbase = 4096 * g.head
  mbase : s.mbase = 4096 * g.start
  totalPages : s.totalPages = g.pages
  maxOrder_le : s.maxOrder ≤ 10
  chk : ∀ pfn k, buddyBitChk s pfn k = true ↔
    k ≤ 10 ∧ pfn / 2 ^ (k + 1) < g.rpages / 2 ^ (k + 1)
  arr : ∀ k, s.bitmapArr k ≠ kpageErr

/-- The free list of one order in memory: the chain, its count, its blocks and its bits. -/
structure ListOk (st : State) (g : Region) (k : ℕ) (l : List ℕ) : Prop where
  chain : Chain Loc.next 0 st.mem (Loc.free (ptr g.head) k) (l.map ptr)
  count : (st.slaves (ptr g.head)).orderBlkCnt k = l.length
  nodup : l.Nodup
  dvd : ∀ pg ∈ l, 2 ^ k ∣ pg
  mem_in : ∀ pg ∈ l, g.In ⟨k, pg⟩
  accepts : ∀ pg ∈ l, g.Accepts ⟨k, pg⟩
  bit : ∀ j, (st.slaves (ptr g.head)).bitmap k j = true →
    ∃ pg ∈ l, (pg - g.start) / 2 ^ (k + 1) = j

/-- The abstract allocator: its regions in order, the free lists by region and order, and the
blocks in use. -/
structure Shape where
  regs : List Region
  free : ℕ → ℕ → List ℕ
  live : List Blk

/-- The block is on a free list. -/
def Shape.IsFree (sh : Shape) (b : Blk) : Prop :=
  ∃ g ∈ sh.regs, b.ord ≤ 10 ∧ b.pg ∈ sh.free g.head b.ord

/-- **The invariant**: the table lists the regions in order, the headers and the links describe the
free lists, and all blocks are aligned, inside their regions and pairwise apart. -/
structure Inv (st : State) (sh : Shape) : Prop where
  count : st.regionCount = sh.regs.length
  le : sh.regs.length < pframeMaxRegions
  table : (List.range st.regionCount).map st.regions = sh.regs.map fun g => ptr g.head
  sorted : sh.regs.Pairwise fun g g' => g.head + g.rpages ≤ g'.head
  valid : ∀ g ∈ sh.regs, g.Valid
  header : ∀ g ∈ sh.regs, HeaderOk (st.slaves (ptr g.head)) g
  list : ∀ g ∈ sh.regs, ∀ k ≤ 10, ListOk st g k (sh.free g.head k)
  sepFree : ∀ b b', sh.IsFree b → sh.IsFree b' → b ≠ b' → Apart b b'
  sepLive : sh.live.Pairwise Apart
  sepMix : ∀ b ∈ sh.live, ∀ f, sh.IsFree f → Apart b f
  live : ∀ b ∈ sh.live, b.ord ≤ 10 ∧ 2 ^ b.ord ∣ b.pg ∧ ∃ g ∈ sh.regs, g.In b

/-- A free list depends on its own count, bits and links only. -/
theorem ListOk.congr {st st' : State} {g : Region} {k : ℕ} {l : List ℕ} (h : ListOk st g k l)
    (hcnt : (st'.slaves (ptr g.head)).orderBlkCnt k = (st.slaves (ptr g.head)).orderBlkCnt k)
    (hbit : (st'.slaves (ptr g.head)).bitmap k = (st.slaves (ptr g.head)).bitmap k)
    (hhead : st'.mem (Loc.free (ptr g.head) k) = st.mem (Loc.free (ptr g.head) k))
    (hnext : ∀ pg ∈ l, st'.mem (Loc.next (ptr pg)) = st.mem (Loc.next (ptr pg))) :
    ListOk st' g k l where
  chain := by
    refine h.chain.congr hhead fun p hp => ?_
    obtain ⟨pg, hpg, rfl⟩ := List.mem_map.1 hp
    exact hnext pg hpg
  count := hcnt.trans h.count
  nodup := h.nodup
  dvd := h.dvd
  mem_in := h.mem_in
  accepts := h.accepts
  bit j hj := h.bit j (by rwa [hbit] at hj)

/-- A change of the count and the bits of one order is none of the rest of a header. -/
theorem HeaderOk.congr {s : SlaveBuddy} {g : Region} (h : HeaderOk s g) (c : ℕ → ℕ)
    (bm : ℕ → ℕ → Bool) : HeaderOk { s with orderBlkCnt := c, bitmap := bm } g :=
  ⟨h.rbase, h.mbase, h.totalPages, h.maxOrder_le, h.chk, h.arr⟩

namespace Inv

variable {st : State} {sh : Shape}

/-- The allocator before any donation. -/
theorem init : Inv State.init ⟨[], fun _ _ => [], []⟩ := by
  refine ⟨rfl, by decide, rfl, List.Pairwise.nil, by simp, by simp, by simp, ?_, List.Pairwise.nil,
    by simp, by simp⟩
  rintro b b' ⟨g, hg, -⟩
  exact absurd hg List.not_mem_nil

/-- Two regions of the table have no page in common. -/
theorem region_apart (h : Inv st sh) {g g' : Region} (hg : g ∈ sh.regs) (hg' : g' ∈ sh.regs)
    (hne : g ≠ g') : g.head + g.rpages ≤ g'.head ∨ g'.head + g'.rpages ≤ g.head := by
  have hsymm : Std.Symm fun g g' : Region =>
      g.head + g.rpages ≤ g'.head ∨ g'.head + g'.rpages ≤ g.head := ⟨fun _ _ => Or.symm⟩
  exact (h.sorted.imp fun hab => Or.inl hab : sh.regs.Pairwise fun g g' : Region =>
    g.head + g.rpages ≤ g'.head ∨ g'.head + g'.rpages ≤ g.head).forall hg hg' hne

/-- The header tells the regions apart. -/
theorem eq_of_head (h : Inv st sh) {g g' : Region} (hg : g ∈ sh.regs) (hg' : g' ∈ sh.regs)
    (heq : g.head = g'.head) : g = g' := by
  by_contra hne
  have hap := h.region_apart hg hg' hne
  have h₁ := (h.valid g hg).lt
  have h₂ := (h.valid g hg).sum
  have h₁' := (h.valid g' hg').lt
  have h₂' := (h.valid g' hg').sum
  omega

/-- The pages that a region hands out tell it apart. -/
theorem eq_of_in (h : Inv st sh) {g g' : Region} (hg : g ∈ sh.regs) (hg' : g' ∈ sh.regs)
    {b b' : Blk} (hin : g.In b) (hin' : g'.In b') (hpg : b.pg = b'.pg) : g = g' := by
  by_contra hne
  have hap := h.region_apart hg hg' hne
  have h₁ := (h.valid g hg).lt
  have h₂ := (h.valid g hg).sum
  have h₁' := (h.valid g' hg').lt
  have h₂' := (h.valid g' hg').sum
  have hpos : 0 < 2 ^ b.ord := Nat.two_pow_pos _
  have hpos' : 0 < 2 ^ b'.ord := Nat.two_pow_pos _
  obtain ⟨h₃, h₄⟩ := hin
  obtain ⟨h₃', h₄'⟩ := hin'
  omega

theorem free_in (h : Inv st sh) {b : Blk} (hb : sh.IsFree b) :
    2 ^ b.ord ∣ b.pg ∧ ∃ g ∈ sh.regs, g.In b := by
  obtain ⟨g, hg, hk, hpg⟩ := hb
  have hl := h.list g hg b.ord hk
  exact ⟨hl.dvd _ hpg, g, hg, hl.mem_in _ hpg⟩

/-- Free blocks of different lists or places start at different pages. -/
theorem pg_ne_of_free (h : Inv st sh) {b b' : Blk} (hb : sh.IsFree b) (hb' : sh.IsFree b')
    (hne : b ≠ b') : b.pg ≠ b'.pg := (h.sepFree b b' hb hb' hne).pg_ne

theorem head_ne (h : Inv st sh) {g g' : Region} (hg : g ∈ sh.regs) (hg' : g' ∈ sh.regs)
    (hne : g ≠ g') : ptr g.head ≠ ptr g'.head := fun he =>
  hne (h.eq_of_head hg hg' (ptr_injective he))

end Inv

/-! ### Changing one list -/

/-- The free lists after the list of the region `g` and the order `k` became `l`. -/
def setFree (free : ℕ → ℕ → List ℕ) (g : Region) (k : ℕ) (l : List ℕ) : ℕ → ℕ → List ℕ :=
  Function.update free g.head (Function.update (free g.head) k l)

@[simp] theorem setFree_self (free : ℕ → ℕ → List ℕ) (g : Region) (k : ℕ) (l : List ℕ) :
    setFree free g k l g.head k = l := by
  simp [setFree]

theorem setFree_of_ne {free : ℕ → ℕ → List ℕ} {g : Region} {k : ℕ} {l : List ℕ} {h k' : ℕ}
    (hne : h ≠ g.head ∨ k' ≠ k) : setFree free g k l h k' = free h k' := by
  by_cases hh : h = g.head
  · subst hh
    rw [setFree, Function.update_self, Function.update_of_ne (hne.resolve_left fun h => h rfl)]
  · rw [setFree, Function.update_of_ne hh]

/-- A new count and new bits for one order. -/
def SlaveBuddy.set (s : SlaveBuddy) (k c : ℕ) (bits : ℕ → Bool) : SlaveBuddy :=
  { s with
    orderBlkCnt := Function.update s.orderBlkCnt k c
    bitmap := Function.update s.bitmap k bits }

/-- The state after a change of one free list. -/
def State.setList (st : State) (r k c : ℕ) (bits : ℕ → Bool) (mem : Loc → ℕ) : State where
  regions := st.regions
  regionCount := st.regionCount
  slaves := Function.update st.slaves r ((st.slaves r).set k c bits)
  mem := mem

@[simp] theorem State.setList_mem (st : State) (r k c : ℕ) (bits : ℕ → Bool) (mem : Loc → ℕ) :
    (st.setList r k c bits mem).mem = mem := rfl

@[simp] theorem State.setList_slaves_self (st : State) (r k c : ℕ) (bits : ℕ → Bool)
    (mem : Loc → ℕ) : (st.setList r k c bits mem).slaves r = (st.slaves r).set k c bits :=
  Function.update_self ..

theorem State.setList_slaves_of_ne {st : State} {r r' k c : ℕ} {bits : ℕ → Bool}
    {mem : Loc → ℕ} (hne : r' ≠ r) : (st.setList r k c bits mem).slaves r' = st.slaves r' :=
  Function.update_of_ne hne _ _

@[simp] theorem SlaveBuddy.set_orderBlkCnt (s : SlaveBuddy) (k c : ℕ) (bits : ℕ → Bool) :
    (s.set k c bits).orderBlkCnt k = c := Function.update_self ..

@[simp] theorem SlaveBuddy.set_bitmap (s : SlaveBuddy) (k c : ℕ) (bits : ℕ → Bool) :
    (s.set k c bits).bitmap k = bits := Function.update_self ..

/-- **The rule for a change of one free list**: the header gets a new count and new bits for the
order, and the links of the other lists keep their values. -/
theorem Inv.setList {st : State} {regs : List Region} {free : ℕ → ℕ → List ℕ}
    {live live' : List Blk} (h : Inv st ⟨regs, free, live⟩) {g : Region} (hg : g ∈ regs) {k c : ℕ}
    {bits : ℕ → Bool} {mem : Loc → ℕ} {l : List ℕ}
    (hhead : ∀ r ord, r ≠ ptr g.head ∨ ord ≠ k → mem (Loc.free r ord) = st.mem (Loc.free r ord))
    (hnext : ∀ g' ∈ regs, ∀ k' ≤ 10, g' ≠ g ∨ k' ≠ k → ∀ pg ∈ free g'.head k',
      mem (Loc.next (ptr pg)) = st.mem (Loc.next (ptr pg)))
    (hl : ListOk (st.setList (ptr g.head) k c bits mem) g k l)
    (hfree : ∀ b b', (⟨regs, setFree free g k l, live'⟩ : Shape).IsFree b →
      (⟨regs, setFree free g k l, live'⟩ : Shape).IsFree b' → b ≠ b' → Apart b b')
    (hlive : live'.Pairwise Apart)
    (hmix : ∀ b ∈ live', ∀ f, (⟨regs, setFree free g k l, live'⟩ : Shape).IsFree f → Apart b f)
    (hin : ∀ b ∈ live', b.ord ≤ 10 ∧ 2 ^ b.ord ∣ b.pg ∧ ∃ g ∈ regs, g.In b) :
    Inv (st.setList (ptr g.head) k c bits mem) ⟨regs, setFree free g k l, live'⟩ where
  count := h.count
  le := h.le
  table := h.table
  sorted := h.sorted
  valid := h.valid
  header g' hg' := by
    by_cases hgg : g' = g
    · rw [hgg, State.setList_slaves_self]
      exact (h.header g hg).congr _ _
    · rw [State.setList_slaves_of_ne (h.head_ne hg' hg hgg)]
      exact h.header g' hg'
  list g' hg' k' hk' := by
    dsimp only
    by_cases hsame : g' = g ∧ k' = k
    · obtain ⟨rfl, rfl⟩ := hsame
      rw [setFree_self]
      exact hl
    · have hne : g' ≠ g ∨ k' ≠ k := by
        by_cases hgg : g' = g
        · exact Or.inr fun hkk => hsame ⟨hgg, hkk⟩
        · exact Or.inl hgg
      have hne' : g'.head ≠ g.head ∨ k' ≠ k :=
        hne.imp (fun hgg he => hgg (h.eq_of_head hg' hg he)) id
      rw [setFree_of_ne hne']
      have hslave : ((st.setList (ptr g.head) k c bits mem).slaves (ptr g'.head)).orderBlkCnt k' =
          (st.slaves (ptr g'.head)).orderBlkCnt k' ∧
          ((st.setList (ptr g.head) k c bits mem).slaves (ptr g'.head)).bitmap k' =
            (st.slaves (ptr g'.head)).bitmap k' := by
        by_cases hgg : g' = g
        · have hkk : k' ≠ k := hne.resolve_left fun h => h hgg
          rw [hgg, State.setList_slaves_self]
          exact ⟨Function.update_of_ne hkk _ _, Function.update_of_ne hkk _ _⟩
        · rw [State.setList_slaves_of_ne (h.head_ne hg' hg hgg)]
          exact ⟨rfl, rfl⟩
      exact (h.list g' hg' k' hk').congr hslave.1 hslave.2
        (hhead _ _ (hne'.imp (fun he hp => he (ptr_injective hp)) id)) (hnext g' hg' k' hk' hne)
  sepFree := hfree
  sepLive := hlive
  sepMix := hmix
  live := hin

/-! ### Pushing -/

theorem kbudPfnum_page {s : SlaveBuddy} {g : Region} (hs : HeaderOk s g) {pg : ℕ}
    (hstart : g.start ≤ pg) (hpg : pg < 2 ^ 35) : kbudPfnum (4096 * pg) s = pg - g.start := by
  have hle : 4096 * g.start ≤ 4096 * pg := by omega
  rw [kbudPfnum, hs.mbase, Word.sub_of_le hle (by omega), ← Nat.mul_sub,
    Nat.mul_div_cancel_left _ (by decide)]

theorem buddyBitPut_ok {s : SlaveBuddy} {g : Region} (hs : HeaderOk s g) (pfn ord : ℕ) (b : Bool) :
    buddyBitPut s pfn ord b = some { s with
      bitmap := Function.update s.bitmap ord
        (Function.update (s.bitmap ord) (kbudPairIdx pfn ord) b) } :=
  if_neg (hs.arr ord)

/-- A block in use becomes a free block of its order. -/
theorem isFree_push {regs : List Region} {free : ℕ → ℕ → List ℕ} {live : List Blk} {g : Region}
    {b f : Blk} (hg : g ∈ regs)
    (hf : (⟨regs, setFree free g b.ord (b.pg :: free g.head b.ord), live⟩ : Shape).IsFree f) :
    f = b ∨ (⟨regs, free, live⟩ : Shape).IsFree f := by
  obtain ⟨g', hg', hk, hpg⟩ := hf
  by_cases hsame : g'.head = g.head ∧ f.ord = b.ord
  · rw [hsame.1, hsame.2] at hpg
    change f.pg ∈ setFree free g b.ord _ g.head b.ord at hpg
    rw [setFree_self] at hpg
    rcases List.mem_cons.1 hpg with he | hpg
    · left
      cases f
      cases b
      simp_all
    · exact Or.inr ⟨g, hg, hk, by rwa [hsame.2]⟩
  · have hne : g'.head ≠ g.head ∨ f.ord ≠ b.ord := by
      by_cases hh : g'.head = g.head
      · exact Or.inr fun hk => hsame ⟨hh, hk⟩
      · exact Or.inl hh
    change f.pg ∈ setFree free g b.ord _ g'.head f.ord at hpg
    rw [setFree_of_ne hne] at hpg
    exact Or.inr ⟨g', hg', hk, hpg⟩

/-- The list with a block in front of it. -/
theorem ListOk.push {st : State} {g : Region} {k pg : ℕ} {fl : List ℕ} (hl : ListOk st g k fl)
    (hdvd : 2 ^ k ∣ pg) (hin : g.In ⟨k, pg⟩) (hacc : g.Accepts ⟨k, pg⟩) (hnotmem : pg ∉ fl) :
    ListOk (st.setList (ptr g.head) k (fl.length + 1)
      (Function.update ((st.slaves (ptr g.head)).bitmap k) ((pg - g.start) / 2 ^ (k + 1)) true)
      (Function.update (Function.update st.mem (Loc.next (ptr pg)) (st.mem (Loc.free (ptr g.head) k)))
        (Loc.free (ptr g.head) k) (ptr pg))) g k (pg :: fl) := by
  refine ⟨?_, by simp, List.nodup_cons.2 ⟨hnotmem, hl.nodup⟩, List.forall_mem_cons.2 ⟨hdvd, hl.dvd⟩,
    List.forall_mem_cons.2 ⟨hin, hl.mem_in⟩, List.forall_mem_cons.2 ⟨hacc, hl.accepts⟩, fun j hj => ?_⟩
  · refine hl.chain.push (ptr_ne_zero _) (by simp) (by simp) fun p hp => ?_
    obtain ⟨pg', hpg, rfl⟩ := List.mem_map.1 hp
    intro he
    exact hnotmem (ptr_injective (Loc.next.inj he) ▸ hpg)
  · simp only [State.setList_slaves_self, SlaveBuddy.set_bitmap, Function.update_apply] at hj
    by_cases hj' : j = (pg - g.start) / 2 ^ (k + 1)
    · exact ⟨pg, List.mem_cons_self, hj'.symm⟩
    · rw [if_neg hj'] at hj
      obtain ⟨pg', hpg, he⟩ := hl.bit j hj
      exact ⟨pg', List.mem_cons_of_mem _ hpg, he⟩

/-- The list without one of its blocks. -/
theorem ListOk.unlink {st : State} {g : Region} {k pg : ℕ} {l₁ l₂ : List ℕ}
    (hl : ListOk st g k (l₁ ++ pg :: l₂)) :
    ListOk (st.setList (ptr g.head) k (l₁ ++ l₂).length
      (Function.update ((st.slaves (ptr g.head)).bitmap k) ((pg - g.start) / 2 ^ (k + 1)) false)
      (Function.update st.mem (linkOf Loc.next (Loc.free (ptr g.head) k) (l₁.map ptr))
        (st.mem (Loc.next (ptr pg))))) g k (l₁ ++ l₂) := by
  have hsub : ∀ p ∈ l₁ ++ l₂, p ∈ l₁ ++ pg :: l₂ := by
    intro p hp
    rcases List.mem_append.1 hp with hp | hp <;> simp [hp]
  refine ⟨?_, by simp, (List.nodup_cons.1 (List.nodup_middle.1 hl.nodup)).2, fun p hp => hl.dvd p (hsub p hp),
    fun p hp => hl.mem_in p (hsub p hp), fun p hp => hl.accepts p (hsub p hp), fun j hj => ?_⟩
  · have hchain := hl.chain
    rw [List.map_append, List.map_cons] at hchain
    have hun := hchain.unlink (fun b _ => by simp) (by
      rw [← List.map_cons, ← List.map_append]
      exact (hl.nodup.map ptr_injective).map fun a b hab => Loc.next.inj hab)
    rwa [← List.map_append] at hun
  · simp only [State.setList_slaves_self, SlaveBuddy.set_bitmap, Function.update_apply] at hj
    by_cases hj' : j = (pg - g.start) / 2 ^ (k + 1)
    · simp [hj'] at hj
    · rw [if_neg hj'] at hj
      obtain ⟨p, hp, he⟩ := hl.bit j hj
      refine ⟨p, ?_, he⟩
      have hne : p ≠ pg := fun hpe => hj' (by rw [← he, hpe])
      simpa [hne] using hp

/-- **Pushing a block**: a block in hand goes to the front of the free list of its order, when the
region has a bit for it. -/
theorem kbudPush_spec {st : State} {regs : List Region} {free : ℕ → ℕ → List ℕ} {live : List Blk}
    {b : Blk} (h : Inv st ⟨regs, free, b :: live⟩) {g : Region} (hg : g ∈ regs) (hin : g.In b)
    (hacc : g.Accepts b) :
    ∃ c bits mem,
      kbudPush st (ptr g.head) (4096 * b.pg) b.ord =
        some (true, st.setList (ptr g.head) b.ord c bits mem) ∧
      Inv (st.setList (ptr g.head) b.ord c bits mem)
        ⟨regs, setFree free g b.ord (b.pg :: free g.head b.ord), live⟩ := by
  obtain ⟨hord, hdvd, -⟩ := h.live b (by simp)
  have hs := h.header g hg
  have hv := h.valid g hg
  have hlt := hin.pg_lt hv
  have hl : ListOk st g b.ord (free g.head b.ord) := h.list g hg b.ord hord
  have hnew : ∀ f, (⟨regs, free, b :: live⟩ : Shape).IsFree f → Apart b f := fun f hf =>
    h.sepMix b (by simp) f hf
  have hbpg : ∀ g' ∈ regs, ∀ k' ≤ 10, ∀ pg ∈ free g'.head k', pg ≠ b.pg := fun g' hg' k' hk' pg hpg =>
    ((hnew ⟨k', pg⟩ ⟨g', hg', hk', hpg⟩).pg_ne).symm
  have hpfn := kbudPfnum_page hs hin.1 (by omega : b.pg < 2 ^ 35)
  have hptr := physToVirtPm_page (by omega : b.pg < 2 ^ 35)
  have hchk : buddyBitChk (st.slaves (ptr g.head)) (b.pg - g.start) b.ord = true :=
    (hs.chk _ _).2 hacc
  have hcnt : Word.add ((st.slaves (ptr g.head)).orderBlkCnt b.ord) 1 =
      (free g.head b.ord).length + 1 := by
    rw [hl.count]
    have hlen : (free g.head b.ord).length ≤ 2 ^ 34 :=
      length_le_of_nodup_of_lt hl.nodup fun pg hpg => ((hl.mem_in pg hpg).pg_lt hv).2
    exact Word.add_of_lt (by omega)
  refine ⟨(free g.head b.ord).length + 1, Function.update ((st.slaves (ptr g.head)).bitmap b.ord)
    ((b.pg - g.start) / 2 ^ (b.ord + 1)) true,
    Function.update (Function.update st.mem (Loc.next (ptr b.pg))
      (st.mem (Loc.free (ptr g.head) b.ord))) (Loc.free (ptr g.head) b.ord) (ptr b.pg), ?_, ?_⟩
  · unfold kbudPush
    simp only [hpfn, hchk, not_true_eq_false, if_false, hptr, hcnt]
    rw [buddyBitSet, buddyBitPut_ok (hs.congr _ _), Option.bind_eq_bind, Option.bind_some]
    rfl
  · refine h.setList hg (fun r ord hne => ?_) (fun g' hg' k' hk' _ pg hpg => ?_) ?_ ?_ ?_ ?_ ?_
    · rw [Function.update_of_ne (by rcases hne with hne | hne <;> simp [hne]),
        Function.update_of_ne (by simp)]
    · rw [Function.update_of_ne (by simp), Function.update_of_ne fun he =>
        hbpg g' hg' k' hk' pg hpg (ptr_injective (Loc.next.inj he))]
    · exact hl.push hdvd hin hacc fun hm => hbpg g hg b.ord hord _ hm rfl
    · intro f f' hf hf' hne
      rcases isFree_push hg hf with he | hf₀
      · rcases isFree_push hg hf' with he' | hf₀'
        · exact absurd (he.trans he'.symm) hne
        · exact he ▸ hnew f' hf₀'
      · rcases isFree_push hg hf' with he' | hf₀'
        · exact he' ▸ (hnew f hf₀).symm
        · exact h.sepFree f f' hf₀ hf₀' hne
    · exact (List.pairwise_cons.1 h.sepLive).2
    · intro a ha f hf
      rcases isFree_push hg hf with he | hf₀
      · exact he ▸ ((List.pairwise_cons.1 h.sepLive).1 a ha).symm
      · exact h.sepMix a (List.mem_cons_of_mem _ ha) f hf₀
    · exact fun a ha => h.live a (List.mem_cons_of_mem _ ha)

/-! ### Popping -/

/-- A block that is free after a list was shortened was free before, and if it was on that list it
still is. -/
theorem isFree_erase {st : State} {regs : List Region} {free : ℕ → ℕ → List ℕ}
    {live live' : List Blk} (h : Inv st ⟨regs, free, live⟩) {g : Region} {k : ℕ} {l : List ℕ}
    {f : Blk} (hg : g ∈ regs) (hsub : ∀ pg ∈ l, pg ∈ free g.head k)
    (hf : (⟨regs, setFree free g k l, live'⟩ : Shape).IsFree f) :
    (⟨regs, free, live⟩ : Shape).IsFree f ∧ (f.ord = k → f.pg ∈ free g.head k → f.pg ∈ l) := by
  obtain ⟨g', hg', hk, hpg⟩ := hf
  change f.pg ∈ setFree free g k l g'.head f.ord at hpg
  by_cases hsame : g'.head = g.head ∧ f.ord = k
  · rw [hsame.1, hsame.2, setFree_self] at hpg
    exact ⟨⟨g, hg, hk, by rw [hsame.2]; exact hsub _ hpg⟩, fun _ _ => hpg⟩
  · have hne : g'.head ≠ g.head ∨ f.ord ≠ k := by
      by_cases hh : g'.head = g.head
      · exact Or.inr fun hk => hsame ⟨hh, hk⟩
      · exact Or.inl hh
    rw [setFree_of_ne hne] at hpg
    refine ⟨⟨g', hg', hk, hpg⟩, fun hok hmem => absurd ?_ hsame⟩
    subst hok
    obtain rfl := h.eq_of_in hg' hg ((h.list g' hg' _ hk).mem_in _ hpg)
      ((h.list g hg _ hk).mem_in _ hmem) rfl
    exact ⟨rfl, rfl⟩

/-- **Unlinking a free block**: it becomes a block in use. -/
theorem Inv.unlink {st : State} {regs : List Region} {free : ℕ → ℕ → List ℕ} {live : List Blk}
    (h : Inv st ⟨regs, free, live⟩) {g : Region} (hg : g ∈ regs) {k pg : ℕ} (hk : k ≤ 10)
    (l₁ : List ℕ) {l₂ : List ℕ} (hlist : free g.head k = l₁ ++ pg :: l₂) :
    Inv (st.setList (ptr g.head) k (l₁ ++ l₂).length
        (Function.update ((st.slaves (ptr g.head)).bitmap k) ((pg - g.start) / 2 ^ (k + 1)) false)
        (Function.update st.mem (linkOf Loc.next (Loc.free (ptr g.head) k) (l₁.map ptr))
          (st.mem (Loc.next (ptr pg)))))
      ⟨regs, setFree free g k (l₁ ++ l₂), ⟨k, pg⟩ :: live⟩ := by
  have hl : ListOk st g k (free g.head k) := h.list g hg k hk
  rw [hlist] at hl
  have hsub : ∀ p ∈ l₁ ++ l₂, p ∈ free g.head k := by
    intro p hp
    rw [hlist]
    rcases List.mem_append.1 hp with hp | hp <;> simp [hp]
  have hnotmem : pg ∉ l₁ ++ l₂ := (List.nodup_cons.1 (List.nodup_middle.1 hl.nodup)).1
  have hpgfree : (⟨regs, free, live⟩ : Shape).IsFree ⟨k, pg⟩ := ⟨g, hg, hk, by simp [hlist]⟩
  have hlistfree : ∀ p ∈ l₁, (⟨regs, free, live⟩ : Shape).IsFree ⟨k, p⟩ := fun p hp =>
    ⟨g, hg, hk, by simp [hlist, hp]⟩
  -- the block is on no list any more
  have hgone : ∀ f, (⟨regs, setFree free g k (l₁ ++ l₂), ⟨k, pg⟩ :: live⟩ : Shape).IsFree f →
      (⟨regs, free, live⟩ : Shape).IsFree f ∧ (⟨k, pg⟩ : Blk) ≠ f := by
    intro f hf
    obtain ⟨hold, hmem⟩ := isFree_erase h hg hsub hf
    refine ⟨hold, ?_⟩
    rintro rfl
    exact hnotmem (hmem rfl (by simp [hlist]))
  refine h.setList hg (fun r ord hne => ?_) (fun g' hg' k' hk' hne p hp => ?_) ?_ ?_ ?_ ?_ ?_
  · refine Function.update_of_ne ?_ _ _
    rcases linkOf_eq Loc.next (Loc.free (ptr g.head) k) (l₁.map ptr) with he | ⟨q, -, he⟩
    · rw [he]
      rcases hne with hne | hne <;> simp [hne]
    · simp [he]
  · refine Function.update_of_ne ?_ _ _
    rcases linkOf_eq Loc.next (Loc.free (ptr g.head) k) (l₁.map ptr) with he | ⟨q, hq, he⟩
    · simp [he]
    · obtain ⟨p', hp', rfl⟩ := List.mem_map.1 hq
      rw [he]
      intro heq
      obtain rfl : p = p' := ptr_injective (Loc.next.inj heq)
      have hpfree : (⟨regs, free, live⟩ : Shape).IsFree ⟨k', p⟩ := ⟨g', hg', hk', hp⟩
      by_cases hkk : k' = k
      · obtain rfl := h.eq_of_in hg' hg ((h.list g' hg' k' hk').mem_in p hp)
          (hl.mem_in p (by simp [hp'])) rfl
        exact hne.elim (fun h => h rfl) fun h => h hkk
      · exact h.pg_ne_of_free hpfree (hlistfree p hp') (by simp [hkk]) rfl
  · exact hl.unlink
  · intro f f' hf hf' hne
    exact h.sepFree f f' (hgone f hf).1 (hgone f' hf').1 hne
  · refine List.pairwise_cons.2 ⟨fun a ha => (h.sepMix a ha _ hpgfree).symm, h.sepLive⟩
  · intro a ha f hf
    rcases List.mem_cons.1 ha with rfl | ha
    · exact h.sepFree _ f hpgfree (hgone f hf).1 (hgone f hf).2
    · exact h.sepMix a ha f (hgone f hf).1
  · intro a ha
    rcases List.mem_cons.1 ha with rfl | ha
    · exact ⟨hk, hl.dvd pg (by simp), g, hg, hl.mem_in pg (by simp)⟩
    · exact h.live a ha

/-- The facts about a free block of a list that the code computes with. -/
theorem Inv.block_facts {st : State} {regs : List Region} {free : ℕ → ℕ → List ℕ} {live : List Blk}
    (h : Inv st ⟨regs, free, live⟩) {g : Region} (hg : g ∈ regs) {k pg : ℕ} (hk : k ≤ 10)
    (hpg : pg ∈ free g.head k) :
    kbudPfnum (4096 * pg) (st.slaves (ptr g.head)) = pg - g.start ∧
      physToVirtPm (4096 * pg) = ptr pg ∧ virtToPhysPm (ptr pg) = 4096 * pg ∧
      buddyBitChk (st.slaves (ptr g.head)) (pg - g.start) k = true ∧
      (st.slaves (ptr g.head)).orderBlkCnt k ≠ 0 ∧
      Word.sub ((st.slaves (ptr g.head)).orderBlkCnt k) 1 = (free g.head k).length - 1 := by
  have hl : ListOk st g k (free g.head k) := h.list g hg k hk
  have hin := hl.mem_in pg hpg
  have hlt := (hin.pg_lt (h.valid g hg)).2
  have hpos := List.length_pos_of_mem hpg
  have hlen : (free g.head k).length ≤ 2 ^ 34 :=
    length_le_of_nodup_of_lt hl.nodup fun p hp => ((hl.mem_in p hp).pg_lt (h.valid g hg)).2
  dsimp only at hlt
  refine ⟨kbudPfnum_page (h.header g hg) hin.1 (by omega), physToVirtPm_page (by omega),
    virtToPhysPm_ptr (by omega), ((h.header g hg).chk _ _).2 (hl.accepts pg hpg), ?_, ?_⟩
  · rw [hl.count]
    omega
  · rw [hl.count]
    exact Word.sub_of_le hpos (by omega)

/-- **Popping a free block** by its address. -/
theorem kbudPop_spec {st : State} {regs : List Region} {free : ℕ → ℕ → List ℕ} {live : List Blk}
    (h : Inv st ⟨regs, free, live⟩) {g : Region} (hg : g ∈ regs) {k pg : ℕ} (hk : k ≤ 10)
    (hpg : pg ∈ free g.head k) :
    ∃ l₁ l₂ mem, free g.head k = l₁ ++ pg :: l₂ ∧
      kbudPop st (ptr g.head) (4096 * pg) k =
        some (true, st.setList (ptr g.head) k (l₁ ++ l₂).length
          (Function.update ((st.slaves (ptr g.head)).bitmap k) ((pg - g.start) / 2 ^ (k + 1)) false)
          mem) ∧
      Inv (st.setList (ptr g.head) k (l₁ ++ l₂).length
          (Function.update ((st.slaves (ptr g.head)).bitmap k) ((pg - g.start) / 2 ^ (k + 1)) false)
          mem)
        ⟨regs, setFree free g k (l₁ ++ l₂), ⟨k, pg⟩ :: live⟩ := by
  obtain ⟨hpfn, hptr, -, hchk, hcnt, hdec⟩ := h.block_facts hg hk hpg
  obtain ⟨l₁, l₂, hlist⟩ := List.append_of_mem hpg
  have hl : ListOk st g k (free g.head k) := h.list g hg k hk
  have hchain := hl.chain
  rw [hlist, List.map_append, List.map_cons] at hchain
  have hnd := hl.nodup
  rw [hlist] at hnd hdec
  have hnotmem : ptr pg ∉ l₁.map ptr := by
    intro hm
    obtain ⟨q, hq, he⟩ := List.mem_map.1 hm
    exact (List.nodup_append.1 hnd).2.2 q hq pg (by simp) (ptr_injective he)
  have hlen : (l₁.map ptr).length < addrSpace := by
    have hle : (free g.head k).length ≤ 2 ^ 34 :=
      length_le_of_nodup_of_lt hl.nodup fun p hp => ((hl.mem_in p hp).pg_lt (h.valid g hg)).2
    rw [hlist, List.length_append] at hle
    rw [List.length_map]
    unfold addrSpace
    omega
  have hfind := findLink_mem hchain hnotmem hlen
  have hcur := hchain.drop.1
  have hlen' : (l₁ ++ pg :: l₂).length - 1 = (l₁ ++ l₂).length := by simp
  refine ⟨l₁, l₂, _, hlist, ?_, h.unlink hg hk l₁ hlist⟩
  unfold kbudPop
  simp only [hpfn, hchk, hcnt, not_true_eq_false, or_self, if_false, hptr, hfind,
    Option.bind_eq_bind, Option.bind_some, hcur, ptr_ne_zero, hdec, hlen']
  rw [buddyBitClr, buddyBitPut_ok ((h.header g hg).congr _ _), Option.bind_some]
  rfl

/-- **Popping the first block** of a free list. -/
theorem kbudPopHead_spec {st : State} {regs : List Region} {free : ℕ → ℕ → List ℕ}
    {live : List Blk} (h : Inv st ⟨regs, free, live⟩) {g : Region} (hg : g ∈ regs) {k pg : ℕ}
    (hk : k ≤ 10) {l : List ℕ} (hlist : free g.head k = pg :: l) :
    ∃ c bits mem, kbudPopHead st (ptr g.head) k =
        some (ptr pg, st.setList (ptr g.head) k c bits mem) ∧
      Inv (st.setList (ptr g.head) k c bits mem)
        ⟨regs, setFree free g k l, ⟨k, pg⟩ :: live⟩ := by
  have hpg : pg ∈ free g.head k := by simp [hlist]
  obtain ⟨hpfn, -, hphys, hchk, -, hdec⟩ := h.block_facts hg hk hpg
  have hl : ListOk st g k (free g.head k) := h.list g hg k hk
  have hchain := hl.chain
  rw [hlist] at hchain hdec
  have hhead : st.mem (Loc.free (ptr g.head) k) = ptr pg := hchain.1
  have hlen' : (pg :: l).length - 1 = ([] ++ l).length := by simp
  refine ⟨_, _, _, ?_, h.unlink hg hk [] hlist⟩
  unfold kbudPopHead
  simp only [hhead, hphys, hpfn, hchk, not_true_eq_false, if_false, hdec, hlen']
  rw [buddyBitClr, buddyBitPut_ok ((h.header g hg).congr _ _), Option.bind_eq_bind,
    Option.bind_some]
  rfl

/-- The head of an empty list is no block that the region has a bit for. -/
theorem Inv.head_refused {st : State} {regs : List Region} {free : ℕ → ℕ → List ℕ}
    {live : List Blk} (h : Inv st ⟨regs, free, live⟩) {g : Region} (hg : g ∈ regs) {k : ℕ}
    (hk : k ≤ 10) (hlist : free g.head k = []) :
    buddyBitChk (st.slaves (ptr g.head)) (kbudPfnum (virtToPhysPm
      (st.mem (Loc.free (ptr g.head) k))) (st.slaves (ptr g.head))) k = false := by
  have hl : ListOk st g k (free g.head k) := h.list g hg k hk
  have hchain := hl.chain
  rw [hlist] at hchain
  have hhead : st.mem (Loc.free (ptr g.head) k) = 0 := hchain
  have hs := h.header g hg
  have hv := h.valid g hg
  have hle := hv.le
  have hsum := hv.sum
  have hpfn : kbudPfnum (virtToPhysPm 0) (st.slaves (ptr g.head)) = 2 ^ 35 - g.start := by
    have hzero : virtToPhysPm 0 = 4096 * 2 ^ 35 := by decide
    rw [hzero, kbudPfnum, hs.mbase, Word.sub_of_le (by omega) (by decide), ← Nat.mul_sub,
      Nat.mul_div_cancel_left _ (by decide)]
  rw [hhead, hpfn, ← Bool.not_eq_true, hs.chk]
  rintro ⟨-, hlt⟩
  have hmono : g.rpages / 2 ^ (k + 1) ≤ (2 ^ 35 - g.start) / 2 ^ (k + 1) :=
    Nat.div_le_div_right (by omega)
  omega

end Buddy

end SyncKernel
