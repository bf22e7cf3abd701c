/-
**The buddy allocator** (`mm/buddy.c`).

The allocator owns regions of physical memory.  A region starts with its own header (`slave_buddy_t`
and one bitmap for each order) and hands out the pages behind it, in blocks of a power of two of
pages.  The free blocks of an order form a singly linked list through their first pages; the bit of
a pair of buddies says that one of them may be on the list.

Pointers are virtual addresses in the direct map, so the null pointer is 0.  A header is a record,
kept by the address of the region; the heads of the free lists and the `next` fields of the free
pages are locations of one store of links.  A bitmap is a function of the order and the index of a
pair, kept beside the address that `bitmap_arr` holds.

Left out, because nothing reads them: `page_frame_t.order`, `lut.base` and the totals of
`master_buddy_t`.

Main definitions:

* `Buddy.SlaveBuddy`, `Buddy.State` — a region header, and the whole state;
* `Buddy.findBuddySlave`, `Buddy.findValidSlave`, `Buddy.kbudInitRegion`, `Buddy.kbudAddRegion`;
* `Buddy.kbudPush`, `Buddy.kbudPop`, `Buddy.kbudPopHead` — the lists and their bits;
* `Buddy.kbudFreeRange`, `Buddy.kbudAlloc`, `Buddy.kbudFree`.

A function returns nothing where the C code follows a null or invalid pointer or writes outside
the table of regions.
-/

import SyncKernel.Lib.Chain
import SyncKernel.Paging

set_option relaxedAutoImplicit false
set_option autoImplicit false

namespace SyncKernel

namespace Buddy

/-! ### The state -/

/-- A location that holds a pointer to a page: the head of the free list of an order in the header
at `r`, or the field `next` of the page at `p`. -/
inductive Loc
  | free (r ord : ℕ)
  | next (p : ℕ)
  deriving DecidableEq

/-- `slave_buddy_t`, the header of a region. -/
structure SlaveBuddy where
  orderBlkCnt : ℕ → ℕ
  maxOrder : ℕ
  bitmapArr : ℕ → ℕ
  bitmap : ℕ → ℕ → Bool
  maxbits : ℕ → ℕ
  bitmapReserved : ℕ
  rbase : ℕ
  mbase : ℕ
  totalPages : ℕ

/-- The table of regions, their headers, and the links of the free lists. -/
structure State where
  regions : ℕ → ℕ
  regionCount : ℕ
  slaves : ℕ → SlaveBuddy
  mem : Loc → ℕ

/-- `sizeof(slave_buddy_t)`. -/
def slaveSz : ℕ := 400

/-- `BITMAP_ALIGN`. -/
def bitmapAlign : ℕ := 64

/-- A zeroed header. -/
def SlaveBuddy.zeroed : SlaveBuddy :=
  ⟨fun _ => 0, 0, fun _ => 0, fun _ _ => false, fun _ => 0, 0, 0, 0, 0⟩

/-- Replacing the header at `r`. -/
def State.setSlave (st : State) (r : ℕ) (s : SlaveBuddy) : State :=
  { st with slaves := Function.update st.slaves r s }

/-- Writing a link. -/
def State.link (st : State) (l : Loc) (p : ℕ) : State :=
  { st with mem := Function.update st.mem l p }

/-! ### Finding a region -/

/-- The binary search of `find_buddy_slave`, over `lo ≤ hi` with the best index so far. -/
def searchSlave (regions : ℕ → ℕ) (phy : ℕ) : ℕ → ℤ → ℤ → ℤ → ℤ
  | 0, _, _, owner => owner
  | n + 1, lo, hi, owner =>
      if lo ≤ hi then
        let mid := (lo + hi) / 2
        if virtToPhysPm (regions mid.toNat) ≤ phy then searchSlave regions phy n (mid + 1) hi mid
        else searchSlave regions phy n lo (mid - 1) owner
      else owner

/-- `find_buddy_slave`. -/
def findBuddySlave (st : State) (phy : ℕ) : ℕ :=
  if st.regionCount = 0 ∨ st.regionCount > pframeMaxRegions then kpageErr
  else
    let owner := searchSlave st.regions phy (st.regionCount + 1) 0 (st.regionCount - 1) (-1)
    if owner ≠ -1 then st.regions owner.toNat else kpageErr

/-- `find_valid_slave`. -/
def findValidSlave (st : State) (phy : ℕ) : ℕ :=
  let s := findBuddySlave st phy
  if s = kpageErr ∨
      phy ≥ Word.add (st.slaves s).mbase ((st.slaves s).totalPages * pageSize % 2 ^ 64) then
    kpageErr
  else s

/-! ### Adding a region -/

/-- The loop of `kbud_init_region` over the orders, from the order `i` on: the header and the end
of the last bitmap. -/
def initBitmaps (rpages : ℕ) : ℕ → ℕ → SlaveBuddy → ℕ → SlaveBuddy × ℕ
  | 0, _, s, cur => (s, cur)
  | n + 1, i, s, cur =>
      let bits := rpages / 2 ^ (i + 1)
      if bits = 0 then (s, cur)
      else
        let bytes := (bits + 7) / 8
        initBitmaps rpages n (i + 1)
          { s with
            bitmapArr := Function.update s.bitmapArr i cur
            maxbits := Function.update s.maxbits i bits
            maxOrder := i }
          (Word.add cur (Word.alignUp bytes bitmapAlign))

/-- `kbud_mark_invalid`: all bytes of the header are ones, except `rbase` and `total_pages`. -/
def kbudMarkInvalid (st : State) (r phy : ℕ) : State where
  regions := st.regions
  regionCount := st.regionCount
  slaves := Function.update st.slaves r
    { orderBlkCnt := fun _ => 2 ^ 64 - 1
      maxOrder := 2 ^ 32 - 1
      bitmapArr := fun _ => kpageErr
      bitmap := (st.slaves r).bitmap
      maxbits := fun _ => 2 ^ 64 - 1
      bitmapReserved := 2 ^ 64 - 1
      rbase := phy
      mbase := 2 ^ 64 - 1
      totalPages := 0 }
  mem
    | Loc.free r' ord => if r' = r then kpageErr else st.mem (Loc.free r' ord)
    | l => st.mem l

/-- The pages between the first page of a region and its memory, `lut.bitmap_reserved`. -/
def reservedPages (mbase physEnd : ℕ) : ℕ :=
  if mbase > physEnd then (mbase - physEnd) / 4096 else 0

/-- `kbud_init_region`. -/
def kbudInitRegion (st : State) (phy len : ℕ) : State :=
  let r := physToVirtPm phy
  let rpages := pageAlignDown len / 4096
  let s := { st.slaves r with totalPages := rpages, rbase := phy }
  let (s, cur) := initBitmaps rpages pframeMaxOrder 0 s (Word.alignUp (Word.add r slaveSz) 8)
  let s := { s with mbase := pageAlignUp (Word.add phy (Word.sub cur r)) }
  if s.mbase ≥ Word.add phy len then kbudMarkInvalid (st.setSlave r s) r phy
  else st.setSlave r { s with
    bitmapReserved := reservedPages s.mbase (Word.add phy pageSize)
    totalPages := Word.sub (Word.add phy len) s.mbase / 4096
    bitmap := fun _ _ => false }

/-- The loop of `kbud_add_region`: the larger of the first `i` entries move up, and `r` takes the
place that becomes free. -/
def insertRegion (r : ℕ) : ℕ → (ℕ → ℕ) → ℕ → ℕ
  | 0, mbr => Function.update mbr 0 r
  | i + 1, mbr =>
      if mbr i > r then insertRegion r i (Function.update mbr (i + 1) (mbr i))
      else Function.update mbr (i + 1) r

/-- The zeroed region at `r` is in the table, with the terminator behind the last entry. -/
def State.enter (st : State) (r : ℕ) : State where
  regions := Function.update (insertRegion r st.regionCount st.regions) (st.regionCount + 1) kpageErr
  regionCount := st.regionCount + 1
  slaves := Function.update st.slaves r SlaveBuddy.zeroed
  mem
    | Loc.free r' ord => if r' = r then 0 else st.mem (Loc.free r' ord)
    | l => st.mem l

/-- `kbud_add_region`.  The terminator goes to the entry behind the last one, which the table does
not have once it is full. -/
def kbudAddRegion (st : State) (phy len : ℕ) : Option (ℕ × State) :=
  if st.regionCount + 1 > pframeMaxRegions then some (kpageErr, st)
  else
    let r := physToVirtPm phy
    if st.regionCount + 1 ≥ pframeMaxRegions then none
    else some (r, kbudInitRegion (st.enter r) phy len)

/-! ### The lists of free blocks and their bits -/

/-- `kbud_pfnum`. -/
def kbudPfnum (phy : ℕ) (s : SlaveBuddy) : ℕ := Word.sub phy s.mbase / 4096

/-- `kbud_pair_idx`. -/
def kbudPairIdx (pfn ord : ℕ) : ℕ := pfn / 2 ^ (ord + 1)

/-- `buddy_bit_chk`. -/
def buddyBitChk (s : SlaveBuddy) (pfn ord : ℕ) : Bool :=
  if ord > s.maxOrder then false
  else if kbudPairIdx pfn ord ≥ s.maxbits ord then false
  else true

/-- `buddy_bit_get`. -/
def buddyBitGet (s : SlaveBuddy) (pfn ord : ℕ) : Option Bool :=
  if s.bitmapArr ord = kpageErr then none else some (s.bitmap ord (kbudPairIdx pfn ord))

/-- Writing the bit of a pair. -/
def buddyBitPut (s : SlaveBuddy) (pfn ord : ℕ) (b : Bool) : Option SlaveBuddy :=
  if s.bitmapArr ord = kpageErr then none
  else some { s with
    bitmap := Function.update s.bitmap ord
      (Function.update (s.bitmap ord) (kbudPairIdx pfn ord) b) }

/-- `buddy_bit_set`. -/
def buddyBitSet (s : SlaveBuddy) (pfn ord : ℕ) : Option SlaveBuddy := buddyBitPut s pfn ord true

/-- `buddy_bit_clr`. -/
def buddyBitClr (s : SlaveBuddy) (pfn ord : ℕ) : Option SlaveBuddy := buddyBitPut s pfn ord false

/-- `kbud_push`. -/
def kbudPush (st : State) (r phy ord : ℕ) : Option (Bool × State) :=
  let s := st.slaves r
  let pfn := kbudPfnum phy s
  if ¬ buddyBitChk s pfn ord then some (false, st)
  else do
    let p := physToVirtPm phy
    let st₁ := (st.link (Loc.next p) (st.mem (Loc.free r ord))).link (Loc.free r ord) p
    let s' ← buddyBitSet
      { s with orderBlkCnt := Function.update s.orderBlkCnt ord (Word.add (s.orderBlkCnt ord) 1) }
      pfn ord
    some (true, st₁.setSlave r s')

/-- `kbud_pop`. -/
def kbudPop (st : State) (r phy ord : ℕ) : Option (Bool × State) :=
  let s := st.slaves r
  let pfn := kbudPfnum phy s
  if ¬ buddyBitChk s pfn ord ∨ s.orderBlkCnt ord = 0 then some (false, st)
  else do
    let cur ← findLink Loc.next 0 st.mem (physToVirtPm phy) addrSpace (Loc.free r ord)
    if st.mem cur = 0 then none
    else
      let st₁ := st.link cur (st.mem (Loc.next (st.mem cur)))
      let s' ← buddyBitClr
        { s with orderBlkCnt := Function.update s.orderBlkCnt ord (Word.sub (s.orderBlkCnt ord) 1) }
        pfn ord
      some (true, st₁.setSlave r s')

/-- `kbud_pop_head`. -/
def kbudPopHead (st : State) (r ord : ℕ) : Option (ℕ × State) :=
  let s := st.slaves r
  let blk := st.mem (Loc.free r ord)
  let pfn := kbudPfnum (virtToPhysPm blk) s
  if ¬ buddyBitChk s pfn ord then some (kpageErr, st)
  else do
    let st₁ := st.link (Loc.free r ord) (st.mem (Loc.next blk))
    let s' ← buddyBitClr
      { s with orderBlkCnt := Function.update s.orderBlkCnt ord (Word.sub (s.orderBlkCnt ord) 1) }
      pfn ord
    some (blk, st₁.setSlave r s')

/-! ### Donating a range -/

/-- `kbud_order_idx`. -/
def kbudOrderIdx (n : ℕ) : ℕ := Word.ctz n - 12

/-- The order of the next block that `kbud_free_range` carves off. -/
def rangeOrder (s : SlaveBuddy) (phys size : ℕ) : ℕ :=
  let lenOrder := 63 - Word.clz (size / pageSize)
  let ptrOrder := kbudOrderIdx phys
  let ord := min lenOrder ptrOrder
  let ord := min (pframeMaxOrder - 1) ord
  min s.maxOrder ord

/-- The loop of `kbud_free_range`. -/
def freeRangeLoop (r : ℕ) : ℕ → State → ℕ → ℕ → Option State
  | 0, _, _, _ => none
  | n + 1, st, phys, size =>
      if size = 0 then some st
      else do
        let ord := rangeOrder (st.slaves r) phys size
        let (_, st₁) ← kbudPush st r phys ord
        let blksz := pageSize * 2 ^ ord
        freeRangeLoop r n st₁ (Word.add phys blksz) (Word.sub size blksz)

/-- `kbud_free_range`. -/
def kbudFreeRange (st : State) (vaddr len : ℕ) : Option State :=
  let phys := pageAlignDown (virtToPhysPm vaddr)
  let s := findValidSlave st phys
  let size := pageAlignDown len
  if s = kpageErr then do
    let (r, st₁) ← kbudAddRegion st phys len
    if r = kpageErr then some st₁
    else
      let s := st₁.slaves r
      let offs := Word.alignUp (Word.sub s.mbase s.rbase) pageSize
      freeRangeLoop r addrSpace st₁ (Word.add phys offs) (Word.sub size offs)
  else freeRangeLoop s addrSpace st phys size

/-! ### Allocating -/

/-- The loop of `kbud_alloc` that looks for an order with a free block. -/
def findOrder (s : SlaveBuddy) : ℕ → ℕ → ℕ
  | 0, ord => ord
  | n + 1, ord =>
      if ord < pframeMaxOrder ∧ s.orderBlkCnt ord = 0 ∧ ord < s.maxOrder then findOrder s n (ord + 1)
      else ord

/-- The loop of `kbud_alloc` that gives the upper halves back, for the given number of orders above
the requested one. -/
def splitLoop (r addr req : ℕ) : ℕ → State → Option State
  | 0, st => some st
  | n + 1, st => do
      let order := req + n
      let buddy := virtToPhysPm addr ^^^ pageSize * 2 ^ order
      let (_, st₁) ← kbudPush st r buddy order
      splitLoop r addr req n st₁

/-- The loop of `kbud_alloc` over the regions, from the index `i` on. -/
def allocLoop (req : ℕ) : ℕ → ℕ → State → Option (ℕ × State)
  | 0, _, st => some (kpageErr, st)
  | n + 1, i, st =>
      let r := st.regions i
      if r = kpageErr then allocLoop req n (i + 1) st
      else
        let order := findOrder (st.slaves r) pframeMaxOrder req
        if order = pframeMaxOrder ∨ order < req then allocLoop req n (i + 1) st
        else do
          let (addr, st₁) ← kbudPopHead st r order
          if addr = kpageErr then allocLoop req n (i + 1) st₁
          else do
            let st₂ ← splitLoop r addr req (order - req) st₁
            some (addr, st₂)

/-- `kbud_alloc`. -/
def kbudAlloc (st : State) (req : ℕ) : Option (ℕ × State) :=
  if req ≥ pframeMaxOrder then some (kpageErr, st)
  else allocLoop req st.regionCount 0 st

/-! ### Freeing -/

/-- Whether the loop of `kbud_free` merges the block at `pfn` once more. -/
def buddyFree (s : SlaveBuddy) (pfn k : ℕ) : Option Bool :=
  let bpfn := pfn ^^^ 2 ^ k
  if bpfn ≥ s.totalPages then some false
  else if ¬ buddyBitChk s bpfn k then some false
  else buddyBitGet s bpfn k

/-- The loop of `kbud_free`, for the given number of orders below the largest: the frame number and
the order of the block that is left to push. -/
def coalesce (r : ℕ) : ℕ → State → ℕ → ℕ → Option (ℕ × ℕ × State)
  | 0, st, pfn, k => some (pfn, k, st)
  | n + 1, st, pfn, k => do
      if (← buddyFree (st.slaves r) pfn k) then do
        let bpfn := pfn ^^^ 2 ^ k
        let buddy := Word.add (st.slaves r).mbase (bpfn * 4096)
        let (_, st₁) ← kbudPop st r buddy k
        let s' ← buddyBitClr (st₁.slaves r) bpfn k
        coalesce r n (st₁.setSlave r s') (pfn &&& Word.not (2 ^ k)) (k + 1)
      else some (pfn, k, st)

/-- `kbud_free`. -/
def kbudFree (st : State) (vaddr order : ℕ) : Option State :=
  let phy := virtToPhysPm vaddr
  let r := findValidSlave st phy
  if r = kpageErr then some st
  else do
    let pfn := kbudPfnum phy (st.slaves r)
    let (pfn, k, st₁) ← coalesce r (pframeMaxOrder - 1 - order) st pfn order
    let (_, st₂) ← kbudPush st₁ r (Word.add (st₁.slaves r).mbase (pfn * 4096)) k
    some st₂

/-- The state before any donation. -/
def State.init : State where
  regions := fun _ => 0
  regionCount := 0
  slaves := fun _ => SlaveBuddy.zeroed
  mem := fun _ => 0

end Buddy

end SyncKernel
