/-
**The slab allocator** (`mm/slab.c`).

A cache keeps its slabs on three singly linked lists (full, partial, empty).  A slab is one block
of the buddy allocator: a header `struct kslab` at its base, then the object slots.  The free slots
of a slab form a list that is threaded through the slots themselves.

Memory is a store of words.  A location is one of the three list heads of the cache or an address;
a field of a header is the word at its offset, so that a header and an object may in principle
overlap, and that they never do is a theorem and not a feature of the model.  The buddy allocator
appears through its two calls: `kbud_alloc` answers with a block or with `KPAGE_ERR`, which is an
input of the operation, and `kbud_free` takes a block back and writes the `next` and `order` fields
of a `page_frame_t`, at the offsets 0 and 16 of the block.  The state records the blocks that
`kbud_alloc` handed out and `kbud_free` has not had back, and the calls of `kbud_free`.

Left out: `kslab_cache.identifier` and the `cache` and `prev` fields of `struct kslab`, which are
written and never read.

Main definitions:

* `Slab.KslabCache`, `Slab.State` — the scalar fields of the cache, and the whole state;
* `Slab.kslabNewSlab`, `Slab.kslabCacheCreate`, `Slab.kslabCacheDestroy`;
* `Slab.kslabRemoveNode`, `Slab.kslabRelinkNode`;
* `Slab.kslabPartialAlloc`, `Slab.kslabEmptyAlloc`, `Slab.kslabNewAlloc`, `Slab.kslabAlloc`;
* `Slab.kslabFree`.

A function returns nothing where the C code dereferences a null pointer, divides by zero or walks
a list for ever.
-/

import SyncKernel.Lib.Chain
import SyncKernel.Paging

set_option relaxedAutoImplicit false
set_option autoImplicit false

namespace SyncKernel

namespace Slab

/-! ### The state -/

/-- A location that holds a word: the head of one of the cache's lists, or a word of memory. -/
inductive Loc
  | listFull
  | listPartial
  | listEmpty
  | addr (a : ℕ)
  deriving DecidableEq

/-- `sizeof(struct kslab)`. -/
def slabHdrSz : ℕ := 48

/-- The field `next` of the slab at `s`. -/
def nextOf (s : ℕ) : Loc := Loc.addr (s + 8)

/-- The field `pool` of the slab at `s`. -/
def poolOf (s : ℕ) : Loc := Loc.addr (s + 24)

/-- The field `freelist` of the slab at `s`. -/
def freelistOf (s : ℕ) : Loc := Loc.addr (s + 32)

/-- The field `free_count` of the slab at `s`. -/
def freeCountOf (s : ℕ) : Loc := Loc.addr (s + 40)

/-- The scalar fields of `kslab_cache_t`. -/
structure KslabCache where
  order : ℕ
  objSize : ℕ
  alignment : ℕ
  slabPages : ℕ
  emptySlabs : ℕ
  slabObjsPer : ℕ
  waste : ℕ
  reserved : ℕ
  metadata : ℕ
  maxEmptySlabs : ℕ
  deriving DecidableEq

/-- A cache, the memory it works on, and its account with the buddy allocator. -/
structure State where
  cache : KslabCache
  mem : Loc → ℕ
  /-- the blocks `kbud_alloc` handed out and `kbud_free` has not had back -/
  owned : List ℕ
  /-- the calls of `kbud_free`, oldest first: the block and the order -/
  freed : List (ℕ × ℕ)

/-- A zeroed cache. -/
def KslabCache.zeroed : KslabCache := ⟨0, 0, 0, 0, 0, 0, 0, 0, 0, 0⟩

/-- A zeroed cache over the memory `m`. -/
def State.zeroed (m : ℕ → ℕ) : State where
  cache := KslabCache.zeroed
  mem
    | Loc.addr a => m a
    | _ => 0
  owned := []
  freed := []

/-- Writing one word. -/
def State.store (st : State) (l : Loc) (v : ℕ) : State :=
  { st with mem := Function.update st.mem l v }

/-! ### The buddy allocator's side -/

/-- `kbud_alloc`: the answer `blk`, unless the order is out of range. -/
def kbudAlloc (order : ℕ) (blk : Option ℕ) : ℕ :=
  if order ≥ pframeMaxOrder then kpageErr else blk.getD kpageErr

/-- `kbud_free`: the block leaves the cache, and the allocator writes its list link and the order
into the page header at the base of the block, the values `junk`. -/
def kbudFree (st : State) (s order : ℕ) (junk : ℕ → ℕ) : State where
  cache := st.cache
  mem := Function.update (Function.update st.mem (Loc.addr s) (junk s)) (Loc.addr (s + 16))
    (junk (s + 16))
  owned := st.owned.erase s
  freed := st.freed ++ [(s, order)]

/-! ### Building a slab -/

/-- `memset(s, 0, size)`. -/
def zeroBlock (s size : ℕ) (mem : Loc → ℕ) : Loc → ℕ
  | Loc.addr a => if s ≤ a ∧ a < s + size then 0 else mem (Loc.addr a)
  | l => mem l

/-- The loop of `kslab_new_slab` that links each slot to the next, for the given number of rounds:
the last slot and the memory. -/
def linkSlots (objSize : ℕ) : ℕ → ℕ → (Loc → ℕ) → ℕ × (Loc → ℕ)
  | 0, curr, mem => (curr, mem)
  | n + 1, curr, mem =>
      linkSlots objSize n (Word.add curr objSize)
        (Function.update mem (Loc.addr curr) (Word.add curr objSize))

/-- `kslab_new_slab`. -/
def kslabNewSlab (st : State) (blk : Option ℕ) : Option (ℕ × State) :=
  let rmem := kbudAlloc st.cache.order blk
  if rmem = kpageErr then some (kpageErr, st)
  else do
    let mem := zeroBlock rmem (buddyOrderToVal st.cache.order) st.mem
    let pe ← findLink nextOf 0 mem 0 addrSpace Loc.listEmpty
    let pool := Word.add rmem st.cache.reserved
    let mem := Function.update mem pe rmem
    let mem := Function.update mem (poolOf rmem) pool
    let mem := Function.update mem (freelistOf rmem) pool
    let mem := Function.update mem (freeCountOf rmem) st.cache.slabObjsPer
    let rounds := Word.dec32 st.cache.slabObjsPer
    let last := linkSlots st.cache.objSize rounds pool mem
    some (rmem, { st with
      mem := Function.update last.2 (Loc.addr last.1) 0
      owned := rmem :: st.owned })

/-! ### Creating and destroying a cache -/

/-- The candidate geometry that `kslab_cache_create` keeps while it tries the orders. -/
structure Ctx where
  order : ℕ
  reserved : ℕ
  count : ℕ
  waste : ℕ

/-- `ctx_waste` before any order was accepted. -/
def noWaste : ℕ := 2 ^ 64 - 1

/-- One round of the loop of `kslab_cache_create`, for the order `i`. -/
def tryOrder (objsize alignment : ℕ) (c : Ctx) (i : ℕ) : Option Ctx :=
  let size := 2 ^ i * pageSize
  let pad := (alignment - slabHdrSz % alignment) % alignment
  let reserved := Word.add slabHdrSz pad
  if alignment = 0 then none
  else if size ≤ reserved then some c
  else if objsize = 0 then none
  else
    let rem := size - reserved
    let objs := rem / objsize
    if objs < 8 ∧ i < 4 then some c
    else if objs = 0 then some c
    else
      let waste := size - (reserved + objs * objsize)
      if waste < c.waste then some ⟨i, reserved % 2 ^ 32, objs, waste⟩ else some c

/-- The geometry that the loop of `kslab_cache_create` ends with. -/
def chooseGeometry (objsize alignment : ℕ) : Option Ctx :=
  (List.range 4).foldlM (tryOrder objsize alignment) ⟨0, 0, 0, noWaste⟩

/-- The fields that `kslab_cache_create` sets, and its `empty_slabs++`. -/
def setGeometry (st : State) (c : Ctx) (objsize alignment flags : ℕ) : State :=
  { st with
    cache :=
      { order := c.order
        objSize := objsize
        alignment := alignment
        slabPages := buddyOrderToVal c.order / pageSize
        emptySlabs := (st.cache.emptySlabs + 1) % 2 ^ 32
        slabObjsPer := c.count % 2 ^ 32
        waste := c.waste % 2 ^ 32
        reserved := c.reserved
        metadata := flags % 2 ^ 32
        maxEmptySlabs := 4 } }

/-- `kslab_cache_create`. -/
def kslabCacheCreate (st : State) (objsize alignment flags : ℕ) (blk : Option ℕ) :
    Option (ℤ × State) := do
  let c ← chooseGeometry objsize alignment
  if c.waste = noWaste then some (1, st)
  else do
    let (s, st₁) ← kslabNewSlab (setGeometry st c objsize alignment flags) blk
    if s = kpageErr then some (-1, st₁) else some (0, st₁)

/-- The loop of `kslab_cache_destroy` over one list: the pointer is re-aimed at the `next` field of
the slab before the slab is given back. -/
def destroyList (junk : ℕ → ℕ) : ℕ → Loc → State → Option State
  | 0, _, _ => none
  | n + 1, p, st =>
      if st.mem p = 0 then some st
      else
        let s := st.mem p
        destroyList junk n (nextOf s) (kbudFree st s st.cache.order junk)

/-- `kslab_cache_destroy`. -/
def kslabCacheDestroy (st : State) (junk : ℕ → ℕ) : Option State := do
  let st₁ ← destroyList junk addrSpace Loc.listFull st
  let st₂ ← destroyList junk addrSpace Loc.listPartial st₁
  let st₃ ← destroyList junk addrSpace Loc.listEmpty st₂
  some { st₃ with
    cache := { st₃.cache with objSize := 2 ^ 64 - 1, slabPages := 0, order := 2 ^ 32 - 1 } }

/-! ### Moving slabs between the lists -/

/-- `kslab_remove_node`. -/
def kslabRemoveNode (st : State) (start : Loc) (target : ℕ) (junk : ℕ → ℕ) : Option State := do
  let p ← findLink nextOf 0 st.mem target addrSpace start
  let st₁ := if st.mem p = 0 then st else st.store p (st.mem (nextOf target))
  some (kbudFree st₁ target st.cache.order junk)

/-- `kslab_relink_node`. -/
def kslabRelinkNode (st : State) (start dest : Loc) (target : ℕ) : Option State := do
  let p ← findLink nextOf 0 st.mem target addrSpace start
  let st₁ := if st.mem p = 0 then st else st.store p (st.mem (nextOf target))
  let st₂ := st₁.store (nextOf target) 0
  let p' ← findLink nextOf 0 st₂.mem 0 addrSpace dest
  some (st₂.store p' target)

/-! ### Allocating and freeing objects -/

/-- `retalloc = slab->freelist; slab->freelist = *retalloc`. -/
def takeObject (st : State) (slab : ℕ) : Option (ℕ × State) :=
  let retalloc := st.mem (freelistOf slab)
  if retalloc = 0 then none
  else some (retalloc, st.store (freelistOf slab) (st.mem (Loc.addr retalloc)))

/-- `slab->free_count--`. -/
def decFreeCount (st : State) (slab : ℕ) : State :=
  st.store (freeCountOf slab) (Word.dec32 (st.mem (freeCountOf slab)))

/-- `cache->empty_slabs--`. -/
def decEmptySlabs (st : State) : State :=
  { st with cache := { st.cache with emptySlabs := Word.dec32 st.cache.emptySlabs } }

/-- `cache->empty_slabs++`. -/
def incEmptySlabs (st : State) : State :=
  { st with cache := { st.cache with emptySlabs := (st.cache.emptySlabs + 1) % 2 ^ 32 } }

/-- `kslab_partial_alloc`. -/
def kslabPartialAlloc (st : State) : Option (ℕ × State) :=
  let slab := st.mem Loc.listPartial
  if slab = 0 then some (kpageErr, st)
  else do
    let st₁ := decFreeCount st slab
    let st₂ ← (if st₁.mem (freeCountOf slab) = 0
      then kslabRelinkNode st₁ Loc.listPartial Loc.listFull slab else some st₁)
    takeObject st₂ slab

/-- `kslab_empty_alloc`. -/
def kslabEmptyAlloc (st : State) : Option (ℕ × State) :=
  let slab := st.mem Loc.listEmpty
  if slab = 0 then some (kpageErr, st)
  else do
    let st₁ ← kslabRelinkNode st Loc.listEmpty Loc.listPartial slab
    let (obj, st₂) ← takeObject (decEmptySlabs st₁) slab
    some (obj, decFreeCount st₂ slab)

/-- `kslab_new_alloc`. -/
def kslabNewAlloc (blk : Option ℕ) (st : State) : Option (ℕ × State) := do
  let (slab, st₁) ← kslabNewSlab st blk
  if slab = kpageErr then some (kpageErr, st₁) else kslabEmptyAlloc st₁

/-- The loop of `kslab_alloc` over the ways to allocate. -/
def firstAlloc : List (State → Option (ℕ × State)) → State → Option (ℕ × State)
  | [], st => some (kpageErr, st)
  | f :: fs, st => do
      let (obj, st₁) ← f st
      if obj ≠ kpageErr then some (obj, st₁) else firstAlloc fs st₁

/-- `kslab_alloc`, with the answer that `kbud_alloc` gives if it is asked. -/
def kslabAlloc (st : State) (blk : Option ℕ) : Option (ℕ × State) :=
  firstAlloc [kslabPartialAlloc, kslabEmptyAlloc, kslabNewAlloc blk] st

/-- `kslab_free`. -/
def kslabFree (st : State) (obj : ℕ) (junk : ℕ → ℕ) : Option State :=
  let slab := obj &&& Word.not (Word.sub (buddyOrderToVal st.cache.order) 1)
  if slab = 0 ∨ obj = 0 then none
  else do
    let wasFull := st.mem (freeCountOf slab) = 0
    let st₁ := st.store (Loc.addr obj) (st.mem (freelistOf slab))
    let st₂ := st₁.store (freelistOf slab) obj
    let st₃ := st₂.store (freeCountOf slab) ((st₂.mem (freeCountOf slab) + 1) % 2 ^ 32)
    let isEmpty := st₃.mem (freeCountOf slab) = st.cache.slabObjsPer
    if wasFull then kslabRelinkNode st₃ Loc.listFull Loc.listPartial slab
    else if isEmpty then do
      let st₄ ← kslabRelinkNode st₃ Loc.listPartial Loc.listEmpty slab
      let st₅ := incEmptySlabs (incEmptySlabs st₄)
      if st₅.cache.emptySlabs > st₅.cache.maxEmptySlabs then do
        let st₆ ← kslabRemoveNode st₅ Loc.listEmpty (st₅.mem Loc.listEmpty) junk
        some (decEmptySlabs st₆)
      else some st₅
    else some st₃

end Slab

end SyncKernel
