/-
**The page allocator and the slab caches on one memory.**

The caches get their slabs from `kbud_alloc` and give them back with `kbud_free`, and both allocators
keep their lists in the memory that they hand out.  The machine has one store of words.  The models of
the two allocators are views of it: the `next` field of a page is the word at its address, and so is a
field of a slab header or of an object.

The header of a region and its bitmaps, and the field `order` of a free page, are words that the model
of the page allocator keeps elsewhere or leaves out; after a call they hold any values, which are an
input of the operation.

Main definitions:

* `Mm.Machine`, `Mm.Machine.pageView`, `Mm.Machine.cacheView` — the machine and its views;
* `Mm.Machine.kbudFreeRange`, `Mm.Machine.kbudAlloc`, `Mm.Machine.kbudFree` — the page allocator;
* `Mm.Machine.kslabCacheCreate`, `Mm.Machine.kslabAlloc`, `Mm.Machine.kslabFree` — the caches, with
  their calls of the page allocator.

`kslab_cache_destroy` is left out, which reads the link of a slab after it has given the slab back.
-/

import SyncKernel.Buddy.History
import SyncKernel.Slab.Frame

set_option relaxedAutoImplicit false
set_option autoImplicit false

namespace SyncKernel

namespace Mm

variable {ι : Type}

/-! ### The machine and its views -/

/-- The page allocator, the caches, the words of memory, and the blocks that `kbud_alloc` handed out
and `kbud_free` has not had back, each with the cache it was handed to, if it was one.  The words of
memory that the two allocators' own states have are not read. -/
structure Machine (ι : Type) where
  pages : Buddy.State
  caches : ι → Slab.State
  words : ℕ → ℕ
  live : List ((ℕ × ℕ) × Option ι)

/-- The page allocator on the words of the machine. -/
def Machine.pageView (m : Machine ι) : Buddy.State :=
  { m.pages with
    mem := fun
      | Buddy.Loc.free r k => m.pages.mem (Buddy.Loc.free r k)
      | Buddy.Loc.next p => m.words p }

/-- A cache on the words of the machine. -/
def Machine.cacheView (m : Machine ι) (i : ι) : Slab.State :=
  { m.caches i with
    mem := fun
      | Slab.Loc.addr a => m.words a
      | l => (m.caches i).mem l }

/-- The word is one that the model of the page allocator does not keep in its store: it lies in the
header of a region, or is the field `order` of a free page. -/
def Scratch (st : Buddy.State) (x : ℕ) : Prop :=
  (∃ i < st.regionCount, st.regions i ≤ x ∧ x < physToVirtPm (st.slaves (st.regions i)).mbase) ∨
    x % pageSize = 16 ∧
      ∃ i < st.regionCount, ∃ k < pframeMaxOrder, x - 16 ∈ Buddy.freeList st (st.regions i) k

instance (st : Buddy.State) (x : ℕ) : Decidable (Scratch st x) :=
  inferInstanceAs (Decidable (_ ∨ _))

/-- The machine after a call of the page allocator that ended in `st`. -/
def Machine.setPages (m : Machine ι) (st : Buddy.State) (junk : ℕ → ℕ) : Machine ι :=
  { m with
    pages := st
    words := fun x => if Scratch st x then junk x else st.mem (Buddy.Loc.next x) }

/-! ### The page allocator -/

/-- `kbud_free_range`. -/
def Machine.kbudFreeRange (m : Machine ι) (vaddr len : ℕ) (junk : ℕ → ℕ) : Option (Machine ι) :=
  (Buddy.kbudFreeRange m.pageView vaddr len).map fun st => m.setPages st junk

/-- `kbud_alloc`, called by the cache `who` or by another caller. -/
def Machine.kbudAlloc (m : Machine ι) (order : ℕ) (who : Option ι) (junk : ℕ → ℕ) :
    Option (ℕ × Machine ι) :=
  (Buddy.kbudAlloc m.pageView order).map fun r =>
    (r.1, { m.setPages r.2 junk with
      live := if r.1 = kpageErr then m.live else ((r.1, order), who) :: m.live })

/-- `kbud_free`. -/
def Machine.kbudFree (m : Machine ι) (vaddr order : ℕ) (junk : ℕ → ℕ) : Option (Machine ι) :=
  (Buddy.kbudFree m.pageView vaddr order).map fun st =>
    { m.setPages st junk with live := m.live.filter fun b => b.1 ≠ (vaddr, order) }

/-! ### The caches -/

variable [DecidableEq ι]

/-- The machine after a call of the cache `i` that ended in `st`. -/
def Machine.setCache (m : Machine ι) (i : ι) (st : Slab.State) : Machine ι :=
  { m with
    caches := Function.update m.caches i st
    words := fun x => st.mem (Slab.Loc.addr x) }

/-- The answer of `kbud_alloc` as the caches take it. -/
def answer (blk : ℕ) : Option ℕ := if blk = kpageErr then none else some blk

/-- `kslab_cache_create`, which asks for the block of the first slab. -/
def Machine.kslabCacheCreate (m : Machine ι) (i : ι) (objsize alignment flags : ℕ) (junk : ℕ → ℕ) :
    Option (ℤ × Machine ι) := do
  let c ← Slab.chooseGeometry objsize alignment
  if c.waste = Slab.noWaste then some (1, m)
  else do
    let (blk, m₁) ← m.kbudAlloc c.order (some i) junk
    let (ret, st) ← Slab.kslabCacheCreate (m₁.cacheView i) objsize alignment flags (answer blk)
    some (ret, m₁.setCache i st)

/-- `kslab_alloc`, which asks for a block when no slab has a free slot. -/
def Machine.kslabAlloc (m : Machine ι) (i : ι) (junk : ℕ → ℕ) : Option (ℕ × Machine ι) := do
  let (obj, st) ← Slab.firstAlloc [Slab.kslabPartialAlloc, Slab.kslabEmptyAlloc] (m.cacheView i)
  let m₁ := m.setCache i st
  if obj ≠ kpageErr then some (obj, m₁)
  else do
    let (blk, m₂) ← m₁.kbudAlloc (m.caches i).cache.order (some i) junk
    let (obj, st) ← Slab.kslabNewAlloc (answer blk) (m₂.cacheView i)
    some (obj, m₂.setCache i st)

/-- `kslab_free`.  A slab that it gives back goes to `kbud_free`, whose writes into the block are the
page allocator's: the cache alone leaves these words as they are. -/
def Machine.kslabFree (m : Machine ι) (i : ι) (obj : ℕ) (junk : ℕ → ℕ) : Option (Machine ι) := do
  let st ← Slab.kslabFree (m.cacheView i) obj m.words
  let m₁ := m.setCache i st
  match st.freed.drop (m.caches i).freed.length with
  | [] => some m₁
  | b :: _ => m₁.kbudFree b.1 b.2 junk

variable {m : Machine ι} {i : ι} {obj : ℕ} {junk : ℕ → ℕ} {st : Slab.State}

/-- `kslab_free`, when the cache keeps its slabs. -/
theorem kslabFree_keep (hrun : Slab.kslabFree (m.cacheView i) obj m.words = some st)
    (hfreed : st.freed = (m.caches i).freed) : m.kslabFree i obj junk = some (m.setCache i st) := by
  rw [Machine.kslabFree, hrun, Option.bind_eq_bind, Option.bind_some, hfreed]
  dsimp only
  rw [List.drop_length]

/-- `kslab_free`, when the cache gives a slab back. -/
theorem kslabFree_back {b : ℕ × ℕ} (hrun : Slab.kslabFree (m.cacheView i) obj m.words = some st)
    (hfreed : st.freed = (m.caches i).freed ++ [b]) :
    m.kslabFree i obj junk = (m.setCache i st).kbudFree b.1 b.2 junk := by
  rw [Machine.kslabFree, hrun, Option.bind_eq_bind, Option.bind_some, hfreed]
  dsimp only
  rw [List.drop_left]

end Mm

end SyncKernel
