/-
**Page tables** (`pagetbl.c`, `boot.c`).

The memory of the page tables is known by the physical address of each table and by the index of the
entry.  Before the switch to the higher half the code goes through physical addresses, and takes its
frames from `alloc_frame`; behind it, it goes through the direct map, and takes them from
`kbud_alloc`.  Both are represented by the frames that they are going to hand out.

The two pairs of functions that build the tables, before and behind the switch, do the same with
their own pointers, and the loops of `pt_map_huge` and its siblings are built like those for the
direct map; so each of them is an instance of one definition.

Main definitions:

* `Pagetbl.Tables` — the memory of the tables, and the frames that are free;
* `Pagetbl.kptGetPhys` — the translation of an address;
* `Pagetbl.tableFor` — `chk_pt_alloc` and `return_pt_or_alloc`;
* `Pagetbl.turn` — the nested loops that fill the tables;
* `Pagetbl.initHigherHalf`, `Pagetbl.remapBootmemPages` — the tables before and behind the switch.

A function returns nothing where the C code goes on with the error pointer of an allocator that has
no frames.
-/

import SyncKernel.Lib.Radix
import SyncKernel.Lib.Run
import SyncKernel.Paging

set_option relaxedAutoImplicit false
set_option autoImplicit false

namespace SyncKernel

namespace Pagetbl

open Radix.Format (set clear)

/-! ### Entries and addresses -/

/-- `PT_FLAG_PRESENT`. -/
def ptFlagPresent : ℕ := 1 <<< 0

/-- `PT_FLAG_WRITABLE`. -/
def ptFlagWritable : ℕ := 1 <<< 1

/-- `PT_FLAG_PAGESIZE`. -/
def ptFlagPagesize : ℕ := 1 <<< 7

/-- `PT_FLAGS_RW`. -/
def ptFlagsRw : ℕ := ptFlagPresent ||| ptFlagWritable

/-- `PT_ENTRIES`. -/
def ptEntries : ℕ := 512

/-- `PT_L2_ENTRYSZ`. -/
def ptL2Entrysz : ℕ := pageSize * ptEntries

/-- `PT_L3_ENTRYSZ`. -/
def ptL3Entrysz : ℕ := ptL2Entrysz * ptEntries

/-- `PT_L4_ENTRYSZ`. -/
def ptL4Entrysz : ℕ := ptL3Entrysz * ptEntries

/-- The index of an address in a table of the level `ℓ`. -/
def pageIdx (ℓ v : ℕ) : ℕ := (v >>> (3 + 9 * ℓ)) &&& 0x1FF

/-- `page_l4_idx`. -/
def pageL4Idx : ℕ → ℕ := pageIdx 4

/-- `page_l3_idx`. -/
def pageL3Idx : ℕ → ℕ := pageIdx 3

/-- `page_l2_idx`. -/
def pageL2Idx : ℕ → ℕ := pageIdx 2

/-- `page_l1_idx`. -/
def pageL1Idx : ℕ → ℕ := pageIdx 1

/-- `BITRANGE_MASK`. -/
def bitrangeMask (a b : ℕ) : ℕ := 1 <<< (a - b + 1) - 1

/-- `page_phys_rebase`. -/
def pagePhysRebase (phys shift mask : ℕ) : ℕ := ((phys >>> shift) &&& mask) <<< shift

/-- `PT_REBASE`. -/
def ptRebase (p : ℕ) : ℕ := pagePhysRebase p 12 (bitrangeMask 51 12)

/-- `phys_to_virt_of`. -/
def physToVirtOf (p : ℕ) : ℕ := Word.add p kernelOffset

/-- `get_pagetbl_count_l1`, `get_pagetbl_count_l2` and `get_pagetbl_count_l3`, for the size of an
entry one level above. -/
def pagetblCount (bytes entrysz : ℕ) : ℕ := Word.alignUp bytes entrysz / entrysz

/-! ### Tables -/

/-- The page tables by their physical addresses, and the frames that are free. -/
structure Tables where
  mem : ℕ → ℕ → ℕ
  free : List ℕ

/-- How the code comes from physical addresses to pointers and back. -/
structure Pointers where
  ptr : ℕ → ℕ
  phys : ℕ → ℕ
  phys_ptr : ∀ f < 2 ^ 64, phys (ptr f) = f

/-- The identity map, before the switch. -/
def identMap : Pointers := ⟨id, id, fun _ _ => rfl⟩

/-- The direct map, behind the switch. -/
def directMap : Pointers where
  ptr := physToVirtPm
  phys := virtToPhysPm
  phys_ptr := by
    intro f hf
    unfold physToVirtPm virtToPhysPm Word.add Word.sub kernelPhmap
    omega

/-- `kpt_get_phys`, with the physical address of the top table in `cr3`. -/
def kptGetPhys (mem : ℕ → ℕ → ℕ) (cr3 vaddr : ℕ) : ℕ :=
  let entries := fun p => mem (virtToPhysPm p)
  let pml4 := physToVirtPm (ptRebase cr3)
  let entry := entries pml4 (pageL4Idx vaddr)
  if entry &&& ptFlagPresent = 0 then kpageErr
  else
    let pdpt := physToVirtPm (ptRebase entry)
    let entry := entries pdpt (pageL3Idx vaddr)
    if entry &&& ptFlagPresent = 0 then kpageErr
    else if entry &&& ptFlagPagesize ≠ 0 then
      pagePhysRebase entry 30 (bitrangeMask 51 30) ||| (vaddr &&& bitrangeMask 29 0)
    else
      let pd := physToVirtPm (ptRebase entry)
      let entry := entries pd (pageL2Idx vaddr)
      if entry &&& ptFlagPresent = 0 then kpageErr
      else if entry &&& ptFlagPagesize ≠ 0 then
        pagePhysRebase entry 21 (bitrangeMask 51 21) ||| (vaddr &&& bitrangeMask 20 0)
      else
        let pt := physToVirtPm (ptRebase entry)
        let entry := entries pt (pageL1Idx vaddr)
        if entry &&& ptFlagPresent = 0 then kpageErr
        else ptRebase entry ||| (vaddr &&& bitrangeMask 11 0)

/-! ### Building -/

variable (P : Pointers)

/-- The table that an entry leads to, which is allocated if there is none: `chk_pt_alloc` and
`return_pt_or_alloc` for the entry `i` of the table at the pointer `p`. -/
def tableFor (p i : ℕ) (s : Tables) : Option (ℕ × Tables) :=
  let pte := s.mem (P.phys p) i
  if pte &&& ptFlagPresent = 0 then
    match s.free with
    | [] => none
    | f :: free =>
        let q := P.ptr f
        let mem := clear s.mem (P.phys q) 0
        some (q, ⟨set mem (P.phys p) i (P.phys q ||| ptFlagsRw), free⟩)
  else some (P.ptr (ptRebase pte), s)

/-- `chk_pt_alloc`. -/
def chkPtAlloc : ℕ → ℕ → Tables → Option (ℕ × Tables) := tableFor identMap

/-- `return_pt_or_alloc`. -/
def returnPtOrAlloc : ℕ → ℕ → Tables → Option (ℕ × Tables) := tableFor directMap

/-- The variables of the loops: the tables, the addresses that are mapped next, and the entries that
remain to be set in the tables of each level (`l3_ent_rem`, `l2_ent_rem`, `l1_ent_rem`). -/
structure Cursor where
  tables : Tables
  vbase : ℕ
  pbase : ℕ
  rem : ℕ → ℕ

/-- The innermost turn of a loop: an entry of the table `t` of the level `ℓ` is set for the size that
it stands for, and both addresses go on behind it. -/
def put (ℓ flags t : ℕ) (c : Cursor) : Cursor :=
  let entrysz := 1 <<< (3 + 9 * ℓ)
  { c with
    tables := ⟨set c.tables.mem (P.phys t) (pageIdx ℓ c.vbase) (c.pbase ||| flags), c.tables.free⟩
    vbase := Word.add c.vbase entrysz
    pbase := Word.add c.pbase entrysz }

/-- The number of entries that are set in one table. -/
def capped (rem : ℕ) : ℕ := if rem > 512 then 512 else rem

theorem capped_eq_min (rem : ℕ) : capped rem = min 512 rem := by
  rw [capped]
  split <;> omega

/-- A turn of a loop over the entries of the table `parent`: the table of the level `ℓ` that the next
address belongs to, as `table` returns it, is filled by a loop with the given bound. -/
def turnWith (table : ℕ → ℕ → Tables → Option (ℕ × Tables)) (ℓ : ℕ) (bound : ℕ → ℕ)
    (body : ℕ → Cursor → Option Cursor) (parent : ℕ) (c : Cursor) : Option Cursor := do
  let (t, tables) ← table parent (pageIdx (ℓ + 1) c.vbase) c.tables
  let c' ← Run.loop (fun _ => body t) (bound (c.rem ℓ)) { c with tables := tables }
  some { c' with rem := Function.update c'.rem ℓ (c.rem ℓ - capped (c.rem ℓ)) }

/-- The turn with the tables of `tableFor`. -/
def turn (ℓ : ℕ) (bound : ℕ → ℕ) (body : ℕ → Cursor → Option Cursor) : ℕ → Cursor → Option Cursor :=
  turnWith (tableFor P) ℓ bound body

/-- The turn over the top table in `pt_init_dram_map`, `remap_bootmem_dmap_pages` and
`pt_map_huge`. -/
def hugeTurn (flags : ℕ) : ℕ → Cursor → Option Cursor :=
  turn P 3 capped fun t c => some (put P 3 (flags ||| ptFlagPagesize) t c)

/-- `pt_init_dram_map` and `remap_bootmem_dmap_pages`. -/
def dmapPages (l4 dmap ramsz : ℕ) (s : Tables) : Option Tables := do
  let ptL3Count := pagetblCount ramsz ptL4Entrysz
  let ptL2Count := pagetblCount ramsz ptL3Entrysz
  let c ← Run.loop (fun _ => hugeTurn P ptFlagsRw l4) ptL3Count ⟨s, dmap, 0, fun _ => ptL2Count⟩
  some c.tables

/-- `pt_init_dram_map`. -/
def ptInitDramMap (ptL4 ramMax : ℕ) (s : Tables) : Option Tables :=
  dmapPages identMap ptL4 kernelPhmap ramMax s

/-- `remap_bootmem_dmap_pages`. -/
def remapBootmemDmapPages (l4 dmap ramsz : ℕ) (s : Tables) : Option Tables :=
  dmapPages directMap l4 dmap ramsz s

/-- The entry for a page of the kernel: only what is outside of `[_begin, _after_ro)` can be
written. -/
def kcodeEntry (begin_ afterRo phy : ℕ) : ℕ :=
  let addr := physToVirtOf phy
  let flags := ptFlagPresent
  let flags := if addr < begin_ ∨ addr ≥ afterRo then flags ||| ptFlagWritable else flags
  phy ||| flags

/-- The loop over a table of pages. -/
def kcodePt (begin_ afterRo pt : ℕ) (s : Tables × ℕ) : Option (Tables × ℕ) :=
  Run.loop (fun k s =>
    some (⟨set s.1.mem (P.phys pt) k (kcodeEntry begin_ afterRo s.2), s.1.free⟩,
      Word.add s.2 pageSize)) ptEntries s

/-- The loop over a page directory. -/
def kcodePd (begin_ afterRo pd offs l1Count : ℕ) (s : Tables × ℕ) : Option (Tables × ℕ) :=
  Run.loop (fun j s => do
    let (pt, tables) ← tableFor P pd (pageL2Idx (Word.add offs (j * ptL2Entrysz))) s.1
    kcodePt P begin_ afterRo pt (tables, s.2)) l1Count s

/-- `pt_init_kcode` and `remap_bootmem_kcode_pages`. -/
def kcodePages (begin_ afterRo l4 offs kernsz : ℕ) (s : Tables) : Option Tables := do
  let l1Count := pagetblCount kernsz ptL2Entrysz
  let l2Count := pagetblCount kernsz ptL3Entrysz
  let (l3, s) ← tableFor P l4 (pageL4Idx offs) s
  let (s, _) ← Run.loop (fun i s => do
    let (pd, tables) ← tableFor P l3 (pageL3Idx (Word.add offs (i * ptL3Entrysz))) s.1
    kcodePd P begin_ afterRo pd offs l1Count (tables, s.2)) l2Count (s, 0)
  some s

/-- `pt_init_kcode`. -/
def ptInitKcode (begin_ afterRo ptL4 kernsz : ℕ) (s : Tables) : Option Tables :=
  kcodePages identMap begin_ afterRo ptL4 kernelOffset kernsz s

/-- `remap_bootmem_kcode_pages`. -/
def remapBootmemKcodePages (begin_ afterRo l4 offs kernsz : ℕ) (s : Tables) : Option Tables :=
  kcodePages directMap begin_ afterRo l4 offs kernsz s

/-- `pt_init_temp_identmap`. -/
def ptInitTempIdentmap (ptL4 : ℕ) (s : Tables) : Option Tables := do
  let (ptL3, s) ← chkPtAlloc ptL4 0 s
  let mem := set s.mem ptL4 0 (ptL3 ||| ptFlagsRw)
  some ⟨set mem ptL3 0 (0 ||| ptFlagsRw ||| ptFlagPagesize), s.free⟩

/-- `init_higher_half`: the top table and the memory. -/
def initHigherHalf (begin_ afterRo kernsz ramMax : ℕ) (s : Tables) : Option (ℕ × Tables) :=
  match s.free with
  | [] => none
  | ptL4 :: free => do
      let s ← ptInitTempIdentmap ptL4 ⟨clear s.mem ptL4 0, free⟩
      let s ← ptInitKcode begin_ afterRo ptL4 kernsz s
      let s ← ptInitDramMap ptL4 ramMax s
      some (ptL4, s)

/-- The tables that `reallocate_bootmem_pages` builds: the top table, by its physical address, and
the memory. -/
def remapBootmemPages (begin_ afterRo kernsz ramMax : ℕ) (s : Tables) : Option (ℕ × Tables) :=
  match s.free with
  | [] => none
  | f :: free => do
      let pml4 := physToVirtPm f
      let s : Tables := ⟨clear s.mem (virtToPhysPm pml4) 0, free⟩
      let s ← remapBootmemKcodePages begin_ afterRo pml4 kernelOffset kernsz s
      let s ← remapBootmemDmapPages pml4 kernelPhmap ramMax s
      some (virtToPhysPm pml4, s)

end Pagetbl

end SyncKernel
