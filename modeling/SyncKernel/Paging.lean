/-
**Pages, addresses and the linear maps** (`pagetbl.h`, `kernel.ld`, `buddy.h`).

The constants and the address macros that the memory subsystems share.  Addresses are natural
numbers below `2 ^ 64`; the macros wrap as the C ones do.
-/

import SyncKernel.Lib.Word

set_option relaxedAutoImplicit false
set_option autoImplicit false

namespace SyncKernel

/-- The number of addresses of the 64-bit address space: no walk that visits more nodes than this
ends. -/
def addrSpace : ℕ := 2 ^ 64

/-- `PAGESIZE`. -/
def pageSize : ℕ := 4096

/-- `KPAGE_ERR`, the pointer `(void *)-1`. -/
def kpageErr : ℕ := 2 ^ 64 - 1

/-- `PFRAME_MAX_ORDER`. -/
def pframeMaxOrder : ℕ := 11

/-- `PFRAME_MAX_REGIONS`. -/
def pframeMaxRegions : ℕ := 128

/-- `KERNEL_OFFSET`, where the kernel image is mapped. -/
def kernelOffset : ℕ := 0xFFFFFFFF80000000

/-- `KERNEL_VMMMAP`, the base of the virtual memory area. -/
def kernelVmmap : ℕ := 0xFFFFC00000000000

/-- `KERNEL_PHMMAP`, the base of the direct map of physical memory. -/
def kernelPhmap : ℕ := 0xFFFF800000000000

/-- `PAGE_ALIGNUP`. -/
def pageAlignUp (x : ℕ) : ℕ := Word.alignUp x pageSize

/-- `PAGE_ALIGNDOWN`. -/
def pageAlignDown (x : ℕ) : ℕ := Word.alignDown x pageSize

/-- `virt_to_phys_pm`. -/
def virtToPhysPm (v : ℕ) : ℕ := Word.sub v kernelPhmap

/-- `phys_to_virt_pm`. -/
def physToVirtPm (p : ℕ) : ℕ := Word.add p kernelPhmap

/-- `buddy_order_to_val`: the bytes of a block. -/
def buddyOrderToVal (ord : ℕ) : ℕ := if ord > pframeMaxOrder - 1 then 0 else pageSize * 2 ^ ord

theorem pageAlignDown_eq {x : ℕ} (hx : x < 2 ^ 64) : pageAlignDown x = x / 4096 * 4096 :=
  Word.alignDown_eq (k := 12) hx (by decide)

theorem pageAlignUp_eq {x : ℕ} (hx : x + 4095 < 2 ^ 64) :
    pageAlignUp x = (x + 4095) / 4096 * 4096 :=
  Word.alignUp_eq (k := 12) hx (by decide)

/-- Rounding up wraps to zero for the last bytes of the address space. -/
theorem pageAlignUp_wrap {x : ℕ} (hx : x < 2 ^ 64) (hw : 2 ^ 64 ≤ x + 4095) : pageAlignUp x = 0 := by
  have hadd : Word.add x (2 ^ 12 - 1) = x + 4095 - 2 ^ 64 := by
    unfold Word.add; omega
  have hmask : pageAlignUp x = Word.add x (2 ^ 12 - 1) / 2 ^ 12 * 2 ^ 12 :=
    Word.and_not_mask (k := 12) (Word.add_lt _ _) (by decide)
  rw [hmask, hadd]
  omega

theorem virtToPhysPm_physToVirtPm {p : ℕ} (hp : p < 2 ^ 47) : virtToPhysPm (physToVirtPm p) = p := by
  unfold virtToPhysPm physToVirtPm Word.sub Word.add kernelPhmap
  omega

theorem physToVirtPm_eq {p : ℕ} (hp : p < 2 ^ 47) : physToVirtPm p = p + kernelPhmap := by
  unfold physToVirtPm Word.add kernelPhmap
  omega

end SyncKernel
