import SyncKernel.Boot.Reclaim
import SyncKernel.Buddy.Bits
import SyncKernel.Buddy.History
import SyncKernel.Buddy.Conserve
import SyncKernel.Buddy.Layout
import SyncKernel.Buddy.Reject
import SyncKernel.Buddy.Table
import SyncKernel.Console.Cursor
import SyncKernel.Console.Picture
import SyncKernel.Gop.Rect
import SyncKernel.Interrupt.Idt
import SyncKernel.Interrupt.Isr
import SyncKernel.Kstring.Search
import SyncKernel.Mm.AreaSafety
import SyncKernel.Mm.Safety
import SyncKernel.Pagetbl.Unmap
import SyncKernel.Rbtree.Restore
import SyncKernel.Slab.Geometry
import SyncKernel.Slab.Lifetime
import SyncKernel.Slab.Safety
import SyncKernel.Stdio.Printk
import SyncKernel.Stdio.Readback
import SyncKernel.Vma.Remove
import SyncKernel.Vmalloc.Rounding
