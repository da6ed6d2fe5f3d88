import Caos.Lib.Iteration
import Caos.Lib.Run
import Caos.Lib.CountedLoop
import Caos.Lib.Window
import Caos.Lib.IndexChain
import Caos.Lib.Ring
import Caos.Lib.Bytes
import Caos.Lib.Stores
import Caos.Lib.Words
import Caos.Lib.SavedRegisters
import Caos.Lib.Numeral
import Caos.Lib.Transducer
import Caos.Lib.BitField
import Caos.Lib.Activations
import Caos.Types
import Caos.Bitops
import Caos.CString
import Caos.Copy
import Caos.Memory.ListHead
import Caos.Memory.Page
import Caos.Memory.PageAlloc
import Caos.Memory.PageExclusive
import Caos.Memory.PageConfinement
import Caos.Memory.FirstFit
import Caos.Memory.OutOfPages
import Caos.Memory.ZoneList
import Caos.Slab.Cache
import Caos.Slab.Pages
import Caos.Slab.ZonePages
import Caos.Slab.Heap
import Caos.Slab.Invariant
import Caos.Slab.Kmalloc
import Caos.Slab.Exclusive
import Caos.Slab.Fallback
import Caos.Slab.OutOfMemory
import Caos.Slab.SizeAdequacy
import Caos.Slab.BackPointers
import Caos.Slab.InvalidFree
import Caos.Slab.PageLeak
import Caos.Slab.CacheTable
import Caos.Slab.Geometry
import Caos.Mp.Table
import Caos.Mp.Reader
import Caos.Mp.Decode
import Caos.Mp.Processors
import Caos.Mp.BootProcessor
import Caos.Mp.Termination
import Caos.Mp.Bounds
import Caos.Mp.Search
import Caos.Smp.Spinlock
import Caos.Smp.MutualExclusion
import Caos.Smp.WaitLoop
import Caos.Console.Screen
import Caos.Console.Bounds
import Caos.Console.Terminal
import Caos.Console.Format
import Caos.Console.Numerals
import Caos.Console.Vsprintf
import Caos.Console.Printf
import Caos.Console.Interrupted
import Caos.Console.Buffer
import Caos.Keyboard.Isr
import Caos.Keyboard.Modifiers
import Caos.Keyboard.LockKeys
import Caos.Console.Attributes
import Caos.Console.FirstRow
import Caos.Irq.Entry
import Caos.Irq.Nesting
import Caos.Irq.Register
import Caos.Boot.Bootmem
import Caos.Boot.Paging
import Caos.Boot.PagingTables
import Caos.Boot.KernelMapping
import Caos.Boot.MemMap
import Caos.Boot.FrameTable
import Caos.Boot.HandOver
import Caos.Boot.ApArea
import Caos.Boot.PageAddress
import Caos.Boot.Descriptors
import Caos.Boot.Loader
import Caos.Boot.BootTables
import Caos.Boot.LongMode
import Caos.Boot.BootChain
import Caos.Boot.A20
import Caos.Boot.Gdt
import Caos.Irq.Dispatch
import Caos.Irq.InService
import Caos.Irq.Sources
import Caos.Irq.Firmware
import Caos.Build.GenSection
import Caos.Smp.PerCpu
import Caos.Smp.StartUp
import Caos.Slab.LinkedSlabs
import Caos.Slab.BootedHeap
