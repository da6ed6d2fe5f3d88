import Caos.Boot.Bootmem
import Caos.Lib.CountedLoop

/-!
`paging_init`, and the walk of the tables it builds. Physical memory is a function
from word numbers to 64-bit words; the word at physical address `a` has number
`a / 8`. `setup.asm` maps the boot memory at `PAGE_OFFSET`, so that a store to a
linear address goes to its `__pa`. The model records with which pointer each entry
was set; the code keeps no such record.
-/

namespace Caos

open Lib

/-- `_PAGE_PRESENT`. -/
def pagePresent : Nat := 0x001

/-- `_PAGE_RW`. -/
def pageRw : Nat := 0x002

/-- `_PAGE_PCD`. -/
def pagePcd : Nat := 0x010

/-- Consecutive pages of entries: the linear address `alloc_bootmem` has returned, and
how many pages were requested. -/
structure Table where
  addr : Nat
  pages : Nat

/-- The number of the word `*table`. -/
def Table.word (table : Table) : Nat := pa table.addr / 8

structure Paging where
  bootmem : Bootmem
  mem : Nat → Nat
  stores : List (Table × Nat)

/-- `*(table + l) = entry`, for entries of 8 bytes. -/
def setEntry (table : Table) (l entry : Nat) (s : Paging) : Paging :=
  { s with
    mem := modifyAt s.mem (table.word + l) (fun _ => entry)
    stores := (table, l) :: s.stores }

/-- `set_pgd(pgd + l, entry)`. -/
def setPgd (pgd : Table) (l entry : Nat) : Paging → Paging := setEntry pgd l entry

/-- `set_pud(pud + l, entry)`. -/
def setPud (pud : Table) (l entry : Nat) : Paging → Paging := setEntry pud l entry

/-- `set_pmd(pmd + l, entry)`. -/
def setPmd (pmd : Table) (l entry : Nat) : Paging → Paging := setEntry pmd l entry

/-- `set_pte(pte + l, entry)`. -/
def setPte (pte : Table) (l entry : Nat) : Paging → Paging := setEntry pte l entry

/-- `alloc_bootmem`, for a table. -/
def allocTable (count : Nat) (s : Paging) : Option (Table × Paging) := do
  let (addr, b) ← allocBootmem count s.bootmem
  return (⟨addr, count⟩, { s with bootmem := b })

/-- The first part of `paging_init`: the tables of the kernel mapping. -/
def fillKernelTables (phyMemSize pmdCount pteCount : Nat) (pgd pud pmd pte : Table)
    (s : Paging) : Paging :=
  let pageAttr := pageRw + pagePresent
  let pageCount := phyMemSize * 256
  let s := forRange (fun l => setPgd pgd l 0) 0 0x100 s
  let s := setPgd pgd 0x100 (pa pud.addr + pageAttr) s
  let s := forRange (fun l => setPgd pgd l 0) 0x101 0x200 s
  -- `pmd + l*PAGE_SIZE` counts entries of 8 bytes
  let s := forRange (fun l => setPud pud l (pa (pmd.addr + 8 * (l * pageSize)) + pageAttr))
    0 pmdCount s
  let s := forRange (fun l => setPmd pmd l (pa pte.addr + l * pageSize + pageAttr)) 0 pteCount s
  forRange (fun l => setPte pte l (l * pageSize + pageAttr)) 0 pageCount s

/-- The second part: the window on the devices at the top of the 4 GB. -/
def fillReservTables (pud pmdReserv pteReserv : Table) (s : Paging) : Paging :=
  let pageAttr := pagePresent + pagePcd
  let s := setPud pud 3 (pa pmdReserv.addr + pageAttr) s
  let s := forRange (fun l => setPmd pmdReserv l (pa pteReserv.addr + l * pageSize + pageAttr))
    0 10 s
  forRange (fun l => setPte pteReserv l (0xFEC00000 + l * pageSize + pageAttr)) 0 (512 * 10) s

/-- `paging_init`, with `swapper_pg_dir` as the result. -/
def pagingInit (phyMemSize : Nat) (s : Paging) : Option (Nat × Paging) := do
  let pmdCount := if phyMemSize / 1024 = 0 then 1 else phyMemSize / 1024
  let pteCount := phyMemSize / 2
  if pteCount = 0 then none
  let (pgd, s) ← allocTable 1 s
  let (pud, s) ← allocTable 1 s
  let (pmd, s) ← allocTable pmdCount s
  let (pte, s) ← allocTable pteCount s
  let s := fillKernelTables phyMemSize pmdCount pteCount pgd pud pmd pte s
  let (pmdReserv, s) ← allocTable 1 s
  let (pteReserv, s) ← allocTable 10 s
  return (pgd.addr, fillReservTables pud pmdReserv pteReserv s)

/-! ## The walk -/

/-- `pgd_index`. -/
def pgdIndex (address : Nat) : Nat := address / 2 ^ 39 % 512

/-- `pud_index`. -/
def pudIndex (address : Nat) : Nat := address / 2 ^ 30 % 512

/-- `pmd_index`. -/
def pmdIndex (address : Nat) : Nat := address / 2 ^ 21 % 512

/-- `pte_index`. -/
def pteIndex (address : Nat) : Nat := address / 2 ^ 12 % 512

def Present (entry : Nat) : Prop := entry % 2 = 1

def Writable (entry : Nat) : Prop := entry / pageRw % 2 = 1

def CacheDisabled (entry : Nat) : Prop := entry / pagePcd % 2 = 1

/-- `_PAGE_PSE`: the entry maps a large page. -/
def LargePage (entry : Nat) : Prop := entry / 0x080 % 2 = 1

/-- `pte_pfn`. -/
def ptePfn (entry : Nat) : Nat := entry % 2 ^ 40 / pageSize

/-- 48-bit linear addresses, sign-extended to 64 bits. -/
def Canonical (address : Nat) : Prop := address / 2 ^ 47 = 0 ∨ address / 2 ^ 47 = 2 ^ 17 - 1

instance : DecidablePred Present := fun entry => inferInstanceAs (Decidable (entry % 2 = 1))

instance : DecidablePred LargePage :=
  fun entry => inferInstanceAs (Decidable (entry / 0x080 % 2 = 1))

instance : DecidablePred Canonical :=
  fun address => inferInstanceAs (Decidable (address / 2 ^ 47 = 0 ∨ address / 2 ^ 47 = 2 ^ 17 - 1))

/-- The walk from the table in frame `pfn` on, along the indices that are left: the
entries met, down to the leaf. The entries of the two middle levels may be leaves. -/
def walkFrom (mem : Nat → Nat) : List Nat → Nat → Option (List Nat)
  | [], _ => some []
  | i :: rest, pfn =>
    let entry := mem (512 * pfn + i)
    if ¬ Present entry then none
    else if LargePage entry ∧ (rest.length = 1 ∨ rest.length = 2) then some [entry]
    else (walkFrom mem rest (ptePfn entry)).map (entry :: ·)

/-- The four-level walk of a linear address. -/
def walk (mem : Nat → Nat) (swapperPgDir address : Nat) : Option (List Nat) :=
  if Canonical address then
    walkFrom mem [pgdIndex address, pudIndex address, pmdIndex address, pteIndex address]
      (virtToPfn swapperPgDir)
  else none

end Caos
