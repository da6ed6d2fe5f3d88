import Caos.Types

/-!
The boot memory allocator of `page.c` and its callers in front of `paging_init`.
A call that finds the heap exhausted halts the machine and has no result.
-/

namespace Caos

/-- `bootmem_page_start`, `bootmem_page_index` and `bootmem_page_max`. -/
structure Bootmem where
  start : Nat
  index : Nat
  max : Nat
  deriving DecidableEq, Repr

/-- `KERNEL_STACK_ADDR`. -/
def kernelStackAddr : Nat := 0xFFFF800000200000

/-- `BOOTING_MEMORY_SIZE` of `setup.asm`, in megabytes. -/
def bootingMemorySize : Nat := 8

/-- `bootmem_init`, with `init_mm` as `setup_arch` fills it. -/
def bootmemInit : Bootmem :=
  let startHeap := kernelStackAddr
  let endHeap := va (bootingMemorySize * 0x100000)
  { start := pa startHeap / pageSize
    index := pa startHeap / pageSize
    max := pa endHeap / pageSize - 1 }

/-- `alloc_bootmem`. -/
def allocBootmem (count : Nat) (b : Bootmem) : Option (Nat × Bootmem) :=
  if (b.index + count) % 2 ^ 64 ≥ b.max then none
  else
    let b := { b with index := (b.index + count) % 2 ^ 64 }
    some (frameAddr (sub64 b.index count), b)

/-- The allocations of `gdt_init`: the GDT, and in `set_tss` the TSS. -/
def gdtInit (b : Bootmem) : Option Bootmem := do
  let (_, b) ← allocBootmem 1 b
  let (_, b) ← allocBootmem 1 b
  return b

/-- The allocation of `idt_init`. -/
def idtInit (b : Bootmem) : Option Bootmem := do
  let (_, b) ← allocBootmem 1 b
  return b

section

variable {b b' : Bootmem} {count addr : Nat}

/-- A request that leaves the index below the maximum gets the next pages. -/
theorem allocBootmem_of_lt (h : b.index + count < b.max) (hmax : b.max ≤ 2 ^ 64) :
    allocBootmem count b = some (frameAddr b.index, { b with index := b.index + count }) := by
  have hmod : (b.index + count) % 2 ^ 64 = b.index + count := Nat.mod_eq_of_lt (by omega)
  have hback : sub64 (b.index + count) count = b.index := by
    simp only [sub64]
    omega
  simp only [allocBootmem, hmod, hback, ge_iff_le, Nat.not_le.mpr h, if_false]

theorem allocBootmem_of_le (h : b.max ≤ b.index + count) (hwrap : b.index + count < 2 ^ 64) :
    allocBootmem count b = none := by
  have hmod : (b.index + count) % 2 ^ 64 = b.index + count := Nat.mod_eq_of_lt hwrap
  simp only [allocBootmem, hmod, ge_iff_le, h, if_true]

/-- What a call that returns has done. -/
theorem allocBootmem_eq_some (h : allocBootmem count b = some (addr, b'))
    (hwrap : b.index + count < 2 ^ 64) :
    b.index + count < b.max ∧ addr = frameAddr b.index ∧
      b' = { b with index := b.index + count } := by
  have hmod : (b.index + count) % 2 ^ 64 = b.index + count := Nat.mod_eq_of_lt hwrap
  have hback : sub64 (b.index + count) count = b.index := by
    simp only [sub64]
    omega
  simp only [allocBootmem, hmod, hback] at h
  split_ifs at h with hmax
  cases h
  exact ⟨by omega, rfl, rfl⟩

end

theorem gdtInit_bootmemInit :
    gdtInit bootmemInit = some { start := 0x200, index := 0x202, max := 0x7FF } := by
  decide

/-- The boot memory when `paging_init` is called: frames 0x200, 0x201 and 0x202 are
taken. -/
theorem idtInit_gdtInit :
    (gdtInit bootmemInit).bind idtInit = some { start := 0x200, index := 0x203, max := 0x7FF } := by
  decide

end Caos
