import Mathlib.Tactic

/-!
Constants of `types.h`, `pgtable.h`, `page_alloc.h` and `processor.h`, and the
address arithmetic of the kernel mapping. Linear addresses and `size_t` values are
natural numbers; where the code relies on 64-bit wrap-around it is written out.
-/

namespace Caos

/-- `BYTES_PER_LONG`. -/
def bytesPerLong : Nat := 8

/-- `PAGE_SHIFT`. -/
def pageShift : Nat := 12

/-- `PAGE_SIZE`. -/
def pageSize : Nat := 2 ^ pageShift

/-- `PAGE_OFFSET`, the linear address of physical address 0. -/
def pageOffset : Nat := 0xFFFF800000000000

/-- `MAX_PAGE_ORDER`. -/
def maxPageOrder : Nat := 5

/-- `NR_CPUS`. -/
def nrCpus : Nat := 2

/-- `(size_t)-1`. -/
def minusOne : Nat := 2 ^ 64 - 1

/-- `x - y` on 64-bit words. -/
def sub64 (x y : Nat) : Nat := (x + (2 ^ 64 - y)) % 2 ^ 64

/-- `__va`. -/
def va (paddr : Nat) : Nat := paddr + pageOffset

/-- `__pa`, for addresses of the kernel mapping. -/
def pa (vaddr : Nat) : Nat := vaddr - pageOffset

@[simp] theorem pa_va (paddr : Nat) : pa (va paddr) = paddr := by
  simp [pa, va]

/-- `page_to_virt`, as a function of the frame number. -/
def frameAddr (pfn : Nat) : Nat := va (pfn * pageSize)

/-- The frame number of `virt_to_page`. -/
def virtToPfn (vaddr : Nat) : Nat := pa vaddr / pageSize

theorem virtToPfn_frameAddr_add {pfn offset k : Nat} (hlo : k * pageSize ≤ offset)
    (hhi : offset < (k + 1) * pageSize) :
    virtToPfn (frameAddr pfn + offset) = pfn + k := by
  have hpa : pa (frameAddr pfn + offset) = pfn * pageSize + offset := by
    simp only [pa, frameAddr, va]
    omega
  rw [virtToPfn, hpa]
  simp only [pageSize, pageShift] at *
  omega

@[simp] theorem virtToPfn_frameAddr (pfn : Nat) : virtToPfn (frameAddr pfn) = pfn := by
  simpa using @virtToPfn_frameAddr_add pfn 0 0 (by simp) (by simp [pageSize])

theorem frameAddr_injective : Function.Injective frameAddr := by
  intro f g h
  simpa using congrArg virtToPfn h

end Caos
