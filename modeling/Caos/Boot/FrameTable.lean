import Caos.Boot.KernelMapping
import Caos.Boot.MemMap

/-!
The boot memory as a whole. The page tables and the descriptor table grow with the
memory, the 8 MB that `setup.asm` maps do not.
-/

namespace Caos

open Lib

/-- `setup_arch` from `bootmem_init` to `mem_map_init`, over any contents of the page
table memory and of the memory under `mem_map`. -/
def setupArch (phyMemSize : Nat) (mem : Nat → Nat) (memory : Nat → Page) :
    Option (Nat × (Nat → Page) × Bootmem) := do
  let b ← gdtInit bootmemInit
  let b ← idtInit b
  let (_, s) ← pagingInit phyMemSize { bootmem := b, mem := mem, stores := [] }
  s.bootmem.memMapInit phyMemSize memory

/-- Every frame has its descriptor, inside the pages allocated for `mem_map`, and the
three ways from a frame to its descriptor and its address agree. -/
structure FramesDescribed (phyMemSize memMap : Nat) (map : Nat → Page) (b : Bootmem) : Prop where
  mapped : b.index * pageSize ≤ bootingMemorySize * 0x100000
  inside : ∀ f < phyMemSize * 256,
    memMap + sizeofPage * f + sizeofPage ≤ memMap + memMapPages phyMemSize * pageSize
  index : ∀ f < phyMemSize * 256, (map f).index = f
  virtual : ∀ f < phyMemSize * 256, (map f).virtual = pageOffset + 4096 * f
  pageToVirt : ∀ f < phyMemSize * 256,
    pageToVirt memMap (memMap + sizeofPage * f) = pageOffset + 4096 * f
  virtToPage : ∀ f < phyMemSize * 256, ∀ a, pageOffset + 4096 * f ≤ a →
    a < pageOffset + 4096 * (f + 1) → virtToPage memMap a = memMap + sizeofPage * f

section

variable {phyMemSize : Nat}

theorem pageCount_eq (h : phyMemSize ≤ 512) : pageCount phyMemSize = phyMemSize * 256 := by
  simp only [pageCount, pageSize, pageShift]
  omega

theorem toInt_of_lt {x : Nat} (h : x < 2 ^ 31) : toInt x = x := by
  apply Int.bmod_eq_of_le_mul_two <;> push_cast <;> omega

theorem toSizeT_of_lt {x : Nat} (h : x < 2 ^ 31) : toSizeT x = x := by
  simp only [toSizeT]
  omega

/-- Nothing overflows in the supported range. -/
theorem memMapPages_eq (h : phyMemSize ≤ 512) :
    memMapPages phyMemSize = (phyMemSize * 18432 + 4106) / 4096 := by
  have hsize : phyMemSize * 256 * sizeofPage + 11 = phyMemSize * 18432 + 11 := by
    simp only [sizeofPage]
    omega
  have halign : pageAlign (phyMemSize * 18432 + 11) / pageSize =
      (phyMemSize * 18432 + 4106) / 4096 := by
    simp only [pageAlign, pageSize, pageShift]
    omega
  have hmemMapSize : memMapSize (phyMemSize * 256) = (phyMemSize * 18432 + 11 : Nat) := by
    rw [memMapSize, hsize, toInt_of_lt (by omega)]
  rw [memMapPages, pageCount_eq h, memMapPage, hmemMapSize, toSizeT_of_lt (by omega), halign,
    toInt_of_lt (by omega), toSizeT_of_lt (by omega)]

/-- The boot sequence in the supported range: all allocations up to the one of
`mem_map_init` succeed, and that one does up to 303 MB. -/
theorem setupArch_eq (hlo : 16 ≤ phyMemSize) (hhi : phyMemSize ≤ 512) (mem : Nat → Nat)
    (memory : Nat → Page) :
    setupArch phyMemSize mem memory =
      if phyMemSize ≤ 303 then
        let b : Bootmem := ⟨0x200, 0x211 + phyMemSize / 2 + memMapPages phyMemSize, 0x7FF⟩
        some (frameAddr (0x211 + phyMemSize / 2), b.descriptor (phyMemSize * 256) memory, b)
      else none := by
  have hidt : idtInit { start := 0x200, index := 0x202, max := 0x7FF } =
      some { start := 0x200, index := 0x203, max := 0x7FF } := by decide
  have hindex : 0x203 + (14 + phyMemSize / 2) = 0x211 + phyMemSize / 2 := by omega
  have hpages := memMapPages_eq hhi
  rw [setupArch, gdtInit_bootmemInit]
  dsimp only [Option.bind_eq_bind, Option.bind_some]
  rw [hidt]
  dsimp only [Option.bind_eq_bind, Option.bind_some]
  rw [pagingInit_eq (by omega) (by omega) (by dsimp only; omega) (by dsimp only; omega)]
  dsimp only [Option.bind_eq_bind, Option.bind_some]
  rw [Bootmem.memMapInit_eq, pagingDone_bootmem, pageCount_eq hhi]
  dsimp only
  rw [hindex]
  by_cases hfits : phyMemSize ≤ 303
  · rw [if_pos hfits, allocBootmem_of_lt (by dsimp only; omega) (by dsimp only; omega)]
    rfl
  · rw [if_neg hfits, allocBootmem_of_le (by dsimp only; omega) (by dsimp only; omega)]
    rfl

end

/-- The boot sequence reaches its end, with every frame described, exactly up to
303 MB. -/
theorem setupArch_describes_iff (phyMemSize : Nat) (hlo : 16 ≤ phyMemSize)
    (hhi : phyMemSize ≤ 512) (mem : Nat → Nat) (memory : Nat → Page) :
    (∃ memMap map b, setupArch phyMemSize mem memory = some (memMap, map, b) ∧
      FramesDescribed phyMemSize memMap map b) ↔ phyMemSize ≤ 303 := by
  rw [setupArch_eq hlo hhi]
  constructor
  · rintro ⟨memMap, map, b, hcall, -⟩
    by_contra hbig
    rw [if_neg hbig] at hcall
    cases hcall
  · intro hfits
    rw [if_pos hfits]
    refine ⟨_, _, _, rfl, ?_⟩
    have hpages := memMapPages_eq hhi
    constructor
    · simp only [pageSize, pageShift, bootingMemorySize]
      omega
    · intro f hf
      simp only [hpages, sizeofPage, pageSize, pageShift]
      omega
    · intro f hf
      rw [Bootmem.descriptor_of_lt hf]
    · intro f hf
      rw [Bootmem.descriptor_of_lt hf]
      simp only [frameAddr, va, pageSize, pageShift]
      omega
    · intro f _
      have hpfn : sizeofPage * f / sizeofPage = f := Nat.mul_div_cancel_left f (by decide)
      rw [pageToVirt, Nat.add_sub_cancel_left, hpfn]
      simp only [frameAddr, va, pageSize, pageShift]
      omega
    · intro f _ a hlo' hhi'
      have hpfn : virtToPfn a = f := by
        simp only [virtToPfn, pa, pageSize, pageShift]
        omega
      rw [virtToPage, hpfn]

/-- With 304 MB the machine halts in `mem_map_init`. -/
theorem large_memory_halts :
    ¬ ∀ (phyMemSize : Nat) (mem : Nat → Nat) (memory : Nat → Page), 16 ≤ phyMemSize →
      phyMemSize ≤ 512 → ∃ memMap map b, setupArch phyMemSize mem memory = some (memMap, map, b) ∧
        FramesDescribed phyMemSize memMap map b := by
  intro h
  obtain ⟨memMap, map, b, hcall, -⟩ := h 304 (fun _ => 0)
    (fun _ => ⟨⟨0, 0⟩, 0, 0, 0, 0, 0, none⟩) (by norm_num) (by norm_num)
  rw [setupArch_eq (by norm_num) (by norm_num), if_neg (by norm_num)] at hcall
  cases hcall

/-- The memory size the Makefile sets. -/
theorem default_memory_described :
    ∃ memMap map b, setupArch 128 (fun _ => 0) (fun _ => ⟨⟨0, 0⟩, 0, 0, 0, 0, 0, none⟩) =
      some (memMap, map, b) ∧ FramesDescribed 128 memMap map b :=
  (setupArch_describes_iff 128 (by norm_num) (by norm_num) _ _).mpr (by norm_num)

end Caos
