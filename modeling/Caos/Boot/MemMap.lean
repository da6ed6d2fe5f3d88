import Caos.Boot.Paging
import Caos.Memory.PageConfinement

/-!
`mem_map_init`: the allocation of the descriptor table, its three loops, and the two
conversions between descriptors and addresses.
-/

namespace Caos

open Lib

/-- `sizeof(struct page)`. -/
def sizeofPage : Nat := 72

/-- Conversion to `int`. -/
def toInt (x : Nat) : Int := Int.bmod x (2 ^ 32)

/-- Conversion to `size_t`. -/
def toSizeT (x : Int) : Nat := (x % 2 ^ 64).toNat

/-- `PAGE_ALIGN`. -/
def pageAlign (addr : Nat) : Nat := (addr + pageSize - 1) % 2 ^ 64 / pageSize * pageSize

/-- `page_count` of `mem_map_init`, an `unsigned int`. -/
def pageCount (phyMemSize : Nat) : Nat := phyMemSize * 0x100000 % 2 ^ 64 / pageSize % 2 ^ 32

/-- `mem_map_size`, an `int`. -/
def memMapSize (pageCount : Nat) : Int := toInt (pageCount * sizeofPage + 11)

/-- `mem_map_page`, an `int`. -/
def memMapPage (pageCount : Nat) : Int :=
  toInt (pageAlign (toSizeT (memMapSize pageCount)) / pageSize)

/-- The number of pages requested for the table. -/
def memMapPages (phyMemSize : Nat) : Nat := toSizeT (memMapPage (pageCount phyMemSize))

/-- One iteration of the first loop, over the table and `virtual_addr`. -/
def initPage (l : Nat) (s : (Nat → Page) × Nat) : (Nat → Page) × Nat :=
  let (map, virtualAddr) := s
  let map := onLists (initListHead · l) map
  let map := modifyAt map l fun page =>
    { page with
      index := l
      count := 0
      flags := 0
      priv := minusOne
      virtual := virtualAddr }
  (map, virtualAddr + 0x1000)

/-- `mem_map[l].count = 1`. -/
def markBusy (l : Nat) (map : Nat → Page) : Nat → Page := modifyAt map l ({ · with count := 1 })

/-- `mem_map_init`, over what `memory` holds where the table is put: the address of
the table, its contents, and the boot memory left. -/
def Bootmem.memMapInit (phyMemSize : Nat) (memory : Nat → Page) (b : Bootmem) :
    Option (Nat × (Nat → Page) × Bootmem) := do
  let (memMap, b) ← allocBootmem (memMapPages phyMemSize) b
  let map := (forRange initPage 0 (pageCount phyMemSize) (memory, pageOffset)).1
  let map := markBusy 0 map
  let map := forRange markBusy 0x9f 0x200 map
  let map := forRange markBusy b.start b.index map
  return (memMap, map, b)

/-- `virt_to_page`. -/
def virtToPage (memMap vaddr : Nat) : Nat := memMap + sizeofPage * virtToPfn vaddr

/-- `page_to_virt`. -/
def pageToVirt (memMap page : Nat) : Nat := frameAddr ((page - memMap) / sizeofPage)

/-- The frames marked busy: BIOS data, video memory and kernel image, boot heap. -/
def Bootmem.busy (b : Bootmem) (l : Nat) : Bool :=
  l == 0 || 0x9f ≤ l && l < 0x200 || b.start ≤ l && l < b.index

section

variable {memory map : Nat → Page} {first last n l : Nat}

theorem onLists_initListHead (map : Nat → Page) (l i : Nat) :
    onLists (initListHead · l) map i = if i = l then { map i with list := ⟨l, l⟩ } else map i := by
  simp only [onLists, initListHead, Function.update_apply]
  split_ifs <;> rfl

/-- The table after the first loop. -/
theorem forRange_initPage (memory : Nat → Page) (n : Nat) :
    (forRange initPage 0 n (memory, pageOffset)).2 = frameAddr n ∧
      ∀ l, (forRange initPage 0 n (memory, pageOffset)).1 l =
        if l < n then
          { memory l with
            list := ⟨l, l⟩, index := l, count := 0, flags := 0, priv := minusOne,
            virtual := frameAddr l }
        else memory l := by
  simp only [forRange, Nat.sub_zero, Nat.zero_add]
  induction n with
  | zero =>
      simp only [forUpTo, Nat.not_lt_zero, if_false, implies_true, and_true]
      rfl
  | succ n ih =>
      obtain ⟨haddr, hmap⟩ := ih
      simp only [forUpTo, initPage]
      constructor
      · rw [haddr]
        simp only [frameAddr, va, pageSize, pageShift]
        omega
      · intro l
        by_cases hl : l = n
        · subst hl
          rw [modifyAt_same, onLists_initListHead, if_pos rfl, hmap, haddr, if_neg (by omega),
            if_pos (by omega)]
        · rw [modifyAt_of_ne _ hl, onLists_initListHead, if_neg hl, hmap]
          have hiff : l < n + 1 ↔ l < n := by omega
          simp only [hiff]

theorem forRange_markBusy : forRange markBusy first last map l =
    if first ≤ l ∧ l < last then { map l with count := 1 } else map l := by
  have hloop := forRange_modifyAt 0 (fun _ (page : Page) => { page with count := 1 }) first last
    map l
  simp only [Nat.zero_add] at hloop
  exact hloop

/-- The descriptor `mem_map_init` leaves for frame `l`, in a table of `count`. -/
def Bootmem.descriptor (b : Bootmem) (count : Nat) (memory : Nat → Page) (l : Nat) : Page :=
  let page :=
    if l < count then
      { memory l with
        list := ⟨l, l⟩, index := l, count := 0, flags := 0, priv := minusOne,
        virtual := frameAddr l }
    else memory l
  if b.busy l then { page with count := 1 } else page

/-- `mem_map_init` returns if and only if its allocation does, with this table. -/
theorem Bootmem.memMapInit_eq (phyMemSize : Nat) (memory : Nat → Page) (b : Bootmem) :
    b.memMapInit phyMemSize memory =
      (allocBootmem (memMapPages phyMemSize) b).map fun (memMap, b) =>
        (memMap, b.descriptor (pageCount phyMemSize) memory, b) := by
  have htable : ∀ b : Bootmem,
      forRange markBusy b.start b.index (forRange markBusy 0x9f 0x200
        (markBusy 0 (forRange initPage 0 (pageCount phyMemSize) (memory, pageOffset)).1)) =
      b.descriptor (pageCount phyMemSize) memory := by
    intro b
    funext l
    have hfirst := (forRange_initPage memory (pageCount phyMemSize)).2
    generalize (forRange initPage 0 (pageCount phyMemSize) (memory, pageOffset)).1 = map at *
    have hzero : markBusy 0 map l = if l = 0 then { map l with count := 1 } else map l := by
      simp only [markBusy, modifyAt, Function.update_apply]
      split_ifs with hl
      · rw [hl]
      · rfl
    simp only [Bootmem.descriptor, Bootmem.busy, ← hfirst]
    rw [forRange_markBusy, forRange_markBusy, hzero]
    grind
  rw [Bootmem.memMapInit]
  cases allocBootmem (memMapPages phyMemSize) b with
  | none => rfl
  | some r =>
      obtain ⟨addr, b'⟩ := r
      exact congrArg (fun map => some (addr, map, b')) (htable b')

end

section

variable {b : Bootmem} {memory : Nat → Page} {count l : Nat}

theorem Bootmem.busy_iff : b.busy l = true ↔
    l = 0 ∨ (0x9f ≤ l ∧ l < 0x200) ∨ (b.start ≤ l ∧ l < b.index) := by
  simp only [Bootmem.busy, Bool.or_eq_true, Bool.and_eq_true, beq_iff_eq, decide_eq_true_eq,
    or_assoc]

/-- The descriptors of the table. -/
theorem Bootmem.descriptor_of_lt (hl : l < count) :
    b.descriptor count memory l =
      { memory l with
        list := ⟨l, l⟩, index := l, count := if b.busy l then 1 else 0, flags := 0,
        priv := minusOne, virtual := frameAddr l } := by
  simp only [Bootmem.descriptor, if_pos hl]
  split_ifs <;> rfl

/-- With the busy frames inside the table and zeroed memory under it, this is the table
the page allocator starts from. -/
theorem Bootmem.descriptor_bootTable (hbusy : ∀ l, b.busy l = true → l < count)
    (hzero : ∀ l < count, (memory l).slab = none) :
    b.descriptor count memory = bootTable b.busy memory count := by
  funext l
  by_cases hl : l < count
  · rw [Bootmem.descriptor_of_lt hl, bootTable, if_pos hl]
    simp only [hzero l hl, Caos.memMapInit]
  · have hfree : ¬ b.busy l = true := fun h => hl (hbusy l h)
    simp only [Bootmem.descriptor, bootTable, if_neg hl, if_neg hfree]

end

end Caos
