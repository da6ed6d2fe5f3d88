import Caos.Lib.BitField

/-!
The descriptors that `gdt.c` and `idt.c` write. Each encoder scatters its arguments over
the fields of a descriptor; the processor's reading of the fields gives them back.
-/

namespace Caos

open Lib

/-! ## `gdt.c` -/

/-- `struct gdt_desc`. -/
structure GdtDesc where
  l : BitVec 32
  h : BitVec 32
  deriving DecidableEq

/-- `gdt_table`, by slot. -/
abbrev GdtTable := Nat → GdtDesc

def setGdtDesc (num : Nat) (addr offset : BitVec 32) (type : BitVec 64) (table : GdtTable) :
    GdtTable :=
  Function.update table num
    { l := (offset &&& 0xffff) ||| (addr &&& 0xffff) <<< 16
      h := (addr &&& 0xff000000) ||| (addr >>> 16 &&& 0xff) ||| (offset &&& 0xf0000) |||
        (type <<< 12 &&& 0xf00000).setWidth 32 ||| (type <<< 8 &&& 0xff00).setWidth 32 }

/-- The stores of `set_tss` to `gdt_table`, with the address that `alloc_bootmem` returns.
The page there, which is cleared, is not the one of `gdt_table`. -/
def setTss (num : Nat) (address : BitVec 64) (table : GdtTable) : GdtTable :=
  let table := setGdtDesc num ((address &&& 0xFFFFFFFF).setWidth 32) 104 0x89 table
  Function.update table (num + 1)
    { table (num + 1) with l := (address >>> 32 &&& 0xFFFFFFFF).setWidth 32 }

/-- The processor's view of a segment descriptor. The type is the access byte below the
four flags. -/
structure Segment where
  base : BitVec 32
  limit : BitVec 20
  type : BitVec 12
  deriving DecidableEq

def GdtDesc.segment (d : GdtDesc) : Segment where
  base := d.h.extractLsb' 24 8 ++ (d.h.extractLsb' 0 8 ++ d.l.extractLsb' 16 16)
  limit := d.h.extractLsb' 16 4 ++ d.l.extractLsb' 0 16
  type := d.h.extractLsb' 20 4 ++ d.h.extractLsb' 8 8

/-- The address in a TSS descriptor, which takes two slots. -/
def tssAddress (table : GdtTable) (num : Nat) : BitVec 64 :=
  (table (num + 1)).l ++ (table num).segment.base

/-! ## `idt.c` -/

/-- `__KERNEL_CS64`. -/
def kernelCs64 : BitVec 16 := 0x18

/-- `IDT_SIZE`. -/
def idtSize : Nat := 256

def destypeInt : BitVec 16 := 0x8e00

def destypeTrap : BitVec 16 := 0x8f00

def destypeSys : BitVec 16 := 0xef00

/-- `struct idt_desc`. -/
structure IdtDesc where
  offset0_15 : BitVec 16
  selector : BitVec 16
  type : BitVec 16
  offset16_31 : BitVec 16
  offset32_63 : BitVec 32
  reserved : BitVec 32
  deriving DecidableEq

/-- `idt_table`, by slot. -/
abbrev IdtTable := Nat → IdtDesc

/-- The body that `set_intr_gate`, `set_system_gate` and `set_trap_gate` share. -/
def setGate (type : BitVec 16) (num : Nat) (handler : BitVec 64) (table : IdtTable) : IdtTable :=
  if num < idtSize then
    Function.update table num
      { offset0_15 := (handler &&& 0xffff).setWidth 16
        selector := kernelCs64
        type := type
        offset16_31 := ((handler &&& 0xFFFF0000) >>> 16).setWidth 16
        offset32_63 := ((handler &&& 0xFFFFFFFF00000000) >>> 32).setWidth 32
        reserved := 0 }
  else table

def setIntrGate : Nat → BitVec 64 → IdtTable → IdtTable := setGate destypeInt

def setSystemGate : Nat → BitVec 64 → IdtTable → IdtTable := setGate destypeSys

def setTrapGate : Nat → BitVec 64 → IdtTable → IdtTable := setGate destypeTrap

/-- The processor's view of a gate. -/
structure Gate where
  offset : BitVec 64
  selector : BitVec 16
  ist : BitVec 3
  gateType : BitVec 5
  dpl : BitVec 2
  present : BitVec 1
  deriving DecidableEq

def IdtDesc.gate (d : IdtDesc) : Gate where
  offset := d.offset32_63 ++ (d.offset16_31 ++ d.offset0_15)
  selector := d.selector
  ist := d.type.extractLsb' 0 3
  gateType := d.type.extractLsb' 8 5
  dpl := d.type.extractLsb' 13 2
  present := d.type.extractLsb' 15 1

/-- `set` stores gates of one type: it writes the slots of the table alone, one a call. -/
structure StoresGate (set : Nat → BitVec 64 → IdtTable → IdtTable) (gateType : BitVec 5)
    (dpl : BitVec 2) : Prop where
  decodes : ∀ num handler table, num < idtSize → (set num handler table num).gate =
    { offset := handler, selector := kernelCs64, ist := 0, gateType, dpl, present := 1 }
  refused : ∀ num handler table, idtSize ≤ num → set num handler table = table
  frame : ∀ num handler table i, i ≠ num → set num handler table i = table i

section Gdt

variable {num i : Nat} {addr offset : BitVec 32} {type address : BitVec 64} {table : GdtTable}

/-- Every field of the descriptor holds the bits of the argument that belong there. -/
theorem segment_setGdtDesc :
    (setGdtDesc num addr offset type table num).segment =
      { base := addr, limit := offset.extractLsb' 0 20, type := type.extractLsb' 0 12 } := by
  rw [setGdtDesc, Function.update_self, GdtDesc.segment, Segment.mk.injEq]
  refine ⟨?_, ?_, ?_⟩
  · simp (disch := decide) only [BitVec.extractLsb'_or, extract_and_of_ones, extract_and_of_zero,
      extract_shiftLeft, extract_ushiftRight, BitVec.extractLsb'_setWidth_of_le, BitVec.or_zero,
      BitVec.zero_or, Nat.reduceAdd, Nat.reduceSub]
    have hlow : addr.extractLsb' 16 8 ++ addr.extractLsb' 0 16 = addr.extractLsb' 0 24 :=
      BitVec.extractLsb'_append_extractLsb'_eq_extractLsb' (by decide)
    rw [hlow]
    exact (BitVec.extractLsb'_append_extractLsb'_eq_extractLsb' (by decide)).trans
      BitVec.extractLsb'_eq_self
  · simp (disch := decide) only [BitVec.extractLsb'_or, extract_and_of_ones, extract_and_of_zero,
      extract_shiftLeft_below, BitVec.extractLsb'_setWidth_of_le, BitVec.or_zero, BitVec.zero_or]
    exact BitVec.extractLsb'_append_extractLsb'_eq_extractLsb' (by decide)
  · simp (disch := decide) only [BitVec.extractLsb'_or, extract_and_of_ones, extract_and_of_zero,
      extract_shiftLeft, BitVec.extractLsb'_setWidth_of_le, BitVec.or_zero, BitVec.zero_or,
      Nat.reduceSub]
    exact BitVec.extractLsb'_append_extractLsb'_eq_extractLsb' (by decide)

theorem setGdtDesc_of_ne (h : i ≠ num) : setGdtDesc num addr offset type table i = table i :=
  Function.update_of_ne h _ _

/-- The lower half of the address goes through the base fields, the upper half into the
next slot. -/
theorem tssAddress_setTss : tssAddress (setTss num address table) num = address := by
  have hbase : (setTss num address table num).segment.base =
      (address &&& 0xFFFFFFFF).setWidth 32 := by
    have hne : num ≠ num + 1 := by omega
    rw [setTss, Function.update_of_ne hne, segment_setGdtDesc]
  rw [tssAddress, hbase, setTss, Function.update_self,
    BitVec.setWidth_eq_extractLsb' (by decide), BitVec.setWidth_eq_extractLsb' (by decide)]
  simp (disch := decide) only [extract_and_of_ones, extract_ushiftRight]
  exact (BitVec.extractLsb'_append_extractLsb'_eq_extractLsb' (by decide)).trans
    BitVec.extractLsb'_eq_self

theorem setTss_of_ne (h : i ≠ num) (hnext : i ≠ num + 1) :
    setTss num address table i = table i := by
  rw [setTss, Function.update_of_ne hnext, setGdtDesc_of_ne h]

end Gdt

section Idt

variable {num : Nat} {handler : BitVec 64} {type : BitVec 16} {table : IdtTable}

theorem gate_setGate (h : num < idtSize) : (setGate type num handler table num).gate =
    { offset := handler, selector := kernelCs64, ist := type.extractLsb' 0 3,
      gateType := type.extractLsb' 8 5, dpl := type.extractLsb' 13 2,
      present := type.extractLsb' 15 1 } := by
  rw [setGate, if_pos h, Function.update_self, IdtDesc.gate, Gate.mk.injEq]
  refine ⟨?_, rfl, rfl, rfl, rfl, rfl⟩
  rw [BitVec.setWidth_eq_extractLsb' (by decide), BitVec.setWidth_eq_extractLsb' (by decide),
    BitVec.setWidth_eq_extractLsb' (by decide)]
  simp (disch := decide) only [extract_and_of_ones, extract_ushiftRight, Nat.reduceAdd]
  have hlow : handler.extractLsb' 16 16 ++ handler.extractLsb' 0 16 =
      handler.extractLsb' 0 32 :=
    BitVec.extractLsb'_append_extractLsb'_eq_extractLsb' (by decide)
  rw [hlow]
  exact (BitVec.extractLsb'_append_extractLsb'_eq_extractLsb' (by decide)).trans
    BitVec.extractLsb'_eq_self

theorem storesGate_setGate (type : BitVec 16) (hist : type.extractLsb' 0 3 = 0)
    (hpresent : type.extractLsb' 15 1 = 1) :
    StoresGate (setGate type) (type.extractLsb' 8 5) (type.extractLsb' 13 2) where
  decodes num handler table h := by rw [gate_setGate h, hist, hpresent]
  refused num handler table h := if_neg (Nat.not_lt.mpr h)
  frame num handler table i h := by
    unfold setGate
    split
    · exact Function.update_of_ne h _ _
    · rfl

end Idt

/-- What is read back from a descriptor is what was to be stored in it, and no other slot
changes. -/
theorem descriptors_lossless :
    (∀ (num : Nat) (base : BitVec 32) (limit : BitVec 20) (type : BitVec 12) (table : GdtTable),
      (setGdtDesc num base (limit.setWidth 32) (type.setWidth 64) table num).segment =
          { base, limit, type } ∧
        ∀ i, i ≠ num → setGdtDesc num base (limit.setWidth 32) (type.setWidth 64) table i =
          table i) ∧
    (∀ (num : Nat) (address : BitVec 64) (table : GdtTable),
      tssAddress (setTss num address table) num = address ∧
        ∀ i, i ≠ num → i ≠ num + 1 → setTss num address table i = table i) ∧
    StoresGate setIntrGate 0b01110 0 ∧ StoresGate setTrapGate 0b01111 0 ∧
    StoresGate setSystemGate 0b01111 3 := by
  refine ⟨?_, ?_, ?_, ?_, ?_⟩
  · intro num base limit type table
    refine ⟨?_, fun i hi => setGdtDesc_of_ne hi⟩
    rw [segment_setGdtDesc, extract_zero_setWidth (by decide), extract_zero_setWidth (by decide)]
  · exact fun num address table => ⟨tssAddress_setTss, fun i => setTss_of_ne⟩
  · exact storesGate_setGate destypeInt (by decide) (by decide)
  · exact storesGate_setGate destypeTrap (by decide) (by decide)
  · exact storesGate_setGate destypeSys (by decide) (by decide)

end Caos
