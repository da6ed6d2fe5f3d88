import Caos.Lib.Bytes
import Caos.CString

/-!
The MP configuration table of `mp_spec.h`: the packed structures, their layout in
memory, and the encoding of an entry. A structure is read from memory through a
pointer to it, as the handlers of the parser do.
-/

namespace Caos

open Lib

/-- `MAX_IO_APICS`. -/
def maxIoApics : Nat := 2

/-- `MAX_MP_BUSSES`. -/
def maxMpBusses : Nat := 256

/-- `MAX_IRQ_SOURCES`. -/
def maxIrqSources : Nat := maxMpBusses * 4

/-- `CPU_ENABLED`. -/
def cpuEnabled : UInt8 := 1

/-- `CPU_BOOTPROCESSOR`. -/
def cpuBootprocessor : UInt8 := 2

/-- `MPC_APIC_USABLE`. -/
def mpcApicUsable : UInt8 := 0x01

/-- `MP_PROCESSOR` to `MP_LINTSRC`. -/
inductive MpType where
  | processor
  | bus
  | ioapic
  | intsrc
  | lintsrc
  deriving DecidableEq, Repr

/-- The number that stands for the type in the table. -/
def MpType.byte : MpType → UInt8
  | .processor => 0
  | .bus => 1
  | .ioapic => 2
  | .intsrc => 3
  | .lintsrc => 4

/-- The case of the `switch` that a type byte selects, if there is one. -/
def MpType.ofByte? (b : UInt8) : Option MpType :=
  if b = 0 then some .processor
  else if b = 1 then some .bus
  else if b = 2 then some .ioapic
  else if b = 3 then some .intsrc
  else if b = 4 then some .lintsrc
  else none

@[simp] theorem MpType.ofByte?_byte (t : MpType) : MpType.ofByte? t.byte = some t := by
  cases t <;> rfl

theorem MpType.ofByte?_eq_some_iff {b : UInt8} {t : MpType} :
    MpType.ofByte? b = some t ↔ b = t.byte := by
  constructor
  · intro h
    unfold MpType.ofByte? at h
    cases t <;> grind [MpType.byte]
  · rintro rfl
    exact MpType.ofByte?_byte t

theorem MpType.ofByte?_isSome_iff {b : UInt8} : (MpType.ofByte? b).isSome ↔ b ≤ 4 := by
  rw [UInt8.le_iff_toNat_le, Option.isSome_iff_exists]
  constructor
  · rintro ⟨t, ht⟩
    rw [MpType.ofByte?_eq_some_iff.mp ht]
    cases t <;> decide
  · intro h
    have hbyte : ∀ n, b.toNat = n → b = .ofNat n := by
      rintro n rfl
      exact UInt8.ofNat_toNat.symm
    have hcase : b.toNat = 0 ∨ b.toNat = 1 ∨ b.toNat = 2 ∨ b.toNat = 3 ∨ b.toNat = 4 := by
      have h4 : (4 : UInt8).toNat = 4 := rfl
      omega
    rcases hcase with h | h | h | h | h
    · exact ⟨.processor, by rw [hbyte _ h]; rfl⟩
    · exact ⟨.bus, by rw [hbyte _ h]; rfl⟩
    · exact ⟨.ioapic, by rw [hbyte _ h]; rfl⟩
    · exact ⟨.intsrc, by rw [hbyte _ h]; rfl⟩
    · exact ⟨.lintsrc, by rw [hbyte _ h]; rfl⟩

/-! ## The structures -/

/-- `struct mp_config_table`, without the fields that the parser does not read. -/
structure MpConfigTable where
  mpcSignature : List UInt8
  mpcLength : UInt16
  mpcSpec : UInt8
  mpcLapic : UInt32

/-- `struct mpc_config_processor`. -/
structure MpcConfigProcessor where
  mpcType : UInt8
  mpcApicid : UInt8
  mpcApicver : UInt8
  mpcCpuflag : UInt8
  mpcCpufeature : UInt32
  mpcFeatureflag : UInt32
  mpcReserved : UInt32 × UInt32
  deriving DecidableEq

/-- `struct mpc_config_bus`. -/
structure MpcConfigBus where
  mpcType : UInt8
  mpcBusid : UInt8
  mpcBustype : Vector UInt8 6
  deriving DecidableEq

/-- `struct mpc_config_ioapic`. -/
structure MpcConfigIoapic where
  mpcType : UInt8
  mpcApicid : UInt8
  mpcApicver : UInt8
  mpcFlags : UInt8
  mpcApicaddr : UInt32
  deriving DecidableEq

/-- `struct mpc_config_intsrc`. -/
structure MpcConfigIntsrc where
  mpcType : UInt8
  mpcIrqtype : UInt8
  mpcIrqflag : UInt16
  mpcSrcbus : UInt8
  mpcSrcbusirq : UInt8
  mpcDstapic : UInt8
  mpcDstirq : UInt8
  deriving DecidableEq

/-- `struct mpc_config_lintsrc`. -/
structure MpcConfigLintsrc where
  mpcType : UInt8
  mpcIrqtype : UInt8
  mpcIrqflag : UInt16
  mpcSrcbusid : UInt8
  mpcSrcbusirq : UInt8
  mpcDestapic : UInt8
  mpcDestapiclint : UInt8
  deriving DecidableEq

/-- `sizeof(struct mp_config_table)`. -/
def sizeofMpConfigTable : Nat := 44

/-- `sizeof(*m)` in the case of the `switch` for a type. -/
def MpType.size : MpType → Nat
  | .processor => 20
  | .bus | .ioapic | .intsrc | .lintsrc => 8

theorem MpType.size_pos (t : MpType) : 0 < t.size := by
  cases t <;> decide

/-! ## Reading through a pointer -/

variable (mem : ByteMemory) (m : Nat)

def readConfigTable : MpConfigTable where
  mpcSignature := [mem m, mem (m + 1), mem (m + 2), mem (m + 3)]
  mpcLength := read16 mem (m + 4)
  mpcSpec := mem (m + 6)
  mpcLapic := read32 mem (m + 36)

def readProcessor : MpcConfigProcessor where
  mpcType := mem m
  mpcApicid := mem (m + 1)
  mpcApicver := mem (m + 2)
  mpcCpuflag := mem (m + 3)
  mpcCpufeature := read32 mem (m + 4)
  mpcFeatureflag := read32 mem (m + 8)
  mpcReserved := (read32 mem (m + 12), read32 mem (m + 16))

def readBus : MpcConfigBus where
  mpcType := mem m
  mpcBusid := mem (m + 1)
  mpcBustype := #v[mem (m + 2), mem (m + 3), mem (m + 4), mem (m + 5), mem (m + 6), mem (m + 7)]

def readIoapic : MpcConfigIoapic where
  mpcType := mem m
  mpcApicid := mem (m + 1)
  mpcApicver := mem (m + 2)
  mpcFlags := mem (m + 3)
  mpcApicaddr := read32 mem (m + 4)

def readIntsrc : MpcConfigIntsrc where
  mpcType := mem m
  mpcIrqtype := mem (m + 1)
  mpcIrqflag := read16 mem (m + 2)
  mpcSrcbus := mem (m + 4)
  mpcSrcbusirq := mem (m + 5)
  mpcDstapic := mem (m + 6)
  mpcDstirq := mem (m + 7)

def readLintsrc : MpcConfigLintsrc where
  mpcType := mem m
  mpcIrqtype := mem (m + 1)
  mpcIrqflag := read16 mem (m + 2)
  mpcSrcbusid := mem (m + 4)
  mpcSrcbusirq := mem (m + 5)
  mpcDestapic := mem (m + 6)
  mpcDestapiclint := mem (m + 7)

variable {mem m}

/-! ## Entries and their encoding -/

/-- An entry of the table: one of the structures, with the type byte that
belongs to it. -/
inductive MpEntry where
  | processor (m : MpcConfigProcessor) (type : m.mpcType = MpType.processor.byte)
  | bus (m : MpcConfigBus) (type : m.mpcType = MpType.bus.byte)
  | ioapic (m : MpcConfigIoapic) (type : m.mpcType = MpType.ioapic.byte)
  | intsrc (m : MpcConfigIntsrc) (type : m.mpcType = MpType.intsrc.byte)
  | lintsrc (m : MpcConfigLintsrc) (type : m.mpcType = MpType.lintsrc.byte)
  deriving DecidableEq

def MpEntry.mpType : MpEntry → MpType
  | .processor _ _ => .processor
  | .bus _ _ => .bus
  | .ioapic _ _ => .ioapic
  | .intsrc _ _ => .intsrc
  | .lintsrc _ _ => .lintsrc

/-- The bytes of a structure, in the order of its fields. -/
def MpcConfigProcessor.bytes (m : MpcConfigProcessor) : List UInt8 :=
  [m.mpcType, m.mpcApicid, m.mpcApicver, m.mpcCpuflag] ++ bytes32 m.mpcCpufeature ++
    bytes32 m.mpcFeatureflag ++ bytes32 m.mpcReserved.1 ++ bytes32 m.mpcReserved.2

def MpcConfigBus.bytes (m : MpcConfigBus) : List UInt8 :=
  [m.mpcType, m.mpcBusid] ++ m.mpcBustype.toList

def MpcConfigIoapic.bytes (m : MpcConfigIoapic) : List UInt8 :=
  [m.mpcType, m.mpcApicid, m.mpcApicver, m.mpcFlags] ++ bytes32 m.mpcApicaddr

def MpcConfigIntsrc.bytes (m : MpcConfigIntsrc) : List UInt8 :=
  [m.mpcType, m.mpcIrqtype] ++ bytes16 m.mpcIrqflag ++
    [m.mpcSrcbus, m.mpcSrcbusirq, m.mpcDstapic, m.mpcDstirq]

def MpcConfigLintsrc.bytes (m : MpcConfigLintsrc) : List UInt8 :=
  [m.mpcType, m.mpcIrqtype] ++ bytes16 m.mpcIrqflag ++
    [m.mpcSrcbusid, m.mpcSrcbusirq, m.mpcDestapic, m.mpcDestapiclint]

def MpEntry.bytes : MpEntry → List UInt8
  | .processor m _ => m.bytes
  | .bus m _ => m.bytes
  | .ioapic m _ => m.bytes
  | .intsrc m _ => m.bytes
  | .lintsrc m _ => m.bytes

@[simp] theorem MpEntry.bytes_length (e : MpEntry) : e.bytes.length = e.mpType.size := by
  cases e <;> simp [MpEntry.bytes, MpEntry.mpType, MpType.size, MpcConfigProcessor.bytes,
    MpcConfigBus.bytes, MpcConfigIoapic.bytes, MpcConfigIntsrc.bytes, MpcConfigLintsrc.bytes]

/-- The first byte of an entry is its type. -/
theorem type_of_storedAt {e : MpEntry} (h : StoredAt mem m e.bytes) :
    mem m = e.mpType.byte := by
  cases e with
  | processor p type => exact h.1.trans type
  | bus b type => exact h.1.trans type
  | ioapic a type => exact h.1.trans type
  | intsrc i type => exact h.1.trans type
  | lintsrc l type => exact h.1.trans type

/-! A structure is read back from its bytes. -/

theorem readProcessor_of_storedAt {p : MpcConfigProcessor} (h : StoredAt mem m p.bytes) :
    readProcessor mem m = p := by
  simp only [MpcConfigProcessor.bytes, storedAt_append, storedAt_cons, List.length_append,
    List.length_cons, List.length_nil, bytes32_length, and_assoc] at h
  obtain ⟨htype, hid, hver, hflag, -, hfeature, hfeatureflag, hres, hres'⟩ := h
  have hreserved : (read32 mem (m + 12), read32 mem (m + 16)) = p.mpcReserved :=
    Prod.ext (read32_of_storedAt hres) (read32_of_storedAt hres')
  simp only [readProcessor, htype, hid, hver, hflag, read32_of_storedAt hfeature,
    read32_of_storedAt hfeatureflag, hreserved]

theorem toList_bustype (bustype : Vector UInt8 6) :
    bustype.toList =
      [bustype[0], bustype[1], bustype[2], bustype[3], bustype[4], bustype[5]] := by
  apply List.ext_getElem
  · simp
  · intro i hi hi'
    rw [Vector.length_toList] at hi
    interval_cases i <;> simp

theorem readBus_of_storedAt {b : MpcConfigBus} (h : StoredAt mem m b.bytes) :
    readBus mem m = b := by
  simp only [MpcConfigBus.bytes, toList_bustype, storedAt_append, storedAt_cons, and_assoc] at h
  obtain ⟨htype, hid, -, h0, h1, h2, h3, h4, h5, -⟩ := h
  have hbustype : #v[mem (m + 2), mem (m + 3), mem (m + 4), mem (m + 5), mem (m + 6),
      mem (m + 7)] = b.mpcBustype := by
    apply Vector.toList_inj.mp
    rw [toList_bustype b.mpcBustype, ← h0, ← h1, ← h2, ← h3, ← h4, ← h5]
    rfl
  simp only [readBus, htype, hid, hbustype]

theorem readIoapic_of_storedAt {a : MpcConfigIoapic} (h : StoredAt mem m a.bytes) :
    readIoapic mem m = a := by
  simp only [MpcConfigIoapic.bytes, storedAt_append, storedAt_cons, List.length_cons,
    List.length_nil, and_assoc] at h
  obtain ⟨htype, hid, hver, hflags, -, haddr⟩ := h
  simp only [readIoapic, htype, hid, hver, hflags, read32_of_storedAt haddr]

theorem readIntsrc_of_storedAt {i : MpcConfigIntsrc} (h : StoredAt mem m i.bytes) :
    readIntsrc mem m = i := by
  simp only [MpcConfigIntsrc.bytes, storedAt_append, storedAt_cons, List.length_append,
    List.length_cons, List.length_nil, bytes16_length, and_assoc] at h
  obtain ⟨htype, hirqtype, -, hflag, hbus, hbusirq, hapic, hirq, -⟩ := h
  simp only [readIntsrc, htype, hirqtype, read16_of_storedAt hflag, hbus, hbusirq, hapic, hirq]

theorem readLintsrc_of_storedAt {l : MpcConfigLintsrc} (h : StoredAt mem m l.bytes) :
    readLintsrc mem m = l := by
  simp only [MpcConfigLintsrc.bytes, storedAt_append, storedAt_cons, List.length_append,
    List.length_cons, List.length_nil, bytes16_length, and_assoc] at h
  obtain ⟨htype, hirqtype, -, hflag, hbus, hbusirq, hapic, hlint, -⟩ := h
  simp only [readLintsrc, htype, hirqtype, read16_of_storedAt hflag, hbus, hbusirq, hapic, hlint]

/-! ## The entry at an address -/

/-- The structure that the `switch` reads for a type. -/
def MpType.read (mem : ByteMemory) (m : Nat) : (t : MpType) → mem m = t.byte → MpEntry
  | .processor, type => .processor (readProcessor mem m) type
  | .bus, type => .bus (readBus mem m) type
  | .ioapic, type => .ioapic (readIoapic mem m) type
  | .intsrc, type => .intsrc (readIntsrc mem m) type
  | .lintsrc, type => .lintsrc (readLintsrc mem m) type

/-- The entry at an address, if the byte there is a known type. -/
def entryAt (mem : ByteMemory) (m : Nat) : Option MpEntry :=
  match h : MpType.ofByte? (mem m) with
  | some t => some (t.read mem m (MpType.ofByte?_eq_some_iff.mp h))
  | none => none

theorem entryAt_of_type {t : MpType} (h : mem m = t.byte) :
    entryAt mem m = some (t.read mem m h) := by
  unfold entryAt
  split
  · next t' h' =>
      obtain rfl : t' = t := by
        rw [h, MpType.ofByte?_byte] at h'
        exact (Option.some.inj h').symm
      rfl
  · next h' =>
      rw [h, MpType.ofByte?_byte] at h'
      cases h'

theorem entryAt_eq_none_iff : entryAt mem m = none ↔ ¬ mem m ≤ 4 := by
  rw [← MpType.ofByte?_isSome_iff]
  unfold entryAt
  split
  · next t h => simp [h]
  · next h => simp [h]

/-- Reading an entry inverts writing one: the entry at an address is the one whose bytes
stand there. -/
theorem entryAt_eq_some_iff {e : MpEntry} : entryAt mem m = some e ↔ StoredAt mem m e.bytes := by
  constructor
  · intro h
    unfold entryAt at h
    split at h
    · next t _ =>
        cases h
        cases t <;>
          simp [MpType.read, MpEntry.bytes, MpcConfigProcessor.bytes, MpcConfigBus.bytes,
            MpcConfigIoapic.bytes, MpcConfigIntsrc.bytes, MpcConfigLintsrc.bytes, readProcessor,
            readBus, readIoapic, readIntsrc, readLintsrc, storedAt_read16, storedAt_read32]
    · cases h
  · intro h
    rw [entryAt_of_type (type_of_storedAt h)]
    cases e with
    | processor p type => simp only [MpEntry.mpType, MpType.read, readProcessor_of_storedAt h]
    | bus b type => simp only [MpEntry.mpType, MpType.read, readBus_of_storedAt h]
    | ioapic a type => simp only [MpEntry.mpType, MpType.read, readIoapic_of_storedAt h]
    | intsrc i type => simp only [MpEntry.mpType, MpType.read, readIntsrc_of_storedAt h]
    | lintsrc l type => simp only [MpEntry.mpType, MpType.read, readLintsrc_of_storedAt h]

/-! ## Tables -/

theorem literal_signature : literal "PCMP" = [0x50, 0x43, 0x4D, 0x50] := by
  decide

/-- What `smp_read_mpc` checks of a header. -/
structure ValidHeader (mpc : MpConfigTable) : Prop where
  signature : mpc.mpcSignature = literal "PCMP"
  spec : mpc.mpcSpec = 0x01 ∨ mpc.mpcSpec = 0x04
  lapic : mpc.mpcLapic ≠ 0

/-- The number of bytes that a sequence of entries takes. -/
def sizeofEntries (entries : List MpEntry) : Nat := (entries.map fun e => e.mpType.size).sum

/-- The entries one after another. -/
def encodeEntries (entries : List MpEntry) : List UInt8 := entries.flatMap MpEntry.bytes

/-- A configuration table at `mpc` that consists of the given entries: a header that
passes the checks, the entries behind it, and their size in `mpc_length`. -/
structure TableAt (mem : ByteMemory) (mpc : Nat) (entries : List MpEntry) : Prop where
  header : ValidHeader (readConfigTable mem mpc)
  length : (readConfigTable mem mpc).mpcLength.toNat =
    sizeofMpConfigTable + sizeofEntries entries
  stored : StoredAt mem (mpc + sizeofMpConfigTable) (encodeEntries entries)

@[simp] theorem sizeofEntries_nil : sizeofEntries [] = 0 := rfl

@[simp] theorem sizeofEntries_cons (e : MpEntry) (entries : List MpEntry) :
    sizeofEntries (e :: entries) = e.mpType.size + sizeofEntries entries := by
  simp [sizeofEntries]

@[simp] theorem encodeEntries_cons (e : MpEntry) (entries : List MpEntry) :
    encodeEntries (e :: entries) = e.bytes ++ encodeEntries entries := by
  simp [encodeEntries]

/-- A header with the given length, version 1.4 and the usual local APIC address. -/
def headerBytes (length : UInt16) : List UInt8 :=
  [0x50, 0x43, 0x4D, 0x50] ++ bytes16 length ++ [0x04, 0] ++ List.replicate 28 0 ++
    bytes32 0xFEE00000 ++ List.replicate 4 0

/-- A table that consists of the given entries. -/
def tableBytes (entries : List MpEntry) : List UInt8 :=
  headerBytes (.ofNat (sizeofMpConfigTable + sizeofEntries entries)) ++ encodeEntries entries

/-- Every sequence of entries whose size fits `mpc_length` has a table. -/
theorem tableAt_tableBytes {entries : List MpEntry}
    (hfit : sizeofMpConfigTable + sizeofEntries entries < 2 ^ 16) :
    TableAt (memoryOf (tableBytes entries)) 0 entries := by
  constructor
  · constructor
    · rw [literal_signature]
      rfl
    · exact .inr rfl
    · have hlapic := storedAt_memoryOf ([0x50, 0x43, 0x4D, 0x50] ++
        bytes16 (.ofNat (sizeofMpConfigTable + sizeofEntries entries)) ++ [0x04, 0] ++
        List.replicate 28 0) (bytes32 0xFEE00000) (List.replicate 4 0 ++ encodeEntries entries)
      have hread : (readConfigTable (memoryOf (tableBytes entries)) 0).mpcLapic = 0xFEE00000 :=
        read32_of_storedAt hlapic
      rw [hread]
      decide
  · have hlength := storedAt_memoryOf [0x50, 0x43, 0x4D, 0x50]
      (bytes16 (.ofNat (sizeofMpConfigTable + sizeofEntries entries)))
      ([0x04, 0] ++ List.replicate 28 0 ++ bytes32 0xFEE00000 ++ List.replicate 4 0 ++
        encodeEntries entries)
    have hread : (readConfigTable (memoryOf (tableBytes entries)) 0).mpcLength =
        .ofNat (sizeofMpConfigTable + sizeofEntries entries) := read16_of_storedAt hlength
    rw [hread, UInt16.toNat_ofNat']
    exact Nat.mod_eq_of_lt hfit
  · have hentries := storedAt_memoryOf
      (headerBytes (.ofNat (sizeofMpConfigTable + sizeofEntries entries)))
      (encodeEntries entries) []
    rw [List.append_nil] at hentries
    exact hentries

end Caos
