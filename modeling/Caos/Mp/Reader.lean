import Caos.Bitops
import Caos.Lib.Iteration
import Caos.Mp.Table

/-!
`mp_spec.c`: the globals, the handlers of the five entry types, and the entry loop
of `smp_read_mpc`. Messages are left out. The `size_t` counters are natural numbers:
`mpc_length` has 16 bits, so a table has fewer than `2 ^ 16` entries.
-/

namespace Caos

open Lib

/-- The globals that `smp_read_mpc` fills. -/
structure MpState where
  mpLapicAddr : Nat
  disabledCpus : Nat
  bootCpuId : Nat
  numProcessors : Nat
  mpCurrentPciId : Nat
  nrIoapics : Nat
  mpIrqEntries : Nat
  cpuPresentMap : BitVec 64
  mpBusNotPci : BitVec maxMpBusses
  biosCpuApicid : Nat → UInt8
  x86CpuToApicid : Nat → UInt8
  mpIoapics : Nat → MpcConfigIoapic
  mpIrqs : Nat → MpcConfigIntsrc
  mpBusIdToPciBus : Nat → Nat

/-- The globals when `mp_spec_init` calls `smp_read_mpc`: what it clears, and the
load-time values of the rest. -/
def clearedGlobals : MpState where
  mpLapicAddr := 0
  disabledCpus := 0
  bootCpuId := 0
  numProcessors := 0
  mpCurrentPciId := 0
  nrIoapics := 0
  mpIrqEntries := 0
  cpuPresentMap := 0
  mpBusNotPci := 0
  biosCpuApicid _ := 0xFF
  x86CpuToApicid _ := 0xFF
  mpIoapics _ := ⟨0, 0, 0, 0, 0⟩
  mpIrqs _ := ⟨0, 0, 0, 0, 0, 0, 0⟩
  mpBusIdToPciBus _ := minusOne

/-- `first_cpu`. -/
def firstCpu (map : BitVec 64) : Nat := ffz map

/-- `cpu_set`. -/
def cpuSet (cpuId : Nat) (map : BitVec 64) : BitVec 64 := setBit cpuId map

/-- `MP_processor_info`. -/
def mpProcessorInfo (m : MpcConfigProcessor) (s : MpState) : MpState :=
  if m.mpcCpuflag &&& cpuEnabled = 0 then
    { s with disabledCpus := s.disabledCpus + 1 }
  else
    -- the bootstrap processor is noted even when it is ignored below
    let s :=
      if m.mpcCpuflag &&& cpuBootprocessor ≠ 0 then { s with bootCpuId := m.mpcApicid.toNat }
      else s
    if s.numProcessors ≥ nrCpus then s
    else
      let cpu :=
        if m.mpcCpuflag &&& cpuBootprocessor ≠ 0 then 0 else firstCpu s.cpuPresentMap
      { s with
        numProcessors := s.numProcessors + 1
        biosCpuApicid := Function.update s.biosCpuApicid cpu m.mpcApicid
        x86CpuToApicid := Function.update s.x86CpuToApicid cpu m.mpcApicid
        cpuPresentMap := cpuSet cpu s.cpuPresentMap }

/-- `MP_bus_info`. Of the six bytes of the bus type, the first three are compared:
`str[3]` is overwritten with a NUL. -/
def mpBusInfo (m : MpcConfigBus) (s : MpState) : MpState :=
  let str := m.mpcBustype.toList.set 3 0
  if caosStrcmp str (literal "ISA" ++ [0]) = 0 then
    { s with mpBusNotPci := setBit m.mpcBusid.toNat s.mpBusNotPci }
  else if caosStrcmp str (literal "PCI" ++ [0]) = 0 then
    { s with
      mpBusNotPci := clearBit m.mpcBusid.toNat s.mpBusNotPci
      mpBusIdToPciBus := Function.update s.mpBusIdToPciBus m.mpcBusid.toNat s.mpCurrentPciId
      mpCurrentPciId := s.mpCurrentPciId + 1 }
  else s

/-- `MP_ioapic_info`. -/
def mpIoapicInfo (m : MpcConfigIoapic) (s : MpState) : MpState :=
  if m.mpcFlags &&& mpcApicUsable = 0 then s
  else if s.nrIoapics ≥ maxIoApics ∨ m.mpcApicaddr = 0 then s
  else
    { s with
      mpIoapics := Function.update s.mpIoapics s.nrIoapics m
      nrIoapics := s.nrIoapics + 1 }

/-- `MP_intsrc_info`. `none` stands for `halt()`, which does not return. -/
def mpIntsrcInfo (m : MpcConfigIntsrc) (s : MpState) : Option MpState :=
  let s :=
    { s with
      mpIrqs := Function.update s.mpIrqs s.mpIrqEntries m
      mpIrqEntries := s.mpIrqEntries + 1 }
  if s.mpIrqEntries ≥ maxIrqSources then none else some s

/-- `MP_lintsrc_info`, which only prints. -/
def mpLintsrcInfo (_m : MpcConfigLintsrc) (s : MpState) : MpState := s

/-- The locals of `smp_read_mpc` in its loop, and the globals. -/
structure EntryLoop where
  count : Nat
  mpt : Nat
  globals : MpState

/-- `mpt += sizeof(*m)` and `count += sizeof(*m)`. -/
def EntryLoop.advance (l : EntryLoop) (size : Nat) (globals : MpState) : EntryLoop where
  count := l.count + size
  mpt := l.mpt + size
  globals := globals

/-- How the entry loop is left. -/
inductive LoopExit where
  | finished (globals : MpState)
  | halted

/-- One iteration of the entry loop. -/
def entryStep (mem : ByteMemory) (mpcLength : Nat) (l : EntryLoop) : EntryLoop ⊕ LoopExit :=
  if l.count < mpcLength then
    match MpType.ofByte? (mem l.mpt) with
    | some .processor =>
      .inl (l.advance MpType.processor.size (mpProcessorInfo (readProcessor mem l.mpt) l.globals))
    | some .bus =>
      .inl (l.advance MpType.bus.size (mpBusInfo (readBus mem l.mpt) l.globals))
    | some .ioapic =>
      .inl (l.advance MpType.ioapic.size (mpIoapicInfo (readIoapic mem l.mpt) l.globals))
    | some .intsrc =>
      match mpIntsrcInfo (readIntsrc mem l.mpt) l.globals with
      | some globals => .inl (l.advance MpType.intsrc.size globals)
      | none => .inr .halted
    | some .lintsrc =>
      .inl (l.advance MpType.lintsrc.size (mpLintsrcInfo (readLintsrc mem l.mpt) l.globals))
    -- the `switch` has no default: the iteration changes nothing
    | none => .inl l
  else .inr (.finished l.globals)

/-- The call that the entry loop makes for an entry. -/
def handleEntry (s : MpState) : MpEntry → Option MpState
  | .processor m _ => some (mpProcessorInfo m s)
  | .bus m _ => some (mpBusInfo m s)
  | .ioapic m _ => some (mpIoapicInfo m s)
  | .intsrc m _ => mpIntsrcInfo m s
  | .lintsrc m _ => some (mpLintsrcInfo m s)

/-- How `smp_read_mpc` ends: it returns, or the machine is in `halt()`. -/
inductive ReadResult where
  | ret (value : Bool) (globals : MpState)
  | halted

/-- The state in which the entry loop starts. -/
def entryLoopStart (mem : ByteMemory) (mpc : Nat) (s : MpState) : EntryLoop where
  count := sizeofMpConfigTable
  mpt := mpc + sizeofMpConfigTable
  globals := { s with mpLapicAddr := (readConfigTable mem mpc).mpcLapic.toNat }

/-- `smp_read_mpc`, with at most `fuel` iterations of the entry loop. `false` is
`CAOS_FALSE`. -/
def smpReadMpc (mem : ByteMemory) (mpc fuel : Nat) (s : MpState) : Option ReadResult :=
  let table := readConfigTable mem mpc
  if caosMemcmp table.mpcSignature (literal "PCMP") 4 ≠ 0 then some (.ret false s)
  else if table.mpcSpec ≠ 0x01 ∧ table.mpcSpec ≠ 0x04 then some (.ret false s)
  else if table.mpcLapic = 0 then some (.ret false s)
  else
    match iterate (entryStep mem table.mpcLength.toNat) fuel (entryLoopStart mem mpc s) with
    | some (.finished globals) => some (.ret true globals)
    | some .halted => some .halted
    | none => none

variable {mem : ByteMemory} {mpc mpcLength fuel : Nat} {s : MpState} {l : EntryLoop}

/-- One iteration at an entry handles that entry and steps over it. -/
theorem entryStep_of_entry {e : MpEntry} (hlt : l.count < mpcLength)
    (he : entryAt mem l.mpt = some e) :
    entryStep mem mpcLength l =
      match handleEntry l.globals e with
      | some globals => .inl (l.advance e.mpType.size globals)
      | none => .inr .halted := by
  have hstored := entryAt_eq_some_iff.mp he
  have htype : MpType.ofByte? (mem l.mpt) = some e.mpType := by
    rw [type_of_storedAt hstored, MpType.ofByte?_byte]
  cases e with
  | processor m type =>
      simp only [entryStep, if_pos hlt, htype, MpEntry.mpType, handleEntry,
        readProcessor_of_storedAt hstored]
  | bus m type =>
      simp only [entryStep, if_pos hlt, htype, MpEntry.mpType, handleEntry,
        readBus_of_storedAt hstored]
  | ioapic m type =>
      simp only [entryStep, if_pos hlt, htype, MpEntry.mpType, handleEntry,
        readIoapic_of_storedAt hstored]
  | intsrc m type =>
      simp only [entryStep, if_pos hlt, htype, MpEntry.mpType, handleEntry,
        readIntsrc_of_storedAt hstored]
  | lintsrc m type =>
      simp only [entryStep, if_pos hlt, htype, MpEntry.mpType, handleEntry,
        readLintsrc_of_storedAt hstored]

/-- At a byte that is no entry type the loop stays where it is. -/
theorem entryStep_of_no_entry (hlt : l.count < mpcLength) (he : entryAt mem l.mpt = none) :
    entryStep mem mpcLength l = .inl l := by
  have htype : MpType.ofByte? (mem l.mpt) = none := by
    rw [← Option.not_isSome_iff_eq_none, MpType.ofByte?_isSome_iff]
    exact entryAt_eq_none_iff.mp he
  simp only [entryStep, if_pos hlt, htype]

theorem entryStep_of_end (hge : ¬ l.count < mpcLength) :
    entryStep mem mpcLength l = .inr (.finished l.globals) := by
  simp only [entryStep, if_neg hge]

/-- Behind a header that passes the checks, `smp_read_mpc` is its entry loop. -/
theorem smpReadMpc_eq (h : ValidHeader (readConfigTable mem mpc)) :
    smpReadMpc mem mpc fuel s =
      (iterate (entryStep mem (readConfigTable mem mpc).mpcLength.toNat) fuel
        (entryLoopStart mem mpc s)).map fun
          | .finished globals => .ret true globals
          | .halted => .halted := by
  have hsig : caosMemcmp (readConfigTable mem mpc).mpcSignature (literal "PCMP") 4 = 0 := by
    rw [h.signature]
    decide
  have hspec : ¬ ((readConfigTable mem mpc).mpcSpec ≠ 0x01 ∧
      (readConfigTable mem mpc).mpcSpec ≠ 0x04) := by
    rintro ⟨h1, h4⟩
    exact h.spec.elim h1 h4
  simp only [smpReadMpc, hsig, ne_eq, not_true_eq_false, if_false, hspec, h.lapic]
  split <;> simp_all

/-- A header that does not pass the checks is refused and changes nothing. -/
theorem smpReadMpc_refused (h : ¬ ValidHeader (readConfigTable mem mpc)) :
    smpReadMpc mem mpc fuel s = some (.ret false s) := by
  simp only [smpReadMpc]
  split
  · rfl
  · next hsig =>
      split
      · rfl
      · next hspec =>
          split
          · rfl
          · next hlapic =>
              have hsignature : (readConfigTable mem mpc).mpcSignature = literal "PCMP" := by
                rw [literal_signature] at hsig ⊢
                exact (caosMemcmp_eq_zero_iff (Nat.le_refl 4) (Nat.le_refl 4)).mp (not_not.mp hsig)
              have hversion : (readConfigTable mem mpc).mpcSpec = 0x01 ∨
                  (readConfigTable mem mpc).mpcSpec = 0x04 := by
                by_contra hne
                exact hspec (not_or.mp hne)
              exact absurd ⟨hsignature, hversion, hlapic⟩ h

end Caos
