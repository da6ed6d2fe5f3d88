import Caos.Lib.Run
import Caos.Mp.Reader

/-!
`smp_read_mpc` on a table that consists of entries: the loop takes one iteration for
each entry, calls its handler, and leaves what the entries say in the globals.
-/

namespace Caos

open Lib

variable {mem : ByteMemory} {mpc mpcLength : Nat} {s s' : MpState} {entries done : List MpEntry}

/-! ## The loop over the entries -/

/-- The loop handles the entries in order and then finds the end of the table. -/
theorem iterate_entries {l : EntryLoop} (hstored : StoredAt mem l.mpt (encodeEntries entries))
    (hlength : l.count + sizeofEntries entries = mpcLength) :
    iterate (entryStep mem mpcLength) (entries.length + 1) l =
      match entries.foldlM handleEntry l.globals with
      | some globals => some (.finished globals)
      | none => some .halted := by
  induction entries generalizing l with
  | nil =>
      have hend : ¬ l.count < mpcLength := by
        rw [sizeofEntries_nil] at hlength
        omega
      simp [iterate, entryStep, hend]
  | cons e entries ih =>
      rw [encodeEntries_cons, storedAt_append, MpEntry.bytes_length] at hstored
      rw [sizeofEntries_cons] at hlength
      have hlt : l.count < mpcLength := by
        have hpos := e.mpType.size_pos
        omega
      have hstep := entryStep_of_entry hlt (entryAt_eq_some_iff.mpr hstored.1)
      rw [List.length_cons, List.foldlM_cons]
      cases hhandle : handleEntry l.globals e with
      | none =>
          rw [hhandle] at hstep
          rw [iterate_inr hstep]
          rfl
      | some globals =>
          rw [hhandle] at hstep
          rw [iterate_inl hstep]
          apply ih
          · exact hstored.2
          · simp only [EntryLoop.advance]
            omega

/-- On a table of entries, `smp_read_mpc` is the fold of the handlers. -/
theorem smpReadMpc_of_tableAt (ht : TableAt mem mpc entries) :
    smpReadMpc mem mpc (entries.length + 1) s =
      match entries.foldlM handleEntry (entryLoopStart mem mpc s).globals with
      | some globals => some (.ret true globals)
      | none => some .halted := by
  have hloop := @iterate_entries mem _ entries (entryLoopStart mem mpc s) ht.stored
    ht.length.symm
  rw [smpReadMpc_eq ht.header, hloop]
  cases entries.foldlM handleEntry (entryLoopStart mem mpc s).globals <;> rfl

theorem smpReadMpc_ret {fuel : Nat} {value : Bool} (ht : TableAt mem mpc entries)
    (h : smpReadMpc mem mpc fuel s = some (.ret value s')) :
    entries.foldlM handleEntry (entryLoopStart mem mpc s).globals = some s' := by
  have hloop := @iterate_entries mem _ entries (entryLoopStart mem mpc s) ht.stored
    ht.length.symm
  rw [smpReadMpc_eq ht.header, Option.map_eq_some_iff] at h
  obtain ⟨exit, hexit, hret⟩ := h
  cases hfold : entries.foldlM handleEntry (entryLoopStart mem mpc s).globals with
  | none =>
      rw [hfold] at hloop
      rw [iterate_unique hexit hloop] at hret
      cases hret
  | some globals =>
      rw [hfold] at hloop
      rw [iterate_unique hexit hloop] at hret
      cases hret
      rfl

/-! ## What the entries say -/

/-- The processor entries. -/
def processors (entries : List MpEntry) : List MpcConfigProcessor :=
  entries.filterMap fun
    | .processor m _ => some m
    | _ => none

/-- The interrupt-source entries. -/
def interruptSources (entries : List MpEntry) : List MpcConfigIntsrc :=
  entries.filterMap fun
    | .intsrc m _ => some m
    | _ => none

/-- The usable I/O APIC entries with a non-zero address. -/
def usableIoapics (entries : List MpEntry) : List MpcConfigIoapic :=
  entries.filterMap fun
    | .ioapic m _ => if m.mpcFlags &&& mpcApicUsable ≠ 0 ∧ m.mpcApicaddr ≠ 0 then some m else none
    | _ => none

/-- The bus types that are identified. -/
inductive BusType where
  | isa
  | pci
  deriving DecidableEq

/-- The bus type that the first three characters of `mpc_bustype` name. -/
def MpcConfigBus.busType? (m : MpcConfigBus) : Option BusType :=
  if m.mpcBustype.toList.take 3 = literal "ISA" then some .isa
  else if m.mpcBustype.toList.take 3 = literal "PCI" then some .pci
  else none

/-- The ISA and PCI bus entries, as bus id and type. -/
def buses (entries : List MpEntry) : List (UInt8 × BusType) :=
  entries.filterMap fun
    | .bus m _ => m.busType?.map fun type => (m.mpcBusid, type)
    | _ => none

/-- The bus ids of the PCI bus entries. -/
def pciBusIds (entries : List MpEntry) : List UInt8 :=
  (buses entries).filterMap fun
    | (busid, .pci) => some busid
    | _ => none

/-- The type in the last ISA or PCI entry for a bus id. -/
def lastBusType (entries : List MpEntry) (busid : UInt8) : Option BusType :=
  (((buses entries).filter fun b => b.1 = busid).getLast?).map Prod.snd

/-- The globals say what the entries say. -/
structure Decoded (entries : List MpEntry) (s : MpState) : Prop where
  disabledCpus : s.disabledCpus =
    (processors entries).countP fun m => m.mpcCpuflag &&& cpuEnabled = 0
  mpIrqs : (List.range s.mpIrqEntries).map s.mpIrqs = interruptSources entries
  mpIoapics : (List.range s.nrIoapics).map s.mpIoapics = (usableIoapics entries).take maxIoApics
  mpBusNotPci : ∀ busid : UInt8,
    s.mpBusNotPci.getLsbD busid.toNat = true ↔ lastBusType entries busid = some .isa
  mpBusIdToPciBus : ∀ before busid after, pciBusIds entries = before ++ busid :: after →
    busid ∉ after → s.mpBusIdToPciBus busid.toNat = before.length
  mpCurrentPciId : s.mpCurrentPciId = (pciBusIds entries).length

section Append

variable (done) (e : MpEntry)

theorem processors_append :
    processors (done ++ [e]) = processors done ++ processors [e] := List.filterMap_append

theorem interruptSources_append :
    interruptSources (done ++ [e]) = interruptSources done ++ interruptSources [e] :=
  List.filterMap_append

theorem usableIoapics_append :
    usableIoapics (done ++ [e]) = usableIoapics done ++ usableIoapics [e] :=
  List.filterMap_append

theorem buses_append : buses (done ++ [e]) = buses done ++ buses [e] := List.filterMap_append

theorem pciBusIds_append : pciBusIds (done ++ [e]) = pciBusIds done ++ pciBusIds [e] := by
  rw [pciBusIds, buses_append, List.filterMap_append]
  rfl

theorem lastBusType_append (busid : UInt8) :
    lastBusType (done ++ [e]) busid =
      (lastBusType [e] busid).or (lastBusType done busid) := by
  simp only [lastBusType, buses_append, List.filter_append, List.getLast?_append, Option.map_or]

variable {done e}

theorem processors_skip (h : processors [e] = []) :
    processors (done ++ [e]) = processors done := by
  rw [processors_append, h, List.append_nil]

theorem interruptSources_skip (h : interruptSources [e] = []) :
    interruptSources (done ++ [e]) = interruptSources done := by
  rw [interruptSources_append, h, List.append_nil]

theorem usableIoapics_skip (h : usableIoapics [e] = []) :
    usableIoapics (done ++ [e]) = usableIoapics done := by
  rw [usableIoapics_append, h, List.append_nil]

theorem pciBusIds_skip (h : buses [e] = []) : pciBusIds (done ++ [e]) = pciBusIds done := by
  rw [pciBusIds, buses_append, h, List.append_nil, pciBusIds]

theorem lastBusType_skip (h : buses [e] = []) (busid : UInt8) :
    lastBusType (done ++ [e]) busid = lastBusType done busid := by
  rw [lastBusType, buses_append, h, List.append_nil, lastBusType]

end Append

/-- An array that is filled one element at a time. -/
theorem map_range_update {α : Type*} (f : Nat → α) (n : Nat) (a : α) :
    (List.range (n + 1)).map (Function.update f n a) = (List.range n).map f ++ [a] := by
  rw [List.range_succ, List.map_append, List.map_singleton, Function.update_self]
  congr 1
  apply List.map_congr_left
  intro i hi
  exact Function.update_of_ne (Nat.ne_of_lt (List.mem_range.mp hi)) a f

/-! ## One handler call -/

theorem mpProcessorInfo_frame (m : MpcConfigProcessor) (s : MpState) :
    ∃ boot num map bios x86, mpProcessorInfo m s =
      { s with
        disabledCpus := s.disabledCpus + if m.mpcCpuflag &&& cpuEnabled = 0 then 1 else 0
        bootCpuId := boot
        numProcessors := num
        cpuPresentMap := map
        biosCpuApicid := bios
        x86CpuToApicid := x86 } := by
  simp only [mpProcessorInfo]
  split_ifs <;> exact ⟨_, _, _, _, _, rfl⟩

/-- The truncated comparisons of `MP_bus_info` look at the first three characters. -/
theorem caosStrcmp_bustype {name : List UInt8} (bustype : Vector UInt8 6)
    (hname : name.length = 3) (hnul : 0 ∉ name) :
    caosStrcmp (bustype.toList.set 3 0) (name ++ [0]) = 0 ↔ bustype.toList.take 3 = name := by
  obtain ⟨n0, n1, n2, rfl⟩ := List.length_eq_three.mp hname
  rw [caosStrcmp_eq_zero_iff hnul (by simp), toList_bustype]
  simp [eq_comm]

theorem mpBusInfo_eq (m : MpcConfigBus) (s : MpState) :
    mpBusInfo m s =
      match m.busType? with
      | some .isa => { s with mpBusNotPci := setBit m.mpcBusid.toNat s.mpBusNotPci }
      | some .pci =>
        { s with
          mpBusNotPci := clearBit m.mpcBusid.toNat s.mpBusNotPci
          mpBusIdToPciBus := Function.update s.mpBusIdToPciBus m.mpcBusid.toNat s.mpCurrentPciId
          mpCurrentPciId := s.mpCurrentPciId + 1 }
      | none => s := by
  have hisa := @caosStrcmp_bustype (literal "ISA") m.mpcBustype (by decide) (by decide)
  have hpci := @caosStrcmp_bustype (literal "PCI") m.mpcBustype (by decide) (by decide)
  simp only [mpBusInfo, MpcConfigBus.busType?, hisa, hpci]
  split_ifs <;> rfl

theorem mpIntsrcInfo_eq_some {m : MpcConfigIntsrc} (h : mpIntsrcInfo m s = some s') :
    s' = { s with
      mpIrqs := Function.update s.mpIrqs s.mpIrqEntries m
      mpIrqEntries := s.mpIrqEntries + 1 } := by
  simp only [mpIntsrcInfo] at h
  split at h
  · cases h
  · exact (Option.some.inj h).symm

/-! ## What one more entry adds -/

theorem Decoded.processor {m : MpcConfigProcessor} (type : m.mpcType = MpType.processor.byte)
    (h : Decoded done s) : Decoded (done ++ [MpEntry.processor m type]) (mpProcessorInfo m s) := by
  obtain ⟨boot, num, map, bios, x86, heq⟩ := mpProcessorInfo_frame m s
  rw [heq]
  constructor
  · rw [processors_append, List.countP_append, ← h.disabledCpus]
    simp [processors, List.countP_cons]
  · rw [interruptSources_skip rfl]
    exact h.mpIrqs
  · rw [usableIoapics_skip rfl]
    exact h.mpIoapics
  · intro busid
    rw [lastBusType_skip rfl]
    exact h.mpBusNotPci busid
  · rw [pciBusIds_skip rfl]
    exact h.mpBusIdToPciBus
  · rw [pciBusIds_skip rfl]
    exact h.mpCurrentPciId

theorem lastBusType_bus (m : MpcConfigBus) (type : m.mpcType = MpType.bus.byte) (busid : UInt8) :
    lastBusType [.bus m type] busid = if m.mpcBusid = busid then m.busType? else none := by
  cases hkind : m.busType? <;> by_cases hid : m.mpcBusid = busid <;>
    simp [lastBusType, buses, hkind, hid]

/-- A bus entry leaves everything but the bus tables alone. -/
theorem mpBusInfo_frame (m : MpcConfigBus) (s : MpState) :
    ∃ map ids cur, mpBusInfo m s =
      { s with mpBusNotPci := map, mpBusIdToPciBus := ids, mpCurrentPciId := cur } := by
  rw [mpBusInfo_eq]
  split <;> exact ⟨_, _, _, rfl⟩

theorem mpBusInfo_mpBusNotPci (m : MpcConfigBus) (s : MpState) (busid : UInt8) :
    (mpBusInfo m s).mpBusNotPci.getLsbD busid.toNat =
      if m.mpcBusid = busid ∧ m.busType?.isSome then decide (m.busType? = some .isa)
      else s.mpBusNotPci.getLsbD busid.toNat := by
  have hlt : m.mpcBusid.toNat < maxMpBusses := m.mpcBusid.toNat_lt
  have heq : m.mpcBusid.toNat = busid.toNat ↔ m.mpcBusid = busid := UInt8.toNat_inj
  rw [mpBusInfo_eq]
  cases hkind : m.busType? with
  | none => simp
  | some type =>
      cases type with
      | isa =>
          dsimp only
          rw [getLsbD_setBit _ hlt]
          by_cases hid : m.mpcBusid = busid <;> simp [heq, hid]
      | pci =>
          dsimp only
          rw [getLsbD_clearBit _ hlt]
          by_cases hid : m.mpcBusid = busid <;> simp [heq, hid, bne]

/-- The PCI tables after one more bus entry. -/
theorem Decoded.pciTables {m : MpcConfigBus} (type : m.mpcType = MpType.bus.byte)
    (h : Decoded done s) :
    (∀ before busid after, pciBusIds (done ++ [MpEntry.bus m type]) = before ++ busid :: after →
      busid ∉ after → (mpBusInfo m s).mpBusIdToPciBus busid.toNat = before.length) ∧
    (mpBusInfo m s).mpCurrentPciId = (pciBusIds (done ++ [MpEntry.bus m type])).length := by
  rw [pciBusIds_append, mpBusInfo_eq]
  cases hkind : m.busType? with
  | none =>
      have hnone : pciBusIds [.bus m type] = [] := by simp [pciBusIds, buses, hkind]
      rw [hnone, List.append_nil]
      exact ⟨h.mpBusIdToPciBus, h.mpCurrentPciId⟩
  | some kind =>
      cases kind with
      | isa =>
          have hnone : pciBusIds [.bus m type] = [] := by simp [pciBusIds, buses, hkind]
          rw [hnone, List.append_nil]
          exact ⟨h.mpBusIdToPciBus, h.mpCurrentPciId⟩
      | pci =>
          have hone : pciBusIds [.bus m type] = [m.mpcBusid] := by simp [pciBusIds, buses, hkind]
          rw [hone, List.length_append, ← h.mpCurrentPciId]
          dsimp only
          refine ⟨?_, rfl⟩
          intro before busid after hsplit hlast
          rcases List.eq_nil_or_concat after with rfl | ⟨after, last, rfl⟩
          · -- the new entry is the last one for this id
            obtain ⟨hdone, hid⟩ := List.append_inj' hsplit rfl
            cases hid
            rw [Function.update_self, h.mpCurrentPciId, hdone]
          · -- the last entry for this id is an earlier one
            rw [List.concat_eq_append, ← List.cons_append, ← List.append_assoc] at hsplit
            obtain ⟨hdone, hid⟩ := List.append_inj' hsplit rfl
            cases hid
            rw [List.concat_eq_append, List.mem_append, List.mem_singleton, not_or] at hlast
            rw [Function.update_of_ne (fun heq => hlast.2 (UInt8.toNat_inj.mp heq))]
            exact h.mpBusIdToPciBus before busid after hdone hlast.1

theorem Decoded.bus {m : MpcConfigBus} (type : m.mpcType = MpType.bus.byte)
    (h : Decoded done s) : Decoded (done ++ [MpEntry.bus m type]) (mpBusInfo m s) := by
  obtain ⟨map, ids, cur, heq⟩ := mpBusInfo_frame m s
  obtain ⟨hids, hcur⟩ := h.pciTables type
  constructor
  · rw [heq, processors_skip rfl]
    exact h.disabledCpus
  · rw [heq, interruptSources_skip rfl]
    exact h.mpIrqs
  · rw [heq, usableIoapics_skip rfl]
    exact h.mpIoapics
  · intro busid
    rw [mpBusInfo_mpBusNotPci, lastBusType_append, lastBusType_bus]
    have hdone := h.mpBusNotPci busid
    cases m.busType? with
    | none => simpa using hdone
    | some kind =>
        by_cases hid : m.mpcBusid = busid
        · simp [hid]
        · simpa [hid] using hdone
  · exact hids
  · exact hcur

/-- An I/O APIC entry leaves everything but the I/O APIC table alone. -/
theorem mpIoapicInfo_frame (m : MpcConfigIoapic) (s : MpState) :
    ∃ ioapics nr, mpIoapicInfo m s = { s with mpIoapics := ioapics, nrIoapics := nr } := by
  simp only [mpIoapicInfo]
  split_ifs <;> exact ⟨_, _, rfl⟩

/-- The I/O APIC table after one more I/O APIC entry. -/
theorem Decoded.ioapicTable {m : MpcConfigIoapic} (type : m.mpcType = MpType.ioapic.byte)
    (h : Decoded done s) :
    (List.range (mpIoapicInfo m s).nrIoapics).map (mpIoapicInfo m s).mpIoapics =
      (usableIoapics (done ++ [MpEntry.ioapic m type])).take maxIoApics := by
  have hnr : s.nrIoapics = min maxIoApics (usableIoapics done).length := by
    have hlen := congrArg List.length h.mpIoapics
    rwa [List.length_map, List.length_range, List.length_take] at hlen
  rw [usableIoapics_append, List.take_append, mpIoapicInfo]
  split
  · next hunusable =>
      have hskip : usableIoapics [.ioapic m type] = [] := by simp [usableIoapics, hunusable]
      rw [hskip, List.take_nil, List.append_nil, h.mpIoapics]
  · next husable =>
      split
      · next hignored =>
          rw [h.mpIoapics, List.self_eq_append_right, List.take_eq_nil_iff]
          rcases hignored with hfull | hnull
          · left
            omega
          · right
            simp [usableIoapics, hnull]
      · next hstored =>
          rw [not_or] at hstored
          have hone : usableIoapics [.ioapic m type] = [m] := by
            simp [usableIoapics, husable, hstored.2]
          have hroom : maxIoApics - (usableIoapics done).length =
              (maxIoApics - (usableIoapics done).length - 1) + 1 := by
            omega
          rw [map_range_update, h.mpIoapics, hone, hroom, List.take_succ_cons, List.take_nil]

theorem Decoded.ioapic {m : MpcConfigIoapic} (type : m.mpcType = MpType.ioapic.byte)
    (h : Decoded done s) : Decoded (done ++ [MpEntry.ioapic m type]) (mpIoapicInfo m s) := by
  obtain ⟨ioapics, nr, heq⟩ := mpIoapicInfo_frame m s
  have hioapics := h.ioapicTable type
  rw [heq] at hioapics ⊢
  constructor
  · rw [processors_skip rfl]
    exact h.disabledCpus
  · rw [interruptSources_skip rfl]
    exact h.mpIrqs
  · exact hioapics
  · intro busid
    rw [lastBusType_skip rfl]
    exact h.mpBusNotPci busid
  · rw [pciBusIds_skip rfl]
    exact h.mpBusIdToPciBus
  · rw [pciBusIds_skip rfl]
    exact h.mpCurrentPciId

theorem Decoded.intsrc {m : MpcConfigIntsrc} (type : m.mpcType = MpType.intsrc.byte)
    (h : Decoded done s) (hinfo : mpIntsrcInfo m s = some s') :
    Decoded (done ++ [MpEntry.intsrc m type]) s' := by
  rw [mpIntsrcInfo_eq_some hinfo]
  constructor
  · rw [processors_skip rfl]
    exact h.disabledCpus
  · rw [interruptSources_append, map_range_update, h.mpIrqs]
    rfl
  · rw [usableIoapics_skip rfl]
    exact h.mpIoapics
  · intro busid
    rw [lastBusType_skip rfl]
    exact h.mpBusNotPci busid
  · rw [pciBusIds_skip rfl]
    exact h.mpBusIdToPciBus
  · rw [pciBusIds_skip rfl]
    exact h.mpCurrentPciId

theorem Decoded.lintsrc {m : MpcConfigLintsrc} (type : m.mpcType = MpType.lintsrc.byte)
    (h : Decoded done s) : Decoded (done ++ [MpEntry.lintsrc m type]) (mpLintsrcInfo m s) := by
  constructor
  · rw [processors_skip rfl]
    exact h.disabledCpus
  · rw [interruptSources_skip rfl]
    exact h.mpIrqs
  · rw [usableIoapics_skip rfl]
    exact h.mpIoapics
  · intro busid
    rw [lastBusType_skip rfl]
    exact h.mpBusNotPci busid
  · rw [pciBusIds_skip rfl]
    exact h.mpBusIdToPciBus
  · rw [pciBusIds_skip rfl]
    exact h.mpCurrentPciId

/-- The cleared globals say what no entry says. -/
theorem decoded_nil (lapic : Nat) : Decoded [] { clearedGlobals with mpLapicAddr := lapic } := by
  constructor
  · rfl
  · rfl
  · rfl
  · intro busid
    simp [clearedGlobals, lastBusType, buses]
  · intro before busid after hsplit
    simp [pciBusIds, buses] at hsplit
  · rfl

theorem Decoded.handleEntry {e : MpEntry} (h : Decoded done s)
    (hhandle : handleEntry s e = some s') : Decoded (done ++ [e]) s' := by
  cases e with
  | processor m type =>
      cases hhandle
      exact h.processor type
  | bus m type =>
      cases hhandle
      exact h.bus type
  | ioapic m type =>
      cases hhandle
      exact h.ioapic type
  | intsrc m type => exact h.intsrc type hhandle
  | lintsrc m type =>
      cases hhandle
      exact h.lintsrc type

/-! ## Success -/

theorem handleEntry_of_room {e : MpEntry}
    (hroom : s.mpIrqEntries + (interruptSources [e]).length < maxIrqSources) :
    ∃ s', Caos.handleEntry s e = some s' ∧
      s'.mpIrqEntries = s.mpIrqEntries + (interruptSources [e]).length := by
  cases e with
  | processor m type =>
      obtain ⟨boot, num, map, bios, x86, heq⟩ := mpProcessorInfo_frame m s
      exact ⟨_, rfl, by rw [heq]; rfl⟩
  | bus m type =>
      obtain ⟨map, ids, cur, heq⟩ := mpBusInfo_frame m s
      exact ⟨_, rfl, by rw [heq]; rfl⟩
  | ioapic m type =>
      obtain ⟨ioapics, nr, heq⟩ := mpIoapicInfo_frame m s
      exact ⟨_, rfl, by rw [heq]; rfl⟩
  | intsrc m type =>
      have hlt : ¬ s.mpIrqEntries + 1 ≥ maxIrqSources := Nat.not_le.mpr hroom
      exact ⟨_, if_neg hlt, rfl⟩
  | lintsrc m type => exact ⟨_, rfl, rfl⟩

/-- With fewer than `MAX_IRQ_SOURCES` interrupt sources every entry is handled. -/
theorem foldlM_handleEntry_of_room
    (hroom : s.mpIrqEntries + (interruptSources entries).length < maxIrqSources) :
    ∃ s', entries.foldlM Caos.handleEntry s = some s' := by
  induction entries generalizing s with
  | nil => exact ⟨s, rfl⟩
  | cons e entries ih =>
      have hsplit : interruptSources (e :: entries) =
          interruptSources [e] ++ interruptSources entries :=
        @List.filterMap_append _ _ [e] entries _
      rw [hsplit, List.length_append] at hroom
      obtain ⟨t, ht, hirq⟩ := @handleEntry_of_room s e (by omega)
      obtain ⟨s', hs'⟩ := @ih t (by omega)
      refine ⟨s', ?_⟩
      rw [List.foldlM_cons, ht]
      exact hs'

theorem smpReadMpc_succeeds (ht : TableAt mem mpc entries)
    (hirqs : (interruptSources entries).length < maxIrqSources) :
    ∃ s, smpReadMpc mem mpc (entries.length + 1) clearedGlobals = some (.ret true s) ∧
      entries.foldlM Caos.handleEntry (entryLoopStart mem mpc clearedGlobals).globals =
        some s := by
  have hroom : (entryLoopStart mem mpc clearedGlobals).globals.mpIrqEntries +
      (interruptSources entries).length < maxIrqSources := by
    simpa [entryLoopStart, clearedGlobals] using hirqs
  obtain ⟨s, hs⟩ := foldlM_handleEntry_of_room hroom
  exact ⟨s, by rw [smpReadMpc_of_tableAt ht, hs], hs⟩

/-- `smp_read_mpc` decodes every table of entries: it succeeds after one iteration
for each entry, having called the handlers on the entries in order, and the globals
say what the entries say. -/
theorem smpReadMpc_decodes (ht : TableAt mem mpc entries)
    (hirqs : (interruptSources entries).length < maxIrqSources) :
    ∃ s, smpReadMpc mem mpc (entries.length + 1) clearedGlobals = some (.ret true s) ∧
      entries.foldlM Caos.handleEntry (entryLoopStart mem mpc clearedGlobals).globals = some s ∧
      Decoded entries s := by
  obtain ⟨s, hret, hs⟩ := smpReadMpc_succeeds ht hirqs
  have hdecoded : Decoded entries s :=
    foldlM_invariant (decoded_nil _) (fun _ _ _ _ h => h.handleEntry) hs
  exact ⟨s, hret, hs, hdecoded⟩

/-- The bootstrap processor with APIC ID 0 and an application processor with APIC ID 1. -/
def bootEntry : MpEntry := .processor ⟨0, 0, 0x14, 3, 0x600, 0x201, (0, 0)⟩ rfl

def applicationEntry : MpEntry := .processor ⟨0, 1, 0x14, 1, 0x600, 0x201, (0, 0)⟩ rfl

/-- A processor, a PCI bus, an ISA bus, an I/O APIC and an interrupt source. -/
def smallEntries : List MpEntry :=
  [bootEntry,
    .bus ⟨1, 0, #v[0x50, 0x43, 0x49, 0x20, 0x20, 0x20]⟩ rfl,
    .bus ⟨1, 1, #v[0x49, 0x53, 0x41, 0x20, 0x20, 0x20]⟩ rfl,
    .ioapic ⟨2, 1, 0x11, 1, 0xFEC00000⟩ rfl,
    .intsrc ⟨3, 0, 0, 1, 0, 1, 2⟩ rfl]

theorem small_table_decodes :
    ∃ s, smpReadMpc (memoryOf (tableBytes smallEntries)) 0 (smallEntries.length + 1)
        clearedGlobals = some (.ret true s) ∧
      smallEntries.foldlM Caos.handleEntry
        (entryLoopStart (memoryOf (tableBytes smallEntries)) 0 clearedGlobals).globals = some s ∧
      Decoded smallEntries s :=
  @smpReadMpc_decodes _ _ smallEntries (tableAt_tableBytes (by decide)) (by decide)

end Caos
