import Caos.Mp.Decode

/-!
The registration of processors. `MP_processor_info` numbers a processor by the first
zero bit of `cpu_present_map`, but gives 0 to the bootstrap processor wherever it
stands in the table. Only the first two enabled entries are registered.
-/

namespace Caos

open Lib

variable {mem : ByteMemory} {mpc : Nat} {s s' : MpState} {entries done : List MpEntry}
  {enabled : List MpcConfigProcessor}

/-- The entry carries `CPU_ENABLED`. -/
def MpcConfigProcessor.isEnabled (m : MpcConfigProcessor) : Bool :=
  m.mpcCpuflag &&& cpuEnabled != 0

/-- The entry carries `CPU_BOOTPROCESSOR`. -/
def MpcConfigProcessor.isBoot (m : MpcConfigProcessor) : Bool :=
  m.mpcCpuflag &&& cpuBootprocessor != 0

/-- The enabled processor entries. -/
def enabledProcessors (entries : List MpEntry) : List MpcConfigProcessor :=
  (processors entries).filter MpcConfigProcessor.isEnabled

/-- The views that the globals give of the processors are consistent with each other
and with the enabled entries of the table. -/
structure Registered (enabled : List MpcConfigProcessor) (s : MpState) : Prop where
  count : s.numProcessors = min nrCpus enabled.length
  present : s.numProcessors = (setBits s.cpuPresentMap).length
  apicids : ∃ chosen : List MpcConfigProcessor, chosen.Nodup ∧ (∀ m ∈ chosen, m ∈ enabled) ∧
    chosen.length = s.numProcessors ∧
    (setBits s.cpuPresentMap).map s.x86CpuToApicid = chosen.map MpcConfigProcessor.mpcApicid ∧
    (setBits s.cpuPresentMap).map s.biosCpuApicid = chosen.map MpcConfigProcessor.mpcApicid
  boot : ∀ m, enabled.filter MpcConfigProcessor.isBoot = [m] →
    s.x86CpuToApicid 0 = m.mpcApicid ∧ (s.x86CpuToApicid 0).toNat = s.bootCpuId

/-- Where the bootstrap flags may stand: not in the second enabled entry, and if only one
enabled entry carries the flag, in the first one. -/
structure BootFirst (enabled : List MpcConfigProcessor) : Prop where
  second : ∀ m, enabled[1]? = some m → m.isBoot = false
  single : ∀ m, enabled.filter MpcConfigProcessor.isBoot = [m] → enabled[0]? = some m

/-- The bitmap after the enabled entries have been registered. -/
def presentMap : List MpcConfigProcessor → BitVec 64
  | [] => 0
  | [_] => 1
  | _ :: m :: _ => if m.isBoot then 1 else 3

/-- Either table of APIC IDs after the enabled entries have been registered. -/
def apicidTable : List MpcConfigProcessor → Nat → UInt8
  | [] => fun _ => 0xFF
  | [m] => Function.update (fun _ => 0xFF) 0 m.mpcApicid
  | m :: m' :: _ =>
    Function.update (Function.update (fun _ => 0xFF) 0 m.mpcApicid) (if m'.isBoot then 0 else 1)
      m'.mpcApicid

/-- What the globals hold once the enabled entries have been registered. -/
structure Registration (enabled : List MpcConfigProcessor) (s : MpState) : Prop where
  numProcessors : s.numProcessors = min nrCpus enabled.length
  cpuPresentMap : s.cpuPresentMap = presentMap enabled
  x86CpuToApicid : s.x86CpuToApicid = apicidTable enabled
  biosCpuApicid : s.biosCpuApicid = apicidTable enabled
  bootCpuId : s.bootCpuId =
    ((enabled.filter MpcConfigProcessor.isBoot).getLast?.map fun m => m.mpcApicid.toNat).getD 0

theorem setBits_presentMap (enabled : List MpcConfigProcessor) :
    setBits (presentMap enabled) =
      match enabled with
      | [] => []
      | [_] => [0]
      | _ :: m :: _ => if m.isBoot then [0] else [0, 1] := by
  match enabled with
  | [] => exact (by decide : setBits (0 : BitVec 64) = [])
  | [_] => exact (by decide : setBits (1 : BitVec 64) = [0])
  | _ :: m :: _ =>
      simp only [presentMap]
      split <;> decide

/-! ## One processor entry -/

theorem mpProcessorInfo_disabled {m : MpcConfigProcessor} (hdisabled : m.isEnabled = false) :
    mpProcessorInfo m s = { s with disabledCpus := s.disabledCpus + 1 } := by
  have hflag : m.mpcCpuflag &&& cpuEnabled = 0 := by
    simpa [MpcConfigProcessor.isEnabled] using hdisabled
  simp only [mpProcessorInfo, if_pos hflag]

/-- An enabled entry, in the words of `isBoot`. -/
theorem mpProcessorInfo_enabled {m : MpcConfigProcessor} (henabled : m.isEnabled = true) :
    mpProcessorInfo m s =
      let boot := if m.isBoot then m.mpcApicid.toNat else s.bootCpuId
      let cpu := if m.isBoot then 0 else firstCpu s.cpuPresentMap
      if s.numProcessors ≥ nrCpus then { s with bootCpuId := boot }
      else
        { s with
          bootCpuId := boot
          numProcessors := s.numProcessors + 1
          biosCpuApicid := Function.update s.biosCpuApicid cpu m.mpcApicid
          x86CpuToApicid := Function.update s.x86CpuToApicid cpu m.mpcApicid
          cpuPresentMap := cpuSet cpu s.cpuPresentMap } := by
  have hflag : m.mpcCpuflag &&& cpuEnabled ≠ 0 := by
    simpa [MpcConfigProcessor.isEnabled] using henabled
  have hboot : m.isBoot = true ↔ m.mpcCpuflag &&& cpuBootprocessor ≠ 0 := by
    simp [MpcConfigProcessor.isBoot]
  simp only [mpProcessorInfo, if_neg hflag, ← hboot]
  cases m.isBoot <;> rfl

/-- Registering one more enabled entry: the first takes number 0, the second takes 1
unless it is the bootstrap processor, and the others are ignored. -/
theorem Registration.snoc {m : MpcConfigProcessor} (h : Registration enabled s)
    (henabled : m.isEnabled = true) :
    Registration (enabled ++ [m]) (mpProcessorInfo m s) := by
  have hbootId : (if m.isBoot then m.mpcApicid.toNat else s.bootCpuId) =
      (((enabled ++ [m]).filter MpcConfigProcessor.isBoot).getLast?.map
        fun m => m.mpcApicid.toNat).getD 0 := by
    rw [List.filter_append, List.getLast?_append, h.bootCpuId]
    cases hboot : m.isBoot <;> simp [hboot]
  rw [mpProcessorInfo_enabled henabled]
  dsimp only
  match enabled, h with
  | [], h =>
      have hcpu : (if m.isBoot then 0 else firstCpu s.cpuPresentMap) = 0 := by
        rw [h.cpuPresentMap]
        exact ite_eq_left_iff.mpr fun _ => (by decide : firstCpu 0 = 0)
      rw [hcpu, if_neg (by rw [h.numProcessors]; decide)]
      constructor
      · rw [h.numProcessors]
        rfl
      · rw [h.cpuPresentMap]
        exact (by decide : cpuSet 0 0 = 1)
      · rw [h.x86CpuToApicid]
        rfl
      · rw [h.biosCpuApicid]
        rfl
      · exact hbootId
  | [first], h =>
      have hcpu : (if m.isBoot then 0 else firstCpu s.cpuPresentMap) =
          if m.isBoot then 0 else 1 := by
        rw [h.cpuPresentMap]
        exact congrArg _ (by decide : firstCpu 1 = 1)
      rw [hcpu, if_neg (by rw [h.numProcessors]; simp [nrCpus])]
      constructor
      · rw [h.numProcessors]
        rfl
      · rw [h.cpuPresentMap]
        simp only [List.cons_append, List.nil_append, presentMap]
        split <;> decide
      · rw [h.x86CpuToApicid]
        rfl
      · rw [h.biosCpuApicid]
        rfl
      · exact hbootId
  | first :: second :: rest, h =>
      have hfull : s.numProcessors = nrCpus := by
        rw [h.numProcessors]
        simp [nrCpus]
      rw [if_pos (Nat.le_of_eq hfull.symm)]
      constructor
      · rw [hfull]
        simp [nrCpus]
      · exact h.cpuPresentMap
      · exact h.x86CpuToApicid
      · exact h.biosCpuApicid
      · exact hbootId

/-- The globals that `Registration` is about. -/
theorem Registration.congr (h : Registration enabled s)
    (hnum : s'.numProcessors = s.numProcessors) (hmap : s'.cpuPresentMap = s.cpuPresentMap)
    (hx86 : s'.x86CpuToApicid = s.x86CpuToApicid) (hbios : s'.biosCpuApicid = s.biosCpuApicid)
    (hboot : s'.bootCpuId = s.bootCpuId) : Registration enabled s' where
  numProcessors := hnum.trans h.numProcessors
  cpuPresentMap := hmap.trans h.cpuPresentMap
  x86CpuToApicid := hx86.trans h.x86CpuToApicid
  biosCpuApicid := hbios.trans h.biosCpuApicid
  bootCpuId := hboot.trans h.bootCpuId

theorem enabledProcessors_skip {e : MpEntry} (h : processors [e] = []) :
    enabledProcessors (done ++ [e]) = enabledProcessors done := by
  rw [enabledProcessors, processors_skip h, enabledProcessors]

/-- What one entry does to the registration. -/
theorem Registration.handleEntry {e : MpEntry} (h : Registration (enabledProcessors done) s)
    (hhandle : handleEntry s e = some s') :
    Registration (enabledProcessors (done ++ [e])) s' := by
  cases e with
  | processor m type =>
      cases hhandle
      have happend : enabledProcessors (done ++ [.processor m type]) =
          enabledProcessors done ++ [m].filter MpcConfigProcessor.isEnabled := by
        rw [enabledProcessors, processors_append, List.filter_append]
        rfl
      rw [happend]
      cases henabled : m.isEnabled with
      | true =>
          rw [List.filter_cons_of_pos henabled]
          exact h.snoc henabled
      | false =>
          rw [List.filter_cons_of_neg (by simp [henabled]), List.filter_nil, List.append_nil,
            mpProcessorInfo_disabled henabled]
          exact h.congr rfl rfl rfl rfl rfl
  | bus m type =>
      cases hhandle
      obtain ⟨map, ids, cur, heq⟩ := mpBusInfo_frame m s
      rw [enabledProcessors_skip rfl, heq]
      exact h.congr rfl rfl rfl rfl rfl
  | ioapic m type =>
      cases hhandle
      obtain ⟨ioapics, nr, heq⟩ := mpIoapicInfo_frame m s
      rw [enabledProcessors_skip rfl, heq]
      exact h.congr rfl rfl rfl rfl rfl
  | intsrc m type =>
      rw [enabledProcessors_skip rfl, mpIntsrcInfo_eq_some hhandle]
      exact h.congr rfl rfl rfl rfl rfl
  | lintsrc m type =>
      cases hhandle
      rw [enabledProcessors_skip rfl]
      exact h.congr rfl rfl rfl rfl rfl

theorem registration_nil (lapic : Nat) :
    Registration (enabledProcessors []) { clearedGlobals with mpLapicAddr := lapic } :=
  ⟨rfl, rfl, rfl, rfl, rfl⟩

/-! ## When the views agree -/

/-- Number 0 belongs to the first enabled entry unless the second one takes it over. -/
theorem apicidTable_zero {first second : MpcConfigProcessor} {rest : List MpcConfigProcessor}
    (hsecond : second.isBoot = false) :
    apicidTable (first :: second :: rest) 0 = first.mpcApicid := by
  simp [apicidTable, hsecond]

theorem apicidTable_one {first second : MpcConfigProcessor} {rest : List MpcConfigProcessor}
    (hsecond : second.isBoot = false) :
    apicidTable (first :: second :: rest) 1 = second.mpcApicid := by
  simp [apicidTable, hsecond]

/-- A bootstrap processor in the second place overwrites number 0, so one bit stands for
two registered processors. -/
theorem Registered.second (hreg : Registered enabled s) (h : Registration enabled s)
    {m : MpcConfigProcessor} (hm : enabled[1]? = some m) : m.isBoot = false := by
  have hpresent := hreg.present
  rw [h.numProcessors, h.cpuPresentMap, setBits_presentMap] at hpresent
  match enabled, hm, hpresent with
  | _ :: next :: _, hm, hpresent =>
      cases hm
      cases hboot : m.isBoot with
      | false => rfl
      | true => simp [nrCpus, hboot] at hpresent

/-- Number 0 stays with the first enabled entry, so a single bootstrap entry is that one. -/
theorem Registered.single (hreg : Registered enabled s) (h : Registration enabled s)
    (hids : (enabled.map MpcConfigProcessor.mpcApicid).Nodup) {m : MpcConfigProcessor}
    (hm : enabled.filter MpcConfigProcessor.isBoot = [m]) : enabled[0]? = some m := by
  have hzero := (hreg.boot m hm).1
  rw [h.x86CpuToApicid] at hzero
  have hmem : m ∈ enabled := by
    apply List.mem_of_mem_filter
    rw [hm]
    exact List.mem_singleton_self m
  match enabled, hreg, h, hids, hmem, hzero with
  | [first], _, _, _, hmem, _ => exact congrArg some (List.mem_singleton.mp hmem).symm
  | first :: second :: rest, hreg, h, hids, hmem, hzero =>
      rw [apicidTable_zero (hreg.second h rfl)] at hzero
      have hfirst : first = m := List.inj_on_of_nodup_map hids List.mem_cons_self hmem hzero
      rw [hfirst]
      rfl

/-- The registered entries: the first two enabled ones. -/
theorem Registration.apicids (h : Registration enabled s) (hfirst : BootFirst enabled) :
    (setBits s.cpuPresentMap).map (apicidTable enabled) =
      (enabled.take nrCpus).map MpcConfigProcessor.mpcApicid := by
  rw [h.cpuPresentMap, setBits_presentMap]
  match enabled, hfirst with
  | [], _ => rfl
  | [first], _ => rfl
  | first :: second :: rest, hfirst =>
      have hsecond := hfirst.second second rfl
      simp only [hsecond, Bool.false_eq_true, if_false, List.map_cons, List.map_nil,
        apicidTable_zero hsecond, apicidTable_one hsecond]
      rfl

theorem Registration.registered (h : Registration enabled s)
    (hids : (enabled.map MpcConfigProcessor.mpcApicid).Nodup) (hfirst : BootFirst enabled) :
    Registered enabled s := by
  have hapicids := h.apicids hfirst
  have htake : (enabled.take nrCpus).length = s.numProcessors := by
    rw [List.length_take, h.numProcessors]
  constructor
  · exact h.numProcessors
  · have hlen := congrArg List.length hapicids
    rw [List.length_map, List.length_map, htake] at hlen
    exact hlen.symm
  · refine ⟨enabled.take nrCpus, ?_, ?_, htake, ?_, ?_⟩
    · exact (List.Nodup.of_map _ hids).sublist (List.take_sublist _ _)
    · intro m hm
      exact List.mem_of_mem_take hm
    · rw [h.x86CpuToApicid]
      exact hapicids
    · rw [h.biosCpuApicid]
      exact hapicids
  · intro m hm
    have hboot : s.bootCpuId = m.mpcApicid.toNat := by
      rw [h.bootCpuId, hm]
      rfl
    have hzero : s.x86CpuToApicid 0 = m.mpcApicid := by
      have hfirstm := hfirst.single m hm
      rw [h.x86CpuToApicid]
      match enabled, hfirst, hfirstm with
      | [first], _, hfirstm =>
          cases hfirstm
          rfl
      | first :: second :: rest, hfirst, hfirstm =>
          cases hfirstm
          exact apicidTable_zero (hfirst.second second rfl)
    exact ⟨hzero, by rw [hzero, hboot]⟩

theorem registration_of_ret {fuel : Nat} {value : Bool} (ht : TableAt mem mpc entries)
    (hret : smpReadMpc mem mpc fuel clearedGlobals = some (.ret value s)) :
    Registration (enabledProcessors entries) s :=
  @foldlM_invariant _ _ _ (fun done s => Registration (enabledProcessors done) s) _
    (registration_nil _) (fun _ _ _ _ h => h.handleEntry) _ _ (smpReadMpc_ret ht hret)

/-- After `smp_read_mpc` has returned, the views of the processors agree exactly when
the bootstrap entry stands first. It does return unless the table has too many
interrupt sources. -/
theorem smpReadMpc_registers_iff (ht : TableAt mem mpc entries)
    (hids : ((processors entries).map MpcConfigProcessor.mpcApicid).Nodup) :
    (∀ fuel value s, smpReadMpc mem mpc fuel clearedGlobals = some (.ret value s) →
      (Registered (enabledProcessors entries) s ↔ BootFirst (enabledProcessors entries))) ∧
    ((interruptSources entries).length < maxIrqSources →
      ∃ s, smpReadMpc mem mpc (entries.length + 1) clearedGlobals = some (.ret true s)) := by
  have henabled : ((enabledProcessors entries).map MpcConfigProcessor.mpcApicid).Nodup :=
    hids.sublist (List.filter_sublist.map _)
  constructor
  · intro fuel value s hret
    have h := registration_of_ret ht hret
    constructor
    · intro hreg
      exact ⟨fun _ => hreg.second h, fun _ => hreg.single h henabled⟩
    · exact h.registered henabled
  · intro hirqs
    obtain ⟨s, hret, -⟩ := smpReadMpc_succeeds ht hirqs
    exact ⟨s, hret⟩

theorem boot_first_registered :
    (∀ fuel value s,
      smpReadMpc (memoryOf (tableBytes [bootEntry, applicationEntry])) 0 fuel clearedGlobals =
        some (.ret value s) →
      (Registered (enabledProcessors [bootEntry, applicationEntry]) s ↔
        BootFirst (enabledProcessors [bootEntry, applicationEntry]))) ∧
    ((interruptSources [bootEntry, applicationEntry]).length < maxIrqSources →
      ∃ s, smpReadMpc (memoryOf (tableBytes [bootEntry, applicationEntry])) 0
        ([bootEntry, applicationEntry].length + 1) clearedGlobals = some (.ret true s)) :=
  smpReadMpc_registers_iff (tableAt_tableBytes (by decide)) (by decide)

/-- With the application processor in front, the bootstrap processor overwrites it in
number 0: two processors are counted, and one bit is set. -/
theorem boot_second_overwrites :
    TableAt (memoryOf (tableBytes [applicationEntry, bootEntry])) 0
      [applicationEntry, bootEntry] ∧
    ((processors [applicationEntry, bootEntry]).map MpcConfigProcessor.mpcApicid).Nodup ∧
    ∃ s, smpReadMpc (memoryOf (tableBytes [applicationEntry, bootEntry])) 0
        ([applicationEntry, bootEntry].length + 1) clearedGlobals = some (.ret true s) ∧
      s.numProcessors = 2 ∧ setBits s.cpuPresentMap = [0] ∧
      ¬ Registered (enabledProcessors [applicationEntry, bootEntry]) s := by
  have ht : TableAt (memoryOf (tableBytes [applicationEntry, bootEntry])) 0
      [applicationEntry, bootEntry] := tableAt_tableBytes (by decide)
  obtain ⟨s, hret, -⟩ := smpReadMpc_succeeds ht (by decide)
  have h := registration_of_ret ht hret
  have hnum : s.numProcessors = 2 := h.numProcessors
  have hbits : setBits s.cpuPresentMap = [0] := by
    rw [h.cpuPresentMap]
    decide
  refine ⟨ht, by decide, s, hret, hnum, hbits, ?_⟩
  intro hreg
  have hpresent := hreg.present
  rw [hnum, hbits] at hpresent
  cases hpresent

end Caos
