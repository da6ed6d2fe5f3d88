import Caos.Mp.Processors

/-!
The identity test at the start of `init_bsp_APIC` in `apic.c`, after `smp_read_mpc` has
registered the processors of a table that lists the bootstrap processor first.
-/

namespace Caos

open Lib

/-- `GET_APIC_ID`. -/
def getApicId (x : BitVec 32) : BitVec 32 := (x >>> 24) &&& 0xFF

/-- The test of `init_bsp_APIC` on `apic_read(APIC_ID)`: whether it gets past `halt()`, and
the indices at which it reads `x86_cpu_to_apicid`. -/
def bspIdentityTest (lapicId : BitVec 32) (s : MpState) : Bool × List Nat :=
  -- `||`: the table is read only if the first comparison finds no difference
  if lapicId.toNat ≠ s.bootCpuId then (false, [])
  else (lapicId.toNat == (s.x86CpuToApicid s.bootCpuId).toNat, [s.bootCpuId])

/-- The processor takes itself for the bootstrap processor, and stays inside the table. -/
def RecognisesItself (lapicId : BitVec 32) (s : MpState) : Prop :=
  (bspIdentityTest lapicId s).1 = true ∧ ∀ i ∈ (bspIdentityTest lapicId s).2, i < nrCpus

variable {mem : ByteMemory} {mpc : Nat} {s : MpState} {entries : List MpEntry}
  {enabled rest : List MpcConfigProcessor} {m : MpcConfigProcessor} {lapicId : BitVec 32}

/-- An ID register that is its own upper byte is 0. -/
theorem eq_zero_of_eq_getApicId (h : lapicId.toNat = (getApicId lapicId).toNat) :
    lapicId = 0 := by
  have hbyte : (getApicId lapicId).toNat ≤ lapicId.toNat / 2 ^ 24 := by
    rw [getApicId, BitVec.toNat_and, BitVec.toNat_ushiftRight, Nat.shiftRight_eq_div_pow]
    exact Nat.and_le_left
  rw [← h] at hbyte
  have hzero : lapicId.toNat = 0 := by
    by_contra hne
    have hlt := Nat.div_lt_self (Nat.pos_of_ne_zero hne) (by decide : 1 < 2 ^ 24)
    omega
  exact BitVec.eq_of_toNat_eq hzero

/-- Where the only bootstrap entry is the first enabled one, it is number 0. -/
theorem Registration.boot (h : Registration enabled s) (hfirst : enabled = m :: rest)
    (honly : enabled.filter MpcConfigProcessor.isBoot = [m]) :
    s.bootCpuId = m.mpcApicid.toNat ∧ s.x86CpuToApicid 0 = m.mpcApicid := by
  refine ⟨by rw [h.bootCpuId, honly]; rfl, ?_⟩
  rw [h.x86CpuToApicid, hfirst]
  match rest, hfirst with
  | [], _ => rfl
  | second :: rest, hfirst =>
      have hboot : m.isBoot = true := by
        have hmem : m ∈ enabled.filter MpcConfigProcessor.isBoot := by simp [honly]
        exact (List.mem_filter.mp hmem).2
      rw [hfirst, List.filter_cons_of_pos hboot, List.cons.injEq] at honly
      have hsecond := List.filter_eq_nil_iff.mp honly.2 second List.mem_cons_self
      exact apicidTable_zero (by simpa using hsecond)

/-- The first of the processor entries is the first enabled one. -/
theorem enabledProcessors_of_first (hfirst : processors entries = m :: rest)
    (honly : (enabledProcessors entries).filter MpcConfigProcessor.isBoot = [m]) :
    ∃ rest', enabledProcessors entries = m :: rest' := by
  have hmem : m ∈ (enabledProcessors entries).filter MpcConfigProcessor.isBoot := by
    simp [honly]
  have henabled : m.isEnabled = true :=
    (List.mem_filter.mp (List.mem_of_mem_filter hmem)).2
  exact ⟨_, by rw [enabledProcessors, hfirst, List.filter_cons_of_pos henabled]⟩

/-- The raw register is compared, not the ID in it: both agree for the value 0 only. -/
theorem recognisesItself_iff (hboot : s.bootCpuId = m.mpcApicid.toNat)
    (hzero : s.x86CpuToApicid 0 = m.mpcApicid)
    (hreg : (getApicId lapicId).toNat = m.mpcApicid.toNat) :
    RecognisesItself lapicId s ↔ lapicId = 0 := by
  unfold RecognisesItself bspIdentityTest
  constructor
  · rintro ⟨hpasses, -⟩
    by_cases hne : lapicId.toNat ≠ s.bootCpuId
    · rw [if_pos hne] at hpasses
      cases hpasses
    · exact eq_zero_of_eq_getApicId (by rw [hreg, ← hboot, not_not.mp hne])
  · rintro rfl
    have hid : m.mpcApicid.toNat = 0 := hreg.symm
    rw [hid] at hboot
    rw [if_neg (by rw [hboot]; decide), hboot, hzero, hid]
    decide

/-- After `smp_read_mpc` the bootstrap processor recognises itself exactly if its ID
register reads 0. -/
theorem bsp_recognised_iff (ht : TableAt mem mpc entries)
    (hfirst : processors entries = m :: rest)
    (honly : (enabledProcessors entries).filter MpcConfigProcessor.isBoot = [m])
    (hreg : (getApicId lapicId).toNat = m.mpcApicid.toNat) :
    (∀ fuel value s, smpReadMpc mem mpc fuel clearedGlobals = some (.ret value s) →
      (RecognisesItself lapicId s ↔ lapicId = 0)) ∧
    ((interruptSources entries).length < maxIrqSources →
      ∃ s, smpReadMpc mem mpc (entries.length + 1) clearedGlobals = some (.ret true s)) := by
  constructor
  · intro fuel value s hret
    obtain ⟨rest', henabled⟩ := enabledProcessors_of_first hfirst honly
    obtain ⟨hboot, hzero⟩ := (registration_of_ret ht hret).boot henabled honly
    exact recognisesItself_iff hboot hzero hreg
  · intro hirqs
    obtain ⟨s, hret, -⟩ := smpReadMpc_succeeds ht hirqs
    exact ⟨s, hret⟩

theorem first_id_recognised :
    (∀ fuel value s,
      smpReadMpc (memoryOf (tableBytes [bootEntry, applicationEntry])) 0 fuel clearedGlobals =
        some (.ret value s) →
      (RecognisesItself 0 s ↔ (0 : BitVec 32) = 0)) ∧
    ((interruptSources [bootEntry, applicationEntry]).length < maxIrqSources →
      ∃ s, smpReadMpc (memoryOf (tableBytes [bootEntry, applicationEntry])) 0
        ([bootEntry, applicationEntry].length + 1) clearedGlobals = some (.ret true s)) :=
  bsp_recognised_iff (m := ⟨0, 0, 0x14, 3, 0x600, 0x201, (0, 0)⟩)
    (tableAt_tableBytes (by decide)) rfl (by decide) (by decide)

/-- A bootstrap processor with APIC ID 1. -/
theorem id_one_not_recognised :
    ¬ ∀ (mem : ByteMemory) (mpc : Nat) (entries : List MpEntry) (m : MpcConfigProcessor)
      (rest : List MpcConfigProcessor) (lapicId : BitVec 32), TableAt mem mpc entries →
      processors entries = m :: rest →
      (enabledProcessors entries).filter MpcConfigProcessor.isBoot = [m] →
      (getApicId lapicId).toNat = m.mpcApicid.toNat →
      ∀ fuel value s, smpReadMpc mem mpc fuel clearedGlobals = some (.ret value s) →
        RecognisesItself lapicId s := by
  intro h
  let m : MpcConfigProcessor := ⟨0, 1, 0x14, 3, 0x600, 0x201, (0, 0)⟩
  have ht : TableAt (memoryOf (tableBytes [.processor m rfl])) 0 [.processor m rfl] :=
    tableAt_tableBytes (by decide)
  have honly : (enabledProcessors [.processor m rfl]).filter MpcConfigProcessor.isBoot = [m] := by
    decide
  obtain ⟨s, hret, -⟩ := smpReadMpc_succeeds ht (by decide)
  have hpasses := (h _ 0 _ m [] 0x01000000 ht rfl honly (by decide) _ true s hret).1
  have henabled : enabledProcessors [.processor m rfl] = [m] := by decide
  have hboot : s.bootCpuId = 1 := ((registration_of_ret ht hret).boot henabled honly).1
  rw [bspIdentityTest, if_pos (by rw [hboot]; decide)] at hpasses
  cases hpasses

end Caos
