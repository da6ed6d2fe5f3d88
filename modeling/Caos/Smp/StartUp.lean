import Mathlib.Data.Fintype.Card
import Caos.Lib.Run
import Caos.Boot.BootChain

/-!
The start of the processors: `setup.asm` from its protected mode on, the two ways through
`start_kernel`, and `wake_ap`. All processors share the boot page tables and the counter
`processor_sig64`; a schedule says which one executes its next access to them.
-/

namespace Caos

open Lib

/-! ## The interrupt command register -/

/-- `APIC_DEST_ALLBUT`. -/
def apicDestAllbut : BitVec 32 := 0xC0000

/-- `APIC_INT_ASSERT`. -/
def apicIntAssert : BitVec 32 := 0x04000

/-- `APIC_DM_INIT`. -/
def apicDmInit : BitVec 32 := 0x00500

/-- `APIC_DM_STARTUP`. -/
def apicDmStartup : BitVec 32 := 0x00600

/-- What a store to the command register sends to the other processors. -/
inductive Ipi where
  | init
  | startup (address : Nat)
  | none
  deriving DecidableEq

/-- The local APIC's reading of the command, for the shorthand "all excluding self". -/
def ipiOf (icr : BitVec 32) : Ipi :=
  if icr.extractLsb' 18 2 = 3 then
    if icr.extractLsb' 8 3 = 5 then .init
    else if icr.extractLsb' 8 3 = 6 then .startup ((icr.extractLsb' 0 8).toNat * 4096)
    else .none
  else .none

/-! ## The processors -/

/-- Where a processor stands. -/
inductive StartPc where
  /-- an application processor that has received nothing yet -/
  | off
  /-- waiting for a STARTUP -/
  | waiting
  /-- executing something other than `setup.asm` -/
  | lost
  /-- `rep stosd` over the boot page tables -/
  | clearTables
  /-- the stores to the boot page tables, up to `set_PTE` -/
  | buildTables
  /-- in long mode; `cmp al, 0` in front of `copy_kernel` -/
  | copyTest
  | copyKernel
  /-- `cmp al, 0` in front of `set_ap_stack` -/
  | stackTest
  /-- the load of `processor_sig64` for `rdi` -/
  | loadIndex
  /-- the load of `processor_sig64` that is to be counted up -/
  | loadSig
  | storeSig
  /-- the test of `index` in `start_kernel` -/
  | startKernel
  /-- `paging_init`, which leaves the boot page tables -/
  | pagingInit
  /-- the stores to `APIC_ICR` in `wake_ap` -/
  | sendInit
  | sendStartup
  | sendStartupAgain
  /-- behind `wake_ap` -/
  | running
  /-- the loop of `start_kernel` for the others -/
  | apLoop
  deriving DecidableEq, Repr

structure Processor where
  pc : StartPc
  rsp : Nat
  rdi : Nat
  rax : Nat
  deriving DecidableEq

/-- `processor_sig64`, whether the boot page tables are complete, and the processors;
`copies` records which ones have copied the kernel image. -/
@[ext]
structure StartState (ι : Type*) where
  sig : Nat
  tables : Bool
  copies : List ι
  proc : ι → Processor

variable {ι : Type*} [DecidableEq ι]

/-- A processor that has not been started. -/
def Processor.reset (pc : StartPc) : Processor := ⟨pc, 0, 0, 0⟩

/-- What an interrupt makes of a processor that receives it. A STARTUP is ignored unless the
processor waits for it. -/
def Processor.receive (p : Processor) : Ipi → Processor
  | .init => .reset .waiting
  | .startup address =>
    if p.pc = .waiting then
      .reset (if address = apInitAddress then .clearTables else .lost)
    else p
  | .none => p

/-- `apic_write(APIC_ICR, icr)`. -/
def StartState.send (s : StartState ι) (sender : ι) (icr : BitVec 32) : StartState ι :=
  { s with proc := fun i => if i = sender then s.proc i else (s.proc i).receive (ipiOf icr) }

def StartState.put (s : StartState ι) (cpu : ι) (p : Processor) : StartState ι :=
  { s with proc := Function.update s.proc cpu p }

/-- The next step of a processor. -/
def startNext (s : StartState ι) (cpu : ι) : StartState ι :=
  let p := s.proc cpu
  match p.pc with
  | .off | .waiting | .lost | .running | .apLoop => s
  | .clearTables => { s with tables := false }.put cpu { p with pc := .buildTables }
  | .buildTables => { s with tables := true }.put cpu { p with pc := .copyTest }
  | .copyTest =>
    -- one byte of the counter is compared
    s.put cpu { p with pc := if s.sig % 256 = 0 then .copyKernel else .stackTest }
  | .copyKernel => { s with copies := s.copies ++ [cpu] }.put cpu { p with pc := .stackTest }
  | .stackTest =>
    s.put cpu { p with
      pc := .loadIndex
      rsp := if s.sig % 256 = 0 then kernelStackStart else kernelStackStart - 0x2000 }
  | .loadIndex => s.put cpu { p with pc := .loadSig, rdi := s.sig }
  | .loadSig => s.put cpu { p with pc := .storeSig, rax := s.sig }
  | .storeSig =>
    { s with sig := (p.rax + 1) % 2 ^ 64 }.put cpu { p with pc := .startKernel }
  | .startKernel => s.put cpu { p with pc := if p.rdi = 0 then .pagingInit else .apLoop }
  | .pagingInit => s.put cpu { p with pc := .sendInit }
  | .sendInit =>
    (s.put cpu { p with pc := .sendStartup }).send cpu
      (apicDestAllbut ||| apicIntAssert ||| apicDmInit)
  | .sendStartup =>
    (s.put cpu { p with pc := .sendStartupAgain }).send cpu
      (apicDestAllbut ||| apicIntAssert ||| apicDmStartup |||
        BitVec.ofNat 32 (apInitAddress >>> 12))
  | .sendStartupAgain =>
    (s.put cpu { p with pc := .running }).send cpu
      (apicDestAllbut ||| apicIntAssert ||| apicDmStartup |||
        BitVec.ofNat 32 (apInitAddress >>> 12))

/-- The boot processor enters `setup.asm`, and the others are off. -/
def startState (boot : ι) : StartState ι where
  sig := 0
  tables := false
  copies := []
  proc i := .reset (if i = boot then .clearTables else .off)

/-- The state after the steps of a schedule. -/
def startRun (boot : ι) (schedule : List ι) : StartState ι :=
  schedule.foldl startNext (startState boot)

/-- The stack pointer is one of the two stacks from here on. -/
def StartPc.onStack : StartPc → Bool
  | .loadIndex | .loadSig | .storeSig | .startKernel | .pagingInit | .sendInit | .sendStartup
  | .sendStartupAgain | .running | .apLoop => true
  | _ => false

/-- `start_kernel` has been entered. -/
def StartPc.inKernel : StartPc → Bool
  | .startKernel | .pagingInit | .sendInit | .sendStartup | .sendStartupAgain | .running
  | .apLoop => true
  | _ => false

/-- In long mode on the boot page tables. -/
def StartPc.onBootTables : StartPc → Bool
  | .copyTest | .copyKernel | .stackTest | .loadIndex | .loadSig | .storeSig | .startKernel
  | .pagingInit | .apLoop => true
  | _ => false

/-- No two processors run on one stack. -/
def OwnStacks (s : StartState ι) : Prop :=
  ∀ i j, (s.proc i).pc.onStack = true → (s.proc j).pc.onStack = true →
    (s.proc i).rsp = (s.proc j).rsp → i = j

/-- No two processors have one index in `start_kernel`. -/
def OwnIndices (s : StartState ι) : Prop :=
  ∀ i j, (s.proc i).pc.inKernel = true → (s.proc j).pc.inKernel = true →
    (s.proc i).rdi = (s.proc j).rdi → i = j

/-- The boot page tables are complete under every processor that runs on them. -/
def TablesComplete (s : StartState ι) : Prop :=
  ∀ i, (s.proc i).pc.onBootTables = true → s.tables = true

section Simp

variable (s : StartState ι) (cpu i : ι) (p : Processor) (icr : BitVec 32)

@[simp] theorem put_proc : (s.put cpu p).proc = Function.update s.proc cpu p := rfl
@[simp] theorem put_sig : (s.put cpu p).sig = s.sig := rfl
@[simp] theorem put_tables : (s.put cpu p).tables = s.tables := rfl
@[simp] theorem put_copies : (s.put cpu p).copies = s.copies := rfl
@[simp] theorem send_sig : (s.send cpu icr).sig = s.sig := rfl
@[simp] theorem send_tables : (s.send cpu icr).tables = s.tables := rfl
@[simp] theorem send_copies : (s.send cpu icr).copies = s.copies := rfl

@[simp] theorem send_proc :
    (s.send cpu icr).proc i = if i = cpu then s.proc i else (s.proc i).receive (ipiOf icr) := rfl

@[simp] theorem reset_pc (pc : StartPc) : (Processor.reset pc).pc = pc := rfl

/-- The first command of `wake_ap`. -/
@[simp] theorem ipiOf_init : ipiOf (apicDestAllbut ||| apicIntAssert ||| apicDmInit) = .init := by
  rfl

/-- Its other commands. -/
@[simp] theorem ipiOf_startup :
    ipiOf (apicDestAllbut ||| apicIntAssert ||| apicDmStartup |||
        BitVec.ofNat 32 (apInitAddress >>> 12)) =
      .startup apInitAddress := by
  rfl

end Simp

/-! ## Before the first STARTUP -/

/-- The stack of the other processors. -/
def apStack : Nat := 0xFFFF8000001FE000

theorem kernelStackStart_sub : kernelStackStart - 0x2000 = apStack := by
  rfl

/-- What the boot processor has done while it is alone. -/
def BootProgress (boot : ι) (s : StartState ι) : Prop :=
  match (s.proc boot).pc with
  | .clearTables | .buildTables => s.sig = 0 ∧ s.copies = []
  | .copyTest | .copyKernel => s.sig = 0 ∧ s.copies = [] ∧ s.tables = true
  | .stackTest => s.sig = 0 ∧ s.copies = [boot] ∧ s.tables = true
  | .loadIndex =>
    s.sig = 0 ∧ s.copies = [boot] ∧ s.tables = true ∧ (s.proc boot).rsp = kernelStackStart
  | .loadSig =>
    s.sig = 0 ∧ s.copies = [boot] ∧ s.tables = true ∧ (s.proc boot).rsp = kernelStackStart ∧
      (s.proc boot).rdi = 0
  | .storeSig =>
    s.sig = 0 ∧ s.copies = [boot] ∧ s.tables = true ∧ (s.proc boot).rsp = kernelStackStart ∧
      (s.proc boot).rdi = 0 ∧ (s.proc boot).rax = 0
  | .startKernel | .pagingInit | .sendInit | .sendStartup =>
    s.sig = 1 ∧ s.copies = [boot] ∧ s.tables = true ∧ (s.proc boot).rsp = kernelStackStart ∧
      (s.proc boot).rdi = 0
  | _ => False

/-- The other processors have not been started. -/
structure Alone (boot : ι) (s : StartState ι) : Prop where
  progress : BootProgress boot s
  asleep : ∀ i, i ≠ boot → (s.proc i).pc = .off ∨ (s.proc i).pc = .waiting
  waiting : (s.proc boot).pc = .sendStartup → ∀ i, i ≠ boot → (s.proc i).pc = .waiting

/-! ## After it -/

/-- The counter has been stored. -/
def StartPc.stored : StartPc → Bool
  | .startKernel | .apLoop => true
  | _ => false

/-- What another processor has done; `bound` is what the counter may have reached. -/
def ApProgress (bound : Nat) (p : Processor) : Prop :=
  match p.pc with
  | .clearTables | .buildTables | .copyTest | .stackTest => True
  | .loadIndex => p.rsp = apStack
  | .loadSig | .startKernel | .apLoop => p.rsp = apStack ∧ 1 ≤ p.rdi
  | .storeSig => p.rsp = apStack ∧ 1 ≤ p.rdi ∧ 1 ≤ p.rax ∧ p.rax ≤ bound
  | _ => False

variable [Fintype ι]

/-- The processors other than the first that have stored the counter. -/
def storers (boot : ι) (s : StartState ι) : Finset ι :=
  Finset.univ.filter fun i => i ≠ boot ∧ (s.proc i).pc.stored = true

/-- The other processors have been started, and the boot processor is done with them. -/
structure Awake (boot : ι) (s : StartState ι) : Prop where
  bootPc : (s.proc boot).pc = .sendStartupAgain ∨ (s.proc boot).pc = .running
  bootIndex : (s.proc boot).rdi = 0
  bootStack : (s.proc boot).rsp = kernelStackStart
  copies : s.copies = [boot]
  sig_pos : 1 ≤ s.sig
  sig_le : s.sig ≤ 1 + (storers boot s).card
  progress : ∀ i, i ≠ boot → ApProgress (1 + (storers boot s).card) (s.proc i)
  tables : Fintype.card ι ≤ 2 → ∀ i, i ≠ boot → (s.proc i).pc.onBootTables = true →
    s.tables = true

section Invariant

variable {boot cpu : ι} {s t : StartState ι} {p : Processor}

theorem ApProgress.mono {b b' : Nat} (h : ApProgress b p) (hb : b ≤ b') : ApProgress b' p := by
  unfold ApProgress at *
  split at h <;> simp_all
  omega

/-- A processor that has not stored the counter leaves room below the number of processors. -/
theorem storers_lt {i : ι} (hi : i ≠ boot) (hstored : (s.proc i).pc.stored = false) :
    (storers boot s).card + 2 ≤ Fintype.card ι := by
  have hsub : storers boot s ⊆ (Finset.univ.erase boot).erase i := by
    intro j hj
    simp only [storers, Finset.mem_filter] at hj
    have hji : j ≠ i := by
      rintro rfl
      simp [hstored] at hj
    simp [hji, hj.2.1]
  have hcard := Finset.card_le_card hsub
  rw [Finset.card_erase_of_mem (by simp [hi]), Finset.card_erase_of_mem (Finset.mem_univ _),
    Finset.card_univ] at hcard
  have htwo : 1 < Fintype.card ι := Fintype.one_lt_card_iff.mpr ⟨i, boot, hi⟩
  omega

theorem storers_put_subset (hcpu : cpu ≠ boot)
    (hstored : (s.proc cpu).pc.stored = true → p.pc.stored = true)
    (ht : t.proc = Function.update s.proc cpu p) : storers boot s ⊆ storers boot t := by
  intro i hi
  simp only [storers, Finset.mem_filter, Finset.mem_univ, true_and, ht] at hi ⊢
  refine ⟨hi.1, ?_⟩
  by_cases hic : i = cpu
  · subst hic
    simpa using hstored hi.2
  · simpa [Function.update_of_ne hic] using hi.2

/-- The first store of a processor adds it. -/
theorem storers_put_card (hcpu : cpu ≠ boot) (hbefore : (s.proc cpu).pc.stored = false)
    (hafter : p.pc.stored = true) (ht : t.proc = Function.update s.proc cpu p) :
    (storers boot t).card = (storers boot s).card + 1 := by
  have hins : storers boot t = insert cpu (storers boot s) := by
    ext i
    simp only [storers, Finset.mem_filter, Finset.mem_univ, true_and, ht, Finset.mem_insert]
    by_cases hic : i = cpu
    · subst hic
      simp [hcpu, hafter]
    · simp [hic]
  have hnot : cpu ∉ storers boot s := by
    simp [storers, hbefore]
  rw [hins, Finset.card_insert_of_notMem hnot]

/-- With one other processor, a statement about the others is one about it. -/
theorem eq_of_card_le_two (hcard : Fintype.card ι ≤ 2) {i : ι} (hi : i ≠ boot)
    (hcpu : cpu ≠ boot) : i = cpu := by
  by_contra hne
  have hsub : ({boot, cpu, i} : Finset ι).card ≤ Fintype.card ι := Finset.card_le_univ _
  rw [Finset.card_insert_of_notMem (by simp [hi.symm, hcpu.symm]),
    Finset.card_pair (Ne.symm hne)] at hsub
  omega

/-- What a step of another processor has to show. -/
theorem Awake.put (h : Awake boot s) (hcpu : cpu ≠ boot)
    (hproc : t.proc = Function.update s.proc cpu p) (hcopies : t.copies = s.copies)
    (hpos : 1 ≤ t.sig) (hsig : t.sig ≤ 1 + (storers boot t).card)
    (hcard : (storers boot s).card ≤ (storers boot t).card)
    (hp : ApProgress (1 + (storers boot t).card) p)
    (htables : Fintype.card ι ≤ 2 → p.pc.onBootTables = true → t.tables = true) :
    Awake boot t where
  bootPc := by
    simpa [hproc, Function.update_of_ne (Ne.symm hcpu)] using h.bootPc
  bootIndex := by
    simpa [hproc, Function.update_of_ne (Ne.symm hcpu)] using h.bootIndex
  bootStack := by
    simpa [hproc, Function.update_of_ne (Ne.symm hcpu)] using h.bootStack
  copies := hcopies.trans h.copies
  sig_pos := hpos
  sig_le := hsig
  progress i hi := by
    rw [hproc]
    by_cases hic : i = cpu
    · subst hic
      simpa using hp
    · rw [Function.update_of_ne hic]
      exact (h.progress i hi).mono (by omega)
  tables hle i hi := by
    obtain rfl := eq_of_card_le_two hle hi hcpu
    rw [hproc, Function.update_self]
    exact htables hle

/-- A step of another processor that neither copies the kernel image nor stores the counter. -/
theorem Awake.put_same (h : Awake boot s) (hcpu : cpu ≠ boot)
    (hproc : t.proc = Function.update s.proc cpu p) (hcopies : t.copies = s.copies)
    (hsig : t.sig = s.sig) (hstored : (s.proc cpu).pc.stored = true → p.pc.stored = true)
    (hp : ApProgress (1 + (storers boot s).card) p)
    (htables : Fintype.card ι ≤ 2 → p.pc.onBootTables = true → t.tables = true) :
    Awake boot t := by
  have hcard := Finset.card_le_card (storers_put_subset hcpu hstored hproc)
  have hpos := h.sig_pos
  have hle := h.sig_le
  exact h.put hcpu hproc hcopies (by omega) (by omega) hcard (hp.mono (by omega)) htables

/-- Where no more processors are counted than one byte holds, none of them finds zero. -/
theorem Awake.sig_mod (h : Awake boot s) (hcard : Fintype.card ι ≤ 256) (hcpu : cpu ≠ boot)
    (hstored : (s.proc cpu).pc.stored = false) : s.sig % 256 ≠ 0 := by
  have hroom := storers_lt hcpu hstored
  have hpos := h.sig_pos
  have hle := h.sig_le
  omega

theorem Awake.step_boot (h : Awake boot s) : Awake boot (startNext s boot) := by
  cases hpc : (s.proc boot).pc with
  | running => simpa [startNext, hpc] using h
  | sendStartupAgain =>
      -- nobody waits, so that the second STARTUP changes nothing
      have hproc : ∀ i, i ≠ boot → (startNext s boot).proc i = s.proc i := by
        intro i hi
        have hprogress := h.progress i hi
        simp only [startNext, hpc, send_proc, put_proc, if_neg hi, Function.update_of_ne hi,
          ipiOf_startup, Processor.receive]
        split
        · simp_all [ApProgress]
        · rfl
      have hboot : (startNext s boot).proc boot = { s.proc boot with pc := .running } := by
        simp [startNext, hpc]
      have hstorers : storers boot (startNext s boot) = storers boot s := by
        ext i
        by_cases hi : i = boot
        · simp [storers, hi]
        · simp [storers, hproc i hi]
      have hsame : (startNext s boot).sig = s.sig ∧ (startNext s boot).tables = s.tables ∧
          (startNext s boot).copies = s.copies := by
        simp [startNext, hpc]
      obtain ⟨hsig, htables, hcopies⟩ := hsame
      constructor
      · exact .inr (by rw [hboot])
      · simpa [hboot] using h.bootIndex
      · simpa [hboot] using h.bootStack
      · exact hcopies.trans h.copies
      · simpa [hsig] using h.sig_pos
      · simpa [hsig, hstorers] using h.sig_le
      · intro i hi
        rw [hstorers, hproc i hi]
        exact h.progress i hi
      · intro hle i hi hon
        rw [htables]
        exact h.tables hle i hi (by simpa [hproc i hi] using hon)
  | _ =>
      have hboot := h.bootPc
      simp [hpc] at hboot

theorem Awake.step_other (h : Awake boot s) (hcard : Fintype.card ι ≤ 256) (hcpu : cpu ≠ boot) :
    Awake boot (startNext s cpu) := by
  have hp := h.progress cpu hcpu
  have hpos := h.sig_pos
  have hle := h.sig_le
  have htables := fun hle => h.tables hle cpu hcpu
  cases hpc : (s.proc cpu).pc with
  | clearTables =>
      apply h.put_same (p := { s.proc cpu with pc := .buildTables }) hcpu
      all_goals simp [startNext, hpc, ApProgress, StartPc.stored, StartPc.onBootTables]
  | buildTables =>
      apply h.put_same (p := { s.proc cpu with pc := .copyTest }) hcpu
      all_goals simp [startNext, hpc, ApProgress, StartPc.stored]
  | copyTest =>
      have hmod := h.sig_mod hcard hcpu (by simp [hpc, StartPc.stored])
      apply h.put_same (p := { s.proc cpu with pc := .stackTest }) hcpu
      all_goals simp_all [startNext, ApProgress, StartPc.stored, StartPc.onBootTables]
  | stackTest =>
      have hmod := h.sig_mod hcard hcpu (by simp [hpc, StartPc.stored])
      have hnext : startNext s cpu =
          s.put cpu { s.proc cpu with pc := .loadIndex, rsp := apStack } := by
        simp only [startNext, hpc, if_neg hmod, kernelStackStart_sub]
      rw [hnext]
      apply h.put_same hcpu (put_proc ..) (put_copies ..) (put_sig ..)
      · simp [hpc, StartPc.stored]
      · simp [ApProgress]
      · intro hle _
        exact htables hle (by simp [hpc, StartPc.onBootTables])
  | loadIndex =>
      apply h.put_same (p := { s.proc cpu with pc := .loadSig, rdi := s.sig }) hcpu
      all_goals simp_all [startNext, ApProgress, StartPc.stored, StartPc.onBootTables]
  | loadSig =>
      apply h.put_same (p := { s.proc cpu with pc := .storeSig, rax := s.sig }) hcpu
      all_goals simp_all [startNext, ApProgress, StartPc.stored, StartPc.onBootTables]
  | storeSig =>
      have hbefore : (s.proc cpu).pc.stored = false := by
        simp [hpc, StartPc.stored]
      have hroom := storers_lt hcpu hbefore
      simp only [ApProgress, hpc] at hp
      obtain ⟨hrsp, hrdi, hrax, hbound⟩ := hp
      -- the value that was loaded is no larger than the count of the stores before this one
      have hsig : (startNext s cpu).sig = (s.proc cpu).rax + 1 := by
        simp only [startNext, hpc, put_sig]
        omega
      have hproc : (startNext s cpu).proc =
          Function.update s.proc cpu { s.proc cpu with pc := .startKernel } := by
        simp [startNext, hpc]
      have hcount : (storers boot (startNext s cpu)).card = (storers boot s).card + 1 :=
        storers_put_card hcpu hbefore rfl hproc
      apply h.put hcpu hproc
      · simp [startNext, hpc]
      · omega
      · omega
      · omega
      · exact ⟨hrsp, hrdi⟩
      · intro hle _
        have hon := htables hle (by simp [hpc, StartPc.onBootTables])
        simpa [startNext, hpc] using hon
  | startKernel =>
      have hrdi : (s.proc cpu).rdi ≠ 0 := by
        simp only [ApProgress, hpc] at hp
        omega
      apply h.put_same (p := { s.proc cpu with pc := .apLoop }) hcpu
      all_goals simp_all [startNext, ApProgress, StartPc.stored, StartPc.onBootTables]
  | apLoop => simpa [startNext, hpc] using h
  | _ => simp [ApProgress, hpc] at hp

theorem Awake.step (h : Awake boot s) (hcard : Fintype.card ι ≤ 256) :
    Awake boot (startNext s cpu) := by
  rcases eq_or_ne cpu boot with rfl | hcpu
  · exact h.step_boot
  · exact h.step_other hcard hcpu

/-! ## The boot processor alone -/

omit [Fintype ι] in
theorem Alone.step_other (h : Alone boot s) (hcpu : cpu ≠ boot) : startNext s cpu = s := by
  rcases h.asleep cpu hcpu with hpc | hpc <;> simp [startNext, hpc]

omit [Fintype ι] in
/-- What a step of the boot processor that sends nothing has to show. -/
theorem Alone.put (h : Alone boot s) (hproc : t.proc = Function.update s.proc boot p)
    (hprogress : BootProgress boot t) (hpc : p.pc ≠ .sendStartup) : Alone boot t where
  progress := hprogress
  asleep i hi := by
    simpa [hproc, Function.update_of_ne hi] using h.asleep i hi
  waiting hsend := by
    simp [hproc, hpc] at hsend

/-- The second command starts all of them. -/
theorem Alone.awake (h : Alone boot s) (hpc : (s.proc boot).pc = .sendStartup) :
    Awake boot (startNext s boot) := by
  have hprogress := h.progress
  simp only [BootProgress, hpc] at hprogress
  obtain ⟨hsig, hcopies, -, hrsp, hrdi⟩ := hprogress
  have hother : ∀ i, i ≠ boot → (startNext s boot).proc i = .reset .clearTables := by
    intro i hi
    simp [startNext, hpc, hi, Processor.receive, h.waiting hpc i hi]
  have hboot : (startNext s boot).proc boot = { s.proc boot with pc := .sendStartupAgain } := by
    simp [startNext, hpc]
  have hsame : (startNext s boot).sig = 1 ∧ (startNext s boot).copies = [boot] := by
    simp [startNext, hpc, hsig, hcopies]
  constructor
  · exact .inl (by rw [hboot])
  · simpa [hboot] using hrdi
  · simpa [hboot] using hrsp
  · exact hsame.2
  · exact hsame.1.ge
  · omega
  · intro i hi
    simp [hother i hi, ApProgress]
  · intro _ i hi hon
    simp [hother i hi, StartPc.onBootTables] at hon

theorem Alone.step_boot (h : Alone boot s) :
    Alone boot (startNext s boot) ∨ Awake boot (startNext s boot) := by
  have hprogress := h.progress
  cases hpc : (s.proc boot).pc with
  | sendStartup => exact .inr (h.awake hpc)
  | sendInit =>
      left
      constructor
      · simp_all [BootProgress, startNext]
      · intro i hi
        right
        simp [startNext, hpc, hi, Processor.receive]
      · intro _ i hi
        simp [startNext, hpc, hi, Processor.receive]
  | clearTables | buildTables | copyTest | copyKernel | stackTest | loadIndex | loadSig
  | storeSig | startKernel | pagingInit =>
      left
      apply h.put
      · simp only [startNext, hpc, put_proc]
        rfl
      · simp_all [BootProgress, startNext]
      · simp_all [BootProgress]
  | _ => simp [BootProgress, hpc] at hprogress

theorem startRun_invariant (boot : ι) (hcard : Fintype.card ι ≤ 256) (schedule : List ι) :
    Alone boot (startRun boot schedule) ∨ Awake boot (startRun boot schedule) := by
  unfold startRun
  induction schedule using List.reverseRecOn with
  | nil =>
      left
      constructor
      · simp [startState, BootProgress]
      · intro i hi
        simp [startState, hi]
      · simp [startState]
  | append_singleton schedule cpu ih =>
      simp only [List.foldl_append, List.foldl_cons, List.foldl_nil]
      rcases ih with h | h
      · rcases eq_or_ne cpu boot with rfl | hcpu
        · exact h.step_boot
        · rw [h.step_other hcpu]
          exact .inl h
      · exact .inr (h.step hcard)

end Invariant

/-! ## Runs of one processor -/

section Solo

variable {boot a b : ι} {s : StartState ι}

/-- The boot processor has sent its second command. -/
def awakened (boot : ι) : StartState ι where
  sig := 1
  tables := true
  copies := [boot]
  proc i := if i = boot then ⟨.sendStartupAgain, kernelStackStart, 0, 0⟩ else .reset .clearTables

omit [Fintype ι] in
theorem startRun_boot (boot : ι) : startRun boot (List.replicate 12 boot) = awakened boot := by
  ext i
  case proc =>
    rcases eq_or_ne i boot with rfl | hi
    · simp [startRun, startNext, startState, Processor.reset, awakened]
    · simp [startRun, startNext, startState, Processor.reset, awakened, hi, Processor.receive]
  all_goals simp [startRun, startNext, startState, Processor.reset, awakened]

omit [Fintype ι] in
/-- Another processor, up to the store of the counter. -/
theorem six_steps (ha : s.proc a = .reset .clearTables) (hsig : s.sig % 256 ≠ 0) :
    (List.replicate 6 a).foldl startNext s =
      { s with tables := true }.put a ⟨.storeSig, apStack, s.sig, s.sig⟩ := by
  ext
  case proc => simp [startNext, ha, hsig, kernelStackStart_sub]
  all_goals simp [startNext, ha, hsig]

omit [Fintype ι] in
/-- With a low byte of zero it copies the kernel image. -/
theorem four_steps (ha : s.proc a = .reset .clearTables) (hsig : s.sig % 256 = 0) :
    a ∈ ((List.replicate 4 a).foldl startNext s).copies := by
  simp [startNext, ha, hsig]

omit [Fintype ι] in
theorem store_step (hpc : (s.proc a).pc = .storeSig) (hrax : (s.proc a).rax < 256) :
    startNext s a =
      { s with sig := (s.proc a).rax + 1 }.put a { s.proc a with pc := .startKernel } := by
  have hmod : ((s.proc a).rax + 1) % 2 ^ 64 = (s.proc a).rax + 1 := Nat.mod_eq_of_lt (by omega)
  simp only [startNext, hpc, hmod]

omit [Fintype ι] in
theorem seven_steps (ha : s.proc a = .reset .clearTables) (hpos : 1 ≤ s.sig)
    (hsig : s.sig < 256) :
    (List.replicate 7 a).foldl startNext s =
      { s with sig := s.sig + 1, tables := true }.put a
        ⟨.startKernel, apStack, s.sig, s.sig⟩ := by
  have hsix := six_steps ha (by omega)
  rw [List.replicate_succ', List.foldl_append, hsix, List.foldl_cons, List.foldl_nil,
    store_step (by simp) (by simpa using hsig)]
  simp [StartState.put]

omit [Fintype ι] in
/-- Processors that go through `setup.asm` one after another count themselves. -/
theorem in_turn (others : List ι) (hnodup : others.Nodup)
    (hreset : ∀ i ∈ others, s.proc i = .reset .clearTables) (hpos : 1 ≤ s.sig)
    (hsig : s.sig + others.length ≤ 256) :
    ((others.flatMap (List.replicate 7)).foldl startNext s).sig = s.sig + others.length ∧
      ∀ i, i ∉ others →
        ((others.flatMap (List.replicate 7)).foldl startNext s).proc i = s.proc i := by
  induction others generalizing s with
  | nil => simp
  | cons a others ih =>
      simp only [List.length_cons] at hsig
      obtain ⟨hnot, hnodup⟩ := List.nodup_cons.mp hnodup
      rw [List.flatMap_cons, List.foldl_append,
        seven_steps (hreset a List.mem_cons_self) hpos (by omega)]
      have hrest := ih (s := { s with sig := s.sig + 1, tables := true }.put a
        ⟨.startKernel, apStack, s.sig, s.sig⟩) hnodup
      simp only [put_sig, put_proc] at hrest
      obtain ⟨hsig', hproc⟩ := hrest (fun i hi => by
        have hia : i ≠ a := fun h => hnot (h ▸ hi)
        simpa [Function.update_of_ne hia] using hreset i (List.mem_cons_of_mem a hi))
        (by omega) (by omega)
      constructor
      · rw [hsig', List.length_cons]
        omega
      · intro i hi
        simp only [List.mem_cons, not_or] at hi
        rw [hproc i hi.2, Function.update_of_ne hi.1]

omit [Fintype ι] in
/-- The steps of one processor in long mode, while no other processor executes any. -/
theorem solo_steps (hpc : (s.proc a).pc = .copyTest) :
    (List.replicate (if s.sig % 256 = 0 then 6 else 5) a).foldl startNext s =
      { s with
        sig := (s.sig + 1) % 2 ^ 64
        copies := if s.sig % 256 = 0 then s.copies ++ [a] else s.copies }.put a
          ⟨.startKernel, pageOffset + stackTop s.sig, s.sig, s.sig⟩ := by
  have hstack := (stackTop_cases s.sig).1
  split_ifs with hbyte
  · rw [if_pos hbyte] at hstack
    ext
    case proc => simp [startNext, hpc, hbyte, hstack]
    all_goals simp [startNext, hpc, hbyte]
  · rw [if_neg hbyte] at hstack
    ext
    case proc => simp [startNext, hpc, hbyte, hstack]
    all_goals simp [startNext, hpc, hbyte]

omit [Fintype ι] in
/-- `long_start` does in memory what these steps do to the counter, the registers and the
kernel image. -/
theorem longStart_agrees {img : SetupImage} {mem : ByteMemory}
    (hpc : (s.proc a).pc = .copyTest) (h : BootTables (words mem))
    (hcount : readWord mem img.processorSig64 8 = s.sig) (hpos : 1 ≤ img.ksize)
    (hle : img.ksize ≤ 1900) :
    ∃ steps e mem', longStart img mem = some e ∧ AtCopyKernelEnd img s.sig mem mem' ∧
      Entered img s.sig mem' e.mem ∧
      (List.replicate steps a).foldl startNext s =
        { s with
          sig := readWord e.mem img.processorSig64 8
          copies := if s.sig % 256 = 0 then s.copies ++ [a] else s.copies }.put a
            ⟨.startKernel, e.rsp + 0x80, e.rdi, e.rdi⟩ := by
  obtain ⟨mem', after, hrun, hmem, hentered⟩ := longStart_eq h hcount hpos hle
  refine ⟨_, _, mem', hrun, hmem, hentered, (solo_steps hpc).trans ?_⟩
  have htop := (stackTop_cases s.sig).2
  have hrsp : pageOffset + (stackTop s.sig - 0x80) + 0x80 = pageOffset + stackTop s.sig := by
    omega
  rw [hentered.counted, hrsp]

/-- The second of two processors, in front of the copy of the image. -/
def secondInLongMode : StartState (Fin 2) :=
  { startState 0 with proc := fun _ => .reset .copyTest }

theorem longStart_agrees_blank :
    ∃ steps e mem', longStart someImage blankStart = some e ∧
      AtCopyKernelEnd someImage 0 blankStart mem' ∧ Entered someImage 0 mem' e.mem ∧
      (List.replicate steps 1).foldl startNext secondInLongMode =
        { secondInLongMode with
          sig := readWord e.mem someImage.processorSig64 8
          copies := [1] }.put 1 ⟨.startKernel, e.rsp + 0x80, e.rdi, e.rdi⟩ :=
  longStart_agrees (s := secondInLongMode) (a := 1) rfl (protectStart_tables _) blankStart_count
    (by norm_num [someImage]) (by norm_num [someImage])

end Solo

/-! ## The image, the indices, the stacks and the tables -/

section Main

variable {boot i j : ι} {s : StartState ι} {b : ℕ} {p : Processor}

omit [Fintype ι] [DecidableEq ι] in
theorem Alone.copies (h : Alone boot s) : s.copies = [] ∨ s.copies = [boot] := by
  have hprogress := h.progress
  unfold BootProgress at hprogress
  split at hprogress <;> simp_all

/-- The one byte of `processor_sig64` that is compared tells the boot processor apart from
up to 255 others: then no other processor copies the kernel image again. -/
theorem copies_iff_card (boot : ι) :
    (∀ schedule, ∀ i ∈ (startRun boot schedule).copies, i = boot) ↔ Fintype.card ι ≤ 256 := by
  constructor
  · intro h
    by_contra hcard
    -- 255 processors start one after another, and then one more
    have hothers : 256 ≤ (Finset.univ.erase boot).card := by
      rw [Finset.card_erase_of_mem (Finset.mem_univ _), Finset.card_univ]
      omega
    obtain ⟨chosen, hchosen, hsize⟩ := Finset.exists_subset_card_eq hothers
    have hreset : ∀ i ∈ chosen, (awakened boot).proc i = .reset .clearTables := by
      intro i hi
      simp [awakened, (Finset.mem_erase.mp (hchosen hi)).1]
    obtain ⟨a, ha⟩ : chosen.Nonempty := Finset.card_pos.mp (by omega)
    have hrest : (chosen.erase a).toList.length = 255 := by
      rw [Finset.length_toList, Finset.card_erase_of_mem ha, hsize]
    obtain ⟨hsig, hproc⟩ := in_turn (chosen.erase a).toList (Finset.nodup_toList _)
      (fun i hi => hreset i (Finset.mem_of_mem_erase (Finset.mem_toList.mp hi)))
      (s := awakened boot) (by simp [awakened]) (by simp [awakened, hrest])
    have hproca := hproc a (by simp)
    rw [hreset a ha] at hproca
    rw [hrest] at hsig
    have hcopies := h (List.replicate 12 boot ++
      (chosen.erase a).toList.flatMap (List.replicate 7) ++ List.replicate 4 a) a
    rw [startRun, List.foldl_append, List.foldl_append, ← startRun, startRun_boot] at hcopies
    have hone : (awakened boot).sig = 1 := rfl
    have hmem := hcopies (four_steps hproca (by omega))
    exact (Finset.mem_erase.mp (hchosen ha)).1 hmem
  · intro hcard schedule i hi
    rcases startRun_invariant boot hcard schedule with h | h
    · rcases h.copies with hnil | hone
      · simp [hnil] at hi
      · simpa [hone] using hi
    · simpa [h.copies] using hi

theorem ApProgress.rsp (h : ApProgress b p) (hon : p.pc.onStack = true) : p.rsp = apStack := by
  unfold ApProgress at h
  split at h <;> simp_all [StartPc.onStack]

theorem ApProgress.rdi (h : ApProgress b p) (hin : p.pc.inKernel = true) : 1 ≤ p.rdi := by
  unfold ApProgress at h
  split at h <;> simp_all [StartPc.inKernel]

omit [Fintype ι] [DecidableEq ι] in
theorem Alone.eq_boot (h : Alone boot s) (hoff : (s.proc i).pc ≠ .off)
    (hwaiting : (s.proc i).pc ≠ .waiting) : i = boot := by
  by_contra hne
  rcases h.asleep i hne with hpc | hpc
  · exact hoff hpc
  · exact hwaiting hpc

section Two

variable (hcard : Fintype.card ι ≤ 2) (schedule : List ι)

include hcard

theorem ownIndices_of_two : OwnIndices (startRun boot schedule) := by
  intro i j hi hj hij
  rcases startRun_invariant boot (by omega) schedule with h | h
  · have hboot : ∀ i, ((startRun boot schedule).proc i).pc.inKernel = true → i = boot := by
      intro i hi
      apply h.eq_boot <;> intro hpc <;> simp [hpc, StartPc.inKernel] at hi
    rw [hboot i hi, hboot j hj]
  · have hindex := h.bootIndex
    rcases eq_or_ne boot i with rfl | hib <;> rcases eq_or_ne boot j with rfl | hjb
    · rfl
    · have hrdi := (h.progress j hjb.symm).rdi hj
      omega
    · have hrdi := (h.progress i hib.symm).rdi hi
      omega
    · exact eq_of_card_le_two hcard hib.symm hjb.symm

theorem ownStacks_of_two : OwnStacks (startRun boot schedule) := by
  intro i j hi hj hij
  rcases startRun_invariant boot (by omega) schedule with h | h
  · have hboot : ∀ i, ((startRun boot schedule).proc i).pc.onStack = true → i = boot := by
      intro i hi
      apply h.eq_boot <;> intro hpc <;> simp [hpc, StartPc.onStack] at hi
    rw [hboot i hi, hboot j hj]
  · have hstack := h.bootStack
    have hne : kernelStackStart ≠ apStack := by
      simp [kernelStackStart, apStack]
    rcases eq_or_ne boot i with rfl | hib <;> rcases eq_or_ne boot j with rfl | hjb
    · rfl
    · have hrsp := (h.progress j hjb.symm).rsp hj
      exact absurd (hstack.symm.trans (hij.trans hrsp)) hne
    · have hrsp := (h.progress i hib.symm).rsp hi
      exact absurd (hstack.symm.trans (hij.symm.trans hrsp)) hne
    · exact eq_of_card_le_two hcard hib.symm hjb.symm

theorem tablesComplete_of_two : TablesComplete (startRun boot schedule) := by
  intro i hi
  rcases startRun_invariant boot (by omega) schedule with h | h
  · obtain rfl : i = boot := by
      apply h.eq_boot <;> intro hpc <;> simp [hpc, StartPc.onBootTables] at hi
    have hprogress := h.progress
    unfold BootProgress at hprogress
    split at hprogress <;> simp_all [StartPc.onBootTables]
  · rcases eq_or_ne i boot with rfl | hib
    · rcases h.bootPc with hpc | hpc <;> simp [hpc, StartPc.onBootTables] at hi
    · exact h.tables hcard i hib hi

end Two

/-- Three or more processors leave two to be started at once. -/
theorem exists_two_others (boot : ι) (hcard : ¬ Fintype.card ι ≤ 2) :
    ∃ a b, a ≠ boot ∧ b ≠ boot ∧ a ≠ b := by
  have hothers : 1 < (Finset.univ.erase boot).card := by
    rw [Finset.card_erase_of_mem (Finset.mem_univ _), Finset.card_univ]
    omega
  obtain ⟨a, ha, b, hb, hab⟩ := Finset.one_lt_card.mp hothers
  exact ⟨a, b, Finset.ne_of_mem_erase ha, Finset.ne_of_mem_erase hb, hab⟩

/-- Both have loaded the counter before either has stored it. -/
def together (boot a b : ι) : List ι :=
  List.replicate 12 boot ++ List.replicate 6 a ++ List.replicate 6 b

omit [Fintype ι] in
theorem startRun_together {a b : ι} (ha : a ≠ boot) (hb : b ≠ boot) (hab : a ≠ b) :
    (startRun boot (together boot a b)).sig = 1 ∧
      (startRun boot (together boot a b)).proc a = ⟨.storeSig, apStack, 1, 1⟩ ∧
      (startRun boot (together boot a b)).proc b = ⟨.storeSig, apStack, 1, 1⟩ := by
  have hreset : ∀ i, i ≠ boot → (awakened boot).proc i = .reset .clearTables := by
    intro i hi
    simp [awakened, hi]
  have hsig : (awakened boot).sig = 1 := rfl
  rw [startRun, together, List.foldl_append, List.foldl_append, ← startRun, startRun_boot,
    six_steps (hreset a ha) (by simp [hsig]),
    six_steps (by simp [Function.update_of_ne hab.symm, hreset b hb]) (by simp [hsig])]
  simp [hsig, Function.update_of_ne hab]

/-- Two processors are told apart, whatever the order of their steps; with a third one the
others may be given one index, they have one stack in any case, and one clears the boot page
tables under the other. -/
theorem apart_iff_card (boot : ι) :
    ((∀ schedule, OwnIndices (startRun boot schedule)) ↔ Fintype.card ι ≤ 2) ∧
      ((∀ schedule, OwnStacks (startRun boot schedule)) ↔ Fintype.card ι ≤ 2) ∧
      ((∀ schedule, TablesComplete (startRun boot schedule)) ↔ Fintype.card ι ≤ 2) := by
  refine ⟨⟨?_, ownIndices_of_two⟩, ⟨?_, ownStacks_of_two⟩, ⟨?_, tablesComplete_of_two⟩⟩
  · intro h
    by_contra hcard
    obtain ⟨a, b, ha, hb, hab⟩ := exists_two_others boot hcard
    obtain ⟨hsig, hproca, hprocb⟩ := startRun_together ha hb hab
    have hown := h (together boot a b ++ [a, b]) a b
    rw [startRun, List.foldl_append, ← startRun] at hown
    apply hab
    apply hown <;> simp [store_step, hproca, hprocb, hab, hab.symm, StartPc.inKernel]
  · intro h
    by_contra hcard
    obtain ⟨a, b, ha, hb, hab⟩ := exists_two_others boot hcard
    obtain ⟨hsig, hproca, hprocb⟩ := startRun_together ha hb hab
    apply hab
    apply h (together boot a b) a b <;> simp [hproca, hprocb, StartPc.onStack]
  · intro h
    by_contra hcard
    obtain ⟨a, b, ha, hb, hab⟩ := exists_two_others boot hcard
    have hreset : ∀ i, i ≠ boot → (awakened boot).proc i = .reset .clearTables := by
      intro i hi
      simp [awakened, hi]
    have hcomplete := h (List.replicate 12 boot ++ List.replicate 6 a ++ [b]) a
    rw [startRun, List.foldl_append, List.foldl_append, ← startRun, startRun_boot,
      six_steps (hreset a ha) (by simp [awakened])] at hcomplete
    have hclear := hcomplete (by
      simp [startNext, hab, hab.symm, hreset b hb, StartPc.onBootTables])
    simp [startNext, hab.symm, hreset b hb] at hclear

end Main

end Caos
