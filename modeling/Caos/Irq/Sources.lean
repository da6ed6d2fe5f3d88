import Caos.Irq.InService
import Caos.Mp.BootProcessor

/-!
The interrupts of the booted kernel: what `init_bsp_APIC`, `irq_init`, `init_bsp_timer`,
`wake_ap` and `keyboard_init` leave unmasked in the local APIC and in the I/O APIC, and the
processor that takes the interrupts from there, now with its interrupt flag, which no handler
sets.
-/

namespace Caos.Irq

open Lib

/-! ## `apic.h` -/

def apicId : Nat := 0x20

def apicIdMask : BitVec 32 := 0xFF#32 <<< 24

def apicLvr : Nat := 0x30

def apicLvrMask : BitVec 32 := 0xFF00FF

/-- `GET_APIC_VERSION`. -/
def getApicVersion (x : BitVec 32) : BitVec 32 := x &&& 0xFF

/-- `GET_APIC_MAXLVT`. -/
def getApicMaxlvt (x : BitVec 32) : BitVec 32 := (x >>> 16) &&& 0xFF

def apicTaskpri : Nat := 0x80

def apicEoi : Nat := 0xB0

def apicSpiv : Nat := 0xF0

def apicSpivApicEnabled : BitVec 32 := 1#32 <<< 8

def apicIcr : Nat := 0x300

def apicDestAllbut : BitVec 32 := 0xC0000

def apicIntAssert : BitVec 32 := 0x04000

def apicIcrBusy : BitVec 32 := 0x01000

def apicDmInit : BitVec 32 := 0x00500

def apicDmStartup : BitVec 32 := 0x00600

/-- `AP_INIT_ADDRESS`. -/
def apInitAddress : BitVec 32 := 0x9000

def apicLvtt : Nat := 0x320

def apicLvtthmr : Nat := 0x330

def apicLvtpc : Nat := 0x340

def apicLvt0 : Nat := 0x350

def apicLvtTimerPeriodic : BitVec 32 := 1#32 <<< 17

def apicLvtMasked : BitVec 32 := 1#32 <<< 16

def apicLvt1 : Nat := 0x360

def apicLvterr : Nat := 0x370

def apicTmict : Nat := 0x380

def apicTdcr : Nat := 0x3E0

def apicTdrDiv64 : BitVec 32 := 0x9

/-- `BSP_TIMER_IRQ`. -/
def bspTimerIrq : BitVec 64 := 0x10

/-- `SPURIOUS_IRQ`. -/
def spuriousIrq : BitVec 64 := 0x13

/-- `KEYBOARD_IRQ`. -/
def keyboardIrq : BitVec 64 := 0x1

/-- The registers that mask a local interrupt and hold its vector. -/
def localVectors : List Nat := [apicLvtt, apicLvtthmr, apicLvtpc, apicLvt1, apicLvt0, apicLvterr]

/-- The local APIC: the task priority and the interrupts in service, its other registers, the
bits of the ID register that take what is stored, and whether `APIC_ICR` reads busy behind a
store to it. -/
structure Lapic where
  apic : LocalApic
  regs : Nat → BitVec 32
  idBits : BitVec 32
  busy : Bool

def Lapic.Enabled (l : Lapic) : Prop := l.regs apicSpiv &&& apicSpivApicEnabled ≠ 0

instance (l : Lapic) : Decidable l.Enabled := inferInstanceAs (Decidable (_ ≠ _))

/-- A local APIC that is not enabled keeps the local interrupts masked. -/
def Lapic.settle (l : Lapic) : Lapic :=
  if l.Enabled then l
  else { l with regs := fun r => if r ∈ localVectors then l.regs r ||| apicLvtMasked else l.regs r }

def apicRead (reg : Nat) (l : Lapic) : BitVec 32 := l.regs reg

/-- What a register holds behind a store. -/
def Lapic.taken (l : Lapic) (reg : Nat) (v : BitVec 32) : BitVec 32 :=
  if reg = apicId then (l.regs apicId &&& ~~~l.idBits) ||| (v &&& l.idBits)
  else if reg = apicIcr then
    (v &&& ~~~apicIcrBusy) ||| if l.busy then apicIcrBusy else 0
  else v

/-- `apic_write`, as the local APIC takes it. The version is read-only. -/
def apicWrite (reg : Nat) (v : BitVec 32) (l : Lapic) : Lapic :=
  if reg = apicTaskpri then { l with apic := { l.apic with taskPri := (v &&& 0xFF).toNat } }
  else if reg = apicEoi then { l with apic := l.apic.eoi }
  else if reg = apicLvr then l
  else Lapic.settle { l with regs := Function.update l.regs reg (l.taken reg v) }

/-! ## `apic.c` -/

def verifyLocalApic (l : Lapic) : Bool × Lapic :=
  let reg0 := apicRead apicLvr l
  let l := apicWrite apicLvr (reg0 ^^^ apicLvrMask) l
  let reg1 := apicRead apicLvr l
  if reg1 ≠ reg0 then (false, l)
  else if getApicVersion reg0 = 0x00 ∨ getApicVersion reg0 = 0xff then (false, l)
  else if getApicMaxlvt reg0 < 0x02 ∨ getApicMaxlvt reg0 = 0xff then (false, l)
  else
    let reg0 := apicRead apicId l
    let l := apicWrite apicId (reg0 ^^^ apicIdMask) l
    let reg1 := apicRead apicId l
    let l := apicWrite apicId reg0 l
    (reg1 == reg0 ^^^ apicIdMask, l)

/-- The version register of a local APIC that `verify_local_APIC` takes for one. -/
structure VersionAccepted (lvr : BitVec 32) : Prop where
  version_ne_zero : getApicVersion lvr ≠ 0x00
  version_ne_ones : getApicVersion lvr ≠ 0xff
  maxlvt_ge : 0x02 ≤ getApicMaxlvt lvr
  maxlvt_ne_ones : getApicMaxlvt lvr ≠ 0xff

/-- `init_bsp_APIC`. It does not return if it gets to `halt()`. -/
def initBspApic (mp : MpState) (l : Lapic) : Option Lapic :=
  if (bspIdentityTest (apicRead apicId l) mp).1 then
    let (verified, l) := verifyLocalApic l
    if verified then
      let l := apicWrite apicLvtt 0x10000 l
      let l := apicWrite apicLvtthmr 0x10000 l
      let l := apicWrite apicLvtpc 0x10000 l
      let l := apicWrite apicLvt1 0x10000 l
      let l := apicWrite apicLvt0 0x10000 l
      let l := apicWrite apicLvterr 0x10000 l
      let l := apicWrite apicTaskpri 0 l
      let l := apicWrite apicSpiv
        (apicRead apicSpiv l ||| (irqToVector spuriousIrq).setWidth 32) l
      let l := apicWrite apicEoi 0 l
      let l := apicWrite apicSpiv (apicRead apicSpiv l ||| apicSpivApicEnabled) l
      some (apicWrite apicEoi 0 l)
    else none
  else none

/-- What the interrupts come from, and the tables that they are dispatched with. -/
structure Devices (Handler : Type*) where
  lapic : Lapic
  tables : Tables Handler

variable {Handler : Type*}

def initBspTimer (bspLocalTimer : Handler) (d : Devices Handler) : Devices Handler :=
  let l := apicWrite apicTmict 0xFFFFFF d.lapic
  let l := apicWrite apicTdcr apicTdrDiv64 l
  let lvtTimer := apicRead apicLvtt l
  let lvtTimer := lvtTimer &&& ~~~apicLvtMasked
  let lvtTimer := lvtTimer ||| apicLvtTimerPeriodic
  let lvtTimer := lvtTimer ||| (irqToVector bspTimerIrq).setWidth 32
  let l := apicWrite apicLvtt lvtTimer l
  { lapic := l
    tables :=
      if apicRead apicLvtt l &&& apicLvtMasked = 0 then
        d.tables.register (bspTimerIrq, some bspLocalTimer)
      else d.tables }

/-! ## `smp.c` -/

/-- `wake_ap`. It does not return if it gets to `halt()`. -/
def wakeAp (l : Lapic) : Option Lapic :=
  let startup := apicDestAllbut ||| apicIntAssert ||| apicDmStartup ||| apInitAddress >>> 12
  let l := apicWrite apicIcr (apicDestAllbut ||| apicIntAssert ||| apicDmInit) l
  let l := apicWrite apicIcr startup l
  let l := apicWrite apicIcr startup l
  if apicRead apicIcr l &&& apicIcrBusy ≠ 0 then none else some l

/-! ## `start_kernel` -/

/-- `keyboard_init`. -/
def keyboardInit (keyboardIsr : Handler) (d : Devices Handler) : Devices Handler :=
  { d with tables := d.tables.register (keyboardIrq, some keyboardIsr) }

/-- The handlers of the kernel. -/
structure Handlers (Handler : Type*) where
  ignoreIsrHandler : Handler
  bspLocalTimer : Handler
  keyboardIsr : Handler

/-- The interrupts in `start_kernel`: `idt_init` in `setup_arch`, and from `init_bsp_APIC` to
`sti`. -/
def startInterrupts (symbol : Symbols) (handlers : Handlers Handler) (mp : MpState)
    (d : Devices Handler) : Option (Devices Handler) :=
  let tables := { d.tables with idt := idtInitTable symbol d.tables.idt }
  (initBspApic mp d.lapic).bind fun lapic =>
    let tables := irqInit symbol handlers.ignoreIsrHandler tables
    let d := initBspTimer handlers.bspLocalTimer { lapic := lapic, tables := tables }
    (wakeAp d.lapic).map fun lapic => keyboardInit handlers.keyboardIsr { d with lapic := lapic }

/-- The vectors that interrupts come with: of the pins of the I/O APIC and of the local
interrupts, those that are not masked. -/
inductive Raises (d : Devices Handler) : Nat → Prop
  | pin (n : Nat) : n ≤ lastEntry d.tables.irq.ioApic →
      (pinOf (redirection d.tables.irq.ioApic n)).masked = 0 →
      Raises d (pinOf (redirection d.tables.irq.ioApic n)).vector
  | localVector (reg : Nat) : reg ∈ localVectors →
      (d.lapic.regs reg).extractLsb' 16 1 = 0 → Raises d ((d.lapic.regs reg).setWidth 8).toNat

/-- The vector of an interrupt that is not there any more when the processor asks for it. -/
def Devices.spuriousVector (d : Devices Handler) : Nat :=
  ((d.lapic.regs apicSpiv).setWidth 8).toNat

/-- The processor between two instructions: the interrupt flag, and for each interrupt under
way the flag that it found. -/
structure Running where
  service : Service
  flags : List Bool
  flag : Bool

/-- Behind `sti`. -/
def Running.sti (apic : LocalApic) : Running where
  service := { apic := apic, stack := [] }
  flags := []
  flag := true

/-- An interrupt is taken through the gate of its vector. Of the gates, the interrupt gates
clear the flag. -/
def Running.take (v : Nat) (apic : LocalApic) (s : Running) : Running where
  service := { apic := apic, stack := takenOf v :: s.service.stack }
  flags := s.flag :: s.flags
  flag := if (vectorGate v).1 = destypeInt then false else s.flag

/-- The code under way goes on; `iretq` restores the flag. -/
def Running.next (s : Running) : Running :=
  match s.service.stack, s.flags with
  | .irq _ .restored :: _, flag :: flags | .ignored _ :: _, flag :: flags =>
    { service := s.service.next, flags := flags, flag := flag }
  | _, _ => { s with service := s.service.next }

inductive Signal where
  | interrupt (v : Nat)
  | spurious
  | next

/-- A spurious interrupt is not in service. -/
inductive Running.Step (d : Devices Handler) : Running → Signal → Running → Prop
  | interrupt {s : Running} {v : Nat} : Raises d v → s.flag = true → s.service.Accepts v →
      Step d s (.interrupt v) (s.take v (s.service.apic.serve v))
  | spurious {s : Running} : s.flag = true →
      Step d s .spurious (s.take d.spuriousVector s.service.apic)
  | next {s : Running} : Step d s .next s.next

/-! ## The local APIC -/

section Lapic

variable {l l' : Lapic} {reg r : Nat} {v : BitVec 32} {regs : List Nat} {mp : MpState}

theorem settle_apic : l.settle.apic = l.apic := by
  unfold Lapic.settle
  split <;> rfl

/-- The local APIC stays the device that it is. -/
theorem apicWrite_device :
    (apicWrite reg v l).idBits = l.idBits ∧ (apicWrite reg v l).busy = l.busy := by
  unfold apicWrite Lapic.settle
  split_ifs <;> exact ⟨rfl, rfl⟩

theorem taken_of_ne (hid : reg ≠ apicId) (hicr : reg ≠ apicIcr) : l.taken reg v = v := by
  rw [Lapic.taken, if_neg hid, if_neg hicr]

/-- Masked or not, a masked local interrupt reads the same. -/
theorem settle_regs_masked (h : l.regs r = apicLvtMasked) : l.settle.regs r = apicLvtMasked := by
  unfold Lapic.settle
  split
  · exact h
  · simp [h]

theorem settle_regs (h : r ∉ localVectors) : l.settle.regs r = l.regs r := by
  unfold Lapic.settle
  split <;> simp [h]

theorem settle_of_enabled (h : l.Enabled) : l.settle = l := if_pos h

theorem apicWrite_apic (htask : reg ≠ apicTaskpri) (heoi : reg ≠ apicEoi) :
    (apicWrite reg v l).apic = l.apic := by
  unfold apicWrite
  rw [if_neg htask, if_neg heoi]
  split
  · rfl
  · exact settle_apic

theorem apicWrite_eoi : (apicWrite apicEoi v l).apic = l.apic.eoi := rfl

theorem apicWrite_taskpri : (apicWrite apicTaskpri 0 l).apic = { l.apic with taskPri := 0 } := rfl

/-- A register that is no local vector is changed by no store to another one. -/
theorem apicWrite_regs (hr : r ∉ localVectors) (hne : r ≠ reg) :
    (apicWrite reg v l).regs r = l.regs r := by
  unfold apicWrite
  split_ifs
  · rfl
  · rfl
  · rfl
  · rw [settle_regs hr]
    exact Function.update_of_ne hne _ _

/-- A local interrupt that is masked stays masked behind any store to another register. -/
theorem apicWrite_masked (h : l.regs r = apicLvtMasked) (hne : r ≠ reg) :
    (apicWrite reg v l).regs r = apicLvtMasked := by
  unfold apicWrite
  split_ifs
  · exact h
  · exact h
  · exact h
  · apply settle_regs_masked
    exact (Function.update_of_ne hne _ _).trans h

/-- What is read back behind a store. -/
theorem apicWrite_taken (htask : reg ≠ apicTaskpri) (heoi : reg ≠ apicEoi) (hlvr : reg ≠ apicLvr)
    (hreg : reg ∉ localVectors) : (apicWrite reg v l).regs reg = l.taken reg v := by
  unfold apicWrite
  rw [if_neg htask, if_neg heoi, if_neg hlvr, settle_regs hreg]
  exact Function.update_self _ _ _

theorem apicWrite_mask (hreg : reg ∈ localVectors) :
    (apicWrite reg apicLvtMasked l).regs reg = apicLvtMasked := by
  have hplain : reg ≠ apicTaskpri ∧ reg ≠ apicEoi ∧ reg ≠ apicLvr ∧ reg ≠ apicId ∧
      reg ≠ apicIcr := by
    refine ⟨?_, ?_, ?_, ?_, ?_⟩ <;> rintro rfl <;> revert hreg <;> decide
  obtain ⟨htask, heoi, hlvr, hid, hicr⟩ := hplain
  unfold apicWrite
  rw [if_neg htask, if_neg heoi, if_neg hlvr, taken_of_ne hid hicr]
  exact settle_regs_masked (Function.update_self _ _ _)

theorem apicWrite_lvr : apicWrite apicLvr v l = l := by
  have htask : apicLvr ≠ apicTaskpri := by decide
  have heoi : apicLvr ≠ apicEoi := by decide
  rw [apicWrite, if_neg htask, if_neg heoi, if_pos rfl]

/-- What the ID register holds behind the store of the test. -/
theorem taken_id_iff (mask : BitVec 32) :
    l.taken apicId (l.regs apicId ^^^ mask) = l.regs apicId ^^^ mask ↔
      l.idBits &&& mask = mask := by
  have htaken : l.taken apicId (l.regs apicId ^^^ mask) =
      l.regs apicId ^^^ (l.idBits &&& mask) := by
    rw [Lapic.taken, if_pos rfl]
    ext i hi
    simp only [BitVec.getElem_or, BitVec.getElem_and, BitVec.getElem_not, BitVec.getElem_xor]
    cases (l.regs apicId)[i] <;> cases l.idBits[i] <;> simp
  rw [htaken, BitVec.xor_right_inj]

/-- The version keeps what is stored over it. What is left to test is the version itself, and
whether the ID register takes another number. -/
theorem verifyLocalApic_iff : (verifyLocalApic l).1 = true ↔
    VersionAccepted (apicRead apicLvr l) ∧ l.idBits &&& apicIdMask = apicIdMask := by
  have hid : ∀ v, apicRead apicId (apicWrite apicId v l) = l.taken apicId v := fun v =>
    apicWrite_taken (by decide) (by decide) (by decide) (by decide)
  simp only [verifyLocalApic, apicWrite_lvr, ne_eq, not_true_eq_false, if_false, hid]
  split_ifs with hversion hmaxlvt
  · refine iff_of_false nofun fun h => ?_
    exact hversion.elim h.1.version_ne_zero h.1.version_ne_ones
  · refine iff_of_false nofun fun h => ?_
    exact hmaxlvt.elim (fun hlt => BitVec.not_lt.mpr h.1.maxlvt_ge hlt) h.1.maxlvt_ne_ones
  · rw [not_or] at hversion hmaxlvt
    have haccepted : VersionAccepted (apicRead apicLvr l) :=
      ⟨hversion.1, hversion.2, BitVec.not_lt.mp hmaxlvt.1, hmaxlvt.2⟩
    rw [and_iff_right haccepted, beq_iff_eq]
    exact taken_id_iff apicIdMask

theorem verifyLocalApic_spec (l : Lapic) : (verifyLocalApic l).2.apic = l.apic ∧
    (verifyLocalApic l).2.regs apicSpiv = l.regs apicSpiv ∧
    (verifyLocalApic l).2.busy = l.busy := by
  unfold verifyLocalApic
  dsimp only
  split_ifs <;>
    simp (disch := decide) only [apicWrite_apic, apicWrite_regs, apicWrite_device, and_self]

/-- The registers that mask the local interrupts do so behind `init_bsp_APIC`, and the local
APIC is enabled. At most two interrupts that were in service are so no more. -/
theorem initBspApic_spec (h : initBspApic mp l = some l') :
    l'.apic = (LocalApic.mk 0 l.apic.inService).eoi.eoi ∧
      (∀ reg ∈ localVectors, l'.regs reg = apicLvtMasked) ∧
      l'.regs apicSpiv = l.regs apicSpiv ||| (irqToVector spuriousIrq).setWidth 32 |||
        apicSpivApicEnabled ∧
      l'.busy = l.busy := by
  have hverify := verifyLocalApic_spec l
  unfold initBspApic at h
  generalize verifyLocalApic l = verified at h hverify
  obtain ⟨ok, u⟩ := verified
  obtain ⟨hapic, hspiv, hbusy⟩ := hverify
  dsimp only at h hapic hspiv hbusy
  split_ifs at h
  cases h
  refine ⟨?_, ?_, ?_, ?_⟩
  · simp (disch := decide) only [apicWrite_eoi, apicWrite_apic, apicWrite_taskpri, hapic]
  · intro reg hreg
    -- each is masked by its own store, and stays so behind the others
    simp only [localVectors, List.mem_cons, List.not_mem_nil, or_false] at hreg
    rcases hreg with rfl | rfl | rfl | rfl | rfl | rfl
    all_goals
      repeat refine apicWrite_masked ?_ (by decide)
      exact apicWrite_mask (by decide)
  · simp (disch := decide) only [apicWrite_taken, taken_of_ne, apicWrite_regs, apicRead, hspiv]
  · simp only [apicWrite_device, hbusy]

theorem initBspApic_isSome_iff : (initBspApic mp l).isSome ↔
    (bspIdentityTest (apicRead apicId l) mp).1 = true ∧ (verifyLocalApic l).1 = true := by
  unfold initBspApic
  dsimp only
  split_ifs with hidentity hverified
  · exact iff_of_true rfl ⟨hidentity, hverified⟩
  · exact iff_of_false nofun fun h => hverified h.2
  · exact iff_of_false nofun fun h => hidentity h.1

theorem or_and_absorb (w mask : BitVec 32) : (w ||| mask) &&& mask = mask := by
  ext i hi
  simp only [BitVec.getElem_and, BitVec.getElem_or]
  cases w[i] <;> simp

theorem enabled_of_or (w : BitVec 32) :
    (w ||| apicSpivApicEnabled) &&& apicSpivApicEnabled ≠ 0 := by
  rw [or_and_absorb]
  decide

/-- Once the local APIC is enabled, a store changes its register and no other. -/
theorem apicWrite_enabled (henabled : l.Enabled) (htask : reg ≠ apicTaskpri)
    (heoi : reg ≠ apicEoi) (hlvr : reg ≠ apicLvr) (hspiv : apicSpiv ≠ reg) :
    apicWrite reg v l = { l with regs := Function.update l.regs reg (l.taken reg v) } := by
  unfold apicWrite
  rw [if_neg htask, if_neg heoi, if_neg hlvr, settle_of_enabled]
  simpa only [Lapic.Enabled, Function.update_of_ne hspiv] using henabled

/-- The delivery status behind a command. -/
theorem icr_busy_iff : apicRead apicIcr (apicWrite apicIcr v l) &&& apicIcrBusy ≠ 0 ↔
    l.busy = true := by
  have hne : apicIcr ≠ apicId := by decide
  rw [apicRead, apicWrite_taken (by decide) (by decide) (by decide) (by decide), Lapic.taken,
    if_neg hne, if_pos rfl]
  cases l.busy with
  | true =>
      rw [if_pos rfl, or_and_absorb]
      decide
  | false => simp [BitVec.and_assoc]

theorem wakeAp_isSome_iff : (wakeAp l).isSome ↔ l.busy = false := by
  unfold wakeAp
  simp only [icr_busy_iff, apicWrite_device]
  cases l.busy <;> simp

/-- The commands change no other register. -/
theorem wakeAp_spec (h : wakeAp l = some l') (henabled : l.Enabled) :
    l'.apic = l.apic ∧ ∀ r ≠ apicIcr, l'.regs r = l.regs r := by
  have hstore : ∀ {l : Lapic} {v : BitVec 32}, l.Enabled →
      (apicWrite apicIcr v l).Enabled ∧ (apicWrite apicIcr v l).apic = l.apic ∧
        ∀ r ≠ apicIcr, (apicWrite apicIcr v l).regs r = l.regs r := by
    intro l v hl
    rw [apicWrite_enabled hl (by decide) (by decide) (by decide) (by decide)]
    refine ⟨?_, rfl, fun r hr => Function.update_of_ne hr _ _⟩
    simpa only [Lapic.Enabled, Function.update_of_ne (show apicSpiv ≠ apicIcr by decide)] using hl
  unfold wakeAp at h
  dsimp only at h
  split_ifs at h
  cases h
  obtain ⟨hfirst, hapic, hregs⟩ := @hstore l _ henabled
  obtain ⟨hsecond, hapic', hregs'⟩ := @hstore _ _ hfirst
  obtain ⟨-, hapic'', hregs''⟩ := @hstore _ _ hsecond
  refine ⟨hapic''.trans (hapic'.trans hapic), fun r hr => ?_⟩
  exact (hregs'' r hr).trans ((hregs' r hr).trans (hregs r hr))

end Lapic

/-- `init_bsp_timer` behind `init_bsp_APIC` unmasks the timer, and registers its handler. -/
theorem initBspTimer_spec {d : Devices Handler} {handler : Handler}
    (hmasked : ∀ reg ∈ localVectors, d.lapic.regs reg = apicLvtMasked)
    (henabled : d.lapic.Enabled) :
    (initBspTimer handler d).tables = d.tables.register (bspTimerIrq, some handler) ∧
      (initBspTimer handler d).lapic.apic = d.lapic.apic ∧
      (initBspTimer handler d).lapic.regs apicLvtt = 0x20030 ∧
      (∀ reg ∈ localVectors, reg ≠ apicLvtt →
        (initBspTimer handler d).lapic.regs reg = apicLvtMasked) ∧
      (initBspTimer handler d).lapic.regs apicSpiv = d.lapic.regs apicSpiv ∧
      (initBspTimer handler d).lapic.busy = d.lapic.busy := by
  generalize hl : apicWrite apicTdcr apicTdrDiv64 (apicWrite apicTmict 0xFFFFFF d.lapic) = l
  have hregs : ∀ reg ∈ localVectors, l.regs reg = apicLvtMasked := by
    intro reg hreg
    rw [← hl]
    have hne : reg ≠ apicTdcr ∧ reg ≠ apicTmict := by
      constructor <;> rintro rfl <;> revert hreg <;> decide
    exact apicWrite_masked (apicWrite_masked (hmasked reg hreg) hne.2) hne.1
  have hspiv : l.regs apicSpiv = d.lapic.regs apicSpiv := by
    rw [← hl]
    simp (disch := decide) only [apicWrite_regs]
  have hapic : l.apic = d.lapic.apic := by
    rw [← hl]
    simp (disch := decide) only [apicWrite_apic]
  have hbusy : l.busy = d.lapic.busy := by
    rw [← hl, apicWrite_device.2, apicWrite_device.2]
  have hon : l.Enabled := by
    rw [Lapic.Enabled, hspiv]
    exact henabled
  have hlvtt : apicRead apicLvtt l = apicLvtMasked := hregs apicLvtt (by decide)
  have hvalue : apicLvtMasked &&& ~~~apicLvtMasked ||| apicLvtTimerPeriodic |||
      (irqToVector bspTimerIrq).setWidth 32 = 0x20030 := by decide
  unfold initBspTimer
  have hstore : apicWrite apicLvtt 0x20030 l =
      { l with regs := Function.update l.regs apicLvtt 0x20030 } :=
    apicWrite_enabled hon (by decide) (by decide) (by decide) (by decide)
  simp only [hl, hlvtt, hvalue, hstore]
  refine ⟨?_, hapic, ?_, ?_, ?_, hbusy⟩
  · have hread : (0x20030 : BitVec 32) &&& apicLvtMasked = 0 := by decide
    simp only [apicRead, Function.update_self, hread, if_true]
  · exact Function.update_self _ _ _
  · intro reg hreg hne
    rw [Function.update_of_ne hne]
    exact hregs reg hreg
  · rw [Function.update_of_ne (by decide)]
    exact hspiv

/-! ## What may interrupt -/

section Sources

variable {symbol : Symbols} {handlers : Handlers Handler} {mp : MpState} {d d' : Devices Handler}
  {n v : Nat}

/-- The calls of `register_irq` in `start_kernel`. -/
def Handlers.calls (handlers : Handlers Handler) : List (BitVec 64 × Option Handler) :=
  [(bspTimerIrq, some handlers.bspLocalTimer), (keyboardIrq, some handlers.keyboardIsr)]

/-- What `startInterrupts` leaves of the devices. -/
structure Started (symbol : Symbols) (handlers : Handlers Handler) (d d' : Devices Handler) :
    Prop where
  tables : d'.tables =
    handlers.calls.foldl Tables.register (initTables symbol handlers.ignoreIsrHandler d.tables)
  apic : d'.lapic.apic = (LocalApic.mk 0 d.lapic.apic.inService).eoi.eoi
  lvtt : d'.lapic.regs apicLvtt = 0x20030
  masked : ∀ reg ∈ localVectors, reg ≠ apicLvtt → d'.lapic.regs reg = apicLvtMasked
  spiv : d'.lapic.regs apicSpiv = d.lapic.regs apicSpiv |||
    (irqToVector spuriousIrq).setWidth 32 ||| apicSpivApicEnabled

theorem startInterrupts_spec (h : startInterrupts symbol handlers mp d = some d') :
    Started symbol handlers d d' := by
  unfold startInterrupts at h
  obtain ⟨lapic, hinit, hrest⟩ := Option.bind_eq_some_iff.mp h
  obtain ⟨lapic', hwake, rfl⟩ := Option.map_eq_some_iff.mp hrest
  obtain ⟨hapic, hmasked, hspiv, -⟩ := initBspApic_spec hinit
  have henabled : lapic.Enabled := by
    rw [Lapic.Enabled, hspiv]
    exact enabled_of_or _
  obtain ⟨htables, hsame, hlvtt, hothers, hkept, -⟩ :=
    @initBspTimer_spec _ ⟨lapic, irqInit symbol handlers.ignoreIsrHandler
      { d.tables with idt := idtInitTable symbol d.tables.idt }⟩ handlers.bspLocalTimer
      hmasked henabled
  obtain ⟨hwoken, hregs⟩ := wakeAp_spec hwake (by rw [Lapic.Enabled, hkept]; exact henabled)
  have hlocal : ∀ reg ∈ localVectors, reg ≠ apicIcr := by decide
  refine ⟨?_, hwoken.trans (hsame.trans hapic), (hregs _ (by decide)).trans hlvtt, ?_,
    (hregs _ (by decide)).trans (hkept.trans hspiv)⟩
  · simp only [keyboardInit, htables]
    rfl
  · intro reg hreg hne
    exact (hregs reg (hlocal reg hreg)).trans (hothers reg hreg hne)

/-- `start_kernel` does not halt on its way if the processor recognises itself and its local
APIC, and the commands to the others have been sent when `wake_ap` looks. -/
theorem startInterrupts_isSome_iff : (startInterrupts symbol handlers mp d).isSome ↔
    (bspIdentityTest (apicRead apicId d.lapic) mp).1 = true ∧
      (verifyLocalApic d.lapic).1 = true ∧ d.lapic.busy = false := by
  rw [← and_assoc, ← initBspApic_isSome_iff]
  unfold startInterrupts
  cases hinit : initBspApic mp d.lapic with
  | none => exact iff_of_false nofun nofun
  | some l =>
      obtain ⟨-, hmasked, hspiv, hbusy⟩ := initBspApic_spec hinit
      have henabled : l.Enabled := by
        rw [Lapic.Enabled, hspiv]
        exact enabled_of_or _
      dsimp only
      rw [Option.bind_some, Option.isSome_map, wakeAp_isSome_iff]
      have htimer := (@initBspTimer_spec _ ⟨l, irqInit symbol handlers.ignoreIsrHandler
        { d.tables with idt := idtInitTable symbol d.tables.idt }⟩ handlers.bspLocalTimer
        hmasked henabled).2.2.2.2.2
      rw [htimer, hbusy]
      exact (and_iff_right rfl).symm

theorem Handlers.calls_lt (handlers : Handlers Handler) :
    ∀ call ∈ handlers.calls, call.1.toNat < maxIrq := by
  simp only [Handlers.calls, List.forall_mem_cons]
  exact ⟨by decide, by decide, fun _ h => absurd h List.not_mem_nil⟩

theorem Started.lastEntry (h : Started symbol handlers d d') :
    lastEntry d'.tables.irq.ioApic = lastEntry d.tables.irq.ioApic := by
  rw [h.tables, (registers_fixed handlers.calls_lt).2]
  rfl

/-- The entry of a pin that was registered. -/
theorem Started.registered (h : Started symbol handlers d d') (hn : n = 16 ∨ n = 1)
    (hpin : n ≤ Caos.lastEntry d.tables.irq.ioApic) :
    (pinOf (redirection d'.tables.irq.ioApic n)).masked = 0 ∧
      (pinOf (redirection d'.tables.irq.ioApic n)).vector = vectorBase + n := by
  rw [h.tables]
  rcases hn with rfl | rfl
  · obtain ⟨-, dest, hentry⟩ := @registers_last _
      (initTables symbol handlers.ignoreIsrHandler d.tables) bspTimerIrq
      (some handlers.bspLocalTimer) [] [(keyboardIrq, some handlers.keyboardIsr)]
      handlers.calls_lt (by simp [keyboardIrq, bspTimerIrq]) hpin
    exact ⟨congrArg Pin.masked hentry, congrArg Pin.vector hentry⟩
  · obtain ⟨-, dest, hentry⟩ := @registers_last _
      (initTables symbol handlers.ignoreIsrHandler d.tables) keyboardIrq
      (some handlers.keyboardIsr) [(bspTimerIrq, some handlers.bspLocalTimer)] []
      handlers.calls_lt (by simp) hpin
    exact ⟨congrArg Pin.masked hentry, congrArg Pin.vector hentry⟩

/-- The other pins are as they were. -/
theorem Started.others (h : Started symbol handlers d d') (hn : n < 256) (h16 : n ≠ 16)
    (h1 : n ≠ 1) :
    redirection d'.tables.irq.ioApic n = redirection d.tables.irq.ioApic n := by
  rw [h.tables]
  refine (registers_frame handlers.calls_lt hn ?_).2.trans rfl
  simp only [Handlers.calls, List.forall_mem_cons]
  exact ⟨h16.symm, h1.symm, fun _ h => absurd h List.not_mem_nil⟩

theorem Started.reaches (h : Started symbol handlers d d') :
    Reaches symbol handlers.ignoreIsrHandler d'.tables (vectorBase + 16) handlers.bspLocalTimer 16 ∧
      Reaches symbol handlers.ignoreIsrHandler d'.tables (vectorBase + 1)
        handlers.keyboardIsr 1 := by
  have hidt : d'.tables.idt = (initTables symbol handlers.ignoreIsrHandler d.tables).idt := by
    rw [h.tables]
    exact (registers_fixed handlers.calls_lt).1
  have hhandlers : ∀ irq, d'.tables.irq.irqHandler irq =
      if irq = 1 then some handlers.keyboardIsr
      else if irq = 16 then some handlers.bspLocalTimer
      else (initTables symbol handlers.ignoreIsrHandler d.tables).irq.irqHandler irq := by
    intro irq
    rw [h.tables]
    exact (Function.update_apply _ _ _ _).trans
      (congrArg (ite _ _) (Function.update_apply _ _ _ _))
  have htimer : d'.tables.irq.irqHandler 16 = some handlers.bspLocalTimer := hhandlers 16
  have hkeyboard : d'.tables.irq.irqHandler 1 = some handlers.keyboardIsr := hhandlers 1
  exact ⟨reaches_of_declared (by decide) hidt htimer,
    reaches_of_declared (by decide) hidt hkeyboard⟩

theorem lastEntry_le (ioApic : IoApic) : Caos.lastEntry ioApic < 256 := by
  have hand : (getIoApicEntry (ioApic.regs ioApicVersion)).toNat ≤ (0xFF : BitVec 32).toNat := by
    rw [getIoApicEntry, BitVec.toNat_and]
    exact Nat.and_le_right
  exact Nat.lt_of_le_of_lt hand (by decide)

/-- Where the pins of the I/O APIC are masked to begin with, `register_irq` has unmasked the
two that bear the numbers of the keyboard and of the timer. -/
theorem Started.pin_iff (h : Started symbol handlers d d')
    (hpins : ∀ n ≤ Caos.lastEntry d.tables.irq.ioApic,
      (pinOf (redirection d.tables.irq.ioApic n)).masked = 1)
    (hn : n ≤ Caos.lastEntry d'.tables.irq.ioApic) :
    (pinOf (redirection d'.tables.irq.ioApic n)).masked = 0 ↔ n = 16 ∨ n = 1 := by
  rw [h.lastEntry] at hn
  constructor
  · intro hmasked
    by_contra hother
    rw [not_or] at hother
    rw [h.others (Nat.lt_of_le_of_lt hn (lastEntry_le _)) hother.1 hother.2, hpins n hn] at hmasked
    cases hmasked
  · exact fun hreg => (h.registered hreg hn).1

/-- Behind `start_kernel` interrupts come with the vectors of the timer and of the keyboard
alone, and reach their handlers. `register_irq` for the local timer has unmasked a pin as
well: what is connected to number 16 of the I/O APIC interrupts with the vector of the timer. -/
theorem started_sources (symbol : Symbols) (handlers : Handlers Handler) (mp : MpState)
    (hstart : startInterrupts symbol handlers mp d = some d')
    (hpins : ∀ n ≤ lastEntry d.tables.irq.ioApic,
      (pinOf (redirection d.tables.irq.ioApic n)).masked = 1) :
    (∀ v, Raises d' v ↔
      v = vectorBase + 16 ∨ v = vectorBase + 1 ∧ 1 ≤ lastEntry d.tables.irq.ioApic) ∧
    (∀ n ≤ lastEntry d.tables.irq.ioApic,
      (pinOf (redirection d'.tables.irq.ioApic n)).masked = 0 ↔ n = 16 ∨ n = 1) ∧
    (∀ n ≤ lastEntry d.tables.irq.ioApic, n = 16 ∨ n = 1 →
      (pinOf (redirection d'.tables.irq.ioApic n)).vector = vectorBase + n) ∧
    Reaches symbol handlers.ignoreIsrHandler d'.tables (vectorBase + 16)
      handlers.bspLocalTimer 16 ∧
    Reaches symbol handlers.ignoreIsrHandler d'.tables (vectorBase + 1)
      handlers.keyboardIsr 1 := by
  have h := startInterrupts_spec hstart
  refine ⟨fun v => ⟨?_, ?_⟩, ?_, ?_, h.reaches.1, h.reaches.2⟩
  · intro hraises
    cases hraises with
    | pin n hn hmasked =>
        have hreg := (h.pin_iff hpins hn).mp hmasked
        rw [h.lastEntry] at hn
        rw [(h.registered hreg hn).2]
        rcases hreg with rfl | rfl
        · exact .inl rfl
        · exact .inr ⟨rfl, hn⟩
    | localVector reg hreg hmasked =>
        rcases eq_or_ne reg apicLvtt with rfl | hne
        · rw [h.lvtt]
          exact .inl rfl
        · rw [h.masked reg hreg hne] at hmasked
          exact absurd hmasked (by decide)
  · rintro (rfl | ⟨rfl, hn⟩)
    · have hraises := @Raises.localVector _ d' apicLvtt (by decide) (by rw [h.lvtt]; decide)
      rwa [h.lvtt] at hraises
    · obtain ⟨hmasked, hvector⟩ := h.registered (.inr rfl) hn
      rw [← hvector]
      exact .pin 1 (by rw [h.lastEntry]; exact hn) hmasked
  · intro n hn
    exact h.pin_iff hpins (by rw [h.lastEntry]; exact hn)
  · exact fun n hn hreg => (h.registered hreg hn).2

/-- The spurious vector is the one of number 19, where no further bit was set in the register,
and otherwise beyond the declared ones. -/
theorem Started.spuriousVector (h : Started symbol handlers d d') :
    d'.spuriousVector = vectorBase + 19 ∨ vectorBase + 22 ≤ d'.spuriousVector := by
  have hbyte : ∀ b : BitVec 8,
      (b ||| 0x33).toNat = vectorBase + 19 ∨ vectorBase + 22 ≤ (b ||| 0x33).toNat := by decide
  have hlow : (d'.lapic.regs apicSpiv).setWidth 8 =
      (d.lapic.regs apicSpiv).setWidth 8 ||| 0x33 := by
    rw [h.spiv, BitVec.setWidth_or, BitVec.setWidth_or]
    have hvector : ((irqToVector spuriousIrq).setWidth 32).setWidth 8 = 0x33#8 := by decide
    have henabled : apicSpivApicEnabled.setWidth 8 = 0#8 := by decide
    rw [hvector, henabled, BitVec.or_zero]
    rfl
  rw [Devices.spuriousVector, hlow]
  exact hbyte _

end Sources

/-! ## Runs -/

/-- The local APIC at rest. -/
def LocalApic.rest : LocalApic := ⟨0, ∅⟩

/-- What an interrupt that is not in service makes of a local APIC at rest. -/
def Unserved : Point → LocalApic → Prop
  | .entered, apic | .restored, apic => apic = .rest
  | .saved taskPri, apic => taskPri = 0 ∧ apic = .rest
  | .handling taskPri, apic | .ended taskPri, apic =>
    taskPri = 0 ∧ apic = ⟨vectorBase + 19, ∅⟩

/-- An IRQ under way that has found the local APIC at rest. -/
inductive Serving (d : Devices Handler) : Nat → Point → LocalApic → Prop
  | raised {nr : Nat} {point : Point} {apic : LocalApic} : Raises d (vectorBase + nr) →
      nr < 19 → Atop (.irq nr point) .rest apic → Serving d nr point apic
  | spurious {point : Point} {apic : LocalApic} : d.spuriousVector = vectorBase + 19 →
      Unserved point apic → Serving d 19 point apic

/-- At most one IRQ is under way, on spurious interrupts in `_ignore_isr`. -/
inductive Orderly (d : Devices Handler) : Running → Prop
  | resting (n : Nat) : Orderly d
      { service := { apic := .rest, stack := .replicate n (.ignored d.spuriousVector) }
        flags := .replicate n true
        flag := true }
  | serving (n : Nat) {nr : Nat} {point : Point} {apic : LocalApic} : Serving d nr point apic →
      Orderly d
        { service :=
            { apic := apic, stack := .irq nr point :: .replicate n (.ignored d.spuriousVector) }
          flags := .replicate (n + 1) true
          flag := false }

/-- What the start-up has made sure of. -/
structure Declared (d : Devices Handler) : Prop where
  raises : ∀ v, Raises d v → v = vectorBase + 16 ∨ v = vectorBase + 1
  spurious : d.spuriousVector = vectorBase + 19 ∨ vectorBase + 22 ≤ d.spuriousVector

section Run

variable {d : Devices Handler} {s s' : Running} {nr v : Nat} {point : Point} {apic : LocalApic}
  {rest : List Taken} {signal : Signal}

theorem take_irq (hnr : nr < 22) : s.take (vectorBase + nr) apic =
    { service := { apic := apic, stack := .irq nr .entered :: s.service.stack }
      flags := s.flag :: s.flags
      flag := false } := by
  have hgate : vectorGate (vectorBase + nr) = (destypeInt, .irq nr) := by
    rw [vectorGate_of_le (Nat.le_add_right_of_le (by decide)),
      if_pos ⟨Nat.le_add_right _ _, by omega⟩, Nat.add_sub_cancel_left]
  simp only [Running.take, takenOf, hgate, if_true]

theorem take_ignored (hv : vectorBase + 22 ≤ v) : s.take v apic =
    { service := { apic := apic, stack := .ignored v :: s.service.stack }
      flags := s.flag :: s.flags
      flag := s.flag } := by
  have hgate : vectorGate v = (destypeTrap, .ignoreIsr) := by
    rw [vectorGate_of_le (le_trans (by decide) hv), if_neg (by omega)]
  have htrap : destypeTrap ≠ destypeInt := by decide
  simp only [Running.take, takenOf, hgate, htrap, if_false]

/-- An IRQ goes on by itself, and leaves the local APIC at rest. -/
theorem Serving.next (h : Serving d nr point apic) :
    (point = .restored ∧ apic = .rest) ∨ point ≠ .restored ∧
      ∃ point' apic', Service.next { apic := apic, stack := .irq nr point :: rest } =
        { apic := apic', stack := .irq nr point' :: rest } ∧ Serving d nr point' apic' := by
  cases h with
  | raised hraises hnr hatop =>
      cases point with
      | restored => exact .inl ⟨rfl, hatop.2.2⟩
      | _ =>
          -- the local APIC goes through the points as under any other nesting
          refine .inr ⟨nofun, _, _, rfl, .raised hraises hnr ?_⟩
          have hnested : Service.Nested .rest { apic := apic, stack := [.irq nr _] } :=
            ⟨.rest, rfl, hatop⟩
          obtain ⟨below, rfl, hatop'⟩ := @Service.Nested.step .rest _ .next hnested
            (by rintro ⟨v, rest, hstack⟩; cases hstack)
          exact hatop'
  | spurious hvector hunserved =>
      cases point with
      | restored => exact .inl ⟨rfl, hunserved⟩
      | entered =>
          have hsaved : Unserved (.saved apic.taskPri) apic := ⟨by rw [hunserved]; rfl, hunserved⟩
          exact .inr ⟨nofun, _, _, rfl, .spurious hvector hsaved⟩
      | saved taskPri =>
          obtain ⟨rfl, rfl⟩ := hunserved
          exact .inr ⟨nofun, _, _, rfl, .spurious hvector ⟨rfl, rfl⟩⟩
      | handling taskPri =>
          obtain ⟨rfl, rfl⟩ := hunserved
          exact .inr ⟨nofun, _, _, rfl, .spurious hvector ⟨rfl, rfl⟩⟩
      | ended taskPri =>
          obtain ⟨rfl, rfl⟩ := hunserved
          exact .inr ⟨nofun, _, _, rfl, .spurious hvector rfl⟩

theorem next_irq {flags : List Bool} {flag : Bool} (h : point ≠ .restored) :
    Running.next
        { service := { apic := apic, stack := .irq nr point :: rest }
          flags := flags
          flag := flag } =
      { service := Service.next { apic := apic, stack := .irq nr point :: rest }
        flags := flags
        flag := flag } := by
  cases point with
  | restored => exact absurd rfl h
  | _ => rfl

/-- No step disturbs the order. -/
theorem Orderly.step (hd : Declared d) (h : Orderly d s) (hstep : Running.Step d s signal s') :
    Orderly d s' := by
  cases hstep with
  | @interrupt v hraises hflag haccepts =>
      cases h with
      | serving n hserving => cases hflag
      | resting n =>
          have hnr : ∃ nr < 19, v = vectorBase + nr := by
            rcases hd.raises v hraises with rfl | rfl
            · exact ⟨16, by decide, rfl⟩
            · exact ⟨1, by decide, rfl⟩
          obtain ⟨nr, hnr, rfl⟩ := hnr
          rw [take_irq (by omega)]
          exact .serving n (.raised hraises hnr ⟨by omega, haccepts.2.2, rfl⟩)
  | spurious hflag =>
      cases h with
      | serving n hserving => cases hflag
      | resting n =>
          rcases hd.spurious with hvector | hvector
          · rw [hvector, take_irq (by decide), ← hvector]
            exact .serving n (.spurious hvector rfl)
          · rw [take_ignored hvector]
            exact .resting (n + 1)
  | next =>
      cases h with
      | resting n =>
          cases n with
          | zero => exact .resting 0
          | succ n => exact .resting n
      | @serving n nr point apic hserving =>
          obtain ⟨rfl, rfl⟩ | ⟨hne, point', apic', hnext, hserving'⟩ :=
            @Serving.next _ d nr point apic _ hserving
          · exact .resting n
          · rw [next_irq hne, hnext]
            exact .serving n hserving'

/-- The vector that waits for its end of interrupt while an IRQ is under way. A spurious
interrupt does not. -/
def Taken.awaiting : Taken → Finset Nat
  | .irq nr .entered | .irq nr (.saved _) | .irq nr (.handling _) =>
    if nr = spuriousIrq.toNat then ∅ else {vectorBase + nr}
  | _ => ∅

/-- No IRQ is interrupted, and whatever was in service has been acknowledged when it returns. -/
structure Undisturbed (d : Devices Handler) (s : Running) : Prop where
  uninterrupted : ∀ t ∈ s.service.stack.tail, t = .ignored d.spuriousVector
  numbers : ∀ nr point, .irq nr point ∈ s.service.stack →
    nr = 16 ∨ nr = 1 ∨ nr = 19 ∧ d.spuriousVector = vectorBase + 19
  inService : s.service.apic.inService = s.service.stack.head?.elim ∅ Taken.awaiting
  ready : (∀ t ∈ s.service.stack, t = .ignored d.spuriousVector) →
    s.service.apic = .rest ∧ s.flag = true ∧ ∀ v, Raises d v → s.service.Accepts v

theorem Serving.inService (h : Serving d nr point apic) :
    apic.inService = (Taken.irq nr point).awaiting := by
  cases h with
  | raised hraises hnr hatop =>
      have hne : nr ≠ spuriousIrq.toNat := by
        intro heq
        rw [heq] at hnr
        exact absurd hnr (by decide)
      obtain ⟨-, -, hpoint⟩ := hatop
      cases point with
      | entered => simp [hpoint, Taken.awaiting, hne, LocalApic.serve, LocalApic.rest]
      | saved taskPri => simp [hpoint.2, Taken.awaiting, hne, LocalApic.serve, LocalApic.rest]
      | handling taskPri => simp [hpoint.2, Taken.awaiting, hne, LocalApic.serve, LocalApic.rest]
      | ended taskPri => simp [hpoint.2, Taken.awaiting, LocalApic.rest]
      | restored => simp [hpoint, Taken.awaiting, LocalApic.rest]
  | spurious hvector hunserved =>
      cases point with
      | entered | restored => rw [hunserved]; rfl
      | saved taskPri | handling taskPri | ended taskPri => rw [hunserved.2]; rfl

theorem Orderly.undisturbed (hd : Declared d) (h : Orderly d s) : Undisturbed d s := by
  cases h with
  | resting n =>
      refine ⟨?_, ?_, ?_, ?_⟩
      · exact fun t ht => List.eq_of_mem_replicate (List.mem_of_mem_tail ht)
      · exact fun nr point hmem => by cases List.eq_of_mem_replicate hmem
      · cases n <;> rfl
      · intro hstack
        refine ⟨rfl, rfl, fun v hraises => ?_⟩
        have haccepts : vectorBase ≤ v ∧ v < idtSize ∧ LocalApic.rest.rank < priorityClass v := by
          rcases hd.raises v hraises with rfl | rfl <;> decide
        exact haccepts
  | serving n hserving =>
      refine ⟨?_, ?_, hserving.inService, ?_⟩
      · exact fun t ht => List.eq_of_mem_replicate ht
      · intro nr point hmem
        rcases List.mem_cons.mp hmem with heq | hmem
        · cases heq
          cases hserving with
          | raised hraises hnr hatop =>
              have hvector := hd.raises _ hraises
              omega
          | spurious hvector hunserved => exact .inr (.inr ⟨rfl, hvector⟩)
        · cases List.eq_of_mem_replicate hmem
      · exact fun hstack => nomatch hstack _ List.mem_cons_self

end Run

theorem eoi_card (apic : LocalApic) : apic.eoi.inService.card = apic.inService.card - 1 := by
  rcases apic.inService.eq_empty_or_nonempty with hempty | hne
  · simp [LocalApic.eoi, hempty]
  · obtain ⟨v, hv, hsup⟩ := Finset.exists_mem_eq_sup apic.inService hne id
    have hmem : apic.highest ∈ apic.inService := by
      rw [LocalApic.highest, hsup]
      exact hv
    exact Finset.card_erase_of_mem hmem

/-- In every run behind `start_kernel`: the handlers of the timer and of the keyboard are
never interrupted, both are acknowledged by their own end of interrupt, and whenever no more
than spurious interrupts in `_ignore_isr` are under way the local APIC is at rest and the next
interrupt of either is let through. -/
theorem started_undisturbed (symbol : Symbols) (handlers : Handlers Handler) (mp : MpState)
    {d d' : Devices Handler} {signals : List Signal} {s : Running}
    (hstart : startInterrupts symbol handlers mp d = some d')
    (hpins : ∀ n ≤ lastEntry d.tables.irq.ioApic,
      (pinOf (redirection d.tables.irq.ioApic n)).masked = 1)
    (hserved : d.lapic.apic.inService.card ≤ 2)
    (hrun : Run (Running.Step d') (.sti d'.lapic.apic) signals s) :
    Undisturbed d' s := by
  have h := startInterrupts_spec hstart
  have hd : Declared d' := by
    refine ⟨fun v hraises => ?_, h.spuriousVector⟩
    exact ((started_sources symbol handlers mp hstart hpins).1 v |>.mp hraises).imp_right And.left
  have hrest : d'.lapic.apic = .rest := by
    have hempty : (LocalApic.mk 0 d.lapic.apic.inService).eoi.eoi.inService = ∅ := by
      rw [← Finset.card_eq_zero, eoi_card, eoi_card]
      exact Nat.sub_eq_zero_of_le (Nat.sub_le_of_le_add hserved)
    rw [h.apic]
    exact congrArg (LocalApic.mk 0) hempty
  have horderly : Orderly d' s := by
    apply hrun.invariant
    · rw [hrest]
      exact .resting 0
    · exact fun s signal s' hs hstep => hs.step hd hstep
  exact horderly.undisturbed hd

/-- The devices behind a reset: an I/O APIC with 24 entries, all masked, and the spurious
vector 255. -/
def resetDevices : Devices Nat where
  lapic :=
    { apic := .rest
      regs := fun r => if r = apicLvr then 0x50014 else if r = apicSpiv then 0xFF else 0
      idBits := apicIdMask
      busy := false }
  tables :=
    { idt := fun _ => ⟨0, 0, 0, 0, 0, 0⟩
      irq :=
        { irqHandler := fun _ => none
          stored := []
          ioApic := { index := 0, regs := fun i => if i = 1 then 0x00170011 else 0x10000 } } }

theorem resetDevices_pins : ∀ n ≤ lastEntry resetDevices.tables.irq.ioApic,
    (pinOf (redirection resetDevices.tables.irq.ioApic n)).masked = 1 := by
  have hall : ∀ n < 24, (pinOf (redirection resetDevices.tables.irq.ioApic n)).masked = 1 := by
    decide
  exact fun n hn => hall n (Nat.lt_succ_of_le hn)

/-- The globals behind `smp_read_mpc` with one processor. -/
def oneProcessor : MpState := { clearedGlobals with x86CpuToApicid := fun _ => 0 }

theorem resetDevices_start :
    ∃ d', startInterrupts someSymbols ⟨0, 1, 2⟩ oneProcessor resetDevices = some d' := by
  have hidentity :
      (bspIdentityTest (apicRead apicId resetDevices.lapic) oneProcessor).1 = true := rfl
  have hverified : (verifyLocalApic resetDevices.lapic).1 = true :=
    verifyLocalApic_iff.mpr ⟨⟨by decide, by decide, by decide, by decide⟩, by decide⟩
  exact Option.isSome_iff_exists.mp
    (startInterrupts_isSome_iff.mpr ⟨hidentity, hverified, rfl⟩)

theorem reset_started_sources : ∃ d',
    startInterrupts someSymbols ⟨0, 1, 2⟩ oneProcessor resetDevices = some d' ∧
      Raises d' 0x30 ∧ Raises d' 0x21 := by
  obtain ⟨d', hstart⟩ := resetDevices_start
  have hsources := started_sources someSymbols ⟨0, 1, 2⟩ oneProcessor hstart resetDevices_pins
  exact ⟨d', hstart, (hsources.1 _).mpr (.inl rfl), (hsources.1 _).mpr (.inr ⟨rfl, by decide⟩)⟩

/-- The timer interrupts, and its handler goes on. -/
theorem reset_timer_undisturbed : ∃ d' s,
    startInterrupts someSymbols ⟨0, 1, 2⟩ oneProcessor resetDevices = some d' ∧
      Run (Running.Step d') (.sti d'.lapic.apic) [.interrupt 0x30, .next] s ∧
      Undisturbed d' s := by
  obtain ⟨d', hstart⟩ := resetDevices_start
  have hraises : Raises d' 0x30 :=
    ((started_sources someSymbols ⟨0, 1, 2⟩ oneProcessor hstart resetDevices_pins).1 _).mpr
      (.inl rfl)
  have hrest : d'.lapic.apic = .rest := (startInterrupts_spec hstart).apic
  have haccepts : (Running.sti d'.lapic.apic).service.Accepts 0x30 := by
    rw [hrest]
    decide
  have hrun := Run.cons (Running.Step.interrupt hraises rfl haccepts)
    (Run.cons Running.Step.next (Run.nil _))
  exact ⟨d', _, hstart, hrun, started_undisturbed someSymbols ⟨0, 1, 2⟩ oneProcessor hstart
    resetDevices_pins (by decide) hrun⟩

end Caos.Irq
