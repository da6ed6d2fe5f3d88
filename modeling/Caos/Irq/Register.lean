import Mathlib.Tactic

/-!
`register_irq` with `io_apic_enable_irq`. The handler table is addressed by index; the
stores to it are recorded, and an index from `MAX_IRQ` on is behind its end.
-/

namespace Caos

/-- `MAX_IRQ`. -/
def maxIrq : Nat := 32

/-- `VECTOR_BASE`. -/
def vectorBase : Nat := 0x20

/-- `IRQ_TO_VECTOR`. -/
def irqToVector (num : BitVec 64) : BitVec 64 := num + BitVec.ofNat 64 vectorBase

/-- `CAOS_SUCCESS`. -/
def caosSuccess : Int := 0

/-! ## `io_apic.h` -/

def ioApicVersion : BitVec 32 := 0x1

/-- `GET_IO_APIC_ENTRY`, the number of the last redirection entry. -/
def getIoApicEntry (x : BitVec 32) : BitVec 32 := (x >>> 16) &&& 0xFF

def ioApicRedtblBase : BitVec 64 := 0x10

/-- `SET_IO_APIC_DEST`. -/
def setIoApicDest (x : BitVec 64) : BitVec 64 := (x &&& 0xFF) <<< 56

def ioApicIrqMask : BitVec 64 := 1#64 <<< 16

def ioApicTrigMode : BitVec 64 := 1#64 <<< 15

def ioApicIntpol : BitVec 64 := 1#64 <<< 13

def ioApicDestmod : BitVec 64 := 1#64 <<< 11

def ioApicDelmodFix : BitVec 64 := 0#64 <<< 8

/-- The device: the register select and the registers behind it. -/
structure IoApic where
  index : BitVec 32
  regs : BitVec 32 → BitVec 32

def ioApicRead (reg : BitVec 32) (ioApic : IoApic) : BitVec 32 × IoApic :=
  (ioApic.regs reg, { ioApic with index := reg })

def ioApicWrite (reg value : BitVec 32) (ioApic : IoApic) : IoApic :=
  { index := reg, regs := Function.update ioApic.regs reg value }

/-- `tbl` of `io_apic_enable_irq`. -/
def ioApicTbl (irq : BitVec 64) : BitVec 64 :=
  let tbl := (0 : BitVec 64)
  let tbl := tbl ||| setIoApicDest 0x0
  let tbl := tbl &&& ~~~ioApicIrqMask
  let tbl := tbl ||| ioApicTrigMode
  let tbl := tbl ||| ioApicIntpol
  let tbl := tbl &&& ~~~ioApicDestmod
  let tbl := tbl ||| ioApicDelmodFix
  tbl ||| irqToVector irq

def ioApicEnableIrq (irq : BitVec 64) (ioApic : IoApic) : IoApic × Int :=
  let (version, ioApic) := ioApicRead ioApicVersion ioApic
  let entry := getIoApicEntry version
  if (entry.toNat : Int) < irq.toInt then (ioApic, -1)
  else
    (ioApicWrite ((ioApicRedtblBase + irq * 2).setWidth 32) ((ioApicTbl irq).setWidth 32) ioApic,
      caosSuccess)

/-- `stored` records the indices of the stores to `irq_handler`. -/
structure IrqState (Handler : Type*) where
  irqHandler : Nat → Handler
  stored : List Nat
  ioApic : IoApic

variable {Handler : Type*}

def registerIrq (irq : BitVec 64) (handler : Handler) (s : IrqState Handler) :
    IrqState Handler × Int :=
  let s := { s with
    irqHandler := Function.update s.irqHandler irq.toNat handler
    stored := irq.toNat :: s.stored }
  let (ioApic, ret) := ioApicEnableIrq irq s.ioApic
  ({ s with ioApic := ioApic }, ret)

/-! ## The redirection table -/

/-- The number of the last redirection entry, as the version register reports it. -/
def lastEntry (ioApic : IoApic) : Nat := (getIoApicEntry (ioApic.regs ioApicVersion)).toNat

/-- A redirection entry, its upper word first. -/
def redirection (ioApic : IoApic) (n : Nat) : BitVec 64 :=
  ioApic.regs (.ofNat 32 (0x11 + 2 * n)) ++ ioApic.regs (.ofNat 32 (0x10 + 2 * n))

/-- The vector of a redirection entry. -/
def vectorOf (entry : BitVec 64) : Nat := (entry.setWidth 8).toNat

/-- Behind a call all that it was to do is done, or an error is returned and all is as
before. -/
def AllOrNothing (irq : BitVec 64) (handler : Handler) (before after : IrqState Handler)
    (ret : Int) : Prop :=
  (∃ stores, after.stored = stores ++ before.stored ∧ ∀ i ∈ stores, i < maxIrq) ∧
  (ret = caosSuccess ∧ after.irqHandler irq.toNat = handler ∧
      vectorOf (redirection after.ioApic irq.toNat) = irq.toNat + vectorBase ∨
    ret ≠ caosSuccess ∧ after.irqHandler = before.irqHandler ∧
      ∀ n, redirection after.ioApic n = redirection before.ioApic n)

section Enable

variable {irq : BitVec 64} {ioApic : IoApic}

/-- The register of the lower word of an entry. -/
theorem redtbl_index (irq : BitVec 64) :
    (ioApicRedtblBase + irq * 2).setWidth 32 = .ofNat 32 (0x10 + 2 * irq.toNat) := by
  apply BitVec.eq_of_toNat_eq
  simp only [ioApicRedtblBase, BitVec.ofNat_eq_ofNat, BitVec.toNat_setWidth, BitVec.toNat_add,
    BitVec.toNat_mul, BitVec.toNat_ofNat]
  omega

/-- The mode bits lie above the vector. -/
theorem setWidth_ioApicTbl (irq : BitVec 64) :
    ((ioApicTbl irq).setWidth 32).setWidth 8 = (irqToVector irq).setWidth 8 := by
  have hmode : ioApicTbl irq = 0xA000#64 ||| irqToVector irq := rfl
  rw [hmode, BitVec.setWidth_setWidth_of_le _ (by decide), BitVec.setWidth_or]
  exact BitVec.zero_or

theorem vectorOf_append (hi lo : BitVec 32) : vectorOf (hi ++ lo) = (lo.setWidth 8).toNat := by
  rw [vectorOf, BitVec.setWidth_append, dif_pos (by decide)]

theorem ioApicEnableIrq_of_lt (h : (lastEntry ioApic : Int) < irq.toInt) :
    ioApicEnableIrq irq ioApic = ({ ioApic with index := ioApicVersion }, -1) :=
  if_pos h

theorem ioApicEnableIrq_of_le (h : irq.toInt ≤ lastEntry ioApic) :
    ioApicEnableIrq irq ioApic =
      (ioApicWrite (.ofNat 32 (0x10 + 2 * irq.toNat)) ((ioApicTbl irq).setWidth 32)
        { ioApic with index := ioApicVersion }, caosSuccess) := by
  rw [← redtbl_index]
  exact if_neg (not_lt.mpr h)

/-- The entry is programmed with the vector modulo 256. -/
theorem vectorOf_ioApicWrite (irq : BitVec 64) (ioApic : IoApic) :
    vectorOf (redirection (ioApicWrite (.ofNat 32 (0x10 + 2 * irq.toNat))
      ((ioApicTbl irq).setWidth 32) ioApic) irq.toNat) = (irq.toNat + vectorBase) % 256 := by
  unfold redirection
  rw [vectorOf_append]
  simp only [ioApicWrite, Function.update_self]
  rw [setWidth_ioApicTbl]
  simp only [irqToVector, vectorBase, BitVec.toNat_setWidth, BitVec.toNat_add, BitVec.toNat_ofNat]
  omega

end Enable

section Register

variable {irq : BitVec 64} {handler : Handler} {s : IrqState Handler}

theorem toInt_of_lt_maxIrq (h : irq.toNat < maxIrq) : irq.toInt = irq.toNat := by
  unfold maxIrq at h
  exact BitVec.toInt_eq_toNat_of_lt (by omega)

theorem registerIrq_stored : (registerIrq irq handler s).1.stored = irq.toNat :: s.stored := rfl

theorem registerIrq_irqHandler :
    (registerIrq irq handler s).1.irqHandler = Function.update s.irqHandler irq.toNat handler := rfl

theorem registerIrq_ioApic (irq : BitVec 64) (handler : Handler) (s : IrqState Handler) :
    ((registerIrq irq handler s).1.ioApic, (registerIrq irq handler s).2) =
      ioApicEnableIrq irq s.ioApic := rfl

/-- A number without a redirection entry is refused, and the device is left as it is. -/
theorem registerIrq_of_lt (handler : Handler) (hmax : irq.toNat < maxIrq)
    (h : lastEntry s.ioApic < irq.toNat) :
    (registerIrq irq handler s).2 = -1 ∧
      (registerIrq irq handler s).1.ioApic.regs = s.ioApic.regs := by
  have hdevice := registerIrq_ioApic irq handler s
  rw [ioApicEnableIrq_of_lt (by rw [toInt_of_lt_maxIrq hmax]; exact_mod_cast h)] at hdevice
  rw [Prod.mk.injEq] at hdevice
  exact ⟨hdevice.2, by rw [hdevice.1]⟩

/-- The entry of any other number is programmed. -/
theorem registerIrq_of_le (handler : Handler) (hmax : irq.toNat < maxIrq)
    (h : irq.toNat ≤ lastEntry s.ioApic) :
    (registerIrq irq handler s).2 = caosSuccess ∧
      vectorOf (redirection (registerIrq irq handler s).1.ioApic irq.toNat) =
        irq.toNat + vectorBase := by
  have hdevice := registerIrq_ioApic irq handler s
  rw [ioApicEnableIrq_of_le (by rw [toInt_of_lt_maxIrq hmax]; exact_mod_cast h)] at hdevice
  rw [Prod.mk.injEq] at hdevice
  refine ⟨hdevice.2, ?_⟩
  rw [hdevice.1, vectorOf_ioApicWrite]
  unfold maxIrq at hmax
  unfold vectorBase
  omega

end Register

/-- `register_irq` is all or nothing exactly for the numbers of the handler table that
have a redirection entry or whose handler is the one already there. -/
theorem registerIrq_allOrNothing_iff (irq : BitVec 64) (handler : Handler)
    (s : IrqState Handler) :
    AllOrNothing irq handler s (registerIrq irq handler s).1 (registerIrq irq handler s).2 ↔
      irq.toNat < maxIrq ∧
        (irq.toNat ≤ lastEntry s.ioApic ∨ s.irqHandler irq.toNat = handler) := by
  constructor
  · rintro ⟨⟨stores, hstored, hinside⟩, hret⟩
    have hmem : irq.toNat ∈ stores := by
      rw [registerIrq_stored, ← List.singleton_append, List.append_cancel_right_eq] at hstored
      simp [← hstored]
    have hmax := hinside _ hmem
    refine ⟨hmax, ?_⟩
    by_contra hnot
    rw [not_or, not_le] at hnot
    have hfailed := (registerIrq_of_lt handler hmax hnot.1).1
    rcases hret with ⟨hsuccess, -, -⟩ | ⟨-, hsame, -⟩
    · rw [hfailed] at hsuccess
      exact absurd hsuccess (by decide)
    · have hslot := congrFun hsame irq.toNat
      rw [registerIrq_irqHandler, Function.update_self] at hslot
      exact hnot.2 hslot.symm
  · rintro ⟨hmax, hentry⟩
    refine ⟨⟨[irq.toNat], registerIrq_stored, by simpa using hmax⟩, ?_⟩
    rcases Nat.lt_or_ge (lastEntry s.ioApic) irq.toNat with hlt | hle
    · obtain ⟨hret, hregs⟩ := registerIrq_of_lt handler hmax hlt
      have hsame := hentry.resolve_left (not_le.mpr hlt)
      refine .inr ⟨by rw [hret]; decide, ?_, fun n => ?_⟩
      · rw [registerIrq_irqHandler, ← hsame, Function.update_eq_self]
      · unfold redirection
        rw [hregs]
    · obtain ⟨hret, hvector⟩ := registerIrq_of_le handler hmax hle
      refine .inl ⟨hret, ?_, hvector⟩
      rw [registerIrq_irqHandler, Function.update_self]

/-- IRQ 24 on an I/O APIC with 24 entries. -/
theorem refused_handler_stays :
    ¬ ∀ (Handler : Type) (irq : BitVec 64) (handler : Handler) (s : IrqState Handler),
      AllOrNothing irq handler s (registerIrq irq handler s).1 (registerIrq irq handler s).2 := by
  intro h
  have hcall := h Bool 24 true
    { irqHandler := fun _ => false, stored := [],
      ioApic := { index := 0, regs := fun _ => 0x00170011 } }
  rcases hcall.2 with ⟨hsuccess, -, -⟩ | ⟨-, hsame, -⟩
  · exact absurd hsuccess (by decide)
  · exact absurd (congrFun hsame 24) (by decide)

end Caos
