import Caos.Lib.CountedLoop
import Caos.Boot.Descriptors
import Caos.Irq.Entry
import Caos.Irq.Register

/-!
From a vector to the handler of an IRQ: the gates that `idt_init` and `irq_init` store, the
entry points they lead to, and the handler table behind `handle_irq`. A handler is a
function pointer, and `none` is `NULL`.
-/

namespace Caos.Irq

open Lib

variable {Handler : Type*}

/-- The entry points there are: `irq_entry.asm` has those of 32 numbers. -/
def Entry.Defined : Entry → Prop
  | .irq nr => nr < 32
  | _ => True

/-- Where the linker has placed the entry points, no two at one address. -/
structure Symbols where
  addr : Entry → BitVec 64
  injective : ∀ e e' : Entry, e.Defined → e'.Defined → addr e = addr e' → e = e'

instance : CoeFun Symbols fun _ => Entry → BitVec 64 := ⟨Symbols.addr⟩

/-- `idt_init`, as far as `idt_table` is concerned. The table fills its page. -/
def idtInitTable (symbol : Symbols) (table : IdtTable) : IdtTable :=
  let table : IdtTable := fun i => if i < idtSize then ⟨0, 0, 0, 0, 0, 0⟩ else table i
  let table := forUpTo (fun i => setTrapGate i (symbol .ignoreIsr)) idtSize table
  let table := setTrapGate 0 (symbol (.exception .divideError)) table
  let table := setTrapGate 1 (symbol (.exception .debug)) table
  let table := setIntrGate 2 (symbol (.exception .nmi)) table
  let table := setSystemGate 3 (symbol (.exception .int3)) table
  let table := setSystemGate 4 (symbol (.exception .overflow)) table
  let table := setSystemGate 5 (symbol (.exception .bounds)) table
  let table := setTrapGate 6 (symbol (.exception .invalidOp)) table
  let table := setTrapGate 7 (symbol (.exception .deviceNotAvailable)) table
  let table := setTrapGate 8 (symbol (.exception .doublefaultFn)) table
  let table := setTrapGate 9 (symbol (.exception .coprocessorSegmentOverrun)) table
  let table := setTrapGate 10 (symbol (.exception .invalidTSS)) table
  let table := setTrapGate 11 (symbol (.exception .segmentNotPresent)) table
  let table := setTrapGate 12 (symbol (.exception .stackSegment)) table
  let table := setTrapGate 13 (symbol (.exception .generalProtection)) table
  let table := setIntrGate 14 (symbol (.exception .pageFault)) table
  let table := setTrapGate 16 (symbol (.exception .coprocessorError)) table
  let table := setTrapGate 17 (symbol (.exception .alignmentCheck)) table
  let table := setTrapGate 18 (symbol (.exception .machineCheck)) table
  setTrapGate 19 (symbol (.exception .simdCoprocessorError)) table

/-- `DECLARE_IRQ`. -/
def declareIrq (symbol : Symbols) (num : Nat) : IdtTable → IdtTable :=
  setIntrGate (irqToVector (.ofNat 64 num)).toNat (symbol (.irq num))

/-- The tables an interrupt is dispatched with. -/
structure Tables (Handler : Type*) where
  idt : IdtTable
  irq : IrqState (Option Handler)

/-- `irq_init`; `DECLARE_IRQ` is written out for the numbers 0 to 21. -/
def irqInit (symbol : Symbols) (ignoreIsrHandler : Handler) (s : Tables Handler) :
    Tables Handler where
  idt := forUpTo (declareIrq symbol) 22 s.idt
  irq := { s.irq with
    irqHandler := forUpTo (fun i t => modifyAt t i fun _ => some ignoreIsrHandler) maxIrq
      s.irq.irqHandler }

/-- The tables behind `idt_init` and `irq_init`. -/
def initTables (symbol : Symbols) (ignoreIsrHandler : Handler) (s : Tables Handler) :
    Tables Handler :=
  irqInit symbol ignoreIsrHandler { s with idt := idtInitTable symbol s.idt }

/-- `register_irq`, in the tables. -/
def Tables.register (s : Tables Handler) (call : BitVec 64 × Option Handler) : Tables Handler :=
  { s with irq := (registerIrq call.1 call.2 s.irq).1 }

/-- The gate of the vector is present and leads to the entry point. -/
def LeadsTo (symbol : Symbols) (idt : IdtTable) (v : Nat) (e : Entry) : Prop :=
  (idt v).gate.present = 1 ∧ (idt v).gate.selector = kernelCs64 ∧ (idt v).gate.offset = symbol e

/-- The handler that an entry point gets called, with its argument: one of `irq_handler`
through `handle_irq`, or `ignore_isr_handler`. -/
def Entry.handlerCall (ignoreIsrHandler : Handler) (s : Tables Handler) :
    Entry → Option (Handler × Nat)
  | .irq nr => (s.irq.irqHandler nr).map (·, nr)
  | .ignoreIsr => some (ignoreIsrHandler, 0xff)
  | .exception _ | .localTimerTest => none

/-- An interrupt with this vector gets `handler` called for `nr`. -/
def Reaches (symbol : Symbols) (ignoreIsrHandler : Handler) (s : Tables Handler) (v : Nat)
    (handler : Handler) (nr : Nat) : Prop :=
  ∃ e : Entry, e.Defined ∧ LeadsTo symbol s.idt v e ∧
    e.handlerCall ignoreIsrHandler s = some (handler, nr)

/-- The fields of a redirection entry. -/
structure Pin where
  vector : Nat
  deliveryMode : BitVec 3
  logical : BitVec 1
  activeLow : BitVec 1
  level : BitVec 1
  masked : BitVec 1
  dest : BitVec 8
  deriving DecidableEq

def pinOf (entry : BitVec 64) : Pin where
  vector := vectorOf entry
  deliveryMode := entry.extractLsb' 8 3
  logical := entry.extractLsb' 11 1
  activeLow := entry.extractLsb' 13 1
  level := entry.extractLsb' 15 1
  masked := entry.extractLsb' 16 1
  dest := entry.extractLsb' 56 8

/-- The pin of `nr` is unmasked, and its interrupts get `handler` called for `nr`. -/
def PinReaches (symbol : Symbols) (ignoreIsrHandler : Handler) (s : Tables Handler) (nr : Nat)
    (handler : Handler) : Prop :=
  (pinOf (redirection s.irq.ioApic nr)).masked = 0 ∧
    Reaches symbol ignoreIsrHandler s (pinOf (redirection s.irq.ioApic nr)).vector handler nr

/-- What the gate of a vector was made with. -/
def vectorGate : Nat → BitVec 16 × Entry
  | 0 => (destypeTrap, .exception .divideError)
  | 1 => (destypeTrap, .exception .debug)
  | 2 => (destypeInt, .exception .nmi)
  | 3 => (destypeSys, .exception .int3)
  | 4 => (destypeSys, .exception .overflow)
  | 5 => (destypeSys, .exception .bounds)
  | 6 => (destypeTrap, .exception .invalidOp)
  | 7 => (destypeTrap, .exception .deviceNotAvailable)
  | 8 => (destypeTrap, .exception .doublefaultFn)
  | 9 => (destypeTrap, .exception .coprocessorSegmentOverrun)
  | 10 => (destypeTrap, .exception .invalidTSS)
  | 11 => (destypeTrap, .exception .segmentNotPresent)
  | 12 => (destypeTrap, .exception .stackSegment)
  | 13 => (destypeTrap, .exception .generalProtection)
  | 14 => (destypeInt, .exception .pageFault)
  | 16 => (destypeTrap, .exception .coprocessorError)
  | 17 => (destypeTrap, .exception .alignmentCheck)
  | 18 => (destypeTrap, .exception .machineCheck)
  | 19 => (destypeTrap, .exception .simdCoprocessorError)
  | v => if vectorBase ≤ v ∧ v < vectorBase + 22 then (destypeInt, .irq (v - vectorBase))
    else (destypeTrap, .ignoreIsr)

section Gates

variable {type : BitVec 16} {num v : Nat} {handler : BitVec 64} {table : IdtTable}
  {symbol : Symbols}

/-- The gate that the setters store. -/
def gateWith (type : BitVec 16) (handler : BitVec 64) : Gate where
  offset := handler
  selector := kernelCs64
  ist := type.extractLsb' 0 3
  gateType := type.extractLsb' 8 5
  dpl := type.extractLsb' 13 2
  present := type.extractLsb' 15 1

theorem setGate_gate (h : num < idtSize) : (setGate type num handler table v).gate =
    if v = num then gateWith type handler else (table v).gate := by
  split
  · next heq =>
      rw [heq, gate_setGate h]
      rfl
  · next hne =>
      rw [setGate, if_pos h, Function.update_of_ne hne]

theorem forUpTo_setGate (entry : Nat → BitVec 64) (first : Nat) {n : Nat}
    (h : first + n ≤ idtSize) :
    (forUpTo (fun i => setGate type (first + i) (entry i)) n table v).gate =
      if first ≤ v ∧ v < first + n then gateWith type (entry (v - first))
      else (table v).gate := by
  induction n with
  | zero =>
      rw [if_neg (by omega)]
      rfl
  | succ n ih =>
      rw [forUpTo, setGate_gate (by omega), ih (by omega)]
      rcases Nat.lt_trichotomy v (first + n) with hlt | heq | hgt
      · simp only [hlt.ne, hlt, Nat.lt_succ_of_lt hlt, if_false, and_true, Nat.add_succ]
      · simp [heq]
      · rw [if_neg (by omega), if_neg (by omega), if_neg (by omega)]

theorem vectorGate_of_le (h : 20 ≤ v) : vectorGate v =
    if vectorBase ≤ v ∧ v < vectorBase + 22 then (destypeInt, .irq (v - vectorBase))
    else (destypeTrap, .ignoreIsr) := by
  obtain ⟨v, rfl⟩ := Nat.exists_eq_add_of_le' h
  rfl

theorem idtInitTable_gate (h : v < idtSize) (hirq : ¬ (vectorBase ≤ v ∧ v < vectorBase + 22)) :
    (idtInitTable symbol table v).gate =
      gateWith (vectorGate v).1 (symbol (vectorGate v).2) := by
  have hignore : ∀ table : IdtTable,
      (forUpTo (fun i => setTrapGate i (symbol .ignoreIsr)) idtSize table v).gate =
        gateWith destypeTrap (symbol .ignoreIsr) := by
    intro table
    have hloop := @forUpTo_setGate destypeTrap v table (fun _ => symbol .ignoreIsr) 0 idtSize
      (by decide)
    simp only [Nat.zero_add, Nat.zero_le, h, true_and, if_true] at hloop
    exact hloop
  unfold idtInitTable
  simp only [setTrapGate, setIntrGate, setSystemGate] at *
  rw [setGate_gate, setGate_gate, setGate_gate, setGate_gate, setGate_gate, setGate_gate,
    setGate_gate, setGate_gate, setGate_gate, setGate_gate, setGate_gate, setGate_gate,
    setGate_gate, setGate_gate, setGate_gate, setGate_gate, setGate_gate, setGate_gate,
    setGate_gate, hignore]
  · rcases Nat.lt_or_ge v 20 with hlt | hge
    · interval_cases v <;> rfl
    · rw [vectorGate_of_le hge, if_neg hirq]
      repeat rw [if_neg (by omega)]
  all_goals decide

/-- Every gate of the table behind `idt_init` and `irq_init`. -/
theorem initTables_gate (symbol : Symbols) (ignoreIsrHandler : Handler) (s : Tables Handler)
    (h : v < idtSize) :
    ((initTables symbol ignoreIsrHandler s).idt v).gate =
      gateWith (vectorGate v).1 (symbol (vectorGate v).2) := by
  have hnumber : ∀ num < 22, declareIrq symbol num =
      setGate destypeInt (vectorBase + num) (symbol (.irq num)) := by
    intro num hnum
    have hvector : (irqToVector (.ofNat 64 num)).toNat = vectorBase + num := by
      simp only [irqToVector, vectorBase, BitVec.toNat_add, BitVec.toNat_ofNat]
      omega
    rw [declareIrq, hvector, setIntrGate]
  have hloop : ∀ n ≤ 22, ∀ table, forUpTo (declareIrq symbol) n table =
      forUpTo (fun i => setGate destypeInt (vectorBase + i) (symbol (.irq i))) n table := by
    intro n hn table
    induction n with
    | zero => rfl
    | succ n ih => rw [forUpTo, forUpTo, ih (by omega), hnumber n (by omega)]
  simp only [initTables, irqInit]
  rw [hloop 22 le_rfl, forUpTo_setGate (fun i => symbol (.irq i)) vectorBase (by decide)]
  split
  · next hirq =>
      rw [vectorGate_of_le (le_trans (by decide) hirq.1), if_pos hirq]
  · next hirq => exact idtInitTable_gate h hirq

/-- A gate that was made for an entry point leads to it and to no other. -/
theorem leadsTo_iff {idt : IdtTable} {e e' : Entry} (he : e.Defined) (he' : e'.Defined)
    (hgate : (idt v).gate = gateWith type (symbol e)) (hpresent : type.extractLsb' 15 1 = 1) :
    LeadsTo symbol idt v e' ↔ e' = e := by
  simp only [LeadsTo, hgate, gateWith, hpresent, true_and]
  exact ⟨fun h => (symbol.injective _ _ he he' h).symm, fun h => by rw [h]⟩

end Gates

section Register

variable {s : Tables Handler} {call : BitVec 64 × Option Handler} {n : Nat}

/-- The registers of the I/O APIC after a call, with a number of the table. -/
theorem register_regs (hcall : call.1.toNat < maxIrq) (i : BitVec 32) :
    (s.register call).irq.ioApic.regs i =
      if call.1.toNat ≤ lastEntry s.irq.ioApic ∧ i = .ofNat 32 (0x10 + 2 * call.1.toNat)
      then (ioApicTbl call.1).setWidth 32 else s.irq.ioApic.regs i := by
  have hdevice : (s.register call).irq.ioApic = (ioApicEnableIrq call.1 s.irq.ioApic).1 := rfl
  rw [hdevice]
  rcases Nat.lt_or_ge (lastEntry s.irq.ioApic) call.1.toNat with hlt | hle
  · rw [ioApicEnableIrq_of_lt (by rw [toInt_of_lt_maxIrq hcall]; exact_mod_cast hlt),
      if_neg (fun h => absurd h.1 (Nat.not_le.mpr hlt))]
  · rw [ioApicEnableIrq_of_le (by rw [toInt_of_lt_maxIrq hcall]; exact_mod_cast hle)]
    simp only [ioApicWrite, Function.update_apply, hle, true_and]

/-- The lower words of two entries, and the version, are different registers. -/
theorem register_index {n k : Nat} (hn : n < 2 ^ 30) (hk : k < 2 ^ 30) :
    BitVec.ofNat 32 n = BitVec.ofNat 32 k ↔ n = k := by
  refine ⟨fun h => ?_, fun h => by rw [h]⟩
  have hnat := congrArg BitVec.toNat h
  simp only [BitVec.toNat_ofNat] at hnat
  omega

@[simp] theorem register_idt : (s.register call).idt = s.idt := rfl

theorem register_lastEntry (hcall : call.1.toNat < maxIrq) :
    lastEntry (s.register call).irq.ioApic = lastEntry s.irq.ioApic := by
  unfold maxIrq at hcall
  have hne : ¬ ioApicVersion = BitVec.ofNat 32 (0x10 + 2 * call.1.toNat) := by
    intro h
    have hsame := (@register_index 1 (0x10 + 2 * call.1.toNat) (by omega) (by omega)).mp h
    omega
  rw [lastEntry, register_regs hcall, if_neg (fun h => hne h.2), lastEntry]

/-- A call leaves the handler and the redirection entry of every other number. -/
theorem register_frame (hcall : call.1.toNat < maxIrq) (hn : n < 256)
    (hne : call.1.toNat ≠ n) :
    (s.register call).irq.irqHandler n = s.irq.irqHandler n ∧
      redirection (s.register call).irq.ioApic n = redirection s.irq.ioApic n := by
  unfold maxIrq at hcall
  constructor
  · exact Function.update_of_ne hne.symm _ _
  · have hlow : ¬ BitVec.ofNat 32 (0x10 + 2 * n) = BitVec.ofNat 32 (0x10 + 2 * call.1.toNat) := by
      rw [register_index (by omega) (by omega)]
      omega
    have hhigh :
        ¬ BitVec.ofNat 32 (0x11 + 2 * n) = BitVec.ofNat 32 (0x10 + 2 * call.1.toNat) := by
      rw [register_index (by omega) (by omega)]
      omega
    rw [redirection, register_regs hcall, register_regs hcall, if_neg (fun h => hhigh h.2),
      if_neg (fun h => hlow h.2), redirection]

/-- The entry that a call programs is unmasked, with the vector of the number. Its upper
word, and the destination in it, stay as they were. -/
theorem pinOf_register (hcall : call.1.toNat < maxIrq)
    (hpin : call.1.toNat ≤ lastEntry s.irq.ioApic) :
    pinOf (redirection (s.register call).irq.ioApic call.1.toNat) =
      { vector := vectorBase + call.1.toNat, deliveryMode := 0, logical := 0, activeLow := 1,
        level := 1, masked := 0,
        dest := (pinOf (redirection s.irq.ioApic call.1.toNat)).dest } := by
  have hhigh : ¬ BitVec.ofNat 32 (0x11 + 2 * call.1.toNat) =
      BitVec.ofNat 32 (0x10 + 2 * call.1.toNat) := by
    unfold maxIrq at hcall
    rw [register_index (by omega) (by omega)]
    omega
  have hentry : redirection (s.register call).irq.ioApic call.1.toNat =
      s.irq.ioApic.regs (.ofNat 32 (0x11 + 2 * call.1.toNat)) ++
        (ioApicTbl call.1).setWidth 32 := by
    rw [redirection, register_regs hcall, register_regs hcall, if_neg (fun h => hhigh h.2),
      if_pos ⟨hpin, rfl⟩]
  have hlow : ∀ n < maxIrq, ((ioApicTbl (.ofNat 64 n)).setWidth 32).extractLsb' 8 3 = 0 ∧
      ((ioApicTbl (.ofNat 64 n)).setWidth 32).extractLsb' 11 1 = 0 ∧
      ((ioApicTbl (.ofNat 64 n)).setWidth 32).extractLsb' 13 1 = 1 ∧
      ((ioApicTbl (.ofNat 64 n)).setWidth 32).extractLsb' 15 1 = 1 ∧
      ((ioApicTbl (.ofNat 64 n)).setWidth 32).extractLsb' 16 1 = 0 ∧
      (((ioApicTbl (.ofNat 64 n)).setWidth 32).setWidth 8).toNat = vectorBase + n := by
    decide
  have hcases := hlow call.1.toNat hcall
  rw [BitVec.ofNat_toNat, BitVec.setWidth_eq] at hcases
  obtain ⟨hmode, hlogical, hpol, hlevel, hmask, hvector⟩ := hcases
  rw [hentry, pinOf, vectorOf_append]
  simp (disch := decide) only [BitVec.extractLsb'_append_eq_of_add_le, hmode, hlogical, hpol,
    hlevel, hmask, hvector, redirection, pinOf, BitVec.extractLsb'_append_eq_of_le]

end Register

section Run

variable {symbol : Symbols} {ignoreIsrHandler : Handler} {s : Tables Handler} {n : Nat}
  {calls : List (BitVec 64 × Option Handler)}

/-- What calls for other numbers keep. -/
theorem registers_frame (hcalls : ∀ call ∈ calls, call.1.toNat < maxIrq) (hn : n < 256)
    (hne : ∀ call ∈ calls, call.1.toNat ≠ n) :
    (calls.foldl Tables.register s).irq.irqHandler n = s.irq.irqHandler n ∧
      redirection (calls.foldl Tables.register s).irq.ioApic n =
        redirection s.irq.ioApic n := by
  induction calls generalizing s with
  | nil => exact ⟨rfl, rfl⟩
  | cons call calls ih =>
      rw [List.forall_mem_cons] at hcalls hne
      obtain ⟨hhandler, hentry⟩ := @ih (s.register call) hcalls.2 hne.2
      obtain ⟨hhandler', hentry'⟩ := @register_frame _ s call n hcalls.1 hn hne.1
      exact ⟨hhandler.trans hhandler', hentry.trans hentry'⟩

/-- No call changes the gates or the size of the I/O APIC. -/
theorem registers_fixed (hcalls : ∀ call ∈ calls, call.1.toNat < maxIrq) :
    (calls.foldl Tables.register s).idt = s.idt ∧
      lastEntry (calls.foldl Tables.register s).irq.ioApic = lastEntry s.irq.ioApic := by
  induction calls generalizing s with
  | nil => exact ⟨rfl, rfl⟩
  | cons call calls ih =>
      rw [List.forall_mem_cons] at hcalls
      obtain ⟨hidt, hlast⟩ := @ih (s.register call) hcalls.2
      exact ⟨hidt, hlast.trans (register_lastEntry hcalls.1)⟩

/-- The entry and the handler of a number are those of the last call for it. -/
theorem registers_last {irq : BitVec 64} {handler : Option Handler}
    {before after : List (BitVec 64 × Option Handler)}
    (hcalls : ∀ call ∈ before ++ (irq, handler) :: after, call.1.toNat < maxIrq)
    (hlast : ∀ call ∈ after, call.1 ≠ irq) (hpin : irq.toNat ≤ lastEntry s.irq.ioApic) :
    let t := (before ++ (irq, handler) :: after).foldl Tables.register s
    t.irq.irqHandler irq.toNat = handler ∧
      ∃ dest, pinOf (redirection t.irq.ioApic irq.toNat) =
        { vector := vectorBase + irq.toNat, deliveryMode := 0, logical := 0, activeLow := 1,
          level := 1, masked := 0, dest := dest } := by
  simp only [List.forall_mem_append, List.forall_mem_cons] at hcalls
  obtain ⟨hbefore, hirq, hafter⟩ := hcalls
  simp only [List.foldl_append, List.foldl_cons]
  generalize hs : before.foldl Tables.register s = u
  have hsize : lastEntry u.irq.ioApic = lastEntry s.irq.ioApic := by
    rw [← hs]
    exact (registers_fixed hbefore).2
  have hne : ∀ call ∈ after, call.1.toNat ≠ irq.toNat := by
    intro call hcall heq
    exact hlast call hcall (BitVec.eq_of_toNat_eq heq)
  obtain ⟨hhandler, hentry⟩ :=
    @registers_frame _ (u.register (irq, handler)) irq.toNat after hafter
      (lt_trans hirq (by decide)) hne
  refine ⟨?_, (pinOf (redirection u.irq.ioApic irq.toNat)).dest, ?_⟩
  · rw [hhandler]
    exact Function.update_self _ _ _
  · rw [hentry]
    exact pinOf_register hirq (by rw [hsize]; exact hpin)

end Run

/-- The vector of a declared number leads to the handler that the table holds. -/
theorem reaches_of_declared {symbol : Symbols} {ignoreIsrHandler handler : Handler}
    {s t : Tables Handler} {nr : Nat} (hnr : nr < 22)
    (hidt : t.idt = (initTables symbol ignoreIsrHandler s).idt)
    (hhandler : t.irq.irqHandler nr = some handler) :
    Reaches symbol ignoreIsrHandler t (vectorBase + nr) handler nr := by
  have hvector : vectorBase + nr < idtSize := by
    unfold vectorBase idtSize
    omega
  have hgate := initTables_gate symbol ignoreIsrHandler s hvector
  rw [← hidt, vectorGate_of_le (Nat.le_add_right_of_le (by decide)),
    if_pos ⟨Nat.le_add_right _ _, by omega⟩, Nat.add_sub_cancel_left] at hgate
  dsimp only at hgate
  have hdefined : (Entry.irq nr).Defined := lt_trans hnr (by decide)
  refine ⟨.irq nr, hdefined, (leadsTo_iff hdefined hdefined hgate (by decide)).mpr rfl, ?_⟩
  simp only [Entry.handlerCall, hhandler, Option.map_some]

/-- The vector of a number that is not declared leads to `_ignore_isr`. -/
theorem leadsTo_ignoreIsr {symbol : Symbols} {ignoreIsrHandler : Handler} {s : Tables Handler}
    {idt : IdtTable} {nr : Nat} (hlt : nr < maxIrq) (hge : 22 ≤ nr)
    (hidt : idt = (initTables symbol ignoreIsrHandler s).idt) (e : Entry) (he : e.Defined) :
    LeadsTo symbol idt (vectorBase + nr) e ↔ e = .ignoreIsr := by
  have hvector : vectorBase + nr < idtSize := by
    unfold vectorBase idtSize
    unfold maxIrq at hlt
    omega
  have hgate := initTables_gate symbol ignoreIsrHandler s hvector
  rw [← hidt, vectorGate_of_le (Nat.le_add_right_of_le (by decide)), if_neg (by omega)] at hgate
  exact @leadsTo_iff _ _ _ _ .ignoreIsr _ trivial he hgate (by rfl)

/-- Once the interrupts are set up, an interrupt of a pin reaches the handler registered last
for its number exactly for the 22 numbers that `irq_init` declares. For the other numbers of
the handler table the handler is stored and the pin unmasked, but its vector leads to
`_ignore_isr`. -/
theorem pin_reaches_iff (symbol : Symbols) (ignoreIsrHandler : Handler) (s : Tables Handler)
    {irq : BitVec 64} {handler : Handler} {before after : List (BitVec 64 × Option Handler)}
    (hcalls : ∀ call ∈ before ++ (irq, some handler) :: after, call.1.toNat < maxIrq)
    (hlast : ∀ call ∈ after, call.1 ≠ irq) (hpin : irq.toNat ≤ lastEntry s.irq.ioApic) :
    let t := (before ++ (irq, some handler) :: after).foldl Tables.register
      (initTables symbol ignoreIsrHandler s)
    (PinReaches symbol ignoreIsrHandler t irq.toNat handler ↔ irq.toNat < 22) ∧
      (22 ≤ irq.toNat →
        t.irq.irqHandler irq.toNat = some handler ∧
          (pinOf (redirection t.irq.ioApic irq.toNat)).masked = 0 ∧
          LeadsTo symbol t.idt (pinOf (redirection t.irq.ioApic irq.toNat)).vector
            .ignoreIsr) := by
  intro t
  have hirq : irq.toNat < maxIrq := hcalls (irq, some handler) (by simp)
  obtain ⟨hhandler, dest, hentry⟩ :=
    @registers_last _ (initTables symbol ignoreIsrHandler s) irq (some handler) before after
      hcalls hlast hpin
  have hidt : t.idt = (initTables symbol ignoreIsrHandler s).idt := (registers_fixed hcalls).1
  simp only [PinReaches, t, hentry, true_and]
  constructor
  · rcases Nat.lt_or_ge irq.toNat 22 with hlt | hge
    · exact iff_of_true (reaches_of_declared hlt hidt hhandler) hlt
    · refine iff_of_false ?_ (by omega)
      rintro ⟨e, hdefined, hleads, hcall⟩
      obtain rfl := (leadsTo_ignoreIsr hirq hge hidt e hdefined).mp hleads
      -- `_ignore_isr` passes 255 on, which is no number of the table
      simp only [Entry.handlerCall, Option.some.injEq, Prod.mk.injEq] at hcall
      unfold maxIrq at hirq
      omega
  · intro hge
    exact ⟨hhandler, (leadsTo_ignoreIsr hirq hge hidt .ignoreIsr trivial).mpr rfl⟩

/-- Entry points eight bytes apart, in the order of the numbers and of the constructors. -/
def someSymbols : Symbols where
  addr e := .ofNat 64 <| 0x100000 + 8 * match e with
    | .irq nr => nr
    | .exception x => 32 + x.ctorIdx
    | .localTimerTest => 62
    | .ignoreIsr => 63
  injective := by
    have hindex : ∀ x : Exception, x.ctorIdx < 30 := by intro x; cases x <;> decide
    have hinj : ∀ x y : Exception, x.ctorIdx = y.ctorIdx → x = y := by
      intro x y
      cases x <;> cases y <;> simp [Exception.ctorIdx]
    intro e e' he he' h
    have hnat := congrArg BitVec.toNat h
    cases e <;> cases e'
    all_goals
      simp only [Entry.Defined, BitVec.toNat_ofNat] at he he' hnat
      grind

/-- The keyboard on an I/O APIC with 24 entries, registered behind the timer. -/
theorem keyboard_pin_reached :
    PinReaches someSymbols 0
      ([((16 : BitVec 64), some 1), (1, some 2)].foldl Tables.register
        (initTables someSymbols 0
          { idt := fun _ => ⟨0, 0, 0, 0, 0, 0⟩
            irq :=
              { irqHandler := fun _ => none, stored := [],
                ioApic := { index := 0, regs := fun _ => 0x00170011 } } })) 1 2 :=
  (@pin_reaches_iff _ someSymbols 0 _ 1 2 [(16, some 1)] [] (by decide) (by simp)
    (by decide)).1.mpr (by decide)

end Caos.Irq
