import Caos.Lib.SavedRegisters

/-!
The entry points of `irq_entry.asm` and `except_entry.asm`, up to the call of the
handler and from its return on. Both files have their own copy of `SAVE_ALL` and
`RESTORE_ALL`.
-/

namespace Caos.Irq

open Lib

/-- The registers the macros save. -/
inductive Reg
  | rax | rbx | rcx | rdx | rsi | rdi | rbp
  | r8 | r9 | r10 | r11 | r12 | r13 | r14 | r15
  | fs | gs
  deriving DecidableEq, Repr

/-- A selector has 16 bits. -/
def Reg.width : Reg → Nat
  | .fs | .gs => 16
  | _ => 64

/-- `push` widens a selector with zeros, `pop` keeps its low bits. -/
def registers : RegisterFile ((r : Reg) → BitVec r.width) Reg where
  get regs r := (regs r).setWidth 64
  set regs r v := Function.update regs r (v.setWidth r.width)
  keep r v := (v.setWidth r.width).setWidth 64
  get_set := by simp
  get_set_of_ne := by
    intro regs r r' v hne
    simp [Function.update_of_ne hne]

/-- The registers and the stack; `sp` is `rsp`. -/
structure Cpu extends WordStack where
  regs : (r : Reg) → BitVec r.width

/-- The instructions of the entry points. -/
inductive Instr
  | push (r : Reg)
  | pushImm (v : BitVec 64)
  | pop (r : Reg)
  | movImm (r : Reg) (v : BitVec 64)
  | load (r : Reg) (offset : Nat)
  | addRsp (n : Nat)

/-- The effect of an instruction; `load` is `mov r, [rsp+offset]`. -/
def exec (s : Cpu) : Instr → Cpu
  | .push r => { s with toWordStack := s.push (registers.get s.regs r) }
  | .pushImm v => { s with toWordStack := s.push v }
  | .pop r => { toWordStack := s.drop 1, regs := registers.set s.regs r (s.word 0) }
  | .movImm r v => { s with regs := registers.set s.regs r v }
  | .load r offset =>
    { s with regs := registers.set s.regs r (s.mem (s.sp + BitVec.ofNat 64 offset)) }
  | .addRsp n => { s with sp := s.sp + BitVec.ofNat 64 n }

def execAll (s : Cpu) (code : List Instr) : Cpu := code.foldl exec s

namespace IrqEntry

/-- `SAVE_ALL` of `irq_entry.asm`. -/
def saveAll : List Instr :=
  [.push .rax, .push .rbx, .push .rcx, .push .rdx,
    .push .rsi, .push .rdi, .push .rbp,
    .push .r8, .push .r9, .push .r10, .push .r11, .push .r12, .push .r13, .push .r14, .push .r15,
    .push .fs, .push .gs]

/-- `RESTORE_ALL` of `irq_entry.asm`. -/
def restoreAll : List Instr :=
  [.pop .fs, .pop .gs,
    .pop .r15, .pop .r14, .pop .r13, .pop .r12, .pop .r11, .pop .r10, .pop .r9, .pop .r8,
    .pop .rbp, .pop .rdi, .pop .rsi,
    .pop .rdx, .pop .rcx, .pop .rbx, .pop .rax]

end IrqEntry

namespace ExceptEntry

/-- `SAVE_ALL` of `except_entry.asm`. -/
def saveAll : List Instr :=
  [.push .rax, .push .rbx, .push .rcx, .push .rdx,
    .push .rsi, .push .rdi, .push .rbp,
    .push .r8, .push .r9, .push .r10, .push .r11, .push .r12, .push .r13, .push .r14, .push .r15,
    .push .fs, .push .gs]

/-- `RESTORE_ALL` of `except_entry.asm`. -/
def restoreAll : List Instr :=
  [.pop .fs, .pop .gs,
    .pop .r15, .pop .r14, .pop .r13, .pop .r12, .pop .r11, .pop .r10, .pop .r9, .pop .r8,
    .pop .rbp, .pop .rdi, .pop .rsi,
    .pop .rdx, .pop .rcx, .pop .rbx, .pop .rax]

/-- `_ERROR`. -/
def errorOffset : Nat := 17 * 8

/-- `_RIP`. -/
def ripOffset : Nat := 18 * 8

end ExceptEntry

/-- The entry points of the exceptions. -/
inductive Exception
  | divideError | debug | nmi | int3 | overflow | bounds | invalidOp | deviceNotAvailable
  | doublefaultFn | coprocessorSegmentOverrun | invalidTSS | segmentNotPresent | stackSegment
  | generalProtection | pageFault | coprocessorError | alignmentCheck | machineCheck
  | simdCoprocessorError
  deriving DecidableEq, Repr

/-- Whether the entry point pushes a 0 in place of an error code. -/
def Exception.pushesZero : Exception → Bool
  | .divideError | .debug | .nmi | .int3 | .overflow | .bounds | .invalidOp
  | .deviceNotAvailable | .doublefaultFn | .coprocessorSegmentOverrun
  | .coprocessorError | .machineCheck | .simdCoprocessorError => true
  | .invalidTSS | .segmentNotPresent | .stackSegment | .generalProtection | .pageFault
  | .alignmentCheck => false

/-- An entry point: `IRQ_ENTRY` with a number, an exception, `_local_timer_test` or
`_ignore_isr`. -/
inductive Entry
  | irq (nr : Nat)
  | exception (x : Exception)
  | localTimerTest
  | ignoreIsr
  deriving DecidableEq, Repr

/-- The code before the call of the handler. -/
def Entry.before : Entry → List Instr
  | .irq nr => IrqEntry.saveAll ++ [.movImm .rdi (.ofNat 64 nr)]
  | .exception x =>
    (if x.pushesZero then [.pushImm 0] else []) ++ ExceptEntry.saveAll ++
      [.load .rdi ExceptEntry.errorOffset, .load .rsi ExceptEntry.ripOffset]
  | .localTimerTest =>
    ExceptEntry.saveAll ++
      [.load .rdi ExceptEntry.errorOffset, .load .rsi ExceptEntry.ripOffset]
  | .ignoreIsr => IrqEntry.saveAll ++ [.movImm .rdi 0xff]

/-- The code after the call. -/
def Entry.after : Entry → List Instr
  | .irq _ => IrqEntry.restoreAll
  | .exception _ => ExceptEntry.restoreAll ++ [.addRsp 8]
  | .localTimerTest => ExceptEntry.restoreAll
  | .ignoreIsr => IrqEntry.restoreAll

/-- Whether the code ends with `iretq`. The other exceptions end with `jmp $`. -/
def Entry.returns : Entry → Bool
  | .exception x => x = .generalProtection
  | _ => true

/-- The registers in the order the macros push them. -/
def saveOrder : List Reg :=
  [.rax, .rbx, .rcx, .rdx, .rsi, .rdi, .rbp,
    .r8, .r9, .r10, .r11, .r12, .r13, .r14, .r15, .fs, .gs]

/-- The registers in the order the macros pop them. -/
def restoreOrder : List Reg :=
  [.fs, .gs, .r15, .r14, .r13, .r12, .r11, .r10, .r9, .r8,
    .rbp, .rdi, .rsi, .rdx, .rcx, .rbx, .rax]

/-- The register whose saved value a register gets back. -/
def Reg.source : Reg → Reg
  | .fs => .gs
  | .gs => .fs
  | r => r

theorem execAll_append (s : Cpu) (first second : List Instr) :
    execAll s (first ++ second) = execAll (execAll s first) second := List.foldl_append

/-- A series of pushes leaves the registers alone. -/
theorem execAll_push (rs : List Reg) (s : Cpu) :
    execAll s (rs.map .push) =
      { s with toWordStack := s.pushAll (rs.map (registers.get s.regs)) } := by
  induction rs generalizing s with
  | nil => rfl
  | cons r rs ih => exact ih _

/-- A series of pops loads the registers from the stack. -/
theorem execAll_pop (rs : List Reg) (s : Cpu) :
    (execAll s (rs.map .pop)).regs = registers.load rs s.regs s.toWordStack := by
  induction rs generalizing s with
  | nil => rfl
  | cons r rs ih => exact ih _

theorem irqSaveAll_eq : IrqEntry.saveAll = saveOrder.map .push := rfl

theorem exceptSaveAll_eq : ExceptEntry.saveAll = saveOrder.map .push := rfl

theorem irqRestoreAll_eq : IrqEntry.restoreAll = restoreOrder.map .pop := rfl

theorem exceptRestoreAll_eq : ExceptEntry.restoreAll = restoreOrder.map .pop := rfl

/-- What the exceptions load before the call leaves the stack alone. -/
theorem stack_loads (s : Cpu) (first second : Nat) :
    (execAll s [.load .rdi first, .load .rsi second]).toWordStack = s.toWordStack := rfl

theorem stack_movImm (s : Cpu) (v : BitVec 64) :
    (execAll s [.movImm .rdi v]).toWordStack = s.toWordStack := rfl

theorem regs_addRsp (s : Cpu) (n : Nat) : (execAll s [.addRsp n]).regs = s.regs := rfl

/-- At the call, the registers of the interrupted code lie on the stack. -/
theorem execAll_before (e : Entry) (s : Cpu) :
    ∃ st : WordStack, (execAll s e.before).toWordStack =
      st.pushAll (saveOrder.map (registers.get s.regs)) := by
  cases e with
  | irq nr =>
      refine ⟨s.toWordStack, ?_⟩
      rw [Entry.before, execAll_append, stack_movImm, irqSaveAll_eq, execAll_push]
  | exception x =>
      rw [Entry.before, execAll_append, execAll_append, stack_loads, exceptSaveAll_eq,
        execAll_push]
      cases x.pushesZero with
      | false => exact ⟨s.toWordStack, rfl⟩
      | true => exact ⟨s.push 0, rfl⟩
  | localTimerTest =>
      refine ⟨s.toWordStack, ?_⟩
      rw [Entry.before, execAll_append, stack_loads, exceptSaveAll_eq, execAll_push]
  | ignoreIsr =>
      refine ⟨s.toWordStack, ?_⟩
      rw [Entry.before, execAll_append, stack_movImm, irqSaveAll_eq, execAll_push]

/-- The code before the call changes the argument registers only. -/
theorem regs_before (e : Entry) (s : Cpu) {r : Reg} (hrdi : r ≠ .rdi) (hrsi : r ≠ .rsi) :
    (execAll s e.before).regs r = s.regs r := by
  have hmov : ∀ (s : Cpu) v, (execAll s [.movImm .rdi v]).regs r = s.regs r :=
    fun _ _ => Function.update_of_ne hrdi _ _
  have hloads : ∀ (s : Cpu) first second,
      (execAll s [.load .rdi first, .load .rsi second]).regs r = s.regs r :=
    fun _ _ _ => (Function.update_of_ne hrsi _ _).trans (Function.update_of_ne hrdi _ _)
  cases e with
  | irq nr => rw [Entry.before, execAll_append, hmov, irqSaveAll_eq, execAll_push]
  | exception x =>
      rw [Entry.before, execAll_append, execAll_append, hloads, exceptSaveAll_eq, execAll_push]
      cases x.pushesZero <;> rfl
  | localTimerTest => rw [Entry.before, execAll_append, hloads, exceptSaveAll_eq, execAll_push]
  | ignoreIsr => rw [Entry.before, execAll_append, hmov, irqSaveAll_eq, execAll_push]

/-- After the call, the registers are loaded from the stack. -/
theorem execAll_after (e : Entry) (s : Cpu) :
    (execAll s e.after).regs = registers.load restoreOrder s.regs s.toWordStack := by
  cases e with
  | irq nr => rw [Entry.after, irqRestoreAll_eq, execAll_pop]
  | exception x =>
      rw [Entry.after, execAll_append, regs_addRsp, exceptRestoreAll_eq, execAll_pop]
  | localTimerTest => rw [Entry.after, exceptRestoreAll_eq, execAll_pop]
  | ignoreIsr => rw [Entry.after, irqRestoreAll_eq, execAll_pop]

/-- Restoring mirrors saving but for the exchange of `fs` and `gs`. -/
theorem saveOrder_reverse : saveOrder.reverse = restoreOrder.map Reg.source := rfl

/-- Once the handler has returned with the saved words untouched, each register holds
what its source held at the entry. -/
theorem restored_get {e : Entry} {s s' : Cpu}
    (hframe : ∀ i < saveOrder.length, s'.word i = (execAll s e.before).word i) (r : Reg) :
    registers.get (execAll s' e.after).regs r =
      registers.keep r (registers.get s.regs r.source) := by
  obtain ⟨st, hstack⟩ := execAll_before e s
  rw [hstack] at hframe
  have hnodup : restoreOrder.Nodup := by decide
  have hshort : saveOrder.length < 2 ^ 61 := by norm_num [saveOrder]
  have hmem : r ∈ restoreOrder := by cases r <;> decide
  obtain ⟨i, hr⟩ := List.getElem?_of_mem hmem
  have hsource : saveOrder.reverse[i]? = some r.source := by
    rw [saveOrder_reverse, List.getElem?_map, hr, Option.map_some]
  rw [execAll_after]
  exact registers.get_load_saved hnodup hshort hframe hr hsource

@[simp] theorem toNat_registers_get (regs : (r : Reg) → BitVec r.width) (r : Reg) :
    (registers.get regs r).toNat = (regs r).toNat := by
  have hwidth : r.width ≤ 64 := by cases r <;> decide
  exact BitVec.toNat_setWidth_of_le hwidth

/-- A register is known by what it pushes. -/
theorem registers_get_inj {r : Reg} {regs regs' : (r : Reg) → BitVec r.width} :
    registers.get regs r = registers.get regs' r ↔ regs r = regs' r := by
  refine ⟨fun h => ?_, fun h => congrArg (BitVec.setWidth 64) h⟩
  have hnat := congrArg BitVec.toNat h
  rw [toNat_registers_get, toNat_registers_get] at hnat
  exact BitVec.eq_of_toNat_eq hnat

/-- A register keeps what it pushed itself. -/
theorem registers_keep_get (regs : (r : Reg) → BitVec r.width) (r : Reg) :
    registers.keep r (registers.get regs r) = registers.get regs r := by
  have hwidth : r.width ≤ 64 := by cases r <;> decide
  simp only [registers, BitVec.setWidth_setWidth_of_le _ hwidth, BitVec.setWidth_eq]

/-- All registers have their values back exactly when `fs` and `gs` were equal. -/
theorem restored_iff {e : Entry} {s s' : Cpu}
    (hframe : ∀ i < saveOrder.length, s'.word i = (execAll s e.before).word i) :
    (∀ r, (execAll s' e.after).regs r = s.regs r) ↔ s.regs .fs = s.regs .gs := by
  have hget := @restored_get e s s' hframe
  constructor
  · intro hall
    have hfs := hget .fs
    rw [registers_get_inj.mpr (hall .fs)] at hfs
    -- `fs` is loaded with the selector of `gs`
    have hgs := hfs.trans (registers_keep_get s.regs .gs)
    have hnat := congrArg BitVec.toNat hgs
    rw [toNat_registers_get, toNat_registers_get] at hnat
    exact BitVec.eq_of_toNat_eq hnat
  · intro heq r
    apply registers_get_inj.mp
    rw [hget r]
    have hsource : registers.get s.regs r.source = registers.get s.regs r := by
      cases r with
      | fs => exact congrArg (BitVec.setWidth 64) heq.symm
      | gs => exact congrArg (BitVec.setWidth 64) heq
      | _ => rfl
    rw [hsource, registers_keep_get]

end Caos.Irq
