import Caos.Bitops
import Caos.Lib.Run

/-!
`spinlock.c`, for any number of CPUs that use one lock. Every CPU repeats `spin_lock`,
its critical section and `spin_unlock`; a schedule says which CPU performs its next
atomic step. The counter of `preempt_disable` does not affect the lock and is left out.
-/

namespace Caos

open Lib

/-- `SPIN_LOCK_UNLOCKED`. -/
def spinLockUnlocked : BitVec 64 := 1

/-- `SPIN_LOCK_LOCKED`. -/
def spinLockLocked : BitVec 64 := 0

/-- `raw_spin_trylock`: the result and the new lock word. The exchange is one byte wide.
`tmp` is an output-only operand, so its other seven bytes are those that the register
held before: `upper`. -/
def rawSpinTrylock (upper : BitVec 56) (slock : BitVec 64) : BitVec 64 × BitVec 64 :=
  (upper ++ slock.extractLsb' 0 8, slock.extractLsb' 8 56 ++ 0#8)

/-- `spin_is_locked`. -/
def spinIsLocked (bt : LockedBt) (slock : BitVec 64) : Option (BitVec 64) := testBit bt 0 slock

/-- Where a CPU stands. -/
inductive SpinPc where
  /-- outside of the lock functions and the critical section -/
  | remainder
  /-- in `spin_lock`, about to call `raw_spin_trylock` -/
  | trylock
  /-- in the inner loop of `spin_lock`, about to call `spin_is_locked` -/
  | wait
  /-- `spin_lock` has returned, `spin_unlock` has not set the bit yet -/
  | critical
  /-- in `jmp $` at the end of `_invalid_op` -/
  | stopped
  deriving DecidableEq, Repr

variable {ι : Type*} [DecidableEq ι]

/-- The lock word and the position of every CPU. -/
structure SpinState (ι : Type*) where
  slock : BitVec 64
  pc : ι → SpinPc

/-- The choice of the scheduler: a CPU, and what its register holds in the bytes that
the exchange does not write. -/
structure SpinTurn (ι : Type*) where
  cpu : ι
  upper : BitVec 56

def SpinState.goto (s : SpinState ι) (cpu : ι) (pc : SpinPc) : SpinState ι :=
  { s with pc := Function.update s.pc cpu pc }

/-- The next atomic step of a CPU. -/
def spinNext (bt : LockedBt) (s : SpinState ι) (t : SpinTurn ι) : SpinState ι :=
  match s.pc t.cpu with
  | .remainder => s.goto t.cpu .trylock
  | .trylock =>
    let (tmp, slock) := rawSpinTrylock t.upper s.slock
    { s with slock := slock }.goto t.cpu (if tmp = 0 then .wait else .critical)
  | .wait =>
    match spinIsLocked bt s.slock with
    | none => s.goto t.cpu .stopped
    | some locked => if locked = 0 then s.goto t.cpu .trylock else s
  | .critical => { s with slock := setBit 0 s.slock }.goto t.cpu .remainder
  | .stopped => s

/-- `spin_lock_init`, with every CPU outside. -/
def spinStart : SpinState ι where
  slock := spinLockUnlocked
  pc _ := .remainder

/-- At most one CPU is in its critical section. -/
def MutuallyExclusive (s : SpinState ι) : Prop :=
  ∀ i j, s.pc i = .critical → s.pc j = .critical → i = j

/-- No CPU is in the wait loop and would be kept there by its test although the lock is free. -/
def NoFreeWait (bt : LockedBt) (s : SpinState ι) : Prop :=
  ¬ (s.slock = spinLockUnlocked ∧
    ∃ i, s.pc i = .wait ∧ ∃ locked, spinIsLocked bt s.slock = some locked ∧ locked ≠ 0)

/-- The register of a CPU that exchanges a locked byte has zeros in the bytes that the
exchange does not write. -/
def CleanExchange (s : SpinState ι) (t : SpinTurn ι) : Prop :=
  s.pc t.cpu = .trylock → s.slock.extractLsb' 0 8 = 0 → t.upper = 0

/-- A CPU that unlocks does so while no CPU is in the wait loop. -/
def UnwaitedUnlock (s : SpinState ι) (t : SpinTurn ι) : Prop :=
  s.pc t.cpu = .critical → ∀ i, s.pc i ≠ .wait

/-! ## The steps on the two values of the lock word -/

theorem rawSpinTrylock_word (upper : BitVec 56) {slock : BitVec 64}
    (h : slock = spinLockUnlocked ∨ slock = spinLockLocked) :
    (rawSpinTrylock upper slock).2 = spinLockLocked := by
  rcases h with rfl | rfl <;> rfl

/-- The exchange on a free lock takes it, whatever the register holds. -/
theorem rawSpinTrylock_unlocked (upper : BitVec 56) :
    (rawSpinTrylock upper spinLockUnlocked).1 ≠ 0 := by
  intro h
  have hbit := congrArg (fun x : BitVec 64 => x.getLsbD 0) h
  simp only [rawSpinTrylock] at hbit
  rw [BitVec.getLsbD_append] at hbit
  simp [spinLockUnlocked] at hbit

/-- The exchange on a locked lock fails only if the register is clean. -/
theorem rawSpinTrylock_locked (upper : BitVec 56) :
    (rawSpinTrylock upper spinLockLocked).1 = 0 ↔ upper = 0 := by
  constructor
  · intro h
    apply BitVec.eq_of_getLsbD_eq
    intro i hi
    have hbit := congrArg (fun x : BitVec 64 => x.getLsbD (i + 8)) h
    simp only [rawSpinTrylock] at hbit
    rw [BitVec.getLsbD_append] at hbit
    simpa using hbit
  · rintro rfl
    rfl

theorem setBit_locked : setBit 0 spinLockLocked = spinLockUnlocked := by
  decide

theorem setBit_unlocked : setBit 0 spinLockUnlocked = spinLockUnlocked := by
  decide

/-- The bit test calls the free lock locked. -/
theorem spinIsLocked_unlocked : spinIsLocked .executed spinLockUnlocked = some (.allOnes 64) := by
  decide

theorem unlocked_ne_locked : spinLockUnlocked ≠ spinLockLocked := by
  decide

section Steps

variable {bt : LockedBt} {s : SpinState ι} {t : SpinTurn ι}

@[simp] theorem goto_slock (cpu : ι) (pc : SpinPc) : (s.goto cpu pc).slock = s.slock := rfl

theorem goto_pc (cpu : ι) (pc : SpinPc) (i : ι) :
    (s.goto cpu pc).pc i = if i = cpu then pc else s.pc i := by
  simp only [SpinState.goto, Function.update_apply]

theorem spinNext_remainder (h : s.pc t.cpu = .remainder) :
    spinNext bt s t = s.goto t.cpu .trylock := by
  simp only [spinNext, h]

theorem spinNext_trylock (h : s.pc t.cpu = .trylock) :
    spinNext bt s t = { s with slock := (rawSpinTrylock t.upper s.slock).2 }.goto t.cpu
      (if (rawSpinTrylock t.upper s.slock).1 = 0 then .wait else .critical) := by
  simp only [spinNext, h]

/-- A test leaves the lock word alone, and its CPU stays, tries again or stops. -/
theorem spinNext_wait (h : s.pc t.cpu = .wait) :
    spinNext bt s t = s ∨ ∃ pc, (pc = .trylock ∨ pc = .stopped) ∧
      spinNext bt s t = s.goto t.cpu pc := by
  simp only [spinNext, h]
  split
  · exact .inr ⟨.stopped, .inr rfl, rfl⟩
  · split
    · exact .inr ⟨.trylock, .inl rfl, rfl⟩
    · exact .inl rfl

theorem spinNext_critical (h : s.pc t.cpu = .critical) :
    spinNext bt s t = { s with slock := setBit 0 s.slock }.goto t.cpu .remainder := by
  simp only [spinNext, h]

theorem spinNext_stopped (h : s.pc t.cpu = .stopped) : spinNext bt s t = s := by
  simp only [spinNext, h]

end Steps

end Caos
