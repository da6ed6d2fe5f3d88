import Caos.Smp.Spinlock

/-!
The wait loop of `spin_lock`. `spin_is_locked` tests bit 0, which is set while the lock
is free, so a CPU stays in the loop exactly when it should leave. It gets there when an
unlock falls between its failed exchange and its next test. A processor that does not execute
the test stops there.
-/

namespace Caos

open Lib

variable {ι : Type*} [DecidableEq ι]

/-- The lock word has one of its two values, and no CPU waits while it is free. -/
structure WaitInv (s : SpinState ι) : Prop where
  word : s.slock = spinLockUnlocked ∨ s.slock = spinLockLocked
  locked : ∀ i, s.pc i = .wait → s.slock = spinLockLocked

section

variable {bt : LockedBt} {s : SpinState ι} {t : SpinTurn ι}

omit [DecidableEq ι] in
/-- A test that is not executed keeps nobody in the loop. -/
theorem noFreeWait_invalidOpcode (s : SpinState ι) : NoFreeWait .invalidOpcode s := by
  rintro ⟨-, i, -, locked, htest, -⟩
  cases htest

omit [DecidableEq ι] in
/-- With the bit test as it is, the wait at a free lock is never left. -/
theorem noFreeWait_executed :
    NoFreeWait .executed s ↔ (s.slock = spinLockUnlocked → ∀ i, s.pc i ≠ .wait) := by
  constructor
  · intro h hword i hi
    exact h ⟨hword, i, hi, _, hword ▸ spinIsLocked_unlocked, by decide⟩
  · rintro h ⟨hword, i, hi, _⟩
    exact h hword i hi

omit [DecidableEq ι] in
theorem WaitInv.noFreeWait (h : WaitInv s) : NoFreeWait .executed s := by
  rw [noFreeWait_executed]
  intro hword i hi
  exact unlocked_ne_locked (hword.symm.trans (h.locked i hi))

theorem spinNext_word (h : s.slock = spinLockUnlocked ∨ s.slock = spinLockLocked) :
    (spinNext bt s t).slock = spinLockUnlocked ∨ (spinNext bt s t).slock = spinLockLocked := by
  cases hpc : s.pc t.cpu with
  | remainder =>
      rw [spinNext_remainder hpc]
      exact h
  | trylock =>
      rw [spinNext_trylock hpc]
      exact .inr (rawSpinTrylock_word t.upper h)
  | wait =>
      rcases @spinNext_wait _ _ bt s t hpc with hstay | ⟨pc, -, hgo⟩
      · rw [hstay]
        exact h
      · rw [hgo]
        exact h
  | critical =>
      rw [spinNext_critical hpc]
      rcases h with h | h
      · exact .inl (by rw [goto_slock, h]; exact setBit_unlocked)
      · exact .inl (by rw [goto_slock, h]; exact setBit_locked)
  | stopped =>
      rw [spinNext_stopped hpc]
      exact h

/-- An unlock that no CPU waits for keeps the invariant, and so does every other step. -/
theorem WaitInv.next (h : WaitInv s) (hunlock : UnwaitedUnlock s t) :
    WaitInv (spinNext bt s t) := by
  refine ⟨spinNext_word h.word, ?_⟩
  intro i hi
  cases hpc : s.pc t.cpu with
  | remainder =>
      rw [spinNext_remainder hpc] at hi ⊢
      rw [goto_pc] at hi
      split at hi
      · cases hi
      · exact h.locked i hi
  | trylock =>
      rw [spinNext_trylock hpc]
      exact rawSpinTrylock_word t.upper h.word
  | wait =>
      have hlocked := h.locked t.cpu hpc
      rcases @spinNext_wait _ _ bt s t hpc with hstay | ⟨pc, -, hgo⟩
      · rw [hstay]
        exact hlocked
      · rw [hgo]
        exact hlocked
  | critical =>
      rw [spinNext_critical hpc, goto_pc] at hi
      split at hi
      · cases hi
      · exact absurd hi (hunlock hpc i)
  | stopped =>
      rw [spinNext_stopped hpc] at hi ⊢
      exact h.locked i hi

/-- After an unlock the word is free, so nobody may be waiting. -/
theorem WaitInv.unwaited (h : WaitInv s) (hnext : NoFreeWait .executed (spinNext .executed s t)) :
    UnwaitedUnlock s t := by
  intro hpc i hi
  rw [noFreeWait_executed, spinNext_critical hpc] at hnext
  have hword : setBit 0 s.slock = spinLockUnlocked := by
    rcases h.word with hword | hword
    · rw [hword]
      exact setBit_unlocked
    · rw [hword]
      exact setBit_locked
  apply hnext hword i
  rw [goto_pc, if_neg]
  · exact hi
  · rintro rfl
    rw [hpc] at hi
    cases hi

end

/-- Where the test is executed, every state is free of such waits exactly if nobody waits at
an unlock. -/
theorem no_free_wait_executed (schedule : List (SpinTurn ι)) :
    EveryStep (spinNext .executed) (fun s t => NoFreeWait .executed (spinNext .executed s t))
        spinStart schedule ↔
      EveryStep (spinNext .executed) UnwaitedUnlock spinStart schedule := by
  apply EveryStep.iff_of_invariant (J := WaitInv)
  · exact ⟨.inl rfl, fun i h => by cases h⟩
  · intro s t hs
    exact ⟨hs.unwaited, fun hunlock => (hs.next hunlock).noFreeWait⟩
  · intro s t hs hunlock
    exact hs.next hunlock

/-- For any number of CPUs and every schedule: no state is reached in which a CPU would be
kept waiting for a free lock exactly when the processor does not execute a `bt` with the
prefix `lock`, or every unlock happens while no CPU is in the wait loop. -/
theorem no_free_wait_iff (bt : LockedBt) (schedule : List (SpinTurn ι)) :
    EveryStep (spinNext bt) (fun s t => NoFreeWait bt (spinNext bt s t)) spinStart schedule ↔
      bt = .invalidOpcode ∨ EveryStep (spinNext bt) UnwaitedUnlock spinStart schedule := by
  cases bt with
  | invalidOpcode =>
      refine iff_of_true ?_ (.inl rfl)
      exact everyStep_of_forall fun s t => noFreeWait_invalidOpcode _
  | executed =>
      rw [no_free_wait_executed, or_iff_right (by decide)]

/-- One CPU takes the lock, another fails to, and the first one unlocks. -/
def missedUnlock : List (SpinTurn Bool) :=
  [⟨false, 0⟩, ⟨false, 0⟩, ⟨true, 0⟩, ⟨true, 0⟩, ⟨false, 0⟩]

theorem waits_for_free_lock :
    ¬ EveryStep (spinNext .executed) (fun s t => NoFreeWait .executed (spinNext .executed s t))
      spinStart missedUnlock := by
  rintro ⟨_, _, _, _, hlast, _⟩
  exact hlast ⟨by decide, true, by decide, .allOnes 64, by decide, by decide⟩

end Caos
