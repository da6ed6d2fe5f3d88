import Caos.Smp.Spinlock

/-!
Mutual exclusion of the spinlock. The lock word is free exactly when no CPU is in its
critical section, as long as no exchange on the locked word meets a register with
non-zero bytes above the one it writes; the first such exchange lets a second CPU in.
-/

namespace Caos

open Lib

variable {ι : Type*} [DecidableEq ι]

/-- The lock word and the CPUs agree on who holds the lock. -/
inductive LockHeld (s : SpinState ι) : Prop where
  | free (word : s.slock = spinLockUnlocked) (nobody : ∀ i, s.pc i ≠ .critical)
  | held (word : s.slock = spinLockLocked) (i : ι) (holder : s.pc i = .critical)
      (only : ∀ j, s.pc j = .critical → j = i)

section

variable {bt : LockedBt} {s : SpinState ι} {t : SpinTurn ι}

omit [DecidableEq ι] in
theorem LockHeld.exclusive (h : LockHeld s) : MutuallyExclusive s := by
  intro i j hi hj
  cases h with
  | free _ nobody => exact absurd hi (nobody i)
  | held _ k _ only => exact (only i hi).trans (only j hj).symm

omit [DecidableEq ι] in
theorem LockHeld.word (h : LockHeld s) :
    s.slock = spinLockUnlocked ∨ s.slock = spinLockLocked := by
  cases h with
  | free word _ => exact .inl word
  | held word _ _ _ => exact .inr word

/-- A CPU that moves between positions outside of the critical section changes nothing. -/
theorem LockHeld.goto (h : LockHeld s) {cpu : ι} {pc : SpinPc} (hfrom : s.pc cpu ≠ .critical)
    (hto : pc ≠ .critical) : LockHeld (s.goto cpu pc) := by
  have hpc : ∀ i, (s.goto cpu pc).pc i = .critical ↔ s.pc i = .critical := by
    intro i
    rw [goto_pc]
    split
    · next heq => exact iff_of_false hto (heq ▸ hfrom)
    · exact Iff.rfl
  cases h with
  | free word nobody => exact .free word fun i hi => nobody i ((hpc i).mp hi)
  | held word i holder only =>
      exact .held word i ((hpc i).mpr holder) fun j hj => only j ((hpc j).mp hj)

/-- A clean step keeps the agreement. -/
theorem LockHeld.next (h : LockHeld s) (hclean : CleanExchange s t) :
    LockHeld (spinNext bt s t) := by
  cases hpc : s.pc t.cpu with
  | remainder =>
      rw [spinNext_remainder hpc]
      exact h.goto (by rw [hpc]; decide) (by decide)
  | trylock =>
      rw [spinNext_trylock hpc, rawSpinTrylock_word t.upper h.word]
      have hnot : s.pc t.cpu ≠ .critical := by
        rw [hpc]
        decide
      cases h with
      | free word nobody =>
          rw [word, if_neg (rawSpinTrylock_unlocked t.upper)]
          apply LockHeld.held rfl t.cpu
          · rw [goto_pc, if_pos rfl]
          · intro j hj
            rw [goto_pc] at hj
            by_contra hne
            rw [if_neg hne] at hj
            exact nobody j hj
      | held word i holder only =>
          have hupper : t.upper = 0 := hclean hpc (by rw [word]; rfl)
          rw [word, if_pos ((rawSpinTrylock_locked t.upper).mpr hupper)]
          have hsame : LockHeld { s with slock := spinLockLocked } := .held rfl i holder only
          exact hsame.goto hnot (by decide)
  | wait =>
      rcases @spinNext_wait _ _ bt s t hpc with hstay | ⟨pc, hto, hgo⟩
      · rw [hstay]
        exact h
      · rw [hgo]
        exact h.goto (by rw [hpc]; decide) (by rcases hto with rfl | rfl <;> decide)
  | critical =>
      rw [spinNext_critical hpc]
      cases h with
      | free word nobody => exact absurd hpc (nobody t.cpu)
      | held word i holder only =>
          apply LockHeld.free
          · rw [goto_slock, word]
            exact setBit_locked
          · intro j hj
            rw [goto_pc] at hj
            split at hj
            · cases hj
            · next hne => exact hne ((only j hj).trans (only t.cpu hpc).symm)
  | stopped =>
      rw [spinNext_stopped hpc]
      exact h

/-- An exchange on the locked word with a dirty register lets a second CPU in. -/
theorem LockHeld.clean (h : LockHeld s) (hexclusive : MutuallyExclusive (spinNext bt s t)) :
    CleanExchange s t := by
  intro hpc hbyte
  cases h with
  | free word nobody =>
      rw [word] at hbyte
      exact absurd hbyte (by decide)
  | held word i holder only =>
      by_contra hupper
      have hne : i ≠ t.cpu := by
        rintro rfl
        rw [hpc] at holder
        cases holder
      rw [spinNext_trylock hpc, word,
        if_neg (fun h => hupper ((rawSpinTrylock_locked t.upper).mp h))] at hexclusive
      apply hne
      apply hexclusive
      · rw [goto_pc, if_neg hne]
        exact holder
      · rw [goto_pc, if_pos rfl]

end

/-- For any number of CPUs and every schedule: at most one CPU is in its critical section
after every step exactly when every exchange on the locked word is clean. -/
theorem mutual_exclusion_iff (bt : LockedBt) (schedule : List (SpinTurn ι)) :
    EveryStep (spinNext bt) (fun s t => MutuallyExclusive (spinNext bt s t)) spinStart schedule ↔
      EveryStep (spinNext bt) CleanExchange spinStart schedule := by
  apply EveryStep.iff_of_invariant (J := LockHeld)
  · exact .free rfl fun i h => by cases h
  · intro s t hs
    exact ⟨hs.clean, fun hclean => (hs.next hclean).exclusive⟩
  · intro s t hs hclean
    exact hs.next hclean

/-- The second of two CPUs exchanges with a register that is not clean, and enters. -/
def dirtySchedule : List (SpinTurn Bool) :=
  [⟨false, 0⟩, ⟨false, 0⟩, ⟨true, 0⟩, ⟨true, 1⟩]

theorem both_critical :
    ¬ EveryStep (spinNext .invalidOpcode)
      (fun s t => MutuallyExclusive (spinNext .invalidOpcode s t)) spinStart dirtySchedule := by
  rintro ⟨_, _, _, hlast, _⟩
  have hsame := hlast false true (by decide) (by decide)
  cases hsame

end Caos
