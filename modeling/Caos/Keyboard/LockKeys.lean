import Caos.Keyboard.Modifiers

/-!
What is typed with the NumLock and ScrollLock presses left out. Their bits are masked out
of every row of `scan_to_ascii` but the normal one, which is chosen by `key.status == 0`.
-/

namespace Caos

open Lib

/-- A press of NumLock or ScrollLock. -/
def IsLockPress (scan : UInt8) : Prop := scan = scanNumlock ∨ scan = scanScrolllock

instance : DecidablePred IsLockPress := fun _ => inferInstanceAs (Decidable (_ ∨ _))

/-- What is left of a status word without the two lock keys. -/
def withoutLocks (status : BitVec 64) : BitVec 64 :=
  status &&& ~~~(mkNumlock ||| mkScrolllock)

/-- A key that prints a character is not pressed while one of the two lock keys is on and
no other modifier is. -/
def Typable (key : Keyboard) (scan : UInt8) : Prop :=
  Pressed scan → scan ≠ scanEnter → scan ≠ scanBackspace →
    withoutLocks key.status = 0 → key.status = 0

/-- The status of the run without the lock keys. -/
def SameButLocks (key key' : Keyboard) : Prop := key'.status = withoutLocks key.status

section Masks

variable {status m : BitVec 64} {scan : UInt8}

theorem withoutLocks_or :
    withoutLocks (status ||| m) = withoutLocks status ||| withoutLocks m :=
  BitVec.and_or_distrib_right

theorem withoutLocks_xor :
    withoutLocks (status ^^^ m) = withoutLocks status ^^^ withoutLocks m := by
  unfold withoutLocks
  apply BitVec.eq_of_getLsbD_eq
  intro i _
  simp only [BitVec.getLsbD_and, BitVec.getLsbD_xor, Bool.and_xor_distrib_right]

theorem withoutLocks_and : withoutLocks (status &&& m) = withoutLocks status &&& m := by
  unfold withoutLocks
  rw [BitVec.and_assoc, BitVec.and_comm m, BitVec.and_assoc]

/-- The other modifiers are tested as before. -/
theorem withoutLocks_and_eq (h : withoutLocks m = m) :
    withoutLocks status &&& m = status &&& m := by
  rw [← withoutLocks_and, withoutLocks, BitVec.and_assoc]
  exact congrArg (status &&& ·) h

theorem withoutLocks_mkCapslock : withoutLocks mkCapslock = mkCapslock := by decide

theorem withoutLocks_mkShift : withoutLocks mkShift = mkShift := by decide

theorem withoutLocks_mkCtrl : withoutLocks mkCtrl = mkCtrl := by decide

theorem withoutLocks_mkAlt : withoutLocks mkAlt = mkAlt := by decide

theorem map_getD_ite {α β : Type*} {f : α → β} {p : Prop} [Decidable p] {a s : α} {b t : β}
    {rest : Option α} {rest' : Option β} (ha : f a = b)
    (hrest : f (rest.getD s) = rest'.getD t) :
    f ((if p then some a else rest).getD s) = (if p then some b else rest').getD t := by
  split
  · exact ha
  · exact hrest

theorem withoutLocks_nextStatus (h : ¬ IsLockPress scan) :
    withoutLocks (nextStatus scan status) = nextStatus scan (withoutLocks status) := by
  have hnumlock : scan ≠ scanNumlock := fun heq => h (.inl heq)
  have hscrolllock : scan ≠ scanScrolllock := fun heq => h (.inr heq)
  unfold nextStatus changeStatus
  simp only [if_neg hnumlock, if_neg hscrolllock]
  apply map_getD_ite (withoutLocks_xor.trans (by rw [withoutLocks_mkCapslock]))
  apply map_getD_ite (withoutLocks_or.trans (by rw [withoutLocks_mkShift]))
  apply map_getD_ite withoutLocks_and
  apply map_getD_ite (withoutLocks_or.trans (by rw [withoutLocks_mkCtrl]))
  apply map_getD_ite withoutLocks_and
  apply map_getD_ite (withoutLocks_or.trans (by rw [withoutLocks_mkAlt]))
  apply map_getD_ite withoutLocks_and
  rfl

theorem withoutLocks_lockPress (h : IsLockPress scan) :
    withoutLocks (nextStatus scan status) = withoutLocks status := by
  have hnumlock : withoutLocks mkNumlock = 0 := by decide
  have hscrolllock : withoutLocks mkScrolllock = 0 := by decide
  obtain rfl | rfl := h
  · exact withoutLocks_xor.trans (by rw [hnumlock, BitVec.ofNat_eq_ofNat, BitVec.xor_zero])
  · exact withoutLocks_xor.trans (by rw [hscrolllock, BitVec.ofNat_eq_ofNat, BitVec.xor_zero])

theorem not_pressed_of_lockPress (h : IsLockPress scan) : ¬ Pressed scan := by
  rintro ⟨-, -, hnone⟩
  obtain rfl | rfl := h <;> cases hnone

end Masks

section Rows

variable {status : BitVec 64}

/-- A status word that does not consist of lock keys alone selects the row of its other
modifiers. -/
theorem asciiRow_withoutLocks (h : withoutLocks status = 0 → status = 0) :
    asciiRow (withoutLocks status) = asciiRow status := by
  have hzero : withoutLocks status = 0 ↔ status = 0 := by
    refine ⟨h, ?_⟩
    rintro rfl
    decide
  unfold asciiRow
  simp only [withoutLocks_and_eq withoutLocks_mkCapslock, withoutLocks_and_eq withoutLocks_mkShift,
    withoutLocks_and_eq withoutLocks_mkCtrl, hzero]

/-- Lock keys alone select no row. -/
theorem asciiRow_locks (h : withoutLocks status = 0) (hstatus : status ≠ 0) :
    asciiRow status = none := by
  have hmask : ∀ m, withoutLocks m = m → status &&& m = 0 := by
    intro m hm
    rw [← withoutLocks_and_eq hm, h, BitVec.ofNat_eq_ofNat, BitVec.zero_and]
  unfold asciiRow
  simp only [hmask _ withoutLocks_mkCapslock, hmask _ withoutLocks_mkShift,
    hmask _ withoutLocks_mkCtrl, hstatus, ne_eq, not_true_eq_false, false_and, if_false]

end Rows

section Typing

variable {key key' : Keyboard} {scan c : UInt8}

/-- The code depends on the row alone. -/
theorem translate_code_congr (h : asciiRow key.status = asciiRow key'.status) :
    (translate scan key).code = (translate scan key').code := by
  cases hrow : asciiRow key.status with
  | some row => rw [translate_code_of_row hrow, translate_code_of_row (h ▸ hrow)]
  | none => rw [translate_code_of_none hrow, translate_code_of_none (h ▸ hrow)]

/-- The error code is not a character of the table. -/
theorem asciiAt_ne (row column : Nat) : asciiAt row column ≠ 0xff := by
  intro h
  have hlt := asciiAt_lt row column
  rw [h] at hlt
  exact absurd hlt (by decide)

theorem silent_lockPress :
    Silent keyboardNext SameButLocks fun scan => decide (¬ IsLockPress scan) := by
  intro key key' scan h hlock
  have hpress : IsLockPress scan := by simpa using hlock
  refine ⟨(keyboardNext_of_not_pressed (not_pressed_of_lockPress hpress)).2.2, ?_⟩
  unfold SameButLocks
  rw [keyboardNext_status, h]
  exact (withoutLocks_lockPress hpress).symm

theorem inStep_otherKeys :
    InStep keyboardNext SameButLocks fun scan => decide (¬ IsLockPress scan) := by
  intro key key' scan h hkeep
  unfold SameButLocks
  rw [keyboardNext_status, keyboardNext_status, h]
  exact (withoutLocks_nextStatus (by simpa using hkeep)).symm

theorem typable_of_lockPress (h : IsLockPress scan) : Typable key scan :=
  fun hpressed => absurd hpressed (not_pressed_of_lockPress h)

/-- Both runs type the same. -/
theorem same_outputs_of_typable (h : SameButLocks key key') (htypable : Typable key scan) :
    (keyboardNext key scan).2 = (keyboardNext key' scan).2 := by
  by_cases hpressed : Pressed scan
  · rw [(keyboardNext_of_pressed hpressed).2.2, (keyboardNext_of_pressed hpressed).2.2]
    unfold typed
    by_cases henter : scan = scanEnter
    · rw [if_pos henter, if_pos henter]
    by_cases hback : scan = scanBackspace
    · rw [if_neg henter, if_pos hback, if_neg henter, if_pos hback]
    have hrow : asciiRow key.status = asciiRow key'.status := by
      rw [h, asciiRow_withoutLocks (htypable hpressed henter hback)]
    rw [translate_code_congr hrow]
  · rw [(keyboardNext_of_not_pressed hpressed).2.2, (keyboardNext_of_not_pressed hpressed).2.2]

/-- The error code on the screen. -/
def isErrorCode : Output → Bool
  | .char c => c = 0xff
  | .erase => false

/-- The full run prints the error code, the other run a character of the normal row. -/
theorem errorCode_of_not_typable (h : SameButLocks key key') (htypable : ¬ Typable key scan) :
    (keyboardNext key' scan).2.countP isErrorCode <
      (keyboardNext key scan).2.countP isErrorCode := by
  unfold Typable at htypable
  push Not at htypable
  obtain ⟨hpressed, henter, hback, hlocks, hstatus⟩ := htypable
  have hnone : asciiRow key.status = none := asciiRow_locks hlocks hstatus
  have hrow : asciiRow key'.status = some 0 := by
    rw [h, hlocks]
    decide
  rw [(keyboardNext_of_pressed hpressed).2.2, (keyboardNext_of_pressed hpressed).2.2]
  unfold typed
  simp only [if_neg henter, if_neg hback]
  rw [translate_code_of_none hnone, translate_code_of_row hrow, printfChar_outputs,
    printfChar_outputs]
  have hchar := asciiAt_ne 0 scan.toNat
  by_cases hzero : asciiAt 0 scan.toNat = 0
  · simp +decide [hzero, isErrorCode]
  · simp +decide [hzero, isErrorCode, hchar]

end Typing

/-- Leaving out the presses of NumLock and ScrollLock changes nothing exactly if no
character is typed while one of them is on and no other modifier is. -/
theorem lockKeys_ignored_iff (scans : List UInt8) :
    outputs keyboardNext Keyboard.start scans =
        outputs keyboardNext Keyboard.start (scans.filter fun scan => ¬ IsLockPress scan) ↔
      EveryStep (fun key scan => (keyboardNext key scan).1) Typable Keyboard.start scans := by
  apply outputs_filter_iff silent_lockPress inStep_otherKeys (p := isErrorCode)
  · exact fun key scan hlock => typable_of_lockPress (by simpa using hlock)
  · exact fun key key' scan h _ htypable => same_outputs_of_typable h htypable
  · exact fun key key' scan h _ htypable => errorCode_of_not_typable h htypable
  · rfl

/-- NumLock and then `a`. -/
theorem numLock_prints_error :
    ¬ ∀ scans : List UInt8,
      outputs keyboardNext Keyboard.start scans =
        outputs keyboardNext Keyboard.start (scans.filter fun scan => ¬ IsLockPress scan) := by
  intro h
  have hcount := congrArg (List.countP isErrorCode) (h [scanNumlock, 0x1e])
  revert hcount
  decide +kernel

end Caos
