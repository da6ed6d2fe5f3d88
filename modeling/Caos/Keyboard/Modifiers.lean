import Caos.Keyboard.Isr

/-!
The status word against the history of the stream: a held key is down if its last byte
was the make code, a lock key is on if it has been pressed an odd number of times.
-/

namespace Caos

open Lib

/-- The last of the make and break codes of a key in the stream is the make code. -/
def HeldDown (make : UInt8) (scans : List UInt8) : Prop :=
  (scans.filter fun b => b = make ∨ b = make ||| 0x80).getLast? = some make

/-- The key has been pressed an odd number of times. -/
def LockedOn (press : UInt8) (scans : List UInt8) : Prop := scans.count press % 2 = 1

/-- All modifier bits. -/
def mkAll : BitVec 64 :=
  mkShift ||| mkCtrl ||| mkAlt ||| mkCapslock ||| mkScrolllock ||| mkNumlock

/-- The keyboard behind a stream of scan codes. -/
structure Tracks (scans : List UInt8) (key : Keyboard) : Prop where
  shift : key.status &&& mkShift ≠ 0 ↔ HeldDown scanLeftshift scans
  ctrl : key.status &&& mkCtrl ≠ 0 ↔ HeldDown scanLeftctrl scans
  alt : key.status &&& mkAlt ≠ 0 ↔ HeldDown scanLeftalt scans
  capslock : key.status &&& mkCapslock ≠ 0 ↔ LockedOn scanCapslock scans
  scrolllock : key.status &&& mkScrolllock ≠ 0 ↔ LockedOn scanScrolllock scans
  numlock : key.status &&& mkNumlock ≠ 0 ↔ LockedOn scanNumlock scans
  others : key.status &&& ~~~mkAll = 0
  reads : ∀ access ∈ key.reads, access.1 < 5 ∧ access.2 < 128

section History

variable {make press b : UInt8} {scans : List UInt8}

theorem heldDown_snoc : HeldDown make (scans ++ [b]) ↔
    b = make ∨ b ≠ make ||| 0x80 ∧ HeldDown make scans := by
  unfold HeldDown
  rw [List.filter_append]
  by_cases hb : b = make ∨ b = make ||| 0x80
  · rw [List.filter_cons_of_pos (by simpa using hb), List.filter_nil, List.getLast?_concat,
      Option.some.injEq]
    grind
  · rw [List.filter_cons_of_neg (by simpa using hb), List.filter_nil, List.append_nil]
    rw [not_or] at hb
    simp [hb.1, hb.2]

theorem lockedOn_snoc : LockedOn press (scans ++ [b]) ↔
    (b = press ↔ ¬ LockedOn press scans) := by
  unfold LockedOn
  rw [List.count_append, List.count_singleton]
  by_cases hb : b = press
  · simp only [hb, beq_self_eq_true, if_true, true_iff]
    omega
  · simp only [beq_iff_eq, hb, if_false, false_iff, not_not, Nat.add_zero]

end History

section Bits

variable {status : BitVec 64} {scan : UInt8} {i j : Nat}

theorem and_shiftLeft_ne_zero (hi : i < 64) :
    status &&& 1#64 <<< i ≠ 0 ↔ status.getLsbD i = true := by
  rw [← BitVec.twoPow_eq, BitVec.and_twoPow]
  cases h : status.getLsbD i with
  | false => simp
  | true =>
      simp only [if_true, iff_true]
      intro hzero
      have hbit := congrArg (fun x => x.getLsbD i) hzero
      simp [hi] at hbit

theorem getLsbD_flip (hj : j < 64) :
    (status ^^^ 1#64 <<< j).getLsbD i = (status.getLsbD i ^^ j == i) := by
  rw [BitVec.getLsbD_xor, ← BitVec.twoPow_eq, BitVec.getLsbD_twoPow]
  simp [hj, Bool.beq_eq_decide_eq]

/-- `key.status` behind a scan code. -/
def nextStatus (scan : UInt8) (status : BitVec 64) : BitVec 64 :=
  (changeStatus scan status).getD status

theorem getLsbD_getD_ite {c : Prop} [Decidable c] {word : BitVec 64}
    {rest : Option (BitVec 64)} {bit bit' : Bool} (hword : word.getLsbD i = bit)
    (hrest : (rest.getD status).getLsbD i = bit') :
    ((if c then some word else rest).getD status).getLsbD i = if c then bit else bit' := by
  split
  · exact hword
  · exact hrest

/-- A bit of the status behind a scan code. -/
theorem getLsbD_nextStatus : (nextStatus scan status).getLsbD i =
    if scan = 0x45 then (status.getLsbD i ^^ 5 == i)
    else if scan = 0x1d then (status.getLsbD i ^^ 3 == i)
    else if scan = 0x46 then (status.getLsbD i ^^ 4 == i)
    else if scan = 0x2a then (status.getLsbD i || 0 == i)
    else if scan = 0xaa then (status.getLsbD i && 0 != i)
    else if scan = 0x3a then (status.getLsbD i || 1 == i)
    else if scan = 0xba then (status.getLsbD i && 1 != i)
    else if scan = 0x38 then (status.getLsbD i || 2 == i)
    else if scan = 0xb8 then (status.getLsbD i && 2 != i)
    else status.getLsbD i := by
  have hshift : scanLeftshift ||| 0x80 = 0xaa := by decide
  have hctrl : scanLeftctrl ||| 0x80 = 0xba := by decide
  have halt : scanLeftalt ||| 0x80 = 0xb8 := by decide
  unfold nextStatus changeStatus
  rw [hshift, hctrl, halt]
  apply getLsbD_getD_ite (getLsbD_flip (by decide))
  apply getLsbD_getD_ite (getLsbD_flip (by decide))
  apply getLsbD_getD_ite (getLsbD_flip (by decide))
  apply getLsbD_getD_ite (getLsbD_setBit status (by decide))
  apply getLsbD_getD_ite (getLsbD_clearBit status (by decide))
  apply getLsbD_getD_ite (getLsbD_setBit status (by decide))
  apply getLsbD_getD_ite (getLsbD_clearBit status (by decide))
  apply getLsbD_getD_ite (getLsbD_setBit status (by decide))
  apply getLsbD_getD_ite (getLsbD_clearBit status (by decide))
  rfl

/-- The bits of the keys that are held, with their make codes. -/
def heldKeys : List (Nat × UInt8) := [(0, scanLeftshift), (1, scanLeftctrl), (2, scanLeftalt)]

/-- The bits of the lock keys, with their press codes. -/
def lockKeys : List (Nat × UInt8) :=
  [(3, scanCapslock), (4, scanScrolllock), (5, scanNumlock)]

theorem getLsbD_nextStatus_held {make : UInt8} (hkey : (i, make) ∈ heldKeys) :
    (nextStatus scan status).getLsbD i = true ↔
      scan = make ∨ scan ≠ make ||| 0x80 ∧ status.getLsbD i = true := by
  have hshift : scanLeftshift ||| 0x80 = 0xaa := by decide
  have hctrl : scanLeftctrl ||| 0x80 = 0xba := by decide
  have halt : scanLeftalt ||| 0x80 = 0xb8 := by decide
  simp only [heldKeys, List.mem_cons, Prod.mk.injEq, List.not_mem_nil, or_false] at hkey
  rw [getLsbD_nextStatus]
  by_cases hmake : scan = make
  · subst hmake
    obtain ⟨rfl, rfl⟩ | ⟨rfl, rfl⟩ | ⟨rfl, rfl⟩ := hkey <;>
      simp [scanLeftshift, scanLeftctrl, scanLeftalt]
  by_cases hbreak : scan = make ||| 0x80
  · obtain ⟨rfl, rfl⟩ | ⟨rfl, rfl⟩ | ⟨rfl, rfl⟩ := hkey
    all_goals
      simp only [hshift, hctrl, halt] at hbreak ⊢
      subst hbreak
      simp [scanLeftshift, scanLeftctrl, scanLeftalt]
  -- every other branch leaves the bit alone
  · obtain ⟨rfl, rfl⟩ | ⟨rfl, rfl⟩ | ⟨rfl, rfl⟩ := hkey
    all_goals
      simp only [hshift, hctrl, halt] at hbreak ⊢
      simp only [scanLeftshift, scanLeftctrl, scanLeftalt] at hmake ⊢
      simp only [hmake, hbreak, Nat.reduceBEq, Nat.reduceBNe, Bool.xor_false, Bool.or_false,
        Bool.and_true, if_false, ite_self, false_or, ne_eq, not_false_eq_true, true_and]

theorem getLsbD_nextStatus_lock {press : UInt8} (hkey : (i, press) ∈ lockKeys) :
    (nextStatus scan status).getLsbD i = true ↔
      (scan = press ↔ ¬ status.getLsbD i = true) := by
  simp only [lockKeys, List.mem_cons, Prod.mk.injEq, List.not_mem_nil, or_false] at hkey
  rw [getLsbD_nextStatus]
  by_cases hpress : scan = press
  · subst hpress
    obtain ⟨rfl, rfl⟩ | ⟨rfl, rfl⟩ | ⟨rfl, rfl⟩ := hkey <;>
      simp [scanCapslock, scanScrolllock, scanNumlock]
  · obtain ⟨rfl, rfl⟩ | ⟨rfl, rfl⟩ | ⟨rfl, rfl⟩ := hkey
    all_goals
      simp only [scanCapslock, scanScrolllock, scanNumlock] at hpress ⊢
      simp only [hpress, Nat.reduceBEq, Nat.reduceBNe, Bool.xor_false, Bool.or_false,
        Bool.and_true, if_false, ite_self, false_iff, not_not]

theorem getLsbD_nextStatus_other (hi : 6 ≤ i) :
    (nextStatus scan status).getLsbD i = status.getLsbD i := by
  have h : ∀ j < 6, (j == i) = false := by grind
  rw [getLsbD_nextStatus]
  simp only [h 0 (by decide), h 1 (by decide), h 2 (by decide), h 3 (by decide), h 4 (by decide),
    h 5 (by decide), bne, Bool.not_false, Bool.xor_false, Bool.or_false, Bool.and_true, ite_self]

/-- No bit from 6 on is set. -/
theorem and_not_mkAll_eq_zero_iff :
    status &&& ~~~mkAll = 0 ↔ ∀ i, 6 ≤ i → status.getLsbD i = false := by
  have hmask : ∀ i < 64, mkAll.getLsbD i = decide (i < 6) := by decide
  constructor
  · intro h i hi
    rcases Nat.lt_or_ge i 64 with hlt | hge
    · have hbit := congrArg (fun x => x.getLsbD i) h
      simp only [BitVec.getLsbD_and, BitVec.getLsbD_not, hmask i hlt] at hbit
      simpa [hlt, Nat.not_lt.mpr hi] using hbit
    · exact status.getLsbD_of_ge i hge
  · intro h
    apply BitVec.eq_of_getLsbD_eq
    intro i hi
    rw [BitVec.getLsbD_and, BitVec.getLsbD_not, hmask i hi]
    rcases Nat.lt_or_ge i 6 with hlt | hge
    · simp [hlt]
    · simp [h i hge]

end Bits

section Reads

variable {status : BitVec 64} {scan : UInt8} {key : Keyboard} {access : Nat × Nat}

theorem asciiRow_lt {row : Nat} (h : asciiRow status = some row) : row < 5 := by
  unfold asciiRow at h
  split_ifs at h <;> cases h <;> decide

/-- A make code is a column. -/
theorem make_lt (h : scan &&& 0x80 = 0) : scan.toNat < 128 := by
  have hbit : (scan.toNat &&& 2 ^ 7).testBit 7 = false := by
    rw [show scan.toNat &&& 2 ^ 7 = 0 from congrArg UInt8.toNat h, Nat.zero_testBit]
  rw [Nat.testBit_and, Nat.testBit_two_pow_self, Bool.and_true,
    Nat.testBit_eq_decide_div_mod_eq, decide_eq_false_iff_not] at hbit
  have hbyte := scan.toNat_lt
  omega

theorem translate_reads (h : access ∈ (translate scan key).reads) :
    access ∈ key.reads ∨ access.1 < 5 ∧ access.2 = scan.toNat := by
  unfold translate at h
  cases hrow : asciiRow key.status with
  | some row =>
      rw [hrow] at h
      rcases List.mem_cons.mp h with rfl | hold
      · exact .inr ⟨asciiRow_lt hrow, rfl⟩
      · exact .inl hold
  | none =>
      rw [hrow] at h
      exact .inl h

theorem keyboardNext_reads (h : ∀ access ∈ key.reads, access.1 < 5 ∧ access.2 < 128) :
    ∀ access ∈ (keyboardNext key scan).1.reads, access.1 < 5 ∧ access.2 < 128 := by
  intro access haccess
  by_cases hpressed : Pressed scan
  · rw [(keyboardNext_of_pressed hpressed).2.1] at haccess
    rcases translate_reads haccess with hold | ⟨hrow, hcolumn⟩
    · exact h access hold
    · exact ⟨hrow, hcolumn ▸ make_lt hpressed.2.1⟩
  · rw [(keyboardNext_of_not_pressed hpressed).2.1] at haccess
    exact h access haccess

end Reads

section Step

variable {status : BitVec 64} {scan : UInt8} {scans : List UInt8} {i : Nat}

/-- The bit of a held key, one byte later. -/
theorem heldDown_next {make : UInt8} (hkey : (i, make) ∈ heldKeys) (hi : i < 64)
    (h : status &&& 1#64 <<< i ≠ 0 ↔ HeldDown make scans) :
    nextStatus scan status &&& 1#64 <<< i ≠ 0 ↔ HeldDown make (scans ++ [scan]) := by
  rw [and_shiftLeft_ne_zero hi] at h ⊢
  rw [getLsbD_nextStatus_held hkey, heldDown_snoc, h]

/-- The bit of a lock key, one byte later. -/
theorem lockedOn_next {press : UInt8} (hkey : (i, press) ∈ lockKeys) (hi : i < 64)
    (h : status &&& 1#64 <<< i ≠ 0 ↔ LockedOn press scans) :
    nextStatus scan status &&& 1#64 <<< i ≠ 0 ↔ LockedOn press (scans ++ [scan]) := by
  rw [and_shiftLeft_ne_zero hi] at h ⊢
  rw [getLsbD_nextStatus_lock hkey, lockedOn_snoc, h]

/-- One more byte. -/
theorem Tracks.next {key : Keyboard} (h : Tracks scans key) (scan : UInt8) :
    Tracks (scans ++ [scan]) (keyboardNext key scan).1 := by
  have hstatus : (keyboardNext key scan).1.status = nextStatus scan key.status :=
    keyboardNext_status
  refine ⟨?_, ?_, ?_, ?_, ?_, ?_, ?_, keyboardNext_reads h.reads⟩
  all_goals rw [hstatus]
  · exact heldDown_next (i := 0) (by decide) (by decide) h.shift
  · exact heldDown_next (i := 1) (by decide) (by decide) h.ctrl
  · exact heldDown_next (i := 2) (by decide) (by decide) h.alt
  · exact lockedOn_next (i := 3) (by decide) (by decide) h.capslock
  · exact lockedOn_next (i := 4) (by decide) (by decide) h.scrolllock
  · exact lockedOn_next (i := 5) (by decide) (by decide) h.numlock
  · rw [and_not_mkAll_eq_zero_iff]
    intro i hi
    rw [getLsbD_nextStatus_other hi]
    exact and_not_mkAll_eq_zero_iff.mp h.others i hi

end Step

theorem tracks_start : Tracks [] Keyboard.start := by
  refine ⟨?_, ?_, ?_, ?_, ?_, ?_, BitVec.zero_and, nofun⟩ <;>
    simp [Keyboard.start, HeldDown, LockedOn]

/-- Whatever bytes arrive, the status word is the one that the keys say. -/
theorem status_tracks (scans : List UInt8) :
    Tracks scans (finalState keyboardNext Keyboard.start scans) :=
  finalState_history tracks_start (fun _ _ scan h => h.next scan) scans

end Caos
