import Mathlib.Tactic

/-!
The bit operations of `bitops.h`. `bts` and `btr` with a
register operand address a bit string of any length, so a bitmap of `w` bits is
one `BitVec w`.
-/

namespace Caos

/-- `set_bit`. -/
def setBit {w : Nat} (nr : Nat) (map : BitVec w) : BitVec w := map ||| 1#w <<< nr

/-- `clear_bit`. -/
def clearBit {w : Nat} (nr : Nat) (map : BitVec w) : BitVec w := map &&& ~~~(1#w <<< nr)

/-- What a processor makes of `bt` with the prefix `lock`. The architecture has it as an invalid
opcode; an emulator may ignore the prefix and execute the instruction. -/
inductive LockedBt
  | invalidOpcode
  | executed
  deriving DecidableEq, Repr

/-- `test_bit`, that is `lock; btq`: `sbbq` turns the bit into 0 or -1. `none` is the invalid
opcode, from which `_invalid_op` does not return. -/
def testBit {w : Nat} (bt : LockedBt) (nr : Nat) (map : BitVec w) : Option (BitVec 64) :=
  match bt with
  | .invalidOpcode => none
  | .executed => some (if map.getLsbD nr then .allOnes 64 else 0)

/-- `bsfq`, the index of the lowest set bit. The instruction leaves its result
undefined for the word 0; no caller passes it. -/
def bsf (word : BitVec 64) : Nat := ((List.range 64).find? word.getLsbD).getD 0

/-- `ffz`. -/
def ffz (word : BitVec 64) : Nat :=
  if word = .allOnes 64 then 2 ^ 64 - 1 else bsf (~~~word)

/-- `fls64`. -/
def fls64 (x : Nat) : Nat := if x = 0 then 0 else Nat.log2 x + 1

/-- The numbers of the set bits, in increasing order. -/
def setBits {w : Nat} (map : BitVec w) : List Nat := (List.range w).filter map.getLsbD

@[simp] theorem getLsbD_setBit {w nr i : Nat} (map : BitVec w) (hnr : nr < w) :
    (setBit nr map).getLsbD i = (map.getLsbD i || nr == i) := by
  rw [setBit, BitVec.getLsbD_or, ← BitVec.twoPow_eq, BitVec.getLsbD_twoPow]
  simp [hnr, Bool.beq_eq_decide_eq]

@[simp] theorem getLsbD_clearBit {w nr i : Nat} (map : BitVec w) (hnr : nr < w) :
    (clearBit nr map).getLsbD i = (map.getLsbD i && nr != i) := by
  rw [clearBit, BitVec.getLsbD_and, BitVec.getLsbD_not, ← BitVec.twoPow_eq,
    BitVec.getLsbD_twoPow]
  rcases Nat.lt_or_ge i w with hi | hi
  · simp [hnr, hi, bne, Bool.beq_eq_decide_eq]
  · simp [map.getLsbD_of_ge i hi]

/-- A mask splits a word into the bits it clears and the bits it keeps. -/
theorem toNat_and_not_add {w : Nat} (word mask : BitVec w) :
    (word &&& ~~~mask).toNat + (word &&& mask).toNat = word.toNat := by
  have hdisjoint : (word &&& ~~~mask) &&& (word &&& mask) = 0#w := by
    apply BitVec.eq_of_getLsbD_eq
    intro i hi
    simp only [BitVec.getLsbD_and, BitVec.getLsbD_not, BitVec.getLsbD_zero]
    cases mask.getLsbD i <;> simp
  rw [← BitVec.toNat_add_of_and_eq_zero hdisjoint, BitVec.add_eq_or_of_and_eq_zero _ _ hdisjoint,
    ← BitVec.and_or_distrib_left, BitVec.not_or_self, BitVec.and_allOnes]

end Caos
