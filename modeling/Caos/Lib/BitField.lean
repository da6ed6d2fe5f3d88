import Mathlib.Tactic

/-!
Fields of a word: `x.extractLsb' lo w` is the field of `w` bits from bit `lo` on. A word
that is put together from shifted and masked pieces is read field by field; which pieces
reach a field is decided by their masks.
-/

namespace Caos.Lib

variable {v v' w lo n : Nat} {x mask : BitVec v}

/-- A mask that is all ones in a field lets the field through. -/
theorem extract_and_of_ones (h : mask.extractLsb' lo w = .allOnes w) :
    (x &&& mask).extractLsb' lo w = x.extractLsb' lo w := by
  rw [BitVec.extractLsb'_and, h, BitVec.and_allOnes]

/-- A mask that is zero in a field clears it. -/
theorem extract_and_of_zero (h : mask.extractLsb' lo w = 0#w) :
    (x &&& mask).extractLsb' lo w = 0#w := by
  rw [BitVec.extractLsb'_and, h, BitVec.and_zero]

/-- A field of a word shifted to the left, above the zeros shifted in. -/
theorem extract_shiftLeft (hn : n ≤ lo) (h : lo + w ≤ v) :
    (x <<< n).extractLsb' lo w = x.extractLsb' (lo - n) w := by
  apply BitVec.eq_of_getLsbD_eq
  intro i hi
  have hlt : lo + i < v := by omega
  have hge : ¬ lo + i < n := by omega
  have hsub : lo + i - n = lo - n + i := by omega
  simp only [BitVec.getLsbD_extractLsb', BitVec.getLsbD_shiftLeft, hi, hlt, hge, hsub,
    decide_true, decide_false, Bool.not_false, Bool.true_and]

/-- A field among the zeros shifted in. -/
theorem extract_shiftLeft_below (h : lo + w ≤ n) : (x <<< n).extractLsb' lo w = 0#w := by
  apply BitVec.eq_of_getLsbD_eq
  intro i hi
  have hlt : lo + i < n := by omega
  simp only [BitVec.getLsbD_extractLsb', BitVec.getLsbD_shiftLeft, hlt, decide_true, Bool.not_true,
    Bool.and_false, Bool.false_and, BitVec.getLsbD_zero]

theorem extract_ushiftRight :
    (x >>> n).extractLsb' lo w = x.extractLsb' (n + lo) w := by
  apply BitVec.eq_of_getLsbD_eq
  intro i hi
  simp only [BitVec.getLsbD_extractLsb', BitVec.getLsbD_ushiftRight, Nat.add_assoc]

/-- The low field of a word that was extended from it. -/
theorem extract_zero_setWidth (h : v ≤ v') : (x.setWidth v').extractLsb' 0 v = x := by
  rw [BitVec.extractLsb'_setWidth_of_le (by omega), BitVec.extractLsb'_eq_self]

/-- A field of copies of the sign. -/
theorem extract_signExtend_above (hlo : v ≤ lo) (h : lo + w ≤ v') :
    (x.signExtend v').extractLsb' lo w = if x.msb then .allOnes w else 0#w := by
  apply BitVec.eq_of_getLsbD_eq
  intro i hi
  have hlt : lo + i < v' := by omega
  have hge : ¬ lo + i < v := by omega
  rw [BitVec.getLsbD_extractLsb', BitVec.getLsbD_signExtend, if_neg hge]
  cases x.msb <;> simp [hi, hlt]

end Caos.Lib
