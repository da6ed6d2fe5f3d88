import Mathlib.Data.List.GetD
import Mathlib.Data.Nat.Digits.Lemmas
import Mathlib.Tactic

/-!
Numerals in any base and any digit characters, written most significant digit first.
A numeral is canonical if it has a digit and no leading zero; `numeral` writes the
canonical one and `value` reads it back. Digits cut from a number at fixed places give
the canonical numeral once their leading zeros are dropped.
-/

namespace Caos.Lib

/-- A base with a character for each digit. -/
structure NumeralSystem (α : Type*) where
  base : Nat
  char : Nat → α
  one_lt : 1 < base
  injective : Set.InjOn char (Set.Iio base)

namespace NumeralSystem

variable {α : Type*} (N : NumeralSystem α)

/-- The digit of a character. -/
def digit [DecidableEq α] (c : α) : Option Nat := (List.range N.base).find? fun d => N.char d = c

/-- The number a sequence of digit characters denotes. -/
def value [DecidableEq α] (text : List α) : Option Nat :=
  (text.mapM N.digit).map fun ds => Nat.ofDigits N.base ds.reverse

/-- The canonical numeral of a number. -/
def numeral (n : Nat) : List α :=
  if n = 0 then [N.char 0] else (Nat.digits N.base n).reverse.map N.char

/-- A numeral has a digit, and a zero in front only if it has no other digit. -/
structure Canonical (text : List α) : Prop where
  nonempty : text ≠ []
  digits : ∀ c ∈ text, ∃ d < N.base, N.char d = c
  no_leading_zero : text.head? = some (N.char 0) → text = [N.char 0]

/-- The digits of `x` at the `n` lowest places, the zeros in front included. -/
def padded (N : NumeralSystem α) (x : Nat) : Nat → List α
  | 0 => []
  | n + 1 => N.char (x / N.base ^ n % N.base) :: N.padded x n

variable {N} {n x : Nat}

section Reading

variable [DecidableEq α]

theorem digit_char {d : Nat} (h : d < N.base) : N.digit (N.char d) = some d := by
  rw [digit, List.find?_range_eq_some]
  refine ⟨by simp, List.mem_range.mpr h, ?_⟩
  intro e he
  have hne : N.char e ≠ N.char d := fun heq =>
    he.ne (N.injective (Set.mem_Iio.mpr (he.trans h)) (Set.mem_Iio.mpr h) heq)
  simpa using hne

theorem mapM_digit {ds : List Nat} (h : ∀ d ∈ ds, d < N.base) :
    (ds.map N.char).mapM N.digit = some ds := by
  induction ds with
  | nil => rfl
  | cons d ds ih =>
      rw [List.forall_mem_cons] at h
      rw [List.map_cons, List.mapM_cons, digit_char h.1, ih h.2]
      rfl

/-- What is written is read back. -/
theorem value_numeral (n : Nat) : N.value (N.numeral n) = some n := by
  rw [value, numeral]
  split
  · next h =>
      have hdigits := @mapM_digit α N _ [0] (by simpa using Nat.zero_lt_of_lt N.one_lt)
      rw [List.map_singleton] at hdigits
      rw [hdigits, h]
      rfl
  · have hlt : ∀ d ∈ (Nat.digits N.base n).reverse, d < N.base :=
      fun d hd => Nat.digits_lt_base N.one_lt (List.mem_reverse.mp hd)
    rw [mapM_digit hlt, Option.map_some, List.reverse_reverse, Nat.ofDigits_digits]

end Reading

theorem head_numeral (h : n ≠ 0) : ∃ d < N.base, d ≠ 0 ∧ (N.numeral n).head? = some (N.char d) := by
  have hne : Nat.digits N.base n ≠ [] := Nat.digits_ne_nil_iff_ne_zero.mpr h
  refine ⟨(Nat.digits N.base n).getLast hne, ?_, Nat.getLast_digit_ne_zero N.base h, ?_⟩
  · exact Nat.digits_lt_base N.one_lt (List.getLast_mem hne)
  · rw [numeral, if_neg h, List.head?_map, List.head?_reverse, List.getLast?_eq_some_getLast hne]
    rfl

theorem numeral_canonical (n : Nat) : N.Canonical (N.numeral n) := by
  have hpos : 0 < N.base := Nat.zero_lt_of_lt N.one_lt
  by_cases h : n = 0
  · have hzero : N.numeral n = [N.char 0] := by rw [numeral, if_pos h]
    rw [hzero]
    exact ⟨List.cons_ne_nil _ _, List.forall_mem_singleton.mpr ⟨0, hpos, rfl⟩, fun _ => rfl⟩
  · obtain ⟨d, hd, hne, hhead⟩ := @head_numeral α N n h
    constructor
    · intro hnil
      simp [hnil] at hhead
    · intro c hc
      rw [numeral, if_neg h, List.mem_map] at hc
      obtain ⟨e, he, rfl⟩ := hc
      exact ⟨e, Nat.digits_lt_base N.one_lt (List.mem_reverse.mp he), rfl⟩
    · intro hzero
      rw [hhead, Option.some.injEq] at hzero
      exact absurd (N.injective (Set.mem_Iio.mpr hd) (Set.mem_Iio.mpr hpos) hzero) hne

/-- A number below a power of the base has no more digits than the exponent. -/
theorem length_numeral_le (hn : 0 < n) (h : x < N.base ^ n) : (N.numeral x).length ≤ n := by
  rw [numeral]
  split
  · exact hn
  · rw [List.length_map, List.length_reverse, Nat.digits_length_le_iff N.one_lt]
    exact h

theorem length_numeral_pos (n : Nat) : 0 < (N.numeral n).length :=
  List.length_pos_iff.mpr (numeral_canonical n).nonempty

theorem padded_eq (x n : Nat) :
    N.padded x n = ((List.range n).map fun i => x / N.base ^ i % N.base).reverse.map N.char := by
  induction n with
  | zero => rfl
  | succ n ih => rw [padded, ih, List.range_succ, List.map_append, List.reverse_append]; rfl

/-- At as many places as the number has digits, the digits are its numeral. -/
theorem padded_length_digits (h : x ≠ 0) :
    N.padded x (Nat.digits N.base x).length = N.numeral x := by
  rw [padded_eq, numeral, if_neg h]
  congr 2
  apply List.ext_getElem
  · rw [List.length_map, List.length_range]
  · intro i hi hi'
    rw [List.getElem_map, List.getElem_range, ← Nat.getD_digits x i N.one_lt,
      List.getD_eq_getElem _ _ hi']

/-- Without its leading zeros the padded sequence is the numeral. -/
theorem dropWhile_padded [DecidableEq α] (hx : x ≠ 0) (h : x < N.base ^ n) :
    (N.padded x n).dropWhile (· = N.char 0) = N.numeral x := by
  induction n with
  | zero =>
      rw [Nat.pow_zero] at h
      omega
  | succ n ih =>
      by_cases hlt : x < N.base ^ n
      · rw [padded, Nat.div_eq_of_lt hlt, Nat.zero_mod, List.dropWhile_cons_of_pos (by simp)]
        exact ih hlt
      · have hlen : (Nat.digits N.base x).length = n + 1 := by
          have hle := (Nat.digits_length_le_iff N.one_lt x).mpr h
          have hgt := mt (Nat.digits_length_le_iff N.one_lt x).mp hlt
          omega
        rw [← hlen, padded_length_digits hx]
        obtain ⟨d, hd, hne, hhead⟩ := @head_numeral α N x hx
        obtain ⟨rest, hrest⟩ : ∃ rest, N.numeral x = N.char d :: rest :=
          ⟨(N.numeral x).tail, (List.cons_head?_tail hhead).symm⟩
        rw [hrest, List.dropWhile_cons_of_neg]
        intro heq
        have hpos : 0 < N.base := Nat.zero_lt_of_lt N.one_lt
        exact hne (N.injective (Set.mem_Iio.mpr hd) (Set.mem_Iio.mpr hpos) (by simpa using heq))

end NumeralSystem

end Caos.Lib
