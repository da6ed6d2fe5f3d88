import Caos.CString
import Caos.Console.Format
import Caos.Lib.Numeral

/-!
The number output of `printf.c` against numerals. `print_decimal` tests the sign with an
instruction that the processor may refuse, and only 0 is printed without that test. It
negates before it collects digits, and the smallest value has no positive counterpart: its
digit loop does not run, and a lone minus sign comes out.
-/

namespace Caos

open Lib

/-- The decimal digits. -/
def decimal : NumeralSystem UInt8 where
  base := 10
  char d := (literal "0123456789").getD d 0
  one_lt := by decide
  injective := by
    intro d hd e he
    rw [Set.mem_Iio] at hd he
    revert d e
    decide

/-- The hexadecimal digits. -/
def upperHex : NumeralSystem UInt8 where
  base := 16
  char d := (literal "0123456789ABCDEF").getD d 0
  one_lt := by decide
  injective := by
    intro d hd e he
    rw [Set.mem_Iio] at hd he
    revert d e
    decide

/-- `text` is the canonical numeral of an integer, with a minus sign in front if the
integer is negative. -/
def IsDecimal (text : List UInt8) (z : Int) : Prop :=
  ∃ digits, decimal.Canonical digits ∧ decimal.value digits = some z.natAbs ∧
    text = if z < 0 then charByte '-' :: digits else digits

/-- Read an integer. -/
def decimalValue : List UInt8 → Option Int
  | [] => none
  | c :: text =>
    if c = charByte '-' then (decimal.value text).map fun n : Nat => -(n : Int)
    else (decimal.value (c :: text)).map fun n : Nat => (n : Int)

section Decimal

variable {a : BitVec 64} {n : Nat} {text : List UInt8} {z : Int}

theorem char_ne_minus : ∀ d < decimal.base, decimal.char d ≠ charByte '-' := by
  decide

theorem IsDecimal.decimalValue (h : IsDecimal text z) : decimalValue text = some z := by
  obtain ⟨digits, hcanon, hvalue, rfl⟩ := h
  split
  · next hneg =>
      rw [Caos.decimalValue, if_pos rfl, hvalue, Option.map_some]
      congr 1
      omega
  · next hneg =>
      obtain ⟨c, rest, rfl⟩ := List.exists_cons_of_ne_nil hcanon.nonempty
      obtain ⟨d, hd, hc⟩ := hcanon.digits c List.mem_cons_self
      have hminus : c ≠ charByte '-' := hc ▸ char_ne_minus d hd
      rw [Caos.decimalValue, if_neg hminus, hvalue, Option.map_some]
      congr 1
      omega

/-- The numeral of a magnitude, with the sign the integer asks for. -/
theorem isDecimal_numeral (z : Int) : IsDecimal
    (if z < 0 then charByte '-' :: decimal.numeral z.natAbs else decimal.numeral z.natAbs) z :=
  ⟨decimal.numeral z.natAbs, NumeralSystem.numeral_canonical _,
    NumeralSystem.value_numeral _, rfl⟩

/-- A lone minus sign is not a numeral. -/
theorem not_isDecimal_minus (z : Int) : ¬ IsDecimal [charByte '-'] z := by
  rintro ⟨digits, hcanon, -, htext⟩
  split at htext
  · rw [List.cons.injEq] at htext
    exact hcanon.nonempty htext.2.symm
  · obtain ⟨d, hd, hc⟩ := hcanon.digits (charByte '-') (htext ▸ List.mem_cons_self)
    exact char_ne_minus d hd hc

theorem slt_zero_iff (hmsb : a.msb = false) : (0#64).slt a = true ↔ a.toNat ≠ 0 := by
  rw [BitVec.slt_iff_toInt_lt, BitVec.toInt_eq_toNat_of_msb hmsb, BitVec.toInt_zero]
  omega

/-- The remainder of one division of a value that is not negative. -/
theorem toNat_srem_ten (hmsb : a.msb = false) : (a.srem 10).toNat = a.toNat % 10 := by
  have hten : (10#64).msb = false := by decide
  change (a.srem 10#64).toNat = _
  rw [BitVec.srem_eq, hmsb, hten]
  exact BitVec.toNat_umod

theorem msb_of_lt (h : a.toNat < 2 ^ 63) : a.msb = false := by
  rw [BitVec.msb_eq_false_iff_two_mul_lt]
  omega

/-- The digit loop collects the digits, the last one first. -/
theorem digitLoop_digits (hmsb : a.msb = false) (h : a.toNat < 10 ^ n) :
    digitLoop n a = some ((Nat.digits 10 a.toNat).map .ofNat) := by
  induction n generalizing a with
  | zero =>
      have hzero : a.toNat = 0 := by simpa using h
      rw [digitLoop, if_neg (by simp [slt_zero_iff hmsb, hzero]), hzero]
      rfl
  | succ n ih =>
      rw [digitLoop]
      split
      · next hpos =>
          have hne := (slt_zero_iff hmsb).mp hpos
          have hdiv := toNat_sdiv_ten hpos
          have hlt : (a.sdiv 10).toNat < 10 ^ n := by
            rw [hdiv]
            rw [Nat.pow_succ] at h
            exact Nat.div_lt_of_lt_mul (by omega)
          have hmsb' : (a.sdiv 10).msb = false := by
            apply msb_of_lt
            have := a.isLt
            omega
          rw [ih hmsb' hlt, hdiv, toNat_srem_ten hmsb,
            Nat.digits_eq_cons_digits_div (by decide) hne]
          rfl
      · next hpos =>
          have hzero : a.toNat = 0 := by
            by_contra hne
            exact hpos ((slt_zero_iff hmsb).mpr hne)
          rw [hzero]
          rfl

/-- The digits of a value that is positive go out as its numeral. -/
theorem digits_out (hmsb : a.msb = false) (hne : a ≠ 0) :
    ((digitLoop 32 a).getD []).reverse.map (· + charByte '0') = decimal.numeral a.toNat := by
  have hlt : a.toNat < 10 ^ 32 := a.isLt.trans (by norm_num)
  have hnat : a.toNat ≠ 0 := fun h => hne (BitVec.eq_of_toNat_eq h)
  have hchar : ∀ d < 10, UInt8.ofNat d + charByte '0' = decimal.char d := by decide
  rw [digitLoop_digits hmsb hlt, Option.getD_some, NumeralSystem.numeral, if_neg hnat,
    ← List.map_reverse, List.map_map]
  apply List.map_congr_left
  intro d hd
  exact hchar d (Nat.digits_lt_base (by decide) (List.mem_reverse.mp hd))

/-- What goes out is the numeral of the value, unless the value is the smallest. -/
theorem decimalBytes_eq (h : a ≠ BitVec.intMin 64) :
    decimalBytes a = if a.toInt < 0 then charByte '-' :: decimal.numeral a.toInt.natAbs
      else decimal.numeral a.toInt.natAbs := by
  rw [decimalBytes]
  split
  · next hzero =>
      rw [hzero]
      decide
  · next hne =>
      split
      · next hmsb =>
          have hmsb' : (-a).msb = false := by
            rw [BitVec.msb_neg_of_ne_intMin_of_ne_zero h hne, hmsb]
            rfl
          have habs : a.toInt.natAbs = (-a).toNat := by
            rw [BitVec.toInt_eq_neg_toNat_neg_of_msb_true hmsb, Int.natAbs_neg, Int.natAbs_natCast]
          rw [if_pos (BitVec.toInt_neg_of_msb_true hmsb), habs,
            digits_out hmsb' (by simpa using hne)]
      · next hsign =>
          have hmsb : a.msb = false := Bool.not_eq_true _ ▸ hsign
          have habs : a.toInt = a.toNat := BitVec.toInt_eq_toNat_of_msb hmsb
          rw [if_neg (by omega), habs, Int.natAbs_natCast, digits_out hmsb hne]

theorem decimalBytes_intMin : decimalBytes (BitVec.intMin 64) = [charByte '-'] := by
  decide

/-- The smallest value comes out as no numeral. -/
theorem not_decimal_intMin {bt : LockedBt} {buf : Nat} {mem : ByteMemory}
    (h : printDecimal bt buf (BitVec.intMin 64) mem =
      some (text.length, storeBytes mem buf text)) : ¬ IsDecimal text z := by
  have hr := printDecimal_some h
  rw [decimalBytes_intMin, Prod.mk.injEq] at hr
  obtain ⟨hlength, hstore⟩ := hr
  obtain ⟨c, rfl⟩ := List.length_eq_one_iff.mp hlength
  have hc := congrFun hstore buf
  simp only [storeBytes, Function.update_self] at hc
  exact hc ▸ not_isDecimal_minus z

end Decimal

/-- What `print_decimal` writes is the decimal numeral of its argument and reads back as
it: for 0, and for every other value but the smallest where the test of the sign is
executed. -/
theorem printDecimal_faithful_iff (bt : LockedBt) (buf : Nat) (a : BitVec 64)
    (mem : ByteMemory) :
    (∃ text, printDecimal bt buf a mem = some (text.length, storeBytes mem buf text) ∧
      IsDecimal text a.toInt ∧ decimalValue text = some a.toInt) ↔
      a = 0 ∨ bt = .executed ∧ a ≠ BitVec.intMin 64 := by
  constructor
  · rintro ⟨text, hwritten, htext, -⟩
    have hmin : a ≠ BitVec.intMin 64 := by
      rintro rfl
      exact not_decimal_intMin hwritten htext
    have hprints : bt.Prints a := by
      by_contra hnot
      rw [printDecimal_eq_none hnot] at hwritten
      cases hwritten
    exact hprints.imp_right fun hexec => ⟨hexec, hmin⟩
  · intro h
    have hprints : bt.Prints a := h.imp_right And.left
    have hmin : a ≠ BitVec.intMin 64 := by
      rcases h with rfl | ⟨-, hmin⟩
      · decide
      · exact hmin
    have htext := isDecimal_numeral a.toInt
    rw [← decimalBytes_eq hmin] at htext
    exact ⟨decimalBytes a, printDecimal_eq hprints buf mem, htext, htext.decimalValue⟩

/-- `5` raises the invalid opcode. Where the test is executed, `-2^63` comes out as a minus
sign. -/
theorem printDecimal_without_digits :
    (¬ ∀ (buf : Nat) (a : BitVec 64) (mem : ByteMemory),
      ∃ text, printDecimal .invalidOpcode buf a mem =
          some (text.length, storeBytes mem buf text) ∧
        IsDecimal text a.toInt ∧ decimalValue text = some a.toInt) ∧
    ¬ ∀ (buf : Nat) (a : BitVec 64) (mem : ByteMemory),
      ∃ text, printDecimal .executed buf a mem = some (text.length, storeBytes mem buf text) ∧
        IsDecimal text a.toInt ∧ decimalValue text = some a.toInt := by
  constructor
  · intro h
    obtain ⟨text, hwritten, -⟩ := h 0 5 fun _ => 0
    rw [printDecimal_eq_none (by decide)] at hwritten
    cases hwritten
  · intro h
    obtain ⟨text, hwritten, htext, -⟩ := h 0 (BitVec.intMin 64) fun _ => 0
    exact not_decimal_intMin hwritten htext

/-- The entries of `v` that `while (v[i] == '0') i++;` reads, from `i` on. -/
def scanReads : List UInt8 → Nat → List Nat
  | [], i => [i]
  | b :: v, i => i :: if b = charByte '0' then scanReads v (i + 1) else []

/-- The entries of `v` that `print_hex` reads. -/
def hexReads (a : BitVec 64) : List Nat :=
  if a = 0 then []
  else
    let v := hexLoop a bytesPerLong
    scanReads v 0 ++
      match skipZeros v with
      | some i => List.range' i (bytesPerLong * 2 - i)
      | none => []

section Hex

variable {a : BitVec 64} {v : List UInt8} {i n : Nat}

/-- The scan reads nothing behind the first entry that is not a zero digit. -/
theorem scanReads_lt (h : ∃ b ∈ v, b ≠ charByte '0') : ∀ j ∈ scanReads v i, j < i + v.length := by
  induction v generalizing i with
  | nil => simp at h
  | cons b v ih =>
      intro j hj
      rw [scanReads, List.mem_cons] at hj
      rw [List.length_cons]
      rcases hj with rfl | hj
      · omega
      · split at hj
        · next hzero =>
            obtain ⟨c, hc, hne⟩ := h
            have hmem : c ∈ v :=
              (List.mem_cons.mp hc).resolve_left fun heq => hne (heq.trans hzero)
            have hlt := ih ⟨c, hmem, hne⟩ j hj
            omega
        · cases hj

theorem hexReads_lt (a : BitVec 64) : ∀ j ∈ hexReads a, j < (hexLoop a bytesPerLong).length := by
  intro j hj
  rw [hexReads] at hj
  split at hj
  · cases hj
  · next ha =>
      obtain ⟨i, hi, hle, -⟩ := skipZeros_eq (exists_digit ha)
      simp only [hi, List.mem_append] at hj
      rcases hj with hscan | hcopy
      · simpa using scanReads_lt (exists_digit ha) j hscan
      · rw [List.mem_range'_1] at hcopy
        rw [hexLoop_length] at hle ⊢
        omega

theorem hexChar_eq {b : UInt8} (h : b.toNat < 16) : hexChar b = upperHex.char b.toNat := by
  have hall : ∀ d < 16, hexChar (.ofNat d) = upperHex.char d := by decide
  rw [← hall b.toNat h, UInt8.ofNat_toNat]

theorem toNat_byteOf (a : BitVec 64) (i : Nat) :
    (byteOf a i).toNat = a.toNat / 16 ^ (2 * i) % 256 := by
  have hpow : (16 : Nat) ^ (2 * i) = 2 ^ (8 * i) := by
    rw [show (16 : Nat) = 2 ^ 4 by norm_num, ← Nat.pow_mul]
    congr 1
    omega
  rw [byteOf, UInt8.toNat_ofNat', hpow]

theorem high_nibble (a : BitVec 64) (i : Nat) :
    hexChar (byteOf a i >>> 4) = upperHex.char (a.toNat / 16 ^ (2 * i + 1) % 16) := by
  have hnibble : (byteOf a i >>> 4).toNat = a.toNat / 16 ^ (2 * i + 1) % 16 := by
    have hshift : (byteOf a i >>> 4).toNat = (byteOf a i).toNat / 16 := by
      rw [UInt8.toNat_shiftRight, Nat.shiftRight_eq_div_pow]
      rfl
    rw [hshift, toNat_byteOf, Nat.pow_succ, ← Nat.div_div_eq_div_mul]
    omega
  rw [hexChar_eq (hnibble ▸ Nat.mod_lt _ (by decide)), hnibble]

theorem low_nibble (a : BitVec 64) (i : Nat) :
    hexChar (byteOf a i &&& 0x0f) = upperHex.char (a.toNat / 16 ^ (2 * i) % 16) := by
  have hnibble : (byteOf a i &&& 0x0f).toNat = a.toNat / 16 ^ (2 * i) % 16 := by
    have hmask : (byteOf a i &&& 0x0f).toNat = (byteOf a i).toNat % 16 := by
      rw [UInt8.toNat_and]
      exact Nat.and_two_pow_sub_one_eq_mod _ 4
    rw [hmask, toNat_byteOf]
    omega
  rw [hexChar_eq (hnibble ▸ Nat.mod_lt _ (by decide)), hnibble]

/-- The loop over the bytes collects two digits a byte. -/
theorem hexLoop_padded (a : BitVec 64) (n : Nat) :
    hexLoop a n = upperHex.padded a.toNat (2 * n) := by
  induction n with
  | zero => rfl
  | succ n ih => rw [hexLoop, high_nibble, low_nibble, ih]; rfl

/-- What goes out is the numeral of the value. -/
theorem hexBytes_eq (a : BitVec 64) : hexBytes a = upperHex.numeral a.toNat := by
  rw [hexBytes]
  split
  · next hzero =>
      rw [hzero]
      decide
  · next hne =>
      have hnat : a.toNat ≠ 0 := fun h => hne (BitVec.eq_of_toNat_eq h)
      have hlt : a.toNat < upperHex.base ^ (2 * bytesPerLong) := a.isLt.trans_eq (by decide)
      have hzero : charByte '0' = upperHex.char 0 := by decide
      rw [hexLoop_padded, hzero, NumeralSystem.dropWhile_padded hnat hlt]

end Hex

/-- What `print_hex` writes is the hexadecimal numeral of its argument taken as unsigned,
and it reads no entry of `v` that it has not written. -/
theorem printHex_faithful (buf : Nat) (a : BitVec 64) (mem : ByteMemory) :
    (∃ text, printHex buf a mem = some (text.length, storeBytes mem buf text) ∧
      upperHex.Canonical text ∧ upperHex.value text = some a.toNat ∧
      1 ≤ text.length ∧ text.length ≤ 16) ∧
    ∀ j ∈ hexReads a, j < (hexLoop a bytesPerLong).length := by
  refine ⟨⟨upperHex.numeral a.toNat, ?_, NumeralSystem.numeral_canonical _,
    NumeralSystem.value_numeral _, NumeralSystem.length_numeral_pos _, ?_⟩, hexReads_lt a⟩
  · rw [printHex_eq, hexBytes_eq]
  · exact NumeralSystem.length_numeral_le (by decide) (a.isLt.trans_eq (by decide))

end Caos
