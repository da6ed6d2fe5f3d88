import Caos.Bitops
import Caos.Copy

/-!
The number output of `printf.c`. `print_decimal` and `print_hex` collect digits in an
array `v` of 32 bytes and then store them in the buffer; both return how many bytes
they stored.
-/

namespace Caos

open Lib

/-- The byte of a character constant. -/
def charByte (c : Char) : UInt8 := .ofNat c.toNat

/-- `while (a > 0) { v[i++] = a % 10; a /= 10; }` with `room` entries of `v` left: the
entries it fills. `none` is a store behind `v`. -/
def digitLoop : Nat → BitVec 64 → Option (List UInt8)
  | 0, a => if (0#64).slt a then none else some []
  | room + 1, a =>
    if (0#64).slt a then
      (digitLoop room (a.sdiv 10)).map fun v => .ofNat (a.srem 10).toNat :: v
    else some []

/-- `for (--i; i >= 0; i--) { *A_szBuffer++ = v[i]+'0'; count++; }`. -/
def storeDigits (v : List UInt8) : Nat → Nat → Nat → ByteMemory → Nat × ByteMemory
  | 0, _, count, mem => (count, mem)
  | i + 1, buf, count, mem =>
    storeDigits v i (buf + 1) (count + 1) (Function.update mem buf (v.getD i 0 + charByte '0'))

/-- `print_decimal`. It does not return from an invalid opcode in `test_bit`. -/
def printDecimal (bt : LockedBt) (buf : Nat) (a : BitVec 64) (mem : ByteMemory) :
    Option (Nat × ByteMemory) :=
  if a = 0 then some (1, Function.update mem buf (charByte '0'))
  else do
    let sign ← testBit bt 63 a
    if sign ≠ 0 then
      (digitLoop 32 (-a)).map fun v =>
        storeDigits v v.length (buf + 1) 1 (Function.update mem buf (charByte '-'))
    else (digitLoop 32 a).map fun v => storeDigits v v.length buf 0 mem

/-- The character of a nibble. -/
def hexChar (nibble : UInt8) : UInt8 := if nibble ≤ 9 then nibble + 0x30 else nibble + 0x37

/-- `p[i]` for `p = (unsigned char *)&a`. -/
def byteOf (a : BitVec 64) (i : Nat) : UInt8 := .ofNat (a.toNat / 2 ^ (8 * i))

/-- The loop of `print_hex` over the bytes below `i`: the entries of `v` it fills. -/
def hexLoop (a : BitVec 64) : Nat → List UInt8
  | 0 => []
  | i + 1 => hexChar (byteOf a i >>> 4) :: hexChar (byteOf a i &&& 0x0f) :: hexLoop a i

/-- `while (v[i] == '0') i++;`. `none` is a read behind the entries that are filled. -/
def skipZeros : List UInt8 → Option Nat
  | [] => none
  | b :: v => if b = charByte '0' then (skipZeros v).map (· + 1) else some 0

/-- `for (j=0; j<count; j++) buf[j] = v[i++];` -/
def copyDigits (v : List UInt8) : Nat → Nat → Nat → ByteMemory → ByteMemory
  | 0, _, _, mem => mem
  | count + 1, i, buf, mem =>
    copyDigits v count (i + 1) (buf + 1) (Function.update mem buf (v.getD i 0))

/-- `print_hex`. -/
def printHex (buf : Nat) (a : BitVec 64) (mem : ByteMemory) : Option (Nat × ByteMemory) :=
  if a = 0 then some (1, Function.update mem buf 0x30)
  else
    let v := hexLoop a bytesPerLong
    (skipZeros v).map fun i =>
      let count := bytesPerLong * 2 - i
      (count, copyDigits v count i buf mem)

/-- Whether `print_decimal` gets past its test of the sign. -/
def LockedBt.Prints (bt : LockedBt) (a : BitVec 64) : Prop := a = 0 ∨ bt = .executed

instance (bt : LockedBt) : DecidablePred bt.Prints :=
  fun _ => inferInstanceAs (Decidable (_ ∨ _))

/-- The bytes `print_decimal` emits, if it returns. -/
def decimalBytes (a : BitVec 64) : List UInt8 :=
  if a = 0 then [charByte '0']
  else if a.msb then
    charByte '-' :: (((digitLoop 32 (-a)).getD []).reverse.map (· + charByte '0'))
  else ((digitLoop 32 a).getD []).reverse.map (· + charByte '0')

/-- The bytes `print_hex` emits. -/
def hexBytes (a : BitVec 64) : List UInt8 :=
  if a = 0 then [charByte '0']
  else (hexLoop a bytesPerLong).dropWhile (· = charByte '0')

section Decimal

variable {a : BitVec 64} {v : List UInt8} {n buf count : Nat} {mem : ByteMemory}

/-- One division of a positive value. -/
theorem toNat_sdiv_ten (h : (0#64).slt a = true) : (a.sdiv 10).toNat = a.toNat / 10 := by
  have hpos := BitVec.slt_iff_toInt_lt.mp h
  have hmsb : a.msb = false := by
    by_contra hne
    rw [Bool.not_eq_false] at hne
    have hneg := BitVec.toInt_neg_of_msb_true hne
    simp at hpos
    omega
  have hten : (10#64).msb = false := by decide
  change (a.sdiv 10#64).toNat = _
  rw [BitVec.sdiv_eq, hmsb, hten]
  exact BitVec.toNat_udiv

/-- A value with at most `n` digits fills no more than `n` entries. -/
theorem digitLoop_some (h : a.toNat < 10 ^ n) :
    ∃ v, digitLoop n a = some v ∧ v.length ≤ n := by
  induction n generalizing a with
  | zero =>
      have hzero : a = 0#64 := by
        apply BitVec.eq_of_toNat_eq
        simpa using h
      subst hzero
      exact ⟨[], by decide, le_rfl⟩
  | succ n ih =>
      rw [digitLoop]
      split
      · next hpos =>
          have hdiv : (a.sdiv 10).toNat < 10 ^ n := by
            rw [toNat_sdiv_ten hpos]
            rw [Nat.pow_succ] at h
            exact Nat.div_lt_of_lt_mul (by omega)
          obtain ⟨v, hv, hlen⟩ := ih hdiv
          exact ⟨_, by rw [hv]; rfl, by simpa using hlen⟩
      · exact ⟨[], rfl, Nat.zero_le _⟩

/-- The array has room for the digits of any value. -/
theorem digitLoop_isSome (a : BitVec 64) : ∃ v, digitLoop 32 a = some v := by
  have hlt : a.toNat < 10 ^ 32 := a.isLt.trans (by norm_num)
  obtain ⟨v, hv, _⟩ := digitLoop_some hlt
  exact ⟨v, hv⟩

/-- The digits go out from the last to the first, one byte each. -/
theorem storeDigits_eq (hn : n ≤ v.length) :
    storeDigits v n buf count mem =
      (count + n, storeBytes mem buf ((v.take n).reverse.map (· + charByte '0'))) := by
  induction n generalizing buf count mem with
  | zero => rfl
  | succ n ih =>
      have hlast : (v.take (n + 1)).reverse = v.getD n 0 :: (v.take n).reverse := by
        rw [List.take_add_one, List.getElem?_eq_getElem (by omega), Option.toList_some,
          List.reverse_append, List.getD_eq_getElem _ _ (by omega)]
        rfl
      rw [storeDigits, ih (by omega), hlast, List.map_cons, storeBytes]
      rw [Nat.add_assoc, Nat.add_comm 1]

theorem testBit_msb (a : BitVec 64) :
    testBit .executed 63 a = some (if a.msb then .allOnes 64 else 0) := by
  rw [testBit, BitVec.msb_eq_getLsbD_last]

/-- `print_decimal` stores what it emits and returns how much that is. -/
theorem printDecimal_eq {bt : LockedBt} (hbt : bt.Prints a) (buf : Nat) (mem : ByteMemory) :
    printDecimal bt buf a mem =
      some ((decimalBytes a).length, storeBytes mem buf (decimalBytes a)) := by
  rw [printDecimal, decimalBytes]
  split
  · rfl
  · next hne =>
      obtain rfl : bt = .executed := hbt.resolve_left hne
      rw [testBit_msb, Option.bind_eq_bind, Option.bind_some]
      cases hmsb : a.msb with
      | true =>
          obtain ⟨v, hv⟩ := digitLoop_isSome (-a)
          have hsign : (if true then BitVec.allOnes 64 else 0) ≠ 0 := by decide
          rw [if_pos hsign, hv, Option.map_some, storeDigits_eq le_rfl, List.take_length,
            if_pos rfl, Option.getD_some, storeBytes, List.length_cons, List.length_map,
            List.length_reverse, Nat.add_comm]
      | false =>
          obtain ⟨v, hv⟩ := digitLoop_isSome a
          have hsign : ¬ (if false then BitVec.allOnes 64 else 0) ≠ 0 := by decide
          rw [if_neg hsign, hv, Option.map_some, storeDigits_eq le_rfl, List.take_length,
            if_neg Bool.false_ne_true, Option.getD_some, List.length_map, List.length_reverse,
            Nat.zero_add]

/-- It does not return if it does not get past the test. -/
theorem printDecimal_eq_none {bt : LockedBt} (hbt : ¬ bt.Prints a) (buf : Nat)
    (mem : ByteMemory) : printDecimal bt buf a mem = none := by
  obtain ⟨hne, hexec⟩ := not_or.mp hbt
  cases bt with
  | invalidOpcode => rw [printDecimal, if_neg hne]; rfl
  | executed => exact absurd rfl hexec

/-- Whatever `print_decimal` returns, it has stored what it emits. -/
theorem printDecimal_some {bt : LockedBt} {r : Nat × ByteMemory}
    (h : printDecimal bt buf a mem = some r) :
    r = ((decimalBytes a).length, storeBytes mem buf (decimalBytes a)) := by
  by_cases hbt : bt.Prints a
  · rw [printDecimal_eq hbt] at h
    exact (Option.some.inj h).symm
  · rw [printDecimal_eq_none hbt] at h
    cases h

end Decimal

section Hex

variable {a : BitVec 64} {v : List UInt8} {i n buf count : Nat} {mem : ByteMemory}

@[simp] theorem hexLoop_length : (hexLoop a n).length = 2 * n := by
  induction n with
  | zero => rfl
  | succ n ih =>
      rw [hexLoop, List.length_cons, List.length_cons, ih]
      omega

/-- The scan stops at the first entry that is not a zero digit. -/
theorem skipZeros_eq (h : ∃ b ∈ v, b ≠ charByte '0') :
    ∃ i, skipZeros v = some i ∧ i ≤ v.length ∧ v.drop i = v.dropWhile (· = charByte '0') := by
  induction v with
  | nil => simp at h
  | cons b v ih =>
      rw [skipZeros]
      rcases eq_or_ne b (charByte '0') with hzero | hne
      · obtain ⟨c, hc, hcne⟩ := h
        have hmem : c ∈ v := (List.mem_cons.mp hc).resolve_left fun heq => hcne (heq.trans hzero)
        obtain ⟨i, hi, hlen, hdrop⟩ := ih ⟨c, hmem, hcne⟩
        refine ⟨i + 1, by rw [if_pos hzero, hi]; rfl, by simpa using hlen, ?_⟩
        rw [List.drop_succ_cons, hdrop, List.dropWhile_cons_of_pos (by simpa using hzero)]
      · refine ⟨0, if_neg hne, Nat.zero_le _, ?_⟩
        rw [List.drop_zero, List.dropWhile_cons_of_neg (by simpa using hne)]

theorem copyDigits_eq (h : i + count ≤ v.length) :
    copyDigits v count i buf mem = storeBytes mem buf ((v.drop i).take count) := by
  induction count generalizing i buf mem with
  | zero => simp [copyDigits]
  | succ count ih =>
      rw [copyDigits, ih (by omega), List.drop_eq_getElem_cons (show i < v.length by omega),
        List.take_succ_cons, storeBytes, List.getD_eq_getElem _ _ (by omega)]

/-- Both nibbles of a byte are zero digits only if the byte is zero. -/
theorem eq_zero_of_hexChar {b : UInt8} (hhigh : hexChar (b >>> 4) = charByte '0')
    (hlow : hexChar (b &&& 0x0f) = charByte '0') : b = 0 := by
  have hall : ∀ k : Fin (2 ^ 8), hexChar (UInt8.ofNat k.val >>> 4) = charByte '0' →
      hexChar (UInt8.ofNat k.val &&& 0x0f) = charByte '0' → UInt8.ofNat k.val = 0 := by
    decide +kernel
  have hbyte := hall ⟨b.toNat, b.toNat_lt⟩
  simp only [UInt8.ofNat_toNat] at hbyte
  exact hbyte hhigh hlow

theorem byteOf_of_zeros (h : ∀ b ∈ hexLoop a n, b = charByte '0') : ∀ i < n, byteOf a i = 0 := by
  induction n with
  | zero =>
      intro i hi
      omega
  | succ n ih =>
      rw [hexLoop, List.forall_mem_cons, List.forall_mem_cons] at h
      intro i hi
      rcases Nat.lt_succ_iff_lt_or_eq.mp hi with hlt | rfl
      · exact ih h.2.2 i hlt
      · exact eq_zero_of_hexChar h.1 h.2.1

/-- A word is zero if its bytes are. -/
theorem mod_of_byteOf (h : ∀ i < n, byteOf a i = 0) : a.toNat % 2 ^ (8 * n) = 0 := by
  induction n with
  | zero => simp [Nat.mod_one]
  | succ n ih =>
      have hbyte := congrArg UInt8.toNat (h n (Nat.lt_succ_self n))
      rw [byteOf, UInt8.toNat_ofNat', UInt8.toNat_zero, Nat.pow_mul] at hbyte
      have hrest := ih fun i hi => h i (hi.trans (Nat.lt_succ_self n))
      rw [Nat.pow_mul] at hrest ⊢
      rw [Nat.mod_pow_succ, hrest, hbyte, Nat.mul_zero]

theorem exists_digit (ha : a ≠ 0) : ∃ b ∈ hexLoop a bytesPerLong, b ≠ charByte '0' := by
  by_contra hnone
  simp only [not_exists, not_and, not_not] at hnone
  have hmod := mod_of_byteOf (byteOf_of_zeros hnone)
  change a.toNat % 2 ^ 64 = 0 at hmod
  rw [Nat.mod_eq_of_lt a.isLt] at hmod
  exact ha (BitVec.eq_of_toNat_eq hmod)

/-- `print_hex` stores what it emits and returns how much that is. -/
theorem printHex_eq (buf : Nat) (a : BitVec 64) (mem : ByteMemory) :
    printHex buf a mem = some ((hexBytes a).length, storeBytes mem buf (hexBytes a)) := by
  rw [printHex, hexBytes]
  split
  · rfl
  · next ha =>
      obtain ⟨i, hi, hle, hdrop⟩ := skipZeros_eq (exists_digit ha)
      have hlen : (hexLoop a bytesPerLong).length = bytesPerLong * 2 := by
        rw [hexLoop_length, Nat.mul_comm]
      have hcount : ((hexLoop a bytesPerLong).drop i).length = bytesPerLong * 2 - i := by
        rw [List.length_drop, hlen]
      simp only [hi, Option.map_some]
      rw [copyDigits_eq (by omega), ← hcount, List.take_length, hdrop]

end Hex

end Caos
