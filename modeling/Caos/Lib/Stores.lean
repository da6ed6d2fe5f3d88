import Mathlib.Data.List.GetD
import Caos.Lib.Bytes

/-!
Sequences of byte stores. `storeBytes` puts a list of bytes at an address,
`readBytes` takes one from there. What a store leaves at an address is given by
one equation; everything else about stores follows from it.
-/

namespace Caos.Lib

/-- Store `bytes` from `addr` on, one after another. -/
def storeBytes (mem : ByteMemory) : Nat → List UInt8 → ByteMemory
  | _, [] => mem
  | addr, b :: bytes => storeBytes (Function.update mem addr b) (addr + 1) bytes

/-- The `n` bytes from `addr` on. -/
def readBytes (mem : ByteMemory) : Nat → Nat → List UInt8
  | _, 0 => []
  | addr, n + 1 => mem addr :: readBytes mem (addr + 1) n

variable {mem : ByteMemory} {addr a n : Nat} {bytes first second : List UInt8}

@[simp] theorem storeBytes_nil : storeBytes mem addr [] = mem := rfl

theorem storeBytes_append : storeBytes mem addr (first ++ second) =
    storeBytes (storeBytes mem addr first) (addr + first.length) second := by
  induction first generalizing mem addr with
  | nil => rfl
  | cons b first ih =>
      have hlen : addr + 1 + first.length = addr + (b :: first).length := by
        rw [List.length_cons]
        omega
      rw [List.cons_append, storeBytes, ih, hlen, storeBytes]

theorem storeBytes_concat {b : UInt8} : storeBytes mem addr (first ++ [b]) =
    Function.update (storeBytes mem addr first) (addr + first.length) b :=
  storeBytes_append

/-- What stands at an address after the stores. -/
theorem storeBytes_apply : storeBytes mem addr bytes a =
    if addr ≤ a ∧ a < addr + bytes.length then bytes.getD (a - addr) 0 else mem a := by
  induction bytes using List.reverseRecOn with
  | nil =>
      rw [storeBytes_nil, if_neg]
      simp only [List.length_nil]
      omega
  | append_singleton bytes b ih =>
      rw [storeBytes_concat, List.length_append, List.length_singleton]
      by_cases hlast : a = addr + bytes.length
      · subst hlast
        rw [Function.update_self, if_pos (by omega), Nat.add_sub_cancel_left]
        simp
      · rw [Function.update_of_ne hlast, ih]
        by_cases hin : addr ≤ a ∧ a < addr + bytes.length
        · rw [if_pos hin, if_pos (by omega), List.getD_append _ _ _ _ (by omega)]
        · rw [if_neg hin, if_neg (by omega)]

theorem storeBytes_of_outside (h : a < addr ∨ addr + bytes.length ≤ a) :
    storeBytes mem addr bytes a = mem a := by
  rw [storeBytes_apply, if_neg (by omega)]

/-- What is stored stands there. -/
theorem storedAt_storeBytes : StoredAt (storeBytes mem addr bytes) addr bytes := by
  induction bytes generalizing mem addr with
  | nil => exact storedAt_nil
  | cons b bytes ih =>
      refine ⟨?_, ih⟩
      rw [storeBytes, storeBytes_of_outside (.inl (Nat.lt_succ_self addr)), Function.update_self]

/-- Bytes that lie apart from the stores are kept. -/
theorem StoredAt.storeBytes {addr' : Nat} (h : StoredAt mem addr first)
    (happart : addr + first.length ≤ addr' ∨ addr' + second.length ≤ addr) :
    StoredAt (Caos.Lib.storeBytes mem addr' second) addr first := by
  apply h.congr
  intro a hlo hhi
  exact storeBytes_of_outside (by omega)

@[simp] theorem readBytes_length : (readBytes mem addr n).length = n := by
  induction n generalizing addr with
  | zero => rfl
  | succ n ih => rw [readBytes, List.length_cons, ih]

theorem readBytes_getD (h : a < n) : (readBytes mem addr n).getD a 0 = mem (addr + a) := by
  induction n generalizing addr a with
  | zero => omega
  | succ n ih =>
      cases a with
      | zero => rfl
      | succ a =>
          rw [readBytes, List.getD_cons_succ, ih (by omega), Nat.add_assoc, Nat.add_comm 1 a]

/-- A block of bytes read at one place and stored at another. -/
theorem storeBytes_readBytes {src : Nat} : storeBytes mem addr (readBytes mem src n) a =
    if addr ≤ a ∧ a < addr + n then mem (src + (a - addr)) else mem a := by
  rw [storeBytes_apply, readBytes_length]
  split
  · exact readBytes_getD (by omega)
  · rfl

end Caos.Lib
