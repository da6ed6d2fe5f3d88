import Caos.Lib.Stores
import Caos.Types

/-!
`caos_memcpy` and `caos_strcat` of `string.c`. `caos_memcpy` looks whether both
addresses have no bits above the lowest two set, where it means to look whether the
lowest two are clear; a kernel address never passes, and the bytes are copied one by
one. `caos_strcat` copies a string without its NUL and returns its length.
-/

namespace Caos

open Lib

/-- `while (len--) *pcdst++ = *pcsrc++;` -/
def copyBytes : Nat → Nat → Nat → ByteMemory → ByteMemory
  | _, _, 0, mem => mem
  | dst, src, len + 1, mem =>
    copyBytes (dst + 1) (src + 1) len (Function.update mem dst (mem src))

/-- The loop over whole `long` words, for this many of them. -/
def copyLongs : Nat → Nat → Nat → ByteMemory → ByteMemory
  | _, _, 0, mem => mem
  | dst, src, n + 1, mem =>
    copyLongs (dst + bytesPerLong) (src + bytesPerLong) n
      (storeBytes mem dst (readBytes mem src bytesPerLong))

/-- `caos_memcpy`. -/
def caosMemcpy (dst src len : Nat) (mem : ByteMemory) : ByteMemory :=
  if src &&& (2 ^ 64 - 4) = 0 ∧ dst &&& (2 ^ 64 - 4) = 0 then
    let n := len / bytesPerLong
    copyBytes (dst + bytesPerLong * n) (src + bytesPerLong * n) (len % bytesPerLong)
      (copyLongs dst src n mem)
  else copyBytes dst src len mem

variable {dst src len n a : Nat} {mem : ByteMemory}

/-- A copy into bytes that are not copied themselves. -/
theorem copyBytes_apply (happart : dst + len ≤ src ∨ src + len ≤ dst) :
    copyBytes dst src len mem a =
      if dst ≤ a ∧ a < dst + len then mem (src + (a - dst)) else mem a := by
  induction len generalizing dst src mem with
  | zero =>
      rw [copyBytes, if_neg]
      omega
  | succ len ih =>
      rw [copyBytes, ih (by omega)]
      by_cases hfirst : a = dst
      · subst hfirst
        rw [if_neg (by omega), if_pos (by omega), Function.update_self, Nat.sub_self, Nat.add_zero]
      · by_cases hin : dst ≤ a ∧ a < dst + (len + 1)
        · have hoffset : src + 1 + (a - (dst + 1)) = src + (a - dst) := by omega
          rw [if_pos (by omega), if_pos hin, hoffset, Function.update_of_ne (by omega)]
        · rw [if_neg (by omega), if_neg hin, Function.update_of_ne hfirst]

theorem copyLongs_apply (happart : dst + bytesPerLong * n ≤ src ∨ src + bytesPerLong * n ≤ dst) :
    copyLongs dst src n mem a =
      if dst ≤ a ∧ a < dst + bytesPerLong * n then mem (src + (a - dst)) else mem a := by
  induction n generalizing dst src mem with
  | zero =>
      rw [copyLongs, if_neg]
      omega
  | succ n ih =>
      rw [Nat.mul_succ] at happart ⊢
      rw [copyLongs, ih (by omega)]
      by_cases hrest : dst + bytesPerLong ≤ a ∧ a < dst + bytesPerLong + bytesPerLong * n
      · have hoffset : src + bytesPerLong + (a - (dst + bytesPerLong)) = src + (a - dst) := by omega
        rw [if_pos hrest, if_pos (by omega), hoffset, storeBytes_readBytes, if_neg (by omega)]
      · rw [if_neg hrest, storeBytes_readBytes]
        by_cases hfirst : dst ≤ a ∧ a < dst + bytesPerLong
        · rw [if_pos hfirst, if_pos (by omega)]
        · rw [if_neg hfirst, if_neg (by omega)]

/-- `caos_memcpy` copies between ranges that lie apart, on either of its ways. -/
theorem caosMemcpy_apply (happart : dst + len ≤ src ∨ src + len ≤ dst) :
    caosMemcpy dst src len mem a =
      if dst ≤ a ∧ a < dst + len then mem (src + (a - dst)) else mem a := by
  rw [caosMemcpy]
  split
  · have hlen : bytesPerLong * (len / bytesPerLong) + len % bytesPerLong = len :=
      Nat.div_add_mod len bytesPerLong
    have hwords : ∀ b, copyLongs dst src (len / bytesPerLong) mem b =
        if dst ≤ b ∧ b < dst + bytesPerLong * (len / bytesPerLong) then mem (src + (b - dst))
        else mem b :=
      fun b => copyLongs_apply (by omega)
    dsimp only
    rw [copyBytes_apply (by omega)]
    by_cases hrest : dst + bytesPerLong * (len / bytesPerLong) ≤ a ∧ a < dst + len
    · -- the bytes behind the last whole word
      have hoffset : src + bytesPerLong * (len / bytesPerLong) +
          (a - (dst + bytesPerLong * (len / bytesPerLong))) = src + (a - dst) := by omega
      rw [if_pos (by omega), if_pos (by omega), hoffset, hwords, if_neg (by omega)]
    · rw [if_neg (by omega), hwords]
      by_cases hword : dst ≤ a ∧ a < dst + bytesPerLong * (len / bytesPerLong)
      · rw [if_pos hword, if_pos (by omega)]
      · rw [if_neg hword, if_neg (by omega)]
  · exact copyBytes_apply happart

/-- `text` is the string at `addr`: its bytes and the NUL stand there. -/
structure IsCString (mem : ByteMemory) (addr : Nat) (text : List UInt8) : Prop where
  stored : StoredAt mem addr (text ++ [0])
  no_nul : 0 ∉ text

/-- `while (*A_szSrc != '\0') *A_szDest++ = *A_szSrc++;`, with the source pointer it
ends at. -/
def strcatLoop : Nat → Nat → Nat → ByteMemory → Option (Nat × ByteMemory)
  | 0, _, _, _ => none
  | fuel + 1, dest, src, mem =>
    if mem src ≠ 0 then
      strcatLoop fuel (dest + 1) (src + 1) (Function.update mem dest (mem src))
    else some (src, mem)

/-- `caos_strcat`. -/
def caosStrcat (fuel dest src : Nat) (mem : ByteMemory) : Option (Nat × ByteMemory) :=
  (strcatLoop fuel dest src mem).map fun (src', mem') => (src' - src, mem')

section Strcat

variable {text : List UInt8} {b : UInt8} {fuel : Nat}

theorem IsCString.head (h : IsCString mem src (b :: text)) : mem src = b ∧ b ≠ 0 := by
  refine ⟨h.stored.1, ?_⟩
  rintro rfl
  exact h.no_nul List.mem_cons_self

theorem IsCString.tail (h : IsCString mem src (b :: text)) : IsCString mem (src + 1) text :=
  ⟨h.stored.2, fun hmem => h.no_nul (List.mem_cons_of_mem _ hmem)⟩

/-- Stores that lie apart keep a string. -/
theorem IsCString.storeBytes {bytes : List UInt8} (h : IsCString mem src text)
    (happart : src + text.length + 1 ≤ dst ∨ dst + bytes.length ≤ src) :
    IsCString (Caos.Lib.storeBytes mem dst bytes) src text := by
  refine ⟨h.stored.storeBytes ?_, h.no_nul⟩
  rw [List.length_append, List.length_singleton]
  omega

/-- One store apart from a string keeps what is left of it. -/
theorem IsCString.tail_update {x : UInt8} (h : IsCString mem src (b :: text))
    (happart : src + text.length + 2 ≤ dst ∨ dst ≤ src) :
    IsCString (Function.update mem dst x) (src + 1) text := by
  apply @IsCString.storeBytes dst (src + 1) mem text [x] h.tail
  rw [List.length_singleton]
  omega

theorem strcatLoop_eq (h : IsCString mem src text)
    (happart : src + text.length + 1 ≤ dst ∨ dst + text.length ≤ src)
    (hfuel : text.length < fuel) :
    strcatLoop fuel dst src mem = some (src + text.length, storeBytes mem dst text) := by
  induction text generalizing fuel dst src mem with
  | nil =>
      obtain ⟨fuel, rfl⟩ : ∃ k, fuel = k + 1 := ⟨fuel - 1, by omega⟩
      have hend : mem src = 0 := h.stored.1
      rw [strcatLoop, if_neg (not_not.mpr hend)]
      rfl
  | cons b text ih =>
      rw [List.length_cons] at happart hfuel ⊢
      obtain ⟨fuel, rfl⟩ : ∃ k, fuel = k + 1 := ⟨fuel - 1, by omega⟩
      obtain ⟨hb, hne⟩ := h.head
      rw [strcatLoop, hb, if_pos hne]
      have hrest : IsCString (Function.update mem dst b) (src + 1) text :=
        h.tail_update (by omega)
      rw [ih hrest (by omega) (by omega), storeBytes, Nat.add_assoc, Nat.add_comm 1]

/-- `caos_strcat` stores the string and returns its length. -/
theorem caosStrcat_eq (h : IsCString mem src text)
    (happart : src + text.length + 1 ≤ dst ∨ dst + text.length ≤ src)
    (hfuel : text.length < fuel) :
    caosStrcat fuel dst src mem = some (text.length, storeBytes mem dst text) := by
  rw [caosStrcat, strcatLoop_eq h happart hfuel]
  simp only [Option.map_some, Nat.add_sub_cancel_left]

end Strcat

end Caos
