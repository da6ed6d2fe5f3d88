import Caos.Lib.Stores

/-!
Little-endian words of any width in byte-addressed memory: the bytes of a number, and the
number that bytes denote. A word that was stored is read back, and it depends on its own bytes
only.
-/

namespace Caos.Lib

/-- The `n` low bytes of a number. -/
def leBytes : Nat → Nat → List UInt8
  | 0, _ => []
  | n + 1, w => .ofNat w :: leBytes n (w / 256)

/-- The number that bytes denote. -/
def leNat : List UInt8 → Nat
  | [] => 0
  | b :: bytes => b.toNat + 256 * leNat bytes

/-- The word of `n` bytes at an address. -/
def readWord (mem : ByteMemory) (addr n : Nat) : Nat := leNat (readBytes mem addr n)

/-- The 64-bit words of memory, by number. -/
def words (mem : ByteMemory) (i : Nat) : Nat := readWord mem (8 * i) 8

variable {mem mem' : ByteMemory} {addr m n w : Nat} {bytes first second : List UInt8}

@[simp] theorem leBytes_length : (leBytes n w).length = n := by
  induction n generalizing w with
  | zero => rfl
  | succ n ih => simp [leBytes, ih]

/-- A number that fits is denoted by its bytes. -/
theorem leNat_leBytes (h : w < 256 ^ n) : leNat (leBytes n w) = w := by
  induction n generalizing w with
  | zero =>
      have hzero : w = 0 := by simpa using h
      rw [hzero, leBytes, leNat]
  | succ n ih =>
      have hdiv : w / 256 < 256 ^ n := by
        apply Nat.div_lt_of_lt_mul
        rwa [Nat.pow_succ, Nat.mul_comm] at h
      simp only [leBytes, leNat, ih hdiv, UInt8.toNat_ofNat']
      omega

theorem leNat_append :
    leNat (first ++ second) = leNat first + 256 ^ first.length * leNat second := by
  induction first with
  | nil => simp [leNat]
  | cons b first ih =>
      simp only [List.cons_append, leNat, ih, List.length_cons, Nat.pow_succ]
      ring

theorem leNat_lt : leNat bytes < 256 ^ bytes.length := by
  induction bytes with
  | nil => simp [leNat]
  | cons b bytes ih =>
      have hbyte := b.toNat_lt
      rw [leNat, List.length_cons, Nat.pow_succ]
      omega

theorem readBytes_append :
    readBytes mem addr (m + n) = readBytes mem addr m ++ readBytes mem (addr + m) n := by
  induction m generalizing addr with
  | zero => simp [readBytes]
  | succ m ih =>
      have haddr : addr + 1 + m = addr + (m + 1) := by omega
      rw [Nat.add_right_comm, readBytes, readBytes, ih, haddr, List.cons_append]

theorem readBytes_congr (h : ∀ a, addr ≤ a → a < addr + n → mem' a = mem a) :
    readBytes mem' addr n = readBytes mem addr n := by
  induction n generalizing addr with
  | zero => rfl
  | succ n ih =>
      rw [readBytes, readBytes, h addr (Nat.le_refl _) (by omega)]
      rw [ih fun a hlo hhi => h a (by omega) (by omega)]

/-- Bytes are read back where they stand. -/
theorem readBytes_of_storedAt (h : StoredAt mem addr bytes) :
    readBytes mem addr bytes.length = bytes := by
  induction bytes generalizing addr with
  | nil => rfl
  | cons b bytes ih => rw [List.length_cons, readBytes, h.1, ih h.2]

theorem readWord_lt : readWord mem addr n < 256 ^ n := by
  have hlt := @leNat_lt (readBytes mem addr n)
  rwa [readBytes_length] at hlt

theorem readWord_congr (h : ∀ a, addr ≤ a → a < addr + n → mem' a = mem a) :
    readWord mem' addr n = readWord mem addr n :=
  congrArg leNat (readBytes_congr h)

/-- A word is the same wherever its bytes are. -/
theorem readWord_moved {addr' : Nat} (h : ∀ i < n, mem' (addr' + i) = mem (addr + i)) :
    readWord mem' addr' n = readWord mem addr n := by
  have hbytes : readBytes mem' addr' n = readBytes mem addr n := by
    induction n generalizing addr addr' with
    | zero => rfl
    | succ n ih =>
        have hfirst : mem' addr' = mem addr := h 0 (Nat.succ_pos n)
        have hrest : readBytes mem' (addr' + 1) n = readBytes mem (addr + 1) n := by
          apply ih
          intro i hi
          have hnext := h (i + 1) (by omega)
          rwa [Nat.add_assoc, Nat.add_assoc, Nat.add_comm 1 i]
        rw [readBytes, readBytes, hfirst, hrest]
  rw [readWord, readWord, hbytes]

theorem readWord_of_storedAt (h : StoredAt mem addr (leBytes n w)) (hw : w < 256 ^ n) :
    readWord mem addr n = w := by
  have hread := readBytes_of_storedAt h
  rw [leBytes_length] at hread
  rw [readWord, hread, leNat_leBytes hw]

/-- The word that was stored. -/
theorem readWord_storeBytes (hw : w < 256 ^ n) :
    readWord (storeBytes mem addr (leBytes n w)) addr n = w :=
  readWord_of_storedAt storedAt_storeBytes hw

/-- A word is made of its two parts. -/
theorem readWord_add :
    readWord mem addr (m + n) = readWord mem addr m + 256 ^ m * readWord mem (addr + m) n := by
  rw [readWord, readBytes_append, leNat_append, readBytes_length]
  rfl

theorem readWord_zero (h : ∀ a, addr ≤ a → a < addr + n → mem a = 0) : readWord mem addr n = 0 := by
  induction n generalizing addr with
  | zero => rfl
  | succ n ih =>
      have hrest : readWord mem (addr + 1) n = 0 :=
        ih fun a hlo hhi => h a (by omega) (by omega)
      rw [readWord] at hrest ⊢
      rw [readBytes, leNat, hrest, h addr (Nat.le_refl _) (by omega)]
      rfl

theorem words_congr {i : Nat} (h : ∀ a, 8 * i ≤ a → a < 8 * i + 8 → mem' a = mem a) :
    words mem' i = words mem i :=
  readWord_congr h

end Caos.Lib
