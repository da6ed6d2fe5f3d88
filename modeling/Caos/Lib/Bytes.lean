import Mathlib.Tactic

/-!
Byte-addressed memory: little-endian words, and the predicate that a sequence
of bytes is stored at an address. A reader of a layout is related to a writer
of it through that predicate only.
-/

namespace Caos.Lib

/-- The bytes of memory, by address. -/
abbrev ByteMemory := Nat → UInt8

/-- A little-endian 16-bit word. -/
def read16 (mem : ByteMemory) (addr : Nat) : UInt16 :=
  .ofNat ((mem addr).toNat + 2 ^ 8 * (mem (addr + 1)).toNat)

/-- A little-endian 32-bit word. -/
def read32 (mem : ByteMemory) (addr : Nat) : UInt32 :=
  .ofNat ((mem addr).toNat + 2 ^ 8 * (mem (addr + 1)).toNat +
    2 ^ 16 * (mem (addr + 2)).toNat + 2 ^ 24 * (mem (addr + 3)).toNat)

/-- The bytes of a 16-bit word. -/
def bytes16 (w : UInt16) : List UInt8 :=
  [.ofNat w.toNat, .ofNat (w.toNat / 2 ^ 8)]

/-- The bytes of a 32-bit word. -/
def bytes32 (w : UInt32) : List UInt8 :=
  [.ofNat w.toNat, .ofNat (w.toNat / 2 ^ 8), .ofNat (w.toNat / 2 ^ 16),
    .ofNat (w.toNat / 2 ^ 24)]

@[simp] theorem bytes16_length (w : UInt16) : (bytes16 w).length = 2 := rfl

@[simp] theorem bytes32_length (w : UInt32) : (bytes32 w).length = 4 := rfl

/-- `bytes` stands in memory from `addr` on. -/
def StoredAt (mem : ByteMemory) : Nat → List UInt8 → Prop
  | _, [] => True
  | addr, b :: bytes => mem addr = b ∧ StoredAt mem (addr + 1) bytes

instance decidableStoredAt (mem : ByteMemory) :
    (addr : Nat) → (bytes : List UInt8) → Decidable (StoredAt mem addr bytes)
  | _, [] => instDecidableTrue
  | addr, _ :: bytes => @instDecidableAnd _ _ _ (decidableStoredAt mem (addr + 1) bytes)

/-- Memory that holds `bytes` from address 0 on. -/
def memoryOf (bytes : List UInt8) : ByteMemory := fun addr => bytes.getD addr 0

variable {mem : ByteMemory} {addr : Nat}

@[simp] theorem storedAt_nil : StoredAt mem addr [] := trivial

@[simp] theorem storedAt_cons {b : UInt8} {bytes : List UInt8} :
    StoredAt mem addr (b :: bytes) ↔ mem addr = b ∧ StoredAt mem (addr + 1) bytes :=
  Iff.rfl

@[simp] theorem storedAt_append {first second : List UInt8} :
    StoredAt mem addr (first ++ second) ↔
      StoredAt mem addr first ∧ StoredAt mem (addr + first.length) second := by
  induction first generalizing addr with
  | nil => simp
  | cons b first ih =>
      have hlen : addr + 1 + first.length = addr + (b :: first).length := by
        simp only [List.length_cons]
        omega
      rw [List.cons_append, storedAt_cons, storedAt_cons, ih, hlen, and_assoc]

theorem storedAt_read16 (addr : Nat) : StoredAt mem addr (bytes16 (read16 mem addr)) := by
  have h0 := (mem addr).toNat_lt
  have h1 := (mem (addr + 1)).toNat_lt
  refine ⟨?_, ?_, trivial⟩
  all_goals
    apply UInt8.toNat_inj.mp
    simp only [read16, UInt16.toNat_ofNat', UInt8.toNat_ofNat']
    omega

theorem storedAt_read32 (addr : Nat) : StoredAt mem addr (bytes32 (read32 mem addr)) := by
  have h0 := (mem addr).toNat_lt
  have h1 := (mem (addr + 1)).toNat_lt
  have h2 := (mem (addr + 2)).toNat_lt
  have h3 := (mem (addr + 3)).toNat_lt
  refine ⟨?_, ?_, ?_, ?_, trivial⟩
  all_goals
    apply UInt8.toNat_inj.mp
    simp only [read32, UInt32.toNat_ofNat', UInt8.toNat_ofNat', Nat.add_assoc, Nat.reduceAdd]
    omega

/-- What is written into memory stands there. -/
theorem storedAt_memoryOf (before bytes after : List UInt8) :
    StoredAt (memoryOf (before ++ bytes ++ after)) before.length bytes := by
  induction bytes generalizing before with
  | nil => exact storedAt_nil
  | cons b bytes ih =>
      constructor
      · simp [memoryOf]
      · have hnext := ih (before ++ [b])
        rwa [List.append_assoc before, List.singleton_append, List.length_append,
          List.length_singleton] at hnext

/-- Only the bytes of the range matter. -/
theorem StoredAt.congr {mem' : ByteMemory} {bytes : List UInt8} (h : StoredAt mem addr bytes)
    (hmem : ∀ a, addr ≤ a → a < addr + bytes.length → mem' a = mem a) :
    StoredAt mem' addr bytes := by
  induction bytes generalizing addr with
  | nil => exact storedAt_nil
  | cons b bytes ih =>
      rw [List.length_cons] at hmem
      constructor
      · rw [hmem addr (by omega) (by omega)]
        exact h.1
      · apply ih h.2
        intro a hlo hhi
        exact hmem a (by omega) (by omega)

/-- The byte at an offset. -/
theorem StoredAt.getD {bytes : List UInt8} {i : Nat} (h : StoredAt mem addr bytes)
    (hi : i < bytes.length) : mem (addr + i) = bytes.getD i 0 := by
  induction bytes generalizing addr i with
  | nil => simp at hi
  | cons b bytes ih =>
      cases i with
      | zero => exact h.1
      | succ i =>
          rw [List.getD_cons_succ, ← ih h.2 (by simpa using hi), Nat.add_assoc, Nat.add_comm 1]

/-- The bytes from an offset on. -/
theorem StoredAt.drop {bytes : List UInt8} {i : Nat} (h : StoredAt mem addr bytes)
    (hi : i ≤ bytes.length) : StoredAt mem (addr + i) (bytes.drop i) := by
  rw [← List.take_append_drop i bytes, storedAt_append, List.length_take, Nat.min_eq_left hi] at h
  exact h.2

/-! A word is read back from its bytes, and its bytes are those that were read. -/

theorem read16_of_storedAt {w : UInt16} (h : StoredAt mem addr (bytes16 w)) :
    read16 mem addr = w := by
  obtain ⟨h0, h1, -⟩ := h
  have hlt := w.toNat_lt
  apply UInt16.toNat_inj.mp
  rw [read16, h0, h1]
  simp only [UInt16.toNat_ofNat', UInt8.toNat_ofNat']
  omega

theorem read32_of_storedAt {w : UInt32} (h : StoredAt mem addr (bytes32 w)) :
    read32 mem addr = w := by
  obtain ⟨h0, h1, h2, h3, -⟩ := h
  have hlt := w.toNat_lt
  apply UInt32.toNat_inj.mp
  rw [read32, h0, h1, h2, h3]
  simp only [UInt32.toNat_ofNat', UInt8.toNat_ofNat']
  omega

end Caos.Lib
