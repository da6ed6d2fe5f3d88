import Caos.Bitops
import Caos.Console.Bounds
import Caos.Console.Printf
import Caos.Lib.Transducer

/-!
`keyboard.c`: one scan code a call of `keyboard_isr`. Status keys change a word of
modifier bits, every other press is looked up in `scan_to_ascii` and printed.
-/

namespace Caos

open Lib

/-! ## `keyboard.h` -/

def mkShift : BitVec 64 := 1#64 <<< 0

def mkCtrl : BitVec 64 := 1#64 <<< 1

def mkAlt : BitVec 64 := 1#64 <<< 2

def mkCapslock : BitVec 64 := 1#64 <<< 3

def mkScrolllock : BitVec 64 := 1#64 <<< 4

def mkNumlock : BitVec 64 := 1#64 <<< 5

def scanNumlock : UInt8 := 0x45

def scanCapslock : UInt8 := 0x1d

def scanScrolllock : UInt8 := 0x46

def scanLeftshift : UInt8 := 0x2a

def scanLeftalt : UInt8 := 0x38

def scanLeftctrl : UInt8 := 0x3a

def scanEnter : UInt8 := 0x1c

def scanBackspace : UInt8 := 0x0e

/-! ## `scan_to_ascii` -/

/-- The last four lines of the tables without shift. -/
def keypadTable : List UInt8 :=
  [0x03, 0x03, 0x03, 0x03, 0x03, 0x00, 0x00, 0x00, 0x00, 0x00] ++ literal "-" ++
  [0x00, 0x00, 0x00] ++ literal "+" ++ [0x00] ++
  [0x00, 0x00, 0x00, 0x7f, 0x00, 0x00, 0x5c, 0x03,
   0x03, 0x00, 0x00, 0x00, 0x00, 0x00, 0x00, 0x00] ++
  [0x0d, 0x00] ++ literal "/" ++
  [0x00, 0x00, 0x00, 0x00, 0x00, 0x00, 0x00, 0x00, 0x00, 0x00, 0x00, 0x00, 0x7f] ++
  [0x00, 0x00, 0x00, 0x00, 0x00, 0x00, 0x00, 0x00, 0x00, 0x00] ++ literal "/" ++
  [0x00, 0x00, 0x00, 0x00, 0x00]

/-- The last four lines of the tables with shift. -/
def keypadShiftTable : List UInt8 :=
  [0x01, 0x01, 0x01, 0x01, 0x01, 0x00, 0x00, 0x00, 0x00, 0x00] ++ literal "-" ++
  [0x00, 0x00, 0x00] ++ literal "+" ++ [0x00] ++
  [0x00, 0x00, 0x01, 0x7f, 0x00, 0x00, 0x00, 0x01,
   0x01, 0x00, 0x00, 0x00, 0x00, 0x00, 0x00, 0x00] ++
  [0x0d, 0x00] ++ literal "/" ++
  [0x00, 0x00, 0x00, 0x00, 0x00, 0x00, 0x00, 0x00, 0x00, 0x00, 0x00, 0x00, 0x7f] ++
  [0x00, 0x00, 0x00, 0x00, 0x00, 0x00, 0x00, 0x00, 0x00, 0x00] ++ literal "/" ++
  [0x00, 0x00, 0x00, 0x00, 0x00]

def normalTable : List UInt8 :=
  [0x00, 0x1b] ++ literal "1234567890-=" ++ [0x08, 0x09] ++
  literal "qwertyuiop[]" ++ [0x0d, 0x00] ++ literal "as" ++
  literal "dfghjkl;" ++ [0x27] ++ literal "`" ++ [0x00, 0x5c] ++ literal "zxcv" ++
  literal "bnm,./" ++ [0x00] ++ literal "*" ++ [0x00] ++ literal " " ++
  [0x00, 0x03, 0x03, 0x03, 0x03, 0x08] ++
  keypadTable

def capslockTable : List UInt8 :=
  [0x00, 0x1b] ++ literal "1234567890-=" ++ [0x08, 0x09] ++
  literal "QWERTYUIOP[]" ++ [0x0d, 0x00] ++ literal "AS" ++
  literal "DFGHJKL;" ++ [0x27] ++ literal "`" ++ [0x00, 0x5c] ++ literal "ZXCV" ++
  literal "BNM,./" ++ [0x00] ++ literal "*" ++ [0x00] ++ literal " " ++
  [0x00, 0x03, 0x03, 0x03, 0x03, 0x08] ++
  keypadTable

def shiftTable : List UInt8 :=
  [0x00, 0x1b] ++ literal "!@#$%^&*()_+" ++ [0x7e, 0x7e] ++
  literal "QWERTYUIOP\x7b\x7d" ++ [0x7e, 0x00] ++ literal "AS" ++
  literal "DFGHJKL:" ++ [0x27] ++ literal "~" ++ [0x00] ++ literal "|ZXCV" ++
  literal "BNM<>?" ++ [0x00] ++ literal "*" ++ [0x00, 0x01, 0x00, 0x01, 0x01, 0x01, 0x01, 0x01] ++
  keypadShiftTable

def capsNShiftTable : List UInt8 :=
  [0x00, 0x1b] ++ literal "!@#$%^&*()_+" ++ [0x7e, 0x7e] ++
  literal "qwertyuiop\x7b\x7d" ++ [0x7e, 0x00] ++ literal "as" ++
  literal "dfghjkl:" ++ [0x27] ++ literal "~" ++ [0x00] ++ literal "|zxcv" ++
  literal "bnm<>?" ++ [0x00] ++ literal "*" ++ [0x00, 0x01, 0x00, 0x01, 0x01, 0x01, 0x01, 0x01] ++
  keypadShiftTable

def ctrlTable : List UInt8 :=
  [0x00, 0x00, 0x02, 0x02, 0x02, 0x02, 0x02, 0x02,
   0x02, 0x02, 0x02, 0x02, 0x00, 0x00, 0x7f, 0x7f] ++
  [0x11, 0x17, 0x05, 0x12, 0x14, 0x19, 0x15, 0x09,
   0x0f, 0x10, 0x02, 0x02, 0x0a, 0x00, 0x01, 0x13] ++
  [0x04, 0x06, 0x07, 0x08, 0x0a, 0x0b, 0x0c, 0x00,
   0x00, 0x00, 0x00, 0x00, 0x1a, 0x18, 0x03, 0x16] ++
  [0x02, 0x0e, 0x0d, 0x00, 0x00, 0x00, 0x00, 0x00,
   0x00, 0x00, 0x00, 0x02, 0x02, 0x02, 0x02, 0x02] ++
  [0x02, 0x02, 0x02, 0x02, 0x02, 0x00, 0x00, 0x00,
   0x00, 0x00, 0x00, 0x00, 0x00, 0x00, 0x00, 0x00] ++
  [0x00, 0x00, 0x02, 0x00, 0x00, 0x00, 0x00, 0x02,
   0x02, 0x00, 0x00, 0x00, 0x00, 0x00, 0x00, 0x00] ++
  [0x00, 0x00, 0x02, 0x00, 0x00, 0x00, 0x00, 0x00,
   0x00, 0x00, 0x00, 0x00, 0x00, 0x00, 0x00, 0x00] ++
  [0x00, 0x00, 0x02, 0x00, 0x00, 0x00, 0x00, 0x00, 0x00, 0x00, 0x00, 0x00, 0x00, 0x00, 0x00, 0x00]

def scanToAscii : List (List UInt8) :=
  [normalTable, capslockTable, shiftTable, capsNShiftTable, ctrlTable]

/-- Every row has 128 columns. -/
example : scanToAscii.map List.length = List.replicate 5 128 := by decide +kernel

/-- `scan_to_ascii[row][column]`. -/
def asciiAt (row column : Nat) : UInt8 := (scanToAscii.getD row []).getD column 0

theorem getD_of_forall_mem {α : Type*} {P : α → Prop} {xs : List α} {d : α} (hxs : ∀ x ∈ xs, P x)
    (hd : P d) (i : Nat) : P (xs.getD i d) := by
  rw [List.getD_eq_getElem?_getD]
  cases hx : xs[i]? with
  | none => exact hd
  | some x => exact hxs x (List.mem_of_getElem? hx)

/-- All codes of the table are 7-bit. -/
theorem asciiAt_lt (row column : Nat) : asciiAt row column < 0x80 := by
  have htable : ∀ codes ∈ scanToAscii, ∀ c ∈ codes, c < 0x80 := by decide +kernel
  have hrow : ∀ c ∈ scanToAscii.getD row [], c < 0x80 :=
    getD_of_forall_mem (P := fun codes => ∀ c ∈ codes, c < 0x80) htable (List.forall_mem_nil _) row
  exact getD_of_forall_mem hrow (by decide) column

/-! ## `keyboard_isr` -/

/-- `key` and the static `prefix`; `reads` records the accesses to `scan_to_ascii`. -/
structure Keyboard where
  status : BitVec 64
  code : UInt8
  scanPrefix : Nat
  reads : List (Nat × Nat)

def Keyboard.start : Keyboard := { status := 0, code := 0, scanPrefix := 0, reads := [] }

/-- The status keys. `none` leaves `change_flag` at 0. -/
def changeStatus (scan : UInt8) (status : BitVec 64) : Option (BitVec 64) :=
  if scan = scanNumlock then some (status ^^^ mkNumlock)
  else if scan = scanCapslock then some (status ^^^ mkCapslock)
  else if scan = scanScrolllock then some (status ^^^ mkScrolllock)
  else if scan = scanLeftshift then some (status ||| mkShift)
  else if scan = scanLeftshift ||| 0x80 then some (status &&& ~~~mkShift)
  else if scan = scanLeftctrl then some (status ||| mkCtrl)
  else if scan = scanLeftctrl ||| 0x80 then some (status &&& ~~~mkCtrl)
  else if scan = scanLeftalt then some (status ||| mkAlt)
  else if scan = scanLeftalt ||| 0x80 then some (status &&& ~~~mkAlt)
  else none

/-- The row of `scan_to_ascii` for a status. `none` is the error code. -/
def asciiRow (status : BitVec 64) : Option Nat :=
  if status &&& mkCapslock ≠ 0 ∧ status &&& mkShift ≠ 0 then some 3
  else if status = 0 then some 0
  else if status &&& mkCapslock ≠ 0 then some 1
  else if status &&& mkShift ≠ 0 then some 2
  else if status &&& mkCtrl ≠ 0 then some 4
  else none

/-- `key.code`, with the access to the table that it takes. -/
def translate (scan : UInt8) (key : Keyboard) : Keyboard :=
  match asciiRow key.status with
  | some row =>
    { key with
      code := asciiAt row scan.toNat
      reads := (row, scan.toNat) :: key.reads }
  | none => { key with code := 0xff }

/-- `caos_printf("%c", code)`. -/
def printfChar (code : UInt8) : ConsoleOp :=
  .printf (formatted (fun _ => []) (literal "%c") [.ofNat 64 code.toNat])

/-- `caos_printf("\n")`. -/
def printfNewline : ConsoleOp := .printf (formatted (fun _ => []) (literal "\n") [])

/-- `keyboard_isr`, with the byte it reads from the port and what it does on the console. -/
def keyboardIsr (scan : UInt8) (key : Keyboard) : Keyboard × Option ConsoleOp :=
  if scan = 0 ∨ scan = 0xff then (key, none)
  else if scan = 0xe0 ∨ scan = 0xe1 then ({ key with scanPrefix := 1 }, none)
  else
    match changeStatus scan key.status with
    | some status => ({ key with status := status }, none)
    | none =>
      if scan &&& 0x80 ≠ 0 then (key, none)
      else
        let key := translate scan key
        if scan = scanEnter then (key, some printfNewline)
        else if scan = scanBackspace then (key, some (.delchar 1))
        else ({ key with scanPrefix := 0 }, some (printfChar key.code))

/-- One scan code, and the characters put and erased for it. -/
def keyboardNext (key : Keyboard) (scan : UInt8) : Keyboard × List Output :=
  let (key, op) := keyboardIsr scan key
  (key, op.elim [] ConsoleOp.outputs)

/-! ## What a scan code can do -/

section

variable {status : BitVec 64} {scan c : UInt8} {key : Keyboard}

/-- The bytes that are looked up in `scan_to_ascii`. -/
def Pressed (scan : UInt8) : Prop :=
  scan ≠ 0 ∧ scan &&& 0x80 = 0 ∧ changeStatus scan 0 = none

/-- What a pressed key does on the console. -/
def typed (scan code : UInt8) : ConsoleOp :=
  if scan = scanEnter then printfNewline
  else if scan = scanBackspace then .delchar 1
  else printfChar code

theorem ite_some_eq_none_congr {α : Type*} {c : Prop} [Decidable c] {a a' : α}
    {rest rest' : Option α} (h : rest = none ↔ rest' = none) :
    (if c then some a else rest) = none ↔ (if c then some a' else rest') = none := by
  split
  · exact iff_of_false (Option.some_ne_none a) (Option.some_ne_none a')
  · exact h

/-- Which bytes are status keys does not depend on the status. -/
theorem changeStatus_eq_none_iff :
    changeStatus scan status = none ↔ changeStatus scan 0 = none := by
  unfold changeStatus
  repeat apply ite_some_eq_none_congr
  rfl

theorem translate_status : (translate scan key).status = key.status := by
  unfold translate
  cases asciiRow key.status <;> rfl

theorem printfChar_outputs : (printfChar c).outputs = if c = 0 then [] else [.char c] := by
  have h : formatted (fun _ => []) (literal "%c") [.ofNat 64 c.toNat] =
      [UInt8.ofNat (BitVec.ofNat 64 c.toNat).toNat] := rfl
  unfold printfChar ConsoleOp.outputs
  rw [h, BitVec.toNat_ofNat, Nat.mod_eq_of_lt (by have := c.toNat_lt; omega), UInt8.ofNat_toNat]
  by_cases hc : c = 0
  · simp [hc]
  · simp [hc]

theorem translate_code_of_row {row : Nat} (h : asciiRow key.status = some row) :
    (translate scan key).code = asciiAt row scan.toNat := by
  unfold translate
  rw [h]

theorem translate_code_of_none (h : asciiRow key.status = none) :
    (translate scan key).code = 0xff := by
  unfold translate
  rw [h]

theorem keyboardIsr_of_pressed (h : Pressed scan) :
    keyboardIsr scan key =
      ({ translate scan key with
          scanPrefix := if scan = scanEnter ∨ scan = scanBackspace
            then (translate scan key).scanPrefix else 0 },
        some (typed scan (translate scan key).code)) := by
  obtain ⟨hzero, hmake, hnone⟩ := h
  have herror : ¬ (scan = 0 ∨ scan = 0xff) := by
    rintro (rfl | rfl)
    · exact hzero rfl
    · exact absurd hmake (by decide)
  have hprefix : ¬ (scan = 0xe0 ∨ scan = 0xe1) := by
    rintro (rfl | rfl) <;> exact absurd hmake (by decide)
  unfold keyboardIsr typed
  rw [if_neg herror, if_neg hprefix, changeStatus_eq_none_iff.mpr hnone]
  dsimp only
  rw [if_neg (not_not.mpr hmake)]
  by_cases henter : scan = scanEnter
  · simp [henter]
  · by_cases hback : scan = scanBackspace
    · simp +decide [hback]
    · simp [henter, hback]

/-- Every other byte changes the status at most. -/
theorem keyboardIsr_of_not_pressed (key : Keyboard) (h : ¬ Pressed scan) :
    (keyboardIsr scan key).2 = none ∧ (keyboardIsr scan key).1.reads = key.reads ∧
      (keyboardIsr scan key).1.status = (changeStatus scan key.status).getD key.status := by
  unfold keyboardIsr
  by_cases herror : scan = 0 ∨ scan = 0xff
  · rw [if_pos herror]
    refine ⟨rfl, rfl, ?_⟩
    obtain rfl | rfl := herror <;> simp +decide [changeStatus]
  by_cases hprefix : scan = 0xe0 ∨ scan = 0xe1
  · rw [if_neg herror, if_pos hprefix]
    refine ⟨rfl, rfl, ?_⟩
    obtain rfl | rfl := hprefix <;> simp +decide [changeStatus]
  rw [if_neg herror, if_neg hprefix]
  cases hchange : changeStatus scan key.status with
  | some status => exact ⟨rfl, rfl, rfl⟩
  | none =>
      have hbreak : scan &&& 0x80 ≠ 0 := fun hmake =>
        h ⟨fun hzero => herror (.inl hzero), hmake, changeStatus_eq_none_iff.mp hchange⟩
      dsimp only
      rw [if_pos hbreak]
      exact ⟨rfl, rfl, rfl⟩

theorem keyboardNext_of_pressed (h : Pressed scan) :
    (keyboardNext key scan).1.status = key.status ∧
      (keyboardNext key scan).1.reads = (translate scan key).reads ∧
      (keyboardNext key scan).2 = (typed scan (translate scan key).code).outputs := by
  unfold keyboardNext
  rw [keyboardIsr_of_pressed h]
  exact ⟨translate_status, rfl, rfl⟩

theorem keyboardNext_of_not_pressed (h : ¬ Pressed scan) :
    (keyboardNext key scan).1.status = (changeStatus scan key.status).getD key.status ∧
      (keyboardNext key scan).1.reads = key.reads ∧ (keyboardNext key scan).2 = [] := by
  obtain ⟨hnone, hreads, hstatus⟩ := keyboardIsr_of_not_pressed key h
  refine ⟨hstatus, hreads, ?_⟩
  unfold keyboardNext
  dsimp only
  rw [hnone]
  rfl

theorem keyboardNext_status :
    (keyboardNext key scan).1.status = (changeStatus scan key.status).getD key.status := by
  by_cases h : Pressed scan
  · rw [(keyboardNext_of_pressed h).1, changeStatus_eq_none_iff.mpr h.2.2]
    rfl
  · exact (keyboardNext_of_not_pressed h).1

end

end Caos
