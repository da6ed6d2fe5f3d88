import Caos.Console.Screen
import Caos.Lib.Run

/-!
Where the console writes. Each operation is a sequence of characters put and
characters erased. `set_cursor` corrects an overshoot by one row, and so takes a
cursor moved below 0, which has wrapped around, for an overshoot.
-/

namespace Caos

open Lib

/-- The calls that move the cursor: `caos_printf`, given its formatted text, and
`caos_delchar`. -/
inductive ConsoleOp where
  | printf : List UInt8 → ConsoleOp
  | delchar : Int → ConsoleOp

def consoleNext (s : ScreenInfo) : ConsoleOp → ScreenInfo
  | .printf sz => printText sz s
  | .delchar cnt => caosDelchar cnt s

/-- The cursor is on the screen, and so were all stores to the video memory. -/
structure InBounds (s : ScreenInfo) : Prop where
  cursor : s.cursorOffset < screenRow * screenCol
  writes : ∀ i ∈ s.written, i < screenRow * screenCol

/-- One character put or erased. -/
inductive Output where
  | char : UInt8 → Output
  | erase : Output

def outputNext (s : ScreenInfo) : Output → ScreenInfo
  | .char c => printChar c s
  | .erase => eraseChar s

def ConsoleOp.outputs : ConsoleOp → List Output
  | .printf sz => (sz.takeWhile (· ≠ 0)).map .char
  | .delchar cnt => List.replicate cnt.toNat .erase

def Output.Erases (o : Output) : Prop := o = .erase ∨ o = .char backspace

/-- The erased character is on the screen. -/
def ErasureFits (s : ScreenInfo) (o : Output) : Prop := o.Erases → s.cursorOffset ≠ 0

theorem printText_eq (sz : List UInt8) (s : ScreenInfo) :
    printText sz s = ((sz.takeWhile (· ≠ 0)).map Output.char).foldl outputNext s := by
  induction sz generalizing s with
  | nil => rfl
  | cons c sz ih =>
      unfold printText
      by_cases hc : c = 0
      · simp [hc]
      · simp [hc, ih, outputNext]

theorem caosDelchar_eq (cnt : Int) (s : ScreenInfo) :
    caosDelchar cnt s = (List.replicate cnt.toNat Output.erase).foldl outputNext s := by
  unfold caosDelchar
  generalize cnt.toNat = n
  induction n generalizing s with
  | zero => rfl
  | succ n ih =>
      rw [Function.iterate_succ_apply, ih, List.replicate_succ, List.foldl_cons, outputNext]

theorem consoleNext_eq (s : ScreenInfo) (op : ConsoleOp) :
    consoleNext s op = op.outputs.foldl outputNext s := by
  cases op with
  | printf sz => exact printText_eq sz s
  | delchar cnt => exact caosDelchar_eq cnt s

theorem outputNext_backspace (s : ScreenInfo) :
    outputNext s (.char backspace) = eraseChar s := by
  have hne : backspace ≠ newline := by decide
  simp only [outputNext, printChar, if_neg hne, if_true, caosDelchar_one]

section

variable {s : ScreenInfo}

/-- No store is taken back. -/
theorem setCursor_written {offset j : Nat} (hj : j ∈ s.written) :
    j ∈ (setCursor offset s).written := by
  by_cases h : offset < 2000
  · rw [setCursor_inside h]
    exact hj
  · rw [(setCursor_outside (by omega)).2.2]
    exact .inl hj

theorem outputNext_written {o : Output} {j : Nat} (hj : j ∈ s.written) :
    j ∈ (outputNext s o).written := by
  have herase : j ∈ (eraseChar s).written := by
    unfold eraseChar
    rw [mem_store_written]
    exact .inr (setCursor_written hj)
  cases o with
  | erase => exact herase
  | char c =>
      change j ∈ (printChar c s).written
      unfold printChar
      split_ifs with hnewline hbackspace
      · exact setCursor_written hj
      · rw [caosDelchar_one]
        exact herase
      · unfold caosPutchar
        apply setCursor_written
        rw [mem_store_written]
        exact .inr hj

theorem outputs_written {o : List Output} {j : Nat} (hj : j ∈ s.written) :
    j ∈ (o.foldl outputNext s).written := by
  induction o generalizing s with
  | nil => exact hj
  | cons o os ih => exact ih (outputNext_written hj)

/-- `set_cursor` brings a cursor back that overshot by less than a row. -/
theorem setCursor_inBounds {offset : Nat} (hoffset : offset < 2080)
    (hwrites : ∀ i ∈ s.written, i < screenRow * screenCol) :
    InBounds (setCursor offset s) := by
  by_cases h : offset < 2000
  · rw [setCursor_inside h]
    constructor
    · rw [screenCells]
      exact h
    · exact hwrites
  · obtain ⟨hcursor, -, hwritten⟩ := @setCursor_outside s offset (by omega)
    constructor
    · rw [hcursor]
      simp only [sub64, screenRow, screenCol]
      omega
    · intro i hi
      rw [hwritten] at hi
      cases hi with
      | inl hold => exact hwrites i hold
      | inr hnew =>
          rw [screenCells]
          exact hnew

theorem InBounds.store (h : InBounds s) {i : Nat} (hi : i < screenRow * screenCol)
    (cell : BitVec 16) : InBounds (s.store i cell) := by
  constructor
  · exact h.cursor
  · intro j hj
    cases (mem_store_written s i cell j).mp hj with
    | inl hnew => exact hnew ▸ hi
    | inr hold => exact h.writes j hold

theorem InBounds.erase (h : InBounds s) (hcursor : s.cursorOffset ≠ 0) :
    InBounds (eraseChar s) := by
  have hoffset : sub64 s.cursorOffset 1 < 2000 := by
    have hlt := h.cursor
    simp only [sub64, screenRow, screenCol] at *
    omega
  have hmoved : InBounds (setCursor (sub64 s.cursorOffset 1) s) := by
    apply setCursor_inBounds _ h.writes
    omega
  unfold eraseChar
  exact hmoved.store hmoved.cursor bgBlack

theorem InBounds.char (h : InBounds s) {c : UInt8} (hc : c ≠ backspace) :
    InBounds (printChar c s) := by
  have hlt : s.cursorOffset < 2000 := h.cursor
  unfold printChar
  split_ifs with hnewline
  · apply setCursor_inBounds _ h.writes
    calc (s.cursorOffset / screenCol + 1) * screenCol % 2 ^ 64
      _ ≤ (s.cursorOffset / screenCol + 1) * screenCol := Nat.mod_le _ _
      _ < 2080 := by
          simp only [screenCol]
          omega
  · unfold caosPutchar
    apply setCursor_inBounds
    · simp only [store_cursorOffset]
      omega
    · exact (h.store h.cursor (charCell c)).writes

/-- At the origin the erasure blanks a cell 81 places in front of the screen. -/
theorem erase_origin (h : s.cursorOffset = 0) : 2 ^ 64 - 81 ∈ (eraseChar s).written := by
  have hwrapped : 2000 ≤ sub64 0 1 := by norm_num [sub64]
  unfold eraseChar
  rw [h, mem_store_written, (setCursor_outside hwrapped).1]
  left
  norm_num [sub64, screenCol]

theorem not_inBounds_of_written (h : 2 ^ 64 - 81 ∈ s.written) : ¬ InBounds s := by
  intro hbounds
  have hlt := hbounds.writes _ h
  simp only [screenRow, screenCol] at hlt
  omega

/-- What one character does to the bounds, and that a store off the screen is not
forgotten. -/
theorem outputNext_cases (h : InBounds s) (o : Output) :
    ErasureFits s o ∧ InBounds (outputNext s o) ∨
      ¬ ErasureFits s o ∧ 2 ^ 64 - 81 ∈ (outputNext s o).written := by
  by_cases herases : o.Erases
  · have heq : outputNext s o = eraseChar s := by
      cases herases with
      | inl ho => rw [ho, outputNext]
      | inr ho => rw [ho, outputNext_backspace]
    rw [heq]
    by_cases hcursor : s.cursorOffset = 0
    · right
      exact ⟨fun hfits => hfits herases hcursor, erase_origin hcursor⟩
    · left
      exact ⟨fun _ => hcursor, h.erase hcursor⟩
  · left
    refine ⟨fun h' => absurd h' herases, ?_⟩
    cases o with
    | erase => exact absurd (.inl rfl) herases
    | char c =>
        apply h.char
        intro hc
        exact herases (.inr (congrArg Output.char hc))

theorem outputNext_inBounds_iff (h : InBounds s) (o : Output) :
    InBounds (outputNext s o) ↔ ErasureFits s o := by
  cases outputNext_cases h o with
  | inl hgood => exact iff_of_true hgood.2 hgood.1
  | inr hbad => exact iff_of_false (not_inBounds_of_written hbad.2) hbad.1

/-- The rest of the operation does not make up for it. -/
theorem outputs_not_inBounds (s : ScreenInfo) (o : Output) (os : List Output)
    (h : InBounds s) (hbroken : ¬ InBounds (outputNext s o)) :
    ¬ InBounds (os.foldl outputNext (outputNext s o)) := by
  cases outputNext_cases h o with
  | inl hgood => exact absurd hgood.2 hbroken
  | inr hbad => exact not_inBounds_of_written (outputs_written hbad.2)

end

theorem initScreen_inBounds (videoMem : Nat → BitVec 16) : InBounds (initScreen videoMem) := by
  obtain ⟨hcursor, -, hwritten⟩ := initScreen_spec videoMem
  constructor
  · rw [hcursor]
    decide
  · intro i hi
    rw [hwritten] at hi
    rw [screenCells]
    exact hi

/-- The console stays on the screen in exactly the runs that erase nothing at the
origin. -/
theorem console_bounded_iff (videoMem : Nat → BitVec 16) (ops : List ConsoleOp) :
    EveryStep consoleNext (fun s op => InBounds (consoleNext s op)) (initScreen videoMem) ops ↔
      EveryStep outputNext ErasureFits (initScreen videoMem) (ops.flatMap ConsoleOp.outputs) := by
  have h0 := initScreen_inBounds videoMem
  rw [EveryStep.flatMap_iff consoleNext_eq outputs_not_inBounds h0]
  apply EveryStep.iff_of_invariant h0
  · exact fun s o h => outputNext_inBounds_iff h o
  · exact fun s o h hfits => (outputNext_inBounds_iff h o).mpr hfits

/-- Backspace on an empty screen. -/
theorem backspace_leaves_screen :
    ¬ ∀ (videoMem : Nat → BitVec 16) (ops : List ConsoleOp),
      EveryStep consoleNext (fun s op => InBounds (consoleNext s op)) (initScreen videoMem)
        ops := by
  intro h
  have horigin : (initScreen fun _ => 0).cursorOffset = 0 := (initScreen_spec _).1
  have hstep := (h (fun _ => 0) [.delchar 1]).1
  simp only [consoleNext, caosDelchar_one] at hstep
  exact not_inBounds_of_written (erase_origin horigin) hstep

end Caos
