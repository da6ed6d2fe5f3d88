import Caos.Lib.CountedLoop
import Caos.Types
import Mathlib.Logic.Function.Iterate

/-!
`screen.c` and the character output of `printf.c`. The screen records the indices of
`video_mem` that have been written; the code keeps no such record. The outputs to the
cursor registers of the CRT controller are left out.
-/

namespace Caos

open Lib

/-- `SCREEN_ROW`. -/
def screenRow : Nat := 25

/-- `SCREEN_COL`. -/
def screenCol : Nat := 80

@[simp] theorem screenCells : screenRow * screenCol = 2000 := rfl

/-- `BG_BLACK`. -/
def bgBlack : BitVec 16 := 0x0700

/-- `struct screen_info`, with the contents of the memory behind `video_mem`. -/
structure ScreenInfo where
  cursorOffset : Nat
  videoMem : Nat → BitVec 16
  written : List Nat

/-- `screen_info.video_mem[i] = cell`. -/
def ScreenInfo.store (s : ScreenInfo) (i : Nat) (cell : BitVec 16) : ScreenInfo :=
  { s with videoMem := Function.update s.videoMem i cell, written := i :: s.written }

@[simp] theorem store_cursorOffset (s : ScreenInfo) (i : Nat) (cell : BitVec 16) :
    (s.store i cell).cursorOffset = s.cursorOffset := rfl

theorem store_videoMem (s : ScreenInfo) (i : Nat) (cell : BitVec 16) (j : Nat) :
    (s.store i cell).videoMem j = if j = i then cell else s.videoMem j := by
  simp only [ScreenInfo.store, Function.update_apply]

theorem mem_store_written (s : ScreenInfo) (i : Nat) (cell : BitVec 16) (j : Nat) :
    j ∈ (s.store i cell).written ↔ j = i ∨ j ∈ s.written := by
  simp only [ScreenInfo.store, List.mem_cons]

/-- `scroll_screen`. The copy runs forward over the overlapping rows. -/
def scrollScreen (line : Nat) (s : ScreenInfo) : ScreenInfo :=
  if line > screenRow - 1 then s
  else
    let n := (screenRow - line) * screenCol
    let s := forUpTo (fun i s => s.store i (s.videoMem (line * screenCol + i))) n s
    forUpTo (fun i s => s.store (n + i) bgBlack) (screenRow * screenCol - n) s

/-- `clear_screen`. -/
def clearScreen (s : ScreenInfo) : ScreenInfo :=
  forUpTo (fun i s => s.store i bgBlack) (screenRow * screenCol) s

/-- `set_cursor`. -/
def setCursor (newCursorOffset : Nat) (s : ScreenInfo) : ScreenInfo :=
  let s := { s with cursorOffset := newCursorOffset }
  if s.cursorOffset / screenCol ≥ screenRow then
    let s := scrollScreen 1 s
    { s with cursorOffset := sub64 s.cursorOffset screenCol }
  else s

/-- `init_screen`, over any contents of the video memory. -/
def initScreen (videoMem : Nat → BitVec 16) : ScreenInfo :=
  clearScreen (setCursor 0 { cursorOffset := 0, videoMem := videoMem, written := [] })

/-- `(unsigned short)(BG_BLACK|c)` for a `char`, which is signed. -/
def charCell (c : UInt8) : BitVec 16 := bgBlack ||| c.toBitVec.signExtend 16

/-- `caos_putchar`. -/
def caosPutchar (c : UInt8) (s : ScreenInfo) : ScreenInfo :=
  let s := s.store s.cursorOffset (charCell c)
  setCursor ((s.cursorOffset + 1) % 2 ^ 64) s

/-- One iteration of `caos_delchar`. -/
def eraseChar (s : ScreenInfo) : ScreenInfo :=
  let s := setCursor (sub64 s.cursorOffset 1) s
  s.store s.cursorOffset bgBlack

/-- `caos_delchar`. -/
def caosDelchar (cnt : Int) (s : ScreenInfo) : ScreenInfo := eraseChar^[cnt.toNat] s

theorem caosDelchar_one (s : ScreenInfo) : caosDelchar 1 s = eraseChar s := by
  unfold caosDelchar
  rw [Int.toNat_one, Function.iterate_one]

/-- `'\n'`. -/
def newline : UInt8 := 10

/-- `'\b'`. -/
def backspace : UInt8 := 8

/-- One iteration of the output loop of `caos_printf`. -/
def printChar (c : UInt8) (s : ScreenInfo) : ScreenInfo :=
  if c = newline then setCursor ((s.cursorOffset / screenCol + 1) * screenCol % 2 ^ 64) s
  else if c = backspace then caosDelchar 1 s
  else caosPutchar c s

/-- The output loop of `caos_printf` over the buffer `sz`, up to the NUL. -/
def printText : List UInt8 → ScreenInfo → ScreenInfo
  | [], s => s
  | c :: sz, s => if c = 0 then s else printText sz (printChar c s)

/-! ## The loops -/

section

variable {s : ScreenInfo}

/-- `n` stores to the cells from `first` on. -/
theorem fill_spec (first n : Nat) (cell : BitVec 16) (s : ScreenInfo) :
    (forUpTo (fun i s => s.store (first + i) cell) n s).cursorOffset = s.cursorOffset ∧
      (∀ j, (forUpTo (fun i s => s.store (first + i) cell) n s).videoMem j =
        if first ≤ j ∧ j < first + n then cell else s.videoMem j) ∧
      ∀ j, j ∈ (forUpTo (fun i s => s.store (first + i) cell) n s).written ↔
        j ∈ s.written ∨ first ≤ j ∧ j < first + n := by
  induction n with
  | zero => simp [forUpTo]
  | succ n ih =>
      obtain ⟨hcursor, hvideo, hwritten⟩ := ih
      unfold forUpTo
      refine ⟨hcursor, ?_, ?_⟩
      · intro j
        rw [store_videoMem, hvideo]
        split_ifs <;> first | rfl | omega
      · intro j
        rw [mem_store_written, hwritten]
        grind

/-- The forward copy reads each cell before it writes it. -/
theorem copy_spec (distance n : Nat) (s : ScreenInfo) :
    (forUpTo (fun i s => s.store i (s.videoMem (distance + i))) n s).cursorOffset =
        s.cursorOffset ∧
      (∀ j, (forUpTo (fun i s => s.store i (s.videoMem (distance + i))) n s).videoMem j =
        if j < n then s.videoMem (distance + j) else s.videoMem j) ∧
      ∀ j, j ∈ (forUpTo (fun i s => s.store i (s.videoMem (distance + i))) n s).written ↔
        j ∈ s.written ∨ j < n := by
  induction n with
  | zero => simp [forUpTo]
  | succ n ih =>
      obtain ⟨hcursor, hvideo, hwritten⟩ := ih
      unfold forUpTo
      refine ⟨hcursor, ?_, ?_⟩
      · intro j
        rw [store_videoMem, hvideo, hvideo]
        by_cases hj : j = n
        · subst hj
          simp
        · rw [if_neg hj]
          split_ifs <;> first | rfl | omega
      · intro j
        rw [mem_store_written, hwritten]
        grind

/-- Scrolling by one row. -/
theorem scrollScreen_one (s : ScreenInfo) :
    (scrollScreen 1 s).cursorOffset = s.cursorOffset ∧
      (∀ j, (scrollScreen 1 s).videoMem j =
        if j < 1920 then s.videoMem (80 + j) else if j < 2000 then bgBlack else s.videoMem j) ∧
      ∀ j, j ∈ (scrollScreen 1 s).written ↔ j ∈ s.written ∨ j < 2000 := by
  have heq : scrollScreen 1 s = forUpTo (fun i s => s.store (1920 + i) bgBlack) 80
      (forUpTo (fun i s => s.store i (s.videoMem (80 + i))) 1920 s) := rfl
  obtain ⟨hcursor, hvideo, hwritten⟩ := copy_spec 80 1920 s
  rw [heq]
  generalize forUpTo (fun i s => s.store i (s.videoMem (80 + i))) 1920 s = copied at *
  obtain ⟨hcursor', hvideo', hwritten'⟩ := fill_spec 1920 80 bgBlack copied
  generalize forUpTo (fun i s => s.store (1920 + i) bgBlack) 80 copied = t at *
  refine ⟨hcursor'.trans hcursor, ?_, ?_⟩
  · intro j
    rw [hvideo', hvideo]
    split_ifs <;> first | rfl | omega
  · intro j
    rw [hwritten', hwritten]
    grind

theorem clearScreen_spec (s : ScreenInfo) :
    (clearScreen s).cursorOffset = s.cursorOffset ∧
      (∀ j, j < 2000 → (clearScreen s).videoMem j = bgBlack) ∧
      ∀ j, j ∈ (clearScreen s).written ↔ j ∈ s.written ∨ j < 2000 := by
  have heq : clearScreen s = forUpTo (fun i s => s.store (0 + i) bgBlack) 2000 s := by
    unfold clearScreen
    simp only [Nat.zero_add, screenCells]
  obtain ⟨hcursor, hvideo, hwritten⟩ := fill_spec 0 2000 bgBlack s
  rw [heq]
  generalize forUpTo (fun i s => s.store (0 + i) bgBlack) 2000 s = t at *
  refine ⟨hcursor, ?_, ?_⟩
  · intro j hj
    rw [hvideo, if_pos]
    omega
  · intro j
    rw [hwritten]
    grind

/-- `set_cursor` inside the screen. -/
theorem setCursor_inside {offset : Nat} (h : offset < 2000) :
    setCursor offset s = { s with cursorOffset := offset } := by
  have hrow : ¬ offset / screenCol ≥ screenRow := by
    simp only [screenCol, screenRow]
    omega
  simp only [setCursor, if_neg hrow]

theorem initScreen_spec (videoMem : Nat → BitVec 16) :
    (initScreen videoMem).cursorOffset = 0 ∧
      (∀ j, j < 2000 → (initScreen videoMem).videoMem j = bgBlack) ∧
      ∀ j, j ∈ (initScreen videoMem).written ↔ j < 2000 := by
  unfold initScreen
  rw [setCursor_inside (by decide)]
  obtain ⟨hcursor, hvideo, hwritten⟩ := clearScreen_spec
    { cursorOffset := 0, videoMem := videoMem, written := [] }
  refine ⟨hcursor, hvideo, ?_⟩
  intro j
  rw [hwritten]
  simp

/-- `set_cursor` behind the screen. -/
theorem setCursor_outside {offset : Nat} (h : 2000 ≤ offset) :
    (setCursor offset s).cursorOffset = sub64 offset screenCol ∧
      (∀ j, (setCursor offset s).videoMem j =
        if j < 1920 then s.videoMem (80 + j) else if j < 2000 then bgBlack else s.videoMem j) ∧
      ∀ j, j ∈ (setCursor offset s).written ↔ j ∈ s.written ∨ j < 2000 := by
  have hrow : offset / screenCol ≥ screenRow := by
    simp only [screenCol, screenRow]
    omega
  obtain ⟨hcursor, hvideo, hwritten⟩ := scrollScreen_one { s with cursorOffset := offset }
  simp only [setCursor, if_pos hrow, hcursor]
  exact ⟨trivial, hvideo, hwritten⟩

end

end Caos
