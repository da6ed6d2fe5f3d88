import Caos.Keyboard.Isr
import Caos.Lib.BitField
import Caos.Lib.Transducer

/-!
The colours on the screen. The console supports white on black only, but `caos_putchar`
takes a signed `char`: the sign of a character of 0x80 or more covers the attribute byte
of its cell.
-/

namespace Caos

open Lib

/-- The upper byte of a cell. -/
def attrByte (cell : BitVec 16) : BitVec 8 := cell.extractLsb' 8 8

/-- White on black everywhere. -/
def AttributesConstant (s : ScreenInfo) : Prop :=
  ∀ i < screenRow * screenCol, attrByte (s.videoMem i) = 0x07

def CursorOnScreen (s : ScreenInfo) : Prop := s.cursorOffset < screenRow * screenCol

/-- What reaches the console: a call of `caos_printf`, given its formatted text, or a byte
from the keyboard. -/
inductive ConsoleEvent where
  | printf : List UInt8 → ConsoleEvent
  | key : UInt8 → ConsoleEvent

/-- The characters put and erased for an event. -/
def consoleEvent (key : Keyboard) : ConsoleEvent → Keyboard × List Output
  | .printf sz => (key, (ConsoleOp.printf sz).outputs)
  | .key scan => keyboardNext key scan

/-- The text is 7-bit, and no key that prints a character is pressed in a status that is
not zero but has neither CapsLock nor Shift nor Ctrl in it. -/
def SevenBit (key : Keyboard) : ConsoleEvent → Prop
  | .printf sz => ∀ c ∈ sz.takeWhile (· ≠ 0), c < 0x80
  | .key scan => Pressed scan → scan ≠ scanEnter → scan ≠ scanBackspace →
      key.status &&& (mkCapslock ||| mkShift ||| mkCtrl) = 0 → key.status = 0

def Output.SevenBit : Output → Prop
  | .char c => c < 0x80
  | .erase => True

section Cells

variable {s : ScreenInfo} {c : UInt8} {cell : BitVec 16}

theorem attrByte_bgBlack : attrByte bgBlack = 0x07 := by decide

theorem attrByte_charCell :
    attrByte (charCell c) = if c.toBitVec.msb then 0xff else 0x07 := by
  rw [attrByte, charCell, BitVec.extractLsb'_or, extract_signExtend_above (by decide) (by decide)]
  split <;> decide

theorem msb_eq_true_iff : c.toBitVec.msb = true ↔ ¬ c < 0x80 := by
  rw [BitVec.msb_eq_true_iff_two_mul_ge, UInt8.toNat_toBitVec, UInt8.lt_iff_toNat_lt]
  have h80 : (0x80 : UInt8).toNat = 128 := rfl
  omega

theorem attrByte_charCell_iff : attrByte (charCell c) = 0x07 ↔ c < 0x80 := by
  rw [attrByte_charCell]
  by_cases h : c < 0x80
  · have hmsb : ¬ c.toBitVec.msb = true := fun hmsb => msb_eq_true_iff.mp hmsb h
    rw [if_neg hmsb]
    exact iff_of_true rfl h
  · rw [if_pos (msb_eq_true_iff.mpr h)]
    exact iff_of_false (by decide) h

theorem AttributesConstant.store (h : AttributesConstant s) (hcell : attrByte cell = 0x07)
    (i : Nat) : AttributesConstant (s.store i cell) := by
  intro j hj
  rw [store_videoMem]
  split
  · exact hcell
  · exact h j hj

/-- Scrolling moves cells of the screen and blanks the last row. -/
theorem AttributesConstant.setCursor (h : AttributesConstant s) (offset : Nat) :
    AttributesConstant (setCursor offset s) := by
  rcases Nat.lt_or_ge offset 2000 with hinside | houtside
  · rw [setCursor_inside hinside]
    exact h
  · intro j hj
    rw [(setCursor_outside houtside).2.1]
    rw [screenCells] at hj
    split_ifs with hrow
    · exact h _ (by rw [screenCells]; omega)
    · exact attrByte_bgBlack

theorem AttributesConstant.erase (h : AttributesConstant s) :
    AttributesConstant (eraseChar s) :=
  (h.setCursor _).store attrByte_bgBlack _

theorem AttributesConstant.char (h : AttributesConstant s) (hc : c < 0x80) :
    AttributesConstant (printChar c s) := by
  unfold printChar
  split_ifs
  · exact h.setCursor _
  · rw [caosDelchar_one]
    exact h.erase
  · exact (h.store (attrByte_charCell_iff.mpr hc) _).setCursor _

/-- The cell of a character of 0x80 or more stays on the screen, one row further up if the
screen scrolls. -/
theorem not_attributesConstant_of_high (hs : CursorOnScreen s) (hc : ¬ c < 0x80) :
    ¬ AttributesConstant (printChar c s) := by
  intro h
  have hcell : attrByte (charCell c) ≠ 0x07 := fun heq => hc (attrByte_charCell_iff.mp heq)
  have hnewline : c ≠ newline := by
    rintro rfl
    exact hc (by decide)
  have hbackspace : c ≠ backspace := by
    rintro rfl
    exact hc (by decide)
  rw [CursorOnScreen, screenCells] at hs
  rw [printChar, if_neg hnewline, if_neg hbackspace, caosPutchar, store_cursorOffset,
    Nat.mod_eq_of_lt (by omega)] at h
  rcases Nat.lt_or_ge (s.cursorOffset + 1) 2000 with hinside | houtside
  · have hattr := h s.cursorOffset (by rw [screenCells]; omega)
    rw [setCursor_inside hinside, store_videoMem, if_pos rfl] at hattr
    exact hcell hattr
  · have hattr := h (s.cursorOffset - 80) (by rw [screenCells]; omega)
    rw [(setCursor_outside houtside).2.1, if_pos (by omega), store_videoMem,
      if_pos (by omega)] at hattr
    exact hcell hattr

/-- What one character does to the colours. -/
theorem outputNext_attributes_iff {o : Output} (hs : CursorOnScreen s)
    (h : AttributesConstant s) : AttributesConstant (outputNext s o) ↔ o.SevenBit := by
  cases o with
  | erase => exact iff_of_true h.erase trivial
  | char c =>
      by_cases hc : c < 0x80
      · exact iff_of_true (h.char hc) hc
      · exact iff_of_false (not_attributesConstant_of_high hs hc) hc

theorem initScreen_attributes (videoMem : Nat → BitVec 16) :
    AttributesConstant (initScreen videoMem) := by
  intro i hi
  rw [screenCells] at hi
  rw [(initScreen_spec videoMem).2.1 i hi]
  exact attrByte_bgBlack

/-- What erases nothing at the origin keeps the cursor on the screen. -/
theorem cursorOnScreen_of_erasureFits {out : List Output} (h : InBounds s)
    (hfits : EveryStep outputNext ErasureFits s out) :
    Throughout outputNext CursorOnScreen s out := by
  induction out generalizing s with
  | nil => exact throughout_nil.mpr h.cursor
  | cons o out ih =>
      have hnext : InBounds (outputNext s o) := (outputNext_inBounds_iff h o).mpr hfits.1
      exact throughout_cons.mpr ⟨h.cursor, ih hnext hfits.2⟩

end Cells

section Events

variable {key : Keyboard} {status : BitVec 64} {scan : UInt8}

/-- No row of `scan_to_ascii` is chosen for a status of other modifiers alone. -/
theorem asciiRow_eq_none_iff : asciiRow status = none ↔
    status &&& (mkCapslock ||| mkShift ||| mkCtrl) = 0 ∧ status ≠ 0 := by
  have hmask : status &&& (mkCapslock ||| mkShift ||| mkCtrl) = 0 ↔
      (status &&& mkCapslock = 0 ∧ status &&& mkShift = 0) ∧ status &&& mkCtrl = 0 := by
    rw [BitVec.and_or_distrib_left, BitVec.and_or_distrib_left, BitVec.ofNat_eq_ofNat,
      BitVec.or_eq_zero_iff, BitVec.or_eq_zero_iff]
  rw [hmask]
  unfold asciiRow
  split_ifs <;> simp_all

/-- A key that prints a character prints a 7-bit one exactly if its status chooses a row. -/
theorem printfChar_sevenBit_iff :
    (∀ o ∈ (printfChar (translate scan key).code).outputs, o.SevenBit) ↔
      asciiRow key.status ≠ none := by
  rw [printfChar_outputs]
  cases hrow : asciiRow key.status with
  | none =>
      rw [translate_code_of_none hrow, if_neg (by decide), List.forall_mem_singleton]
      exact iff_of_false (by decide : ¬ (0xff : UInt8) < 0x80) (by simp)
  | some row =>
      rw [translate_code_of_row hrow]
      refine iff_of_true ?_ (by simp)
      split
      · exact List.forall_mem_nil _
      · exact List.forall_mem_singleton.mpr (asciiAt_lt row _)

/-- An event prints 7-bit characters alone exactly if its text is 7-bit, or its key is
pressed in a status that chooses a row. -/
theorem consoleEvent_sevenBit_iff (key : Keyboard) (e : ConsoleEvent) :
    (∀ o ∈ (consoleEvent key e).2, o.SevenBit) ↔ SevenBit key e := by
  cases e with
  | printf sz => exact List.forall_mem_map
  | key scan =>
      by_cases hpressed : Pressed scan
      · rw [consoleEvent, (keyboardNext_of_pressed hpressed).2.2, typed]
        by_cases henter : scan = scanEnter
        · rw [if_pos henter]
          refine iff_of_true ?_ fun _ hne => absurd henter hne
          exact List.forall_mem_singleton.mpr (by decide : (10 : UInt8) < 0x80)
        by_cases hback : scan = scanBackspace
        · rw [if_neg henter, if_pos hback]
          refine iff_of_true ?_ fun _ _ hne => absurd hback hne
          exact List.forall_mem_singleton.mpr trivial
        rw [if_neg henter, if_neg hback, printfChar_sevenBit_iff, ne_eq, asciiRow_eq_none_iff,
          not_and_not_right]
        exact ⟨fun h _ _ _ => h, fun h => h hpressed henter hback⟩
      · rw [consoleEvent, (keyboardNext_of_not_pressed hpressed).2.2]
        exact iff_of_true (List.forall_mem_nil _) fun h => absurd h hpressed

end Events

/-- With the cursor on the screen, every cell is white on black at every point of the output
exactly if no character of 0x80 or more is printed: neither by a text nor, for want of a row
of `scan_to_ascii`, by a key. -/
theorem attributes_constant_iff (videoMem : Nat → BitVec 16) (events : List ConsoleEvent)
    (hcursor : Throughout outputNext CursorOnScreen (initScreen videoMem)
      (outputs consoleEvent Keyboard.start events)) :
    Throughout outputNext AttributesConstant (initScreen videoMem)
        (outputs consoleEvent Keyboard.start events) ↔
      EveryStep (fun key e => (consoleEvent key e).1) SevenBit Keyboard.start events := by
  have hstep : ∀ s o, CursorOnScreen s → AttributesConstant s →
      (AttributesConstant (outputNext s o) ↔ o.SevenBit) :=
    fun s o hs h => outputNext_attributes_iff hs h
  rw [Throughout.iff_forall_mem hstep hcursor (initScreen_attributes videoMem),
    forall_mem_outputs]
  apply EveryStep.iff_of_invariant (J := fun _ => True) trivial
  · exact fun key e _ => consoleEvent_sevenBit_iff key e
  · exact fun _ _ _ _ => trivial

/-- `"Hi"`, and then the key `a`. -/
theorem greeting_white_on_black :
    Throughout outputNext AttributesConstant (initScreen fun _ => 0)
      (outputs consoleEvent Keyboard.start [.printf [72, 105], .key 0x1e]) := by
  have hout : outputs consoleEvent Keyboard.start [.printf [72, 105], .key 0x1e] =
      [.char 72, .char 105, .char 97] := rfl
  have hcursor : Throughout outputNext CursorOnScreen (initScreen fun _ => 0)
      (outputs consoleEvent Keyboard.start [.printf [72, 105], .key 0x1e]) := by
    rw [hout]
    apply cursorOnScreen_of_erasureFits (initScreen_inBounds _)
    simp [EveryStep, ErasureFits, Output.Erases, backspace]
  apply (attributes_constant_iff _ _ hcursor).mpr
  have htext : ∀ c ∈ ([72, 105] : List UInt8).takeWhile (· ≠ 0), c < 0x80 := by simp
  exact ⟨htext, fun _ _ _ _ => rfl, trivial⟩

/-- NumLock and then `a`: the error code leaves a cell with the attribute byte 0xff. -/
theorem error_code_recolours :
    ¬ ∀ (videoMem : Nat → BitVec 16) (events : List ConsoleEvent),
      (∀ sz, .printf sz ∈ events → sz.length ≤ 127 ∧ 0 ∉ sz) →
      Throughout outputNext CursorOnScreen (initScreen videoMem)
        (outputs consoleEvent Keyboard.start events) →
      AttributesConstant
        ((outputs consoleEvent Keyboard.start events).foldl outputNext (initScreen videoMem)) := by
  intro h
  have hout : outputs consoleEvent Keyboard.start [.key scanNumlock, .key 0x1e] =
      [.char 0xff] := rfl
  have hscreen : InBounds (initScreen fun _ => 0) := initScreen_inBounds _
  have hcursor : Throughout outputNext CursorOnScreen (initScreen fun _ => 0) [.char 0xff] := by
    apply cursorOnScreen_of_erasureFits hscreen
    simp [EveryStep, ErasureFits, Output.Erases, backspace]
  have hconstant := h (fun _ => 0) [.key scanNumlock, .key 0x1e] (by simp)
  rw [hout, List.foldl_cons, List.foldl_nil, outputNext] at hconstant
  exact not_attributesConstant_of_high hscreen.cursor (by decide) (hconstant hcursor)

end Caos
