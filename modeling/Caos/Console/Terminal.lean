import Caos.Console.Screen

/-!
The console as a window on a terminal without end. The terminal keeps every row
ever written; the screen shows the last 25 rows down to the row of the cursor.
-/

namespace Caos

/-- A terminal of `screenCol` columns and any number of rows. `text` holds the
characters written so far. -/
structure Terminal where
  cursor : Nat
  text : Nat → Option UInt8

def Terminal.start : Terminal := { cursor := 0, text := fun _ => none }

def Terminal.put (t : Terminal) (c : UInt8) : Terminal :=
  if c = newline then { t with cursor := (t.cursor / 80 + 1) * 80 }
  else { cursor := t.cursor + 1, text := Function.update t.text t.cursor (some c) }

/-- The rows above the screen. -/
def Terminal.hidden (t : Terminal) : Nat := t.cursor / 80 - 24

/-- White on black. -/
def Terminal.cell : Option UInt8 → BitVec 16
  | some c => 0x0700 ||| c.toBitVec.setWidth 16
  | none => 0x0700

/-- The screen shows the last rows of the terminal. -/
structure Shows (s : ScreenInfo) (t : Terminal) : Prop where
  cursor : s.cursorOffset = t.cursor - 80 * t.hidden
  cells : ∀ i < 2000, s.videoMem i = Terminal.cell (t.text (80 * t.hidden + i))
  ahead : ∀ j, t.cursor ≤ j → t.text j = none

/-- A printable character, or `'\n'`. -/
def Plain (c : UInt8) : Prop := c ≠ 0 ∧ c ≠ backspace ∧ c < 128

/-- The sign extension of a 7-bit character adds nothing. -/
theorem charCell_of_lt {c : UInt8} (h : c < 128) : charCell c = Terminal.cell (some c) := by
  have hlt : c.toNat < 128 := h
  have hmsb : c.toBitVec.msb = false := by
    rw [BitVec.msb_eq_false_iff_two_mul_lt]
    simp only [UInt8.toNat_toBitVec]
    omega
  simp only [charCell, Terminal.cell, bgBlack]
  rw [BitVec.signExtend_eq_setWidth_of_msb_false hmsb]

section

variable {s : ScreenInfo} {t : Terminal}

theorem Shows.onScreen (h : Shows s t) : s.cursorOffset < 2000 := by
  rw [h.cursor]
  simp only [Terminal.hidden]
  omega

/-- Moving the cursor forward, at most to the start of the row behind the screen. The
text may already differ from the screen's by what is written in front of the cursor. -/
theorem setCursor_shows {first cursor : Nat} {text : Nat → Option UInt8}
    (hcells : ∀ i < 2000, s.videoMem i = Terminal.cell (text (80 * first + i)))
    (hahead : ∀ j, cursor ≤ j → text j = none)
    (hfirst : first = 0 ∨ 80 * (first + 24) ≤ cursor) (hlast : cursor ≤ 80 * (first + 25)) :
    Shows (setCursor (cursor - 80 * first) s) { cursor := cursor, text := text } := by
  by_cases hscroll : cursor = 80 * (first + 25)
  · have hhidden : cursor / 80 - 24 = first + 1 := by omega
    obtain ⟨hcursor, hvideo, -⟩ := @setCursor_outside s (cursor - 80 * first) (by omega)
    constructor
    · rw [hcursor]
      simp only [Terminal.hidden, hhidden, sub64, screenCol]
      omega
    · intro i hi
      simp only [Terminal.hidden, hhidden]
      rw [hvideo]
      by_cases hrow : i < 1920
      · have hnext : 80 * (first + 1) + i = 80 * first + (80 + i) := by omega
        rw [if_pos hrow, hnext]
        exact hcells (80 + i) (by omega)
      · rw [if_neg hrow, if_pos hi, hahead _ (by omega)]
        rfl
    · exact hahead
  · have hhidden : cursor / 80 - 24 = first := by omega
    rw [setCursor_inside (by omega)]
    constructor
    · simp only [Terminal.hidden, hhidden]
    · simp only [Terminal.hidden, hhidden]
      exact hcells
    · exact hahead

theorem Shows.newline (h : Shows s t) : Shows (printChar newline s) (t.put newline) := by
  have hoffset : (s.cursorOffset / screenCol + 1) * screenCol % 2 ^ 64 =
      (t.cursor / 80 + 1) * 80 - 80 * t.hidden := by
    have hlt := h.onScreen
    have hcursor := h.cursor
    simp only [Terminal.hidden, screenCol] at *
    rw [Nat.mod_eq_of_lt] <;> omega
  simp only [printChar, Terminal.put, if_true, hoffset]
  apply setCursor_shows h.cells
  · intro j hj
    exact h.ahead j (by omega)
  · simp only [Terminal.hidden]
    omega
  · simp only [Terminal.hidden]
    omega

theorem Shows.char (h : Shows s t) {c : UInt8} (hc : Plain c) (hnewline : c ≠ Caos.newline) :
    Shows (printChar c s) (t.put c) := by
  have hlt := h.onScreen
  have hcursor := h.cursor
  have hoffset : (s.cursorOffset + 1) % 2 ^ 64 = t.cursor + 1 - 80 * t.hidden := by
    simp only [Terminal.hidden] at *
    omega
  simp only [printChar, Terminal.put, if_neg hnewline, if_neg hc.2.1, caosPutchar,
    store_cursorOffset, hoffset]
  apply setCursor_shows
  · intro i hi
    rw [store_videoMem]
    by_cases hi' : i = s.cursorOffset
    · have hpos : 80 * t.hidden + i = t.cursor := by
        simp only [Terminal.hidden] at *
        omega
      rw [if_pos hi', hpos, Function.update_self]
      exact charCell_of_lt hc.2.2
    · have hpos : 80 * t.hidden + i ≠ t.cursor := by omega
      rw [if_neg hi', Function.update_of_ne hpos]
      exact h.cells i hi
  · intro j hj
    rw [Function.update_of_ne (by omega)]
    exact h.ahead j (by omega)
  · simp only [Terminal.hidden]
    omega
  · simp only [Terminal.hidden]
    omega

theorem Shows.put (h : Shows s t) {c : UInt8} (hc : Plain c) :
    Shows (printChar c s) (t.put c) := by
  by_cases hnewline : c = Caos.newline
  · rw [hnewline]
    exact h.newline
  · exact h.char hc hnewline

theorem Shows.text (h : Shows s t) {sz : List UInt8} (hsz : ∀ c ∈ sz, Plain c) :
    Shows (printText sz s) (sz.foldl Terminal.put t) := by
  induction sz generalizing s t with
  | nil => exact h
  | cons c sz ih =>
      have hc : Plain c := hsz c (List.mem_cons_self ..)
      unfold printText
      rw [if_neg hc.1, List.foldl_cons]
      exact ih (h.put hc) fun c' hc' => hsz c' (List.mem_cons_of_mem c hc')

theorem Shows.texts (h : Shows s t) {texts : List (List UInt8)}
    (htexts : ∀ sz ∈ texts, ∀ c ∈ sz, Plain c) :
    Shows (texts.foldl (fun s sz => printText sz s) s) (texts.flatten.foldl Terminal.put t) := by
  induction texts generalizing s t with
  | nil => exact h
  | cons sz texts ih =>
      rw [List.foldl_cons, List.flatten_cons, List.foldl_append]
      apply ih (h.text (htexts sz (List.mem_cons_self ..)))
      exact fun sz' hsz' => htexts sz' (List.mem_cons_of_mem sz hsz')

end

theorem initScreen_shows (videoMem : Nat → BitVec 16) :
    Shows (initScreen videoMem) Terminal.start := by
  obtain ⟨hcursor, hvideo, -⟩ := initScreen_spec videoMem
  constructor
  · exact hcursor
  · intro i hi
    rw [hvideo i hi]
    rfl
  · exact fun _ _ => rfl

/-- Whatever is printed, the screen shows the last rows of the terminal that has
received the same characters. -/
theorem console_shows_terminal (videoMem : Nat → BitVec 16) (texts : List (List UInt8))
    (htexts : ∀ sz ∈ texts, ∀ c ∈ sz, Plain c) :
    let s := texts.foldl (fun s sz => printText sz s) (initScreen videoMem)
    let t := texts.flatten.foldl Terminal.put Terminal.start
    s.cursorOffset = t.cursor - 80 * (t.cursor / 80 - 24) ∧
      ∀ i < 2000, s.videoMem i =
        Terminal.cell (t.text (80 * (t.cursor / 80 - 24) + i)) := by
  have hshows := (initScreen_shows videoMem).texts htexts
  exact ⟨hshows.cursor, hshows.cells⟩

/-- `"Hi\n"`, then `"!"`. -/
theorem greeting_shown :
    let s := [[72, 105, newline], [33]].foldl (fun s sz => printText sz s) (initScreen fun _ => 0)
    s.cursorOffset = 81 ∧ s.videoMem 1 = 0x0769 ∧ s.videoMem 79 = 0x0700 ∧
      s.videoMem 80 = 0x0721 := by
  have hplain : ∀ sz ∈ [[72, 105, newline], [33]], ∀ c ∈ sz, Plain c := by
    simp [Plain, newline, backspace]
  obtain ⟨hcursor, hcells⟩ := console_shows_terminal (fun _ => 0) _ hplain
  refine ⟨hcursor, ?_, ?_, ?_⟩
  · exact hcells 1 (by norm_num)
  · exact hcells 79 (by norm_num)
  · exact hcells 80 (by norm_num)

end Caos
