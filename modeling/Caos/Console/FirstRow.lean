import Caos.Console.Attributes

/-!
The first row of the screen. The handler of the timer rewrites it with `set_screen`, and each
application processor counts up its last cell in the loop of `start_kernel`, while the boot
processor prints and scrolls. No lock is taken for it. Every processor performs one access to
the video memory at a time.
-/

namespace Caos

open Lib

/-- An access of the boot processor to `screen_info`. -/
inductive Access where
  | load (j : Nat)
  | save (i : Nat)
  | put (i : Nat) (cell : BitVec 16)
  | cursor (offset : Nat)

/-- The screen, and the register that a cell is copied through. -/
structure Painter where
  screen : ScreenInfo
  moved : BitVec 16

def Access.run (p : Painter) : Access → Painter
  | .load j => { p with moved := p.screen.videoMem j }
  | .save i => { p with screen := p.screen.store i p.moved }
  | .put i cell => { p with screen := p.screen.store i cell }
  | .cursor offset => { p with screen := { p.screen with cursorOffset := offset } }

/-! ## The accesses of the code -/

/-- The accesses of `scroll_screen`. -/
def scrollAccesses (line : Nat) : List Access :=
  if line > screenRow - 1 then []
  else
    let n := (screenRow - line) * screenCol
    ((List.range n).flatMap fun i => [.load (line * screenCol + i), .save i]) ++
      (List.range (screenRow * screenCol - n)).map fun i => .put (n + i) bgBlack

/-- The accesses of `set_cursor`. -/
def setCursorAccesses (offset : Nat) : List Access :=
  .cursor offset ::
    if offset / screenCol ≥ screenRow then
      scrollAccesses 1 ++ [.cursor (sub64 offset screenCol)]
    else []

/-- `cursor_offset` behind `set_cursor`. -/
def cursorSet (offset : Nat) : Nat :=
  if offset / screenCol ≥ screenRow then sub64 offset screenCol else offset

/-- The accesses of one iteration of `caos_delchar`, with the cursor that it finds. -/
def eraseAccesses (cursor : Nat) : List Access :=
  setCursorAccesses (sub64 cursor 1) ++ [.put (cursorSet (sub64 cursor 1)) bgBlack]

/-- The accesses for one character put or erased. -/
def outputAccesses (cursor : Nat) : Output → List Access
  | .erase => eraseAccesses cursor
  | .char c =>
    if c = newline then setCursorAccesses ((cursor / screenCol + 1) * screenCol % 2 ^ 64)
    else if c = backspace then eraseAccesses cursor
    else .put cursor (charCell c) :: setCursorAccesses ((cursor + 1) % 2 ^ 64)

/-- `(BG_BLACK | c)` for a `u8`. -/
def setScreenCell (c : UInt8) : BitVec 16 := bgBlack ||| c.toBitVec.setWidth 16

/-- `set_screen`. -/
def setScreen (offset : Nat) (c : UInt8) : Access := .put offset (setScreenCell c)

/-- `bsp_local_timer`. -/
def bspLocalTimer (tick : UInt8) : List Access :=
  ((List.range 80).reverse.map fun i => setScreen i (charByte ' ')) ++
    [setScreen 0 (charByte 'B'), setScreen 1 (charByte 'S'), setScreen 2 (charByte 'P'),
      setScreen 3 tick, setScreen 77 (charByte 'A'), setScreen 78 (charByte 'P')]

/-! ## The processors -/

/-- What a handler is called for: the timer, or what reaches the console. -/
inductive Interrupt where
  | timer
  | event (e : ConsoleEvent)

def Interrupt.event? : Interrupt → Option ConsoleEvent
  | .timer => none
  | .event e => some e

/-- The screen and the processors behind `sti`. The application processors are in their loop:
`read` is the value that one of them has read and not yet stored. `served` records the
interrupts taken; the code keeps no such record. -/
structure Live (ι : Type*) extends Painter where
  tick : UInt8
  key : Keyboard
  out : List Output
  todo : List Access
  read : ι → Option (BitVec 16)
  served : List Interrupt

/-- Who performs the next access. -/
inductive Turn (ι : Type*) where
  | boot
  | interrupt (i : Interrupt)
  | other (cpu : ι)

section

variable {ι : Type*}

/-- The boot processor is in `while (1)`. -/
def Live.Idle (s : Live ι) : Prop := s.out = [] ∧ s.todo = []

instance (s : Live ι) : Decidable s.Idle := inferInstanceAs (Decidable (_ ∧ _))

def Live.start (screen : ScreenInfo) (key : Keyboard) (tick : UInt8) : Live ι where
  screen := screen
  moved := 0
  tick := tick
  key := key
  out := []
  todo := []
  read := fun _ => none
  served := []

def Live.take (s : Live ι) : Interrupt → Live ι
  | .timer =>
    { s with
      todo := bspLocalTimer s.tick
      tick := s.tick + 1
      served := s.served ++ [.timer] }
  | .event e =>
    { s with
      key := (consoleEvent s.key e).1
      out := (consoleEvent s.key e).2
      served := s.served ++ [.event e] }

/-- The boot processor goes on with what it has begun. -/
def Live.proceed (s : Live ι) : Live ι :=
  match s.todo, s.out with
  | a :: todo, _ => { s with toPainter := a.run s.toPainter, todo := todo }
  | [], o :: out => { s with todo := outputAccesses s.screen.cursorOffset o, out := out }
  | [], [] => s

/-- One half of `screen_info.video_mem[79]++`. -/
def Live.increment [DecidableEq ι] (s : Live ι) (cpu : ι) : Live ι :=
  match s.read cpu with
  | none => { s with read := Function.update s.read cpu (some (s.screen.videoMem 79)) }
  | some cell =>
    { s with
      screen := s.screen.store 79 (cell + 1)
      read := Function.update s.read cpu none }

/-- The interrupt gates keep the interrupt flag cleared until the handler returns. -/
def Live.next [DecidableEq ι] (s : Live ι) : Turn ι → Live ι
  | .boot => s.proceed
  | .interrupt i => if s.Idle then s.take i else s
  | .other cpu => s.increment cpu

/-- The screen once the boot processor has finished what it has begun, if no other access
comes in between. -/
def Live.finished (s : Live ι) : ScreenInfo :=
  s.out.foldl outputNext (s.todo.foldl Access.run s.toPainter).screen

/-- What has reached the console. -/
def Live.events (s : Live ι) : List ConsoleEvent := s.served.filterMap Interrupt.event?

end

/-- The cells that the timer and the application processors write. -/
def FirstRow (j : Nat) : Prop := j < screenCol

/-- The two screens have the same cursor and, outside of `hidden`, the same cells and the
same stores. -/
structure Agree (hidden : Nat → Prop) (s t : ScreenInfo) : Prop where
  cursor : s.cursorOffset = t.cursorOffset
  cells : ∀ j, ¬ hidden j → s.videoMem j = t.videoMem j
  written : ∀ j, ¬ hidden j → (j ∈ s.written ↔ j ∈ t.written)

/-- What the timer's handler leaves in the first row. -/
def statusChar (tick : UInt8) : Nat → UInt8
  | 0 => charByte 'B'
  | 1 => charByte 'S'
  | 2 => charByte 'P'
  | 3 => tick
  | 77 => charByte 'A'
  | 78 => charByte 'P'
  | _ => charByte ' '

/-- The first row but for its last cell. -/
def StatusLine (tick : UInt8) (s : ScreenInfo) : Prop :=
  ∀ j < 79, s.videoMem j = setScreenCell (statusChar tick j)

/-! ## Screens that agree -/

section Screens

variable {hidden hidden' : Nat → Prop} {s t u : ScreenInfo} {p q : Painter} {a : Access}

theorem Agree.refl (s : ScreenInfo) : Agree hidden s s :=
  ⟨rfl, fun _ _ => rfl, fun _ _ => Iff.rfl⟩

theorem Agree.trans (h : Agree hidden s t) (h' : Agree hidden t u) : Agree hidden s u where
  cursor := h.cursor.trans h'.cursor
  cells := fun j hj => (h.cells j hj).trans (h'.cells j hj)
  written := fun j hj => (h.written j hj).trans (h'.written j hj)

theorem Agree.mono (h : Agree hidden s t) (hsub : ∀ j, hidden j → hidden' j) :
    Agree hidden' s t where
  cursor := h.cursor
  cells := fun j hj => h.cells j fun hhidden => hj (hsub j hhidden)
  written := fun j hj => h.written j fun hhidden => hj (hsub j hhidden)

theorem Agree.store (h : Agree hidden s t) (i : Nat) (cell : BitVec 16) :
    Agree hidden (s.store i cell) (t.store i cell) where
  cursor := h.cursor
  cells := fun j hj => by rw [store_videoMem, store_videoMem, h.cells j hj]
  written := fun j hj => by rw [mem_store_written, mem_store_written, h.written j hj]

theorem agree_store_hidden {i : Nat} (hi : hidden i) (s : ScreenInfo) (cell : BitVec 16) :
    Agree hidden (s.store i cell) s := by
  have hne : ∀ j, ¬ hidden j → j ≠ i := fun j hj heq => hj (heq ▸ hi)
  refine ⟨rfl, ?_, ?_⟩
  · intro j hj
    rw [store_videoMem, if_neg (hne j hj)]
  · intro j hj
    rw [mem_store_written, or_iff_right (hne j hj)]

/-- The hidden cells all lie on the screen. -/
theorem Agree.inBounds_iff (h : Agree FirstRow s t) : InBounds s ↔ InBounds t := by
  have hwrites : (∀ i ∈ s.written, i < screenRow * screenCol) ↔
      ∀ i ∈ t.written, i < screenRow * screenCol := by
    apply forall_congr'
    intro i
    by_cases hi : FirstRow i
    · have hscreen : i < screenRow * screenCol := Nat.lt_of_lt_of_le hi (by decide)
      exact iff_of_true (fun _ => hscreen) (fun _ => hscreen)
    · rw [h.written i hi]
  constructor
  · exact fun hs => ⟨h.cursor ▸ hs.cursor, hwrites.mp hs.writes⟩
  · exact fun ht => ⟨h.cursor ▸ ht.cursor, hwrites.mpr ht.writes⟩

/-- The same for what the boot processor holds. -/
structure Alike (hidden : Nat → Prop) (p q : Painter) : Prop where
  screen : Agree hidden p.screen q.screen
  moved : p.moved = q.moved

/-- The access reads none of the hidden cells. -/
def Access.Visible (hidden : Nat → Prop) : Access → Prop
  | .load j => ¬ hidden j
  | _ => True

theorem Access.Visible.mono (h : a.Visible hidden') (hsub : ∀ j, hidden j → hidden' j) :
    a.Visible hidden := by
  cases a with
  | load j => exact fun hj => h (hsub j hj)
  | save _ => trivial
  | put _ _ => trivial
  | cursor _ => trivial

theorem Alike.run (h : Alike hidden p q) (ha : a.Visible hidden) :
    Alike hidden (a.run p) (a.run q) := by
  obtain ⟨hscreen, hmoved⟩ := h
  cases a with
  | load j => exact ⟨hscreen, hscreen.cells j ha⟩
  | save i =>
      refine ⟨?_, hmoved⟩
      simp only [Access.run, hmoved]
      exact hscreen.store i q.moved
  | put i cell => exact ⟨hscreen.store i cell, hmoved⟩
  | cursor offset => exact ⟨⟨rfl, hscreen.cells, hscreen.written⟩, hmoved⟩

theorem Alike.foldl (h : Alike hidden p q) {todo : List Access}
    (htodo : ∀ a ∈ todo, a.Visible hidden) :
    Alike hidden (todo.foldl Access.run p) (todo.foldl Access.run q) := by
  induction todo generalizing p q with
  | nil => exact h
  | cons a todo ih =>
      obtain ⟨ha, hrest⟩ := List.forall_mem_cons.mp htodo
      exact ih (h.run ha) hrest

end Screens

/-! ## The accesses perform the operations -/

section Accesses

variable {hidden : Nat → Prop} {s t : ScreenInfo} {p : Painter} {a : Access}

theorem copy_accesses (distance n : Nat) (p : Painter) :
    (((List.range n).flatMap fun i => [Access.load (distance + i), .save i]).foldl
      Access.run p).screen =
      forUpTo (fun i s => s.store i (s.videoMem (distance + i))) n p.screen := by
  induction n with
  | zero => rfl
  | succ n ih =>
      rw [List.range_succ, List.flatMap_append, List.foldl_append, forUpTo, ← ih]
      rfl

theorem fill_accesses (first n : Nat) (cell : BitVec 16) (p : Painter) :
    (((List.range n).map fun i => Access.put (first + i) cell).foldl Access.run p).screen =
      forUpTo (fun i s => s.store (first + i) cell) n p.screen := by
  induction n with
  | zero => rfl
  | succ n ih =>
      rw [List.range_succ, List.map_append, List.foldl_append, forUpTo, ← ih]
      rfl

theorem scroll_accesses (line : Nat) (p : Painter) :
    ((scrollAccesses line).foldl Access.run p).screen = scrollScreen line p.screen := by
  unfold scrollAccesses scrollScreen
  split
  · rfl
  · dsimp only
    rw [List.foldl_append, fill_accesses, copy_accesses]

theorem setCursor_accesses (offset : Nat) (p : Painter) :
    ((setCursorAccesses offset).foldl Access.run p).screen = setCursor offset p.screen := by
  unfold setCursorAccesses setCursor
  dsimp only
  rw [List.foldl_cons]
  split
  · rw [List.foldl_append, List.foldl_cons, List.foldl_nil, Access.run, scroll_accesses,
      (scrollScreen_one _).1]
    rfl
  · rfl

theorem setCursor_cursor (offset : Nat) (s : ScreenInfo) :
    (setCursor offset s).cursorOffset = cursorSet offset := by
  unfold setCursor cursorSet
  dsimp only
  split
  · rw [(scrollScreen_one _).1]
  · rfl

theorem erase_accesses (p : Painter) :
    ((eraseAccesses p.screen.cursorOffset).foldl Access.run p).screen = eraseChar p.screen := by
  unfold eraseAccesses eraseChar
  rw [List.foldl_append, List.foldl_cons, List.foldl_nil, Access.run, setCursor_accesses]
  dsimp only
  rw [setCursor_cursor]

/-- Alone on the screen, the boot processor puts and erases characters. -/
theorem output_accesses (p : Painter) (o : Output) :
    ((outputAccesses p.screen.cursorOffset o).foldl Access.run p).screen =
      outputNext p.screen o := by
  cases o with
  | erase => exact erase_accesses p
  | char c =>
      unfold outputAccesses outputNext printChar
      dsimp only
      split_ifs with hnewline hbackspace
      · exact setCursor_accesses _ p
      · rw [caosDelchar_one]
        exact erase_accesses p
      · rw [List.foldl_cons, setCursor_accesses]
        rfl

theorem scrollAccesses_visible : ∀ a ∈ scrollAccesses 1, a.Visible FirstRow := by
  intro a ha
  have hline : ¬ 1 > screenRow - 1 := by decide
  rw [scrollAccesses, if_neg hline, List.mem_append, List.mem_flatMap, List.mem_map] at ha
  rcases ha with ⟨i, -, hi⟩ | ⟨i, -, rfl⟩
  · rcases List.mem_pair.mp hi with rfl | rfl
    · simp [Access.Visible, FirstRow]
    · trivial
  · trivial

theorem setCursorAccesses_visible (offset : Nat) :
    ∀ a ∈ setCursorAccesses offset, a.Visible FirstRow := by
  unfold setCursorAccesses
  rw [List.forall_mem_cons]
  refine ⟨trivial, ?_⟩
  split
  · rw [List.forall_mem_append, List.forall_mem_singleton]
    exact ⟨scrollAccesses_visible, trivial⟩
  · exact List.forall_mem_nil _

theorem eraseAccesses_visible (cursor : Nat) :
    ∀ a ∈ eraseAccesses cursor, a.Visible FirstRow := by
  unfold eraseAccesses
  rw [List.forall_mem_append, List.forall_mem_singleton]
  exact ⟨setCursorAccesses_visible _, trivial⟩

/-- Scrolling reads from the second row on. -/
theorem outputAccesses_visible (cursor : Nat) (o : Output) :
    ∀ a ∈ outputAccesses cursor o, a.Visible FirstRow := by
  cases o with
  | erase => exact eraseAccesses_visible cursor
  | char c =>
      unfold outputAccesses
      dsimp only
      split_ifs with hnewline hbackspace
      · exact setCursorAccesses_visible _
      · exact eraseAccesses_visible cursor
      · exact List.forall_mem_cons.mpr ⟨trivial, setCursorAccesses_visible _⟩

theorem Agree.next (h : Agree hidden s t) (hsub : ∀ j, hidden j → FirstRow j)
    (o : Output) : Agree hidden (outputNext s o) (outputNext t o) := by
  have hs := output_accesses ⟨s, 0⟩ o
  have ht := output_accesses ⟨t, 0⟩ o
  dsimp only at hs ht
  rw [← hs, ← ht, ← h.cursor]
  have halike : Alike hidden ⟨s, 0⟩ ⟨t, 0⟩ := ⟨h, rfl⟩
  exact (halike.foldl fun a ha => (outputAccesses_visible _ o a ha).mono hsub).screen

theorem Agree.foldl (h : Agree hidden s t) (hsub : ∀ j, hidden j → FirstRow j)
    (out : List Output) : Agree hidden (out.foldl outputNext s) (out.foldl outputNext t) := by
  induction out generalizing s t with
  | nil => exact h
  | cons o out ih => exact ih (h.next hsub o)

end Accesses

/-! ## The timer -/

section Timer

variable {tick : UInt8}

/-- The handler calls `set_screen` on the first row and does nothing else. -/
theorem mem_bspLocalTimer {a : Access} (ha : a ∈ bspLocalTimer tick) :
    ∃ i c, FirstRow i ∧ a = setScreen i c := by
  rcases List.mem_append.mp ha with hblank | htext
  · obtain ⟨i, hi, rfl⟩ := List.mem_map.mp hblank
    exact ⟨i, _, List.mem_range.mp (List.mem_reverse.mp hi), rfl⟩
  · simp only [List.mem_cons, List.not_mem_nil, or_false] at htext
    rcases htext with rfl | rfl | rfl | rfl | rfl | rfl <;>
      exact ⟨_, _, by simp [FirstRow, screenCol], rfl⟩

theorem bspLocalTimer_visible (hidden : Nat → Prop) (tick : UInt8) :
    ∀ a ∈ bspLocalTimer tick, a.Visible hidden := by
  intro a ha
  obtain ⟨i, c, -, rfl⟩ := mem_bspLocalTimer ha
  trivial

/-- Stores of `set_screen` to the first row hide in it. -/
theorem setScreens_agree {todo : List Access}
    (h : ∀ a ∈ todo, ∃ i c, FirstRow i ∧ a = setScreen i c) (p : Painter) :
    Agree FirstRow (todo.foldl Access.run p).screen p.screen := by
  induction todo generalizing p with
  | nil => exact .refl _
  | cons a todo ih =>
      obtain ⟨⟨i, c, hi, rfl⟩, hrest⟩ := List.forall_mem_cons.mp h
      have hfirst : Agree FirstRow ((setScreen i c).run p).screen p.screen :=
        agree_store_hidden hi _ _
      exact (ih hrest _).trans hfirst

theorem bspLocalTimer_agree (tick : UInt8) (p : Painter) :
    Agree FirstRow ((bspLocalTimer tick).foldl Access.run p).screen p.screen :=
  setScreens_agree (fun _ ha => mem_bspLocalTimer ha) p

/-- The loop that blanks the row, downwards. -/
theorem blank_cells (c : UInt8) (n : Nat) (p : Painter) (j : Nat) :
    (((List.range n).reverse.map fun i => setScreen i c).foldl Access.run p).screen.videoMem j =
      if j < n then setScreenCell c else p.screen.videoMem j := by
  induction n generalizing p with
  | zero => rfl
  | succ n ih =>
      rw [List.range_succ, List.reverse_append, List.reverse_singleton, List.singleton_append,
        List.map_cons, List.foldl_cons, ih, setScreen, Access.run, store_videoMem]
      split_ifs <;> first | rfl | omega

theorem bspLocalTimer_status (tick : UInt8) (p : Painter) :
    StatusLine tick ((bspLocalTimer tick).foldl Access.run p).screen := by
  intro j hj
  have hblank := blank_cells (charByte ' ') 80 p j
  rw [if_pos (by omega)] at hblank
  rw [bspLocalTimer, List.foldl_append]
  generalize ((List.range 80).reverse.map fun i => setScreen i (charByte ' ')).foldl
    Access.run p = q at hblank ⊢
  simp only [List.foldl_cons, List.foldl_nil, setScreen, Access.run, store_videoMem, hblank]
  split_ifs with h78 h77 h3 h2 h1 h0
  · exact h78 ▸ rfl
  · exact h77 ▸ rfl
  · exact h3 ▸ rfl
  · exact h2 ▸ rfl
  · exact h1 ▸ rfl
  · exact h0 ▸ rfl
  · unfold statusChar
    split <;> first | rfl | omega

end Timer

/-! ## Runs -/

section Run

variable {ι : Type*} {screen : ScreenInfo} {start : Keyboard} {s : Live ι}

theorem firstRow_last : ∀ j, j = 79 → FirstRow j := by
  rintro j rfl
  simp [FirstRow, screenCol]

theorem Live.Idle.finished (h : s.Idle) : s.finished = s.screen := by
  rw [Live.finished, h.1, h.2]
  rfl

theorem finished_proceed (s : Live ι) : s.proceed.finished = s.finished := by
  unfold Live.proceed
  split
  · next a todo _ htodo =>
      rw [Live.finished, Live.finished, htodo]
      rfl
  · next o out htodo hout =>
      rw [Live.finished, Live.finished, htodo, hout, output_accesses]
      rfl
  · rfl

/-- An increment changes its cell alone, whatever the boot processor has begun. -/
theorem finished_increment [DecidableEq ι] (hvisible : ∀ a ∈ s.todo, a.Visible FirstRow)
    (cpu : ι) : Agree (· = 79) (s.increment cpu).finished s.finished := by
  unfold Live.increment
  split
  · exact .refl _
  · next cell _ =>
      have hcell : Agree (· = 79) (s.screen.store 79 (cell + 1)) s.screen :=
        agree_store_hidden (by rfl) _ _
      have hstore : Alike (· = 79) ⟨s.screen.store 79 (cell + 1), s.moved⟩ s.toPainter :=
        ⟨hcell, rfl⟩
      have hrun := hstore.foldl fun a ha => (hvisible a ha).mono firstRow_last
      exact hrun.screen.foldl firstRow_last s.out

theorem StatusLine.congr {tick : UInt8} {s t : ScreenInfo} (h : StatusLine tick t)
    (hagree : Agree (· = 79) s t) : StatusLine tick s := by
  intro j hj
  rw [hagree.cells j (by omega)]
  exact h j hj

/-- What holds at every point of a run from `screen`. -/
structure Isolated (screen : ScreenInfo) (start : Keyboard) (s : Live ι) : Prop where
  visible : ∀ a ∈ s.todo, a.Visible FirstRow
  keyboard : s.key = finalState consoleEvent start s.events
  rows : Agree FirstRow s.finished ((outputs consoleEvent start s.events).foldl outputNext screen)
  status : s.served.getLast? = some .timer → StatusLine (s.tick - 1) s.finished

theorem isolated_start (screen : ScreenInfo) (start : Keyboard) (tick : UInt8) :
    Isolated screen start (Live.start screen start tick : Live ι) where
  visible := List.forall_mem_nil _
  keyboard := rfl
  rows := .refl _
  status := nofun

theorem Isolated.timer (h : Isolated screen start s) (hidle : s.Idle) :
    Isolated screen start (s.take .timer) := by
  have hrows := h.rows
  rw [hidle.finished] at hrows
  have hevents : (s.take .timer).events = s.events := by
    simp [Live.take, Live.events, Interrupt.event?]
  have hfinished : (s.take .timer).finished =
      ((bspLocalTimer s.tick).foldl Access.run s.toPainter).screen := by
    rw [Live.finished, Live.take, hidle.1]
    rfl
  constructor
  · exact bspLocalTimer_visible FirstRow s.tick
  · rw [hevents]
    exact h.keyboard
  · rw [hevents, hfinished]
    exact (bspLocalTimer_agree s.tick s.toPainter).trans hrows
  · intro _
    have htick : (s.take .timer).tick - 1 = s.tick := by simp [Live.take]
    rw [hfinished, htick]
    exact bspLocalTimer_status s.tick s.toPainter

theorem Isolated.event (h : Isolated screen start s) (hidle : s.Idle) (e : ConsoleEvent) :
    Isolated screen start (s.take (.event e)) := by
  have hrows := h.rows
  rw [hidle.finished] at hrows
  have hevents : (s.take (.event e)).events = s.events ++ [e] := by
    simp [Live.take, Live.events, Interrupt.event?]
  have hfinished : (s.take (.event e)).finished =
      (consoleEvent s.key e).2.foldl outputNext s.screen := by
    rw [Live.finished, Live.take, hidle.2]
    rfl
  constructor
  · rw [Live.take, hidle.2]
    exact List.forall_mem_nil _
  · rw [hevents, finalState, List.foldl_concat, ← finalState, ← h.keyboard]
    rfl
  · rw [hevents, hfinished, outputs_concat, List.foldl_append, ← h.keyboard]
    exact hrows.foldl (fun _ hj => hj) _
  · intro hlast
    simp [Live.take] at hlast

/-- Where no interrupt is taken, the one cell may change. -/
theorem Isolated.of_agree (h : Isolated screen start s) {t : Live ι}
    (hvisible : ∀ a ∈ t.todo, a.Visible FirstRow)
    (hkept : t.key = s.key ∧ t.served = s.served ∧ t.tick = s.tick)
    (hagree : Agree (· = 79) t.finished s.finished) : Isolated screen start t := by
  obtain ⟨hkey, hserved, htick⟩ := hkept
  have hevents : t.events = s.events := by rw [Live.events, hserved, ← Live.events]
  constructor
  · exact hvisible
  · rw [hkey, hevents]
    exact h.keyboard
  · rw [hevents]
    exact (hagree.mono firstRow_last).trans h.rows
  · rw [hserved, htick]
    exact fun hlast => (h.status hlast).congr hagree

theorem Isolated.proceed (h : Isolated screen start s) : Isolated screen start s.proceed := by
  apply h.of_agree _ _ (finished_proceed s ▸ .refl _)
  · have hvisible := h.visible
    unfold Live.proceed
    split
    · next a todo _ htodo =>
        rw [htodo] at hvisible
        exact (List.forall_mem_cons.mp hvisible).2
    · exact outputAccesses_visible _ _
    · exact hvisible
  · unfold Live.proceed
    split <;> exact ⟨rfl, rfl, rfl⟩

variable [DecidableEq ι]

theorem Isolated.increment (h : Isolated screen start s) (cpu : ι) :
    Isolated screen start (s.increment cpu) := by
  apply h.of_agree _ _ (finished_increment h.visible cpu)
  · unfold Live.increment
    split <;> exact h.visible
  · unfold Live.increment
    split <;> exact ⟨rfl, rfl, rfl⟩

/-- One access of any processor, or one interrupt. -/
theorem Isolated.step (h : Isolated screen start s) (turn : Turn ι) :
    Isolated screen start (s.next turn) := by
  cases turn with
  | boot => exact h.proceed
  | other cpu => exact h.increment cpu
  | interrupt i =>
      unfold Live.next
      dsimp only
      split
      · next hidle =>
          cases i with
          | timer => exact h.timer hidle
          | event e => exact h.event hidle e
      · exact h

theorem isolated_run (screen : ScreenInfo) (start : Keyboard) (tick : UInt8)
    (turns : List (Turn ι)) :
    Isolated screen start (turns.foldl Live.next (.start screen start tick)) := by
  induction turns using List.reverseRecOn with
  | nil => exact isolated_start screen start tick
  | append_singleton past turn ih =>
      rw [List.foldl_concat]
      exact ih.step turn

end Run

/-- In any interleaving of the accesses, whenever the boot processor is idle: the cursor and
all rows but the first are those of the console output alone, and the stores are on the screen
exactly if those of the output alone are. If the timer has come last, the first row but for
its last cell is its status line. -/
theorem first_row_isolated {ι : Type*} [DecidableEq ι] (screen : ScreenInfo) (start : Keyboard)
    (tick : UInt8) (turns : List (Turn ι)) {s : Live ι}
    (hrun : turns.foldl Live.next (.start screen start tick) = s) (hidle : s.Idle) :
    Agree FirstRow s.screen ((outputs consoleEvent start s.events).foldl outputNext screen) ∧
      (InBounds s.screen ↔
        InBounds ((outputs consoleEvent start s.events).foldl outputNext screen)) ∧
      (s.served.getLast? = some .timer → StatusLine (s.tick - 1) s.screen) := by
  have hisolated := isolated_run screen start tick turns
  rw [hrun] at hisolated
  have hrows := hisolated.rows
  have hstatus := hisolated.status
  rw [hidle.finished] at hrows hstatus
  exact ⟨hrows, hrows.inBounds_iff, hstatus⟩

/-- The key `a` and then the timer, with two application processors in the way. -/
def sharedTurns : List (Turn Bool) :=
  [.interrupt (.event (.key 0x1e)), .other false, .boot, .other true, .boot, .other false,
    .boot, .interrupt .timer] ++ List.replicate 40 .boot ++ [.other true] ++
    List.replicate 46 .boot

def darkScreen : ScreenInfo := { cursorOffset := 0, videoMem := fun _ => 0, written := [] }

def sharedRun : Live Bool := sharedTurns.foldl Live.next (.start darkScreen .start 0)

set_option maxRecDepth 4000 in
theorem shared_first_row :
    Agree FirstRow sharedRun.screen
        ((outputs consoleEvent .start [.key 0x1e]).foldl outputNext darkScreen) ∧
      StatusLine 0 sharedRun.screen := by
  have hidle : sharedRun.Idle := ⟨rfl, rfl⟩
  have hserved : sharedRun.served = [.event (.key 0x1e), .timer] := rfl
  have htick : sharedRun.tick - 1 = 0 := rfl
  obtain ⟨hrows, -, hstatus⟩ :=
    @first_row_isolated _ _ darkScreen .start 0 sharedTurns sharedRun rfl hidle
  rw [Live.events, hserved] at hrows
  rw [hserved, htick] at hstatus
  exact ⟨hrows, hstatus rfl⟩

end Caos
