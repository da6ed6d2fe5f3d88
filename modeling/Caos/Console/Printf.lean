import Caos.Console.Screen
import Caos.Console.Vsprintf
import Caos.Lib.Iteration
import Mathlib.Data.List.TakeWhile

/-!
`caos_printf`: the formatted text goes to the static buffer `sz` and from there to the
screen, character by character. The output loop reads the buffer again at every test, so
that an interrupt can come between two of them.
-/

namespace Caos

open Lib

/-- What the output loop does with a character: `set_cursor` to the next row,
`caos_delchar(1)` or `caos_putchar`. -/
inductive ScreenCall where
  | nextRow : ScreenCall
  | delchar : ScreenCall
  | putchar : UInt8 → ScreenCall
  deriving DecidableEq, Repr

def ScreenCall.run (s : ScreenInfo) : ScreenCall → ScreenInfo
  | .nextRow => setCursor ((s.cursorOffset / screenCol + 1) * screenCol % 2 ^ 64) s
  | .delchar => caosDelchar 1 s
  | .putchar c => caosPutchar c s

/-- Where the output loop stands: before each of its reads of `sz[i]`, or before the
`i++` behind a newline or a backspace. -/
inductive PrintPc where
  | test | ifNewline | ifBackspace | put | increment
  deriving DecidableEq, Repr

/-- The output loop of one call: its index, and what it has done on the screen. -/
structure Printing where
  pc : PrintPc
  i : Nat
  shown : List ScreenCall
  deriving DecidableEq, Repr

def Printing.start : Printing := { pc := .test, i := 0, shown := [] }

/-- One step of `while (sz[i] != '\0')`. It returns `i`. -/
def printLoop (sz : Nat) (mem : ByteMemory) (p : Printing) :
    Printing ⊕ Nat × List ScreenCall :=
  match p.pc with
  | .test =>
    if mem (sz + p.i) ≠ 0 then .inl { p with pc := .ifNewline } else .inr (p.i, p.shown)
  | .ifNewline =>
    if mem (sz + p.i) = newline then
      .inl { p with pc := .increment, shown := p.shown ++ [.nextRow] }
    else .inl { p with pc := .ifBackspace }
  | .ifBackspace =>
    if mem (sz + p.i) = backspace then
      .inl { p with pc := .increment, shown := p.shown ++ [.delchar] }
    else .inl { p with pc := .put }
  | .put =>
    .inl { pc := .test, i := p.i + 1, shown := p.shown ++ [.putchar (mem (sz + p.i))] }
  | .increment => .inl { p with pc := .test, i := p.i + 1 }

/-- `caos_printf`: memory afterwards, what it returns and what it does on the screen. -/
def caosPrintf (bt : LockedBt) (fuel sz fmt : Nat) (args : List (BitVec 64)) (mem : ByteMemory) :
    Option (ByteMemory × Nat × List ScreenCall) := do
  let (mem, _) ← caosVsprintf bt fuel sz fmt args mem
  let result ← iterate (printLoop sz mem) fuel .start
  return (mem, result)

/-- What the output loop makes of a character of the text. -/
def screenCall (c : UInt8) : ScreenCall :=
  if c = newline then .nextRow else if c = backspace then .delchar else .putchar c

/-- The characters of a buffer that are printed: those in front of the first NUL. -/
def message (buf : List UInt8) : List UInt8 := buf.takeWhile (· ≠ 0)

/-- The text of a call, as it stands in the buffer. -/
def formatted (text : BitVec 64 → List UInt8) (format : List UInt8)
    (args : List (BitVec 64)) : List UInt8 :=
  formatOutput text (directives format) args

theorem screenCall_injective : Function.Injective screenCall := by
  intro c d h
  unfold screenCall at h
  grind

theorem screenCall_run (c : UInt8) (s : ScreenInfo) : (screenCall c).run s = printChar c s := by
  unfold screenCall printChar
  split
  · rfl
  · split <;> rfl

/-! ## The formatter -/

section Formatter

variable {bt : LockedBt} {fuel more str src fmt : Nat} {args : List (BitVec 64)} {mem : ByteMemory}

theorem strcatLoop_mono {r : Nat × ByteMemory} (h : strcatLoop fuel str src mem = some r)
    (hle : fuel ≤ more) : strcatLoop more str src mem = some r := by
  induction fuel generalizing more str src mem with
  | zero => simp [strcatLoop] at h
  | succ fuel ih =>
      obtain ⟨more, rfl⟩ : ∃ k, more = k + 1 := ⟨more - 1, by omega⟩
      rw [strcatLoop] at h ⊢
      split
      · next hne =>
          rw [if_pos hne] at h
          exact ih h (by omega)
      · next hend =>
          rw [if_neg hend] at h
          exact h

theorem caosStrcat_mono {r : Nat × ByteMemory} (h : caosStrcat fuel str src mem = some r)
    (hle : fuel ≤ more) : caosStrcat more str src mem = some r := by
  rw [caosStrcat, Option.map_eq_some_iff] at h ⊢
  obtain ⟨s, hs, hr⟩ := h
  exact ⟨s, strcatLoop_mono hs hle, hr⟩

/-- More fuel never changes what the formatter does. -/
theorem caosVsprintf_mono {r : ByteMemory × List (BitVec 64)}
    (h : caosVsprintf bt fuel str fmt args mem = some r) (hle : fuel ≤ more) :
    caosVsprintf bt more str fmt args mem = some r := by
  induction fuel generalizing more str fmt args mem with
  | zero => simp [caosVsprintf] at h
  | succ fuel ih =>
      obtain ⟨more, rfl⟩ : ∃ k, more = k + 1 := ⟨more - 1, by omega⟩
      have hle' : fuel ≤ more := by omega
      rw [caosVsprintf] at h ⊢
      split_ifs at h ⊢ with hend hd hx hs hc
      · exact h
      · simp only [Option.bind_eq_bind, Option.bind_eq_some_iff] at h ⊢
        obtain ⟨a, ha, out, hout, hrest⟩ := h
        exact ⟨a, ha, out, hout, ih hrest hle'⟩
      · simp only [Option.bind_eq_bind, Option.bind_eq_some_iff] at h ⊢
        obtain ⟨a, ha, out, hout, hrest⟩ := h
        exact ⟨a, ha, out, hout, ih hrest hle'⟩
      · simp only [Option.bind_eq_bind, Option.bind_eq_some_iff] at h ⊢
        obtain ⟨a, ha, out, hout, hrest⟩ := h
        exact ⟨a, ha, out, caosStrcat_mono hout hle', ih hrest hle'⟩
      · simp only [Option.bind_eq_bind, Option.bind_eq_some_iff] at h ⊢
        obtain ⟨a, ha, hrest⟩ := h
        exact ⟨a, ha, ih hrest hle'⟩
      · exact ih h hle'

/-- A run of the formatter that ends has got past every number and has left the text and
a NUL in the buffer. -/
theorem caosVsprintf_some {text : BitVec 64 → List UInt8} {format : List UInt8}
    {r : ByteMemory × List (BitVec 64)} (hcall : Printable text mem str fmt format args)
    (h : caosVsprintf bt fuel str fmt args mem = some r) :
    (∀ a ∈ argsOf .decimal (directives format) args, bt.Prints a) ∧
      r.1 = storeBytes mem str (formatted text format args ++ [0]) := by
  have hlong := caosVsprintf_mono h
    (Nat.le_max_left fuel (format.length + (formatted text format args).length + 1))
  have hend := @caosVsprintf_run bt _ _ _ _ _ _ _ hcall (Nat.lt_of_succ_le
    (Nat.le_max_right fuel (format.length + (formatted text format args).length + 1)))
  rw [hlong] at hend
  split at hend
  · next hprints =>
      rw [Option.some.injEq] at hend
      exact ⟨hprints, congrArg Prod.fst hend⟩
  · cases hend

end Formatter

/-! ## The output loop -/

section Loop

variable {sz i : Nat} {mem : ByteMemory} {shown : List ScreenCall} {c : UInt8}
  {rest : List UInt8}

theorem isCString_message {addr : Nat} {buf : List UInt8} (h : StoredAt mem addr (buf ++ [0])) :
    IsCString mem addr (message buf) := by
  refine ⟨?_, fun hmem => by simpa using List.mem_takeWhile_imp hmem⟩
  induction buf generalizing addr with
  | nil => exact h
  | cons c buf ih =>
      by_cases hc : c = 0
      · rw [message, List.takeWhile_cons_of_neg (by simpa using hc)]
        exact ⟨h.1.trans hc, trivial⟩
      · rw [message, List.takeWhile_cons_of_pos (by simpa using hc)]
        exact ⟨h.1, ih h.2⟩

/-! From each of its tests the loop comes to the next character. -/

theorem put_lands : Visits (printLoop sz mem) { pc := .put, i := i, shown := shown }
    { pc := .test, i := i + 1, shown := shown ++ [.putchar (mem (sz + i))] } :=
  .next .start rfl

theorem ifBackspace_lands :
    Visits (printLoop sz mem) { pc := .ifBackspace, i := i, shown := shown }
      { pc := .test
        i := i + 1
        shown := shown ++ [if mem (sz + i) = backspace then .delchar
          else .putchar (mem (sz + i))] } := by
  split
  · next hbackspace =>
      have hstep : printLoop sz mem { pc := .ifBackspace, i := i, shown := shown } =
          .inl { pc := .increment, i := i, shown := shown ++ [.delchar] } := by
        simp only [printLoop, if_pos hbackspace]
      exact (Visits.next .start hstep).next rfl
  · next hbackspace =>
      have hstep : printLoop sz mem { pc := .ifBackspace, i := i, shown := shown } =
          .inl { pc := .put, i := i, shown := shown } := by
        simp only [printLoop, if_neg hbackspace]
      exact put_lands.head hstep

theorem ifNewline_lands :
    Visits (printLoop sz mem) { pc := .ifNewline, i := i, shown := shown }
      { pc := .test, i := i + 1, shown := shown ++ [screenCall (mem (sz + i))] } := by
  unfold screenCall
  split
  · next hnewline =>
      have hstep : printLoop sz mem { pc := .ifNewline, i := i, shown := shown } =
          .inl { pc := .increment, i := i, shown := shown ++ [.nextRow] } := by
        simp only [printLoop, if_pos hnewline]
      exact (Visits.next .start hstep).next rfl
  · next hnewline =>
      have hstep : printLoop sz mem { pc := .ifNewline, i := i, shown := shown } =
          .inl { pc := .ifBackspace, i := i, shown := shown } := by
        simp only [printLoop, if_neg hnewline]
      exact ifBackspace_lands.head hstep

/-- One character of the text. -/
theorem visits_next (hc : mem (sz + i) = c) (hne : c ≠ 0) :
    Visits (printLoop sz mem) { pc := .test, i := i, shown := shown }
      { pc := .test, i := i + 1, shown := shown ++ [screenCall c] } := by
  have hstep : printLoop sz mem { pc := .test, i := i, shown := shown } =
      .inl { pc := .ifNewline, i := i, shown := shown } := by
    simp only [printLoop, hc, if_pos hne]
  exact hc ▸ ifNewline_lands.head hstep

/-- The loop prints the string that stands at its index, and stops. -/
theorem iterate_string (h : IsCString mem (sz + i) rest) :
    ∃ fuel, iterate (printLoop sz mem) fuel { pc := .test, i := i, shown := shown } =
      some (i + rest.length, shown ++ rest.map screenCall) := by
  have hvisits : Visits (printLoop sz mem) { pc := .test, i := i, shown := shown }
      { pc := .test, i := i + rest.length, shown := shown ++ rest.map screenCall } ∧
      mem (sz + (i + rest.length)) = 0 := by
    induction rest generalizing i shown with
    | nil =>
        rw [List.map_nil, List.append_nil]
        exact ⟨.start, h.stored.1⟩
    | cons c rest ih =>
        obtain ⟨hc, hne⟩ := h.head
        obtain ⟨hrest, hend⟩ := @ih (i + 1) (shown ++ [screenCall c]) h.tail
        have hlen : i + 1 + rest.length = i + (c :: rest).length := by
          rw [List.length_cons]
          omega
        rw [hlen, List.append_assoc, List.singleton_append] at hrest
        exact ⟨(visits_next hc hne).trans hrest, hlen ▸ hend⟩
  exact hvisits.1.iterate_exit (by simp [printLoop, hvisits.2])

end Loop

section Call

variable {bt : LockedBt} {text : BitVec 64 → List UInt8} {mem : ByteMemory} {sz fmt fuel : Nat}
  {format : List UInt8} {args : List (BitVec 64)}

theorem printLoop_formatted (buf : List UInt8) : ∃ fuel,
    iterate (printLoop sz (storeBytes mem sz (buf ++ [0]))) fuel .start =
      some ((message buf).length, (message buf).map screenCall) := by
  have hstring : IsCString (storeBytes mem sz (buf ++ [0])) (sz + 0) (message buf) :=
    isCString_message storedAt_storeBytes
  obtain ⟨fuel, hend⟩ := @iterate_string sz 0 _ [] _ hstring
  rw [Nat.zero_add, List.nil_append] at hend
  exact ⟨fuel, hend⟩

/-- A call that is not interrupted returns, if it gets past every number. -/
theorem caosPrintf_returns (hcall : Printable text mem sz fmt format args)
    (hprints : ∀ a ∈ argsOf .decimal (directives format) args, bt.Prints a) :
    ∃ fuel r, caosPrintf bt fuel sz fmt args mem = some r := by
  obtain ⟨fuel, hloop⟩ := @printLoop_formatted mem sz (formatted text format args)
  let more := max fuel (format.length + (formatted text format args).length + 1)
  have hformat := caosVsprintf_eq hcall hprints
    (Nat.lt_of_succ_le (Nat.le_max_right fuel _) : _ < more)
  have hloop' : iterate (printLoop sz (storeBytes mem sz (formatOutput text (directives format)
      args ++ [0]))) more .start = _ := iterate_mono hloop (Nat.le_max_left fuel _)
  refine ⟨more, (storeBytes mem sz (formatted text format args ++ [0]),
    (message (formatted text format args)).length,
    (message (formatted text format args)).map screenCall), ?_⟩
  simp only [caosPrintf, hformat, Option.bind_eq_bind, Option.bind_some, hloop']
  rfl

/-- What it leaves in memory, returns and does on the screen. -/
theorem caosPrintf_some {r : ByteMemory × Nat × List ScreenCall}
    (hcall : Printable text mem sz fmt format args)
    (h : caosPrintf bt fuel sz fmt args mem = some r) :
    r = (storeBytes mem sz (formatted text format args ++ [0]),
      (message (formatted text format args)).length,
      (message (formatted text format args)).map screenCall) := by
  simp only [caosPrintf, Option.bind_eq_bind, Option.bind_eq_some_iff] at h
  obtain ⟨⟨mem', left⟩, hformat, result, hloop, hr⟩ := h
  have hmem : mem' = storeBytes mem sz (formatted text format args ++ [0]) :=
    (caosVsprintf_some hcall hformat).2
  obtain ⟨fuel', hend⟩ := @printLoop_formatted mem sz (formatted text format args)
  rw [hmem] at hloop hr
  rw [iterate_unique hloop hend] at hr
  exact (Option.some.inj hr).symm

/-- The calls of the output loop show the text. -/
theorem message_run (buf : List UInt8) (s : ScreenInfo) :
    ((message buf).map screenCall).foldl ScreenCall.run s = printText buf s := by
  induction buf generalizing s with
  | nil => rfl
  | cons c buf ih =>
      rw [printText]
      by_cases hc : c = 0
      · rw [message, List.takeWhile_cons_of_neg (by simpa using hc), if_pos hc]
        rfl
      · rw [message, List.takeWhile_cons_of_pos (by simpa using hc), if_neg hc, List.map_cons,
          List.foldl_cons, screenCall_run]
        exact ih _

end Call

/-- A call that is not interrupted returns exactly if it gets past every number. It has
then stored its text and a NUL and no other byte, it returns how many characters stand in
front of the first NUL, and it has shown the text on the screen. -/
theorem caosPrintf_shows {bt : LockedBt} {text : BitVec 64 → List UInt8} {mem : ByteMemory}
    {sz fmt : Nat} {format : List UInt8} {args : List (BitVec 64)}
    (hcall : Printable text mem sz fmt format args) (screen : ScreenInfo) :
    ((∃ fuel r, caosPrintf bt fuel sz fmt args mem = some r) ↔
      ∀ a ∈ argsOf .decimal (directives format) args, bt.Prints a) ∧
    ∀ fuel mem' i calls, caosPrintf bt fuel sz fmt args mem = some (mem', i, calls) →
      mem' = storeBytes mem sz (formatted text format args ++ [0]) ∧
      i = (message (formatted text format args)).length ∧
      calls.foldl ScreenCall.run screen = printText (formatted text format args) screen := by
  refine ⟨⟨?_, caosPrintf_returns hcall⟩, ?_⟩
  · rintro ⟨fuel, r, h⟩
    simp only [caosPrintf, Option.bind_eq_bind, Option.bind_eq_some_iff] at h
    obtain ⟨out, hformat, -⟩ := h
    exact (caosVsprintf_some hcall hformat).1
  · intro fuel mem' i calls h
    have hr := caosPrintf_some hcall h
    simp only [Prod.mk.injEq] at hr
    obtain ⟨rfl, rfl, rfl⟩ := hr
    exact ⟨rfl, rfl, message_run _ screen⟩

/-- `caos_printf("AB")` on a dark screen. -/
theorem short_text_shown : ∃ fuel mem' calls,
    caosPrintf .invalidOpcode fuel 32 0 [] (memoryOf (literal "AB" ++ [0])) =
      some (mem', 2, calls) ∧
    calls.foldl ScreenCall.run { cursorOffset := 0, videoMem := fun _ => 0, written := [] } =
      printText (literal "AB") { cursorOffset := 0, videoMem := fun _ => 0, written := [] } := by
  have hcall : Printable (fun _ => []) (memoryOf (literal "AB" ++ [0])) 32 0 (literal "AB") [] :=
    printable_iff.mpr (.of_no_args ⟨by decide, by decide⟩ (by decide) (by decide))
  obtain ⟨hreturns, hshows⟩ := @caosPrintf_shows .invalidOpcode _ _ _ _ _ _ hcall
    { cursorOffset := 0, videoMem := fun _ => 0, written := [] }
  obtain ⟨fuel, ⟨mem', i, calls⟩, h⟩ := hreturns.mpr (forall_argsOf_nil _)
  obtain ⟨-, rfl, hshown⟩ := hshows _ _ _ _ h
  exact ⟨fuel, mem', calls, h, hshown⟩

end Caos
