import Caos.Irq.Entry

/-!
Interrupts that arrive while other code runs, also while a handler runs. Each is
transparent to what it interrupts as far as `fs` and `gs` hold the same selector:
`RESTORE_ALL` pops them in the order in which `SAVE_ALL` pushed them.
-/

namespace Caos.Irq

open Lib

/-- What the CPU saves of the interrupted code besides `rsp`, and the error code of
those exceptions that have one. -/
structure Interrupted where
  ss : BitVec 64
  rflags : BitVec 64
  cs : BitVec 64
  rip : BitVec 64
  error : Option (BitVec 64)

/-- The CPU takes an interrupt: it aligns the stack to 16 bytes and pushes its frame. -/
def interrupt (hw : Interrupted) (s : Cpu) : Cpu :=
  let aligned : WordStack := { s.toWordStack with sp := s.sp &&& ~~~15#64 }
  let frame := [hw.ss, s.sp, hw.rflags, hw.cs, hw.rip] ++ hw.error.toList
  { s with toWordStack := aligned.pushAll frame }

/-- `iretq`: the fourth word of the frame is `rsp`. -/
def iretq (s : Cpu) : Cpu := { s with sp := s.word 3 }

/-- What a processor does: code of its own, which may change anything or never come
to an end, and entries with what their handlers do, properly nested. -/
inductive Work
  | done
  | own (effect : Cpu → Option Cpu) (rest : Work)
  | entry (e : Entry) (hw : Interrupted) (handler rest : Work)

/-- The state after the work. An entry that ends with `jmp $` has none. -/
def Work.run : Work → Cpu → Option Cpu
  | .done, s => some s
  | .own effect rest, s => (effect s).bind rest.run
  | .entry e hw handler rest, s =>
    match handler.run (execAll (interrupt hw s) e.before) with
    | none => none
    | some s' => if e.returns then rest.run (iretq (execAll s' e.after)) else none

/-- `P` holds of every entry at every depth, with the state at its first instruction
and what its handler does. -/
def EveryEntry (P : Entry → Cpu → Work → Prop) : Work → Cpu → Prop
  | .done, _ => True
  | .own effect rest, s => ∀ s', effect s = some s' → EveryEntry P rest s'
  | .entry e hw handler rest, s =>
    P e (interrupt hw s) handler ∧
      EveryEntry P handler (execAll (interrupt hw s) e.before) ∧
      ∀ s', handler.run (execAll (interrupt hw s) e.before) = some s' → e.returns = true →
        EveryEntry P rest (iretq (execAll s' e.after))

/-- The handler returns in `s'` with the stack pointer and the saved registers untouched. -/
structure ReturnsClean (e : Entry) (s : Cpu) (handler : Work) (s' : Cpu) : Prop where
  run_eq : handler.run (execAll s e.before) = some s'
  sp_eq : s'.sp = (execAll s e.before).sp
  frame_eq : ∀ i < saveOrder.length, s'.word i = (execAll s e.before).word i

/-- If the handler returns so, all registers have their entry values at the exit. -/
def Transparent (e : Entry) (s : Cpu) (handler : Work) : Prop :=
  ∀ s', ReturnsClean e s handler s' → ∀ r, (execAll s' e.after).regs r = s.regs r

/-- If the handler returns so, `fs` and `gs` were equal at the entry. -/
def SelectorsEqual (e : Entry) (s : Cpu) (handler : Work) : Prop :=
  (∃ s', ReturnsClean e s handler s') → s.regs .fs = s.regs .gs

theorem transparent_iff (e : Entry) (s : Cpu) (handler : Work) :
    Transparent e s handler ↔ SelectorsEqual e s handler := by
  constructor
  · rintro h ⟨s', hclean⟩
    exact (restored_iff hclean.frame_eq).mp (h s' hclean)
  · intro h s' hclean
    exact (restored_iff hclean.frame_eq).mpr (h ⟨s', hclean⟩)

/-- Properties that agree on every entry hold of the same work. -/
theorem EveryEntry.congr {P Q : Entry → Cpu → Work → Prop}
    (h : ∀ e s handler, P e s handler ↔ Q e s handler) (work : Work) (s : Cpu) :
    EveryEntry P work s ↔ EveryEntry Q work s := by
  induction work generalizing s with
  | done => exact Iff.rfl
  | own effect rest ih =>
      simp only [EveryEntry, ih]
  | entry e hw handler rest ihHandler ihRest =>
      simp only [EveryEntry, h, ihHandler, ihRest]

/-- Entries are transparent, however they are nested, exactly when `fs` and `gs` are
equal at each of them. -/
theorem everyEntry_transparent_iff (work : Work) (s : Cpu) :
    EveryEntry Transparent work s ↔ EveryEntry SelectorsEqual work s :=
  EveryEntry.congr transparent_iff work s

theorem returnsClean_done (e : Entry) (s : Cpu) :
    ReturnsClean e s .done (execAll s e.before) := ⟨rfl, rfl, fun _ _ => rfl⟩

/-- A processor whose `fs` holds a selector and whose `gs` holds the null selector. -/
def nullGs : Cpu where
  sp := 0x8000
  mem := fun _ => 0
  regs := Function.update (fun _ => 0) .fs 0x10

/-- An IRQ and an exception that interrupt such a processor exchange the selectors. -/
theorem selectors_exchanged :
    ¬ EveryEntry Transparent (.entry (.irq 1) ⟨0, 0x202, 8, 0x100000, none⟩ .done .done) nullGs ∧
    ¬ EveryEntry Transparent
      (.entry (.exception .generalProtection) ⟨0, 0x202, 8, 0x100000, some 0⟩ .done .done)
      nullGs := by
  have hne : ∀ e hw, ¬ Transparent e (interrupt hw nullGs) .done := by
    intro e hw h
    have hequal := (transparent_iff _ _ _).mp h ⟨_, returnsClean_done _ _⟩
    have hnat := congrArg BitVec.toNat hequal
    change 16 = 0 at hnat
    omega
  exact ⟨fun h => hne _ _ h.1, fun h => hne _ _ h.1⟩

/-- No code of its own gives `fs` and `gs` different selectors. -/
def Work.KeepsSelectors : Work → Prop
  | .done => True
  | .own effect rest =>
    (∀ s s', effect s = some s' → s.regs .fs = s.regs .gs → s'.regs .fs = s'.regs .gs) ∧
      rest.KeepsSelectors
  | .entry _ _ handler rest => handler.KeepsSelectors ∧ rest.KeepsSelectors

/-- Where no code tells `fs` and `gs` apart, as after the boot, an exchange of the two
is never seen. -/
theorem everyEntry_transparent_of_equal {work : Work} {s : Cpu} (hkeeps : work.KeepsSelectors)
    (hequal : s.regs .fs = s.regs .gs)
    (hclean : EveryEntry (fun e s handler => ∀ s',
      handler.run (execAll s e.before) = some s' → ReturnsClean e s handler s') work s) :
    EveryEntry Transparent work s := by
  induction work generalizing s with
  | done => trivial
  | own effect rest ih =>
      intro s' hs'
      exact ih hkeeps.2 (hkeeps.1 s s' hs' hequal) (hclean s' hs')
  | entry e hw handler rest ihHandler ihRest =>
      obtain ⟨hreturn, hhandler, hrest⟩ := hclean
      have htransparent := (transparent_iff e (interrupt hw s) handler).mpr fun _ => hequal
      have hfs := regs_before e (interrupt hw s) (show Reg.fs ≠ .rdi by decide) (by decide)
      have hgs := regs_before e (interrupt hw s) (show Reg.gs ≠ .rdi by decide) (by decide)
      refine ⟨htransparent, ihHandler hkeeps.1 ?_ hhandler, ?_⟩
      · rw [hfs, hgs]
        exact hequal
      · intro s' hrun hret
        have hregs := htransparent s' (hreturn s' hrun)
        refine ihRest hkeeps.2 ?_ (hrest s' hrun hret)
        exact (hregs .fs).trans (hequal.trans (hregs .gs).symm)

end Caos.Irq
