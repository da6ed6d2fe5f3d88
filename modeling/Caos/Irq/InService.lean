import Caos.Lib.Activations
import Caos.Lib.Run
import Caos.Irq.Dispatch

/-!
`handle_irq` and the local APIC: which interrupts are in service, and the task priority. A
further interrupt may arrive between any two of its accesses, as far as the local APIC lets
it through; whether the processor has interrupts disabled is left open. The handlers leave
the local APIC alone.
-/

namespace Caos.Irq

open Lib

/-- The upper half of a vector. -/
def priorityClass (v : Nat) : Nat := v / 16

/-- The registers `APIC_TASKPRI` and `APIC_ISR`. -/
structure LocalApic where
  taskPri : Nat
  inService : Finset Nat
  deriving DecidableEq

/-- The class that an interrupt has to exceed. -/
def LocalApic.rank (apic : LocalApic) : Nat :=
  max (priorityClass apic.taskPri) (apic.inService.sup priorityClass)

/-- The vector in service with the highest priority. -/
def LocalApic.highest (apic : LocalApic) : Nat := apic.inService.sup id

/-- A store to `APIC_EOI`. -/
def LocalApic.eoi (apic : LocalApic) : LocalApic :=
  { apic with inService := apic.inService.erase apic.highest }

/-- How far a call of `handle_irq` has come; from the load of `task_pri` on with its value. -/
inductive Point where
  | entered
  | saved (taskPri : Nat)
  | handling (taskPri : Nat)
  | ended (taskPri : Nat)
  | restored
  deriving DecidableEq

/-- An interrupt that was taken and has not returned yet: one of an IRQ, which is in
`handle_irq`, or another one, which is in `ignore_isr_handler`. -/
inductive Taken where
  | irq (nr : Nat) (point : Point)
  | ignored (v : Nat)
  deriving DecidableEq

/-- What is entered through the gate of a vector. -/
def takenOf (v : Nat) : Taken :=
  match (vectorGate v).2 with
  | .irq nr => .irq nr .entered
  | _ => .ignored v

/-- The local APIC and the interrupts under way, the innermost first. -/
structure Service where
  apic : LocalApic
  stack : List Taken
  deriving DecidableEq

/-- The interrupt is let through. -/
def Service.Accepts (s : Service) (v : Nat) : Prop :=
  vectorBase ≤ v ∧ v < idtSize ∧ s.apic.rank < priorityClass v

instance (s : Service) : DecidablePred s.Accepts :=
  fun v => inferInstanceAs (Decidable (vectorBase ≤ v ∧ v < idtSize ∧ _))

/-- An interrupt arrives, or the code under way goes on. -/
inductive Event where
  | interrupt (v : Nat)
  | next
  deriving DecidableEq

/-- One access of `handle_irq` to the local APIC, or the return from an interrupt. -/
def Service.next (s : Service) : Service :=
  match s.stack with
  | [] => s
  | .irq nr point :: rest =>
    match point with
    -- `task_pri = apic_read(APIC_TASKPRI)`
    | .entered => { s with stack := .irq nr (.saved s.apic.taskPri) :: rest }
    -- `apic_write(APIC_TASKPRI, IRQ_TO_VECTOR(irq))`
    | .saved taskPri =>
      { apic := { s.apic with taskPri := vectorBase + nr }
        stack := .irq nr (.handling taskPri) :: rest }
    -- the handler returns, and `end_irq(irq)` follows
    | .handling taskPri => { apic := s.apic.eoi, stack := .irq nr (.ended taskPri) :: rest }
    -- `apic_write(APIC_TASKPRI, task_pri)`
    | .ended taskPri =>
      { apic := { s.apic with taskPri := taskPri }, stack := .irq nr .restored :: rest }
    | .restored => { s with stack := rest }
  | .ignored _ :: rest => { s with stack := rest }

def Service.step (s : Service) : Event → Service
  | .interrupt v =>
    if s.Accepts v then
      { apic := { s.apic with inService := insert v s.apic.inService }
        stack := takenOf v :: s.stack }
    else s
  | .next => s.next

/-- No interrupt is under way and none is in service. -/
def Service.idle (taskPri : Nat) : Service := { apic := ⟨taskPri, ∅⟩, stack := [] }

/-! ## One interrupt on what it interrupts -/

/-- The local APIC with one more interrupt in service. -/
def LocalApic.serve (v : Nat) (apic : LocalApic) : LocalApic :=
  { apic with inService := insert v apic.inService }

/-- What an interrupt has made of the local APIC that it found. -/
def Atop : Taken → LocalApic → LocalApic → Prop
  | .irq nr point, below, apic =>
    nr < 22 ∧ below.rank < priorityClass (vectorBase + nr) ∧
      match point with
      | .entered => apic = below.serve (vectorBase + nr)
      | .saved taskPri => taskPri = below.taskPri ∧ apic = below.serve (vectorBase + nr)
      | .handling taskPri =>
        taskPri = below.taskPri ∧
          apic = { below.serve (vectorBase + nr) with taskPri := vectorBase + nr }
      | .ended taskPri =>
        taskPri = below.taskPri ∧ apic = { below with taskPri := vectorBase + nr }
      | .restored => apic = below
  | .ignored v, below, apic =>
    vectorBase + 22 ≤ v ∧ below.rank < priorityClass v ∧ apic = below.serve v

section Serve

variable {apic below : LocalApic} {v w : Nat} {t : Taken}

theorem class_le_rank (h : v ∈ apic.inService) : priorityClass v ≤ apic.rank :=
  le_max_of_le_right (Finset.le_sup h)

theorem notMem_of_rank_lt (h : apic.rank < priorityClass v) : v ∉ apic.inService :=
  fun hmem => absurd (class_le_rank hmem) (Nat.not_le.mpr h)

theorem rank_serve : (apic.serve v).rank = max apic.rank (priorityClass v) := by
  simp only [LocalApic.rank, LocalApic.serve, Finset.sup_insert]
  omega

/-- An interrupt that is let through has the highest priority of those in service. -/
theorem highest_serve (h : apic.rank < priorityClass v) : (apic.serve v).highest = v := by
  have hle : apic.inService.sup id ≤ v := by
    apply Finset.sup_le
    intro w hw
    have hclass := class_le_rank hw
    simp only [priorityClass, id] at *
    omega
  simp only [LocalApic.highest, LocalApic.serve, Finset.sup_insert, id]
  exact max_eq_left hle

theorem eoi_serve (h : apic.rank < priorityClass v) : (apic.serve v).eoi = apic := by
  rw [LocalApic.eoi, highest_serve h]
  simp only [LocalApic.serve, Finset.erase_insert (notMem_of_rank_lt h)]

end Serve

/-! ## Nested interrupts -/

/-- The interrupts under way stand one on another, the lowest on `base`. -/
def Service.Nested (base : LocalApic) (s : Service) : Prop := Stacked Atop base s.stack s.apic

/-- `_ignore_isr` returns. -/
def ReturnsIgnored (s : Service) : Event → Prop
  | .interrupt _ => False
  | .next => ∃ v rest, s.stack = .ignored v :: rest

/-- An end of interrupt is that of the IRQ that was handled, and an interrupt that returns is
not in service any more. -/
def Acknowledged (s : Service) : Event → Prop
  | .interrupt _ => True
  | .next =>
    match s.stack with
    | .irq nr (.handling _) :: _ =>
      vectorBase + nr ∈ s.apic.inService ∧ s.apic.highest = vectorBase + nr
    | .irq nr .restored :: _ => vectorBase + nr ∉ s.apic.inService
    | .ignored v :: _ => v ∉ s.apic.inService
    | _ => True

section Step

variable {base : LocalApic} {s : Service} {e : Event} {v nr : Nat} {rest : List Taken}

theorem takenOf_eq (h : vectorBase ≤ v) : takenOf v =
    if v < vectorBase + 22 then .irq (v - vectorBase) .entered else .ignored v := by
  rw [takenOf, vectorGate_of_le (le_trans (by decide) h)]
  by_cases hirq : v < vectorBase + 22
  · simp only [h, hirq, and_self, if_true]
  · simp only [hirq, and_false, if_false]

theorem step_of_accepts (h : s.Accepts v) : s.step (.interrupt v) =
    { apic := s.apic.serve v, stack := takenOf v :: s.stack } := if_pos h

theorem step_of_not_accepts (h : ¬ s.Accepts v) : s.step (.interrupt v) = s := if_neg h

/-- A step changes nothing, takes an interrupt, or ends the topmost one or moves it on. -/
theorem Service.step_cases (s : Service) (e : Event) :
    s.step e = s ∨
      (∃ v, e = .interrupt v ∧ s.Accepts v ∧ (s.step e).stack = takenOf v :: s.stack) ∨
      e = .next ∧ ∃ top rest, s.stack = top :: rest ∧ ((s.step e).stack = rest ∨
        ∃ nr point, (s.step e).stack = .irq nr point :: rest) := by
  obtain ⟨apic, stack⟩ := s
  cases e with
  | interrupt v =>
      by_cases haccepts : Service.Accepts ⟨apic, stack⟩ v
      · refine .inr (.inl ⟨v, rfl, haccepts, ?_⟩)
        rw [step_of_accepts haccepts]
      · exact .inl (step_of_not_accepts haccepts)
  | next =>
      cases stack with
      | nil => exact .inl rfl
      | cons top rest =>
          refine .inr (.inr ⟨rfl, top, rest, rfl, ?_⟩)
          cases top with
          | ignored v => exact .inl rfl
          | irq nr point =>
              cases point with
              | restored => exact .inl rfl
              | _ => exact .inr ⟨nr, _, rfl⟩

/-- Every step keeps the nesting, but for the return of `_ignore_isr`: that leaves its
vector in service. -/
theorem Service.Nested.step (h : s.Nested base) (hreturn : ¬ ReturnsIgnored s e) :
    (s.step e).Nested base := by
  obtain ⟨apic, stack⟩ := s
  cases e with
  | interrupt v =>
      by_cases haccepts : Service.Accepts ⟨apic, stack⟩ v
      · rw [step_of_accepts haccepts]
        obtain ⟨hlo, -, hrank⟩ := haccepts
        apply Stacked.push h
        rw [takenOf_eq hlo]
        split
        · next hirq =>
            rw [← Nat.add_sub_cancel' hlo] at hrank ⊢
            rw [Nat.add_sub_cancel_left]
            exact ⟨by omega, hrank, rfl⟩
        · next hirq => exact ⟨Nat.le_of_not_lt hirq, hrank, rfl⟩
      · rw [step_of_not_accepts haccepts]
        exact h
  | next =>
      cases stack with
      | nil => exact h
      | cons t rest =>
          cases t with
          | ignored v => exact absurd ⟨v, rest, rfl⟩ hreturn
          | irq nr point =>
              cases point with
              | entered =>
                  apply Stacked.advance h
                  rintro below ⟨hnr, hrank, rfl⟩
                  exact ⟨hnr, hrank, rfl, rfl⟩
              | saved taskPri =>
                  apply Stacked.advance h
                  rintro below ⟨hnr, hrank, hsaved, rfl⟩
                  exact ⟨hnr, hrank, hsaved, rfl⟩
              | handling taskPri =>
                  apply Stacked.advance h
                  rintro below ⟨hnr, hrank, hsaved, rfl⟩
                  -- the end of interrupt leaves the task priority alone
                  have heoi := congrArg
                    (fun apic => { apic with taskPri := vectorBase + nr : LocalApic })
                    (eoi_serve hrank)
                  exact ⟨hnr, hrank, hsaved, heoi⟩
              | ended taskPri =>
                  apply Stacked.advance h
                  rintro below ⟨hnr, hrank, rfl, rfl⟩
                  exact ⟨hnr, hrank, rfl⟩
              | restored =>
                  apply Stacked.pop h
                  rintro below ⟨hnr, hrank, rfl⟩
                  rfl

/-- Where the interrupts are nested, only the return of `_ignore_isr` is not acknowledged. -/
theorem Service.Nested.acknowledges (h : s.Nested base) :
    Acknowledged s e ↔ ¬ ReturnsIgnored s e := by
  obtain ⟨apic, stack⟩ := s
  cases e with
  | interrupt v => exact iff_of_true trivial not_false
  | next =>
      cases stack with
      | nil => exact iff_of_true trivial (by rintro ⟨v, rest, hstack⟩; cases hstack)
      | cons t rest =>
          obtain ⟨below, -, hatop⟩ := h
          cases t with
          | ignored v =>
              obtain ⟨-, -, rfl⟩ := hatop
              refine iff_of_false (fun hout => hout ?_) (fun hnot => hnot ⟨v, rest, rfl⟩)
              exact Finset.mem_insert_self _ _
          | irq nr point =>
              refine iff_of_true ?_ (by rintro ⟨v, rest, hstack⟩; cases hstack)
              cases point with
              | handling taskPri =>
                  obtain ⟨-, hrank, -, rfl⟩ := hatop
                  exact ⟨Finset.mem_insert_self _ _, highest_serve hrank⟩
              | restored =>
                  obtain ⟨-, hrank, rfl⟩ := hatop
                  exact notMem_of_rank_lt hrank
              | _ => trivial

end Step

theorem idle_nested (taskPri : Nat) : (Service.idle taskPri).Nested ⟨taskPri, ∅⟩ := rfl

/-- However the interrupts arrive, every one is acknowledged by its own `end_irq` before it
returns, exactly as long as `_ignore_isr` does not return. -/
theorem acknowledged_iff (taskPri : Nat) (events : List Event) :
    EveryStep Service.step Acknowledged (.idle taskPri) events ↔
      EveryStep Service.step (fun s e => ¬ ReturnsIgnored s e) (.idle taskPri) events :=
  EveryStep.iff_of_invariant (idle_nested taskPri)
    (fun _ _ hnested => hnested.acknowledges) (fun _ _ hnested hreturn => hnested.step hreturn)

/-! ## Runs with declared interrupts only -/

def Taken.vector : Taken → Nat
  | .irq nr _ => vectorBase + nr
  | .ignored v => v

/-- The interrupt has not yet restored the task priority. -/
def Taken.active : Taken → Bool
  | .irq _ .restored => false
  | _ => true

/-- The classes begin with 2, so that a rank below it lets as much through as 1. -/
def LocalApic.level (apic : LocalApic) : Nat := max 1 apic.rank

section Declared

variable {base apic below : LocalApic} {s : Service} {t : Taken} {taskPri : Nat}

theorem Atop.vector_le (h : Atop t below apic) : vectorBase ≤ t.vector := by
  cases t with
  | irq nr point => exact Nat.le_add_right _ _
  | ignored v => exact le_trans (Nat.le_add_right _ _) h.1

theorem Atop.rank_eq (h : Atop t below apic) (hactive : t.active = true) :
    below.rank < priorityClass t.vector ∧ apic.rank = priorityClass t.vector := by
  have hserve : ∀ v, below.rank < priorityClass v →
      (below.serve v).rank = priorityClass v := by
    intro v hrank
    rw [rank_serve]
    exact max_eq_right hrank.le
  -- behind the store of the task priority, that and not the vector in service decides
  have hraised : ∀ v, below.rank < priorityClass v → ∀ inService,
      inService.sup priorityClass ≤ priorityClass v →
      LocalApic.rank ⟨v, inService⟩ = priorityClass v :=
    fun v _ inService hle => max_eq_left hle
  cases t with
  | ignored v =>
      obtain ⟨-, hrank, rfl⟩ := h
      exact ⟨hrank, hserve v hrank⟩
  | irq nr point =>
      cases point with
      | entered =>
          obtain ⟨-, hrank, rfl⟩ := h
          exact ⟨hrank, hserve _ hrank⟩
      | saved taskPri =>
          obtain ⟨-, hrank, -, rfl⟩ := h
          exact ⟨hrank, hserve _ hrank⟩
      | handling taskPri =>
          obtain ⟨-, hrank, -, rfl⟩ := h
          refine ⟨hrank, hraised _ hrank _ ?_⟩
          rw [← hserve _ hrank]
          exact le_max_right _ _
      | ended taskPri =>
          obtain ⟨-, hrank, -, rfl⟩ := h
          refine ⟨hrank, hraised _ hrank _ (le_trans ?_ hrank.le)⟩
          exact le_max_right _ _
      | restored => cases hactive

theorem Atop.eq_of_inactive (h : Atop t below apic) (hactive : ¬ t.active = true) :
    apic = below := by
  cases t with
  | ignored v => exact absurd rfl hactive
  | irq nr point =>
      cases point with
      | restored => exact h.2.2
      | _ => exact absurd rfl hactive

/-- The level bounds how many interrupts are active. -/
theorem Service.Nested.countP_active (h : s.Nested base) :
    s.stack.countP Taken.active + base.level ≤ s.apic.level := by
  apply Stacked.countP_le h
  intro t below apic hatop
  by_cases hactive : t.active = true
  · obtain ⟨hrank, heq⟩ := hatop.rank_eq hactive
    have hvector := hatop.vector_le
    have hclass : 1 < priorityClass t.vector := by
      simp only [priorityClass, vectorBase] at *
      omega
    simp only [LocalApic.level, heq]
    omega
  · rw [hatop.eq_of_inactive hactive]
    exact ⟨le_rfl, fun h => absurd h hactive⟩

/-- Declared IRQs have vectors below 54, of the classes 2 and 3. -/
theorem Service.Nested.level_le (h : s.Nested base)
    (hdeclared : ∀ t ∈ s.stack, ∀ v, t ≠ .ignored v) :
    s.apic.level ≤ max 3 base.level := by
  refine @Stacked.invariant _ _ Atop base s.apic s.stack
    (fun apic => apic.level ≤ max 3 base.level) h (le_max_right _ _) ?_
  intro t ht below apic hatop hle
  by_cases hactive : t.active = true
  · have hrank := (hatop.rank_eq hactive).2
    cases t with
    | ignored v => exact absurd rfl (hdeclared _ ht v)
    | irq nr point =>
        have hnr : nr < 22 := hatop.1
        simp only [LocalApic.level, hrank, Taken.vector, priorityClass, vectorBase]
        omega
  · rw [hatop.eq_of_inactive hactive]
    exact hle

/-- What is under way behind a step was under way before it or has just been taken. -/
theorem Service.mem_stack_step {e : Event} (h : t ∈ (s.step e).stack) :
    t ∈ s.stack ∨ (∃ v, e = .interrupt v ∧ s.Accepts v ∧ t = takenOf v) ∨
      ∃ nr point, t = .irq nr point := by
  rcases s.step_cases e with hsame | ⟨v, rfl, haccepts, hpush⟩ | ⟨-, top, rest, hstack, hnext⟩
  · rw [hsame] at h
    exact .inl h
  · rw [hpush, List.mem_cons] at h
    rcases h with rfl | hmem
    · exact .inr (.inl ⟨v, rfl, haccepts, rfl⟩)
    · exact .inl hmem
  · rw [hstack]
    rcases hnext with hpop | ⟨nr, point, hgo⟩
    · rw [hpop] at h
      exact .inl (List.mem_cons_of_mem _ h)
    · rw [hgo, List.mem_cons] at h
      rcases h with rfl | hmem
      · exact .inr (.inr ⟨nr, point, rfl⟩)
      · exact .inl (List.mem_cons_of_mem _ hmem)

/-- Only declared IRQs are under way. -/
theorem declared_run {events : List Event}
    (hdeclared : ∀ v, .interrupt v ∈ events → v < vectorBase + 22)
    (hs : ∀ t ∈ s.stack, ∀ v, t ≠ .ignored v) (hnested : s.Nested base) :
    (∀ t ∈ (events.foldl Service.step s).stack, ∀ v, t ≠ .ignored v) ∧
      (events.foldl Service.step s).Nested base := by
  induction events generalizing s with
  | nil => exact ⟨hs, hnested⟩
  | cons e events ih =>
      have hreturn : ¬ ReturnsIgnored s e := by
        cases e with
        | interrupt v => exact not_false
        | next =>
            rintro ⟨v, rest, hstack⟩
            exact hs (.ignored v) (by simp [hstack]) v rfl
      apply ih (fun v hv => hdeclared v (List.mem_cons_of_mem _ hv)) ?_ (hnested.step hreturn)
      intro t ht v heq
      rcases Service.mem_stack_step ht with hmem | ⟨w, rfl, haccepts, htaken⟩ | ⟨nr, point, hirq⟩
      · exact hs t hmem v heq
      · have hw := hdeclared w List.mem_cons_self
        rw [takenOf_eq haccepts.1, if_pos hw] at htaken
        cases htaken.symm.trans heq
      · cases hirq.symm.trans heq

end Declared

/-- While only declared IRQs arrive, at most two of them are between their arrival and the
restoring of the task priority, and whenever none is under way, the local APIC is as it
was in the beginning. -/
theorem declared_nesting (taskPri : Nat) {events : List Event}
    (hdeclared : ∀ v, .interrupt v ∈ events → v < vectorBase + 22) :
    let s := events.foldl Service.step (.idle taskPri)
    s.stack.countP Taken.active ≤ 2 ∧ (s.stack = [] → s = .idle taskPri) := by
  have hempty : ∀ t ∈ (Service.idle taskPri).stack, ∀ v, t ≠ .ignored v :=
    fun t ht => absurd ht List.not_mem_nil
  obtain ⟨hirqs, hnested⟩ := declared_run hdeclared hempty (idle_nested taskPri)
  dsimp only
  generalize events.foldl Service.step (.idle taskPri) = s at hirqs hnested
  constructor
  · have hcount := hnested.countP_active
    have hlevel := hnested.level_le hirqs
    have hbase : 1 ≤ LocalApic.level ⟨taskPri, ∅⟩ := le_max_left _ _
    omega
  · intro hstack
    obtain ⟨apic, stack⟩ := s
    cases hstack
    cases hnested
    rfl

/-- The keyboard, and the timer inside its handler. -/
theorem timer_in_keyboard :
    let s := [Event.interrupt 0x21, .next, .next, .interrupt 0x30].foldl Service.step (.idle 0)
    s.stack.countP Taken.active ≤ 2 ∧ (s.stack = [] → s = .idle 0) :=
  declared_nesting 0 (by simp [vectorBase])

/-! ## Interrupts behind `_ignore_isr` -/

/-- The interrupt has not yet come to its `end_irq`, if it ever will. -/
def Taken.pending : Taken → Bool
  | .irq _ (.ended _) | .irq _ .restored => false
  | _ => true

/-- The vectors in service from a class on. -/
def LocalApic.above (apic : LocalApic) (c : Nat) : Finset Nat :=
  apic.inService.filter (c ≤ priorityClass ·)

/-- Of the vectors in service from the class `c` on, the interrupts `top`, which are all of
such a class, leave at least `k` behind. -/
structure Service.Leaves (c k : Nat) (top : List Taken) (s : Service) : Prop where
  class_le : ∀ t ∈ top, c ≤ priorityClass t.vector
  count : top.countP Taken.pending + k ≤ (s.apic.above c).card

section Leaves

variable {c k v : Nat} {top rest : List Taken} {s : Service} {apic : LocalApic} {e : Event}

theorem takenOf_vector (h : vectorBase ≤ v) : (takenOf v).vector = v := by
  rw [takenOf_eq h]
  split
  · exact Nat.add_sub_cancel' h
  · rfl

theorem takenOf_pending (h : vectorBase ≤ v) : (takenOf v).pending = true := by
  rw [takenOf_eq h]
  split <;> rfl

theorem le_rank_of_above (h : 0 < (apic.above c).card) : c ≤ apic.rank := by
  obtain ⟨v, hv⟩ := Finset.card_pos.mp h
  rw [LocalApic.above, Finset.mem_filter] at hv
  exact hv.2.trans (class_le_rank hv.1)

/-- An end of interrupt takes one vector out of service, from the class `c` on if there is
one. -/
theorem card_above_eoi (h : 0 < (apic.above c).card) :
    (apic.eoi.above c).card + 1 = (apic.above c).card := by
  obtain ⟨v, hv⟩ := Finset.card_pos.mp h
  rw [LocalApic.above, Finset.mem_filter] at hv
  obtain ⟨hmem, hclass⟩ := hv
  obtain ⟨w, hw, hmax⟩ := Finset.exists_mem_eq_sup apic.inService ⟨v, hmem⟩ id
  have hle : v ≤ w := by
    have hsup := Finset.le_sup (f := id) hmem
    rwa [hmax] at hsup
  have habove : w ∈ apic.above c := by
    rw [LocalApic.above, Finset.mem_filter]
    refine ⟨hw, hclass.trans ?_⟩
    exact Nat.div_le_div_right hle
  have herase : apic.eoi.above c = (apic.above c).erase w := by
    rw [LocalApic.above, LocalApic.eoi, LocalApic.highest, hmax, LocalApic.above,
      Finset.filter_erase]
    rfl
  rw [herase, Finset.card_erase_add_one habove]

/-- A step of the interrupts on top keeps what they leave behind. -/
theorem Service.Leaves.step (h : s.Leaves c k top) (hstack : s.stack = top ++ rest)
    (hclass : c ≤ 2 ∨ 0 < k) (htop : e = .next → top = [] → rest = []) :
    ∃ top', (s.step e).stack = top' ++ rest ∧ (s.step e).Leaves c k top' := by
  obtain ⟨apic, stack⟩ := s
  obtain ⟨hclasses, hcount⟩ := h
  obtain rfl : stack = top ++ rest := hstack
  dsimp only at hcount
  cases e with
  | interrupt v =>
      by_cases haccepts : Service.Accepts ⟨apic, top ++ rest⟩ v
      · rw [step_of_accepts haccepts]
        obtain ⟨hlo, -, hrank⟩ := haccepts
        dsimp only at hrank
        have hv : c ≤ priorityClass v := by
          rcases hclass with hc | hk
          · refine hc.trans ?_
            simp only [priorityClass, vectorBase] at *
            omega
          · have hc := le_rank_of_above (by omega : 0 < (apic.above c).card)
            exact hc.trans hrank.le
        have hinsert : (apic.serve v).above c = insert v (apic.above c) := by
          simp only [LocalApic.above, LocalApic.serve, Finset.filter_insert, hv, if_true]
        have hnotMem : v ∉ apic.above c := by
          intro hmem
          exact notMem_of_rank_lt hrank (Finset.mem_of_mem_filter v hmem)
        refine ⟨takenOf v :: top, rfl, ?_, ?_⟩
        · rw [List.forall_mem_cons, takenOf_vector hlo]
          exact ⟨hv, hclasses⟩
        · rw [List.countP_cons_of_pos (takenOf_pending hlo), hinsert,
            Finset.card_insert_of_notMem hnotMem]
          omega
      · rw [step_of_not_accepts haccepts]
        exact ⟨top, rfl, hclasses, hcount⟩
  | next =>
      cases top with
      | nil =>
          cases htop rfl rfl
          exact ⟨[], rfl, hclasses, hcount⟩
      | cons t top =>
          rw [List.forall_mem_cons] at hclasses
          have hrest : top.countP Taken.pending + k ≤ (apic.above c).card := by
            refine le_trans (Nat.add_le_add_right ?_ k) hcount
            exact List.Sublist.countP_le (List.sublist_cons_self t top)
          cases t with
          | ignored v => exact ⟨top, rfl, hclasses.2, hrest⟩
          | irq nr point =>
              have hclasses' : ∀ point, ∀ t ∈ Taken.irq nr point :: top,
                  c ≤ priorityClass t.vector :=
                fun _ => List.forall_mem_cons.mpr hclasses
              cases point with
              | handling taskPri =>
                  rw [List.countP_cons_of_pos rfl] at hcount
                  have heoi := card_above_eoi (by omega : 0 < (apic.above c).card)
                  refine ⟨.irq nr (.ended taskPri) :: top, rfl, hclasses' _, ?_⟩
                  rw [List.countP_cons_of_neg (by simp [Taken.pending])]
                  change top.countP Taken.pending + k ≤ (apic.eoi.above c).card
                  omega
              | restored => exact ⟨top, rfl, hclasses.2, hrest⟩
              | entered => exact ⟨.irq nr (.saved apic.taskPri) :: top, rfl, hclasses' _, hcount⟩
              | saved taskPri =>
                  exact ⟨.irq nr (.handling taskPri) :: top, rfl, hclasses' _, hcount⟩
              | ended taskPri => exact ⟨.irq nr .restored :: top, rfl, hclasses' _, hcount⟩

/-- The same for a run of all interrupts. -/
theorem Service.Leaves.run (h : s.Leaves c k s.stack) (hclass : c ≤ 2 ∨ 0 < k)
    (events : List Event) :
    (events.foldl Service.step s).Leaves c k (events.foldl Service.step s).stack := by
  induction events generalizing s with
  | nil => exact h
  | cons e events ih =>
      obtain ⟨top, hstack, hleaves⟩ : ∃ top,
          (s.step e).stack = top ++ [] ∧ (s.step e).Leaves c k top :=
        h.step (List.append_nil _).symm hclass (fun _ _ => rfl)
      rw [List.append_nil] at hstack
      apply ih
      rw [hstack]
      exact hleaves

/-- What holds in every state that is reached from an idle one: nothing is in service that is
not pending, but for what `_ignore_isr` has left, and an interrupt in `ignore_isr_handler`
stays in service below those that came after it. -/
structure Service.Accounted (s : Service) : Prop where
  all : s.Leaves 2 0 s.stack
  ignored : ∀ top v rest, s.stack = top ++ .ignored v :: rest →
    3 ≤ priorityClass v ∧ s.Leaves (priorityClass v) 1 top

theorem Service.Accounted.step (h : s.Accounted) (e : Event) : (s.step e).Accounted := by
  constructor
  · exact Service.Leaves.run h.all (.inl le_rfl) [e]
  · intro top v rest hstack
    -- the interrupt was there already, unless it has just been taken
    have hold : ∀ before, s.stack = before ++ .ignored v :: rest → (e = .next → before ≠ []) →
        3 ≤ priorityClass v ∧ (s.step e).Leaves (priorityClass v) 1 top := by
      intro before hbefore hnext
      obtain ⟨hclass, hleaves⟩ := h.ignored before v rest hbefore
      obtain ⟨top', hstack', hleaves'⟩ := hleaves.step (e := e) hbefore (.inr Nat.one_pos)
        (fun he hnil => absurd hnil (hnext he))
      rw [hstack', List.append_cancel_right_eq] at hstack
      exact ⟨hclass, hstack ▸ hleaves'⟩
    rcases s.step_cases e with hsame | ⟨w, rfl, haccepts, hpush⟩ | ⟨rfl, t, below, hs, hmove⟩
    · rw [hsame] at hstack ⊢
      exact h.ignored top v rest hstack
    · cases top with
      | nil =>
          rw [hpush, List.nil_append, List.cons.injEq, takenOf_eq haccepts.1] at hstack
          obtain ⟨htaken, -⟩ := hstack
          split at htaken
          · cases htaken
          · next hw =>
              cases htaken
              have hclass : 3 ≤ priorityClass v := by
                simp only [priorityClass, vectorBase] at *
                omega
              refine ⟨hclass, fun t ht => absurd ht List.not_mem_nil, ?_⟩
              rw [step_of_accepts haccepts]
              refine Finset.card_pos.mpr ⟨v, ?_⟩
              rw [LocalApic.above, Finset.mem_filter]
              exact ⟨Finset.mem_insert_self _ _, le_rfl⟩
      | cons x top =>
          rw [hpush, List.cons_append, List.cons.injEq] at hstack
          exact hold top hstack.2 (by rintro ⟨⟩)
    · rcases hmove with hpop | ⟨nr, point, hgo⟩
      · rw [hpop] at hstack
        exact hold (t :: top) (by rw [hs, hstack, List.cons_append]) (fun _ => List.cons_ne_nil _ _)
      · cases top with
        | nil =>
            rw [hgo, List.nil_append, List.cons.injEq] at hstack
            cases hstack.1
        | cons x top =>
            rw [hgo, List.cons_append, List.cons.injEq] at hstack
            exact hold (t :: top) (by rw [hs, hstack.2, List.cons_append])
              (fun _ => List.cons_ne_nil _ _)

theorem accounted_run (taskPri : Nat) (events : List Event) :
    (events.foldl Service.step (.idle taskPri)).Accounted := by
  have hidle : (Service.idle taskPri).Accounted := by
    constructor
    · exact ⟨fun t ht => absurd ht List.not_mem_nil, Nat.zero_le _⟩
    · intro top v rest hstack
      cases top <;> cases hstack
  generalize Service.idle taskPri = s at hidle
  induction events generalizing s with
  | nil => exact hidle
  | cons e events ih => exact ih _ (hidle.step e)

end Leaves

/-- Once an interrupt of an undeclared vector has gone through `_ignore_isr`, no IRQ of a
device, 0 to 15, is ever let through again, and if it came while none was under way, no
declared IRQ at all. -/
theorem ignored_blocks (taskPri : Nat) {events : List Event} {v : Nat} {rest : List Taken}
    (hstack : (events.foldl Service.step (.idle taskPri)).stack = .ignored v :: rest)
    (later : List Event) :
    let s := later.foldl Service.step (events.foldl Service.step (.idle taskPri)).next
    (∀ irq < 16, ¬ s.Accepts (vectorBase + irq)) ∧
      (rest = [] → ∀ irq < 22, ¬ s.Accepts (vectorBase + irq)) := by
  have haccounted := accounted_run taskPri events
  generalize events.foldl Service.step (.idle taskPri) = s at haccounted hstack
  have hnext : s.next = { s with stack := rest } := by
    obtain ⟨apic, stack⟩ := s
    cases hstack
    rfl
  dsimp only
  rw [hnext]
  have hrank : ∀ c, Service.Leaves c 1 rest { s with stack := rest } →
      c ≤ (later.foldl Service.step { s with stack := rest }).apic.rank := by
    intro c hleaves
    have hrun := Service.Leaves.run (s := { s with stack := rest }) hleaves (.inr Nat.one_pos) later
    apply le_rank_of_above
    have hcount := hrun.count
    omega
  constructor
  · intro irq hirq haccepts
    have hall := haccounted.all
    rw [hstack] at hall
    have hleft : Service.Leaves 2 1 rest { s with stack := rest } := by
      obtain ⟨hclass, hcount⟩ := hall
      rw [List.forall_mem_cons] at hclass
      rw [List.countP_cons_of_pos rfl] at hcount
      exact ⟨hclass.2, hcount⟩
    have hle := hrank 2 hleft
    have hlt := haccepts.2.2
    simp only [priorityClass, vectorBase] at *
    omega
  · rintro rfl irq hirq haccepts
    obtain ⟨hclass, hleaves⟩ := haccounted.ignored [] v [] hstack
    have hle := hrank _ ⟨hleaves.class_le, hleaves.count⟩
    have hlt := haccepts.2.2
    simp only [priorityClass, vectorBase] at *
    omega

/-- One interrupt of pin 22, and the keyboard is dead. -/
theorem keyboard_blocked :
    let s := [Event.interrupt 0x21].foldl Service.step
      ([Event.interrupt 0x36].foldl Service.step (.idle 0)).next
    (∀ irq < 16, ¬ s.Accepts (vectorBase + irq)) ∧
      (([] : List Taken) = [] → ∀ irq < 22, ¬ s.Accepts (vectorBase + irq)) :=
  ignored_blocks 0 (v := 0x36) (by decide) [.interrupt 0x21]

end Caos.Irq
