import Caos.Lib.Run

/-!
Machines that read inputs one by one and emit outputs. `P past s` may speak of the whole
history of the state `s`; what one more input keeps holds behind every input sequence.
Two runs, one of which leaves out some of the inputs, are compared step by step.
-/

namespace Caos.Lib

variable {σ ι ο : Type*} (next : σ → ι → σ × List ο)

/-- The state behind a sequence of inputs. -/
def finalState (s : σ) (inputs : List ι) : σ := inputs.foldl (fun s i => (next s i).1) s

/-- What is emitted on the way. -/
def outputs : σ → List ι → List ο
  | _, [] => []
  | s, i :: inputs => (next s i).2 ++ outputs (next s i).1 inputs

variable {next} {s t : σ} {inputs : List ι}

/-- An assertion about the history of the state. -/
theorem finalState_history {P : List ι → σ → Prop} (h0 : P [] s)
    (hstep : ∀ past s i, P past s → P (past ++ [i]) (next s i).1) (inputs : List ι) :
    P inputs (finalState next s inputs) := by
  induction inputs using List.reverseRecOn with
  | nil => exact h0
  | append_singleton past i ih =>
      rw [finalState, List.foldl_append]
      exact hstep past _ i ih

/-- One more input. -/
theorem outputs_concat (s : σ) (inputs : List ι) (i : ι) :
    outputs next s (inputs ++ [i]) =
      outputs next s inputs ++ (next (finalState next s inputs) i).2 := by
  induction inputs generalizing s with
  | nil => simp [outputs, finalState]
  | cons first inputs ih =>
      rw [List.cons_append, outputs, ih, outputs, List.append_assoc]
      rfl

theorem forall_mem_outputs {P : ο → Prop} : (∀ o ∈ outputs next s inputs, P o) ↔
    EveryStep (fun s i => (next s i).1) (fun s i => ∀ o ∈ (next s i).2, P o) s inputs := by
  induction inputs generalizing s with
  | nil => exact iff_of_true (List.forall_mem_nil _) trivial
  | cons i inputs ih => rw [outputs, List.forall_mem_append, EveryStep, ih]

/-- Two machines that do the same in every state of an invariant. -/
theorem run_congr {next' : σ → ι → σ × List ο} {I : σ → Prop} {good : ι → Prop}
    (hsame : ∀ s i, I s → good i → next s i = next' s i)
    (hkeep : ∀ s i, I s → good i → I (next' s i).1) (hI : I s) (h : ∀ i ∈ inputs, good i) :
    outputs next s inputs = outputs next' s inputs ∧
      finalState next s inputs = finalState next' s inputs := by
  induction inputs generalizing s with
  | nil => exact ⟨rfl, rfl⟩
  | cons i inputs ih =>
      obtain ⟨hi, hrest⟩ := List.forall_mem_cons.mp h
      obtain ⟨houtputs, hfinal⟩ := ih (hkeep s i hI hi) hrest
      rw [outputs, outputs, hsame s i hI hi, houtputs]
      refine ⟨rfl, ?_⟩
      rw [finalState, List.foldl_cons, hsame s i hI hi]
      exact hfinal

section TwoRuns

variable {R : σ → σ → Prop} {keep : ι → Bool} {good : σ → ι → Prop} {p : ο → Bool}

/-- Inputs that are left out emit nothing and keep the states related. -/
def Silent (next : σ → ι → σ × List ο) (R : σ → σ → Prop) (keep : ι → Bool) : Prop :=
  ∀ s t i, R s t → keep i = false → (next s i).2 = [] ∧ R (next s i).1 t

/-- Inputs that both runs read keep the states related. -/
def InStep (next : σ → ι → σ × List ο) (R : σ → σ → Prop) (keep : ι → Bool) : Prop :=
  ∀ s t i, R s t → keep i = true → R (next s i).1 (next t i).1

/-- If every step of the full run is good, the run without the silent inputs emits the same. -/
theorem outputs_filter_of_good (hsilent : Silent next R keep) (hstep : InStep next R keep)
    (hgood : ∀ s t i, R s t → keep i = true → good s i → (next s i).2 = (next t i).2)
    (hR : R s t) (h : EveryStep (fun s i => (next s i).1) good s inputs) :
    outputs next s inputs = outputs next t (inputs.filter keep) := by
  induction inputs generalizing s t with
  | nil => rfl
  | cons i inputs ih =>
      cases hkeep : keep i with
      | false =>
          obtain ⟨hnone, hR'⟩ := hsilent s t i hR hkeep
          rw [outputs, hnone, List.nil_append, List.filter_cons_of_neg (by simp [hkeep])]
          exact ih hR' h.2
      | true =>
          rw [outputs, List.filter_cons_of_pos hkeep, outputs, hgood s t i hR hkeep h.1]
          rw [ih (hstep s t i hR hkeep) h.2]

/-- If a step of the full run is not good, and such steps emit more of something than the
other run does, the full run emits more of it. -/
theorem countP_outputs_filter (hsilent : Silent next R keep) (hstep : InStep next R keep)
    (hkept : ∀ s i, keep i = false → good s i)
    (hgood : ∀ s t i, R s t → keep i = true → good s i → (next s i).2 = (next t i).2)
    (hbad : ∀ s t i, R s t → keep i = true → ¬ good s i →
      (next t i).2.countP p < (next s i).2.countP p) (hR : R s t) :
    (outputs next t (inputs.filter keep)).countP p ≤ (outputs next s inputs).countP p ∧
      (¬ EveryStep (fun s i => (next s i).1) good s inputs →
        (outputs next t (inputs.filter keep)).countP p < (outputs next s inputs).countP p) := by
  induction inputs generalizing s t with
  | nil => simp [EveryStep, outputs]
  | cons i inputs ih =>
      cases hkeep : keep i with
      | false =>
          obtain ⟨hnone, hR'⟩ := hsilent s t i hR hkeep
          obtain ⟨hle, hlt⟩ := ih hR'
          rw [outputs, hnone, List.nil_append, List.filter_cons_of_neg (by simp [hkeep])]
          exact ⟨hle, fun h => hlt fun hrest => h ⟨hkept s i hkeep, hrest⟩⟩
      | true =>
          obtain ⟨hle, hlt⟩ := ih (hstep s t i hR hkeep)
          rw [outputs, List.filter_cons_of_pos hkeep, outputs, List.countP_append,
            List.countP_append]
          by_cases h : good s i
          · rw [hgood s t i hR hkeep h]
            refine ⟨by omega, fun hnot => ?_⟩
            have hrest := hlt fun hrest => hnot ⟨h, hrest⟩
            omega
          · have hmore := hbad s t i hR hkeep h
            exact ⟨by omega, fun _ => by omega⟩

/-- Leaving out the silent inputs changes nothing exactly if every step is good. -/
theorem outputs_filter_iff (hsilent : Silent next R keep) (hstep : InStep next R keep)
    (hkept : ∀ s i, keep i = false → good s i)
    (hgood : ∀ s t i, R s t → keep i = true → good s i → (next s i).2 = (next t i).2)
    (hbad : ∀ s t i, R s t → keep i = true → ¬ good s i →
      (next t i).2.countP p < (next s i).2.countP p) (hR : R s t) :
    outputs next s inputs = outputs next t (inputs.filter keep) ↔
      EveryStep (fun s i => (next s i).1) good s inputs := by
  constructor
  · intro h
    by_contra hnot
    have hlt := (countP_outputs_filter hsilent hstep hkept hgood hbad hR).2 hnot
    rw [h] at hlt
    exact Nat.lt_irrefl _ hlt
  · exact outputs_filter_of_good hsilent hstep hgood hR

end TwoRuns

end Caos.Lib
