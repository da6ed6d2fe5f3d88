import Mathlib.Tactic

/-!
Runs of a labelled step relation: a finite list of operations performed one
after another. An assertion that every step keeps holds at the end of every
run, and a run maps along any map of states that respects steps.
-/

namespace Caos.Lib

variable {σ τ ι : Type*}

/-- Performing `ops` in order leads from the first state to the second. -/
inductive Run (step : σ → ι → σ → Prop) : σ → List ι → σ → Prop
  | nil (s : σ) : Run step s [] s
  | cons {s t u : σ} {op : ι} {ops : List ι} :
      step s op t → Run step t ops u → Run step s (op :: ops) u

namespace Run

variable {step : σ → ι → σ → Prop}

theorem invariant {I : σ → Prop} {s t : σ} {ops : List ι}
    (h : Run step s ops t) (h0 : I s)
    (hstep : ∀ s op t, I s → step s op t → I t) : I t := by
  induction h with
  | nil _ => exact h0
  | cons hs _ ih => exact ih (hstep _ _ _ h0 hs)

theorem append {s t u : σ} {first second : List ι}
    (h : Run step s first t) (h' : Run step t second u) :
    Run step s (first ++ second) u := by
  induction h with
  | nil _ => exact h'
  | cons hs _ ih => exact .cons hs (ih h')

/-- A map of states that carries every step to a step carries runs to runs. -/
theorem map {step' : τ → ι → τ → Prop} (f : σ → τ)
    (hstep : ∀ s op t, step s op t → step' (f s) op (f t))
    {s t : σ} {ops : List ι} (h : Run step s ops t) :
    Run step' (f s) ops (f t) := by
  induction h with
  | nil _ => exact .nil _
  | cons hs _ ih => exact .cons (hstep _ _ _ hs) ih

/-- A relation between states that every step of the one system can keep by a step of the
other carries runs to runs. -/
theorem simulates {step' : τ → ι → τ → Prop} {R : σ → τ → Prop}
    (hstep : ∀ s op s' t, R s t → step s op s' → ∃ t', step' t op t' ∧ R s' t')
    {s s' : σ} {ops : List ι} (h : Run step s ops s') {t : τ} (h0 : R s t) :
    ∃ t', Run step' t ops t' ∧ R s' t' := by
  induction h generalizing t with
  | nil _ => exact ⟨t, .nil t, h0⟩
  | cons hs _ ih =>
      obtain ⟨u, hu, hR⟩ := hstep _ _ _ t h0 hs
      obtain ⟨t', hrun, hR'⟩ := ih hR
      exact ⟨t', .cons hu hrun, hR'⟩

end Run

/-- `P` holds of every step of the run that performs `ops` from `s` with the
total step function `next`. -/
def EveryStep (next : σ → ι → σ) (P : σ → ι → Prop) : σ → List ι → Prop
  | _, [] => True
  | s, op :: ops => P s op ∧ EveryStep next P (next s op) ops

theorem everyStep_of_forall {next : σ → ι → σ} {P : σ → ι → Prop} (h : ∀ s op, P s op) {s : σ}
    {ops : List ι} : EveryStep next P s ops := by
  induction ops generalizing s with
  | nil => trivial
  | cons op ops ih => exact ⟨h s op, ih⟩

/-- A step property carries over to a run along an assertion it keeps. -/
theorem EveryStep.imp_of_invariant {next : σ → ι → σ} {P Q : σ → ι → Prop}
    {J : σ → Prop} {s : σ} {ops : List ι} (h : EveryStep next P s ops) (h0 : J s)
    (hstep : ∀ s op, J s → P s op → Q s op ∧ J (next s op)) :
    EveryStep next Q s ops := by
  induction ops generalizing s with
  | nil => trivial
  | cons op ops ih =>
      obtain ⟨hP, hrest⟩ := h
      obtain ⟨hQ, hJ⟩ := hstep s op h0 hP
      exact ⟨hQ, ih hrest hJ⟩

/-- Two step properties that agree along an assertion hold of the same runs. -/
theorem EveryStep.iff_of_invariant {next : σ → ι → σ} {P Q : σ → ι → Prop}
    {J : σ → Prop} {s : σ} {ops : List ι} (h0 : J s) (hiff : ∀ s op, J s → (P s op ↔ Q s op))
    (hstep : ∀ s op, J s → Q s op → J (next s op)) :
    EveryStep next P s ops ↔ EveryStep next Q s ops := by
  constructor
  · intro h
    apply h.imp_of_invariant h0
    intro s op hJ hP
    have hQ := (hiff s op hJ).mp hP
    exact ⟨hQ, hstep s op hJ hQ⟩
  · intro h
    apply h.imp_of_invariant h0
    intro s op hJ hQ
    exact ⟨(hiff s op hJ).mpr hQ, hstep s op hJ hQ⟩

theorem EveryStep.append_iff {next : σ → ι → σ} {P : σ → ι → Prop} {s : σ}
    {first second : List ι} :
    EveryStep next P s (first ++ second) ↔
      EveryStep next P s first ∧ EveryStep next P (first.foldl next s) second := by
  induction first generalizing s with
  | nil => simp [EveryStep]
  | cons op ops ih => simp only [List.cons_append, EveryStep, List.foldl_cons, ih, and_assoc]

/-- Operations made of smaller parts: where a part that breaks `I` leaves it broken to
the end of its operation, `I` holds after every operation iff it holds after every part. -/
theorem EveryStep.flatMap_iff {κ : Type*} {next : σ → ι → σ} {inner : σ → κ → σ}
    {parts : ι → List κ} {I : σ → Prop}
    (hnext : ∀ s op, next s op = (parts op).foldl inner s)
    (hbroken : ∀ s k (ks : List κ), I s → ¬ I (inner s k) → ¬ I (ks.foldl inner (inner s k)))
    {s : σ} (h0 : I s) {ops : List ι} :
    EveryStep next (fun s op => I (next s op)) s ops ↔
      EveryStep inner (fun s k => I (inner s k)) s (ops.flatMap parts) := by
  have hparts : ∀ ks s, I s → (I (ks.foldl inner s) ↔
      EveryStep inner (fun s k => I (inner s k)) s ks) := by
    intro ks
    induction ks with
    | nil => exact fun s hs => ⟨fun _ => trivial, fun _ => hs⟩
    | cons k ks ih =>
        intro s hs
        by_cases hk : I (inner s k)
        · simp only [List.foldl_cons, EveryStep, ih _ hk, hk, true_and]
        · simp only [List.foldl_cons, EveryStep, hk, false_and, hbroken s k ks hs hk]
  induction ops generalizing s with
  | nil => simp [EveryStep]
  | cons op ops ih =>
      rw [List.flatMap_cons, EveryStep.append_iff, ← hparts _ s h0, ← hnext]
      exact and_congr_right fun hop => ih hop

/-- `P` holds in every state of the run, the first and the last included. -/
def Throughout (next : σ → ι → σ) (P : σ → Prop) (s : σ) (ops : List ι) : Prop :=
  ∀ past, past <+: ops → P (past.foldl next s)

theorem throughout_nil {next : σ → ι → σ} {P : σ → Prop} {s : σ} :
    Throughout next P s [] ↔ P s := by
  constructor
  · exact fun h => h [] List.nil_prefix
  · intro h past hpast
    rw [List.prefix_nil.mp hpast]
    exact h

theorem throughout_cons {next : σ → ι → σ} {P : σ → Prop} {s : σ} {op : ι} {ops : List ι} :
    Throughout next P s (op :: ops) ↔ P s ∧ Throughout next P (next s op) ops := by
  constructor
  · intro h
    refine ⟨h [] List.nil_prefix, fun past hpast => ?_⟩
    exact h (op :: past) ((List.prefix_cons_inj op).mpr hpast)
  · rintro ⟨hs, hrest⟩ past hpast
    rcases List.prefix_cons_iff.mp hpast with rfl | ⟨rest, rfl, hprefix⟩
    · exact hs
    · exact hrest rest hprefix

/-- Where a step keeps `P` exactly if its operation is a good one, `P` holds throughout
exactly if all operations are. The run may be known to satisfy `Q` throughout. -/
theorem Throughout.iff_forall_mem {next : σ → ι → σ} {P Q : σ → Prop} {good : ι → Prop}
    (hstep : ∀ s op, Q s → P s → (P (next s op) ↔ good op)) {s : σ} {ops : List ι}
    (hQ : Throughout next Q s ops) (h0 : P s) :
    Throughout next P s ops ↔ ∀ op ∈ ops, good op := by
  induction ops generalizing s with
  | nil => exact iff_of_true (throughout_nil.mpr h0) (List.forall_mem_nil _)
  | cons op ops ih =>
      obtain ⟨hs, hrest⟩ := throughout_cons.mp hQ
      have hop := hstep s op hs h0
      rw [throughout_cons, List.forall_mem_cons]
      constructor
      · rintro ⟨-, h⟩
        have hnext : P (next s op) := h [] List.nil_prefix
        exact ⟨hop.mp hnext, (ih hrest hnext).mp h⟩
      · rintro ⟨hgood, h⟩
        exact ⟨h0, (ih hrest (hop.mpr hgood)).mpr h⟩

/-- An assertion about a partial fold: it holds of no items and the initial state,
and one more item keeps it. -/
theorem foldlM_invariant {σ α : Type*} {f : σ → α → Option σ} {P : List α → σ → Prop}
    {s : σ} (h0 : P [] s)
    (hstep : ∀ done a t t', P done t → f t a = some t' → P (done ++ [a]) t')
    {items : List α} {s' : σ} (h : items.foldlM f s = some s') : P items s' := by
  induction items using List.reverseRecOn generalizing s' with
  | nil =>
      cases h
      exact h0
  | append_singleton done a ih =>
      rw [List.foldlM_append] at h
      cases hdone : done.foldlM f s with
      | none => simp [hdone] at h
      | some t =>
          apply hstep done a t s' (ih hdone)
          simpa [hdone] using h

end Caos.Lib
