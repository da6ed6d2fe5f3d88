import Mathlib.Tactic

/-!
Loops given by their iteration. One iteration either continues with a new
loop state (`.inl`) or leaves the loop with a result (`.inr`). Termination,
the states a loop passes through and the result it leaves with are stated on
the iteration itself, so no fuel appears in them.
-/

namespace Caos.Lib

variable {σ ρ : Type*}

/-- Run at most `fuel` iterations. `none` means the loop is still running. -/
def iterate (step : σ → σ ⊕ ρ) : Nat → σ → Option ρ
  | 0, _ => none
  | fuel + 1, s =>
    match step s with
    | .inl next => iterate step fuel next
    | .inr result => some result

/-- The loop states passed through from `start` on, `start` included. -/
inductive Visits (step : σ → σ ⊕ ρ) (start : σ) : σ → Prop
  | start : Visits step start start
  | next {s t : σ} : Visits step start s → step s = .inl t → Visits step start t

/-- The loop ends after finitely many iterations. -/
def Ends (step : σ → σ ⊕ ρ) (s : σ) : Prop :=
  ∃ fuel result, iterate step fuel s = some result

variable {step : σ → σ ⊕ ρ}

theorem iterate_inl {s t : σ} (h : step s = .inl t) (fuel : Nat) :
    iterate step (fuel + 1) s = iterate step fuel t := by
  simp only [iterate, h]

theorem iterate_inr {s : σ} {result : ρ} (h : step s = .inr result) (fuel : Nat) :
    iterate step (fuel + 1) s = some result := by
  simp only [iterate, h]

/-- More fuel never changes a result. -/
theorem iterate_mono {fuel more : Nat} {s : σ} {result : ρ}
    (h : iterate step fuel s = some result) (hle : fuel ≤ more) :
    iterate step more s = some result := by
  induction fuel generalizing more s with
  | zero => simp [iterate] at h
  | succ fuel ih =>
      obtain ⟨more, rfl⟩ : ∃ k, more = k + 1 := ⟨more - 1, by omega⟩
      cases hstep : step s with
      | inl t =>
          rw [iterate_inl hstep] at h ⊢
          exact ih h (by omega)
      | inr r =>
          rw [iterate_inr hstep] at h ⊢
          exact h

theorem iterate_unique {fuel more : Nat} {s : σ} {first second : ρ}
    (h : iterate step fuel s = some first)
    (h' : iterate step more s = some second) : first = second := by
  have hl := iterate_mono h (Nat.le_max_left fuel more)
  have hr := iterate_mono h' (Nat.le_max_right fuel more)
  exact Option.some.inj (hl.symm.trans hr)

theorem Visits.head {s t u : σ} (h : step s = .inl t) (hv : Visits step t u) :
    Visits step s u := by
  induction hv with
  | start => exact .next .start h
  | next _ hstep ih => exact .next ih hstep

theorem Visits.trans {s t u : σ} (hv : Visits step s t) (hv' : Visits step t u) :
    Visits step s u := by
  induction hv' with
  | start => exact hv
  | next _ hstep ih => exact ih.next hstep

/-- The states passed through from `s` on, by the first iteration. -/
theorem visits_iff {s t : σ} :
    Visits step s t ↔ t = s ∨ ∃ u, step s = .inl u ∧ Visits step u t := by
  constructor
  · intro hv
    induction hv with
    | start => exact .inl rfl
    | next _ hstep ih =>
        rcases ih with rfl | ⟨u, hu, hv⟩
        · exact .inr ⟨_, hstep, .start⟩
        · exact .inr ⟨u, hu, hv.next hstep⟩
  · rintro (rfl | ⟨u, hu, hv⟩)
    · exact .start
    · exact hv.head hu

/-- Two loops that agree on the states the first one passes through are the same. -/
theorem iterate_congr {step' : σ → σ ⊕ ρ} {s : σ}
    (h : ∀ t, Visits step s t → step' t = step t) (fuel : Nat) :
    iterate step' fuel s = iterate step fuel s := by
  induction fuel generalizing s with
  | zero => rfl
  | succ fuel ih =>
      have hs := h s .start
      cases hstep : step s with
      | inl t =>
          rw [iterate_inl hstep, iterate_inl (hs.trans hstep)]
          exact ih fun u hu => h u (hu.head hstep)
      | inr r => rw [iterate_inr hstep, iterate_inr (hs.trans hstep)]

/-- An assertion kept by every continuing iteration holds in every state the
loop passes through. -/
theorem Visits.invariant {I : σ → Prop} {s t : σ} (hv : Visits step s t)
    (h0 : I s) (hstep : ∀ s t, I s → step s = .inl t → I t) : I t := by
  induction hv with
  | start => exact h0
  | next _ h ih => exact hstep _ _ ih h

/-- The first `n` iterations, if each of them continues: `I i` holds in front of
iteration `i`. -/
theorem visits_of_indexed {I : Nat → σ → Prop} {s : σ} {n : Nat} (h0 : I 0 s)
    (hstep : ∀ i t, i < n → I i t → ∃ u, step t = .inl u ∧ I (i + 1) u) :
    ∃ t, Visits step s t ∧ I n t := by
  induction n with
  | zero => exact ⟨s, .start, h0⟩
  | succ n ih =>
      obtain ⟨t, hvisits, ht⟩ := ih fun i t hi => hstep i t (by omega)
      obtain ⟨u, hu, hI⟩ := hstep n t (Nat.lt_succ_self n) ht
      exact ⟨u, hvisits.next hu, hI⟩

/-- The first `n` iterations cost `n` units of fuel. -/
theorem iterate_indexed {front : Nat → σ} {n : Nat}
    (hstep : ∀ k < n, step (front k) = .inl (front (k + 1))) (fuel : Nat) :
    iterate step (n + fuel) (front 0) = iterate step fuel (front n) := by
  induction n generalizing fuel with
  | zero => rw [Nat.zero_add]
  | succ n ih =>
      have hlast := hstep n (Nat.lt_succ_self n)
      rw [Nat.add_assoc, Nat.add_comm 1, ih fun k hk => hstep k (by omega), iterate_inl hlast]

/-- A loop that tries `n` candidates in order and leaves at the first that passes. -/
theorem iterate_search {front : Nat → σ} {p : Nat → Bool} {hit : Nat → ρ} {miss : ρ} {n : Nat}
    (hstep : ∀ k < n, step (front k) = if p k then .inr (hit k) else .inl (front (k + 1)))
    (hend : step (front n) = .inr miss) :
    iterate step (n + 1) (front 0) = some (((List.range n).find? p).elim miss hit) := by
  cases hfind : (List.range n).find? p with
  | none =>
      rw [List.find?_range_eq_none] at hfind
      have hnext : ∀ k < n, step (front k) = .inl (front (k + 1)) := by
        intro k hk
        rw [hstep k hk, if_neg (by simpa using hfind k hk)]
      rw [iterate_indexed hnext, iterate_inr hend]
      rfl
  | some k =>
      rw [List.find?_range_eq_some] at hfind
      obtain ⟨hpass, hk, hbefore⟩ := hfind
      rw [List.mem_range] at hk
      have hnext : ∀ j < k, step (front j) = .inl (front (j + 1)) := by
        intro j hj
        rw [hstep j (hj.trans hk), if_neg (by simpa using hbefore j hj)]
      have hexit : step (front k) = .inr (hit k) := by rw [hstep k hk, if_pos hpass]
      obtain ⟨fuel, rfl⟩ : ∃ fuel, n = k + fuel := ⟨n - k, by omega⟩
      rw [Nat.add_assoc, iterate_indexed hnext, iterate_inr hexit]
      rfl

/-- A loop whose continuing iterations another loop makes as well. -/
theorem Visits.map {τ ρ' : Type*} {step' : τ → τ ⊕ ρ'} (f : σ → τ)
    (hstep : ∀ s t, step s = .inl t → step' (f s) = .inl (f t)) {s t : σ}
    (hv : Visits step s t) : Visits step' (f s) (f t) := by
  induction hv with
  | start => exact .start
  | next _ h ih => exact ih.next (hstep _ _ h)

/-- A loop whose continuing iterations another loop follows, each by any number of its own. -/
theorem Visits.simulates {τ ρ' : Type*} {step' : τ → τ ⊕ ρ'} {R : σ → τ → Prop}
    (hstep : ∀ s s' t, R s t → step s = .inl s' → ∃ t', Visits step' t t' ∧ R s' t')
    {s s' : σ} (hv : Visits step s s') {t : τ} (h0 : R s t) :
    ∃ t', Visits step' t t' ∧ R s' t' := by
  induction hv with
  | start => exact ⟨t, .start, h0⟩
  | next _ h ih =>
      obtain ⟨u, hvisits, hu⟩ := ih
      obtain ⟨t', hmore, ht'⟩ := hstep _ _ u hu h
      exact ⟨t', hvisits.trans hmore, ht'⟩

/-- A loop that ends leaves from a state it passes through. -/
theorem iterate_exit {fuel : Nat} {s : σ} {result : ρ}
    (h : iterate step fuel s = some result) :
    ∃ t, Visits step s t ∧ step t = .inr result := by
  induction fuel generalizing s with
  | zero => simp [iterate] at h
  | succ fuel ih =>
      cases hstep : step s with
      | inl t =>
          rw [iterate_inl hstep] at h
          obtain ⟨u, hv, hu⟩ := ih h
          exact ⟨u, hv.head hstep, hu⟩
      | inr r =>
          rw [iterate_inr hstep] at h
          exact ⟨s, .start, hstep.trans (congrArg Sum.inr (Option.some.inj h))⟩

/-- A loop that passes through an exit leaves there. -/
theorem Visits.iterate_exit {s t : σ} {result : ρ} (hv : Visits step s t)
    (h : step t = .inr result) : ∃ fuel, iterate step fuel s = some result := by
  have hexit : ∃ fuel, iterate step fuel t = some result := ⟨1, iterate_inr h 0⟩
  clear h
  induction hv with
  | start => exact hexit
  | next _ hstep ih =>
      apply ih
      obtain ⟨fuel, hfuel⟩ := hexit
      exact ⟨fuel + 1, by rw [iterate_inl hstep, hfuel]⟩

/-- A measure that every continuing iteration lowers bounds the number of
iterations. The assertion `I` carries what the measure needs. -/
theorem iterate_of_measure {I : σ → Prop} {μ : σ → Nat}
    (hstep : ∀ s t, I s → step s = .inl t → I t ∧ μ t < μ s)
    {s : σ} (h0 : I s) {fuel : Nat} (hfuel : μ s < fuel) :
    ∃ result, iterate step fuel s = some result := by
  induction fuel generalizing s with
  | zero => omega
  | succ fuel ih =>
      cases h : step s with
      | inl t =>
          obtain ⟨ht, hlt⟩ := hstep s t h0 h
          obtain ⟨result, hr⟩ := ih ht (by omega)
          exact ⟨result, by rw [iterate_inl h, hr]⟩
      | inr r => exact ⟨r, iterate_inr h fuel⟩

/-- A loop that can always continue inside `I` never ends. -/
theorem not_ends_of_invariant {I : σ → Prop}
    (hstep : ∀ s, I s → ∃ t, step s = .inl t ∧ I t) {s : σ} (h0 : I s) :
    ¬ Ends step s := by
  rintro ⟨fuel, result, h⟩
  obtain ⟨t, hv, ht⟩ := iterate_exit h
  have hI : I t := by
    refine hv.invariant h0 ?_
    intro u v hu huv
    obtain ⟨w, hw, hI⟩ := hstep u hu
    have : w = v := Sum.inl.inj (hw.symm.trans huv)
    exact this ▸ hI
  obtain ⟨w, hw, _⟩ := hstep t hI
  rw [ht] at hw
  cases hw

theorem ends_inl_iff {s t : σ} (h : step s = .inl t) :
    Ends step s ↔ Ends step t := by
  constructor
  · rintro ⟨fuel, result, hr⟩
    cases fuel with
    | zero => simp [iterate] at hr
    | succ fuel => exact ⟨fuel, result, by rwa [iterate_inl h] at hr⟩
  · rintro ⟨fuel, result, hr⟩
    exact ⟨fuel + 1, result, by rwa [iterate_inl h]⟩

/-- Whether a loop ends can be decided at any state it passes through. -/
theorem Visits.ends_iff {s t : σ} (hv : Visits step s t) :
    Ends step s ↔ Ends step t := by
  induction hv with
  | start => exact Iff.rfl
  | next _ h ih => exact ih.trans (ends_inl_iff h)

end Caos.Lib
