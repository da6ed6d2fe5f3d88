import Mathlib.Tactic

/-!
Activations stacked on a state, the latest first. Each stands on the state that it found,
and `atop` says which state it makes of that one at the point it has come to. Where an
activation leaves the state as it found it, an empty stack has the state of the beginning.
-/

namespace Caos.Lib

variable {σ α : Type*}

/-- The activations stand one on another, the lowest on `base`. -/
def Stacked (atop : α → σ → σ → Prop) (base : σ) : List α → σ → Prop
  | [], s => s = base
  | a :: rest, s => ∃ below, Stacked atop base rest below ∧ atop a below s

namespace Stacked

variable {atop : α → σ → σ → Prop} {base s s' : σ} {a a' : α} {rest stack : List α}

theorem push (h : Stacked atop base stack s) (hatop : atop a s s') :
    Stacked atop base (a :: stack) s' :=
  ⟨s, h, hatop⟩

/-- The topmost activation goes on. -/
theorem advance (h : Stacked atop base (a :: rest) s)
    (hatop : ∀ below, atop a below s → atop a' below s') :
    Stacked atop base (a' :: rest) s' := by
  obtain ⟨below, hrest, ha⟩ := h
  exact ⟨below, hrest, hatop below ha⟩

/-- The topmost activation ends, with the state as it was before. -/
theorem pop (h : Stacked atop base (a :: rest) s) (hatop : ∀ below, atop a below s → s' = below) :
    Stacked atop base rest s' := by
  obtain ⟨below, hrest, ha⟩ := h
  rw [hatop below ha]
  exact hrest

/-- What every activation keeps holds on top of the stack if it held below. -/
theorem invariant {P : σ → Prop} (h : Stacked atop base stack s) (hbase : P base)
    (hstep : ∀ a ∈ stack, ∀ below s, atop a below s → P below → P s) : P s := by
  induction stack generalizing s with
  | nil => exact h ▸ hbase
  | cons a rest ih =>
      obtain ⟨below, hrest, ha⟩ := h
      rw [List.forall_mem_cons] at hstep
      exact hstep.1 below s ha (ih hrest hstep.2)

/-- If the rank grows with every active activation, it bounds their number. -/
theorem countP_le {rank : σ → Nat} {active : α → Bool} (h : Stacked atop base stack s)
    (hstep : ∀ a below s, atop a below s →
      rank below ≤ rank s ∧ (active a = true → rank below < rank s)) :
    stack.countP active + rank base ≤ rank s := by
  induction stack generalizing s with
  | nil =>
      cases h
      simp
  | cons a rest ih =>
      obtain ⟨below, hrest, ha⟩ := h
      have hbelow := ih hrest
      obtain ⟨hle, hlt⟩ := hstep a below s ha
      rw [List.countP_cons]
      split
      · next hactive =>
          have hrank := hlt hactive
          omega
      · omega

end Stacked

end Caos.Lib
