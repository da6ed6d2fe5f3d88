import Mathlib.Logic.Function.Basic
import Mathlib.Tactic

/-!
Counted loops over a state and the tables they fill. `forUpTo` is
`for (i = 0; i < n; i++)`, `forDownFrom` is `while (n--)`.
-/

namespace Caos.Lib

variable {σ α : Type*}

/-- `for (i = 0; i < n; i++) body i`. -/
def forUpTo (body : Nat → σ → σ) : Nat → σ → σ
  | 0, s => s
  | n + 1, s => body n (forUpTo body n s)

/-- `while (n--) body n`. -/
def forDownFrom (body : Nat → σ → σ) : Nat → σ → σ
  | 0, s => s
  | n + 1, s => forDownFrom body n (body n s)

/-- `for (l = first; l < last; l++) body l`. -/
def forRange (body : Nat → σ → σ) (first last : Nat) (s : σ) : σ :=
  forUpTo (fun i => body (first + i)) (last - first) s

theorem forRange_single (body : Nat → σ → σ) (i : Nat) (s : σ) :
    forRange body i (i + 1) s = body i s := by
  simp only [forRange, Nat.add_sub_cancel_left, forUpTo, Nat.add_zero]

/-- The rule of the ascending loop: `I i` holds before iteration `i`. -/
theorem forUpTo_invariant {body : Nat → σ → σ} {I : Nat → σ → Prop} {n : Nat} {s : σ}
    (h0 : I 0 s) (hstep : ∀ i s, i < n → I i s → I (i + 1) (body i s)) :
    I n (forUpTo body n s) := by
  induction n with
  | zero => exact h0
  | succ n ih =>
      have hprev := ih (fun i s hi h => hstep i s (by omega) h)
      exact hstep n _ (by omega) hprev

/-- The rule of the descending loop: `I i` holds once iteration `i` is done. -/
theorem forDownFrom_invariant {body : Nat → σ → σ} {I : Nat → σ → Prop} {n : Nat} {s : σ}
    (h0 : I n s) (hstep : ∀ i s, i < n → I (i + 1) s → I i (body i s)) :
    I 0 (forDownFrom body n s) := by
  induction n generalizing s with
  | zero => exact h0
  | succ n ih =>
      exact ih (hstep n s (by omega) h0) (fun i s hi h => hstep i s (by omega) h)

/-- Replace the entry at `i` by its image under `f`. -/
def modifyAt (table : Nat → α) (i : Nat) (f : α → α) : Nat → α :=
  Function.update table i (f (table i))

@[simp] theorem modifyAt_same (table : Nat → α) (i : Nat) (f : α → α) :
    modifyAt table i f i = f (table i) := by
  simp [modifyAt]

theorem modifyAt_of_ne {table : Nat → α} {i j : Nat} (f : α → α) (h : j ≠ i) :
    modifyAt table i f j = table j := by
  simp [modifyAt, h]

/-- An ascending loop of stores to `first`, `first + 1`, … changes exactly the
entries of that range, each once. -/
theorem forUpTo_modifyAt (first : Nat) (f : Nat → α → α) (n : Nat)
    (table : Nat → α) (j : Nat) :
    forUpTo (fun i t => modifyAt t (first + i) (f i)) n table j =
      if first ≤ j ∧ j < first + n then f (j - first) (table j) else table j := by
  induction n with
  | zero => simp [forUpTo]
  | succ n ih =>
      simp only [forUpTo]
      by_cases hj : j = first + n
      · subst hj
        have hout : ¬(first ≤ first + n ∧ first + n < first + n) := by omega
        have hin : first ≤ first + n ∧ first + n < first + (n + 1) := by omega
        rw [modifyAt_same, ih, if_neg hout, if_pos hin, Nat.add_sub_cancel_left]
      · rw [modifyAt_of_ne _ hj, ih]
        have hiff : (first ≤ j ∧ j < first + (n + 1)) ↔ (first ≤ j ∧ j < first + n) := by
          omega
        simp only [hiff]

/-- The same for a loop that starts at `first`, of stores to `base + first`, …. -/
theorem forRange_modifyAt (base : Nat) (f : Nat → α → α) (first last : Nat)
    (table : Nat → α) (j : Nat) :
    forRange (fun l t => modifyAt t (base + l) (f l)) first last table j =
      if base + first ≤ j ∧ j < base + last then f (j - base) (table j) else table j := by
  have hloop := forUpTo_modifyAt (base + first) (fun i => f (first + i)) (last - first) table j
  simp only [Nat.add_assoc base] at hloop
  unfold forRange
  rw [hloop]
  by_cases hj : base + first ≤ j ∧ j < base + last
  · have hlen : base + first ≤ j ∧ j < base + (first + (last - first)) := by omega
    have hindex : first + (j - (base + first)) = j - base := by omega
    rw [if_pos hj, if_pos hlen, hindex]
  · have hlen : ¬ (base + first ≤ j ∧ j < base + (first + (last - first))) := by omega
    rw [if_neg hj, if_neg hlen]

end Caos.Lib
