import Mathlib.Tactic

/-!
Windows of consecutive positions that all satisfy a predicate, and the search
for the first one. A scan that meets a blocked position may restart behind it:
every window that starts at or before the blocked position and reaches it is
blocked as well.
-/

namespace Caos.Lib

variable {free free' : Nat → Prop} {first length position : Nat}

/-- The `length` positions from `first` on are all free. -/
def Window (free : Nat → Prop) (first length : Nat) : Prop :=
  ∀ j, j < length → free (first + j)

/-- No window of this length starts before `bound`. -/
def NoWindowBefore (free : Nat → Prop) (length bound : Nat) : Prop :=
  ∀ g, g < bound → ¬ Window free g length

theorem Window.free_of_mem (hw : Window free first length)
    (hlo : first ≤ position) (hhi : position < first + length) : free position := by
  have h := hw (position - first) (by omega)
  rwa [Nat.add_sub_cancel' hlo] at h

theorem Window.succ (hw : Window free first length) (h : free (first + length)) :
    Window free first (length + 1) := by
  intro j hj
  by_cases hlast : j = length
  · exact hlast ▸ h
  · exact hw j (by omega)

theorem not_window_of_blocked (hblocked : ¬ free position)
    (hlo : first ≤ position) (hhi : position < first + length) :
    ¬ Window free first length :=
  fun hw => hblocked (hw.free_of_mem hlo hhi)

theorem noWindowBefore_zero (free : Nat → Prop) (length : Nat) :
    NoWindowBefore free length 0 := by
  intro g hg
  omega

/-- The restart rule. The scan stood at `first` and met the blocked position;
no window starts at or before it. -/
theorem NoWindowBefore.skip (h : NoWindowBefore free length first)
    (hblocked : ¬ free position) (hhi : position < first + length) :
    NoWindowBefore free length (position + 1) := by
  intro g hg
  by_cases hlt : g < first
  · exact h g hlt
  · exact not_window_of_blocked hblocked (by omega) (by omega)

end Caos.Lib
