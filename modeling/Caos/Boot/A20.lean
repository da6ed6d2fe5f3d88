import Caos.Lib.Iteration

/-!
`a20.inc`: the A20 gate is asked for in three ways, each with tests behind it, up to 255 times
over. The gate is outside of the machine: nothing is assumed about when it opens.
-/

namespace Caos

open Lib

/-- `A20_TEST_LOOPS`. -/
def a20TestLoops : Nat := 32

/-- `A20_ENABLE_LOOPS`. -/
def a20EnableLoops : Nat := 255

/-- The word at `A20_TEST_ADDR`, the word one megabyte above it, and the number of comparisons
made so far. -/
structure A20Memory where
  low : BitVec 16
  high : BitVec 16
  comparisons : Nat
  deriving DecidableEq, Repr

section Test

-- for each comparison, whether the gate is open
variable (gate : Nat → Bool)

/-- The loop `a20_test_wait`, with `cx` iterations left and the zero flag of the last
comparison. Behind the closed gate the upper address is the lower one. -/
def a20TestWait : Nat → BitVec 16 → Bool → A20Memory → Bool × A20Memory
  | 0, _, zf, m => (zf, m)
  | cx + 1, ax, _, m =>
    let ax := ax + 1
    let m := { m with low := ax }
    let word := if gate m.comparisons then m.high else m.low
    a20TestWait cx ax (ax == word) { m with comparisons := m.comparisons + 1 }

/-- `a20_test`: the zero flag, and the memory with the lower word restored. -/
def a20Test (m : A20Memory) : Bool × A20Memory :=
  let (zf, m') := a20TestWait gate a20TestLoops m.low false m
  (zf, { m' with low := m.low })

/-- The calls of `a20_test`. The loops behind the keyboard controller and behind port A
count in `cx`. -/
inductive A20Label where
  | none
  | bios
  | kbc
  | kbcWait (cx : Nat)
  | fastWait (cx : Nat)
  | die
  deriving DecidableEq, Repr

structure A20State where
  label : A20Label
  tries : Nat
  memory : A20Memory
  deriving DecidableEq, Repr

/-- `loop`: the new value of `cx`. -/
def loopCx (cx : Nat) : Nat := (cx + 0xFFFF) % 2 ^ 16

/-- Where the code goes on from a failed test, and what is left in `a20_tries`. -/
def a20Next : A20Label → Nat → A20Label × Nat
  | .none, tries => (.bios, tries)
  | .bios, tries => (.kbc, tries)
  | .kbc, tries => (.kbcWait 0, tries)
  | .kbcWait cx, tries => (if loopCx cx ≠ 0 then .kbcWait (loopCx cx) else .fastWait 0, tries)
  | .fastWait cx, tries =>
    if loopCx cx ≠ 0 then (.fastWait (loopCx cx), tries)
    else
      let tries := (tries + 0xFF) % 2 ^ 8
      (if tries ≠ 0 then .none else .die, tries)
  | .die, tries => (.die, tries)

/-- From one test to the next. The result tells whether the code returns, or stays in
`a20_die`. -/
def a20Step (s : A20State) : A20State ⊕ (Bool × A20Memory) :=
  match s.label with
  | .die => .inr (false, s.memory)
  | label =>
    let (zf, memory) := a20Test gate s.memory
    if zf then
      let (label, tries) := a20Next label s.tries
      .inl ⟨label, tries, memory⟩
    else .inr (true, memory)

/-- `a20_try_loop` for the first time. -/
def a20Start (low high : BitVec 16) : A20State :=
  ⟨.none, a20EnableLoops, ⟨low, high, 0⟩⟩

/-- The loop counts all its iterations, so only the last comparison is seen. -/
theorem a20TestWait_eq (cx : Nat) (ax : BitVec 16) (zf : Bool) (m : A20Memory) :
    a20TestWait gate (cx + 1) ax zf m =
      (!gate (m.comparisons + cx) || ax + BitVec.ofNat 16 (cx + 1) == m.high,
        ⟨ax + BitVec.ofNat 16 (cx + 1), m.high, m.comparisons + (cx + 1)⟩) := by
  induction cx generalizing ax zf m with
  | zero =>
      cases hgate : gate m.comparisons <;> simp [a20TestWait, hgate]
  | succ cx ih =>
      have hax : ax + 1 + BitVec.ofNat 16 (cx + 1) = ax + BitVec.ofNat 16 (cx + 1 + 1) := by
        rw [BitVec.add_assoc, BitVec.add_comm 1]
        simp [BitVec.ofNat_add]
      have hcount : m.comparisons + 1 + cx = m.comparisons + (cx + 1) := by omega
      have hcount' : m.comparisons + 1 + (cx + 1) = m.comparisons + (cx + 1 + 1) := by omega
      rw [a20TestWait]
      simp only [ih, hax, hcount, hcount']

/-- The gate was open when it was looked at last, and the upper word showed it. -/
def Seen (low high : BitVec 16) (k : Nat) : Prop :=
  gate (a20TestLoops * k + 31) = true ∧ high ≠ low + 32

instance (low high : BitVec 16) : DecidablePred (Seen gate low high) :=
  fun k => inferInstanceAs (Decidable (gate (a20TestLoops * k + 31) = true ∧ high ≠ low + 32))

/-- The memory behind `k` tests. -/
def a20MemoryAt (low high : BitVec 16) (k : Nat) : A20Memory := ⟨low, high, a20TestLoops * k⟩

theorem a20Test_eq (low high : BitVec 16) (k : Nat) :
    a20Test gate (a20MemoryAt low high k) =
      (!decide (Seen gate low high k), a20MemoryAt low high (k + 1)) := by
  have hwait : a20TestWait gate 32 low false ⟨low, high, 32 * k⟩ =
      (!gate (32 * k + 31) || low + 32 == high, ⟨low + 32, high, 32 * k + 32⟩) :=
    a20TestWait_eq gate 31 low false ⟨low, high, 32 * k⟩
  have hflag : (!gate (32 * k + 31) || low + 32 == high) = !decide (Seen gate low high k) := by
    rcases eq_or_ne high (low + 32) with rfl | hne
    · simp [Seen]
    · have hbeq : (low + 32 == high) = false := beq_eq_false_iff_ne.mpr hne.symm
      simp only [Seen, a20TestLoops, hbeq, Bool.or_false, hne, ne_eq, not_false_eq_true,
        and_true, Bool.decide_eq_true]
  simp only [a20Test, a20MemoryAt, a20TestLoops, hwait, hflag, Nat.mul_succ]

end Test

/-! ## The tries -/

/-- The tests of one try: three, and two rounds of `loop` with `cx` = 0. -/
def testsPerTry : Nat := 3 + 2 ^ 16 + 2 ^ 16

/-- The tests of all tries. -/
def a20Tests : Nat := a20EnableLoops * testsPerTry

/-- The place of a test in its try. -/
def a20LabelAt (r : Nat) : A20Label :=
  if r = 0 then .none
  else if r = 1 then .bios
  else if r = 2 then .kbc
  else if r < 3 + 2 ^ 16 then .kbcWait ((2 ^ 16 - (r - 3)) % 2 ^ 16)
  else .fastWait ((2 ^ 16 - (r - (3 + 2 ^ 16))) % 2 ^ 16)

/-- The state behind `k` tests that have failed. -/
def a20At (low high : BitVec 16) (k : Nat) : A20State :=
  if k < a20Tests then
    ⟨a20LabelAt (k % testsPerTry), a20EnableLoops - k / testsPerTry, a20MemoryAt low high k⟩
  else ⟨.die, 0, a20MemoryAt low high k⟩

theorem a20LabelAt_kbcWait {r : Nat} (hlo : 3 ≤ r) (hhi : r < 3 + 2 ^ 16) :
    a20LabelAt r = .kbcWait ((2 ^ 16 - (r - 3)) % 2 ^ 16) := by
  rw [a20LabelAt, if_neg (by omega), if_neg (by omega), if_neg (by omega), if_pos hhi]

theorem a20LabelAt_fastWait {r : Nat} (hlo : 3 + 2 ^ 16 ≤ r) :
    a20LabelAt r = .fastWait ((2 ^ 16 - (r - (3 + 2 ^ 16))) % 2 ^ 16) := by
  rw [a20LabelAt, if_neg (by omega), if_neg (by omega), if_neg (by omega), if_neg (by omega)]

/-- The tests inside a try, in their order. -/
theorem a20Next_labelAt {r tries : Nat} (hr : r + 1 < testsPerTry) :
    a20Next (a20LabelAt r) tries = (a20LabelAt (r + 1), tries) := by
  unfold testsPerTry at hr
  rcases Nat.lt_or_ge r 3 with hlow | hge
  · interval_cases r <;> rfl
  rcases Nat.lt_or_ge r (3 + 2 ^ 16) with hkbc | hfast
  · have hcx : loopCx ((2 ^ 16 - (r - 3)) % 2 ^ 16) = 2 ^ 16 - (r + 1 - 3) := by
      unfold loopCx
      omega
    rw [a20LabelAt_kbcWait hge hkbc, a20Next, hcx]
    rcases Nat.lt_or_ge (r + 1) (3 + 2 ^ 16) with hnext | hlast
    · have hmod : (2 ^ 16 - (r + 1 - 3)) % 2 ^ 16 = 2 ^ 16 - (r + 1 - 3) :=
        Nat.mod_eq_of_lt (by omega)
      rw [a20LabelAt_kbcWait (by omega) hnext, if_pos (by omega), hmod]
    · have hmod : (2 ^ 16 - (r + 1 - (3 + 2 ^ 16))) % 2 ^ 16 = 0 := by omega
      rw [a20LabelAt_fastWait hlast, if_neg (by omega), hmod]
  · have hcx : loopCx ((2 ^ 16 - (r - (3 + 2 ^ 16))) % 2 ^ 16) =
        2 ^ 16 - (r + 1 - (3 + 2 ^ 16)) := by
      unfold loopCx
      omega
    have hmod : (2 ^ 16 - (r + 1 - (3 + 2 ^ 16))) % 2 ^ 16 =
        2 ^ 16 - (r + 1 - (3 + 2 ^ 16)) := Nat.mod_eq_of_lt (by omega)
    rw [a20LabelAt_fastWait hfast, a20LabelAt_fastWait (by omega), a20Next, hcx,
      if_pos (by omega), hmod]

/-- From the last test of a try to the first one of the next. -/
theorem a20Next_last (tries : Nat) :
    a20Next (a20LabelAt (testsPerTry - 1)) tries =
      (if (tries + 0xFF) % 2 ^ 8 ≠ 0 then .none else .die, (tries + 0xFF) % 2 ^ 8) := by
  have hlabel : a20LabelAt (testsPerTry - 1) = .fastWait 1 := by
    rw [a20LabelAt_fastWait (by norm_num [testsPerTry])]
    norm_num [testsPerTry]
  rw [hlabel]
  rfl

theorem testsPerTry_eq : testsPerTry = 131075 := rfl

section Run

variable {gate : Nat → Bool} {low high : BitVec 16}

theorem a20At_of_lt {k : Nat} (hk : k < a20Tests) :
    a20At low high k = ⟨a20LabelAt (k % testsPerTry), a20EnableLoops - k / testsPerTry,
      a20MemoryAt low high k⟩ := if_pos hk

/-- The failed test `k` leads to the state behind `k + 1` of them. -/
theorem a20Next_at {k : Nat} (hk : k < a20Tests) :
    a20Next (a20LabelAt (k % testsPerTry)) (a20EnableLoops - k / testsPerTry) =
      ((a20At low high (k + 1)).label, (a20At low high (k + 1)).tries) := by
  have hsize := testsPerTry_eq
  simp only [a20Tests, a20EnableLoops] at hk ⊢
  rcases Nat.lt_or_ge (k % testsPerTry + 1) testsPerTry with hinside | hlast
  · have hmod : (k + 1) % testsPerTry = k % testsPerTry + 1 := by
      rw [hsize] at hinside ⊢
      omega
    have hdiv : (k + 1) / testsPerTry = k / testsPerTry := by
      rw [hsize] at hinside ⊢
      omega
    have hlt : k + 1 < a20Tests := by
      simp only [a20Tests, a20EnableLoops, hsize] at hk hinside ⊢
      omega
    rw [a20Next_labelAt hinside, a20At_of_lt hlt, hmod, hdiv]
    rfl
  · have hend : k % testsPerTry = testsPerTry - 1 := by
      rw [hsize] at hlast ⊢
      omega
    have hmod : (k + 1) % testsPerTry = 0 := by
      rw [hsize] at hend ⊢
      omega
    have hdiv : (k + 1) / testsPerTry = k / testsPerTry + 1 := by
      rw [hsize] at hend ⊢
      omega
    have htry : k / testsPerTry < 255 := by
      rw [hsize] at hk ⊢
      omega
    have htries : ∀ t < 255, (255 - t + 0xFF) % 2 ^ 8 = 255 - (t + 1) := by
      intro t ht
      omega
    rw [hend, a20Next_last, htries _ htry]
    rcases Nat.lt_or_ge (k + 1) a20Tests with hlt | hge
    · have hmore : 255 - (k / testsPerTry + 1) ≠ 0 := by
        simp only [a20Tests, a20EnableLoops, hsize] at hlt hend ⊢
        omega
      rw [if_pos hmore, a20At_of_lt hlt, hmod, hdiv]
      rfl
    · have hnone : 255 - (k / testsPerTry + 1) = 0 := by
        simp only [a20Tests, a20EnableLoops, hsize] at hge hend hk ⊢
        omega
      rw [hnone, a20At, if_neg (Nat.not_lt.mpr hge)]
      rfl

/-- A test returns if it has seen the gate open, and goes on to the next one otherwise. -/
theorem a20Step_at {k : Nat} (hk : k < a20Tests) :
    a20Step gate (a20At low high k) =
      if decide (Seen gate low high k) then .inr (true, a20MemoryAt low high (k + 1))
      else .inl (a20At low high (k + 1)) := by
  have hmemory : (a20At low high (k + 1)).memory = a20MemoryAt low high (k + 1) := by
    unfold a20At
    split_ifs <;> rfl
  have hlive : a20LabelAt (k % testsPerTry) ≠ .die := by
    unfold a20LabelAt
    split_ifs <;> simp
  have hstate : a20At low high (k + 1) =
      ⟨(a20At low high (k + 1)).label, (a20At low high (k + 1)).tries,
        a20MemoryAt low high (k + 1)⟩ := by rw [← hmemory]
  rw [a20At_of_lt hk, a20Step, hstate]
  split
  · next hdie => exact absurd hdie hlive
  · rw [a20Test_eq, @a20Next_at low high k hk]
    by_cases hseen : Seen gate low high k <;> simp [hseen]

theorem a20Start_eq : a20Start low high = a20At low high 0 := rfl

/-- All tests, up to the first one that sees the gate open. -/
theorem a20_run : iterate (a20Step gate) (a20Tests + 1) (a20Start low high) =
    some (((List.range a20Tests).find? fun k => decide (Seen gate low high k)).elim
      (false, a20MemoryAt low high a20Tests) fun k => (true, a20MemoryAt low high (k + 1))) := by
  have hend : a20Step gate (a20At low high a20Tests) =
      .inr (false, a20MemoryAt low high a20Tests) := by
    rw [a20At, if_neg (Nat.lt_irrefl _)]
    rfl
  rw [a20Start_eq]
  exact iterate_search (fun k hk => a20Step_at hk) hend

end Run

/-- What the code behind `a20_try_loop` does. It always comes to an end, leaves the two words
as they were, and returns if and only if the gate is open at the last comparison of some test
while the upper word differs from the lower one by anything but 32. -/
structure A20Decided (gate : Nat → Bool) (low high : BitVec 16) : Prop where
  ends : Ends (a20Step gate) (a20Start low high)
  restores : ∀ fuel returned m, iterate (a20Step gate) fuel (a20Start low high) =
    some (returned, m) → m.low = low ∧ m.high = high
  returns_iff : (∃ fuel m, iterate (a20Step gate) fuel (a20Start low high) = some (true, m)) ↔
    ∃ k < a20Tests, gate (a20TestLoops * k + 31) = true ∧ high ≠ low + 32

/-- For every behaviour of the gate and every contents of the two words. -/
theorem a20_decided (gate : Nat → Bool) (low high : BitVec 16) : A20Decided gate low high := by
  have hrun := @a20_run gate low high
  constructor
  · exact ⟨_, _, hrun⟩
  · intro fuel returned m hend
    have hsame := iterate_unique hrun hend
    cases hfind : (List.range a20Tests).find? fun k => decide (Seen gate low high k) with
    | none =>
        rw [hfind] at hsame
        cases hsame
        exact ⟨rfl, rfl⟩
    | some k =>
        rw [hfind] at hsame
        cases hsame
        exact ⟨rfl, rfl⟩
  · constructor
    · rintro ⟨fuel, m, hend⟩
      have hsame := iterate_unique hrun hend
      cases hfind : (List.range a20Tests).find? fun k => decide (Seen gate low high k) with
      | none =>
          rw [hfind] at hsame
          cases hsame
      | some k =>
          have hseen := List.find?_some hfind
          have hk := List.mem_of_find?_eq_some hfind
          exact ⟨k, List.mem_range.mp hk, of_decide_eq_true hseen⟩
    · rintro ⟨k, hk, hseen⟩
      cases hfind : (List.range a20Tests).find? fun k => decide (Seen gate low high k) with
      | none =>
          rw [List.find?_range_eq_none] at hfind
          have hnot := hfind k hk
          simp only [Bool.not_eq_true', decide_eq_false_iff_not] at hnot
          exact absurd hseen hnot
      | some j =>
          rw [hfind] at hrun
          exact ⟨_, _, hrun⟩

end Caos
