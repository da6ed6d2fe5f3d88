import Mathlib.Logic.Function.Basic
import Mathlib.Tactic

/-!
Circular doubly linked lists given by two successor functions. `Linked a l b`
is an open segment from `a` through `l` to `b`; a ring is a segment that comes
back to its head.
-/

namespace Caos.Lib

variable {ι : Type*} {next prev next' prev' : ι → ι} {a b head x new : ι} {l m : List ι}

/-- `next` leads from `a` through `l` to `b`, and `prev` leads back. -/
def Linked (next prev : ι → ι) : ι → List ι → ι → Prop
  | a, [], b => next a = b ∧ prev b = a
  | a, x :: l, b => next a = x ∧ prev x = a ∧ Linked next prev x l b

theorem linked_append :
    Linked next prev a (l ++ x :: m) b ↔
      Linked next prev a l x ∧ Linked next prev x m b := by
  induction l generalizing a with
  | nil => simp only [List.nil_append, Linked, and_assoc]
  | cons y rest ih => simp only [List.cons_append, Linked, ih, and_assoc]

theorem Linked.frame (h : Linked next prev a l b)
    (hnext : ∀ y ∈ a :: l, next' y = next y)
    (hprev : ∀ y ∈ l ++ [b], prev' y = prev y) : Linked next' prev' a l b := by
  induction l generalizing a with
  | nil =>
      exact ⟨(hnext a (by simp)).trans h.1, (hprev b (by simp)).trans h.2⟩
  | cons y rest ih =>
      obtain ⟨hay, hya, hrest⟩ := h
      refine ⟨(hnext a (by simp)).trans hay, (hprev y (by simp)).trans hya, ?_⟩
      apply ih hrest
      · exact fun z hz => hnext z (by simp only [List.mem_cons] at hz ⊢; exact .inr hz)
      · exact fun z hz => hprev z (by simp at hz ⊢; exact .inr hz)

theorem Linked.reverse (h : Linked next prev a l b) : Linked prev next b l.reverse a := by
  induction l generalizing a with
  | nil => exact ⟨h.2, h.1⟩
  | cons x rest ih =>
      obtain ⟨hnext, hprev, hrest⟩ := h
      rw [List.reverse_cons, linked_append]
      exact ⟨ih hrest, hprev, hnext⟩

theorem Linked.next_mem (h : Linked next prev a l b) : next a ∈ l ++ [b] := by
  cases l with
  | nil => simp [h.1]
  | cons x rest => simp [h.1]

theorem Linked.prev_mem (h : Linked next prev a l b) : prev b ∈ a :: l := by
  simpa [or_comm] using h.reverse.next_mem

/-- A segment through consecutive numbers, node by node. -/
theorem Linked.range' {next prev : Nat → Nat} {a n b : Nat}
    (h : Linked next prev a (List.range' (a + 1) n) b) :
    (∀ i, a ≤ i → i < a + n → next i = i + 1 ∧ prev (i + 1) = i) ∧
      next (a + n) = b ∧ prev b = a + n := by
  induction n generalizing a with
  | zero => exact ⟨fun i hlo hhi => absurd hhi (by omega), h⟩
  | succ n ih =>
      rw [List.range'_succ] at h
      obtain ⟨hnext, hprev, hrest⟩ := h
      obtain ⟨hinner, hlast⟩ := ih hrest
      rw [Nat.add_right_comm] at hlast
      constructor
      · intro i hlo hhi
        rcases Nat.eq_or_lt_of_le hlo with rfl | hlt
        · exact ⟨hnext, hprev⟩
        · exact hinner i hlt (by omega)
      · exact hlast

/-- The ring with this head whose other nodes are `l`, in `next` order. -/
structure Ring (next prev : ι → ι) (head : ι) (l : List ι) : Prop where
  linked : Linked next prev head l head
  nodup : (head :: l).Nodup

theorem Ring.empty (hnext : next head = head) (hprev : prev head = head) :
    Ring next prev head [] :=
  ⟨⟨hnext, hprev⟩, by simp⟩

/-- The same ring, gone round in the other direction. -/
theorem Ring.reverse (h : Ring next prev head l) : Ring prev next head l.reverse := by
  refine ⟨h.linked.reverse, ?_⟩
  have hnodup := h.nodup
  rw [List.nodup_cons] at hnodup ⊢
  exact ⟨by simpa using hnodup.1, List.nodup_reverse.mpr hnodup.2⟩

/-- Stores to other nodes keep a ring. -/
theorem Ring.frame (h : Ring next prev head l) (hnext : ∀ y ∈ head :: l, next' y = next y)
    (hprev : ∀ y ∈ head :: l, prev' y = prev y) : Ring next' prev' head l := by
  refine ⟨h.linked.frame hnext ?_, h.nodup⟩
  intro y hy
  apply hprev
  simpa [or_comm] using hy

/-- Splicing a new node in between the last node and the head. -/
theorem Ring.snoc [DecidableEq ι] (h : Ring next prev head l) (hnew : new ∉ head :: l) :
    Ring (Function.update (Function.update next new head) (prev head) new)
      (Function.update (Function.update prev head new) new (prev head)) head (l ++ [new]) := by
  have hne : new ≠ head := fun heq => hnew (by simp [heq])
  have hnodup : (head :: (l ++ [new])).Nodup := by
    rw [← List.cons_append]
    exact List.nodup_append.mpr ⟨h.nodup, by simp, by
      intro y hy z hz heq
      rw [List.mem_singleton] at hz
      exact hnew (hz ▸ heq ▸ hy)⟩
  refine ⟨?_, hnodup⟩
  rcases List.eq_nil_or_concat l with rfl | ⟨front, p, rfl⟩
  · obtain ⟨hn, hp⟩ := h.linked
    simp [Linked, hp, hne, hne.symm]
  · have hsplit := h.linked
    rw [List.concat_eq_append] at hsplit hnew hnodup ⊢
    rw [linked_append] at hsplit
    obtain ⟨hfront, hpn, hhp⟩ := hsplit
    rw [List.append_assoc, List.singleton_append, linked_append, hhp]
    have hpnew : p ≠ new := by
      rintro rfl
      exact hnew (by simp)
    have hphead : p ≠ head := by
      rintro rfl
      exact absurd hnodup (by simp)
    constructor
    · refine hfront.frame ?_ ?_
      · intro y hy
        have hyp : y ≠ p := by
          rintro rfl
          have hdup : ¬ (head :: front ++ [y]).Nodup := by
            simp only [List.nodup_append, not_and]
            intro _ _ hdisj
            exact hdisj y hy y (by simp) rfl
          exact hdup (h.nodup.sublist (by simp))
        have hynew : y ≠ new := by
          rintro rfl
          exact hnew (by simp only [List.mem_cons, List.mem_append] at hy ⊢; tauto)
        rw [Function.update_of_ne hyp, Function.update_of_ne hynew]
      · intro y hy
        have hynew : y ≠ new := by
          rintro rfl
          exact hnew (List.mem_cons_of_mem _ hy)
        have hyhead : y ≠ head := by
          rintro rfl
          exact (List.nodup_cons.mp h.nodup).1 (by simpa using hy)
        rw [Function.update_of_ne hynew, Function.update_of_ne hyhead]
    · simp [Linked, hpnew.symm, hne.symm]

/-- Splicing a new node in between the head and the first node. -/
theorem Ring.cons [DecidableEq ι] (h : Ring next prev head l) (hnew : new ∉ head :: l) :
    Ring (Function.update (Function.update next head new) new (next head))
      (Function.update (Function.update prev new head) (next head) new) head (new :: l) := by
  have hnew' : new ∉ head :: l.reverse := by simpa using hnew
  simpa using (h.reverse.snoc hnew').reverse

/-- The neighbours of a node that are made to point to each other. -/
theorem Linked.bypass [DecidableEq ι] {front back : List ι}
    (hfront : Linked next prev a front x) (hback : Linked next prev x back b)
    (hnodup : (a :: (front ++ x :: back)).Nodup) (hend : b ∉ front ++ x :: back) :
    Linked (Function.update next (prev x) (next x)) (Function.update prev (next x) (prev x))
      a (front ++ back) b := by
  induction front generalizing a with
  | nil =>
      obtain ⟨-, hprev⟩ := hfront
      rw [hprev]
      cases back with
      | nil => simp [Linked, hback.1]
      | cons n back =>
          obtain ⟨hnext, -, hrest⟩ := hback
          rw [hnext]
          refine ⟨by simp, by simp, hrest.frame ?_ ?_⟩
          · intro y hy
            apply Function.update_of_ne
            rintro rfl
            simp_all
          · intro y hy
            apply Function.update_of_ne
            rintro rfl
            simp_all
  | cons y rest ih =>
      obtain ⟨hnext, hprev, hrest⟩ := hfront
      have hlast : prev x ∈ y :: rest := hrest.prev_mem
      have hfirst : next x ∈ back ++ [b] := hback.next_mem
      have hne : a ≠ prev x := by
        rintro rfl
        simp_all
      have hne' : y ≠ next x := by
        intro heq
        rw [← heq] at hfirst
        simp_all
      refine ⟨?_, ?_, ih hrest (List.nodup_cons.mp hnodup).2 ?_⟩
      · rw [Function.update_of_ne hne, hnext]
      · rw [Function.update_of_ne hne', hprev]
      · intro hmem
        exact hend (List.mem_cons_of_mem _ hmem)

/-- Taking a node out. -/
theorem Ring.bypass [DecidableEq ι] {front back : List ι}
    (h : Ring next prev head (front ++ x :: back)) :
    Ring (Function.update next (prev x) (next x)) (Function.update prev (next x) (prev x))
      head (front ++ back) := by
  obtain ⟨hfront, hback⟩ := linked_append.mp h.linked
  refine ⟨hfront.bypass hback h.nodup (List.nodup_cons.mp h.nodup).1, h.nodup.sublist ?_⟩
  simp

end Caos.Lib
