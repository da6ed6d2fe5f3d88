import Caos.Lib.CountedLoop
import Caos.Lib.Iteration
import Caos.Lib.Ring

/-!
`list.h`: the intrusive doubly linked list. A store of nodes maps each node to
its two pointers; the operations below are the stores the inline functions make,
in their order.
-/

namespace Caos

open Lib

variable {ι : Type*}

/-- `struct list_head`. -/
structure ListHead (ι : Type*) where
  next : ι
  prev : ι
  deriving DecidableEq, Repr

variable [DecidableEq ι]

/-- `INIT_LIST_HEAD`. -/
def initListHead (nodes : ι → ListHead ι) (list : ι) : ι → ListHead ι :=
  Function.update nodes list ⟨list, list⟩

/-- `__list_add`. -/
def listAddCore (nodes : ι → ListHead ι) (new prev next : ι) : ι → ListHead ι :=
  let nodes := Function.update nodes next { nodes next with prev := new }
  let nodes := Function.update nodes new { nodes new with next := next }
  let nodes := Function.update nodes new { nodes new with prev := prev }
  Function.update nodes prev { nodes prev with next := new }

/-- `list_add_tail`. -/
def listAddTail (nodes : ι → ListHead ι) (new head : ι) : ι → ListHead ι :=
  listAddCore nodes new (nodes head).prev head

/-- `list_add`. -/
def listAdd (nodes : ι → ListHead ι) (new head : ι) : ι → ListHead ι :=
  listAddCore nodes new head (nodes head).next

/-- `__list_del`. -/
def listDelCore (nodes : ι → ListHead ι) (prev next : ι) : ι → ListHead ι :=
  let nodes := Function.update nodes next { nodes next with prev := prev }
  Function.update nodes prev { nodes prev with next := next }

/-- `list_del`, with the values of `LIST_POISON1` and `LIST_POISON2`. -/
def listDel (poison1 poison2 : ι) (nodes : ι → ListHead ι) (entry : ι) : ι → ListHead ι :=
  let nodes := listDelCore nodes (nodes entry).prev (nodes entry).next
  let nodes := Function.update nodes entry { nodes entry with next := poison1 }
  Function.update nodes entry { nodes entry with prev := poison2 }

/-- One iteration of `list_for_each_entry` with the body `if (found pos) break;`. It leaves
with the loop variable, or with `none` from an entry that cannot be read. -/
def forEachEntryStep (nodes : ι → ListHead ι) (head : ι) (readable found : ι → Bool) (pos : ι) :
    ι ⊕ Option ι :=
  if !readable pos then .inr none
  else if pos = head then .inr (some pos)
  else if found pos then .inr (some pos)
  else .inl (nodes pos).next

/-- `list_for_each_entry` from the entry `pos` on: the entries its body is run for, in
order. `none` is a loop that is still running. -/
def listForEachEntry (nodes : ι → ListHead ι) (head : ι) : Nat → ι → Option (List ι)
  | 0, _ => none
  | fuel + 1, pos =>
    if pos = head then some []
    else (listForEachEntry nodes head fuel (nodes pos).next).map (pos :: ·)

/-- The nodes form a ring with this head and these other nodes. -/
def RingOf (nodes : ι → ListHead ι) (head : ι) (l : List ι) : Prop :=
  Ring (fun i => (nodes i).next) (fun i => (nodes i).prev) head l

theorem listAddTail_next (nodes : ι → ListHead ι) {new head : ι} (hne : new ≠ head) :
    (fun i => (listAddTail nodes new head i).next) =
      Function.update (Function.update (fun i => (nodes i).next) new head)
        (nodes head).prev new := by
  funext i
  simp only [listAddTail, listAddCore]
  generalize (nodes head).prev = last
  by_cases hi : i = last
  · subst hi
    simp
  · by_cases hnew : i = new
    · subst hnew
      simp [hi]
    · by_cases hhead : i = head
      · subst hhead
        simp [hi, hnew]
      · simp [hi, hnew, hhead]

theorem listAddTail_prev (nodes : ι → ListHead ι) {new head : ι} (hne : new ≠ head) :
    (fun i => (listAddTail nodes new head i).prev) =
      Function.update (Function.update (fun i => (nodes i).prev) head new)
        new (nodes head).prev := by
  funext i
  simp only [listAddTail, listAddCore]
  generalize (nodes head).prev = last
  by_cases hnew : i = new
  · subst hnew
    by_cases hlast : i = last
    · subst hlast
      simp
    · simp [hlast]
  · by_cases hlast : i = last
    · subst hlast
      by_cases hhead : i = head
      · subst hhead
        simp [hnew]
      · simp [hnew, hhead]
    · by_cases hhead : i = head
      · subst hhead
        simp [hnew, hlast]
      · simp [hnew, hlast, hhead]

/-- Appending a node that is not in the ring yet. -/
theorem RingOf.listAddTail {nodes : ι → ListHead ι} {head new : ι} {l : List ι}
    (h : RingOf nodes head l) (hnew : new ∉ head :: l) :
    RingOf (listAddTail nodes new head) head (l ++ [new]) := by
  have hne : new ≠ head := fun heq => hnew (by simp [heq])
  have hsnoc := Ring.snoc h hnew
  rw [RingOf, listAddTail_next nodes hne, listAddTail_prev nodes hne]
  exact hsnoc

/-- Appending the head of an empty ring to itself leaves the ring empty. -/
theorem RingOf.listAddTail_self {nodes : ι → ListHead ι} {head : ι}
    (h : RingOf nodes head []) : RingOf (Caos.listAddTail nodes head head) head [] := by
  obtain ⟨_, hprev⟩ := h.linked
  simp only at hprev
  apply Ring.empty <;>
    simp [Caos.listAddTail, listAddCore, hprev]

/-- From the head of a ring on, the loop runs its body once for every other node. -/
theorem RingOf.listForEachEntry {nodes : ι → ListHead ι} {head : ι} {l : List ι}
    (h : RingOf nodes head l) {fuel : Nat} (hfuel : l.length < fuel) :
    Caos.listForEachEntry nodes head fuel (nodes head).next = some l := by
  have hwalk : ∀ {a : ι} {l : List ι} {fuel : Nat}, l.length < fuel → head ∉ l →
      Linked (fun i => (nodes i).next) (fun i => (nodes i).prev) a l head →
      Caos.listForEachEntry nodes head fuel (nodes a).next = some l := by
    intro a l fuel hfuel hhead hl
    induction l generalizing a fuel with
    | nil =>
        obtain ⟨fuel, rfl⟩ := Nat.exists_eq_succ_of_ne_zero (Nat.ne_zero_of_lt hfuel)
        have hnext : (nodes a).next = head := hl.1
        rw [Caos.listForEachEntry, if_pos hnext]
    | cons x rest ih =>
        obtain ⟨fuel, rfl⟩ := Nat.exists_eq_succ_of_ne_zero (Nat.ne_zero_of_lt hfuel)
        rw [List.mem_cons, not_or] at hhead
        rw [List.length_cons] at hfuel
        have hnext : (nodes a).next = x := hl.1
        rw [hnext, Caos.listForEachEntry, if_neg (Ne.symm hhead.1),
          ih (by omega) hhead.2 hl.2.2, Option.map_some]
  exact hwalk hfuel (List.nodup_cons.mp h.nodup).1 h.linked

theorem initListHead_of_ne (nodes : ι → ListHead ι) {list i : ι} (hne : i ≠ list) :
    initListHead nodes list i = nodes i :=
  Function.update_of_ne hne _ _

theorem listAdd_next (nodes : ι → ListHead ι) {new head : ι} (hne : new ≠ head) :
    (fun i => (listAdd nodes new head i).next) =
      Function.update (Function.update (fun i => (nodes i).next) head new)
        new (nodes head).next := by
  funext i
  simp only [listAdd, listAddCore]
  generalize (nodes head).next = first
  rcases eq_or_ne i head with rfl | hhead
  · simp [hne.symm]
  rcases eq_or_ne i new with rfl | hnew
  · simp [hhead]
  rcases eq_or_ne i first with rfl | hfirst
  · simp [hhead, hnew]
  · simp [hhead, hnew, hfirst]

theorem listAdd_prev (nodes : ι → ListHead ι) {new head : ι} (hne : new ≠ head)
    (hfirst : (nodes head).next ≠ new) :
    (fun i => (listAdd nodes new head i).prev) =
      Function.update (Function.update (fun i => (nodes i).prev) new head)
        (nodes head).next new := by
  funext i
  simp only [listAdd, listAddCore]
  generalize (nodes head).next = first at hfirst ⊢
  rcases eq_or_ne i new with rfl | hnew
  · simp [hne, hfirst.symm]
  rcases eq_or_ne i first with rfl | hfirst
  · rcases eq_or_ne i head with rfl | hhead
    · simp [hnew]
    · simp [hnew, hhead]
  · rcases eq_or_ne i head with rfl | hhead
    · simp [hnew, hfirst]
    · simp [hnew, hfirst, hhead]

omit [DecidableEq ι] in
theorem RingOf.next_mem {nodes : ι → ListHead ι} {head : ι} {l : List ι}
    (h : RingOf nodes head l) : (nodes head).next ∈ head :: l := by
  simpa [or_comm] using h.linked.next_mem

omit [DecidableEq ι] in
theorem RingOf.prev_mem {nodes : ι → ListHead ι} {head : ι} {l : List ι}
    (h : RingOf nodes head l) : (nodes head).prev ∈ head :: l :=
  h.linked.prev_mem

omit [DecidableEq ι] in
/-- Stores to other nodes keep the ring. -/
theorem RingOf.frame {nodes nodes' : ι → ListHead ι} {head : ι} {l : List ι}
    (h : RingOf nodes head l) (hsame : ∀ y ∈ head :: l, nodes' y = nodes y) :
    RingOf nodes' head l :=
  Ring.frame h (fun y hy => congrArg ListHead.next (hsame y hy))
    (fun y hy => congrArg ListHead.prev (hsame y hy))

/-- A new node in front of the others. -/
theorem RingOf.listAdd {nodes : ι → ListHead ι} {head new : ι} {l : List ι}
    (h : RingOf nodes head l) (hnew : new ∉ head :: l) :
    RingOf (listAdd nodes new head) head (new :: l) := by
  have hne : new ≠ head := by
    rintro rfl
    simp at hnew
  have hfirst : (nodes head).next ≠ new := by
    intro heq
    exact hnew (heq ▸ h.next_mem)
  rw [RingOf, listAdd_next nodes hne, listAdd_prev nodes hne hfirst]
  exact h.cons hnew

/-- `list_add` stores to the new node, the head and the first node only. -/
theorem listAdd_frame (nodes : ι → ListHead ι) {new head i : ι} (hnew : i ≠ new)
    (hhead : i ≠ head) (hfirst : i ≠ (nodes head).next) :
    listAdd nodes new head i = nodes i := by
  simp [Caos.listAdd, listAddCore, hnew, hhead, hfirst]

/-- `list_del` stores to the entry and its neighbours only. -/
theorem listDel_frame (poison1 poison2 : ι) (nodes : ι → ListHead ι) {entry i : ι}
    (hentry : i ≠ entry) (hnext : i ≠ (nodes entry).next) (hprev : i ≠ (nodes entry).prev) :
    listDel poison1 poison2 nodes entry i = nodes i := by
  simp [listDel, listDelCore, hentry, hnext, hprev]

theorem listDel_next (poison1 poison2 : ι) (nodes : ι → ListHead ι) {entry i : ι}
    (hentry : i ≠ entry) :
    (listDel poison1 poison2 nodes entry i).next =
      Function.update (fun i => (nodes i).next) (nodes entry).prev (nodes entry).next i := by
  simp only [listDel, listDelCore]
  generalize (nodes entry).next = next
  generalize (nodes entry).prev = prev
  rcases eq_or_ne i prev with rfl | hprev
  · simp [hentry]
  rcases eq_or_ne i next with rfl | hnext
  · simp [hentry, hprev]
  · simp [hentry, hprev, hnext]

theorem listDel_prev (poison1 poison2 : ι) (nodes : ι → ListHead ι) {entry i : ι}
    (hentry : i ≠ entry) :
    (listDel poison1 poison2 nodes entry i).prev =
      Function.update (fun i => (nodes i).prev) (nodes entry).next (nodes entry).prev i := by
  simp only [listDel, listDelCore]
  generalize (nodes entry).next = next
  generalize (nodes entry).prev = prev
  rcases eq_or_ne i next with rfl | hnext
  · rcases eq_or_ne i prev with rfl | hprev
    · simp [hentry]
    · simp [hentry, hprev]
  rcases eq_or_ne i prev with rfl | hprev
  · simp [hentry, hnext]
  · simp [hentry, hnext, hprev]

/-- A node is taken out of the ring; the poison in it is not seen from there. -/
theorem RingOf.listDel {nodes : ι → ListHead ι} {head entry : ι} {front back : List ι}
    (h : RingOf nodes head (front ++ entry :: back)) (poison1 poison2 : ι) :
    RingOf (listDel poison1 poison2 nodes entry) head (front ++ back) := by
  have hout : entry ∉ head :: (front ++ back) := by
    have hnodup := h.nodup
    rw [← List.cons_append, List.nodup_middle, List.nodup_cons] at hnodup
    exact hnodup.1
  apply h.bypass.frame
  · intro y hy
    apply listDel_next
    rintro rfl
    exact hout hy
  · intro y hy
    apply listDel_prev
    rintro rfl
    exact hout hy

/-- The loop with a `break` ends at the first entry of the ring that is found, and at the
head if there is none. -/
theorem RingOf.forEachEntry {nodes : ι → ListHead ι} {head : ι} {l : List ι}
    (h : RingOf nodes head l) {readable found : ι → Bool}
    (hreadable : ∀ y ∈ head :: l, readable y = true) {fuel : Nat} (hfuel : l.length < fuel) :
    iterate (forEachEntryStep nodes head readable found) fuel (nodes head).next =
      some (some ((l.find? found).getD head)) := by
  have hhead := hreadable head (by simp)
  have hwalk : ∀ {a : ι} {l : List ι} {fuel : Nat}, l.length < fuel → head ∉ l →
      (∀ y ∈ l, readable y = true) →
      Linked (fun i => (nodes i).next) (fun i => (nodes i).prev) a l head →
      iterate (forEachEntryStep nodes head readable found) fuel (nodes a).next =
        some (some ((l.find? found).getD head)) := by
    intro a l fuel hfuel hout hread hl
    induction l generalizing a fuel with
    | nil =>
        obtain ⟨fuel, rfl⟩ := Nat.exists_eq_succ_of_ne_zero (Nat.ne_zero_of_lt hfuel)
        have hnext : (nodes a).next = head := hl.1
        rw [hnext]
        apply iterate_inr
        simp [forEachEntryStep, hhead]
    | cons x rest ih =>
        obtain ⟨fuel, rfl⟩ := Nat.exists_eq_succ_of_ne_zero (Nat.ne_zero_of_lt hfuel)
        rw [List.mem_cons, not_or] at hout
        rw [List.length_cons] at hfuel
        have hnext : (nodes a).next = x := hl.1
        have hx := hread x (by simp)
        have hne : x ≠ head := Ne.symm hout.1
        rw [hnext]
        cases hfound : found x with
        | true =>
            rw [List.find?_cons_of_pos hfound]
            apply iterate_inr
            simp [forEachEntryStep, hx, hne, hfound]
        | false =>
            have hstep : forEachEntryStep nodes head readable found x = .inl (nodes x).next := by
              simp [forEachEntryStep, hx, hne, hfound]
            rw [iterate_inl hstep, List.find?_cons_of_neg (by simp [hfound])]
            exact ih (by omega) hout.2 (fun y hy => hread y (by simp [hy])) hl.2.2
  exact hwalk hfuel (List.nodup_cons.mp h.nodup).1
    (fun y hy => hreadable y (by simp [hy])) h.linked

end Caos
