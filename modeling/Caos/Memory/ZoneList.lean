import Caos.Memory.Page

/-!
The list of the zone and its first use. `memory_init` inserts the head into its own list
while that list is still empty; from then on every insertion is one at the tail of a ring
that closes in the head, so that the loop over the entries meets it again.
-/

namespace Caos

open Lib

/-- The descriptors of a zone of this many pages are linked in the order of their
indices, and the counting loop has visited each of them but the head. -/
structure ZoneLinked (pages : Nat) (map : Nat → Page) (s : PageState) : Prop where
  ring : RingOf (fun l => (s.memMap l).list) 0 (List.range' 1 (pages - 1))
  next : ∀ l < pages, (s.memMap l).list.next = (l + 1) % pages
  prev : ∀ l < pages, (s.memMap ((l + 1) % pages)).list.prev = l
  visited : ∀ fuel, pages ≤ fuel →
    listForEachEntry (fun l => (s.memMap l).list) 0 fuel (s.memMap 0).list.next =
      some (List.range' 1 (pages - 1))
  fields : ∀ l, s.memMap l = { map l with list := (s.memMap l).list }
  counted : s.zone.freePages =
    ((List.range' 1 (pages - 1)).filter fun l => (map l).count = 0).length
  exact_count : (map 0).count ≠ 0 → s.zone.freePages = (freeFrames map pages).card

section

variable {map : Nat → Page} {pages : Nat}

/-- The list is a ring whose nodes are the pages, in order. -/
theorem memoryInit_ring (h0 : (map 0).list = ⟨0, 0⟩) (hpages : 1 ≤ pages) :
    RingOf (fun l => ((memoryInit pages map).memMap l).list) 0 (List.range' 1 (pages - 1)) := by
  obtain ⟨n, rfl⟩ : ∃ n, pages = n + 1 := ⟨pages - 1, by omega⟩
  exact linkPages_ring h0 n

/-- The entries counted by `memory_init` are those that its loop visits. -/
theorem countFree_visited {head fuel pos freePages : Nat} {l : List Nat}
    (h : listForEachEntry (fun i => (map i).list) head fuel pos = some l) :
    countFree map head fuel pos freePages =
      freePages + (l.filter fun i => (map i).count = 0).length := by
  induction fuel generalizing pos freePages l with
  | zero => cases h
  | succ fuel ih =>
      rw [listForEachEntry] at h
      rw [countFree]
      by_cases hpos : pos = head
      · rw [if_pos hpos] at h ⊢
        cases h
        rfl
      · rw [if_neg hpos, Option.map_eq_some_iff] at h
        obtain ⟨rest, hrest, rfl⟩ := h
        rw [if_neg hpos, ih hrest]
        by_cases hcount : (map pos).count = 0
        · simp [hcount]
          omega
        · simp [hcount]

/-- `memory_init` for every number of pages and every assignment of counts, over
descriptors that are linked to themselves, as `mem_map_init` leaves them. -/
theorem memoryInit_linked (pages : Nat) (map : Nat → Page) (hpages : 1 ≤ pages)
    (hself : ∀ l < pages, (map l).list = ⟨l, l⟩) :
    ZoneLinked pages map (memoryInit pages map) := by
  have hring := memoryInit_ring (hself 0 hpages) hpages
  obtain ⟨hinner, hnext, hprev⟩ := hring.linked.range'
  simp only [Nat.zero_add, Nat.zero_le, forall_const] at hinner hnext hprev
  have hvisited : ∀ fuel, pages ≤ fuel →
      listForEachEntry (fun l => ((memoryInit pages map).memMap l).list) 0 fuel
        ((memoryInit pages map).memMap 0).list.next = some (List.range' 1 (pages - 1)) := by
    intro fuel hfuel
    apply hring.listForEachEntry
    rw [List.length_range']
    omega
  constructor
  · exact hring
  · intro l hl
    by_cases hlast : l = pages - 1
    · have hmod : (l + 1) % pages = 0 := by
        rw [hlast, Nat.sub_add_cancel hpages, Nat.mod_self]
      rw [hmod, hlast]
      exact hnext
    · rw [Nat.mod_eq_of_lt (by omega)]
      exact (hinner l (by omega)).1
  · intro l hl
    by_cases hlast : l = pages - 1
    · have hmod : (l + 1) % pages = 0 := by
        rw [hlast, Nat.sub_add_cancel hpages, Nat.mod_self]
      rw [hmod, hlast]
      exact hprev
    · rw [Nat.mod_eq_of_lt (by omega)]
      exact (hinner l (by omega)).2
  · exact hvisited
  · exact memoryInit_memMap pages map
  · have hloop : (memoryInit pages map).zone.freePages =
        countFree (memoryInit pages map).memMap 0 pages
          ((memoryInit pages map).memMap 0).list.next 0 := rfl
    rw [hloop, countFree_visited (hvisited pages (Nat.le_refl pages)), Nat.zero_add]
    simp only [memoryInit_count]
  · intro hbusy
    exact memoryInit_freePages (hself 0 hpages) hbusy pages

end

/-- Three pages, the first one busy. -/
theorem three_pages_linked :
    ZoneLinked 3 (memMapInit fun l => l == 0) (memoryInit 3 (memMapInit fun l => l == 0)) :=
  memoryInit_linked 3 _ (by norm_num) fun _ _ => rfl

end Caos
