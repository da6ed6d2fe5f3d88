import Mathlib.Data.Finset.Card
import Mathlib.Data.Finset.Range
import Mathlib.Order.Interval.Finset.Nat
import Caos.Memory.ListHead
import Caos.Types

/-!
Page descriptors, the zone, and the state `mem_map_init` and `memory_init`
leave. The descriptor table is a total function, so that a scan that runs past
the last descriptor of the zone reads and marks further slots of the same array.
The machine has one node with one zone, and every descriptor of the zone has
`page_zone` pointing to it.
-/

namespace Caos

open Lib

/-- `struct page`. `priv` is the field `private`. -/
structure Page where
  list : ListHead Nat
  priv : Nat
  index : Nat
  count : Nat
  flags : Nat
  virtual : Nat
  slab : Option Nat
  deriving DecidableEq, Repr

/-- The fields of `struct zone` that change or are read after `memory_init`. -/
structure Zone where
  freePages : Nat
  pages : Nat
  deriving DecidableEq, Repr

/-- `mem_map` and the only zone of `contig_page_data`. -/
structure PageState where
  memMap : Nat → Page
  zone : Zone

/-- The descriptor has usage count 0. -/
def IsFree (map : Nat → Page) (i : Nat) : Prop := (map i).count = 0

instance (map : Nat → Page) : DecidablePred (IsFree map) :=
  fun i => inferInstanceAs (Decidable ((map i).count = 0))

/-- The free descriptors among the first `pages`. -/
def freeFrames (map : Nat → Page) (pages : Nat) : Finset Nat :=
  (Finset.range pages).filter (IsFree map)

theorem freeFrames_congr {map map' : Nat → Page} (h : ∀ i, (map i).count = (map' i).count)
    (pages : Nat) : freeFrames map pages = freeFrames map' pages := by
  ext i
  simp only [freeFrames, Finset.mem_filter, IsFree, h]

/-- The frames of a block of `2^order` pages. -/
def blockFrames (first order : Nat) : Finset Nat := Finset.Ico first (first + 2 ^ order)

@[simp] theorem mem_blockFrames {first order i : Nat} :
    i ∈ blockFrames first order ↔ first ≤ i ∧ i < first + 2 ^ order := by
  simp [blockFrames]

theorem card_blockFrames (first order : Nat) : (blockFrames first order).card = 2 ^ order := by
  simp [blockFrames]

theorem first_mem_blockFrames (first order : Nat) : first ∈ blockFrames first order := by
  have := Nat.two_pow_pos order
  simp [blockFrames]

/-- The table `mem_map_init` leaves when it marks the frames of `busy`, in boot
memory that `setup.asm` has filled with zeros. -/
def memMapInit (busy : Nat → Bool) (l : Nat) : Page where
  list := ⟨l, l⟩
  priv := minusOne
  index := l
  count := if busy l then 1 else 0
  flags := 0
  virtual := frameAddr l
  slab := none

/-- A list operation performed on the `list` fields of the table. -/
def onLists (op : (Nat → ListHead Nat) → Nat → ListHead Nat) (map : Nat → Page)
    (i : Nat) : Page :=
  { map i with list := op (fun j => (map j).list) i }

/-- The traversal of `memory_init` from the descriptor `pos` on. The ring has
at most `pages` nodes, so this much fuel brings it back to the head. -/
def countFree (map : Nat → Page) (head : Nat) : Nat → Nat → Nat → Nat
  | 0, _, freePages => freePages
  | fuel + 1, pos, freePages =>
    if pos = head then freePages
    else
      countFree map head fuel (map pos).list.next
        (if (map pos).count = 0 then freePages + 1 else freePages)

/-- `memory_init`, for a zone of this many pages that starts at frame 0. -/
def memoryInit (pages : Nat) (map : Nat → Page) : PageState :=
  let map := forUpTo (fun l map => onLists (listAddTail · l 0) map) pages map
  { memMap := map
    zone := { pages := pages, freePages := countFree map 0 pages (map 0).list.next 0 } }

section MemoryInit

variable {map : Nat → Page} {pages head : Nat}

/-- Linking the descriptors changes nothing but their `list` fields. -/
theorem memoryInit_memMap (pages : Nat) (map : Nat → Page) (i : Nat) :
    (memoryInit pages map).memMap i =
      { map i with list := ((memoryInit pages map).memMap i).list } := by
  simp only [memoryInit]
  induction pages with
  | zero => rfl
  | succ n ih =>
      simp only [forUpTo, onLists]
      rw [ih]

@[simp] theorem memoryInit_pages (pages : Nat) (map : Nat → Page) :
    (memoryInit pages map).zone.pages = pages := rfl

@[simp] theorem memoryInit_count (pages : Nat) (map : Nat → Page) (i : Nat) :
    ((memoryInit pages map).memMap i).count = (map i).count := by
  rw [memoryInit_memMap]

@[simp] theorem memoryInit_priv (pages : Nat) (map : Nat → Page) (i : Nat) :
    ((memoryInit pages map).memMap i).priv = (map i).priv := by
  rw [memoryInit_memMap]

@[simp] theorem memoryInit_virtual (pages : Nat) (map : Nat → Page) (i : Nat) :
    ((memoryInit pages map).memMap i).virtual = (map i).virtual := by
  rw [memoryInit_memMap]

@[simp] theorem memoryInit_slab (pages : Nat) (map : Nat → Page) (i : Nat) :
    ((memoryInit pages map).memMap i).slab = (map i).slab := by
  rw [memoryInit_memMap]

/-- After `n + 1` descriptors the ring holds `1..n` behind the head, in order. -/
theorem linkPages_ring (h0 : (map 0).list = ⟨0, 0⟩) (n : Nat) :
    RingOf (fun i => (forUpTo (fun l map => onLists (listAddTail · l 0) map) (n + 1) map i).list)
      0 (List.range' 1 n) := by
  induction n with
  | zero =>
      have hself : RingOf (fun i => (map i).list) 0 [] := by
        apply Ring.empty <;> simp [h0]
      exact hself.listAddTail_self
  | succ n ih =>
      have hnew : n + 1 ∉ 0 :: List.range' 1 n := by
        simp [List.mem_range']
        omega
      have hsnoc := ih.listAddTail hnew
      rw [List.range'_concat]
      rw [Nat.add_comm, ← Nat.one_mul n] at hsnoc
      simpa [forUpTo, onLists, Nat.add_comm] using hsnoc

/-- The traversal visits the ring once, in order, and adds one for each free
descriptor it meets. -/
theorem countFree_linked {l : List Nat} {a fuel freePages : Nat}
    (h : Linked (fun i => (map i).list.next) (fun i => (map i).list.prev) a l head)
    (hhead : head ∉ l) (hfuel : l.length ≤ fuel) :
    countFree map head fuel (map a).list.next freePages =
      freePages + (l.filter (fun i => (map i).count = 0)).length := by
  induction l generalizing a fuel freePages with
  | nil =>
      have hnext : (map a).list.next = head := h.1
      cases fuel <;> simp [countFree, hnext]
  | cons x rest ih =>
      obtain ⟨hfirst, _, hrest⟩ := h
      have hnext : (map a).list.next = x := hfirst
      have hx : x ≠ head := fun heq => hhead (by simp [heq])
      cases fuel with
      | zero => simp at hfuel
      | succ fuel =>
          simp only [countFree]
          rw [hnext, if_neg hx,
            ih hrest (fun hmem => hhead (by simp [hmem])) (by simpa using hfuel)]
          by_cases hcount : (map x).count = 0
          · simp [hcount]
            omega
          · simp [hcount]

/-- With page 0 busy, the zone starts with the number of its free descriptors. -/
theorem memoryInit_freePages (h0 : (map 0).list = ⟨0, 0⟩) (hbusy : (map 0).count ≠ 0)
    (pages : Nat) :
    (memoryInit pages map).zone.freePages = (freeFrames map pages).card := by
  cases pages with
  | zero => simp [memoryInit, countFree, freeFrames]
  | succ n =>
      have hring := linkPages_ring h0 n
      have hcount := memoryInit_count (n + 1) map
      simp only [memoryInit] at hcount ⊢
      rw [countFree_linked hring.linked (List.nodup_cons.mp hring.nodup).1 (by simp)]
      simp only [hcount, Nat.zero_add]
      have hset : freeFrames map (n + 1) =
          ((List.range' 1 n).filter (fun i => (map i).count = 0)).toFinset := by
        ext i
        simp only [freeFrames, Finset.mem_filter, Finset.mem_range, List.mem_toFinset,
          List.mem_filter, List.mem_range'_1, decide_eq_true_eq, IsFree]
        constructor
        · rintro ⟨hlt, hfree⟩
          have hne : i ≠ 0 := by
            rintro rfl
            exact hbusy hfree
          exact ⟨⟨by omega, by omega⟩, hfree⟩
        · rintro ⟨⟨_, hlt⟩, hfree⟩
          exact ⟨by omega, hfree⟩
      rw [hset, List.toFinset_card_of_nodup]
      exact List.Nodup.filter _ (List.nodup_range' ..)

end MemoryInit

end Caos
