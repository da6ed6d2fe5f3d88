import Mathlib.Data.Finset.Card
import Mathlib.Logic.Function.Basic
import Mathlib.Tactic

/-!
Free lists threaded through a table of indices. `next i` is the index behind
`i` and a sentinel `last` ends the chain. The abstract view of such a list is
the finite set of indices that are taken: the chain holds every other index
below the capacity, each once.
-/

namespace Caos.Lib

section Chain

variable {ι : Type*} {next next' : ι → ι} {last i j : ι} {l l' : List ι}

/-- Following `next` from `i` visits exactly `l` and then meets `last`. -/
def Chain (next : ι → ι) (last : ι) : ι → List ι → Prop
  | i, [] => i = last
  | i, j :: rest => i = j ∧ j ≠ last ∧ Chain next last (next j) rest

theorem Chain.unique (h : Chain next last i l) (h' : Chain next last i l') : l = l' := by
  induction l generalizing i l' with
  | nil =>
      cases l' with
      | nil => rfl
      | cons j rest => exact absurd (h'.1.symm.trans h) h'.2.1
  | cons j rest ih =>
      cases l' with
      | nil => exact absurd (h.1.symm.trans h') h.2.1
      | cons k more =>
          obtain ⟨rfl, _, hrest⟩ := h
          obtain ⟨rfl, _, hmore⟩ := h'
          rw [ih hrest hmore]

/-- Stores outside the chain leave it as it is. -/
theorem Chain.frame (h : Chain next last i l) (hsame : ∀ k ∈ l, next' k = next k) :
    Chain next' last i l := by
  induction l generalizing i with
  | nil => exact h
  | cons k rest ih =>
      obtain ⟨rfl, hne, hrest⟩ := h
      refine ⟨rfl, hne, ?_⟩
      rw [hsame i (by simp)]
      exact ih hrest (fun k hk => hsame k (by simp [hk]))

theorem Chain.suffix (h : Chain next last i l) (hj : j ∈ l) :
    ∃ rest, Chain next last j (j :: rest) ∧ (j :: rest).length ≤ l.length := by
  induction l generalizing i with
  | nil => cases hj
  | cons k rest ih =>
      obtain ⟨rfl, hne, hrest⟩ := h
      rcases List.mem_cons.mp hj with rfl | htail
      · exact ⟨rest, ⟨rfl, hne, hrest⟩, Nat.le_refl _⟩
      · obtain ⟨more, hmore, hlen⟩ := ih hrest htail
        exact ⟨more, hmore, by simp only [List.length_cons] at hlen ⊢; omega⟩

/-- A chain that ends repeats no index. -/
theorem Chain.nodup (h : Chain next last i l) : l.Nodup := by
  induction l generalizing i with
  | nil => exact List.nodup_nil
  | cons k rest ih =>
      obtain ⟨rfl, hne, hrest⟩ := h
      refine List.nodup_cons.mpr ⟨?_, ih hrest⟩
      intro hmem
      obtain ⟨more, hmore, hlen⟩ := hrest.suffix hmem
      have hsame : i :: rest = i :: more :=
        (show Chain next last i (i :: rest) from ⟨rfl, hne, hrest⟩).unique hmore
      simp only [List.cons.injEq, true_and] at hsame
      subst hsame
      simp at hlen

theorem Chain.push [DecidableEq ι] (h : Chain next last i l) (hj : j ≠ last) (hnot : j ∉ l) :
    Chain (Function.update next j i) last j (j :: l) := by
  refine ⟨rfl, hj, ?_⟩
  rw [Function.update_self]
  refine h.frame ?_
  intro k hk
  have hkj : k ≠ j := by
    rintro rfl
    exact hnot hk
  exact Function.update_of_ne hkj i next

end Chain

/-- Counting up from `first` to a final `last` is a chain. -/
theorem chain_range' {next : Nat → Nat} {last : Nat} {n first : Nat}
    (hlast : ∀ k, first ≤ k → k < first + (n + 1) → k ≠ last)
    (hnext : ∀ k, first ≤ k → k < first + n → next k = k + 1)
    (hend : next (first + n) = last) :
    Chain next last first (List.range' first (n + 1)) := by
  induction n generalizing first with
  | zero => exact ⟨rfl, hlast first (by omega) (by omega), hend⟩
  | succ n ih =>
      refine ⟨rfl, hlast first (by omega) (by omega), ?_⟩
      rw [hnext first (by omega) (by omega)]
      apply ih
      · exact fun k hlo hhi => hlast k (by omega) (by omega)
      · exact fun k hlo hhi => hnext k (by omega) (by omega)
      · rw [show first + 1 + n = first + (n + 1) by omega]
        exact hend

/-- The table `next` with entry point `head` is a free list over the indices
below `capacity` of which exactly `taken` are handed out. -/
structure FreeList (next : Nat → Nat) (last head capacity : Nat)
    (taken : Finset Nat) : Prop where
  below : ∀ i ∈ taken, i < capacity
  chain : ∃ l, Chain next last head l ∧ ∀ i, i ∈ l ↔ i < capacity ∧ i ∉ taken

namespace FreeList

variable {next : Nat → Nat} {last head capacity i : Nat} {taken : Finset Nat}

/-- The chain has one entry for each index that is not taken. -/
theorem length_add_card {l : List Nat} (h : FreeList next last head capacity taken)
    (hl : Chain next last head l) : l.length + taken.card = capacity := by
  obtain ⟨l', hl', hmem⟩ := h.chain
  obtain rfl := hl.unique hl'
  have hfree : l.toFinset = Finset.range capacity \ taken := by
    ext i
    simp [hmem]
  have hsub : taken ⊆ Finset.range capacity := by
    intro i hi
    exact Finset.mem_range.mpr (h.below i hi)
  have hcard : l.toFinset.card = l.length := List.toFinset_card_of_nodup hl.nodup
  rw [← hcard, hfree, Finset.card_sdiff_add_card_eq_card hsub, Finset.card_range]

theorem head_free (h : FreeList next last head capacity taken) (hne : head ≠ last) :
    head < capacity ∧ head ∉ taken := by
  obtain ⟨l, hl, hmem⟩ := h.chain
  cases l with
  | nil => exact absurd hl hne
  | cons j rest =>
      obtain ⟨rfl, _, _⟩ := hl
      exact (hmem head).mp (by simp)

/-- Handing out the first free index. -/
theorem take (h : FreeList next last head capacity taken) (hne : head ≠ last) :
    FreeList next last (next head) capacity (insert head taken) := by
  have hfree := h.head_free hne
  refine ⟨?_, ?_⟩
  · intro i hi
    rcases Finset.mem_insert.mp hi with rfl | hi
    · exact hfree.1
    · exact h.below i hi
  obtain ⟨l, hl, hmem⟩ := h.chain
  cases l with
  | nil => exact absurd hl hne
  | cons j rest =>
      have hnodup := hl.nodup
      obtain ⟨rfl, _, hrest⟩ := hl
      refine ⟨rest, hrest, ?_⟩
      intro i
      have hi := hmem i
      have hhead : head ∉ rest := (List.nodup_cons.mp hnodup).1
      simp only [List.mem_cons] at hi
      simp only [Finset.mem_insert, not_or]
      constructor
      · intro hin
        have hne : i ≠ head := fun heq => hhead (heq ▸ hin)
        exact ⟨(hi.mp (.inr hin)).1, hne, (hi.mp (.inr hin)).2⟩
      · rintro ⟨hlt, hne, hnot⟩
        exact (hi.mpr ⟨hlt, hnot⟩).resolve_left hne

/-- Putting a taken index back in front of the list. -/
theorem give (h : FreeList next last head capacity taken) (hi : i ∈ taken)
    (hne : i ≠ last) :
    FreeList (Function.update next i head) last i capacity (taken.erase i) := by
  refine ⟨fun k hk => h.below k (Finset.mem_of_mem_erase hk), ?_⟩
  obtain ⟨l, hl, hmem⟩ := h.chain
  have hnot : i ∉ l := fun hin => ((hmem i).mp hin).2 hi
  refine ⟨i :: l, hl.push hne hnot, ?_⟩
  intro k
  have hk := hmem k
  simp only [List.mem_cons, Finset.mem_erase, not_and]
  constructor
  · rintro (rfl | hin)
    · exact ⟨h.below k hi, fun hkk => absurd rfl hkk⟩
    · exact ⟨(hk.mp hin).1, fun _ => (hk.mp hin).2⟩
  · rintro ⟨hlt, himp⟩
    by_cases hki : k = i
    · exact .inl hki
    · exact .inr (hk.mpr ⟨hlt, himp hki⟩)

/-- A table that counts up to its last entry is the list of all indices. -/
theorem fresh (hpos : 0 < capacity) (hlast : capacity ≤ last)
    (hnext : ∀ k, k + 1 < capacity → next k = k + 1)
    (hend : next (capacity - 1) = last) :
    FreeList next last 0 capacity ∅ := by
  refine ⟨by simp, ?_⟩
  obtain ⟨n, rfl⟩ : ∃ n, capacity = n + 1 := ⟨capacity - 1, by omega⟩
  refine ⟨List.range' 0 (n + 1), ?_, ?_⟩
  · apply chain_range'
    · exact fun k _ hhi => by omega
    · exact fun k _ hhi => hnext k (by omega)
    · simpa using hend
  · intro i
    simp [List.mem_range']

end FreeList

end Caos.Lib
