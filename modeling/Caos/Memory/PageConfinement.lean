import Caos.Memory.PageExclusive

/-!
Confinement of blocks to the zone. The outer scan of `__alloc_pages` is bounded
by `zone->pages`, the inner scan is not: a run of free descriptors at the end of
the zone is completed from whatever memory follows the table. This module
states when that happens and shows that nothing else can go wrong: a run is
confined and its `free_pages` is exact if and only if every allocation that
meets such a run also finds one inside the zone.
-/

namespace Caos

open Lib

/-- The boot table over arbitrary memory behind the last descriptor. -/
def bootTable (busy : Nat → Bool) (behind : Nat → Page) (pages l : Nat) : Page :=
  if l < pages then memMapInit busy l else behind l

/-- The state `memory_init` leaves over this table. -/
def bootState (busy : Nat → Bool) (behind : Nat → Page) (pages : Nat) : PageState :=
  memoryInit pages (bootTable busy behind pages)

/-- The state after one call of the page allocator. -/
def pageCall {pages : Nat} (s : PageState) : PageOp pages → PageState
  | .alloc gfpMask order => (allocPages gfpMask order s).2
  | .free page order => freePagesCore (some page) order s

/-- The block returned by the call, if any, lies inside the zone, no descriptor
behind the zone has been changed, and `free_pages` is the number of free
descriptors of the zone. -/
structure Confined {pages : Nat} (s : PageState) (op : PageOp pages) : Prop where
  inside : ∀ gfpMask order first, op = .alloc gfpMask order →
    (allocPages gfpMask order s).1 = some first → first + 2 ^ order ≤ pages
  behind : ∀ i, pages ≤ i → (pageCall s op).memMap i = s.memMap i
  exact_count : (pageCall s op).zone.freePages = (freeFrames (pageCall s op).memMap pages).card

/-- If the request is scanned for at all and some run of free descriptors that
starts in the zone is long enough, then one lies wholly inside the zone. -/
def ScanFits {pages : Nat} (s : PageState) : PageOp pages → Prop
  | .alloc _ order =>
    order ≤ maxPageOrder → 2 ^ order < s.zone.freePages →
      (∃ first, first < pages ∧ Window (IsFree s.memMap) first (2 ^ order)) →
      ∃ first, first + 2 ^ order ≤ pages ∧ Window (IsFree s.memMap) first (2 ^ order)
  | .free _ _ => True

/-- The invariant of confined runs. -/
structure ConfinedInv (boot : Nat → Page) (freeAtBoot pages : Nat) (t : PageTrace) : Prop where
  page : PageInv boot freeAtBoot pages t.state t.live
  inside : ∀ b ∈ t.live, b.first + 2 ^ b.order ≤ pages
  exact_count : t.state.zone.freePages = (freeFrames t.state.memMap pages).card

section

variable {boot : Nat → Page} {freeAtBoot pages gfpMask order first page : Nat}
  {s : PageState} {t : PageTrace}

@[simp] theorem pageStep_state (t : PageTrace) (op : PageOp pages) :
    (pageStep t op).state = pageCall t.state op := by
  cases op with
  | alloc gfpMask order =>
      simp only [pageStep, pageCall]
      split <;> simp_all
  | free page order => rfl

/-- Taking a block of free frames of the zone takes them out of the free set. -/
theorem card_freeFrames_takeBlock (hwindow : Window (IsFree s.memMap) first (2 ^ order))
    (hin : first + 2 ^ order ≤ pages) :
    (freeFrames (takeBlock gfpMask order first s).memMap pages).card + 2 ^ order =
      (freeFrames s.memMap pages).card := by
  have hset : freeFrames (takeBlock gfpMask order first s).memMap pages =
      freeFrames s.memMap pages \ blockFrames first order := by
    ext i
    simp only [freeFrames, Finset.mem_filter, Finset.mem_range, Finset.mem_sdiff, IsFree,
      takeBlock_count]
    by_cases hi : i ∈ blockFrames first order <;> simp [hi]
  have hsub : blockFrames first order ⊆ freeFrames s.memMap pages := by
    intro i hi
    rw [mem_blockFrames] at hi
    simp only [freeFrames, Finset.mem_filter, Finset.mem_range]
    exact ⟨by omega, hwindow.free_of_mem hi.1 hi.2⟩
  rw [hset, ← card_blockFrames first order]
  exact Finset.card_sdiff_add_card_eq_card hsub

/-- Releasing a block of the zone puts its frames back into the free set. -/
theorem card_freeFrames_releasedBlock
    (hones : ∀ j, j < 2 ^ order → (s.memMap (page + j)).count = 1)
    (hin : page + 2 ^ order ≤ pages) :
    (freeFrames (releasedBlock page order s).memMap pages).card =
      (freeFrames s.memMap pages).card + 2 ^ order := by
  have hset : freeFrames (releasedBlock page order s).memMap pages =
      freeFrames s.memMap pages ∪ blockFrames page order := by
    ext i
    simp only [freeFrames, Finset.mem_filter, Finset.mem_range, Finset.mem_union, IsFree,
      releasedBlock_count]
    by_cases hi : i ∈ blockFrames page order
    · have hlt : i < pages := by
        rw [mem_blockFrames] at hi
        omega
      simp [hi, hlt]
    · simp [hi]
  have hdisj : Disjoint (freeFrames s.memMap pages) (blockFrames page order) := by
    rw [Finset.disjoint_right]
    intro i hi hfree
    rw [mem_blockFrames] at hi
    simp only [freeFrames, Finset.mem_filter, IsFree] at hfree
    have hone := hones (i - page) (by omega)
    rw [Nat.add_sub_cancel' hi.1] at hone
    omega
  rw [hset, Finset.card_union_of_disjoint hdisj, card_blockFrames]

/-- The first fit of a request that fits lies inside the zone. -/
theorem FirstFit.inside {count : Nat} (hfit : FirstFit s.memMap pages count first)
    (h : ∃ f, f + count ≤ pages ∧ Window (IsFree s.memMap) f count) :
    first + count ≤ pages := by
  obtain ⟨f, hf, hw⟩ := h
  have hle : first ≤ f := by
    by_contra hlt
    exact hfit.least f (by omega) hw
  omega

theorem allocPages_confined (h : ConfinedInv boot freeAtBoot pages t)
    (hfits : ScanFits t.state (.alloc gfpMask order : PageOp pages)) :
    Confined t.state (.alloc gfpMask order : PageOp pages) ∧
      ConfinedInv boot freeAtBoot pages (pageStep t (.alloc gfpMask order : PageOp pages)) := by
  have hpage := pageStep_inv t (.alloc gfpMask order) h.page
  rcases allocPages_cases gfpMask order t.state with
    ⟨horder, hfree, first, hfit, hcall⟩ | ⟨hcall, _⟩
  · rw [h.page.zone] at hfit
    have hin : first + 2 ^ order ≤ pages :=
      hfit.inside (hfits horder hfree ⟨first, hfit.below, hfit.window⟩)
    have hcount : (takeBlock gfpMask order first t.state).zone.freePages =
        (freeFrames (takeBlock gfpMask order first t.state).memMap pages).card := by
      have hcard : (freeFrames (takeBlock gfpMask order first t.state).memMap pages).card + _ = _ :=
        card_freeFrames_takeBlock hfit.window hin
      have hbefore := h.exact_count
      simp only [takeBlock_zone]
      omega
    refine ⟨⟨?_, ?_, ?_⟩, hpage, ?_, ?_⟩
    · rintro gfpMask' order' first' ⟨⟩ hsome
      rw [hcall] at hsome
      cases hsome
      exact hin
    · intro i hi
      simp only [pageCall, hcall]
      rw [takeBlock_memMap, if_neg]
      rw [mem_blockFrames]
      omega
    · simpa only [pageCall, hcall] using hcount
    · simpa only [pageStep, hcall, List.forall_mem_cons] using ⟨hin, h.inside⟩
    · simpa only [pageStep, hcall] using hcount
  · refine ⟨⟨?_, ?_, ?_⟩, hpage, ?_, ?_⟩
    · rintro gfpMask' order' first' ⟨⟩ hsome
      rw [hcall] at hsome
      cases hsome
    · intro i _
      simp only [pageCall, hcall]
    · simpa only [pageCall, hcall] using h.exact_count
    · simpa only [pageStep, hcall] using h.inside
    · simpa only [pageStep, hcall] using h.exact_count

theorem freePages_confined (h : ConfinedInv boot freeAtBoot pages t) (page : Fin pages)
    (order : Nat) :
    Confined t.state (.free page order : PageOp pages) ∧
      ConfinedInv boot freeAtBoot pages (pageStep t (.free page order : PageOp pages)) := by
  have hpage := pageStep_inv t (.free page order) h.page
  have hinside : ∀ b ∈ (pageStep t (.free page order : PageOp pages)).live,
      b.first + 2 ^ b.order ≤ pages :=
    fun b hb => h.inside b (List.mem_of_mem_erase hb)
  by_cases hmem : (⟨page, order⟩ : Block) ∈ t.live
  · have hcall := h.page.free_accept hmem
    have hin := h.inside _ hmem
    have hcount : (releasedBlock page order t.state).zone.freePages =
        (freeFrames (releasedBlock page order t.state).memMap pages).card := by
      rw [card_freeFrames_releasedBlock (h.page.ones hmem) hin, ← h.exact_count]
      rfl
    refine ⟨⟨?_, ?_, ?_⟩, hpage, hinside, ?_⟩
    · rintro _ _ _ ⟨⟩
    · intro i hi
      simp only [pageCall, hcall, releasedBlock]
      rw [if_neg]
      simp only [mem_blockFrames] at hin ⊢
      omega
    · simpa only [pageCall, hcall] using hcount
    · simpa only [pageStep_state, pageCall, hcall] using hcount
  · have hcall := h.page.free_reject page.isLt hmem
    refine ⟨⟨?_, ?_, ?_⟩, hpage, hinside, ?_⟩
    · rintro _ _ _ ⟨⟩
    · intro i _
      simp only [pageCall, hcall]
    · simpa only [pageCall, hcall] using h.exact_count
    · simpa only [pageStep_state, pageCall, hcall] using h.exact_count

/-- A confined allocation is one whose scan fits, in any state of this zone. -/
theorem ScanFits.of_confined (hzone : s.zone.pages = pages) {op : PageOp pages}
    (h : Confined s op) : ScanFits s op := by
  cases op with
  | free page order => trivial
  | alloc gfpMask order =>
      rintro horder hfree ⟨f, hf, hwindow⟩
      rcases allocPages_cases gfpMask order s with ⟨_, _, first, hfit, hcall⟩ | ⟨_, hno⟩
      · refine ⟨first, ?_, hfit.window⟩
        exact h.inside gfpMask order first rfl (by rw [hcall])
      · exact absurd hwindow (hno horder hfree f (hzone ▸ hf))

/-- A call whose scan fits is confined and keeps the invariant. -/
theorem ConfinedInv.next (h : ConfinedInv boot freeAtBoot pages t) {op : PageOp pages}
    (hfits : ScanFits t.state op) :
    Confined t.state op ∧ ConfinedInv boot freeAtBoot pages (pageStep t op) := by
  cases op with
  | alloc gfpMask order => exact allocPages_confined h hfits
  | free page order => exact freePages_confined h page order

end

/-- The zone starts confined, with frame 0 busy as `mem_map_init` marks it. -/
theorem bootState_confined {busy : Nat → Bool} (behind : Nat → Page) (pages : Nat)
    (hframe0 : busy 0 = true) :
    ConfinedInv (bootTable busy behind pages) (bootState busy behind pages).zone.freePages pages
      ⟨bootState busy behind pages, []⟩ := by
  refine ⟨memoryInit_inv ?_, by simp, ?_⟩
  · intro f hf
    simp [bootTable, hf, memMapInit]
  · rcases Nat.eq_zero_or_pos pages with rfl | hpos
    · rfl
    · simp only [bootState]
      rw [memoryInit_freePages]
      · exact congrArg Finset.card
          (freeFrames_congr (fun f => (memoryInit_count pages _ f).symm) pages)
      · simp [bootTable, hpos, memMapInit]
      · simp [bootTable, hpos, memMapInit, hframe0]

/-- For every zone, every set of boot-busy frames that contains frame 0 (as
`mem_map_init` marks it), whatever memory follows the table and every sequence
of calls: all steps are confined and exact if and only if the scan of every
allocation fits. -/
theorem run_confined_iff (busy : Nat → Bool) (behind : Nat → Page) (pages : Nat)
    (hframe0 : busy 0 = true) (ops : List (PageOp pages)) :
    EveryStep pageCall Confined (bootState busy behind pages) ops ↔
      EveryStep pageCall ScanFits (bootState busy behind pages) ops := by
  apply EveryStep.iff_of_invariant (J := fun s => ∃ t : PageTrace, t.state = s ∧
    ConfinedInv (bootTable busy behind pages) (bootState busy behind pages).zone.freePages pages t)
  · exact ⟨_, rfl, bootState_confined behind pages hframe0⟩
  · rintro s op ⟨t, rfl, ht⟩
    exact ⟨ScanFits.of_confined ht.page.zone, fun hfits => (ht.next hfits).1⟩
  · rintro s op ⟨t, rfl, ht⟩ hfits
    exact ⟨_, pageStep_state t op, (ht.next hfits).2⟩

/-- Two pages taken and given back in a zone of 4 pages with frame 0 busy. -/
theorem four_pages_confined :
    EveryStep pageCall Confined
      (bootState (fun f => f == 0) (fun _ => ⟨⟨0, 0⟩, 0, 0, 0, 0, 0, none⟩) 4)
      ([.alloc 0 1, .free 1 1] : List (PageOp 4)) := by
  refine (run_confined_iff _ _ 4 rfl _).mpr ⟨?_, trivial, trivial⟩
  intro _ _ _
  refine ⟨1, by decide, ?_⟩
  intro j hj
  simp only [IsFree, bootState, memoryInit_count, bootTable, memMapInit]
  interval_cases j <;> rfl

/-- A zone of 6 pages with frames 0, 2 and 4 busy and zeroed memory behind the
table: two free pages are requested, three are free, no two are adjacent, and
the block `[5, 7)` is handed out. -/
theorem overrun_at_zone_end :
    ¬ (∀ (busy : Nat → Bool) (behind : Nat → Page) (pages : Nat) (_ : busy 0 = true)
        (ops : List (PageOp pages)),
        EveryStep pageCall Confined (bootState busy behind pages) ops) := by
  intro h
  have hrun := h (fun f => f % 2 == 0) (fun _ => ⟨⟨0, 0⟩, 0, 0, 0, 0, 0, none⟩) 6 rfl
    [.alloc 0 1]
  have hbad := hrun.1.inside 0 1 5 rfl (by decide +kernel)
  omega

end Caos
