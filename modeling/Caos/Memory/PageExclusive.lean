import Mathlib.Data.List.Pairwise
import Caos.Lib.Run
import Caos.Memory.PageAlloc

/-!
Exclusivity of page frames over whole runs. The blocks a run has been given and
has not released are recorded next to the state; the record is made by the
caller's view of the calls and does not use the checks of `__free_pages`.
The invariant says that the counts and the `private` fields of the table are
exactly this record.
-/

namespace Caos

open Lib

/-- A block handed out by `alloc_pages`. -/
structure Block where
  first : Nat
  order : Nat
  deriving DecidableEq, Repr

/-- The frames of the block. -/
def Block.frames (b : Block) : Finset Nat := blockFrames b.first b.order

/-- The frame is one of a live block. -/
def InLive (live : List Block) (f : Nat) : Prop := ∃ b ∈ live, f ∈ b.frames

instance (live : List Block) : DecidablePred (InLive live) :=
  fun f => inferInstanceAs (Decidable (∃ b ∈ live, f ∈ b.frames))

/-- A call of the page allocator. `__free_pages` gets any descriptor of the zone
and any order. -/
inductive PageOp (pages : Nat) where
  | alloc (gfpMask order : Nat)
  | free (page : Fin pages) (order : Nat)

/-- The state together with the blocks allocated and not yet released. -/
structure PageTrace where
  state : PageState
  live : List Block

/-- One call. A release of a block that is not live does not change the record. -/
def pageStep {pages : Nat} (t : PageTrace) : PageOp pages → PageTrace
  | .alloc gfpMask order =>
    match allocPages gfpMask order t.state with
    | (some first, s) => ⟨s, ⟨first, order⟩ :: t.live⟩
    | (none, s) => ⟨s, t.live⟩
  | .free page order =>
    ⟨freePagesCore (some page) order t.state, t.live.erase ⟨page, order⟩⟩

/-- The table and the zone agree with the record of live blocks, over the table
`boot` of the state before the first call. `freeAtBoot` is the value of
`free_pages` there. -/
structure PageInv (boot : Nat → Page) (freeAtBoot pages : Nat) (s : PageState)
    (live : List Block) : Prop where
  zone : s.zone.pages = pages
  boot_priv : ∀ f, f < pages → (boot f).priv = minusOne
  order_le : ∀ b ∈ live, b.order ≤ maxPageOrder
  head_lt : ∀ b ∈ live, b.first < pages
  disjoint : live.Pairwise (fun b c => Disjoint b.frames c.frames)
  boot_free : ∀ b ∈ live, ∀ f ∈ b.frames, IsFree boot f
  count : ∀ f, (s.memMap f).count = if InLive live f then 1 else (boot f).count
  priv_head : ∀ b ∈ live, (s.memMap b.first).priv = b.order
  priv_other : ∀ f, (∀ b ∈ live, b.first ≠ f) → (s.memMap f).priv = (boot f).priv
  accounted : s.zone.freePages + (live.map (fun b => 2 ^ b.order)).sum = freeAtBoot

section Step

variable {boot : Nat → Page} {freeAtBoot pages : Nat} {s : PageState} {live : List Block}

theorem Block.first_mem (b : Block) : b.first ∈ b.frames :=
  first_mem_blockFrames b.first b.order

theorem PageInv.nodup (h : PageInv boot freeAtBoot pages s live) : live.Nodup := by
  refine h.disjoint.imp ?_
  rintro b c hdisj rfl
  exact Finset.disjoint_left.mp hdisj b.first_mem b.first_mem

/-- The checks of `__free_pages` pass exactly on head and order of a live block. -/
theorem PageInv.accept_iff (h : PageInv boot freeAtBoot pages s live) {page : Nat}
    (hpage : page < pages) (order : Nat) :
    (order ≤ maxPageOrder ∧ (s.memMap page).count ≠ 0 ∧ (s.memMap page).priv = order) ↔
      ⟨page, order⟩ ∈ live := by
  constructor
  · rintro ⟨horder, _, hpriv⟩
    by_contra hnot
    by_cases hhead : ∀ b ∈ live, b.first ≠ page
    · have hminus := (h.priv_other page hhead).trans (h.boot_priv page hpage)
      simp only [minusOne, maxPageOrder] at hminus horder
      omega
    · push Not at hhead
      obtain ⟨b, hb, rfl⟩ := hhead
      have hborder := h.priv_head b hb
      rw [hpriv] at hborder
      subst hborder
      exact hnot hb
  · intro hmem
    refine ⟨h.order_le _ hmem, ?_, h.priv_head _ hmem⟩
    rw [h.count, if_pos ⟨_, hmem, first_mem_blockFrames page order⟩]
    exact one_ne_zero

theorem PageInv.ones (h : PageInv boot freeAtBoot pages s live) {page order : Nat}
    (hmem : ⟨page, order⟩ ∈ live) :
    ∀ j, j < 2 ^ order → (s.memMap (page + j)).count = 1 := by
  intro j hj
  rw [h.count, if_pos]
  exact ⟨_, hmem, by simp [Block.frames, hj]⟩

/-- A call of `__free_pages` that the record does not know changes nothing. -/
theorem PageInv.free_reject (h : PageInv boot freeAtBoot pages s live) {page order : Nat}
    (hpage : page < pages) (hmem : ⟨page, order⟩ ∉ live) :
    freePagesCore (some page) order s = s :=
  freePagesCore_of_reject (fun hok => hmem ((h.accept_iff hpage order).mp hok))

/-- A call of `__free_pages` on a live block releases this block. -/
theorem PageInv.free_accept (h : PageInv boot freeAtBoot pages s live) {page order : Nat}
    (hmem : ⟨page, order⟩ ∈ live) :
    freePagesCore (some page) order s = releasedBlock page order s :=
  freePagesCore_of_accept (h.order_le _ hmem) (h.priv_head _ hmem) (h.ones hmem)

/-- Allocation keeps the invariant: the block found consists of free frames, so
it meets no live block and no boot frame. -/
theorem PageInv.take (h : PageInv boot freeAtBoot pages s live) {gfpMask order first : Nat}
    (horder : order ≤ maxPageOrder) (hfree : 2 ^ order < s.zone.freePages)
    (hfirst : first < pages) (hwindow : Window (IsFree s.memMap) first (2 ^ order)) :
    PageInv boot freeAtBoot pages (takeBlock gfpMask order first s)
      (⟨first, order⟩ :: live) := by
  have hnew : ∀ f ∈ blockFrames first order, ¬ InLive live f ∧ IsFree boot f := by
    intro f hf
    rw [mem_blockFrames] at hf
    have hcount := hwindow.free_of_mem hf.1 hf.2
    rw [IsFree, h.count] at hcount
    by_cases hin : InLive live f
    · rw [if_pos hin] at hcount
      exact absurd hcount one_ne_zero
    · rw [if_neg hin] at hcount
      exact ⟨hin, hcount⟩
  have hhead : ∀ b ∈ live, b.first ≠ first := by
    intro b hb heq
    exact (hnew first (first_mem_blockFrames first order)).1 ⟨b, hb, heq ▸ b.first_mem⟩
  refine ⟨h.zone, h.boot_priv, ?_, ?_, ?_, ?_, ?_, ?_, ?_, ?_⟩
  · simpa [horder] using h.order_le
  · simpa [hfirst] using h.head_lt
  · refine List.pairwise_cons.mpr ⟨?_, h.disjoint⟩
    intro b hb
    rw [Finset.disjoint_left]
    exact fun f hf hfb => (hnew f hf).1 ⟨b, hb, hfb⟩
  · intro b hb f hf
    rcases List.mem_cons.mp hb with rfl | hb
    · exact (hnew f hf).2
    · exact h.boot_free b hb f hf
  · intro f
    rw [takeBlock_count, h.count]
    have hcons : InLive (⟨first, order⟩ :: live) f ↔
        f ∈ blockFrames first order ∨ InLive live f := by
      simp only [InLive, List.exists_mem_cons_iff, Block.frames]
    simp only [hcons]
    by_cases hf : f ∈ blockFrames first order <;> simp [hf]
  · intro b hb
    rw [takeBlock_priv]
    rcases List.mem_cons.mp hb with rfl | hb
    · exact if_pos rfl
    · rw [if_neg (hhead b hb)]
      exact h.priv_head b hb
  · intro f hf
    simp only [List.forall_mem_cons] at hf
    rw [takeBlock_priv, if_neg (Ne.symm hf.1)]
    exact h.priv_other f hf.2
  · have := h.accounted
    simp only [takeBlock_zone, List.map_cons, List.sum_cons]
    omega

/-- Release of a live block keeps the invariant. -/
theorem PageInv.release (h : PageInv boot freeAtBoot pages s live) {page order : Nat}
    (hmem : ⟨page, order⟩ ∈ live) :
    PageInv boot freeAtBoot pages (releasedBlock page order s) (live.erase ⟨page, order⟩) := by
  have hrest : ∀ b ∈ live.erase ⟨page, order⟩,
      b ∈ live ∧ Disjoint b.frames (blockFrames page order) := by
    intro b hb
    obtain ⟨hne, hbl⟩ := h.nodup.mem_erase_iff.mp hb
    have : Std.Symm (fun b c : Block => Disjoint b.frames c.frames) := ⟨fun _ _ hd => hd.symm⟩
    exact ⟨hbl, h.disjoint.forall hbl hmem hne⟩
  have hlive : ∀ f, InLive (live.erase ⟨page, order⟩) f ↔
      InLive live f ∧ f ∉ blockFrames page order := by
    intro f
    constructor
    · rintro ⟨b, hb, hf⟩
      obtain ⟨hbl, hdisj⟩ := hrest b hb
      exact ⟨⟨b, hbl, hf⟩, Finset.disjoint_left.mp hdisj hf⟩
    · rintro ⟨⟨b, hb, hf⟩, hout⟩
      refine ⟨b, h.nodup.mem_erase_iff.mpr ⟨?_, hb⟩, hf⟩
      rintro rfl
      exact hout hf
  refine ⟨h.zone, h.boot_priv, ?_, ?_, ?_, ?_, ?_, ?_, ?_, ?_⟩
  · exact fun b hb => h.order_le b (hrest b hb).1
  · exact fun b hb => h.head_lt b (hrest b hb).1
  · exact h.disjoint.sublist List.erase_sublist
  · exact fun b hb => h.boot_free b (hrest b hb).1
  · intro f
    rw [releasedBlock_count, h.count]
    simp only [hlive]
    by_cases hf : f ∈ blockFrames page order
    · have hboot : (boot f).count = 0 := h.boot_free _ hmem f hf
      simp only [hf, hboot, if_true, not_true_eq_false, and_false, if_false]
    · simp only [hf, if_false, not_false_eq_true, and_true]
  · intro b hb
    have hout : b.first ∉ blockFrames page order :=
      Finset.disjoint_left.mp (hrest b hb).2 b.first_mem
    have hne : b.first ≠ page := by
      intro heq
      exact hout (heq ▸ first_mem_blockFrames page order)
    rw [releasedBlock_priv, if_neg hne]
    exact h.priv_head b (hrest b hb).1
  · intro f hf
    rw [releasedBlock_priv]
    by_cases hpage : f = page
    · rw [if_pos hpage, hpage]
      exact (h.boot_priv page (h.head_lt _ hmem)).symm
    · rw [if_neg hpage]
      refine h.priv_other f ?_
      intro b hb heq
      refine hf b (h.nodup.mem_erase_iff.mpr ⟨?_, hb⟩) heq
      rintro rfl
      exact hpage heq.symm
  · have hacc := h.accounted
    have hsum := List.sum_map_erase (fun b : Block => 2 ^ b.order) hmem
    simp only [releasedBlock] at hsum ⊢
    omega

/-- Every call keeps the invariant. -/
theorem pageStep_inv (t : PageTrace) (op : PageOp pages)
    (h : PageInv boot freeAtBoot pages t.state t.live) :
    PageInv boot freeAtBoot pages (pageStep t op).state (pageStep t op).live := by
  cases op with
  | alloc gfpMask order =>
      rcases allocPages_cases gfpMask order t.state with
        ⟨horder, hfree, first, hfit, hcall⟩ | ⟨hcall, _⟩
      · simp only [pageStep, hcall]
        exact h.take horder hfree (h.zone ▸ hfit.below) hfit.window
      · simpa only [pageStep, hcall] using h
  | free page order =>
      by_cases hmem : (⟨page, order⟩ : Block) ∈ t.live
      · simp only [pageStep, h.free_accept hmem]
        exact h.release hmem
      · simpa only [pageStep, h.free_reject page.isLt hmem, List.erase_of_not_mem hmem] using h

/-- A table that `memory_init` has linked, with no block allocated. -/
theorem memoryInit_inv (hpriv : ∀ f, f < pages → (boot f).priv = minusOne) :
    PageInv boot (memoryInit pages boot).zone.freePages pages (memoryInit pages boot) [] := by
  refine ⟨rfl, hpriv, by simp, by simp, by simp, by simp, ?_, by simp, ?_, by simp⟩
  · intro f
    simp [InLive]
  · intro f _
    simp

end Step

/-- Every frame has at most one owner: the boot code or one live block, and the
table and `__free_pages` know exactly which. -/
structure FramesExclusive (busy : Nat → Bool) (pages : Nat) (t : PageTrace) : Prop where
  disjoint : t.live.Pairwise (fun b c => Disjoint b.frames c.frames)
  boot : ∀ b ∈ t.live, ∀ f ∈ b.frames, busy f = false
  count : ∀ f, (t.state.memMap f).count = if busy f ∨ InLive t.live f then 1 else 0
  priv_iff : ∀ f, (t.state.memMap f).priv ≠ minusOne ↔ ∃ b ∈ t.live, b.first = f
  priv_eq : ∀ b ∈ t.live, (t.state.memMap b.first).priv = b.order
  free_changes : ∀ (page : Fin pages) (order : Nat),
    freePagesCore (some page) order t.state ≠ t.state ↔ ⟨page, order⟩ ∈ t.live
  free_releases : ∀ (page : Fin pages) (order : Nat), ⟨page, order⟩ ∈ t.live → ∀ f,
    ((freePagesCore (some page) order t.state).memMap f).count =
      if f ∈ blockFrames page order then 0 else (t.state.memMap f).count

/-- The state after `mem_map_init` and `memory_init`, before any call. -/
def pageStart (busy : Nat → Bool) (pages : Nat) : PageTrace :=
  ⟨memoryInit pages (memMapInit busy), []⟩

/-- In every run, whatever frames are busy at boot, whatever orders are requested
and whatever descriptors and orders are released. -/
theorem frames_exclusive (busy : Nat → Bool) (pages : Nat) (ops : List (PageOp pages)) :
    FramesExclusive busy pages (ops.foldl pageStep (pageStart busy pages)) := by
  have hinv : PageInv (memMapInit busy) (pageStart busy pages).state.zone.freePages pages
      (ops.foldl pageStep (pageStart busy pages)).state
      (ops.foldl pageStep (pageStart busy pages)).live :=
    List.foldlRecOn (motive := fun t : PageTrace => PageInv (memMapInit busy)
        (pageStart busy pages).state.zone.freePages pages t.state t.live)
      ops pageStep (memoryInit_inv (fun _ _ => rfl)) (fun t ht op _ => pageStep_inv t op ht)
  generalize ops.foldl pageStep (pageStart busy pages) = t at hinv
  have hboot : ∀ b ∈ t.live, ∀ f ∈ b.frames, busy f = false := by
    intro b hb f hf
    have hfree := hinv.boot_free b hb f hf
    simpa [IsFree, memMapInit] using hfree
  have hcount : ∀ f, (t.state.memMap f).count = if busy f ∨ InLive t.live f then 1 else 0 := by
    intro f
    rw [hinv.count]
    by_cases hlive : InLive t.live f <;> simp [hlive, memMapInit]
  refine ⟨hinv.disjoint, hboot, hcount, ?_, hinv.priv_head, ?_, ?_⟩
  · intro f
    constructor
    · intro hne
      by_contra hnone
      push Not at hnone
      exact hne (hinv.priv_other f hnone)
    · rintro ⟨b, hb, rfl⟩ hminus
      have horder := hinv.order_le b hb
      rw [hinv.priv_head b hb] at hminus
      simp only [maxPageOrder, minusOne] at horder hminus
      omega
  · intro page order
    constructor
    · intro hne
      by_contra hmem
      exact hne (hinv.free_reject page.isLt hmem)
    · intro hmem hsame
      have hbefore := hinv.ones hmem 0 (Nat.two_pow_pos order)
      have hafter : ((releasedBlock page order t.state).memMap page).count = _ :=
        releasedBlock_count page
      rw [← hinv.free_accept hmem, hsame, if_pos (first_mem_blockFrames _ _)] at hafter
      simp only [Nat.add_zero] at hbefore
      omega
  · intro page order hmem f
    rw [hinv.free_accept hmem, releasedBlock_count]

end Caos
