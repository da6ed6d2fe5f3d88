import Caos.Memory.FirstFit

/-!
Requests that fail although pages are there. `__alloc_pages` scans only if `free_pages`
is greater than the request. The counter is the number of free descriptors of the zone
less the frames behind the zone that live blocks reach into, so that a request for
exactly the free pages of the zone is refused.
-/

namespace Caos

open Lib

/-- The call does not return `NULL` while the zone has a block of the requested size. -/
def NoSpuriousFailure {pages : Nat} (t : PageTrace) : PageOp pages → Prop
  | .alloc gfpMask order =>
    order ≤ maxPageOrder → (allocPages gfpMask order t.state).1 = none →
      ¬ ∃ f, ZoneBlock t.state order f
  | .free _ _ => True

/-- The number of frames behind the zone in the live blocks. -/
def framesBehind (pages : Nat) (live : List Block) : Nat :=
  (live.map fun b => b.first + 2 ^ b.order - pages).sum

/-- If the zone has a block of the requested size, then it has more free frames than
the request and the frames behind the zone together. -/
def FramesToSpare {pages : Nat} (t : PageTrace) : PageOp pages → Prop
  | .alloc _ order =>
    order ≤ maxPageOrder → (∃ f, ZoneBlock t.state order f) →
      2 ^ order + framesBehind pages t.live < (freeFrames t.state.memMap pages).card
  | .free _ _ => True

section

variable {boot : Nat → Page} {freeAtBoot pages gfpMask order first : Nat}
  {s : PageState} {live : List Block} {t : PageTrace}

/-- The free frames of the boot table are those still free and those of live blocks. -/
theorem card_freeFrames_live
    (hcount : ∀ f, (s.memMap f).count = if InLive live f then 1 else (boot f).count)
    (hdisjoint : live.Pairwise (fun b c => Disjoint b.frames c.frames))
    (hfree : ∀ b ∈ live, ∀ f ∈ b.frames, IsFree boot f) :
    (freeFrames s.memMap pages).card +
        (live.map fun b => (b.frames ∩ Finset.range pages).card).sum =
      (freeFrames boot pages).card := by
  induction live generalizing s with
  | nil =>
      have hsame : freeFrames s.memMap pages = freeFrames boot pages := by
        apply freeFrames_congr
        intro f
        rw [hcount, if_neg]
        rintro ⟨b, hb, -⟩
        cases hb
      simp [hsame]
  | cons b live ih =>
      obtain ⟨hhead, htail⟩ := List.pairwise_cons.mp hdisjoint
      -- the table as it would be without the first block
      let s' : PageState :=
        { s with
          memMap := fun f =>
            { s.memMap f with count := if InLive live f then 1 else (boot f).count } }
      have hrest := @ih s' (fun _ => rfl) htail
        (fun c hc => hfree c (List.mem_cons_of_mem b hc))
      have hfresh : ∀ f ∈ b.frames, ¬ InLive live f := by
        rintro f hf ⟨c, hc, hfc⟩
        exact Finset.disjoint_left.mp (hhead c hc) hf hfc
      have hset : freeFrames s'.memMap pages =
          freeFrames s.memMap pages ∪ (b.frames ∩ Finset.range pages) := by
        ext f
        have hcons : InLive (b :: live) f ↔ f ∈ b.frames ∨ InLive live f := by
          simp only [InLive, List.exists_mem_cons_iff]
        simp only [freeFrames, Finset.mem_filter, Finset.mem_range, Finset.mem_union,
          Finset.mem_inter, IsFree, hcount, hcons, s']
        by_cases hf : f ∈ b.frames
        · have hboot : (boot f).count = 0 := hfree b List.mem_cons_self f hf
          simp [hf, hfresh f hf, hboot]
        · simp [hf]
      have hdisj : Disjoint (freeFrames s.memMap pages) (b.frames ∩ Finset.range pages) := by
        rw [Finset.disjoint_left]
        intro f hf hfb
        have hin : InLive (b :: live) f :=
          ⟨b, List.mem_cons_self, (Finset.mem_inter.mp hfb).1⟩
        simp only [freeFrames, Finset.mem_filter, IsFree, hcount, if_pos hin, one_ne_zero,
          and_false] at hf
      rw [hset, Finset.card_union_of_disjoint hdisj] at hrest
      rw [List.map_cons, List.sum_cons]
      omega

theorem card_block_inside {b : Block} (hhead : b.first < pages) :
    (b.frames ∩ Finset.range pages).card + (b.first + 2 ^ b.order - pages) = 2 ^ b.order := by
  have hset : b.frames ∩ Finset.range pages =
      Finset.Ico b.first (min (b.first + 2 ^ b.order) pages) := by
    ext f
    simp only [Block.frames, mem_blockFrames, Finset.mem_inter, Finset.mem_range,
      Finset.mem_Ico]
    omega
  have hpos := Nat.two_pow_pos b.order
  rw [hset, Nat.card_Ico]
  omega

theorem sum_block_inside (hhead : ∀ b ∈ live, b.first < pages) :
    (live.map fun b => (b.frames ∩ Finset.range pages).card).sum + framesBehind pages live =
      (live.map fun b => 2 ^ b.order).sum := by
  induction live with
  | nil => rfl
  | cons b live ih =>
      have hfirst := card_block_inside (hhead b List.mem_cons_self)
      have hrest := ih (fun c hc => hhead c (List.mem_cons_of_mem b hc))
      simp only [framesBehind, List.map_cons, List.sum_cons] at hrest ⊢
      omega

/-- What `free_pages` counts, in every reachable state. -/
theorem PageInv.freePages_add (h : PageInv boot freeAtBoot pages s live)
    (hboot : freeAtBoot = (freeFrames boot pages).card) :
    s.zone.freePages + framesBehind pages live = (freeFrames s.memMap pages).card := by
  have hcard := @card_freeFrames_live boot pages s live h.count h.disjoint h.boot_free
  have hsum := sum_block_inside h.head_lt
  have hacc := h.accounted
  omega

/-- The scan finds a block if the zone has one, so only the guard can refuse it. -/
theorem noSpuriousFailure_iff (h : PageInv boot freeAtBoot pages t.state t.live)
    (hboot : freeAtBoot = (freeFrames boot pages).card) (op : PageOp pages) :
    NoSpuriousFailure t op ↔ FramesToSpare t op := by
  cases op with
  | free page order => exact Iff.rfl
  | alloc gfpMask order =>
      have hexact := h.freePages_add hboot
      constructor
      · intro hnull horder hblock
        by_contra hfew
        have hguard : ¬ 2 ^ order < t.state.zone.freePages := by omega
        rcases allocPages_cases gfpMask order t.state with ⟨-, hfree, -⟩ | ⟨hcall, -⟩
        · exact hguard hfree
        · exact hnull horder (by rw [hcall]) hblock
      · intro hspare horder hnone hblock
        have hcount := hspare horder hblock
        obtain ⟨first, s', -, hcall, -⟩ := allocPages_first_fit t.state gfpMask order horder
          (by omega) hblock
        rw [hcall] at hnone
        cases hnone

end

/-- The record of a run before its first call. -/
def bootTrace (busy : Nat → Bool) (behind : Nat → Page) (pages : Nat) : PageTrace :=
  ⟨bootState busy behind pages, []⟩

section

variable {busy : Nat → Bool} {behind : Nat → Page} {pages : Nat}

/-- The invariant of a run, with the number of free frames of the boot table. -/
def BootInv (busy : Nat → Bool) (behind : Nat → Page) (pages : Nat) (t : PageTrace) : Prop :=
  PageInv (bootTable busy behind pages) (freeFrames (bootTable busy behind pages) pages).card
    pages t.state t.live

theorem bootTrace_inv (hframe0 : busy 0 = true) :
    BootInv busy behind pages (bootTrace busy behind pages) := by
  have hconfined := bootState_confined behind pages hframe0
  have hcount := hconfined.exact_count
  have hsame := freeFrames_congr (fun f => memoryInit_count pages
    (bootTable busy behind pages) f) pages
  rw [BootInv, bootTrace, ← hsame]
  exact hcount ▸ hconfined.page

theorem BootInv.next {t : PageTrace} (h : BootInv busy behind pages t) (op : PageOp pages) :
    BootInv busy behind pages (pageStep t op) :=
  pageStep_inv t op h

end

/-- In every run, over every boot table with frame 0 busy and whatever memory follows
it: no request fails while the zone has a block for it, if and only if there are frames
to spare at every such request. -/
theorem no_spurious_failure_iff (busy : Nat → Bool) (behind : Nat → Page) (pages : Nat)
    (hframe0 : busy 0 = true) (ops : List (PageOp pages)) :
    EveryStep pageStep NoSpuriousFailure (bootTrace busy behind pages) ops ↔
      EveryStep pageStep FramesToSpare (bootTrace busy behind pages) ops := by
  apply EveryStep.iff_of_invariant (J := BootInv busy behind pages)
  · exact bootTrace_inv hframe0
  · exact fun t op ht => noSpuriousFailure_iff ht rfl op
  · exact fun t op ht _ => ht.next op

/-- Two pages of a zone of 4 pages with frame 0 busy. -/
theorem two_of_three_pages :
    EveryStep pageStep NoSpuriousFailure
      (bootTrace (fun f => f == 0) (fun _ => ⟨⟨0, 0⟩, 0, 0, 0, 0, 0, none⟩) 4)
      ([.alloc 0 1] : List (PageOp 4)) := by
  refine (no_spurious_failure_iff _ _ 4 rfl _).mpr ⟨?_, trivial⟩
  intro _ _
  decide +kernel

section

variable {busy : Nat → Bool} {behind : Nat → Page} {pages : Nat} {t : PageTrace}

theorem framesBehind_of_single (horder : ∀ b ∈ t.live, b.order = 0)
    (hhead : ∀ b ∈ t.live, b.first < pages) : framesBehind pages t.live = 0 := by
  rw [framesBehind, List.sum_eq_zero_iff_forall_eq_nat]
  simp only [List.mem_map]
  rintro _ ⟨b, hb, rfl⟩
  have hfirst := hhead b hb
  rw [horder b hb, Nat.pow_zero]
  omega

theorem zoneBlock_of_free {f : Nat} (ht : BootInv busy behind pages t)
    (hf : f ∈ freeFrames t.state.memMap pages) : ZoneBlock t.state 0 f := by
  simp only [freeFrames, Finset.mem_filter, Finset.mem_range] at hf
  constructor
  · rw [ht.zone]
    exact hf.1
  · intro j hj
    obtain rfl : j = 0 := by omega
    exact hf.2

/-- Single pages are handed out until one is left. -/
theorem single_pages {n : Nat} (ht : BootInv busy behind pages t)
    (horder : ∀ b ∈ t.live, b.order = 0)
    (hcard : (freeFrames t.state.memMap pages).card = n + 1) :
    ∃ t', (List.replicate n (.alloc 0 0 : PageOp pages)).foldl pageStep t = t' ∧
      BootInv busy behind pages t' ∧ t'.state.zone.freePages = 1 ∧
      ∃ f, ZoneBlock t'.state 0 f := by
  induction n generalizing t with
  | zero =>
      have hexact := ht.freePages_add rfl
      rw [framesBehind_of_single horder ht.head_lt] at hexact
      obtain ⟨f, hf⟩ := Finset.card_pos.mp (by omega : 0 < (freeFrames t.state.memMap pages).card)
      exact ⟨t, rfl, ht, by omega, f, zoneBlock_of_free ht hf⟩
  | succ n ih =>
      have hexact := ht.freePages_add rfl
      rw [framesBehind_of_single horder ht.head_lt] at hexact
      obtain ⟨f, hf⟩ := Finset.card_pos.mp (by omega : 0 < (freeFrames t.state.memMap pages).card)
      obtain ⟨first, s', -, hcall, -, hs'⟩ := allocPages_first_fit t.state 0 0 (Nat.zero_le _)
        (by rw [Nat.pow_zero]; omega) ⟨f, zoneBlock_of_free ht hf⟩
      have hnext : pageStep t (.alloc 0 0 : PageOp pages) = ⟨s', ⟨first, 0⟩ :: t.live⟩ := by
        simp only [pageStep, hcall]
      have hinv := ht.next (.alloc 0 0)
      have hsingle : ∀ b ∈ (pageStep t (.alloc 0 0 : PageOp pages)).live, b.order = 0 := by
        rw [hnext]
        exact List.forall_mem_cons.mpr ⟨rfl, horder⟩
      have hafter := hinv.freePages_add rfl
      rw [framesBehind_of_single hsingle hinv.head_lt] at hafter
      apply ih hinv hsingle
      rw [← hafter, hnext]
      simp only [hs'.zone]
      omega

/-- From the boot on, every machine with a free page can come to its last one, which no
request gets. -/
theorem last_page_reached (behind : Nat → Page) (hframe0 : busy 0 = true) {f : Nat}
    (hf : f < pages) (hfree : busy f = false) :
    ∃ ops : List (PageOp pages), ∃ t,
      ops.foldl pageStep (bootTrace busy behind pages) = t ∧
      (allocPages 0 0 t.state).1 = none ∧ ∃ f, ZoneBlock t.state 0 f := by
  have hmem : f ∈ freeFrames (bootTrace busy behind pages).state.memMap pages := by
    refine Finset.mem_filter.mpr ⟨Finset.mem_range.mpr hf, ?_⟩
    simp only [IsFree, bootTrace, bootState, memoryInit_count, bootTable, if_pos hf, memMapInit,
      hfree, Bool.false_eq_true, if_false]
  obtain ⟨n, hn⟩ := Nat.exists_eq_succ_of_ne_zero (Finset.card_ne_zero_of_mem hmem)
  obtain ⟨t, hrun, -, hone, hblock⟩ :=
    single_pages (@bootTrace_inv busy behind pages hframe0) (by simp [bootTrace]) hn
  refine ⟨_, t, hrun, ?_, hblock⟩
  rcases allocPages_cases 0 0 t.state with ⟨-, hguard, -⟩ | ⟨hcall, -⟩
  · rw [hone] at hguard
    exact absurd hguard (by norm_num)
  · rw [hcall]

end

/-- The frames `mem_map_init` marks with 16 MB: BIOS data, video memory and kernel image,
and the boot heap. -/
def smallMachineBusy (f : Nat) : Bool := f == 0 || 0x9f ≤ f && f < 0x262

/-- On such a machine, single pages are requested until the zone has none. -/
theorem last_page_never_given :
    ¬ (∀ (busy : Nat → Bool) (behind : Nat → Page) (pages : Nat) (_ : busy 0 = true)
        (ops : List (PageOp pages)),
        EveryStep pageStep NoSpuriousFailure (bootTrace busy behind pages) ops) := by
  intro h
  let behind : Nat → Page := fun _ => ⟨⟨0, 0⟩, 0, 0, 0, 0, 0, none⟩
  obtain ⟨ops, t, rfl, hnone, hblock⟩ :=
    @last_page_reached smallMachineBusy 4096 behind rfl 1 (by norm_num) rfl
  have hrun := h smallMachineBusy behind 4096 rfl (ops ++ [.alloc 0 0])
  rw [EveryStep.append_iff] at hrun
  exact hrun.2.1 (Nat.zero_le _) hnone hblock

end Caos
