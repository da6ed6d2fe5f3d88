import Caos.Memory.PageConfinement

/-!
`__alloc_pages` as first fit. The scan jumps behind every busy page it meets inside a
run, and its inner loop may look beyond the zone; the block it returns is all the same
the one that a comparison of every start with the whole run would choose, as long as
some run lies inside the zone.
-/

namespace Caos

open Lib

/-- A run of `2^order` descriptors of the zone with count 0 begins at `f`. -/
structure ZoneBlock (s : PageState) (order f : Nat) : Prop where
  inside : f + 2 ^ order ≤ s.zone.pages
  free : Window (IsFree s.memMap) f (2 ^ order)

/-- `s'` is `s` with the block at `first` handed out. -/
structure HandedOut (gfpMask order first : Nat) (s s' : PageState) : Prop where
  block : ∀ i ∈ blockFrames first order, s'.memMap i =
    { s.memMap i with
      count := 1
      flags := gfpMask
      priv := if i = first then order else (s.memMap i).priv }
  others : ∀ i ∉ blockFrames first order, s'.memMap i = s.memMap i
  zone : s'.zone = { s.zone with freePages := s.zone.freePages - 2 ^ order }

section

variable {s : PageState} {gfpMask order first : Nat}

theorem takeBlock_handedOut :
    HandedOut gfpMask order first s (takeBlock gfpMask order first s) := by
  constructor
  · intro i hi
    rw [takeBlock_memMap, if_pos hi]
  · intro i hi
    rw [takeBlock_memMap, if_neg hi]
  · exact takeBlock_zone

theorem allocPages_of_le (horder : order ≤ maxPageOrder) :
    allocPages gfpMask order s = allocPagesCore gfpMask order s := by
  rw [allocPages, if_neg (Nat.not_lt.mpr horder)]

/-- The first fit of a zone that has a block is its least block. -/
theorem FirstFit.isLeast (hfit : FirstFit s.memMap s.zone.pages (2 ^ order) first)
    (hblock : ∃ f, ZoneBlock s order f) : IsLeast {f | ZoneBlock s order f} first := by
  obtain ⟨f, hf⟩ := hblock
  constructor
  · exact ⟨hfit.inside ⟨f, hf.inside, hf.free⟩, hfit.window⟩
  · intro g hg
    by_contra hlt
    exact hfit.least g (by omega) hg.free

end

/-- Over every table and every fragmentation: `alloc_pages` and `__alloc_pages` hand out
the least block of the zone, and change nothing else. -/
theorem allocPages_first_fit (s : PageState) (gfpMask order : Nat)
    (horder : order ≤ maxPageOrder) (hfree : 2 ^ order < s.zone.freePages)
    (hblock : ∃ f, ZoneBlock s order f) :
    ∃ first s', allocPagesCore gfpMask order s = (some first, s') ∧
      allocPages gfpMask order s = (some first, s') ∧
      IsLeast {f | ZoneBlock s order f} first ∧ HandedOut gfpMask order first s s' := by
  rcases allocPages_cases gfpMask order s with ⟨-, -, first, hfit, hcall⟩ | ⟨-, hno⟩
  · refine ⟨first, takeBlock gfpMask order first s, ?_, hcall, hfit.isLeast hblock, ?_⟩
    · rw [← allocPages_of_le horder]
      exact hcall
    · exact takeBlock_handedOut
  · obtain ⟨f, hf⟩ := hblock
    have hpos := Nat.two_pow_pos order
    have hinside := hf.inside
    exact absurd hf.free (hno horder hfree f (by omega))

/-- In a zone of 8 pages with frames 0, 2 and 5 busy, two pages are requested. -/
theorem fragmented_zone_first_fit :
    let s : PageState := ⟨memMapInit fun f => f == 0 || f == 2 || f == 5, ⟨5, 8⟩⟩
    ∃ first s', allocPagesCore 7 1 s = (some first, s') ∧ allocPages 7 1 s = (some first, s') ∧
      IsLeast {f | ZoneBlock s 1 f} first ∧ HandedOut 7 1 first s s' := by
  refine allocPages_first_fit _ 7 1 (by decide) (by decide) ⟨3, by decide, ?_⟩
  intro j hj
  interval_cases j <;> rfl

end Caos
