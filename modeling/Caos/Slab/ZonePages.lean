import Caos.Slab.Pages

/-!
`page_alloc.c` is a page allocator as the heap expects it: its operations keep
the correspondence between the descriptor table and the blocks not yet freed,
and they leave the fields `slab` and `virtual` of every descriptor alone.
-/

namespace Caos

open Lib

/-- `page_alloc.c` over the only zone. -/
def zoneAllocator : PageAllocator PageState where
  allocPages := allocPages
  freePages := freePages
  page s i := s.memMap i
  setPage i p s := { s with memMap := Function.update s.memMap i p }

/-- The blocks not yet freed in a zone that came up with the table `boot`. -/
def ZoneHolds (boot : Nat → Page) (freeAtBoot pages : Nat) (s : PageState)
    (blocks : Set Block) : Prop :=
  ∃ live : List Block, PageInv boot freeAtBoot pages s live ∧
    (∀ b, b ∈ live ↔ b ∈ blocks) ∧ ∀ i, (s.memMap i).virtual = frameAddr i

section Frame

variable {s : PageState} {gfpMask order first page : Nat}

theorem allocPages_frame (gfpMask order i : Nat) (s : PageState) :
    ((allocPages gfpMask order s).2.memMap i).slab = (s.memMap i).slab ∧
      ((allocPages gfpMask order s).2.memMap i).virtual = (s.memMap i).virtual := by
  rcases allocPages_cases gfpMask order s with ⟨_, _, first, _, hcall⟩ | ⟨hcall, _⟩
  · rw [hcall, takeBlock_memMap]
    split <;> exact ⟨rfl, rfl⟩
  · rw [hcall]
    exact ⟨rfl, rfl⟩

end Frame

section Spec

variable {boot : Nat → Page} {freeAtBoot pages : Nat} {s : PageState} {live : List Block}

theorem PageInv.setPage (h : PageInv boot freeAtBoot pages s live) {i : Nat} {p : Page}
    (hcount : p.count = (s.memMap i).count) (hpriv : p.priv = (s.memMap i).priv) :
    PageInv boot freeAtBoot pages { s with memMap := Function.update s.memMap i p } live := by
  have hcounts : ∀ f, (Function.update s.memMap i p f).count = (s.memMap f).count := by
    intro f
    rw [Function.update_apply]
    split
    · next heq => rw [hcount, heq]
    · rfl
  have hprivs : ∀ f, (Function.update s.memMap i p f).priv = (s.memMap f).priv := by
    intro f
    rw [Function.update_apply]
    split
    · next heq => rw [hpriv, heq]
    · rfl
  refine ⟨h.zone, h.boot_priv, h.order_le, h.head_lt, h.disjoint, h.boot_free, ?_, ?_, ?_,
    h.accounted⟩
  · intro f
    exact (hcounts f).trans (h.count f)
  · intro b hb
    exact (hprivs b.first).trans (h.priv_head b hb)
  · intro f hf
    exact (hprivs f).trans (h.priv_other f hf)

/-- The laws of the interface, for every zone that fits into the address space. -/
theorem zoneAllocator_spec (boot : Nat → Page) (freeAtBoot : Nat)
    (hpages : pages + 2 ^ maxPageOrder ≤ maxFrames) :
    PageSpec zoneAllocator (ZoneHolds boot freeAtBoot pages) := by
  constructor
  · intro i p s j
    simp only [zoneAllocator, Function.update_apply]
  · intro i p s blocks h hcount hpriv hvirtual
    obtain ⟨live, hinv, hmem, hvirt⟩ := h
    refine ⟨live, hinv.setPage hcount hpriv, hmem, ?_⟩
    intro j
    simp only [zoneAllocator, Function.update_apply]
    split
    · next heq => rw [hvirtual, heq]; exact hvirt i
    · exact hvirt j
  · intro gfpMask order s s' blocks h hcall
    rcases allocPages_cases gfpMask order s with ⟨_, _, first, _, htake⟩ | ⟨hfail, _⟩
    · cases hcall.symm.trans htake
    · cases hcall.symm.trans hfail
      exact h
  · intro gfpMask order s s' blocks first h hcall
    obtain ⟨live, hinv, hmem, hvirt⟩ := h
    have hframe := fun i => (allocPages_frame gfpMask order i s).2
    rcases allocPages_cases gfpMask order s with ⟨horder, hfree, f, hfit, htake⟩ | ⟨hfail, _⟩
    · cases hcall.symm.trans htake
      have hnext : PageInv boot freeAtBoot pages (takeBlock gfpMask order first s) _ :=
        hinv.take horder hfree (hinv.zone ▸ hfit.below) hfit.window
      refine ⟨⟨⟨first, order⟩ :: live, hnext, ?_, ?_⟩, ?_⟩
      · intro b
        rw [List.mem_cons, Set.mem_insert_iff, hmem]
      · intro i
        have hi := hframe i
        rw [htake] at hi
        exact hi.trans (hvirt i)
      · intro b hb
        have hdisj := (List.pairwise_cons.mp hnext.disjoint).1 b ((hmem b).mpr hb)
        exact hdisj.symm
    · cases hcall.symm.trans hfail
  · intro gfpMask order s i
    exact (allocPages_frame gfpMask order i s).1
  · intro b s blocks h hb
    obtain ⟨live, hinv, hmem, hvirt⟩ := h
    have hlive : (⟨b.first, b.order⟩ : Block) ∈ live := (hmem b).mpr hb
    refine ⟨live.erase b, ?_, ?_, ?_⟩
    · simp only [zoneAllocator, freePages_frameAddr, hinv.free_accept hlive]
      exact hinv.release hlive
    · intro c
      rw [hinv.nodup.mem_erase_iff, Set.mem_sdiff, Set.mem_singleton_iff, hmem, and_comm]
    · intro i
      simp only [zoneAllocator, freePages_frameAddr]
      rw [(freePagesCore_frame b.first b.order i s).1]
      exact hvirt i
  · intro addr order s i
    simp only [zoneAllocator, freePages]
    split
    · rfl
    · rw [(freePagesCore_frame (virtToPfn addr) order i s).1]
  · intro s blocks h b _
    obtain ⟨_, _, _, hvirt⟩ := h
    exact hvirt b.first
  · intro s blocks h b hb
    obtain ⟨live, hinv, hmem, _⟩ := h
    have horder := hinv.order_le b ((hmem b).mpr hb)
    have hfirst := hinv.head_lt b ((hmem b).mpr hb)
    have hpow : 2 ^ b.order ≤ 2 ^ maxPageOrder := Nat.pow_le_pow_right (by decide) horder
    omega

/-- Before any call no block is taken. -/
theorem zoneHolds_start (busy : Nat → Bool) (pages : Nat) :
    ZoneHolds (memMapInit busy) (memoryInit pages (memMapInit busy)).zone.freePages pages
      (memoryInit pages (memMapInit busy)) ∅ :=
  ⟨[], memoryInit_inv fun _ _ => rfl, by simp, fun i => memoryInit_virtual pages _ i⟩

end Spec

end Caos
