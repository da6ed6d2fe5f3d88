import Caos.Boot.FrameTable
import Caos.Boot.HandOver

/-!
The memory an application processor needs to start. `wake_ap` makes it execute
`setup.asm` once more, with the GDT and the page tables of the first boot. These
frames are free in `mem_map`, and the first fit search begins below them.
-/

namespace Caos

open Lib

/-- `GDT_ADDR`. -/
def gdtAddr : Nat := 0x8000

/-- `AP_INIT_ADDRESS`, where `setup.asm` is. -/
def apInitAddress : Nat := 0x9000

/-- `PML4_addr`. -/
def pml4Addr : Nat := 0x90000

/-- `BOOTING_PARAMS_ADDR`, from where on the low memory is marked busy. -/
def bootingParamsAddr : Nat := 0x9F000

/-- The frames of the GDT, of the start-up code and of the boot page tables. -/
def ApArea (f : Nat) : Prop :=
  f = gdtAddr / pageSize ∨ f = apInitAddress / pageSize ∨
    (pml4Addr / pageSize ≤ f ∧ f < bootingParamsAddr / pageSize)

theorem apArea_iff {f : Nat} : ApArea f ↔ f = 8 ∨ f = 9 ∨ 0x90 ≤ f ∧ f < 0x9f := Iff.rfl

/-- If the request is scanned for, then there is a run of free frames long enough below
frame 8, or none that meets frames 8 and 9 and one between them and frame 0x90, or none
at all that meets the area. Only runs that start in the zone are meant. -/
def FitsOutside (s : PageState) : PageCall → Prop
  | .alloc _ order =>
    order ≤ maxPageOrder → 2 ^ order < s.zone.freePages →
      (∃ f < s.zone.pages, Window (IsFree s.memMap) f (2 ^ order) ∧ f + 2 ^ order ≤ 8) ∨
      ((∀ f < s.zone.pages, Window (IsFree s.memMap) f (2 ^ order) → f + 2 ^ order ≤ 8 ∨ 10 ≤ f) ∧
        ∃ f < s.zone.pages, Window (IsFree s.memMap) f (2 ^ order) ∧ 10 ≤ f ∧
          f + 2 ^ order ≤ 0x90) ∨
      ∀ f < s.zone.pages, Window (IsFree s.memMap) f (2 ^ order) →
        ∀ g ∈ blockFrames f order, ¬ ApArea g
  | .free _ _ => True

section

variable {s : PageState} {order first : Nat}

/-- A block outside the area lies below it, in its gap, or above it. -/
theorem block_outside_iff : (∀ f ∈ blockFrames first order, ¬ ApArea f) ↔
    first + 2 ^ order ≤ 8 ∨ (10 ≤ first ∧ first + 2 ^ order ≤ 0x90) ∨ 0x9f ≤ first := by
  have hpos := Nat.two_pow_pos order
  simp only [mem_blockFrames, apArea_iff]
  constructor
  · intro h
    have hgdt := h 8
    have hsetup := h 9
    have htables := h (max first 0x90)
    omega
  · intro h f hf
    omega

/-- The first fit avoids the area exactly when the free runs let it. -/
theorem handsOutNone_apArea_iff (s : PageState) (call : PageCall) :
    HandsOutNone ApArea s call ↔ FitsOutside s call := by
  cases call with
  | free page order => exact Iff.rfl
  | alloc gfpMask order =>
      rcases allocPages_cases gfpMask order s with
        ⟨horder, hfree, first, hfit, hcall⟩ | ⟨hcall, hno⟩
      · have hleast : ∀ f, Window (IsFree s.memMap) f (2 ^ order) → first ≤ f := by
          intro f hf
          by_contra hlt
          exact hfit.least f (by omega) hf
        have hresult : HandsOutNone ApArea s (.alloc gfpMask order) ↔
            ∀ f ∈ blockFrames first order, ¬ ApArea f := by
          simp only [HandsOutNone, hcall, Option.some_inj, forall_eq']
        rw [hresult]
        constructor
        · intro hout _ _
          rcases block_outside_iff.mp hout with hlow | hgap | hhigh
          · exact .inl ⟨first, hfit.below, hfit.window, hlow⟩
          · refine .inr (.inl ⟨?_, first, hfit.below, hfit.window, hgap.1, hgap.2⟩)
            intro f _ hf
            have hle := hleast f hf
            omega
          · refine .inr (.inr ?_)
            intro f _ hf
            have hle := hleast f hf
            exact block_outside_iff.mpr (.inr (.inr (by omega)))
        · intro h
          rcases h horder hfree with ⟨f, -, hf, hlow⟩ | ⟨hmeet, f, -, hf, hlo, hhi⟩ | hnone
          · have hle := hleast f hf
            exact block_outside_iff.mpr (.inl (by omega))
          · have hle := hleast f hf
            have hfirst := hmeet first hfit.below hfit.window
            apply block_outside_iff.mpr
            omega
          · exact hnone first hfit.below hfit.window
      · constructor
        · intro _ horder hfree
          refine .inr (.inr ?_)
          intro f hf hwindow
          exact absurd hwindow (hno horder hfree f hf)
        · intro _ first hsome
          rw [hcall] at hsome
          cases hsome

end

/-- Whatever table `mem_map_init` has left, the start-up area is kept in exactly the
runs whose requests all fit outside. -/
theorem apArea_kept_iff (phyMemSize : Nat) (map : Nat → Page) (calls : List PageCall) :
    EveryStep PageCall.next (HandsOutNone ApArea) (memoryInit (zonePages phyMemSize) map) calls ↔
      EveryStep PageCall.next FitsOutside (memoryInit (zonePages phyMemSize) map) calls := by
  apply EveryStep.iff_of_invariant (J := fun _ => True) trivial
  · exact fun s call _ => handsOutNone_apArea_iff s call
  · exact fun _ _ _ _ => trivial

section

variable {b : Bootmem} {memory : Nat → Page} {pages : Nat}

/-- The frames from 1 to 0x9e are free in the table `mem_map_init` leaves. -/
theorem lowFrames_free {f : Nat} (hpages : 0x9f ≤ pages) (hstart : b.start = 0x200)
    (hlo : 0 < f) (hhi : f < 0x9f) : IsFree (b.descriptor pages memory) f := by
  have hfree : ¬ b.busy f = true := by
    rw [Bootmem.busy_iff, hstart]
    omega
  rw [IsFree, Bootmem.descriptor_of_lt (by omega)]
  simp only [if_neg hfree]

theorem lowFrames_counted (hpages : 0x9f ≤ pages) (hstart : b.start = 0x200) :
    158 ≤ (memoryInit pages (b.descriptor pages memory)).zone.freePages := by
  have hbusy : b.busy 0 = true := by rw [Bootmem.busy_iff]; exact .inl rfl
  have hlow : Finset.Ico 1 0x9f ⊆ freeFrames (b.descriptor pages memory) pages := by
    intro f hf
    rw [Finset.mem_Ico] at hf
    simp only [freeFrames, Finset.mem_filter, Finset.mem_range]
    exact ⟨by omega, lowFrames_free hpages hstart (by omega) hf.2⟩
  have hcard := Finset.card_le_card hlow
  rw [Nat.card_Ico] at hcard
  rw [memoryInit_freePages]
  · exact hcard
  · rw [Bootmem.descriptor_of_lt (by omega)]
  · rw [Bootmem.descriptor_of_lt (by omega)]
    simp only [hbusy, if_true, ne_eq, one_ne_zero, not_false_eq_true]

/-- The first request gets the frames from 1 on. -/
theorem lowFrames_first {order : Nat} (horder : order ≤ maxPageOrder) (hpages : 0x9f ≤ pages)
    (hstart : b.start = 0x200) :
    (allocPages 0 order (memoryInit pages (b.descriptor pages memory))).1 = some 1 := by
  have hcounted := @lowFrames_counted b memory pages hpages hstart
  have hbusy : b.busy 0 = true := by rw [Bootmem.busy_iff]; exact .inl rfl
  have hcount : 2 ^ order ≤ 2 ^ maxPageOrder := Nat.pow_le_pow_right (by decide) horder
  rw [show 2 ^ maxPageOrder = 32 from rfl] at hcount
  have hfit :
      FirstFit (memoryInit pages (b.descriptor pages memory)).memMap pages (2 ^ order) 1 := by
    constructor
    · omega
    · intro j hj
      rw [IsFree, memoryInit_count]
      exact lowFrames_free hpages hstart (by omega) (by omega)
    · intro g hg hwindow
      have hpos := Nat.two_pow_pos order
      have hzero : IsFree (memoryInit pages (b.descriptor pages memory)).memMap 0 :=
        hwindow.free_of_mem (by omega) (by omega)
      rw [IsFree, memoryInit_count, Bootmem.descriptor_of_lt (by omega)] at hzero
      simp only [hbusy, if_true, one_ne_zero] at hzero
  rcases allocPages_cases 0 order (memoryInit pages (b.descriptor pages memory)) with
    ⟨-, -, first, hfirst, hcall⟩ | ⟨-, hno⟩
  · rw [memoryInit_pages] at hfirst
    rw [hcall, hfirst.unique hfit]
  · refine absurd hfit.window (hno horder ?_ 1 ?_)
    · omega
    · rw [memoryInit_pages]
      omega

end

/-- The first request for 8 pages after a boot takes the page of the GDT. -/
theorem eight_pages_take_gdt :
    ¬ ∀ (phyMemSize : Nat) (mem : Nat → Nat) (memory : Nat → Page) (memMap : Nat)
        (map : Nat → Page) (b : Bootmem), 16 ≤ phyMemSize →
      setupArch phyMemSize mem memory = some (memMap, map, b) → ∀ calls : List PageCall,
      EveryStep PageCall.next (HandsOutNone ApArea) (memoryInit (zonePages phyMemSize) map)
        calls := by
  intro h
  have hboot := @setupArch_eq 16 (by norm_num) (by norm_num) (fun _ => 0)
    (fun _ => ⟨⟨0, 0⟩, 0, 0, 0, 0, 0, none⟩)
  rw [if_pos (by norm_num)] at hboot
  have hrun := (h 16 _ _ _ _ _ (by norm_num) hboot [.alloc 0 3]).1
  have hfirst := @lowFrames_first ⟨0x200, 0x211 + 16 / 2 + memMapPages 16, 0x7FF⟩
    (fun _ => ⟨⟨0, 0⟩, 0, 0, 0, 0, 0, none⟩) 4096 3 (by decide) (by norm_num) rfl
  exact hrun 1 hfirst 8 (by decide) (.inl rfl)

end Caos
