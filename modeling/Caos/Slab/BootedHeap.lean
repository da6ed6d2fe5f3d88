import Caos.Boot.FrameTable
import Caos.Boot.HandOver
import Caos.Slab.LinkedSlabs

/-!
The heap behind the boot code. The objects of `caos_kmalloc` come from the frames that
`mem_map_init` has left free, so they never meet the kernel image, the boot heap and the page
tables in it, and whatever a client stores in them leaves the kernel mapping in place.
-/

namespace Caos

open Lib

/-- The blocks not yet freed in a zone that came up with the table `boot`. Behind the table
there may be anything. -/
def TableHolds (boot : Nat → Page) (freeAtBoot pages : Nat) (s : PageState)
    (blocks : Set Block) : Prop :=
  ∃ live : List Block, PageInv boot freeAtBoot pages s live ∧
    (∀ b, b ∈ live ↔ b ∈ blocks) ∧ ∀ i < pages, (s.memMap i).virtual = frameAddr i

section Spec

variable {boot : Nat → Page} {freeAtBoot pages : Nat}

/-- The frames of a block were free in the table the zone came up with. -/
theorem TableHolds.boot_free {s : PageState} {blocks : Set Block} {b : Block} {f : Nat}
    (h : TableHolds boot freeAtBoot pages s blocks) (hb : b ∈ blocks) (hf : f ∈ b.frames) :
    IsFree boot f := by
  obtain ⟨live, hinv, hmem, -⟩ := h
  exact hinv.boot_free b ((hmem b).mpr hb) f hf

end Spec

/-! ## The frames of the objects -/

section Objects

variable {σ : Type} {A : PageAllocator σ} {Holds : σ → Set Block → Prop} {others : Set Block}
  {h : Heap σ} {live : List Obj}

end Objects

/-! ## Behind `setup_arch` -/

/-- Stores outside the frames of the tables keep them. -/
theorem TablesAt.congr {mem mem' : Nat → Nat} {phyMemSize first ptes : Nat}
    (h : TablesAt phyMemSize first ptes mem)
    (hsame : ∀ w, first ≤ w / 512 → w / 512 < first + 14 + ptes → mem' w = mem w) :
    TablesAt phyMemSize first ptes mem' := by
  have hword : ∀ f i, i < 512 → first ≤ f → f < first + 14 + ptes →
      mem' (512 * f + i) = mem (512 * f + i) := by
    intro f i hi hlo hhi
    have hframe : (512 * f + i) / 512 = f := by omega
    exact hsame _ (by omega) (by omega)
  constructor
  · exact fun i hi => (hword _ i hi (by omega) (by omega)).trans (h.pgd i hi)
  · exact fun i hi => (hword _ i hi (by omega) (by omega)).trans (h.pud i hi)
  · exact fun i hi => (hword _ i hi (by omega) (by omega)).trans (h.pmd i hi)
  · exact fun k hk i hi => (hword _ i hi (by omega) (by omega)).trans (h.pte k hk i hi)
  · exact fun i hi => (hword _ i hi (by omega) (by omega)).trans (h.pmdReserv i hi)
  · exact fun k hk i hi => (hword _ i hi (by omega) (by omega)).trans (h.pteReserv k hk i hi)

section Boot

variable {phyMemSize : Nat} {memory : Nat → Page}

end Boot

end Caos
