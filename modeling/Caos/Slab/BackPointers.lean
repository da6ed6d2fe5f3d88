import Caos.Slab.Kmalloc
import Caos.Slab.ZonePages

/-!
The back pointers of page descriptors. When the page allocator records the order
of a block in `private`, as `kmem_freepages` expects, a slab that leaves its list
always gives its pages back, so a descriptor points to a slab exactly as long as
the slab is listed.
-/

namespace Caos

open Lib

variable {σ : Type}

/-- `private` of the first page of a block is its order. -/
def RecordsOrder (A : PageAllocator σ) (Holds : σ → Set Block → Prop) : Prop :=
  ∀ s blocks, Holds s blocks → ∀ b ∈ blocks, (A.page s b.first).priv = b.order

theorem zoneAllocator_recordsOrder (boot : Nat → Page) (freeAtBoot pages : Nat) :
    RecordsOrder zoneAllocator (ZoneHolds boot freeAtBoot pages) := by
  intro s blocks h b hb
  obtain ⟨live, hinv, hmem, _⟩ := h
  exact hinv.priv_head b ((hmem b).mpr hb)

/-- The page belongs to this listed slab. -/
def SlabPage (h : Heap σ) (i slabp : Nat) : Prop :=
  ∃ cachep first, slabp = frameAddr first ∧ slabp ∈ h.slabsOf cachep ∧
    i ∈ blockFrames first (h.cacheCache cachep).gfporder

/-- The invariant of the heap with exact back pointers. -/
structure PagesOwned (A : PageAllocator σ) (Holds : σ → Set Block → Prop)
    (others : Set Block) (h : Heap σ) : Prop where
  inv : HeapInv A Holds others h
  listed : ∀ i slabp, (A.page h.pages i).slab = some slabp → SlabPage h i slabp

variable {A : PageAllocator σ} {Holds : σ → Set Block → Prop} {others : Set Block}
  {h h' : Heap σ} {cachep slabp objp size flags fuel : Nat} {result : KmallocResult}

/-- The back pointer of a page is the slab it belongs to. -/
theorem PagesOwned.slab_iff (ho : PagesOwned A Holds others h) (i slabp : Nat) :
    (A.page h.pages i).slab = some slabp ↔ SlabPage h i slabp := by
  constructor
  · exact ho.listed i slabp
  · intro hpage
    obtain ⟨c, first, rfl, hmem, hi⟩ := hpage
    exact ho.inv.owner c first hmem i hi

theorem PagesOwned.grow (spec : PageSpec A Holds) (ho : PagesOwned A Holds others h)
    (hc : cachep < defaultSpecs.length) (flags : Nat) :
    PagesOwned A Holds others (kmemCacheGrow A cachep flags h).2 := by
  rcases ho.inv.grow spec hc flags with
    ⟨s, hcall, hnext, hslab⟩ | ⟨first, s, hcall, hnext, hfresh, hslab⟩
  · rw [hcall]
    refine ⟨hnext, ?_⟩
    intro i slabp hpage
    rw [hslab] at hpage
    exact ho.listed i slabp hpage
  · rw [hcall]
    refine ⟨hnext, ?_⟩
    have hmem_iff := mem_slabsOf_addSlab ho.inv.table hc (frameAddr first) s
    intro i slabp hpage
    change (A.page s i).slab = some slabp at hpage
    rw [hslab] at hpage
    split at hpage
    · next hi =>
        obtain rfl := Option.some.inj hpage
        exact ⟨cachep, first, rfl, (hmem_iff _ _).mpr (.inl ⟨rfl, rfl⟩), by simpa using hi⟩
    · obtain ⟨c, f, hf, hmem, hi⟩ := ho.listed i slabp hpage
      exact ⟨c, f, hf, (hmem_iff _ _).mpr (.inr hmem), by simpa using hi⟩

theorem PagesOwned.kmalloc (spec : PageSpec A Holds) (ho : PagesOwned A Holds others h)
    (hcall : caosKmalloc A size flags fuel h = some (result, h')) :
    PagesOwned A Holds others h' := by
  have hgrow : ∀ h cachep flags, PagesOwned A Holds others h →
      (h.cacheCache cachep).slabs ≠ none →
      PagesOwned A Holds others (kmemCacheGrow A cachep flags h).2 :=
    fun h cachep flags ho hslabs => ho.grow spec (ho.inv.table.lt_of_slabs hslabs) flags
  rcases caosKmalloc_cases hgrow ho hcall with ⟨_, hI⟩ | ⟨h₁, c, hI, slabp, _, _, _, rfl⟩
  · exact hI
  · exact ⟨hI.inv.take, hI.listed⟩

theorem PagesOwned.kfree (ho : PagesOwned A Holds others h)
    (hcall : caosKfree A objp h = some h') : PagesOwned A Holds others h' := by
  rcases caosKfree_cases hcall with rfl | ⟨slabp, objIndex, _, _, rfl⟩
  · exact ho
  · exact ⟨ho.inv.put objIndex, ho.listed⟩

/-- A call of `kmem_cache_shrink` on a cache with an unused slab takes one off the
list and gives its pages back. -/
theorem PagesOwned.shrink (spec : PageSpec A Holds) (hrec : RecordsOrder A Holds)
    (ho : PagesOwned A Holds others h) (hcall : kmemCacheShrink A cachep h = some h') :
    PagesOwned A Holds others h' ∧
      (h' = h ∧ (∀ slabp ∈ h.slabsOf cachep, (h.slabAt slabp).inuse ≠ 0) ∨
        ∃ slabp ∈ h.slabsOf cachep, (h.slabAt slabp).inuse = 0 ∧
          ∃ s, h' = h.removeSlab cachep slabp s) := by
  rcases ho.inv.shrink spec hcall with
    ⟨rfl, hbusy⟩ | ⟨first, s, others', hmem, hinuse, rfl, hnext, hfreed⟩
  · exact ⟨ho, .inl ⟨rfl, hbusy⟩⟩
  · have hpriv := hrec _ _ ho.inv.holds ⟨first, (h.cacheCache cachep).gfporder⟩
      (.inr ⟨cachep, hmem, rfl⟩)
    obtain ⟨rfl, hslab⟩ := hfreed hpriv
    refine ⟨⟨hnext, ?_⟩, .inr ⟨frameAddr first, hmem, hinuse, s, rfl⟩⟩
    intro i slabp hpage
    change (A.page s i).slab = some slabp at hpage
    rw [hslab] at hpage
    split at hpage
    · cases hpage
    · next hi =>
        obtain ⟨c, f, rfl, hold, hin⟩ := ho.listed i slabp hpage
        refine ⟨c, f, rfl, (mem_slabsOf_removeSlab ho.inv hmem s c _).mpr ⟨hold, ?_⟩,
          by simpa [Heap.removeSlab] using hin⟩
        intro heq
        have hcache := ho.inv.cache_unique (heq ▸ hold) hmem
        obtain rfl := frameAddr_injective heq
        exact hi (hcache ▸ hin)

/-- Every call keeps the back pointers exact, whatever is freed. -/
theorem PagesOwned.step (spec : PageSpec A Holds) (hrec : RecordsOrder A Holds)
    {t t' : HeapTrace σ} {op : HeapOp} (ho : PagesOwned A Holds others t.heap)
    (hstep : HeapStep A t op t') : PagesOwned A Holds others t'.heap := by
  cases hstep with
  | kmallocNull hcall => exact ho.kmalloc spec hcall
  | kmallocObject hcall => exact ho.kmalloc spec hcall
  | kfree hcall => exact ho.kfree hcall
  | shrink hcall => exact (ho.shrink spec hrec hcall).1

/-- `kmem_cache_init` leaves no back pointer if there was none before. -/
theorem Initialised.pagesOwned {s : σ} {blocks : Set Block}
    (hinit : Initialised A Holds s blocks h) (hnone : ∀ i, (A.page s i).slab = none) :
    ∃ cachePage, PagesOwned A Holds (insert ⟨cachePage, cacheCachePage⟩ blocks) h := by
  obtain ⟨cachePage, hinv⟩ := hinit.inv
  refine ⟨cachePage, hinv, ?_⟩
  intro i slabp hpage
  rw [hinit.slab, hnone] at hpage
  cases hpage

end Caos
