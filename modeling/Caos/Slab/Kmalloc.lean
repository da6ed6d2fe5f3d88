import Caos.Slab.Invariant

/-!
What one pass of the retry loop of `caos_kmalloc` can do, and with it what a
call can do to the heap: grow some caches, and then perhaps take an object from
a listed slab that has a free one.
-/

namespace Caos

open Lib

variable {σ : Type} {A : PageAllocator σ} {r r' : Retry σ} {h h' : Heap σ}
  {size flags fuel cachep : Nat} {result : KmallocResult}

/-- A pass that continues has grown the cache, and goes to the next cache after
the second time. -/
theorem retryStep_inl (hstep : retryStep A flags r = .inl r') :
    (r.heap.cacheCache r.cacheIndex).slabs ≠ none ∧
      r'.heap = (kmemCacheGrow A r.cacheIndex flags r.heap).2 ∧
      (r'.cacheIndex = r.cacheIndex ∧ r.retryCount = 0 ∧ r'.retryCount = 1 ∨
        r'.cacheIndex = r.cacheIndex + 1 ∧ r.retryCount ≠ 0 ∧ r'.retryCount = 0) := by
  simp only [retryStep] at hstep
  split at hstep
  · cases hstep
  split at hstep
  · cases hstep
  next slabs hslabs =>
    split at hstep
    · cases hstep
    · split at hstep
      · obtain rfl := Sum.inl.inj hstep
        exact ⟨by simp [hslabs], rfl, .inr ⟨rfl, by omega, rfl⟩⟩
      · obtain rfl := Sum.inl.inj hstep
        exact ⟨by simp [hslabs], rfl, .inl ⟨rfl, by omega, by simp; omega⟩⟩

/-- An object that a pass returns is the first free one of a slab of the cache. -/
theorem retryStep_inr (hstep : retryStep A flags r = .inr (result, h')) :
    (r.retryCount > kmallocRetryMax ∧ result = .null ∧ h' = r.heap) ∨
    ((r.heap.cacheCache r.cacheIndex).slabs = none ∧ result = .fault ∧ h' = r.heap) ∨
    (∃ slabp ∈ r.heap.slabsOf r.cacheIndex,
      hasFree r.heap (r.heap.cacheCache r.cacheIndex) slabp = true ∧
      result = .object (takeObject r.cacheIndex slabp r.heap).1 r.cacheIndex ∧
      h' = (takeObject r.cacheIndex slabp r.heap).2) := by
  simp only [retryStep] at hstep
  split at hstep
  · next hcount =>
      cases hstep
      exact .inl ⟨hcount, rfl, rfl⟩
  split at hstep
  · next hnone =>
      cases hstep
      exact .inr (.inl ⟨hnone, rfl, rfl⟩)
  next slabs hslabs =>
    split at hstep
    · next slabp hfound =>
        cases hstep
        refine .inr (.inr ⟨slabp, ?_, List.find?_some hfound, rfl, rfl⟩)
        simpa [Heap.slabsOf, hslabs] using List.mem_of_find?_eq_some hfound
    · split at hstep <;> cases hstep

/-- A call of `caos_kmalloc`, for an assertion `I` that growing a cache keeps:
it ends without an object in `I`, or takes an object in `I`. -/
theorem caosKmalloc_cases {I : Heap σ → Prop}
    (hgrow : ∀ h cachep flags, I h → (h.cacheCache cachep).slabs ≠ none →
      I (kmemCacheGrow A cachep flags h).2)
    (h0 : I h) (hcall : caosKmalloc A size flags fuel h = some (result, h')) :
    (∀ addr cachep, result ≠ .object addr cachep) ∧ I h' ∨
    (∃ h₁ cachep, I h₁ ∧ ∃ slabp ∈ h₁.slabsOf cachep,
      hasFree h₁ (h₁.cacheCache cachep) slabp = true ∧
      result = .object (takeObject cachep slabp h₁).1 cachep ∧
      h' = (takeObject cachep slabp h₁).2) := by
  simp only [caosKmalloc] at hcall
  split at hcall
  · cases hcall
    exact .inl ⟨by simp, h0⟩
  · obtain ⟨t, hvisit, hexit⟩ := iterate_exit hcall
    have hI : I t.heap := by
      apply hvisit.invariant (I := fun r => I r.heap) h0
      intro r r' hr hstep
      obtain ⟨hslabs, hheap, _⟩ := retryStep_inl hstep
      rw [hheap]
      exact hgrow r.heap r.cacheIndex flags hr hslabs
    rcases retryStep_inr hexit with
      ⟨_, rfl, rfl⟩ | ⟨_, rfl, rfl⟩ | ⟨slabp, hmem, hfree, rfl, rfl⟩
    · exact .inl ⟨by simp, hI⟩
    · exact .inl ⟨by simp, hI⟩
    · exact .inr ⟨t.heap, t.cacheIndex, hI, slabp, hmem, hfree, rfl, rfl⟩

section Invariant

variable {Holds : σ → Set Block → Prop} {others : Set Block} {slabp objp : Nat}

theorem HeapInv.take (hinv : HeapInv A Holds others h) :
    HeapInv A Holds others (takeObject cachep slabp h).2 := by
  apply hinv.setSlab
  all_goals
    intro b
    rcases eq_or_ne b slabp with rfl | hne
    · rw [modifyAt_same]
    · rw [modifyAt_of_ne _ hne]

theorem HeapInv.put (hinv : HeapInv A Holds others h) (objIndex : Nat) :
    HeapInv A Holds others (putObject slabp objIndex h) := by
  apply hinv.setSlab
  all_goals
    intro b
    rcases eq_or_ne b slabp with rfl | hne
    · rw [modifyAt_same]
    · rw [modifyAt_of_ne _ hne]

theorem HeapInv.kmalloc (spec : PageSpec A Holds) (hinv : HeapInv A Holds others h)
    (hcall : caosKmalloc A size flags fuel h = some (result, h')) :
    HeapInv A Holds others h' := by
  have hgrow : ∀ h c flags, HeapInv A Holds others h → (h.cacheCache c).slabs ≠ none →
      HeapInv A Holds others (kmemCacheGrow A c flags h).2 := by
    intro h c flags hI hslabs
    rcases hI.grow spec (hI.table.lt_of_slabs hslabs) flags with
      ⟨s, hcall, hnext, _⟩ | ⟨first, s, hcall, hnext, _⟩
    · rwa [hcall]
    · rwa [hcall]
  rcases caosKmalloc_cases hgrow hinv hcall with ⟨_, hI⟩ | ⟨h₁, c, hI, slabp, _, _, _, rfl⟩
  · exact hI
  · exact hI.take

/-- What `caos_kfree` can do with any address. -/
theorem caosKfree_cases (hcall : caosKfree A objp h = some h') :
    h' = h ∨ ∃ slabp objIndex, (A.page h.pages (virtToPfn objp)).slab = some slabp ∧
      (h.slabAt slabp).inuse ≠ 0 ∧ h' = putObject slabp objIndex h := by
  simp only [caosKfree] at hcall
  split at hcall
  · exact .inl (Option.some.inj hcall).symm
  next slabp hslab =>
    split at hcall
    · exact .inl (Option.some.inj hcall).symm
    · split at hcall
      · exact .inl (Option.some.inj hcall).symm
      next hinuse =>
        split at hcall
        · exact .inr ⟨slabp, _, hslab, by omega, (Option.some.inj hcall).symm⟩
        · cases hcall

theorem HeapInv.kfree (hinv : HeapInv A Holds others h)
    (hcall : caosKfree A objp h = some h') : HeapInv A Holds others h' := by
  rcases caosKfree_cases hcall with rfl | ⟨slabp, objIndex, _, _, rfl⟩
  · exact hinv
  · exact hinv.put objIndex

/-- Every call keeps the invariant, whatever is freed. -/
theorem HeapInv.step (spec : PageSpec A Holds) {t t' : HeapTrace σ} {op : HeapOp}
    (hinv : ∃ others, HeapInv A Holds others t.heap) (hstep : HeapStep A t op t') :
    ∃ others, HeapInv A Holds others t'.heap := by
  obtain ⟨others, hinv⟩ := hinv
  cases hstep with
  | kmallocNull hcall => exact ⟨others, hinv.kmalloc spec hcall⟩
  | kmallocObject hcall => exact ⟨others, hinv.kmalloc spec hcall⟩
  | kfree hcall => exact ⟨others, hinv.kfree hcall⟩
  | shrink hcall =>
      rcases hinv.shrink spec hcall with ⟨rfl, _⟩ | ⟨_, _, others', _, _, _, hnext, _⟩
      · exact ⟨others, hinv⟩
      · exact ⟨others', hnext⟩

/-- The heap `kmem_cache_init` leaves: the block of the table is the only one
taken, and all lists are empty. -/
structure Initialised (A : PageAllocator σ) (Holds : σ → Set Block → Prop) (s : σ)
    (blocks : Set Block) (h : Heap σ) : Prop where
  inv : ∃ cachePage, HeapInv A Holds (insert ⟨cachePage, cacheCachePage⟩ blocks) h
  empty : ∀ cachep, h.slabsOf cachep = []
  slab : ∀ i, (A.page h.pages i).slab = (A.page s i).slab

theorem kmemCacheInit_spec (spec : PageSpec A Holds) {s : σ} {blocks : Set Block}
    (h0 : Holds s blocks) {memory : Nat → Slab} (hinit : kmemCacheInit A memory s = some h) :
    Initialised A Holds s blocks h := by
  obtain ⟨table, htable, hspecs, hempty⟩ := createDefaults_isTable
  have hslab := spec.alloc_slab 0 cacheCachePage s
  simp only [kmemCacheInit, htable, Option.map_some] at hinit
  rcases hcall : A.allocPages 0 cacheCachePage s with ⟨_ | first, s₁⟩
  · rw [hcall] at hinit
    cases hinit
  rw [hcall] at hinit hslab
  let I : Nat → σ → Prop := fun _ t =>
    Holds t (insert ⟨first, cacheCachePage⟩ blocks) ∧
      ∀ i, (A.page t i).slab = (A.page s₁ i).slab
  have hmark : I 0 (forDownFrom
      (fun i s => A.setPage (first + i) (setPageSlab (A.page s (first + i))) s)
      (2 ^ cacheCachePage) s₁) := by
    apply forDownFrom_invariant
    · exact ⟨(spec.alloc_some h0 hcall).1, fun _ => rfl⟩
    · intro i t _ ht
      refine ⟨spec.setPage_holds ht.1 rfl rfl rfl, ?_⟩
      intro j
      rw [spec.page_setPage]
      split
      · next heq => exact heq ▸ ht.2 j
      · exact ht.2 j
  have heq := Option.some.inj hinit
  have hcaches : h.cacheCache = table := by rw [← heq]
  have hpages : I 0 h.pages := by rw [← heq]; exact hmark
  have hnone : ∀ c, h.slabsOf c = [] := by
    intro c
    rw [Heap.slabsOf, hcaches]
    exact hempty c
  refine ⟨⟨first, HeapInv.of_empty ?_ hpages.1 hnone⟩, hnone, ?_⟩
  · rw [hcaches]
    exact hspecs
  · intro i
    exact (hpages.2 i).trans (hslab i)

end Invariant

end Caos
