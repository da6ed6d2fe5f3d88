import Caos.Slab.Kmalloc

/-!
The walk of `caos_kmalloc` over the table `cache_cache`: the first cache that is
large enough, the passes of the retry loop at one cache, and the fact that no
call other than `kmem_cache_create` changes what the table says about a cache.
-/

namespace Caos

open Lib

variable {σ : Type} {A : PageAllocator σ} {h h' : Heap σ} {specs : List CacheSpec}
  {table : Nat → KmemCache} {size flags fuel cachep i : Nat}

theorem IsTable.objsize_eq (ht : IsTable specs table) {spec : CacheSpec}
    (hi : specs[i]? = some spec) : (table i).objsize = spec.objsize := by
  obtain ⟨slabs, heq⟩ := ht.created i spec hi
  rw [heq]
  rfl

theorem IsTable.name_ne_none (ht : IsTable specs table) :
    (table i).name ≠ none ↔ i < specs.length := by
  rw [← ht.name_isSome i, Option.isSome_iff_ne_none]

/-- The first loop of `caos_kmalloc` stops at the first cache that is large
enough, or behind the last one. -/
theorem findCache_spec (ht : IsTable specs table) (hmax : specs.length ≤ cacheCacheMax)
    (hi : i ≤ specs.length) (hfuel : cacheCacheMax ≤ i + fuel) :
    i ≤ findCache table size fuel i ∧ findCache table size fuel i ≤ specs.length ∧
      (findCache table size fuel i < specs.length →
        size ≤ (table (findCache table size fuel i)).objsize) ∧
      ∀ j, i ≤ j → j < findCache table size fuel i → (table j).objsize < size := by
  induction fuel generalizing i with
  | zero =>
      simp only [findCache]
      exact ⟨Nat.le_refl _, hi, by omega, by omega⟩
  | succ fuel ih =>
      simp only [findCache]
      split
      · next hcond =>
          have hlt := ht.name_ne_none.mp hcond.1
          split
          · next hsize => exact ⟨Nat.le_refl _, hi, fun _ => hsize, by omega⟩
          · next hsize =>
              obtain ⟨hle, hend, hfit, hbefore⟩ := @ih (i + 1) (by omega) (by omega)
              refine ⟨by omega, hend, hfit, ?_⟩
              intro j hij hj
              rcases Nat.eq_or_lt_of_le hij with rfl | hlt'
              · omega
              · exact hbefore j hlt' hj
      · next hcond =>
          have hend : ¬ i < specs.length := by
            intro hlt
            exact hcond ⟨ht.name_ne_none.mpr hlt, by omega⟩
          exact ⟨Nat.le_refl _, hi, fun hlt => absurd hlt hend, by omega⟩

/-- A call enters the retry loop if some cache is large enough, else it returns `NULL`. -/
theorem caosKmalloc_eq (ht : IsTable specs h.cacheCache) (hmax : specs.length ≤ cacheCacheMax) :
    caosKmalloc A size flags fuel h =
      if findCache h.cacheCache size cacheCacheMax 0 < specs.length then
        iterate (retryStep A flags) fuel ⟨findCache h.cacheCache size cacheCacheMax 0, 0, h⟩
      else some (.null, h) := by
  have hname := @IsTable.name_ne_none _ _ (findCache h.cacheCache size cacheCacheMax 0) ht
  simp only [caosKmalloc]
  split
  · next hcond =>
      rw [if_neg]
      intro hlt
      rcases hcond with hnone | hge
      · exact hname.mpr hlt hnone
      · omega
  · next hcond =>
      rw [if_pos]
      apply hname.mp
      intro hnone
      exact hcond (.inl hnone)

section Passes

variable {slabp : Nat} {r : Retry σ}

/-- A pass at a cache with a free object. -/
theorem retryStep_of_free (hcount : r.retryCount ≤ kmallocRetryMax)
    (hmem : slabp ∈ r.heap.slabsOf r.cacheIndex)
    (hfree : hasFree r.heap (r.heap.cacheCache r.cacheIndex) slabp = true) :
    ∃ addr h', retryStep A flags r = .inr (.object addr r.cacheIndex, h') := by
  have hnot : ¬ r.retryCount > kmallocRetryMax := by omega
  simp only [retryStep, hnot, if_false]
  cases hslabs : (r.heap.cacheCache r.cacheIndex).slabs with
  | none => simp [Heap.slabsOf, hslabs] at hmem
  | some slabs =>
      simp only [Heap.slabsOf, hslabs, Option.getD_some] at hmem
      cases hfind : slabs.find? (hasFree r.heap (r.heap.cacheCache r.cacheIndex)) with
      | none => exact absurd hfree (List.find?_eq_none.mp hfind slabp hmem)
      | some b =>
          simp only [hfind]
          exact ⟨_, _, rfl⟩

/-- A pass at a cache without a free object grows the cache, and the second such
pass goes on to the next cache. -/
theorem retryStep_of_full (hcount : r.retryCount ≤ kmallocRetryMax)
    (hslabs : (r.heap.cacheCache r.cacheIndex).slabs ≠ none)
    (hfull : ∀ slabp ∈ r.heap.slabsOf r.cacheIndex,
      hasFree r.heap (r.heap.cacheCache r.cacheIndex) slabp = false) :
    retryStep A flags r =
      .inl (if r.retryCount + 1 > 1 then
        ⟨r.cacheIndex + 1, 0, (kmemCacheGrow A r.cacheIndex flags r.heap).2⟩
      else ⟨r.cacheIndex, r.retryCount + 1, (kmemCacheGrow A r.cacheIndex flags r.heap).2⟩) := by
  have hnot : ¬ r.retryCount > kmallocRetryMax := by omega
  simp only [retryStep, hnot, if_false]
  cases hsome : (r.heap.cacheCache r.cacheIndex).slabs with
  | none => exact absurd hsome hslabs
  | some slabs =>
      simp only [Heap.slabsOf, hsome, Option.getD_some] at hfull
      have hfind : slabs.find? (hasFree r.heap (r.heap.cacheCache r.cacheIndex)) = none := by
        rw [List.find?_eq_none]
        intro b hb
        simp [hfull b hb]
      simp only [hfind]
      split <;> rfl

end Passes

section Table

theorem kmemCacheGrow_isTable (ht : IsTable specs h.cacheCache) (cachep flags : Nat) :
    IsTable specs (kmemCacheGrow A cachep flags h).2.cacheCache := by
  simp only [kmemCacheGrow]
  split
  · exact ht
  · exact ht.updateSlabs _ _

theorem caosKmalloc_isTable (ht : IsTable specs h.cacheCache) {result : KmallocResult}
    (hcall : caosKmalloc A size flags fuel h = some (result, h')) :
    IsTable specs h'.cacheCache := by
  have hgrow : ∀ h cachep flags, IsTable specs h.cacheCache →
      (h.cacheCache cachep).slabs ≠ none →
      IsTable specs (kmemCacheGrow A cachep flags h).2.cacheCache :=
    fun h cachep flags ht _ => kmemCacheGrow_isTable ht cachep flags
  rcases caosKmalloc_cases (I := fun h => IsTable specs h.cacheCache) hgrow ht hcall with
    ⟨_, hI⟩ | ⟨h₁, c, hI, slabp, _, _, _, rfl⟩
  · exact hI
  · exact hI

/-- The calls of a client leave the descriptors alone but for their lists. -/
theorem HeapStep.isTable {t t' : HeapTrace σ} {op : HeapOp} (hstep : HeapStep A t op t')
    (ht : IsTable specs t.heap.cacheCache) : IsTable specs t'.heap.cacheCache := by
  cases hstep with
  | kmallocNull hcall => exact caosKmalloc_isTable ht hcall
  | kmallocObject hcall => exact caosKmalloc_isTable ht hcall
  | kfree hcall =>
      rcases caosKfree_cases hcall with rfl | ⟨_, _, _, _, rfl⟩
      · exact ht
      · exact ht
  | shrink hcall =>
      simp only [kmemCacheShrink] at hcall
      split at hcall
      · cases hcall
      · split at hcall
        · obtain rfl := Option.some.inj hcall
          exact ht
        · obtain rfl := Option.some.inj hcall
          exact ht.updateSlabs _ _

theorem kmemCacheInit_isTable {memory : Nat → Slab} {s : σ}
    (hinit : kmemCacheInit A memory s = some h) : IsTable defaultSpecs h.cacheCache := by
  obtain ⟨table, htable, hspecs, _⟩ := createDefaults_isTable
  simp only [kmemCacheInit, htable, Option.map_some] at hinit
  split at hinit
  · cases hinit
  · obtain rfl := Option.some.inj hinit
    exact hspecs

end Table

end Caos
