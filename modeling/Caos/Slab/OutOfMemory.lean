import Caos.Slab.Exclusive
import Caos.Slab.Fallback

/-!
`caos_kmalloc` under exhaustion. After two passes without success the retry loop
goes to the next table slot and resets `retry_count`, so the test against
`KMALLOC_RETRY_MAX` never fires and the end of the table is not tested again. If
no cache from the first fitting one on can serve the request, the loop reaches a
descriptor that `kmem_cache_create` has not initialised.
-/

namespace Caos

open Lib

/-- The cache has a free object or `alloc_pages` has a block for it. -/
def Serves (flags : Nat) (h : Heap PageState) (cachep : Nat) : Prop :=
  (∃ slabp ∈ h.slabsOf cachep, hasFree h (h.cacheCache cachep) slabp = true) ∨
    (allocPages flags (h.cacheCache cachep).gfporder h.pages).1 ≠ none

/-- Some default cache of large enough objects can serve the request. -/
def CanServe (size flags : Nat) (h : Heap PageState) : Prop :=
  ∃ cachep < defaultSpecs.length, size ≤ (h.cacheCache cachep).objsize ∧ Serves flags h cachep

/-- The retry loop of the call passes through `r`. -/
def Consults (size flags : Nat) (h : Heap PageState) (r : Retry PageState) : Prop :=
  let cacheIndex := findCache h.cacheCache size cacheCacheMax 0
  (h.cacheCache cacheIndex).name ≠ none ∧ cacheIndex < cacheCacheMax ∧
    Visits (retryStep zoneAllocator flags) ⟨cacheIndex, 0, h⟩ r

/-- The call returns, its retry loop uses initialised descriptors only, and its
result is `NULL` if no cache can serve it. -/
structure OutOfMemorySafe (size flags : Nat) (h : Heap PageState) : Prop where
  returns : ∃ fuel result h',
    caosKmalloc zoneAllocator size flags fuel h = some (result, h') ∧ result ≠ .fault
  initialised : ∀ r, Consults size flags h r → (r.heap.cacheCache r.cacheIndex).name ≠ none
  null : ¬ CanServe size flags h → ∀ fuel result h',
    caosKmalloc zoneAllocator size flags fuel h = some (result, h') → result = .null

/-- The heap over another state of the page allocator. -/
def Heap.withPages {σ : Type} (h : Heap σ) (s : σ) : Heap σ := { h with pages := s }

theorem IsTable.withPages {h : Heap PageState} (ht : IsTable defaultSpecs h.cacheCache)
    (s : PageState) : IsTable defaultSpecs (h.withPages s).cacheCache := ht

section Grow

variable {h : Heap PageState} {flags cachep : Nat}

theorem kmemCacheGrow_of_none
    (hnone : (allocPages flags (h.cacheCache cachep).gfporder h.pages).1 = none) :
    kmemCacheGrow zoneAllocator cachep flags h = (0, h) := by
  rcases allocPages_cases flags (h.cacheCache cachep).gfporder h.pages with
    ⟨_, _, first, _, hcall⟩ | ⟨hcall, _⟩
  · rw [hcall] at hnone
    cases hnone
  · simp only [kmemCacheGrow, kmemGetpages, zoneAllocator, hcall]

/-- A grown cache has a free object. -/
theorem kmemCacheGrow_of_some (ht : IsTable defaultSpecs h.cacheCache)
    (hc : cachep < defaultSpecs.length) (hvirtual : ∀ i, (h.pages.memMap i).virtual = frameAddr i)
    (hsome : (allocPages flags (h.cacheCache cachep).gfporder h.pages).1 ≠ none) :
    ∃ h', kmemCacheGrow zoneAllocator cachep flags h = (1, h') ∧
      IsTable defaultSpecs h'.cacheCache ∧
      ∃ slabp ∈ h'.slabsOf cachep, hasFree h' (h'.cacheCache cachep) slabp = true := by
  rcases hcall : allocPages flags (h.cacheCache cachep).gfporder h.pages with ⟨_ | first, s⟩
  · rw [hcall] at hsome
    exact absurd rfl hsome
  have hs : ∀ i, (s.memMap i).virtual = frameAddr i := by
    intro i
    have hframe := (allocPages_frame flags (h.cacheCache cachep).gfporder i h.pages).2
    rw [hcall] at hframe
    exact hframe.trans (hvirtual i)
  let I : Nat → PageState → Prop := fun _ t => ∀ i, (t.memMap i).virtual = frameAddr i
  have hmark : I 0 (forDownFrom (markSlab zoneAllocator first)
      (2 ^ (h.cacheCache cachep).gfporder) s) := by
    apply forDownFrom_invariant
    · exact hs
    · intro k t _ ht i
      simp only [markSlab, zoneAllocator, Function.update_apply]
      split
      · next heq => rw [heq]; exact ht (first + k)
      · exact ht i
  have hgrow : kmemCacheGrow zoneAllocator cachep flags h =
      (1, h.addSlab cachep (frameAddr first) (forDownFrom (markSlab zoneAllocator first)
        (2 ^ (h.cacheCache cachep).gfporder) s)) := by
    have hptr := hmark first
    simp only [kmemCacheGrow, kmemGetpages, show zoneAllocator.allocPages = allocPages from rfl,
      hcall, show ∀ t i, zoneAllocator.page t i = t.memMap i from fun _ _ => rfl, hptr,
      ptr_frameAddr, Heap.addSlab]
  refine ⟨_, hgrow, ht.updateSlabs _ _, frameAddr first, ?_, ?_⟩
  · rw [mem_slabsOf_addSlab ht hc]
    exact .inl ⟨rfl, rfl⟩
  · have hpos := (ht.geometry hc).num_pos
    simp only [hasFree, Heap.addSlab_num]
    simp [Heap.addSlab, newSlab, bufctlEnd, hpos]

end Grow

section Default

variable {table : Nat → KmemCache} {size : Nat}

theorem defaultSpecs_sorted : defaultSpecs.Pairwise fun a b => a.objsize ≤ b.objsize := by
  decide +kernel

/-- The default caches stand in front, sorted by size. -/
theorem IsTable.objsize_mono {specs : List CacheSpec} (ht : IsTable (defaultSpecs ++ specs) table)
    {i j : Nat} (hij : i ≤ j) (hj : j < defaultSpecs.length) :
    (table i).objsize ≤ (table j).objsize := by
  have hget : ∀ k (hk : k < defaultSpecs.length),
      (table k).objsize = defaultSpecs[k].objsize := by
    intro k hk
    apply ht.objsize_eq
    rw [List.getElem?_append_left hk, List.getElem?_eq_getElem hk]
  rcases Nat.eq_or_lt_of_le hij with rfl | hlt
  · exact Nat.le_refl _
  · rw [hget i (by omega), hget j hj]
    exact List.pairwise_iff_getElem.mp defaultSpecs_sorted i j _ hj hlt

theorem IsTable.default_append (ht : IsTable defaultSpecs table) :
    IsTable (defaultSpecs ++ []) table := by
  rw [List.append_nil]
  exact ht

/-- Some default cache fits exactly if the size is at most `KMALLOC_MAX_SIZE`. -/
theorem findCache_default (ht : IsTable defaultSpecs table) :
    findCache table size cacheCacheMax 0 < defaultSpecs.length ↔ size ≤ kmallocMaxSize := by
  obtain ⟨_, hle, hfit, hbefore⟩ :=
    @findCache_spec _ _ size cacheCacheMax 0 ht (by decide) (by omega) (by omega)
  have hlast : (table 7).objsize = kmallocMaxSize :=
    ht.objsize_eq (show defaultSpecs[7]? = some ⟨"2048bytes", 2048, cacheAlign, 0⟩ by decide)
  constructor
  · intro hlt
    have hmono := ht.default_append.objsize_mono (show _ ≤ 7 from Nat.le_of_lt_succ hlt) (by decide)
    have := hfit hlt
    omega
  · intro hsize
    by_contra hge
    have := hbefore 7 (by omega) (Nat.lt_of_lt_of_le (by decide) (Nat.le_of_not_lt hge))
    omega

end Default

section Loop

variable {h : Heap PageState} {size flags first cachep : Nat}

/-- A cache that cannot serve is grown twice in vain, then the loop goes on. -/
theorem retryStep_of_not_serves (ht : IsTable defaultSpecs h.cacheCache)
    (hc : cachep < defaultSpecs.length) (hnot : ¬ Serves flags h cachep) {retryCount : Nat}
    (hcount : retryCount ≤ 1) :
    retryStep zoneAllocator flags ⟨cachep, retryCount, h⟩ =
      .inl (if retryCount + 1 > 1 then ⟨cachep + 1, 0, h⟩ else ⟨cachep, retryCount + 1, h⟩) := by
  unfold Serves at hnot
  push Not at hnot
  obtain ⟨hfull, hnone⟩ := hnot
  have hslabs : (h.cacheCache cachep).slabs ≠ none := by
    rw [ht.slabs_some hc]
    exact Option.some_ne_none _
  rw [retryStep_of_full (show retryCount ≤ kmallocRetryMax by simp only [kmallocRetryMax]; omega)
    hslabs (fun b hb => Bool.eq_false_iff.mpr (hfull b hb))]
  simp only [kmemCacheGrow_of_none hnone]

theorem visits_of_not_serves (ht : IsTable defaultSpecs h.cacheCache) (hle : first ≤ cachep)
    (hc : cachep ≤ defaultSpecs.length)
    (hnot : ∀ c, first ≤ c → c < cachep → ¬ Serves flags h c) :
    Visits (retryStep zoneAllocator flags) ⟨first, 0, h⟩ ⟨cachep, 0, h⟩ := by
  induction cachep, hle using Nat.le_induction with
  | base => exact .start
  | succ c hle ih =>
      have hprev := ih (by omega) (fun d hd hlt => hnot d hd (by omega))
      have hfail := hnot c hle (by omega)
      have hgrown : Visits (retryStep zoneAllocator flags) ⟨first, 0, h⟩ ⟨c, 1, h⟩ :=
        hprev.next (retryStep_of_not_serves ht (by omega) hfail (by omega))
      exact hgrown.next (retryStep_of_not_serves ht (by omega) hfail (by omega))

/-- The loop states before the first cache that can serve has served. -/
def BeforeServed (flags : Nat) (h : Heap PageState) (cachep : Nat) (r : Retry PageState) : Prop :=
  (r.heap = h ∧ (r.cacheIndex < cachep ∧ r.retryCount ≤ 1 ∧ ¬ Serves flags h r.cacheIndex ∨
      r.cacheIndex = cachep ∧ r.retryCount = 0)) ∨
    (r.cacheIndex = cachep ∧ r.retryCount = 1 ∧ IsTable defaultSpecs r.heap.cacheCache ∧
      ∃ slabp ∈ r.heap.slabsOf cachep, hasFree r.heap (r.heap.cacheCache cachep) slabp = true)

/-- A pass that continues stays before the cache that serves and gets closer to it. -/
theorem BeforeServed.step (ht : IsTable defaultSpecs h.cacheCache)
    (hvirtual : ∀ i, (h.pages.memMap i).virtual = frameAddr i)
    (hc : cachep < defaultSpecs.length) (hserves : Serves flags h cachep)
    (hfirst : ∀ c, first ≤ c → c < cachep → ¬ Serves flags h c)
    {r r' : Retry PageState} (hr : BeforeServed flags h cachep r ∧ first ≤ r.cacheIndex)
    (hstep : retryStep zoneAllocator flags r = .inl r') :
    (BeforeServed flags h cachep r' ∧ first ≤ r'.cacheIndex) ∧
      2 * (cachep + 1 - r'.cacheIndex) - r'.retryCount <
        2 * (cachep + 1 - r.cacheIndex) - r.retryCount := by
  obtain ⟨⟨hheap, ⟨hlt, hcount, hnot⟩ | ⟨hidx, hcount⟩⟩ | ⟨hidx, hcount, htable, b, hb, hfree⟩,
    hge⟩ := hr
  · obtain ⟨idx, count, heap⟩ := r
    simp only at hheap hlt hcount hnot hge
    subst hheap
    rw [retryStep_of_not_serves ht (by omega) hnot hcount] at hstep
    obtain rfl := Sum.inl.inj hstep
    split
    · refine ⟨⟨.inl ⟨rfl, ?_⟩, by simp only; omega⟩, by simp only; omega⟩
      simp only
      rcases Nat.eq_or_lt_of_le (Nat.succ_le_of_lt hlt) with heq | hlt'
      · exact .inr ⟨heq, trivial⟩
      · exact .inl ⟨hlt', by omega, hfirst _ (by omega) hlt'⟩
    · refine ⟨⟨.inl ⟨rfl, .inl ⟨hlt, by simp only; omega, hnot⟩⟩, hge⟩, by simp only; omega⟩
  · obtain ⟨idx, count, heap⟩ := r
    simp only at hheap hidx hcount hge
    subst hheap hidx hcount
    rcases hserves with ⟨b, hb, hfree⟩ | hsome
    · obtain ⟨addr, h', hexit⟩ := @retryStep_of_free _ zoneAllocator flags b ⟨idx, 0, heap⟩
        (by simp [kmallocRetryMax]) hb hfree
      rw [hexit] at hstep
      cases hstep
    · obtain ⟨_, hheap, ⟨hsame, _, hone⟩ | ⟨_, hne, _⟩⟩ := retryStep_inl hstep
      · obtain ⟨h', hgrow, htable, hfree⟩ := kmemCacheGrow_of_some ht hc hvirtual hsome
        rw [hgrow] at hheap
        simp only at hsame
        refine ⟨⟨.inr ⟨hsame, hone, ?_, ?_⟩, by omega⟩, by simp only; omega⟩
        · rw [hheap]
          exact htable
        · rw [hheap]
          exact hfree
      · exact absurd rfl hne
  · obtain ⟨idx, count, heap⟩ := r
    simp only at hidx hcount htable hb hfree hge
    subst hidx hcount
    obtain ⟨addr, h', hexit⟩ := @retryStep_of_free _ zoneAllocator flags b ⟨idx, 1, heap⟩
      (by simp [kmallocRetryMax]) hb hfree
    rw [hexit] at hstep
    cases hstep

theorem BeforeServed.isTable (ht : IsTable defaultSpecs h.cacheCache)
    (hc : cachep < defaultSpecs.length) {r : Retry PageState}
    (hr : BeforeServed flags h cachep r) :
    IsTable defaultSpecs r.heap.cacheCache ∧ r.cacheIndex < defaultSpecs.length := by
  obtain ⟨hheap, ⟨hlt, _⟩ | ⟨hidx, _⟩⟩ | ⟨hidx, _, htable, _⟩ := hr
  · exact ⟨hheap ▸ ht, by omega⟩
  · exact ⟨hheap ▸ ht, by omega⟩
  · exact ⟨htable, by omega⟩

end Loop

section Main

variable {h : Heap PageState} {size flags : Nat}

/-- A request that is too large for every cache is refused before the loop. -/
theorem outOfMemorySafe_of_large (ht : IsTable defaultSpecs h.cacheCache)
    (hsize : size > kmallocMaxSize) : OutOfMemorySafe size flags h := by
  have hnot : ¬ findCache h.cacheCache size cacheCacheMax 0 < defaultSpecs.length := by
    rw [findCache_default ht]
    omega
  have hcall : ∀ fuel, caosKmalloc zoneAllocator size flags fuel h = some (.null, h) := by
    intro fuel
    rw [caosKmalloc_eq ht (by decide), if_neg hnot]
  constructor
  · exact ⟨0, .null, h, hcall 0, by simp⟩
  · intro r hr
    exact absurd (ht.name_ne_none.mp hr.1) hnot
  · intro _ fuel result h' hres
    rw [hcall] at hres
    cases hres
    rfl

/-- If some cache can serve the request, the loop stops at the first such cache. -/
theorem outOfMemorySafe_of_canServe (ht : IsTable defaultSpecs h.cacheCache)
    (hvirtual : ∀ i, (h.pages.memMap i).virtual = frameAddr i)
    (hserve : CanServe size flags h) : OutOfMemorySafe size flags h := by
  obtain ⟨_, _, hfit, hbefore⟩ :=
    @findCache_spec _ _ size cacheCacheMax 0 ht (by decide) (by omega) (by omega)
  let first := findCache h.cacheCache size cacheCacheMax 0
  have hex : ∃ c, first ≤ c ∧ c < defaultSpecs.length ∧ Serves flags h c := by
    obtain ⟨c, hc, hsize, hserves⟩ := hserve
    refine ⟨c, ?_, hc, hserves⟩
    by_contra hlt
    have := hbefore c (by omega) (Nat.lt_of_not_le hlt)
    omega
  classical
  obtain ⟨hfirst, hc, hserves⟩ := Nat.find_spec hex
  have hleast : ∀ c, first ≤ c → c < Nat.find hex → ¬ Serves flags h c := by
    intro c hge hlt hs
    exact Nat.find_min hex hlt ⟨hge, by omega, hs⟩
  let I : Retry PageState → Prop := fun r =>
    BeforeServed flags h (Nat.find hex) r ∧ first ≤ r.cacheIndex
  have hstart : I ⟨first, 0, h⟩ := by
    refine ⟨.inl ⟨rfl, ?_⟩, Nat.le_refl _⟩
    rcases Nat.eq_or_lt_of_le hfirst with heq | hlt
    · exact .inr ⟨heq, rfl⟩
    · exact .inl ⟨hlt, Nat.zero_le 1, hleast first (Nat.le_refl _) hlt⟩
  have hkeep := fun r r' hr hstep =>
    @BeforeServed.step h flags first (Nat.find hex) ht hvirtual hc hserves hleast r r' hr hstep
  have henter : first < defaultSpecs.length := by omega
  have hvisits : ∀ r, Visits (retryStep zoneAllocator flags) ⟨first, 0, h⟩ r →
      IsTable defaultSpecs r.heap.cacheCache ∧ r.cacheIndex < defaultSpecs.length := by
    intro r hr
    have hI := hr.invariant (I := I) hstart (fun s t hs hstep => (hkeep s t hs hstep).1)
    exact hI.1.isTable ht hc
  constructor
  · let passes : Retry PageState → Nat := fun r =>
      2 * (Nat.find hex + 1 - r.cacheIndex) - r.retryCount
    have hends : ∃ result, iterate (retryStep zoneAllocator flags)
        (passes ⟨first, 0, h⟩ + 1) ⟨first, 0, h⟩ = some result :=
      iterate_of_measure (I := I) hkeep hstart (Nat.lt_succ_self (passes ⟨first, 0, h⟩))
    obtain ⟨⟨result, h'⟩, hres⟩ := hends
    refine ⟨passes ⟨first, 0, h⟩ + 1, result, h', ?_, ?_⟩
    · rw [caosKmalloc_eq ht (by decide), if_pos henter]
      exact hres
    · obtain ⟨t, hvisit, hexit⟩ := iterate_exit hres
      obtain ⟨htable, hlt⟩ := hvisits t hvisit
      rcases retryStep_inr hexit with ⟨_, rfl, _⟩ | ⟨hnone, _⟩ | ⟨slabp, _, _, rfl, _⟩
      · simp
      · rw [htable.slabs_some hlt] at hnone
        cases hnone
      · simp
  · intro r hr
    obtain ⟨htable, hlt⟩ := hvisits r hr.2.2
    exact htable.name_ne_none.mpr hlt
  · intro hnot
    exact absurd hserve hnot

/-- Otherwise the loop reaches the first unused descriptor. -/
theorem consults_unused (ht : IsTable defaultSpecs h.cacheCache) (hsize : size ≤ kmallocMaxSize)
    (hserve : ¬ CanServe size flags h) :
    Consults size flags h ⟨defaultSpecs.length, 0, h⟩ := by
  have henter := (findCache_default ht).mpr hsize
  obtain ⟨_, hle, hfit, _⟩ :=
    @findCache_spec _ _ size cacheCacheMax 0 ht (by decide) (by omega) (by omega)
  have hroom : defaultSpecs.length ≤ cacheCacheMax := by decide
  refine ⟨ht.name_ne_none.mpr henter, by omega, ?_⟩
  apply visits_of_not_serves ht hle (Nat.le_refl _)
  intro c hge hlt hserves
  have hmono := ht.default_append.objsize_mono hge hlt
  have := hfit henter
  exact hserve ⟨c, hlt, by omega, hserves⟩

theorem not_outOfMemorySafe_of_exhausted (ht : IsTable defaultSpecs h.cacheCache)
    (hsize : size ≤ kmallocMaxSize) (hserve : ¬ CanServe size flags h) :
    ¬ OutOfMemorySafe size flags h := by
  intro hsafe
  have hname := hsafe.initialised _ (consults_unused ht hsize hserve)
  exact absurd (ht.name_ne_none.mp hname) (Nat.lt_irrefl _)

end Main

/-- In every state of the default caches that calls of the heap lead to, and every
state of the page allocator: the call is safe exactly if the size fits no cache
or some cache can serve it. The states `s` of the machine are those in which no page
that the heap holds is free. -/
theorem kmalloc_safe_iff (memory : Nat → Slab) (s₀ : PageState) (start : Heap PageState)
    (hinit : kmemCacheInit zoneAllocator memory s₀ = some start) (ops : List HeapOp)
    (t : HeapTrace PageState) (hrun : Run (HeapStep zoneAllocator) ⟨start, []⟩ ops t)
    (s : PageState) (hvirtual : ∀ i, (s.memMap i).virtual = frameAddr i) (size flags : Nat) :
    OutOfMemorySafe size flags (t.heap.withPages s) ↔
      size > kmallocMaxSize ∨ CanServe size flags (t.heap.withPages s) := by
  have ht : IsTable defaultSpecs t.heap.cacheCache :=
    hrun.invariant (I := fun t => IsTable defaultSpecs t.heap.cacheCache)
      (kmemCacheInit_isTable hinit) (fun _ _ _ h hstep => hstep.isTable h)
  constructor
  · intro hsafe
    by_contra hnot
    push Not at hnot
    exact not_outOfMemorySafe_of_exhausted (ht.withPages s) hnot.1 hnot.2 hsafe
  · intro hcase
    rcases hcase with hlarge | hserve
    · exact outOfMemorySafe_of_large (ht.withPages s) hlarge
    · exact outOfMemorySafe_of_canServe (ht.withPages s) hvirtual hserve

/-- On the small heap 16 bytes can be had from the page allocator. -/
theorem small_heap_safe :
    ∃ start, smallHeap = some start ∧ OutOfMemorySafe 16 0 start := by
  have hserve : smallHeap.map (fun start =>
      ((allocPages 0 (start.cacheCache 0).gfporder start.pages).1 ≠ none : Bool)) =
      some true := by decide +kernel
  obtain ⟨start, hinit, hsome⟩ := Option.map_eq_some_iff.mp hserve
  refine ⟨start, hinit, ?_⟩
  have ht := kmemCacheInit_isTable hinit
  refine (kmalloc_safe_iff _ _ start hinit [] ⟨start, []⟩ (.nil _) start.pages ?_ 16 0).mpr
    (.inr ⟨0, by decide, ?_, .inr (by simpa [Heap.withPages] using hsome)⟩)
  · obtain ⟨_, hinv⟩ :=
      (kmemCacheInit_spec (zoneAllocator_spec _ _ (by decide)) (zoneHolds_start _ 8) hinit).inv
    obtain ⟨_, _, _, hvirtual⟩ := hinv.holds
    exact hvirtual
  · exact Nat.le_of_eq
      (ht.objsize_eq (show defaultSpecs[0]? = some ⟨"16bytes", 16, cacheAlign, 0⟩ by decide)).symm

/-- Once `alloc_pages` fails, a request for 16 bytes runs off the table. -/
theorem exhausted_heap_unsafe :
    ¬ (∀ (memory : Nat → Slab) (s₀ : PageState) (start : Heap PageState)
        (_ : kmemCacheInit zoneAllocator memory s₀ = some start) (ops : List HeapOp)
        (t : HeapTrace PageState) (_ : Run (HeapStep zoneAllocator) ⟨start, []⟩ ops t)
        (s : PageState) (_ : ∀ i, (s.memMap i).virtual = frameAddr i) (size flags : Nat),
        OutOfMemorySafe size flags (t.heap.withPages s)) := by
  intro hall
  have hsome : smallHeap.isSome = true := by decide +kernel
  obtain ⟨start, hinit⟩ := Option.isSome_iff_exists.mp hsome
  let s : PageState := ⟨memMapInit fun f => f == 0, ⟨0, 8⟩⟩
  have hsafe := hall _ _ start hinit [] ⟨start, []⟩ (.nil _) s (fun _ => rfl) 16 0
  have ht : IsTable defaultSpecs start.cacheCache := kmemCacheInit_isTable hinit
  refine not_outOfMemorySafe_of_exhausted (ht.withPages s) (by decide) ?_ hsafe
  intro hserve
  obtain ⟨c, _, _, ⟨b, hb, _⟩ | hpages⟩ := hserve
  · have hempty := (kmemCacheInit_spec (zoneAllocator_spec _ _ (by decide))
      (zoneHolds_start _ 8) hinit).empty c
    have hmem : b ∈ start.slabsOf c := hb
    rw [hempty] at hmem
    cases hmem
  · rcases allocPages_cases 0 (start.cacheCache c).gfporder s with ⟨_, hfree, _⟩ | ⟨hcall, _⟩
    · exact absurd hfree (Nat.not_lt_zero _)
    · exact hpages (congrArg Prod.fst hcall)

end Caos
