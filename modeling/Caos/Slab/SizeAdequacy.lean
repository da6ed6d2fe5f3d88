import Caos.Slab.OutOfMemory

/-!
Sizes of the objects `caos_kmalloc` returns when caches of other sizes have been
created behind the default ones. `objsize` is compared with the size only before
the retry loop; the loop then takes the slots of the table as they come. The
result is large enough under all patterns of page failures exactly if every
created cache is.
-/

namespace Caos

open Lib

/-- A call of `kmem_cache_create`, or one of a client of the heap. -/
inductive TableOp where
  | create (spec : CacheSpec)
  | call (op : HeapOp)

/-- A call that returns; a call of `kmem_cache_create` must succeed. -/
inductive TableStep {σ : Type} (A : PageAllocator σ) :
    HeapTrace σ → TableOp → HeapTrace σ → Prop
  | create {h : Heap σ} {live : List Obj} {spec : CacheSpec} {cachep table} :
      kmemCacheCreate (some spec.name) spec.size spec.align spec.flags h.cacheCache =
        some (cachep, table) →
      TableStep A ⟨h, live⟩ (.create spec) ⟨{ h with cacheCache := table }, live⟩
  | call {t t' : HeapTrace σ} {op : HeapOp} : HeapStep A t op t' → TableStep A t (.call op) t'

/-- The caches a sequence of calls creates. -/
def createdSpecs (ops : List TableOp) : List CacheSpec :=
  ops.filterMap fun
    | .create spec => some spec
    | .call _ => none

/-- Over every page allocator, in every run from the state `kmem_cache_init` leaves
that creates these caches: an object for a request of this size comes from a
cache with objects of at least this size. -/
def SizeAdequate (specs : List CacheSpec) (size : Nat) : Prop :=
  ∀ (σ : Type) (A : PageAllocator σ) (Holds : σ → Set Block → Prop) (_ : PageSpec A Holds)
    (s : σ) (blocks : Set Block) (_ : Holds s blocks) (memory : Nat → Slab) (start : Heap σ)
    (_ : kmemCacheInit A memory s = some start) (ops : List TableOp) (t : HeapTrace σ)
    (_ : Run (TableStep A) ⟨start, []⟩ ops t) (_ : createdSpecs ops = specs)
    (flags fuel addr cachep : Nat) (h' : Heap σ),
    caosKmalloc A size flags fuel t.heap = some (.object addr cachep, h') →
    size ≤ (t.heap.cacheCache cachep).objsize

section Sufficient

variable {σ : Type} {A : PageAllocator σ} {h h' : Heap σ} {specs : List CacheSpec}
  {size flags fuel addr cachep : Nat}

/-- The sizes `kmem_cache_create` accepts. -/
def SizesAccepted (specs : List CacheSpec) : Prop :=
  ∀ spec ∈ specs, bytesPerLong ≤ spec.size ∧ spec.size ≤ kmallocMaxSize

/-- Every run that creates caches extends the table by them. -/
theorem TableStep.run_isTable {t t' : HeapTrace σ} {ops : List TableOp}
    (hrun : Run (TableStep A) t ops t') (ht : IsTable specs t.heap.cacheCache)
    (hmax : specs.length ≤ cacheCacheMax) (hsizes : SizesAccepted specs) :
    IsTable (specs ++ createdSpecs ops) t'.heap.cacheCache ∧
      (specs ++ createdSpecs ops).length ≤ cacheCacheMax ∧
      SizesAccepted (specs ++ createdSpecs ops) := by
  induction hrun generalizing specs with
  | nil t =>
      simp only [createdSpecs, List.filterMap_nil, List.append_nil]
      exact ⟨ht, hmax, hsizes⟩
  | cons hstep _ ih =>
      cases hstep with
      | @create h live spec cachep table hcall =>
          rcases kmemCacheCreate_cases ht hmax spec with ⟨hok, hres⟩ | ⟨_, hres⟩
          · rw [hres] at hcall
            obtain ⟨_, rfl⟩ := Prod.mk.inj (Option.some.inj hcall)
            have hroom := hok.room
            have hsizes' : SizesAccepted (specs ++ [spec]) := by
              intro other hmem
              rcases List.mem_append.mp hmem with hold | hnew
              · exact hsizes other hold
              · obtain rfl := List.mem_singleton.mp hnew
                exact ⟨hok.size_ge, hok.size_le⟩
            have hnext := ih (ht.update spec) (by simp; omega) hsizes'
            simpa [createdSpecs] using hnext
          · rw [hres] at hcall
            cases hcall
      | call hcall => exact ih (hcall.isTable ht) hmax hsizes

/-- The cache an object comes from is not before the first one that is large enough. -/
theorem caosKmalloc_cache (ht : IsTable specs h.cacheCache)
    (hmax : specs.length ≤ cacheCacheMax)
    (hcall : caosKmalloc A size flags fuel h = some (.object addr cachep, h')) :
    findCache h.cacheCache size cacheCacheMax 0 ≤ cachep ∧
      findCache h.cacheCache size cacheCacheMax 0 < specs.length ∧ cachep < specs.length := by
  rw [caosKmalloc_eq ht hmax] at hcall
  split at hcall
  · next henter =>
      obtain ⟨t, hvisit, hexit⟩ := iterate_exit hcall
      have hI : IsTable specs t.heap.cacheCache ∧
          findCache h.cacheCache size cacheCacheMax 0 ≤ t.cacheIndex := by
        apply hvisit.invariant
          (I := fun r => IsTable specs r.heap.cacheCache ∧
            findCache h.cacheCache size cacheCacheMax 0 ≤ r.cacheIndex)
        · exact ⟨ht, Nat.le_refl _⟩
        · intro r r' hr hstep
          obtain ⟨_, hheap, hindex⟩ := retryStep_inl hstep
          refine ⟨?_, by omega⟩
          rw [hheap]
          exact kmemCacheGrow_isTable hr.1 _ _
      rcases retryStep_inr hexit with ⟨_, hres, _⟩ | ⟨_, hres, _⟩ | ⟨slabp, hmem, _, hres, _⟩
      · cases hres
      · cases hres
      · cases hres
        exact ⟨hI.2, henter, hI.1.lt_of_mem hmem⟩
  · cases hcall

theorem defaultSpecs_accepted : SizesAccepted defaultSpecs := by
  unfold SizesAccepted
  decide +kernel

/-- If the created caches are large enough, so is every result. -/
theorem sizeAdequate_of_large
    (hcase : size > kmallocMaxSize ∨ ∀ spec ∈ specs, size ≤ spec.objsize) :
    SizeAdequate specs size := by
  intro σ A Holds _ s blocks _ memory start hinit ops t hrun hops flags fuel addr cachep h' hcall
  obtain ⟨ht, hmax, hsizes⟩ := TableStep.run_isTable hrun (kmemCacheInit_isTable hinit) (by decide)
    defaultSpecs_accepted
  rw [hops] at ht hmax hsizes
  obtain ⟨hge, henter, hlt⟩ := caosKmalloc_cache ht hmax hcall
  obtain ⟨_, _, hfit, _⟩ :=
    @findCache_spec _ _ size cacheCacheMax 0 ht hmax (by omega) (by omega)
  have hfirst := hfit henter
  have hobjsize := fun i (hi : i < (defaultSpecs ++ specs).length) =>
    ht.objsize_eq (List.getElem?_eq_getElem hi)
  rcases Nat.lt_or_ge cachep defaultSpecs.length with hdefault | hcreated
  · have hmono := ht.objsize_mono hge hdefault
    omega
  · have hmem : (defaultSpecs ++ specs)[cachep] ∈ specs := by
      rw [List.getElem_append_right hcreated]
      exact List.getElem_mem _
    rcases hcase with hlarge | hall
    · -- no cache has objects of more than `KMALLOC_MAX_SIZE` bytes
      obtain ⟨hlo, hhi⟩ := hsizes _ (List.getElem_mem henter)
      have hbound := (CacheSpec.objsize_bounds hlo hhi).2
      rw [← hobjsize _ henter] at hbound
      omega
    · rw [hobjsize cachep hlt]
      exact hall _ hmem

end Sufficient

section Necessary

/-- A page allocator whose calls succeed and fail as a script says. It hands out
the frames in order and reuses none. -/
structure Scripted where
  next : Nat
  script : List Bool
  memMap : Nat → Page

/-- Its operations. -/
def scriptedAllocator : PageAllocator Scripted where
  allocPages _ order s :=
    match s.script with
    | [] => (none, s)
    | answer :: script =>
      if answer ∧ s.next + 2 ^ order ≤ maxFrames then
        (some s.next, { s with next := s.next + 2 ^ order, script := script })
      else (none, { s with script := script })
  freePages _ _ s := s
  page s i := s.memMap i
  setPage i p s := { s with memMap := Function.update s.memMap i p }

/-- All blocks handed out lie before the next frame. -/
def ScriptedHolds (s : Scripted) (blocks : Set Block) : Prop :=
  s.next ≤ maxFrames ∧ (∀ b ∈ blocks, b.first + 2 ^ b.order ≤ s.next) ∧
    ∀ i, (s.memMap i).virtual = frameAddr i

theorem scriptedAllocator_spec : PageSpec scriptedAllocator ScriptedHolds := by
  constructor
  · intro i p s j
    simp only [scriptedAllocator, Function.update_apply]
  · intro i p s blocks h _ _ hvirtual
    refine ⟨h.1, h.2.1, ?_⟩
    intro j
    simp only [scriptedAllocator, Function.update_apply]
    split
    · next heq => rw [hvirtual, heq]; exact h.2.2 i
    · exact h.2.2 j
  · intro gfpMask order s s' blocks h hcall
    simp only [scriptedAllocator] at hcall
    split at hcall
    · cases hcall
      exact h
    · split at hcall
      · cases hcall
      · cases hcall
        exact h
  · intro gfpMask order s s' blocks first h hcall
    obtain ⟨hnext, hblocks, hvirtual⟩ := h
    simp only [scriptedAllocator] at hcall
    split at hcall
    · cases hcall
    · split at hcall
      · next hok =>
          cases hcall
          refine ⟨⟨hok.2, ?_, hvirtual⟩, ?_⟩
          · intro b hb
            rcases Set.mem_insert_iff.mp hb with rfl | hold
            · exact Nat.le_refl _
            · exact (hblocks b hold).trans (Nat.le_add_right _ _)
          · intro b hb
            have := hblocks b hb
            rw [Finset.disjoint_left]
            intro i hi hin
            rw [Block.frames, mem_blockFrames] at hi
            rw [mem_blockFrames] at hin
            omega
      · cases hcall
  · intro gfpMask order s i
    simp only [scriptedAllocator]
    split
    · rfl
    · split <;> rfl
  · intro b s blocks h _
    exact ⟨h.1, fun c hc => h.2.1 c hc.1, h.2.2⟩
  · intro addr order s i
    rfl
  · intro s blocks h b _
    exact h.2.2 b.first
  · intro s blocks h b hb
    exact (h.2.1 b hb).trans h.1

/-- Creatable caches can be created, whatever the pages and slabs are. -/
theorem createAll_run {σ : Type} (A : PageAllocator σ) {specs rest : List CacheSpec}
    {table : Nat → KmemCache} (ht : IsTable specs table) (hmax : specs.length ≤ cacheCacheMax)
    (hempty : ∀ i, (table i).slabs.getD [] = []) (hall : AllCreatable specs rest) :
    ∃ table', IsTable (specs ++ rest) table' ∧ (∀ i, (table' i).slabs.getD [] = []) ∧
      ∀ pages slabAt live, Run (TableStep A) ⟨⟨pages, slabAt, table⟩, live⟩
        (rest.map .create) ⟨⟨pages, slabAt, table'⟩, live⟩ := by
  induction rest generalizing specs table with
  | nil => exact ⟨table, by simpa using ht, hempty, fun _ _ _ => .nil _⟩
  | cons spec rest ih =>
      obtain ⟨hfirst, hrest⟩ := hall
      rcases kmemCacheCreate_cases ht hmax spec with ⟨_, hcreate⟩ | ⟨hnot, _⟩
      · have hempty' : ∀ i,
            (Function.update table specs.length spec.descriptor i).slabs.getD [] = [] := by
          intro i
          rw [Function.update_apply]
          split
          · rfl
          · exact hempty i
        have hroom := hfirst.room
        obtain ⟨table', ht', hlists, hrun⟩ := ih (ht.update spec) (by simp; omega) hempty' hrest
        refine ⟨table', by simpa using ht', hlists, ?_⟩
        intro pages slabAt live
        exact .cons (.create hcreate) (hrun pages slabAt live)
      · exact absurd hfirst hnot

/-- A script that fails `n` times and then succeeds once. -/
def failFirst (n : Nat) : List Bool := List.replicate n false ++ [true]

/-- The heap with this table, no slabs, and an allocator that fails `n` more times. -/
def failingHeap (memMap : Nat → Page) (slabAt : Nat → Slab) (table : Nat → KmemCache)
    (n : Nat) : Heap Scripted where
  pages := ⟨2, failFirst n, memMap⟩
  slabAt := slabAt
  cacheCache := table

variable {memMap : Nat → Page} {slabAt : Nat → Slab} {table : Nat → KmemCache}
  {specs : List CacheSpec} {flags cachep n : Nat}

theorem retryStep_failingHeap (ht : IsTable specs table) (hc : cachep < specs.length)
    (hempty : ∀ i, (table i).slabs.getD [] = []) {retryCount : Nat} (hcount : retryCount ≤ 1) :
    retryStep scriptedAllocator flags
      ⟨cachep, retryCount, failingHeap memMap slabAt table (n + 1)⟩ =
      .inl (if retryCount + 1 > 1 then ⟨cachep + 1, 0, failingHeap memMap slabAt table n⟩
        else ⟨cachep, retryCount + 1, failingHeap memMap slabAt table n⟩) := by
  have hslabs : (table cachep).slabs ≠ none := by
    obtain ⟨slabs, heq⟩ := ht.created cachep _ (List.getElem?_eq_getElem hc)
    rw [heq]
    exact Option.some_ne_none _
  have hgrow : (kmemCacheGrow scriptedAllocator cachep flags
      (failingHeap memMap slabAt table (n + 1))).2 = failingHeap memMap slabAt table n := by
    simp [kmemCacheGrow, kmemGetpages, scriptedAllocator, failingHeap, failFirst,
      List.replicate_succ]
  rw [retryStep_of_full (show retryCount ≤ kmallocRetryMax by simp only [kmallocRetryMax]; omega)
    hslabs ?_, hgrow]
  intro b hb
  have hnone : b ∈ (table cachep).slabs.getD [] := hb
  rw [hempty] at hnone
  cases hnone

/-- The loop passes all caches that it fails to grow. -/
theorem visits_failingHeap (ht : IsTable specs table)
    (hempty : ∀ i, (table i).slabs.getD [] = []) {first : Nat} (hc : cachep < specs.length)
    (d : Nat) (hd : first + d ≤ cachep) :
    Visits (retryStep scriptedAllocator flags)
      ⟨first, 0, failingHeap memMap slabAt table (2 * (cachep - first))⟩
      ⟨first + d, 0, failingHeap memMap slabAt table (2 * (cachep - first - d))⟩ := by
  induction d with
  | zero => exact .start
  | succ d ih =>
      have hprev := ih (by omega)
      obtain ⟨m, hm⟩ : ∃ m, 2 * (cachep - first - d) = m + 1 + 1 :=
        ⟨2 * (cachep - first - d) - 2, by omega⟩
      have hm' : 2 * (cachep - first - (d + 1)) = m := by omega
      rw [hm] at hprev
      rw [hm']
      have hgrown := hprev.next (retryStep_failingHeap ht (by omega) hempty (Nat.zero_le 1))
      exact hgrown.next (retryStep_failingHeap ht (by omega) hempty (Nat.le_refl 1))

/-- The loop takes an object from the cache that it is the first to grow. -/
theorem exit_failingHeap (ht : IsTable specs table) (hsizes : SizesAccepted specs)
    (hempty : ∀ i, (table i).slabs.getD [] = []) (hc : cachep < specs.length)
    (hvirtual : ∀ i, (memMap i).virtual = frameAddr i) :
    ∃ addr h' r, Visits (retryStep scriptedAllocator flags)
        ⟨cachep, 0, failingHeap memMap slabAt table 0⟩ r ∧
      retryStep scriptedAllocator flags r = .inr (.object addr cachep, h') := by
  let h := failingHeap memMap slabAt table 0
  obtain ⟨slabs, hspec⟩ := ht.created cachep _ (List.getElem?_eq_getElem hc)
  have hbounds := CacheSpec.descriptor_bounds (hsizes _ (List.getElem_mem hc)).1
    (hsizes _ (List.getElem_mem hc)).2
  have horder : (table cachep).gfporder ≤ maxPageOrder := by
    rw [hspec]
    exact hbounds.2
  have hpow : 2 ^ (table cachep).gfporder ≤ 2 ^ maxPageOrder :=
    Nat.pow_le_pow_right (by decide) horder
  have hroom : 2 + 2 ^ maxPageOrder ≤ maxFrames := by decide
  have hcall : scriptedAllocator.allocPages flags (h.cacheCache cachep).gfporder h.pages =
      (some 2, ⟨2 + 2 ^ (table cachep).gfporder, [], memMap⟩) := by
    have hok : 2 + 2 ^ (table cachep).gfporder ≤ maxFrames := by omega
    simp [h, scriptedAllocator, failingHeap, failFirst, hok]
  have hholds : ScriptedHolds h.pages ∅ := by
    refine ⟨show 2 ≤ maxFrames by decide, ?_, hvirtual⟩
    intro b hb
    exact absurd hb (Set.notMem_empty b)
  obtain ⟨s, hget⟩ := scriptedAllocator_spec.kmemGetpages_of_some hholds hcall
  have hgrow : (kmemCacheGrow scriptedAllocator cachep flags h).2 =
      h.addSlab cachep (frameAddr 2) s := by
    simp only [kmemCacheGrow, hget, Heap.addSlab]
  have hslabs : (table cachep).slabs ≠ none := by
    rw [hspec]
    exact Option.some_ne_none _
  have hfull : ∀ slabp ∈ h.slabsOf cachep,
      hasFree h (h.cacheCache cachep) slabp = false := by
    intro b hb
    have hnone : b ∈ (table cachep).slabs.getD [] := hb
    rw [hempty] at hnone
    cases hnone
  have hstep := @retryStep_of_full _ scriptedAllocator flags ⟨cachep, 0, h⟩
    (Nat.zero_le _) hslabs hfull
  rw [hgrow] at hstep
  have hfree : hasFree (h.addSlab cachep (frameAddr 2) s)
      ((h.addSlab cachep (frameAddr 2) s).cacheCache cachep) (frameAddr 2) = true := by
    have hpos : 0 < (h.cacheCache cachep).num := by
      have hnum : (table cachep).num = (specs[cachep].descriptor).num := by rw [hspec]
      have := hbounds.1
      simp only [h, failingHeap]
      omega
    simp only [hasFree, Heap.addSlab_num]
    simp [Heap.addSlab, newSlab, bufctlEnd, hpos]
  have hmem : frameAddr 2 ∈ (h.addSlab cachep (frameAddr 2) s).slabsOf cachep :=
    (mem_slabsOf_addSlab (show IsTable specs h.cacheCache from ht) hc _ _ _ _).mpr
      (.inl ⟨rfl, rfl⟩)
  obtain ⟨addr, h', hexit⟩ := @retryStep_of_free _ scriptedAllocator flags (frameAddr 2)
    ⟨cachep, 1, h.addSlab cachep (frameAddr 2) s⟩ (show 1 ≤ kmallocRetryMax by decide) hmem hfree
  exact ⟨addr, h', _, Visits.start.next hstep, hexit⟩

/-- Initialisation uses up the first answer of the script. -/
theorem kmemCacheInit_failing (memory : Nat → Slab)
    (htable : createDefaults cacheNames kmallocSmallSize (fun _ => KmemCache.zeroed) = some table)
    (n : Nat) :
    ∃ memMap, (∀ i, (memMap i : Page).virtual = frameAddr i) ∧
      kmemCacheInit scriptedAllocator memory
        ⟨0, true :: failFirst n, memMapInit fun _ => false⟩ =
        some (failingHeap memMap memory table n) := by
  let mark : Nat → (Nat → Page) → Nat → Page := fun i memMap =>
    Function.update memMap i (setPageSlab (memMap i))
  refine ⟨mark 0 (mark 1 (memMapInit fun _ => false)), ?_, ?_⟩
  · intro i
    simp only [mark, Function.update_apply, setPageSlab]
    split_ifs <;> simp_all [memMapInit]
  · have hroom : 0 + 2 ^ cacheCachePage ≤ maxFrames := by decide
    simp only [kmemCacheInit, htable, Option.map_some]
    simp only [scriptedAllocator, hroom, and_self, if_true]
    rfl

/-- If some created cache is too small, some allocator and run lead to it. -/
theorem not_sizeAdequate_of_small {specs : List CacheSpec} {size : Nat}
    (hspecs : AllCreatable defaultSpecs specs) (hsize : size ≤ kmallocMaxSize)
    (hsmall : ∃ spec ∈ specs, spec.objsize < size) : ¬ SizeAdequate specs size := by
  intro hadequate
  obtain ⟨table₀, hinit₀, ht₀, hempty₀⟩ := createDefaults_isTable
  obtain ⟨table, ht, hempty, hcreate⟩ :=
    createAll_run scriptedAllocator ht₀ (by decide) hempty₀ hspecs
  obtain ⟨spec, hmem, hlt⟩ := hsmall
  obtain ⟨k, hk, rfl⟩ := List.getElem_of_mem hmem
  let cachep := defaultSpecs.length + k
  have hc : cachep < (defaultSpecs ++ specs).length := by simp [cachep, hk]
  have hmax := AllCreatable.length_le hspecs (by decide)
  rw [← List.length_append] at hmax
  -- the first cache that fits is a default one
  obtain ⟨_, _, _, hbefore⟩ :=
    @findCache_spec _ _ size cacheCacheMax 0 ht hmax (by omega) (by omega)
  let first := findCache table size cacheCacheMax 0
  have hfirst : first < defaultSpecs.length := by
    by_contra hge
    have hlast : (table 7).objsize = kmallocMaxSize :=
      ht.objsize_eq (show (defaultSpecs ++ specs)[7]? = some ⟨"2048bytes", 2048, cacheAlign, 0⟩ by
        rw [List.getElem?_append_left (by decide)]
        decide)
    have := hbefore 7 (by omega) (Nat.lt_of_lt_of_le (by decide) (Nat.le_of_not_lt hge))
    omega
  let memory : Nat → Slab := fun _ => ⟨0, 0, 0, 0, fun _ => 0, none⟩
  obtain ⟨memMap, hvirtual, hstart⟩ := kmemCacheInit_failing memory hinit₀ (2 * (cachep - first))
  have hrun := hcreate ⟨2, failFirst (2 * (cachep - first)), memMap⟩ memory []
  have hcreated : createdSpecs (specs.map .create) = specs := by simp [createdSpecs]
  have hsizes : SizesAccepted (defaultSpecs ++ specs) := by
    have haccepted := (TableStep.run_isTable hrun ht₀ (by decide) defaultSpecs_accepted).2.2
    rwa [hcreated] at haccepted
  have hwalk := @visits_failingHeap memMap memory table _ 0 cachep ht hempty first hc
    (cachep - first) (by omega)
  have hend : first + (cachep - first) = cachep := by omega
  rw [Nat.sub_self, Nat.mul_zero, hend] at hwalk
  obtain ⟨addr, h', r, hvisit, hexit⟩ :=
    @exit_failingHeap memMap memory table _ 0 cachep ht hsizes hempty hc hvirtual
  obtain ⟨fuel, hcall⟩ := (hwalk.trans hvisit).iterate_exit hexit
  have hresult := hadequate Scripted scriptedAllocator ScriptedHolds scriptedAllocator_spec
    _ ∅ ⟨Nat.zero_le _, by simp, fun _ => rfl⟩ memory _ hstart _ _ hrun hcreated
    0 fuel addr cachep h' (by
      rw [caosKmalloc_eq (show IsTable (defaultSpecs ++ specs) table from ht) hmax, if_pos]
      · exact hcall
      · exact Nat.lt_of_lt_of_le hfirst (by simp))
  have hobjsize : (table cachep).objsize = specs[k].objsize := by
    apply ht.objsize_eq
    rw [List.getElem?_append_right (by simp [cachep])]
    simp [cachep]
  have hresult' : size ≤ (table cachep).objsize := hresult
  omega

end Necessary

/-- For every list of caches that can be created after the default ones. -/
theorem size_adequate_iff (specs : List CacheSpec) (hspecs : AllCreatable defaultSpecs specs)
    (size : Nat) :
    SizeAdequate specs size ↔
      size > kmallocMaxSize ∨ ∀ spec ∈ specs, size ≤ spec.objsize := by
  constructor
  · intro hadequate
    by_contra hnot
    push Not at hnot
    obtain ⟨hsize, hsmall⟩ := hnot
    exact not_sizeAdequate_of_small hspecs hsize hsmall hadequate
  · exact sizeAdequate_of_large

/-- Behind a cache of 512-byte objects requests for 300 bytes are safe. -/
theorem size_adequate_packets :
    AllCreatable defaultSpecs [⟨"packets", 512, 16, 0⟩] ∧
      SizeAdequate [⟨"packets", 512, 16, 0⟩] 300 := by
  have hspecs : AllCreatable defaultSpecs [⟨"packets", 512, 16, 0⟩] := by decide +kernel
  exact ⟨hspecs, (size_adequate_iff _ hspecs 300).mpr (.inr (by decide +kernel))⟩

/-- Behind a cache of 8-byte objects a request for 2048 bytes may get one of them. -/
theorem small_cache_inadequate :
    ¬ (∀ specs : List CacheSpec, AllCreatable defaultSpecs specs →
        ∀ size, SizeAdequate specs size) := by
  intro hall
  have hspecs : AllCreatable defaultSpecs [⟨"words", 8, 8, 0⟩] := by decide +kernel
  exact not_sizeAdequate_of_small hspecs (by decide) (by decide +kernel) (hall _ hspecs 2048)

end Caos
