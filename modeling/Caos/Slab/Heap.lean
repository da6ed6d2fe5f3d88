import Caos.Lib.Iteration
import Caos.Lib.Run
import Caos.Slab.Pages

/-!
The heap of `slab.c`: growing and shrinking of caches, `caos_kmalloc` with its
retry loop, and `caos_kfree`. The state consists of the page allocator, the
table `cache_cache` and the slab headers with their bufctl arrays, which live at
the addresses of the slabs. The contents of objects are not part of it.
-/

namespace Caos

open Lib

/-- `struct slab` with the array its field `bufctl` points to, which follows it
directly. The linkage `list` is in `KmemCache.slabs`; `cache` is an index into
`cache_cache`. -/
structure Slab where
  sMem : Nat
  inuse : Nat
  free : Nat
  offset : Nat
  bufctl : Nat → Nat
  cache : Option Nat

/-- The state of the heap over a page allocator with states in `σ`. -/
structure Heap (σ : Type) where
  pages : σ
  slabAt : Nat → Slab
  cacheCache : Nat → KmemCache

/-- The slabs on the list of a cache. -/
def Heap.slabsOf {σ : Type} (h : Heap σ) (cachep : Nat) : List Nat :=
  ((h.cacheCache cachep).slabs).getD []

/-- The slab header and bufctl array `kmem_cache_grow` sets up at `slabp`, over
what the memory held before. -/
def newSlab (cachep : Nat) (cache : KmemCache) (slabp : Nat) (old : Slab) : Slab :=
  let bufctl := forUpTo (fun i bufctl => modifyAt bufctl (0 + i) fun _ => (i + 1) % 2 ^ 16)
    cache.num old.bufctl
  { inuse := 0
    offset := cache.colourOff
    sMem := slabp + cache.colourOff
    cache := some cachep
    bufctl := Function.update bufctl (cache.num - 1) bufctlEnd
    free := 0 }

section Operations

variable {σ : Type} (A : PageAllocator σ)

/-- `kmem_cache_grow`. The new slab is added at the head of the list. -/
def kmemCacheGrow (cachep flags : Nat) (h : Heap σ) : Nat × Heap σ :=
  match kmemGetpages A (h.cacheCache cachep) flags h.pages with
  | (none, s) => (0, { h with pages := s })
  | (some slabp, s) =>
    (1, { pages := s
          slabAt := modifyAt h.slabAt slabp (newSlab cachep (h.cacheCache cachep) slabp)
          cacheCache := updateSlabs h.cacheCache cachep (slabp :: ·) })

/-- `slab_destroy`. -/
def slabDestroy (cachep slabp : Nat) (h : Heap σ) : Heap σ :=
  let slab := h.slabAt slabp
  { h with pages := kmemFreepages A (h.cacheCache cachep) (slab.sMem - slab.offset) h.pages }

/-- `kmem_cache_shrink`. `none` is the access through the `NULL` pointers of an
unused descriptor. -/
def kmemCacheShrink (cachep : Nat) (h : Heap σ) : Option (Heap σ) :=
  match (h.cacheCache cachep).slabs with
  | none => none
  | some slabs =>
    match slabs.find? (fun slabp => (h.slabAt slabp).inuse = 0) with
    | none => some h
    | some slabp =>
      let h := slabDestroy A cachep slabp h
      some { h with cacheCache := updateSlabs h.cacheCache cachep (·.erase slabp) }

/-- The test of the loop over the slabs in `caos_kmalloc`. -/
def hasFree (h : Heap σ) (cache : KmemCache) (slabp : Nat) : Bool :=
  (h.slabAt slabp).free ≠ bufctlEnd ∧ (h.slabAt slabp).inuse < cache.num

/-- The end of `caos_kmalloc`: take the first free object of the slab. -/
def takeObject (cachep slabp : Nat) (h : Heap σ) : Nat × Heap σ :=
  let slab := h.slabAt slabp
  let slabAt := modifyAt h.slabAt slabp
    ({ · with inuse := slab.inuse + 1, free := slab.bufctl slab.free })
  (slab.sMem + slab.free * (h.cacheCache cachep).objsize, { h with slabAt := slabAt })

/-- How a call of `caos_kmalloc` ends: with `NULL`, with an object of a cache, or
with a page fault on the list head of an unused descriptor, whose handler does
not return. -/
inductive KmallocResult where
  | null
  | object (addr cachep : Nat)
  | fault
  deriving DecidableEq, Repr

/-- The variables of the retry loop. -/
structure Retry (σ : Type) where
  cacheIndex : Nat
  retryCount : Nat
  heap : Heap σ

/-- From the label `retry` of `caos_kmalloc` to the next `goto` or `return`. -/
def retryStep (flags : Nat) (r : Retry σ) : Retry σ ⊕ (KmallocResult × Heap σ) :=
  let cachep := r.cacheIndex
  if r.retryCount > kmallocRetryMax then .inr (.null, r.heap)
  else
    match (r.heap.cacheCache cachep).slabs with
    | none => .inr (.fault, r.heap)
    | some slabs =>
      match slabs.find? (hasFree r.heap (r.heap.cacheCache cachep)) with
      | some slabp =>
        let (obj, heap) := takeObject cachep slabp r.heap
        .inr (.object obj cachep, heap)
      | none =>
        let heap := (kmemCacheGrow A cachep flags r.heap).2
        let retryCount := r.retryCount + 1
        if retryCount > 1 then .inl ⟨cachep + 1, 0, heap⟩ else .inl ⟨cachep, retryCount, heap⟩

/-- The loop of `caos_kmalloc` over the table, for a cache of large enough
objects. -/
def findCache (table : Nat → KmemCache) (size : Nat) : Nat → Nat → Nat
  | 0, cacheIndex => cacheIndex
  | fuel + 1, cacheIndex =>
    if (table cacheIndex).name ≠ none ∧ cacheIndex < cacheCacheMax then
      if size ≤ (table cacheIndex).objsize then cacheIndex
      else findCache table size fuel (cacheIndex + 1)
    else cacheIndex

/-- `caos_kmalloc`, with a bound on the iterations of the retry loop. `none` is
a loop that is still running. -/
def caosKmalloc (size flags fuel : Nat) (h : Heap σ) : Option (KmallocResult × Heap σ) :=
  let cacheIndex := findCache h.cacheCache size cacheCacheMax 0
  if (h.cacheCache cacheIndex).name = none ∨ cacheIndex ≥ cacheCacheMax then some (.null, h)
  else iterate (retryStep A flags) fuel ⟨cacheIndex, 0, h⟩

/-- The processor accepts the address. -/
def IsCanonical (addr : Nat) : Prop := addr < 2 ^ 47 ∨ 2 ^ 64 - 2 ^ 47 ≤ addr

instance (addr : Nat) : Decidable (IsCanonical addr) :=
  inferInstanceAs (Decidable (_ ∨ _))

/-- `&bufctl[i]` for the bufctl array of a slab. -/
def bufctlAddr (slabp i : Nat) : Nat := (slabp + sizeofSlab + sizeofBufctl * i) % 2 ^ 64

/-- The end of `caos_kfree`: put the object in front of the free list of its slab. -/
def putObject (slabp objIndex : Nat) (h : Heap σ) : Heap σ :=
  let slab := h.slabAt slabp
  let slabAt := modifyAt h.slabAt slabp
    ({ · with
        bufctl := Function.update slab.bufctl objIndex (slab.free % 2 ^ 16)
        free := objIndex
        inuse := slab.inuse - 1 })
  { h with slabAt := slabAt }

/-- `caos_kfree`. `none` is the general protection fault of a store to a
non-canonical address, whose handler returns to the same store. -/
def caosKfree (objp : Nat) (h : Heap σ) : Option (Heap σ) :=
  match (A.page h.pages (virtToPfn objp)).slab with
  | none => some h
  | some slabp =>
    match (h.slabAt slabp).cache with
    | none => some h
    | some cachep =>
      if (h.slabAt slabp).inuse ≤ 0 then some h
      else
        let objIndex := sub64 objp (h.slabAt slabp).sMem / (h.cacheCache cachep).objsize
        if IsCanonical (bufctlAddr slabp objIndex) then some (putObject slabp objIndex h)
        else none

/-- `kmem_cache_init`, over arbitrary contents of the memory that will hold
slabs. `none` is the fault after a failed `alloc_pages`, or `halt()`. -/
def kmemCacheInit (memory : Nat → Slab) (s : σ) : Option (Heap σ) :=
  match A.allocPages 0 cacheCachePage s with
  | (none, _) => none
  | (some cachePage, s) =>
    let s := forDownFrom
      (fun i s => A.setPage (cachePage + i) (setPageSlab (A.page s (cachePage + i))) s)
      (2 ^ cacheCachePage) s
    (createDefaults cacheNames kmallocSmallSize fun _ => KmemCache.zeroed).map
      fun table => { pages := s, slabAt := memory, cacheCache := table }

end Operations

/-- An object handed out by `caos_kmalloc`: its address and its cache. -/
structure Obj where
  addr : Nat
  cachep : Nat
  deriving DecidableEq, Repr

/-- A call by a client of the heap. -/
inductive HeapOp where
  | kmalloc (size flags : Nat)
  | kfree (objp : Nat)
  | shrink (cachep : Nat)

/-- The heap together with the objects allocated and not yet freed. -/
structure HeapTrace (σ : Type) where
  heap : Heap σ
  live : List Obj

/-- A call that returns. `caos_kmalloc` adds its result to the live objects,
`caos_kfree` takes the object with this address away, if there is one. -/
inductive HeapStep {σ : Type} (A : PageAllocator σ) : HeapTrace σ → HeapOp → HeapTrace σ → Prop
  | kmallocNull {h h' live size flags fuel} :
      caosKmalloc A size flags fuel h = some (.null, h') →
      HeapStep A ⟨h, live⟩ (.kmalloc size flags) ⟨h', live⟩
  | kmallocObject {h h' live size flags fuel addr cachep} :
      caosKmalloc A size flags fuel h = some (.object addr cachep, h') →
      HeapStep A ⟨h, live⟩ (.kmalloc size flags) ⟨h', ⟨addr, cachep⟩ :: live⟩
  | kfree {h h' live objp} :
      caosKfree A objp h = some h' →
      HeapStep A ⟨h, live⟩ (.kfree objp) ⟨h', live.eraseP (·.addr = objp)⟩
  | shrink {h h' live cachep} :
      kmemCacheShrink A cachep h = some h' →
      HeapStep A ⟨h, live⟩ (.shrink cachep) ⟨h', live⟩

/-- A call of a client that frees only what it has been given. -/
def ClientStep {σ : Type} (A : PageAllocator σ) (t : HeapTrace σ) (op : HeapOp)
    (t' : HeapTrace σ) : Prop :=
  HeapStep A t op t' ∧ ∀ objp, op = .kfree objp → ∃ o ∈ t.live, o.addr = objp

theorem heapRun_of_client {σ : Type} {A : PageAllocator σ} {ops : List HeapOp}
    {t t' : HeapTrace σ} (hrun : Run (ClientStep A) t ops t') : Run (HeapStep A) t ops t' :=
  hrun.map (fun t => t) (fun _ _ _ hstep => hstep.1)

/-- The same as a function, with a bound on the iterations of the retry loop. -/
def clientNext {σ : Type} (A : PageAllocator σ) (fuel : Nat) (t : HeapTrace σ) :
    HeapOp → Option (HeapTrace σ)
  | .kmalloc size flags =>
    match caosKmalloc A size flags fuel t.heap with
    | some (.null, h) => some ⟨h, t.live⟩
    | some (.object addr cachep, h) => some ⟨h, ⟨addr, cachep⟩ :: t.live⟩
    | _ => none
  | .kfree objp =>
    if ∃ o ∈ t.live, o.addr = objp then
      (caosKfree A objp t.heap).map fun h => ⟨h, t.live.eraseP (·.addr = objp)⟩
    else none
  | .shrink cachep => (kmemCacheShrink A cachep t.heap).map fun h => ⟨h, t.live⟩

theorem clientNext_sound {σ : Type} {A : PageAllocator σ} {fuel : Nat} {t t' : HeapTrace σ}
    {op : HeapOp} (h : clientNext A fuel t op = some t') : ClientStep A t op t' := by
  cases op with
  | kmalloc size flags =>
      refine ⟨?_, by intro objp heq; cases heq⟩
      simp only [clientNext] at h
      split at h
      · next hcall =>
          obtain rfl := Option.some.inj h
          exact .kmallocNull hcall
      · next hcall =>
          obtain rfl := Option.some.inj h
          exact .kmallocObject hcall
      · cases h
  | kfree objp =>
      simp only [clientNext] at h
      split at h
      · next hlive =>
          obtain ⟨h', hcall, rfl⟩ := Option.map_eq_some_iff.mp h
          refine ⟨.kfree hcall, ?_⟩
          intro p heq
          cases heq
          exact hlive
      · cases h
  | shrink cachep =>
      refine ⟨?_, by intro objp heq; cases heq⟩
      obtain ⟨h', hcall, rfl⟩ := Option.map_eq_some_iff.mp h
      exact .shrink hcall

theorem clientRun_sound {σ : Type} {A : PageAllocator σ} {fuel : Nat} {ops : List HeapOp}
    {t t' : HeapTrace σ} (h : ops.foldlM (clientNext A fuel) t = some t') :
    Run (ClientStep A) t ops t' := by
  induction ops generalizing t with
  | nil =>
      obtain rfl := Option.some.inj h
      exact .nil t
  | cons op ops ih =>
      rw [List.foldlM_cons] at h
      obtain ⟨u, hstep, hrest⟩ := Option.bind_eq_some_iff.mp h
      exact .cons (clientNext_sound hstep) (ih hrest)

end Caos
