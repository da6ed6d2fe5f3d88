import Caos.Memory.ListHead
import Caos.Slab.Exclusive
import Caos.Slab.Fallback

/-!
The slab lists of `slab.c` as the code links them. A cache heads a ring of
`struct list_head`s, one in each of its slabs; `kmem_cache_grow` splices a slab
in, `kmem_cache_shrink` takes one out, and the loops follow the pointers. This
heap implements the one whose caches have lists of slabs.
-/

namespace Caos

open Lib

/-- The values of a pointer to a `struct list_head` of `slab.c`: the field `slabs` of a
descriptor, the field `list` of a slab, and the pointers that lead to neither. -/
inductive SlabNode where
  | null
  | poison1
  | poison2
  | head (cachep : Nat)
  | slab (slabp : Nat)
  deriving DecidableEq, Repr

/-- The loops over a slab list read the entry behind this pointer without a page fault. -/
def SlabNode.readable : SlabNode → Bool
  | .head _ | .slab _ => true
  | .null | .poison1 | .poison2 => false

/-- The pointer leads to a slab that passes the test. -/
def SlabNode.holds (test : Nat → Bool) : SlabNode → Bool
  | .slab slabp => test slabp
  | _ => false

/-- The descriptor without its list. -/
def KmemCache.unlisted (c : KmemCache) : KmemCache := { c with slabs := none }

/-- The heap without its lists. -/
def Heap.unlisted {σ : Type} (h : Heap σ) : Heap σ :=
  { h with cacheCache := fun i => (h.cacheCache i).unlisted }

/-- The heap with its list nodes. The field `slabs` of the descriptors is not used. -/
structure LinkedHeap (σ : Type) where
  heap : Heap σ
  nodes : SlabNode → ListHead SlabNode

section Operations

variable {σ : Type} (A : PageAllocator σ)

/-- `kmem_cache_grow`. -/
def linkedGrow (cachep flags : Nat) (l : LinkedHeap σ) : Nat × LinkedHeap σ :=
  match kmemGetpages A (l.heap.cacheCache cachep) flags l.heap.pages with
  | (none, s) => (0, { l with heap := { l.heap with pages := s } })
  | (some slabp, s) =>
    let slabAt := modifyAt l.heap.slabAt slabp (newSlab cachep (l.heap.cacheCache cachep) slabp)
    let nodes := initListHead l.nodes (.slab slabp)
    (1, { heap := { l.heap with pages := s, slabAt := slabAt }
          nodes := listAdd nodes (.slab slabp) (.head cachep) })

/-- The loops over the slabs of a cache, which break at a slab that passes the test. -/
def slabLoop (l : LinkedHeap σ) (cachep : Nat) (test : Nat → Bool) :
    SlabNode → SlabNode ⊕ Option SlabNode :=
  forEachEntryStep l.nodes (.head cachep) SlabNode.readable (SlabNode.holds test)

/-- How a call of `kmem_cache_shrink` ends. -/
inductive ShrinkResult (σ : Type) where
  | returns (l : LinkedHeap σ)
  | fault

/-- The heap of a call that returned. -/
def ShrinkResult.heap {σ : Type} : ShrinkResult σ → Option (LinkedHeap σ)
  | .returns l => some l
  | .fault => none

/-- `kmem_cache_shrink`, with a bound on the iterations of its loop. -/
def linkedShrink (cachep fuel : Nat) (l : LinkedHeap σ) : Option (ShrinkResult σ) :=
  let test slabp := (l.heap.slabAt slabp).inuse = 0
  (iterate (slabLoop l cachep test) fuel (l.nodes (.head cachep)).next).map fun
    | none => .fault
    | some (.slab slabp) =>
      .returns { heap := slabDestroy A cachep slabp l.heap
                 nodes := listDel .poison1 .poison2 l.nodes (.slab slabp) }
    | some _ => .returns l

/-- The variables of `caos_kmalloc` behind the label `retry`. `pos` is the loop variable of
`list_for_each_entry`; without one the call is at the label. -/
structure LinkedRetry (σ : Type) where
  cacheIndex : Nat
  retryCount : Nat
  pos : Option SlabNode
  heap : LinkedHeap σ

/-- One step of `caos_kmalloc` behind the label `retry`: the test of `retry_count` and the
start of the loop, or an iteration of the loop with what follows its end. -/
def linkedRetryStep (flags : Nat) (r : LinkedRetry σ) :
    LinkedRetry σ ⊕ (KmallocResult × LinkedHeap σ) :=
  let cachep := r.cacheIndex
  let l := r.heap
  match r.pos with
  | none =>
    if r.retryCount > kmallocRetryMax then .inr (.null, l)
    else .inl { r with pos := some (l.nodes (.head cachep)).next }
  | some pos =>
    match slabLoop l cachep (hasFree l.heap (l.heap.cacheCache cachep)) pos with
    | .inl next => .inl { r with pos := some next }
    | .inr none => .inr (.fault, l)
    | .inr (some (.slab slabp)) =>
      let (obj, heap) := takeObject cachep slabp l.heap
      .inr (.object obj cachep, { l with heap := heap })
    | .inr (some _) =>
      let l := (linkedGrow A cachep flags l).2
      let retryCount := r.retryCount + 1
      if retryCount > 1 then .inl ⟨cachep + 1, 0, none, l⟩ else .inl ⟨cachep, retryCount, none, l⟩

/-- `caos_kmalloc`. -/
def linkedKmalloc (size flags fuel : Nat) (l : LinkedHeap σ) :
    Option (KmallocResult × LinkedHeap σ) :=
  let cacheIndex := findCache l.heap.cacheCache size cacheCacheMax 0
  if (l.heap.cacheCache cacheIndex).name = none ∨ cacheIndex ≥ cacheCacheMax then
    some (.null, l)
  else iterate (linkedRetryStep A flags) fuel ⟨cacheIndex, 0, none, l⟩

/-- `caos_kfree`, which leaves the lists alone. -/
def linkedKfree (objp : Nat) (l : LinkedHeap σ) : Option (LinkedHeap σ) :=
  (caosKfree A objp l.heap).map fun heap => { l with heap := heap }

/-- The calls of `kmem_cache_create` in `kmem_cache_init`, each with the `INIT_LIST_HEAD` of
its descriptor. -/
def createLinked : List String → Nat → (Nat → KmemCache) → (SlabNode → ListHead SlabNode) →
    Option ((Nat → KmemCache) × (SlabNode → ListHead SlabNode))
  | [], _, table, nodes => some (table, nodes)
  | name :: rest, csize, table, nodes =>
    match kmemCacheCreate (some name) csize cacheAlign 0 table with
    | none => none
    | some (cachep, table) =>
      createLinked rest (csize * 2) table (initListHead nodes (.head cachep))

/-- The list nodes after the table has been cleared, over what the memory of slabs holds. -/
def clearedNodes (memory : SlabNode → ListHead SlabNode) : SlabNode → ListHead SlabNode
  | .head _ => ⟨.null, .null⟩
  | node => memory node

/-- `kmem_cache_init`. -/
def linkedInit (memory : Nat → Slab) (nodes : SlabNode → ListHead SlabNode) (s : σ) :
    Option (LinkedHeap σ) :=
  match A.allocPages 0 cacheCachePage s with
  | (none, _) => none
  | (some cachePage, s) =>
    let s := forDownFrom
      (fun i s => A.setPage (cachePage + i) (setPageSlab (A.page s (cachePage + i))) s)
      (2 ^ cacheCachePage) s
    (createLinked cacheNames kmallocSmallSize (fun _ => KmemCache.zeroed)
      (clearedNodes nodes)).map fun (table, nodes) =>
        { heap := Heap.unlisted { pages := s, slabAt := memory, cacheCache := table }
          nodes := nodes }

end Operations

/-- The heap together with the objects allocated and not yet freed. -/
structure LinkedTrace (σ : Type) where
  heap : LinkedHeap σ
  live : List Obj

/-- A call that returns, by a client that frees only what it has been given. -/
inductive LinkedStep {σ : Type} (A : PageAllocator σ) :
    LinkedTrace σ → HeapOp → LinkedTrace σ → Prop
  | kmallocNull {l l' live size flags fuel} :
      linkedKmalloc A size flags fuel l = some (.null, l') →
      LinkedStep A ⟨l, live⟩ (.kmalloc size flags) ⟨l', live⟩
  | kmallocObject {l l' live size flags fuel addr cachep} :
      linkedKmalloc A size flags fuel l = some (.object addr cachep, l') →
      LinkedStep A ⟨l, live⟩ (.kmalloc size flags) ⟨l', ⟨addr, cachep⟩ :: live⟩
  | kfree {l l' live objp} :
      linkedKfree A objp l = some l' → (∃ o ∈ live, o.addr = objp) →
      LinkedStep A ⟨l, live⟩ (.kfree objp) ⟨l', live.eraseP (·.addr = objp)⟩
  | shrink {l l' live cachep fuel} :
      linkedShrink A cachep fuel l = some (.returns l') →
      LinkedStep A ⟨l, live⟩ (.shrink cachep) ⟨l', live⟩

/-! ## The lists the nodes make -/

/-- The nodes of a descriptor in use form the ring of its slabs. The list head of the others
is still `NULL`. -/
structure ListsOf (table : Nat → KmemCache) (nodes : SlabNode → ListHead SlabNode) : Prop where
  unused : ∀ c, (table c).slabs = none → (nodes (.head c)).next = .null
  ring : ∀ c slabs, (table c).slabs = some slabs → RingOf nodes (.head c) (slabs.map .slab)

/-- The linked heap has the pages, slabs and descriptors of `h`, and its nodes make the lists. -/
structure Represents {σ : Type} (l : LinkedHeap σ) (h : Heap σ) : Prop where
  heap : l.heap = h.unlisted
  lists : ListsOf h.cacheCache l.nodes

section Lists

variable {table : Nat → KmemCache} {nodes nodes' : SlabNode → ListHead SlabNode}
  {cachep fuel : Nat} {slabs : List Nat} {test : Nat → Bool}

theorem readable_of_mem {node : SlabNode} (h : node ∈ .head cachep :: slabs.map .slab) :
    node.readable = true := by
  rcases List.mem_cons.mp h with rfl | h
  · rfl
  · obtain ⟨slabp, -, rfl⟩ := List.mem_map.mp h
    rfl

/-- A change of one list, that leaves the nodes of the others alone. -/
theorem ListsOf.updateSlabs (h : ListsOf table nodes) {f : List Nat → List Nat}
    (hslabs : (table cachep).slabs = some slabs)
    (hother : ∀ c ≠ cachep, ∀ node ∈ .head c :: ((table c).slabs.getD []).map SlabNode.slab,
      nodes' node = nodes node)
    (hring : RingOf nodes' (.head cachep) ((f slabs).map .slab)) :
    ListsOf (updateSlabs table cachep f) nodes' := by
  constructor
  · intro c hnone
    rw [updateSlabs_eq] at hnone
    rcases eq_or_ne c cachep with rfl | hne
    · simp [hslabs] at hnone
    · rw [hother c hne _ (List.mem_cons_self ..)]
      exact h.unused c (by simpa [hne] using hnone)
  · intro c other hsome
    rw [updateSlabs_eq] at hsome
    rcases eq_or_ne c cachep with rfl | hne
    · obtain rfl : f slabs = other := by simpa [hslabs] using hsome
      exact hring
    · have hc : (table c).slabs = some other := by simpa [hne] using hsome
      apply (h.ring c other hc).frame
      simpa only [hc, Option.getD_some] using hother c hne

/-- A new cache starts with an empty ring. -/
theorem ListsOf.create (h : ListsOf table nodes) {c : KmemCache} (hempty : c.slabs = some []) :
    ListsOf (Function.update table cachep c) (initListHead nodes (.head cachep)) := by
  constructor
  · intro i hnone
    rcases eq_or_ne i cachep with rfl | hne
    · simp [hempty] at hnone
    · rw [Function.update_of_ne hne] at hnone
      rw [initListHead_of_ne nodes (by simpa using hne)]
      exact h.unused i hnone
  · intro i slabs hsome
    rcases eq_or_ne i cachep with rfl | hne
    · obtain rfl : [] = slabs := by simpa [hempty] using hsome
      apply Ring.empty <;> simp [initListHead]
    · rw [Function.update_of_ne hne] at hsome
      apply (h.ring i slabs hsome).frame
      intro node hnode
      apply initListHead_of_ne
      rintro rfl
      simp [hne.symm] at hnode

theorem createLinked_spec {names : List String} {csize : Nat} {table' : Nat → KmemCache}
    (h : ListsOf table nodes) (hcall : createDefaults names csize table = some table') :
    ∃ nodes', createLinked names csize table nodes = some (table', nodes') ∧
      ListsOf table' nodes' := by
  induction names generalizing csize table nodes with
  | nil =>
      obtain rfl := Option.some.inj hcall
      exact ⟨nodes, rfl, h⟩
  | cons name rest ih =>
      rw [createDefaults] at hcall
      rw [createLinked]
      rcases hcreate : kmemCacheCreate (some name) csize cacheAlign 0 table with _ | ⟨i, t⟩
      · simp [hcreate] at hcall
      · rw [hcreate] at hcall
        apply ih _ hcall
        simp only [kmemCacheCreate] at hcreate
        split at hcreate
        · cases hcreate
        · split at hcreate
          · cases hcreate
          · split at hcreate
            · cases hcreate
            · cases hcreate
              exact h.create rfl

end Lists

section Simulation

variable {σ : Type} {A : PageAllocator σ} {Holds : σ → Set Block → Prop} {others : Set Block}
  {l l' : LinkedHeap σ} {h h' : Heap σ} {cachep flags size fuel objp slabp : Nat}
  {slabs : List Nat} {test : Nat → Bool}

theorem findCache_unlisted (h : Heap σ) (size fuel i : Nat) :
    findCache h.unlisted.cacheCache size fuel i = findCache h.cacheCache size fuel i := by
  induction fuel generalizing i with
  | zero => rfl
  | succ fuel ih =>
      simp only [findCache, ih]
      rfl

theorem caosKfree_unlisted (objp : Nat) (h : Heap σ) :
    caosKfree A objp h.unlisted = (caosKfree A objp h).map Heap.unlisted := by
  have hslab : (A.page h.unlisted.pages (virtToPfn objp)).slab =
      (A.page h.pages (virtToPfn objp)).slab := rfl
  simp only [caosKfree, hslab]
  split
  · rfl
  · next slabp _ =>
      have hcache : (h.unlisted.slabAt slabp).cache = (h.slabAt slabp).cache := rfl
      simp only [hcache]
      split
      · rfl
      · simp only [apply_ite (Option.map Heap.unlisted)]
        rfl

theorem unlisted_updateSlabs (pages : σ) (slabAt : Nat → Slab) (table : Nat → KmemCache)
    (f : List Nat → List Nat) :
    Heap.unlisted ⟨pages, slabAt, updateSlabs table cachep f⟩ =
      Heap.unlisted ⟨pages, slabAt, table⟩ := by
  simp only [Heap.unlisted, KmemCache.unlisted, updateSlabs_eq]

/-- The nodes of two caches are different. -/
theorem HeapInv.node_ne (hinv : HeapInv A Holds others h) {c : Nat} (hc : c ≠ cachep)
    {node other : SlabNode} (hnode : node ∈ .head c :: (h.slabsOf c).map SlabNode.slab)
    (hother : other ∈ .head cachep :: (h.slabsOf cachep).map SlabNode.slab) : node ≠ other := by
  rintro rfl
  simp only [List.mem_cons, List.mem_map] at hnode hother
  rcases hnode with rfl | ⟨b, hb, rfl⟩
  · simp [hc] at hother
  · obtain ⟨b', hb', heq⟩ : ∃ b', b' ∈ h.slabsOf cachep ∧ SlabNode.slab b' = .slab b := by
      simpa using hother
    cases heq
    exact hc (hinv.cache_unique hb hb')

/-- The loops see the slabs of the list in its order. -/
theorem Represents.slabLoop (hrep : Represents l h)
    (hslabs : (h.cacheCache cachep).slabs = some slabs) (test : Nat → Bool)
    (hfuel : slabs.length < fuel) :
    iterate (Caos.slabLoop l cachep test) fuel (l.nodes (.head cachep)).next =
      some (some (((slabs.find? test).map .slab).getD (.head cachep))) := by
  have hring := hrep.lists.ring cachep slabs hslabs
  have hloop : iterate (Caos.slabLoop l cachep test) fuel (l.nodes (.head cachep)).next =
      some (some (((slabs.map .slab).find? (SlabNode.holds test)).getD (.head cachep))) :=
    hring.forEachEntry (fun _ => readable_of_mem) (by simpa using hfuel)
  rw [List.find?_map] at hloop
  exact hloop

theorem Represents.slabLoop_unused (hrep : Represents l h)
    (hnone : (h.cacheCache cachep).slabs = none) (test : Nat → Bool) (fuel : Nat) :
    iterate (Caos.slabLoop l cachep test) (fuel + 1) (l.nodes (.head cachep)).next = some none := by
  rw [hrep.lists.unused cachep hnone]
  exact iterate_inr rfl fuel

/-- A new slab is spliced in where the list gets it. -/
theorem Represents.grow (spec : PageSpec A Holds) (hinv : HeapInv A Holds others h)
    (hrep : Represents l h) (hslabs : (h.cacheCache cachep).slabs ≠ none) (flags : Nat) :
    Represents (linkedGrow A cachep flags l).2 (kmemCacheGrow A cachep flags h).2 := by
  have hsome := hinv.table.slabs_some (hinv.table.lt_of_slabs hslabs)
  have hring := hrep.lists.ring cachep _ hsome
  have hpages : kmemGetpages A (l.heap.cacheCache cachep) flags l.heap.pages =
      kmemGetpages A (h.cacheCache cachep) flags h.pages := by
    rw [hrep.heap]
    rfl
  rcases spec.kmemGetpages_cases hinv.holds (h.cacheCache cachep) flags with
    ⟨s, hcall, -, -⟩ | ⟨first, s, hcall, -, hdisj, -⟩
  · simp only [linkedGrow, kmemCacheGrow, hpages, hcall]
    exact ⟨by rw [hrep.heap]; rfl, hrep.lists⟩
  have hfresh : ∀ c, frameAddr first ∉ h.slabsOf c := by
    intro c hmem
    have hb := hdisj ⟨first, (h.cacheCache c).gfporder⟩ (.inr ⟨c, hmem, rfl⟩)
    exact Finset.disjoint_left.mp hb (Block.first_mem _) (first_mem_blockFrames _ _)
  have hnew : ∀ c, SlabNode.slab (frameAddr first) ∉
      SlabNode.head c :: (h.slabsOf c).map SlabNode.slab := by
    intro c
    simpa using hfresh c
  have hinit : ∀ c, ∀ node ∈ SlabNode.head c :: (h.slabsOf c).map SlabNode.slab,
      initListHead l.nodes (.slab (frameAddr first)) node = l.nodes node := by
    intro c node hnode
    apply initListHead_of_ne
    rintro rfl
    exact hnew c hnode
  have hring' := hring.frame (hinit cachep)
  simp only [linkedGrow, kmemCacheGrow, hpages, hcall]
  constructor
  · rw [unlisted_updateSlabs, hrep.heap]
    rfl
  · refine hrep.lists.updateSlabs hsome ?_ (hring'.listAdd (hnew cachep))
    intro c hc node hnode
    have hslab : node ≠ .slab (frameAddr first) := by
      rintro rfl
      exact hnew c hnode
    have hhead : node ≠ .head cachep := hinv.node_ne hc hnode (by simp)
    have hnext := hinv.node_ne hc hnode hring'.next_mem
    exact (listAdd_frame _ hslab hhead hnext).trans (hinit c node hnode)

/-- A slab is taken out where the list loses it. -/
theorem Represents.remove (hinv : HeapInv A Holds others h) (hrep : Represents l h)
    (hmem : slabp ∈ h.slabsOf cachep) (s : σ) :
    Represents { heap := { l.heap with pages := s }
                 nodes := listDel .poison1 .poison2 l.nodes (.slab slabp) }
      (h.removeSlab cachep slabp s) := by
  have hsome := hinv.table.slabs_some (hinv.table.lt_of_mem hmem)
  have hring := hrep.lists.ring cachep _ hsome
  obtain ⟨front, back, hsplit⟩ := List.append_of_mem hmem
  have hnodup := hinv.nodup cachep
  have herase : (h.slabsOf cachep).erase slabp = front ++ back := by
    rw [hsplit] at hnodup ⊢
    rw [List.nodup_middle, List.nodup_cons, List.mem_append, not_or] at hnodup
    rw [List.erase_append_right _ hnodup.1.1, List.erase_cons_head]
  constructor
  · rw [Heap.removeSlab, unlisted_updateSlabs, hrep.heap]
    rfl
  · refine hrep.lists.updateSlabs hsome ?_ ?_
    · rw [hsplit, List.map_append, List.map_cons] at hring
      obtain ⟨hfront, hback⟩ := linked_append.mp hring.linked
      intro c hc node hnode
      have hne : ∀ other ∈ SlabNode.head cachep :: (h.slabsOf cachep).map SlabNode.slab,
          node ≠ other := fun other hother => hinv.node_ne hc hnode hother
      rw [hsplit] at hne
      apply listDel_frame
      · exact hne _ (by simp)
      · have hnext := hback.next_mem
        apply hne
        simp only [List.mem_append, List.mem_cons, List.map_append, List.map_cons] at hnext ⊢
        tauto
      · have hprev := hfront.prev_mem
        apply hne
        simp only [List.mem_append, List.mem_cons, List.map_append, List.map_cons] at hprev ⊢
        tauto
    · rw [herase, List.map_append]
      apply RingOf.listDel
      rw [hsplit, List.map_append, List.map_cons] at hring
      exact hring

/-- `kmem_cache_shrink` takes the same slab out, or faults on the same descriptors. -/
theorem Represents.shrink (hinv : HeapInv A Holds others h) (hrep : Represents l h)
    (cachep : Nat) :
    (kmemCacheShrink A cachep h = none ∧
      ∃ fuel, linkedShrink A cachep fuel l = some .fault) ∨
    (∃ h', kmemCacheShrink A cachep h = some h' ∧
      ∃ fuel l', linkedShrink A cachep fuel l = some (.returns l') ∧ Represents l' h') := by
  let test slabp := decide ((l.heap.slabAt slabp).inuse = 0)
  have hslabAt : l.heap.slabAt = h.slabAt := by rw [hrep.heap]; rfl
  cases hslabs : (h.cacheCache cachep).slabs with
  | none =>
      refine .inl ⟨by simp only [kmemCacheShrink, hslabs], 1, ?_⟩
      have hloop := hrep.slabLoop_unused hslabs test 0
      simp only [linkedShrink, test] at hloop ⊢
      rw [hloop]
      rfl
  | some slabs =>
      right
      have hsome := hslabs
      rw [hinv.table.slabs_some (hinv.table.lt_of_slabs (by simp [hslabs]))] at hsome
      have hloop := hrep.slabLoop hslabs test (Nat.lt_succ_self _)
      simp only [test] at hloop
      have hfind : slabs.find? (fun slabp => decide ((l.heap.slabAt slabp).inuse = 0)) =
          slabs.find? (fun slabp => decide ((h.slabAt slabp).inuse = 0)) := by rw [hslabAt]
      rw [hfind] at hloop
      cases hfound : slabs.find? (fun slabp => decide ((h.slabAt slabp).inuse = 0)) with
      | none =>
          rw [hfound] at hloop
          refine ⟨h, by simp only [kmemCacheShrink, hslabs, hfound], slabs.length + 1, l, ?_, hrep⟩
          rw [linkedShrink, hloop]
          rfl
      | some slabp =>
          rw [hfound] at hloop
          have hmem : slabp ∈ h.slabsOf cachep := by
            rw [Option.some.inj hsome]
            exact List.mem_of_find?_eq_some hfound
          refine ⟨_, by simp only [kmemCacheShrink, hslabs, hfound]; rfl, slabs.length + 1, _, ?_,
            hrep.remove hinv hmem _⟩
          rw [linkedShrink, hloop, hrep.heap]
          rfl

/-- At the label `retry` both loops have the same variables, and the one heap represents the
other. -/
structure AtRetry (A : PageAllocator σ) (Holds : σ → Set Block → Prop) (others : Set Block)
    (r : Retry σ) (lr : LinkedRetry σ) : Prop where
  inv : HeapInv A Holds others r.heap
  rep : Represents lr.heap r.heap
  cacheIndex : lr.cacheIndex = r.cacheIndex
  retryCount : lr.retryCount = r.retryCount
  pos : lr.pos = none

/-- From the label to the end of the loop over the slabs. -/
theorem visits_slabLoop {r : LinkedRetry σ} (hpos : r.pos = none)
    (hcount : ¬ r.retryCount > kmallocRetryMax) {fuel : Nat} {result : Option SlabNode}
    (hloop : iterate (slabLoop r.heap r.cacheIndex
      (hasFree r.heap.heap (r.heap.heap.cacheCache r.cacheIndex))) fuel
        (r.heap.nodes (.head r.cacheIndex)).next = some result) :
    ∃ pos, Visits (linkedRetryStep A flags) r { r with pos := some pos } ∧
      slabLoop r.heap r.cacheIndex (hasFree r.heap.heap (r.heap.heap.cacheCache r.cacheIndex)) pos =
        .inr result := by
  obtain ⟨pos, hvisits, hexit⟩ := iterate_exit hloop
  have hwalk : Visits (linkedRetryStep A flags)
      { r with pos := some (r.heap.nodes (.head r.cacheIndex)).next }
      { r with pos := some pos } := by
    apply hvisits.map fun pos => ({ r with pos := some pos } : LinkedRetry σ)
    intro pos next hnext
    simp only [linkedRetryStep, hnext]
  have hstart : linkedRetryStep A flags r =
      .inl { r with pos := some (r.heap.nodes (.head r.cacheIndex)).next } := by
    simp only [linkedRetryStep, hpos, hcount, if_false]
  exact ⟨pos, hwalk.head hstart, hexit⟩

/-- The loop over the slabs finds what `find?` finds. -/
theorem AtRetry.slabLoop {r : Retry σ} {lr : LinkedRetry σ} (hat : AtRetry A Holds others r lr)
    (hslabs : (r.heap.cacheCache r.cacheIndex).slabs = some slabs) :
    iterate (Caos.slabLoop lr.heap lr.cacheIndex
        (hasFree lr.heap.heap (lr.heap.heap.cacheCache lr.cacheIndex))) (slabs.length + 1)
        (lr.heap.nodes (.head lr.cacheIndex)).next =
      some (some (((slabs.find? (hasFree r.heap (r.heap.cacheCache r.cacheIndex))).map .slab).getD
        (.head r.cacheIndex))) := by
  have htest : hasFree lr.heap.heap (lr.heap.heap.cacheCache lr.cacheIndex) =
      hasFree r.heap (r.heap.cacheCache r.cacheIndex) := by
    rw [hat.rep.heap, hat.cacheIndex]
    rfl
  rw [htest, hat.cacheIndex]
  exact hat.rep.slabLoop hslabs _ (Nat.lt_succ_self _)

/-- A pass of the retry loop that continues. -/
theorem AtRetry.next (spec : PageSpec A Holds) {r r' : Retry σ} {lr : LinkedRetry σ}
    (hat : AtRetry A Holds others r lr) (hstep : retryStep A flags r = .inl r') :
    ∃ lr', Visits (linkedRetryStep A flags) lr lr' ∧ AtRetry A Holds others r' lr' := by
  have hslabs := (retryStep_inl hstep).1
  have hsome := hat.inv.table.slabs_some (hat.inv.table.lt_of_slabs hslabs)
  have hloop := hat.slabLoop hsome
  simp only [retryStep, hsome] at hstep
  split at hstep
  · cases hstep
  next hcount =>
  split at hstep
  · cases hstep
  next hfound =>
  rw [hfound] at hloop
  obtain ⟨pos, hvisits, hexit⟩ :=
    @visits_slabLoop σ A flags lr hat.pos (by rw [hat.retryCount]; exact hcount) _ _ hloop
  have hgrow := hat.rep.grow spec hat.inv hslabs flags
  have hinv : HeapInv A Holds others (kmemCacheGrow A r.cacheIndex flags r.heap).2 := by
    rcases hat.inv.grow spec (hat.inv.table.lt_of_slabs hslabs) flags with
      ⟨s, hcall, hnext, _⟩ | ⟨first, s, hcall, hnext, _⟩
    · rwa [hcall]
    · rwa [hcall]
  have hlast : linkedRetryStep A flags { lr with pos := some pos } =
      if r.retryCount + 1 > 1 then
        .inl ⟨r.cacheIndex + 1, 0, none, (linkedGrow A r.cacheIndex flags lr.heap).2⟩
      else .inl ⟨r.cacheIndex, r.retryCount + 1, none,
        (linkedGrow A r.cacheIndex flags lr.heap).2⟩ := by
    rw [hat.cacheIndex] at hexit
    simp only [linkedRetryStep, hat.cacheIndex, hat.retryCount, hexit, Option.map_none,
      Option.getD_none]
  split at hstep
  · next hsecond =>
      cases hstep
      rw [if_pos hsecond] at hlast
      exact ⟨_, hvisits.next hlast, hinv, hgrow, rfl, rfl, rfl⟩
  · next hfirst =>
      cases hstep
      rw [if_neg hfirst] at hlast
      exact ⟨_, hvisits.next hlast, hinv, hgrow, rfl, rfl, rfl⟩

/-- A pass of the retry loop that ends the call. -/
theorem AtRetry.exit {r : Retry σ} {lr : LinkedRetry σ} {result : KmallocResult}
    (hat : AtRetry A Holds others r lr) (hstep : retryStep A flags r = .inr (result, h')) :
    ∃ lr' l', Visits (linkedRetryStep A flags) lr lr' ∧
      linkedRetryStep A flags lr' = .inr (result, l') ∧ Represents l' h' := by
  simp only [retryStep] at hstep
  split at hstep
  · next hcount =>
      cases hstep
      refine ⟨lr, lr.heap, .start, ?_, hat.rep⟩
      simp only [linkedRetryStep, hat.pos, hat.retryCount, hcount, if_true]
  next hcount =>
  have hcount' : ¬ lr.retryCount > kmallocRetryMax := by rw [hat.retryCount]; exact hcount
  split at hstep
  · next hnone =>
      cases hstep
      have hloop := hat.rep.slabLoop_unused hnone
        (hasFree lr.heap.heap (lr.heap.heap.cacheCache lr.cacheIndex)) 0
      rw [← hat.cacheIndex] at hloop
      obtain ⟨pos, hvisits, hexit⟩ := @visits_slabLoop σ A flags lr hat.pos hcount' _ _ hloop
      refine ⟨_, lr.heap, hvisits, ?_, hat.rep⟩
      simp only [linkedRetryStep, hexit]
  next slabs hsome =>
  have hloop := hat.slabLoop hsome
  split at hstep
  · next slabp hfound =>
      cases hstep
      rw [hfound] at hloop
      obtain ⟨pos, hvisits, hexit⟩ := @visits_slabLoop σ A flags lr hat.pos hcount' _ _ hloop
      refine ⟨_, { lr.heap with heap := (takeObject r.cacheIndex slabp lr.heap.heap).2 },
        hvisits, ?_, ?_, hat.rep.lists⟩
      · rw [hat.cacheIndex] at hexit
        simp only [linkedRetryStep, hat.cacheIndex, hexit, Option.map_some, Option.getD_some]
        rw [hat.rep.heap]
        rfl
      · rw [hat.rep.heap]
        rfl
  · split at hstep <;> cases hstep

theorem Represents.findCache_eq (hrep : Represents l h) (size : Nat) :
    findCache l.heap.cacheCache size cacheCacheMax 0 =
      findCache h.cacheCache size cacheCacheMax 0 := by
  rw [hrep.heap, findCache_unlisted]

/-- `caos_kmalloc` returns the same. -/
theorem Represents.kmalloc (spec : PageSpec A Holds) (hinv : HeapInv A Holds others h)
    (hrep : Represents l h) {result : KmallocResult}
    (hcall : caosKmalloc A size flags fuel h = some (result, h')) :
    ∃ fuel l', linkedKmalloc A size flags fuel l = some (result, l') ∧ Represents l' h' := by
  have hfind := hrep.findCache_eq size
  have hname : ∀ i, (l.heap.cacheCache i).name = (h.cacheCache i).name := by
    rw [hrep.heap]
    exact fun i => rfl
  simp only [caosKmalloc] at hcall
  simp only [linkedKmalloc, hfind, hname]
  split at hcall
  · next hnone =>
      cases hcall
      exact ⟨0, l, by rw [if_pos hnone], hrep⟩
  · next hcache =>
      simp only [if_neg hcache]
      obtain ⟨r, hvisits, hexit⟩ := iterate_exit hcall
      have hstart : AtRetry A Holds others ⟨findCache h.cacheCache size cacheCacheMax 0, 0, h⟩
          ⟨findCache h.cacheCache size cacheCacheMax 0, 0, none, l⟩ :=
        ⟨hinv, hrep, rfl, rfl, rfl⟩
      obtain ⟨lr, hlvisits, hat⟩ := hvisits.simulates
        (fun _ _ _ hat hstep => AtRetry.next spec hat hstep) hstart
      obtain ⟨lr', l', hmore, hlexit, hrep'⟩ := hat.exit hexit
      obtain ⟨fuel, hfuel⟩ := (hlvisits.trans hmore).iterate_exit hlexit
      exact ⟨fuel, l', hfuel, hrep'⟩

/-- `caos_kfree` does the same, and leaves the nodes alone. -/
theorem Represents.kfree (hrep : Represents l h) (hcall : caosKfree A objp h = some h') :
    linkedKfree A objp l = some { l with heap := h'.unlisted } ∧
      Represents { l with heap := h'.unlisted } h' := by
  constructor
  · rw [linkedKfree, hrep.heap, caosKfree_unlisted, hcall]
    rfl
  · rcases caosKfree_cases hcall with rfl | ⟨_, _, _, _, rfl⟩
    · exact ⟨rfl, hrep.lists⟩
    · exact ⟨rfl, hrep.lists⟩

/-- Every call of `caos_kmalloc` ends: each pass grows a cache a first time, or goes to the
next one. -/
theorem caosKmalloc_ends {specs : List CacheSpec} (ht : IsTable specs h.cacheCache)
    (size flags : Nat) : ∃ fuel result h', caosKmalloc A size flags fuel h = some (result, h') := by
  let I : Retry σ → Prop := fun r => IsTable specs r.heap.cacheCache
  let passes : Retry σ → Nat := fun r => 2 * (specs.length - r.cacheIndex) + (1 - r.retryCount)
  have hkeep : ∀ r r', I r → retryStep A flags r = .inl r' → I r' ∧ passes r' < passes r := by
    intro r r' hr hstep
    obtain ⟨hslabs, hheap, hnext⟩ := retryStep_inl hstep
    have hlt := hr.lt_of_slabs hslabs
    refine ⟨?_, ?_⟩
    · simp only [I, hheap]
      exact kmemCacheGrow_isTable hr _ _
    · simp only [passes]
      omega
  by_cases hcache : (h.cacheCache (findCache h.cacheCache size cacheCacheMax 0)).name = none ∨
      findCache h.cacheCache size cacheCacheMax 0 ≥ cacheCacheMax
  · exact ⟨0, .null, h, by simp only [caosKmalloc, hcache, if_true]⟩
  · obtain ⟨⟨result, h'⟩, hr⟩ := iterate_of_measure (I := I) hkeep
      (s := ⟨findCache h.cacheCache size cacheCacheMax 0, 0, h⟩) ht (Nat.lt_succ_self _)
    exact ⟨_, result, h', by simp only [caosKmalloc, hcache, if_false]; exact hr⟩

theorem linkedKmalloc_unique {more : Nat} {first second : KmallocResult × LinkedHeap σ}
    (hfirst : linkedKmalloc A size flags fuel l = some first)
    (hsecond : linkedKmalloc A size flags more l = some second) : first = second := by
  simp only [linkedKmalloc] at hfirst hsecond
  split at hfirst
  · next hcache =>
      rw [if_pos hcache] at hsecond
      exact Option.some.inj (hfirst.symm.trans hsecond)
  · next hcache =>
      rw [if_neg hcache] at hsecond
      exact iterate_unique hfirst hsecond

/-- A fault of `caos_kmalloc` is at the first descriptor that is not in use: a pass goes on
only from a cache in use, and comes to the next one with a fresh count. -/
theorem caosKmalloc_faults (ht : IsTable defaultSpecs h.cacheCache)
    (hcall : caosKmalloc A size flags fuel h = some (.fault, h')) :
    Visits (retryStep A flags) ⟨findCache h.cacheCache size cacheCacheMax 0, 0, h⟩
        ⟨defaultSpecs.length, 0, h'⟩ ∧
      (h'.cacheCache defaultSpecs.length).slabs = none := by
  simp only [caosKmalloc] at hcall
  split at hcall
  · cases hcall
  next hcache =>
  rw [not_or] at hcache
  have hstart : findCache h.cacheCache size cacheCacheMax 0 < defaultSpecs.length :=
    ht.name_ne_none.mp hcache.1
  obtain ⟨r, hvisits, hexit⟩ := iterate_exit hcall
  have hindex : IsTable defaultSpecs r.heap.cacheCache ∧
      (r.cacheIndex < defaultSpecs.length ∨
        r.cacheIndex = defaultSpecs.length ∧ r.retryCount = 0) := by
    refine hvisits.invariant (I := fun r => IsTable defaultSpecs r.heap.cacheCache ∧
      (r.cacheIndex < defaultSpecs.length ∨
        r.cacheIndex = defaultSpecs.length ∧ r.retryCount = 0)) ⟨ht, .inl hstart⟩ ?_
    intro r r' hr hstep
    obtain ⟨hslabs, hheap, hnext⟩ := retryStep_inl hstep
    have hlt := hr.1.lt_of_slabs hslabs
    refine ⟨hheap ▸ kmemCacheGrow_isTable hr.1 _ _, ?_⟩
    omega
  rcases retryStep_inr hexit with ⟨-, hnull, -⟩ | ⟨hnone, -, rfl⟩ | ⟨_, _, _, hobject, _⟩
  · cases hnull
  · have hge : ¬ r.cacheIndex < defaultSpecs.length := by
      intro hlt
      rw [hindex.1.slabs_some hlt] at hnone
      cases hnone
    obtain ⟨cacheIndex, retryCount, heap⟩ := r
    obtain ⟨rfl, rfl⟩ := hindex.2.resolve_left hge
    exact ⟨hvisits, hnone⟩
  · cases hobject

/-- In its loop the call has got to the `NULL` that the list head of the descriptor holds. -/
theorem Represents.kmalloc_faults (spec : PageSpec A Holds) (hinv : HeapInv A Holds others h)
    (hrep : Represents l h) (hcall : linkedKmalloc A size flags fuel l = some (.fault, l')) :
    Visits (linkedRetryStep A flags)
        ⟨findCache l.heap.cacheCache size cacheCacheMax 0, 0, none, l⟩
        ⟨defaultSpecs.length, 0, some .null, l'⟩ ∧
      (l'.nodes (.head defaultSpecs.length)).next = .null := by
  obtain ⟨fuel', result, h', hplain⟩ := caosKmalloc_ends hinv.table size flags
  obtain ⟨fuel'', l'', hlinked, -⟩ := hrep.kmalloc spec hinv hplain
  have hsame := linkedKmalloc_unique hcall hlinked
  rw [Prod.mk.injEq] at hsame
  obtain ⟨rfl, -⟩ := hsame
  obtain ⟨hvisits, hnone⟩ := caosKmalloc_faults hinv.table hplain
  have hstart : AtRetry A Holds others ⟨findCache h.cacheCache size cacheCacheMax 0, 0, h⟩
      ⟨findCache h.cacheCache size cacheCacheMax 0, 0, none, l⟩ :=
    ⟨hinv, hrep, rfl, rfl, rfl⟩
  obtain ⟨⟨cacheIndex, retryCount, pos, l₂⟩, hlvisits, hat⟩ := hvisits.simulates
    (fun _ _ _ hat hstep => AtRetry.next spec hat hstep) hstart
  obtain ⟨-, hrep₂, rfl, rfl, rfl⟩ := hat
  have hhead : (l₂.nodes (.head defaultSpecs.length)).next = .null := hrep₂.lists.unused _ hnone
  have hloop : linkedRetryStep A flags ⟨defaultSpecs.length, 0, none, l₂⟩ =
      .inl ⟨defaultSpecs.length, 0, some .null, l₂⟩ := by
    simp only [linkedRetryStep, hhead]
    rfl
  have hvisit := hlvisits.next hloop
  have hfault : linkedRetryStep A flags ⟨defaultSpecs.length, 0, some .null, l₂⟩ =
      .inr (.fault, l₂) := rfl
  obtain ⟨more, hends⟩ := hvisit.iterate_exit hfault
  have hfind := hrep.findCache_eq size
  simp only [linkedKmalloc] at hcall
  split at hcall
  · cases hcall
  · rw [hfind] at hcall ⊢
    have hend := iterate_unique hcall hends
    rw [Prod.mk.injEq] at hend
    obtain ⟨-, rfl⟩ := hend
    exact ⟨hvisit, hhead⟩

theorem linkedShrink_unique {more : Nat} {first second : ShrinkResult σ}
    (hfirst : linkedShrink A cachep fuel l = some first)
    (hsecond : linkedShrink A cachep more l = some second) : first = second := by
  obtain ⟨node, hnode, rfl⟩ := Option.map_eq_some_iff.mp hfirst
  obtain ⟨node', hnode', rfl⟩ := Option.map_eq_some_iff.mp hsecond
  rw [iterate_unique hnode hnode']

/-- `caos_kfree` returns from a live object: the store to its bufctl entry is in the slab. -/
theorem LiveInv.caosKfree_returns {live : List Obj} (hlive : LiveInv h live)
    (spec : PageSpec A Holds) (hinv : HeapInv A Holds others h) {o : Obj} (ho : o ∈ live) :
    ∃ h', caosKfree A o.addr h = some h' := by
  obtain ⟨slabp, hmem, k, hk, haddr⟩ := hlive.slot o ho
  have hgeo := hinv.table.geometry (hinv.table.lt_of_mem hmem)
  have hpos := hgeo.objsize_pos
  have hhead := hinv.header o.cachep slabp hmem
  have hpage : (A.page h.pages (virtToPfn o.addr)).slab = some slabp :=
    hinv.objPage hmem hk haddr.ge (by omega)
  obtain ⟨first, rfl⟩ := hinv.base o.cachep slabp hmem
  have hfits := spec.fits hinv.holds ⟨first, (h.cacheCache o.cachep).gfporder⟩
    (.inr ⟨o.cachep, hmem, rfl⟩)
  have hend := hgeo.objAddr_add_le (frameAddr first) hk
  have hstart := hgeo.le_objAddr (frameAddr first) k
  simp only [frameAddr, va, pageOffset, pageSize, pageShift, maxFrames] at hfits hend hstart
  have hsub : sub64 o.addr (h.slabAt (frameAddr first)).sMem =
      k * (h.cacheCache o.cachep).objsize := by
    rw [sub64, hhead.sMem]
    simp only [objAddr, frameAddr, va, pageOffset, pageSize, pageShift] at haddr hend ⊢
    omega
  have hindex : sub64 o.addr (h.slabAt (frameAddr first)).sMem /
      (h.cacheCache o.cachep).objsize = k := by
    rw [hsub, Nat.mul_div_cancel _ hpos]
  have hcanonical : IsCanonical (bufctlAddr (frameAddr first) k) := by
    right
    simp only [bufctlAddr, sizeofSlab, sizeofBufctl, frameAddr, va, pageOffset, pageSize,
      pageShift] at hstart hend ⊢
    omega
  rw [caosKfree, hpage]
  simp only [hhead.cache, hindex, hcanonical, if_true]
  split
  · exact ⟨_, rfl⟩
  · exact ⟨_, rfl⟩

/-! ## Runs -/

/-- The linked heap of a run implements the heap of lists, with the same live objects. -/
structure Implements (A : PageAllocator σ) (Holds : σ → Set Block → Prop) (lt : LinkedTrace σ)
    (t : HeapTrace σ) : Prop where
  live : lt.live = t.live
  rep : Represents lt.heap t.heap
  inv : ∃ others, HeapInv A Holds others t.heap ∧ LiveInv t.heap t.live

/-- A call on the heap of lists is the same call on the linked heap. -/
theorem Implements.forward (spec : PageSpec A Holds) {lt : LinkedTrace σ} {t t' : HeapTrace σ}
    {op : HeapOp} (himp : Implements A Holds lt t) (hstep : ClientStep A t op t') :
    ∃ lt', LinkedStep A lt op lt' ∧ Implements A Holds lt' t' := by
  have hinv' := hstep.invariant spec himp.inv
  obtain ⟨hlive, hrep, others, hinv, hobjs⟩ := himp
  obtain ⟨l, live⟩ := lt
  obtain ⟨hstep, hclient⟩ := hstep
  simp only at hlive hrep
  cases hstep with
  | kmallocNull hcall =>
      obtain ⟨fuel, l', hl, hrep'⟩ := hrep.kmalloc spec hinv hcall
      exact ⟨⟨l', live⟩, .kmallocNull hl, hlive, hrep', hinv'⟩
  | kmallocObject hcall =>
      obtain ⟨fuel, l', hl, hrep'⟩ := hrep.kmalloc spec hinv hcall
      exact ⟨⟨l', _ :: live⟩, .kmallocObject hl, by rw [hlive], hrep', hinv'⟩
  | kfree hcall =>
      obtain ⟨hl, hrep'⟩ := hrep.kfree hcall
      have hmem := hclient _ rfl
      rw [← hlive] at hmem
      exact ⟨_, .kfree hl hmem, by rw [hlive], hrep', hinv'⟩
  | shrink hcall =>
      rcases hrep.shrink hinv _ with ⟨hnone, _⟩ | ⟨h', hsome, fuel, l', hl, hrep'⟩
      · rw [hnone] at hcall
        cases hcall
      · rw [hsome] at hcall
        obtain rfl := Option.some.inj hcall
        exact ⟨⟨l', live⟩, .shrink hl, hlive, hrep', hinv'⟩

/-- A call on the linked heap is the same call on the heap of lists. -/
theorem Implements.backward (spec : PageSpec A Holds) {lt lt' : LinkedTrace σ}
    {t : HeapTrace σ} {op : HeapOp} (himp : Implements A Holds lt t)
    (hstep : LinkedStep A lt op lt') :
    ∃ t', ClientStep A t op t' ∧ Implements A Holds lt' t' := by
  obtain ⟨hlive, hrep, others, hinv, hobjs⟩ := himp
  obtain ⟨h, live⟩ := t
  -- every abstract call ends, and the linked one with it
  have hkmalloc : ∀ {size flags fuel result l'},
      linkedKmalloc A size flags fuel lt.heap = some (result, l') →
      ∃ fuel h', caosKmalloc A size flags fuel h = some (result, h') ∧ Represents l' h' := by
    intro size flags fuel result l' hl
    obtain ⟨fuel', result', h', hcall⟩ := caosKmalloc_ends hinv.table size flags
    obtain ⟨fuel'', l'', hl', hrep'⟩ := hrep.kmalloc spec hinv hcall
    cases linkedKmalloc_unique hl hl'
    exact ⟨fuel', h', hcall, hrep'⟩
  have hnext : ∀ {h' live' l'}, ClientStep A ⟨h, live⟩ op ⟨h', live'⟩ → Represents l' h' →
      ∃ t', ClientStep A ⟨h, live⟩ op t' ∧ Implements A Holds ⟨l', live'⟩ t' := by
    intro h' live' l' hcall hrep'
    exact ⟨⟨h', live'⟩, hcall, rfl, hrep', hcall.invariant spec ⟨others, hinv, hobjs⟩⟩
  cases hstep with
  | kmallocNull hl =>
      obtain rfl := hlive
      obtain ⟨fuel, h', hcall, hrep'⟩ := hkmalloc hl
      exact hnext ⟨.kmallocNull hcall, by simp⟩ hrep'
  | kmallocObject hl =>
      obtain rfl := hlive
      obtain ⟨fuel, h', hcall, hrep'⟩ := hkmalloc hl
      exact hnext ⟨.kmallocObject hcall, by simp⟩ hrep'
  | kfree hl hmem =>
      obtain rfl := hlive
      simp only at hrep
      have hheap := hl
      rw [linkedKfree, hrep.heap, caosKfree_unlisted] at hheap
      obtain ⟨_, hheap, -⟩ := Option.map_eq_some_iff.mp hheap
      obtain ⟨h', hcall, -⟩ := Option.map_eq_some_iff.mp hheap
      obtain ⟨hl', hrep'⟩ := hrep.kfree hcall
      obtain rfl := Option.some.inj (hl.symm.trans hl')
      refine hnext ⟨.kfree hcall, ?_⟩ hrep'
      rintro objp heq
      cases heq
      exact hmem
  | shrink hl =>
      obtain rfl := hlive
      rcases hrep.shrink hinv _ with ⟨_, fuel, hfault⟩ | ⟨h', hcall, fuel, l'', hl', hrep'⟩
      · cases linkedShrink_unique hl hfault
      · cases linkedShrink_unique hl hl'
        exact hnext ⟨.shrink hcall, by simp⟩ hrep'

/-- `kmem_cache_init` links what it makes. -/
theorem linkedInit_spec (spec : PageSpec A Holds) {s : σ} {blocks : Set Block}
    (h0 : Holds s blocks) {memory : Nat → Slab} {nodes : SlabNode → ListHead SlabNode}
    (hinit : linkedInit A memory nodes s = some l) :
    ∃ h, kmemCacheInit A memory s = some h ∧ Implements A Holds ⟨l, []⟩ ⟨h, []⟩ := by
  obtain ⟨table, htable, -, -⟩ := createDefaults_isTable
  have hcleared : ListsOf (fun _ => KmemCache.zeroed) (clearedNodes nodes) :=
    ⟨fun _ _ => rfl, fun _ _ hsome => by cases hsome⟩
  obtain ⟨nodes', hnodes, hlists⟩ := createLinked_spec hcleared htable
  rw [linkedInit] at hinit
  rcases hcall : A.allocPages 0 cacheCachePage s with ⟨_ | first, s₁⟩
  · rw [hcall] at hinit
    cases hinit
  · rw [hcall, hnodes] at hinit
    obtain rfl := Option.some.inj hinit
    have hstart : kmemCacheInit A memory s = some
        { pages := forDownFrom
            (fun i s => A.setPage (first + i) (setPageSlab (A.page s (first + i))) s)
            (2 ^ cacheCachePage) s₁
          slabAt := memory
          cacheCache := table } := by
      rw [kmemCacheInit, hcall, htable]
      rfl
    have hspec := kmemCacheInit_spec spec h0 hstart
    obtain ⟨cachePage, hinv⟩ := hspec.inv
    exact ⟨_, hstart, rfl, ⟨rfl, hlists⟩, _, hinv, LiveInv.of_empty hspec.empty⟩

end Simulation

/-- The two heaps have the same runs: they hand out the same objects, and at the end of a run
the nodes link every slab list, in its order and in both directions. -/
structure SameRuns {σ : Type} (A : PageAllocator σ) (start : LinkedHeap σ) (h : Heap σ) :
    Prop where
  sound : ∀ ops lt, Run (LinkedStep A) ⟨start, []⟩ ops lt →
    ∃ t, Run (ClientStep A) ⟨h, []⟩ ops t ∧ lt.live = t.live ∧ Represents lt.heap t.heap
  complete : ∀ ops t, Run (ClientStep A) ⟨h, []⟩ ops t →
    ∃ lt, Run (LinkedStep A) ⟨start, []⟩ ops lt ∧ lt.live = t.live ∧ Represents lt.heap t.heap

/-- From the states `kmem_cache_init` leaves, over any page allocator that hands out no frame
twice. -/
theorem linkedHeap_refines {σ : Type} (A : PageAllocator σ) (Holds : σ → Set Block → Prop)
    (spec : PageSpec A Holds) (s : σ) (blocks : Set Block) (h0 : Holds s blocks)
    (memory : Nat → Slab) (nodes : SlabNode → ListHead SlabNode) (start : LinkedHeap σ)
    (hinit : linkedInit A memory nodes s = some start) :
    ∃ h, kmemCacheInit A memory s = some h ∧ SameRuns A start h := by
  obtain ⟨h, hstart, himp⟩ := linkedInit_spec spec h0 hinit
  refine ⟨h, hstart, ?_, ?_⟩
  · intro ops lt hrun
    have hsim : ∀ lt op lt' t, Implements A Holds lt t → LinkedStep A lt op lt' →
        ∃ t', ClientStep A t op t' ∧ Implements A Holds lt' t' :=
      fun _ _ _ _ himp hstep => himp.backward spec hstep
    obtain ⟨t, hruns, hend⟩ := hrun.simulates hsim himp
    exact ⟨t, hruns, hend.live, hend.rep⟩
  · intro ops t hrun
    have hsim : ∀ t op t' lt, Implements A Holds lt t → ClientStep A t op t' →
        ∃ lt', LinkedStep A lt op lt' ∧ Implements A Holds lt' t' :=
      fun _ _ _ _ himp hstep => himp.forward spec hstep
    obtain ⟨lt, hruns, hend⟩ := hrun.simulates hsim himp
    exact ⟨lt, hruns, hend.live, hend.rep⟩

/-- What the linked heap gives a client at any time: the live objects are its own, no call
hangs on a list, and the one pointer that leads nowhere and is followed is the `NULL` in the
list head of the first descriptor that is not in use, when `caos_kmalloc` has gone through all
the caches. -/
structure LinkedSafe {σ : Type} (A : PageAllocator σ) (l : LinkedHeap σ) (live : List Obj) :
    Prop where
  exclusive : ∃ h, Represents l h ∧ HeapExclusive h live
  kmalloc_ends : ∀ size flags, ∃ fuel result l',
    linkedKmalloc A size flags fuel l = some (result, l')
  kmalloc_faults : ∀ size flags fuel l', linkedKmalloc A size flags fuel l = some (.fault, l') →
    Visits (linkedRetryStep A flags)
        ⟨findCache l.heap.cacheCache size cacheCacheMax 0, 0, none, l⟩
        ⟨defaultSpecs.length, 0, some .null, l'⟩ ∧
      (l'.nodes (.head defaultSpecs.length)).next = .null
  kfree_returns : ∀ o ∈ live, ∃ l', linkedKfree A o.addr l = some l'
  shrink_returns : ∀ c < defaultSpecs.length, ∃ fuel l',
    linkedShrink A c fuel l = some (.returns l')

theorem Implements.safe {σ : Type} {A : PageAllocator σ} {Holds : σ → Set Block → Prop}
    (spec : PageSpec A Holds) {lt : LinkedTrace σ} {t : HeapTrace σ}
    (himp : Implements A Holds lt t) : LinkedSafe A lt.heap lt.live := by
  obtain ⟨hlive, hrep, others, hinv, hobjs⟩ := himp
  constructor
  · rw [hlive]
    exact ⟨t.heap, hrep, hobjs.exclusive hinv⟩
  · intro size flags
    obtain ⟨fuel, result, h', hcall⟩ := caosKmalloc_ends hinv.table size flags
    obtain ⟨fuel', l', hl, -⟩ := hrep.kmalloc spec hinv hcall
    exact ⟨fuel', result, l', hl⟩
  · intro size flags fuel l' hcall
    exact hrep.kmalloc_faults spec hinv hcall
  · intro o ho
    rw [hlive] at ho
    obtain ⟨h', hcall⟩ := hobjs.caosKfree_returns spec hinv ho
    exact ⟨_, (hrep.kfree hcall).1⟩
  · intro c hc
    rcases hrep.shrink hinv c with ⟨hnone, -⟩ | ⟨h', -, fuel, l', hl, -⟩
    · have hsome := hinv.table.slabs_some hc
      simp only [kmemCacheShrink, hsome] at hnone
      split at hnone <;> cases hnone
    · exact ⟨fuel, l', hl⟩

/-- In every run of a client of the linked heap. -/
theorem linkedHeap_safe {σ : Type} (A : PageAllocator σ) (Holds : σ → Set Block → Prop)
    (spec : PageSpec A Holds) (s : σ) (blocks : Set Block) (h0 : Holds s blocks)
    (memory : Nat → Slab) (nodes : SlabNode → ListHead SlabNode) (start : LinkedHeap σ)
    (hinit : linkedInit A memory nodes s = some start) (ops : List HeapOp) (lt : LinkedTrace σ)
    (hrun : Run (LinkedStep A) ⟨start, []⟩ ops lt) : LinkedSafe A lt.heap lt.live := by
  obtain ⟨h, -, himp⟩ := linkedInit_spec spec h0 hinit
  have hsim : ∀ lt op lt' t, Implements A Holds lt t → LinkedStep A lt op lt' →
      ∃ t', ClientStep A t op t' ∧ Implements A Holds lt' t' :=
    fun _ _ _ _ himp hstep => himp.backward spec hstep
  obtain ⟨t, -, hend⟩ := hrun.simulates hsim himp
  exact hend.safe spec

/-- The linked heap of a machine with 8 pages of which the first is busy. -/
def smallLinkedHeap : Option (LinkedHeap PageState) :=
  linkedInit zoneAllocator (fun _ => ⟨0, 0, 0, 0, fun _ => 0, none⟩) (fun _ => ⟨.null, .null⟩)
    (memoryInit 8 (memMapInit fun f => f == 0))

theorem smallLinkedHeap_refines :
    ∃ start h, smallLinkedHeap = some start ∧ smallHeap = some h ∧
      SameRuns zoneAllocator start h := by
  have hsome : smallLinkedHeap.isSome := by decide +kernel
  obtain ⟨start, hinit⟩ := Option.isSome_iff_exists.mp hsome
  obtain ⟨h, hstart, hruns⟩ := linkedHeap_refines zoneAllocator _
    (zoneAllocator_spec _ _ (by decide)) _ ∅ (zoneHolds_start _ 8) _ _ start hinit
  exact ⟨start, h, hinit, hstart, hruns⟩

/-- An object is allocated and freed, and the slab that was grown for it destroyed. -/
theorem smallLinkedHeap_safe :
    ∃ start l₁ l₂ l₃, smallLinkedHeap = some start ∧
      linkedKmalloc zoneAllocator 16 0 4 start = some (.object (frameAddr 3 + 1088) 0, l₁) ∧
      linkedKfree zoneAllocator (frameAddr 3 + 1088) l₁ = some l₂ ∧
      linkedShrink zoneAllocator 0 2 l₂ = some (.returns l₃) ∧
      (l₃.nodes (.slab (frameAddr 3))).next = .poison1 ∧ LinkedSafe zoneAllocator l₃ [] := by
  have hcalls : (smallLinkedHeap.bind fun start =>
      (linkedKmalloc zoneAllocator 16 0 4 start).bind fun r =>
      (linkedKfree zoneAllocator (frameAddr 3 + 1088) r.2).bind fun l₂ =>
      (linkedShrink zoneAllocator 0 2 l₂).bind fun e =>
      e.heap.map fun l₃ => (r.1, (l₃.nodes (.slab (frameAddr 3))).next)) =
      some (.object (frameAddr 3 + 1088) 0, .poison1) := by decide +kernel
  obtain ⟨start, hinit, hcalls⟩ := Option.bind_eq_some_iff.mp hcalls
  obtain ⟨⟨result, l₁⟩, hkmalloc, hcalls⟩ := Option.bind_eq_some_iff.mp hcalls
  obtain ⟨l₂, hkfree, hcalls⟩ := Option.bind_eq_some_iff.mp hcalls
  obtain ⟨e, hshrink, hcalls⟩ := Option.bind_eq_some_iff.mp hcalls
  obtain ⟨l₃, hheap, hcalls⟩ := Option.map_eq_some_iff.mp hcalls
  rw [Prod.mk.injEq] at hcalls
  obtain ⟨hresult, hpoison⟩ := hcalls
  simp only at hresult hkfree
  subst hresult
  cases e with
  | fault => cases hheap
  | returns l =>
      obtain rfl := Option.some.inj hheap
      refine ⟨start, l₁, l₂, l, hinit, hkmalloc, hkfree, hshrink, hpoison, ?_⟩
      have hrun : Run (LinkedStep zoneAllocator) ⟨start, []⟩
          [.kmalloc 16 0, .kfree (frameAddr 3 + 1088), .shrink 0] ⟨l, []⟩ := by
        have hmem : (⟨frameAddr 3 + 1088, 0⟩ : Obj) ∈ [(⟨frameAddr 3 + 1088, 0⟩ : Obj)] :=
          List.mem_singleton_self _
        have hfreed := LinkedStep.kfree hkfree ⟨_, hmem, rfl⟩
        rw [List.eraseP_cons_of_pos (by simp)] at hfreed
        exact .cons (.kmallocObject hkmalloc) (.cons hfreed (.cons (.shrink hshrink) (.nil _)))
      exact linkedHeap_safe zoneAllocator _ (zoneAllocator_spec _ _ (by decide)) _ ∅
        (zoneHolds_start _ 8) _ _ start hinit _ _ hrun

end Caos
