import Caos.Slab.BackPointers
import Caos.Slab.Exclusive

/-!
No page is lost between the two allocators. While the heap runs over
`page_alloc.c`, the blocks not yet freed are the block of the table `cache_cache`
and those of the listed slabs. Once all lists are empty only the former is left,
and the descriptor table is determined by the blocks not yet freed.
-/

namespace Caos

open Lib

/-- The fields the claim of accounting is about are as in the other state. -/
structure SamePages (s s' : PageState) : Prop where
  count : ∀ i, (s.memMap i).count = (s'.memMap i).count
  priv : ∀ i, (s.memMap i).priv = (s'.memMap i).priv
  slab : ∀ i, (s.memMap i).slab = (s'.memMap i).slab
  freePages : s.zone.freePages = s'.zone.freePages

/-- The calls that shrink every default cache as often as it has slabs. -/
def drainOps {σ : Type} (h : Heap σ) : List HeapOp :=
  (List.range defaultSpecs.length).flatMap fun cachep =>
    List.replicate (h.slabsOf cachep).length (.shrink cachep)

section Zone

variable {boot : Nat → Page} {freeAtBoot pages : Nat} {s s' : PageState} {blocks : Set Block}

/-- Counts, orders and `free_pages` are determined by the blocks not yet freed. -/
theorem ZoneHolds.determined (h : ZoneHolds boot freeAtBoot pages s blocks)
    (h' : ZoneHolds boot freeAtBoot pages s' blocks) :
    (∀ i, (s.memMap i).count = (s'.memMap i).count) ∧
      (∀ i, (s.memMap i).priv = (s'.memMap i).priv) ∧
      s.zone.freePages = s'.zone.freePages := by
  obtain ⟨live, hinv, hmem, _⟩ := h
  obtain ⟨live', hinv', hmem', _⟩ := h'
  have hsame : ∀ b, b ∈ live ↔ b ∈ live' := fun b => (hmem b).trans (hmem' b).symm
  refine ⟨?_, ?_, ?_⟩
  · intro i
    have hlive : InLive live i ↔ InLive live' i := by
      simp only [InLive, hsame]
    rw [hinv.count, hinv'.count]
    simp only [hlive]
  · intro i
    rcases Classical.em (∃ b ∈ live, b.first = i) with ⟨b, hb, rfl⟩ | hnone
    · rw [hinv.priv_head b hb, hinv'.priv_head b ((hsame b).mp hb)]
    · push Not at hnone
      rw [hinv.priv_other i hnone,
        hinv'.priv_other i (fun b hb => hnone b ((hsame b).mpr hb))]
  · have hperm : live.Perm live' := (List.perm_ext_iff_of_nodup hinv.nodup hinv'.nodup).mpr hsame
    have hsum := (hperm.map fun b => 2 ^ b.order).sum_eq
    have := hinv.accounted
    have := hinv'.accounted
    omega

end Zone

section Drain

variable {σ : Type} {A : PageAllocator σ} {Holds : σ → Set Block → Prop} {others : Set Block}
  {h h' : Heap σ} {live : List Obj} {cachep slabp : Nat}

theorem slabsOf_removeSlab (hinv : HeapInv A Holds others h) (hmem : slabp ∈ h.slabsOf cachep)
    (s : σ) (c : Nat) :
    (h.removeSlab cachep slabp s).slabsOf c =
      if c = cachep then (h.slabsOf cachep).erase slabp else h.slabsOf c :=
  slabsOf_updateSlabs c (hinv.table.slabs_some (hinv.table.lt_of_mem hmem))

/-- A slab without allocated objects holds no live one. -/
theorem LiveInv.not_in_unused (hlive : LiveInv h live) (hinv : HeapInv A Holds others h)
    (hmem : slabp ∈ h.slabsOf cachep) (hinuse : (h.slabAt slabp).inuse = 0) {o : Obj}
    (ho : o ∈ live) :
    ¬ (slabp ≤ o.addr ∧
      o.addr < slabp + 2 ^ (h.cacheCache cachep).gfporder * pageSize) := by
  intro hrange
  obtain ⟨b, hb, k, hk, haddr⟩ := hlive.slot o ho
  have hpos := (hinv.table.geometry (hinv.table.lt_of_mem hb)).objsize_pos
  have hpage := hinv.objPage hb hk (x := o.addr) (by omega) (by omega)
  have hoff : o.addr - slabp < 2 ^ (h.cacheCache cachep).gfporder * pageSize := by omega
  have hpage' := hinv.page_slab hmem hoff
  rw [Nat.add_sub_cancel' hrange.1, hpage] at hpage'
  obtain rfl := Option.some.inj hpage'
  have hcard := hlive.inuse o.cachep b hb
  rw [hinuse, eq_comm, Finset.card_eq_zero] at hcard
  have hin : k ∈ taken (h.cacheCache o.cachep) b live :=
    mem_taken.mpr ⟨hk, haddr ▸ List.mem_map_of_mem ho⟩
  rw [hcard] at hin
  cases hin

/-- Without live objects every slab is unused. -/
theorem LiveInv.unused_of_nil (hlive : LiveInv h []) (hmem : slabp ∈ h.slabsOf cachep) :
    (h.slabAt slabp).inuse = 0 := by
  rw [hlive.inuse cachep slabp hmem, Finset.card_eq_zero]
  apply Finset.eq_empty_of_forall_notMem
  intro k hk
  have hnil := (mem_taken.mp hk).2
  cases hnil

/-- Both invariants of a client's run, with exact back pointers. -/
structure ClientInv (A : PageAllocator σ) (Holds : σ → Set Block → Prop) (others : Set Block)
    (t : HeapTrace σ) : Prop where
  owned : PagesOwned A Holds others t.heap
  live : LiveInv t.heap t.live

theorem ClientInv.step (spec : PageSpec A Holds) (hrec : RecordsOrder A Holds)
    {t t' : HeapTrace σ} {op : HeapOp} (hinv : ClientInv A Holds others t)
    (hstep : ClientStep A t op t') : ClientInv A Holds others t' := by
  refine ⟨hinv.owned.step spec hrec hstep.1, ?_⟩
  obtain ⟨_, _, hlive⟩ := hstep.invariant spec ⟨others, hinv.owned.inv, hinv.live⟩
  exact hlive

/-- A call of `kmem_cache_shrink` on a default cache returns. -/
theorem kmemCacheShrink_returns (ht : IsTable defaultSpecs h.cacheCache)
    (hc : cachep < defaultSpecs.length) : ∃ h', kmemCacheShrink A cachep h = some h' := by
  simp only [kmemCacheShrink, ht.slabs_some hc]
  split
  · exact ⟨_, rfl⟩
  · exact ⟨_, rfl⟩

/-- Without live objects a call on a cache with slabs takes exactly one away. -/
theorem ClientInv.shrink_nonempty (spec : PageSpec A Holds) (hrec : RecordsOrder A Holds)
    (hinv : ClientInv A Holds others ⟨h, []⟩) (hne : h.slabsOf cachep ≠ []) :
    ∃ h', kmemCacheShrink A cachep h = some h' ∧
      (h'.slabsOf cachep).length + 1 = (h.slabsOf cachep).length ∧
      ∀ c, c ≠ cachep → h'.slabsOf c = h.slabsOf c := by
  have ho : PagesOwned A Holds others h := hinv.owned
  obtain ⟨b, rest, hlist⟩ := List.exists_cons_of_ne_nil hne
  have hb : b ∈ h.slabsOf cachep := by simp [hlist]
  obtain ⟨h', hcall⟩ :=
    @kmemCacheShrink_returns _ A h cachep ho.inv.table (ho.inv.table.lt_of_mem hb)
  refine ⟨h', hcall, ?_⟩
  rcases (ho.shrink spec hrec hcall).2 with ⟨_, hbusy⟩ | ⟨slabp, hmem, _, s, rfl⟩
  · exact absurd (hinv.live.unused_of_nil hb) (hbusy b hb)
  · refine ⟨?_, ?_⟩
    · rw [slabsOf_removeSlab ho.inv hmem, if_pos rfl, List.length_erase_of_mem hmem]
      have := List.length_pos_of_mem hmem
      omega
    · intro c hc
      rw [slabsOf_removeSlab ho.inv hmem, if_neg hc]

/-- Shrinking a cache as often as it has slabs empties its list. -/
theorem ClientInv.drain_cache (spec : PageSpec A Holds) (hrec : RecordsOrder A Holds) {n : Nat}
    (hinv : ClientInv A Holds others ⟨h, []⟩) (hn : (h.slabsOf cachep).length = n) :
    ∃ h', Run (ClientStep A) ⟨h, []⟩ (List.replicate n (.shrink cachep)) ⟨h', []⟩ ∧
      h'.slabsOf cachep = [] ∧ ∀ c, c ≠ cachep → h'.slabsOf c = h.slabsOf c := by
  induction n generalizing h with
  | zero => exact ⟨h, .nil _, List.eq_nil_of_length_eq_zero hn, fun _ _ => rfl⟩
  | succ n ih =>
      have hne : h.slabsOf cachep ≠ [] := by
        intro hnil
        simp [hnil] at hn
      obtain ⟨h₁, hcall, hlength, hother⟩ := hinv.shrink_nonempty spec hrec hne
      have hstep : ClientStep A ⟨h, []⟩ (.shrink cachep) ⟨h₁, []⟩ :=
        ⟨.shrink hcall, by intro objp heq; cases heq⟩
      obtain ⟨h', hrun, hempty, hsame⟩ := ih (hinv.step spec hrec hstep) (by omega)
      exact ⟨h', .cons hstep hrun, hempty, fun c hc => (hsame c hc).trans (hother c hc)⟩

/-- Shrinking the caches of a list one after another empties all of them. -/
theorem ClientInv.drain_caches (spec : PageSpec A Holds) (hrec : RecordsOrder A Holds)
    {caches : List Nat} (hnodup : caches.Nodup) (hinv : ClientInv A Holds others ⟨h, []⟩) :
    ∃ h', Run (ClientStep A) ⟨h, []⟩
        (caches.flatMap fun c => List.replicate (h.slabsOf c).length (.shrink c)) ⟨h', []⟩ ∧
      (∀ c ∈ caches, h'.slabsOf c = []) ∧ ∀ c, c ∉ caches → h'.slabsOf c = h.slabsOf c := by
  induction caches generalizing h with
  | nil => exact ⟨h, .nil _, by simp, fun _ _ => rfl⟩
  | cons c rest ih =>
      obtain ⟨hnot, hrest⟩ := List.nodup_cons.mp hnodup
      obtain ⟨h₁, hrun₁, hempty₁, hsame₁⟩ :=
        hinv.drain_cache spec hrec (show (h.slabsOf c).length = _ from rfl)
      have hinv₁ := hrun₁.invariant (I := ClientInv A Holds others) hinv
        (fun _ _ _ hinv hstep => hinv.step spec hrec hstep)
      obtain ⟨h', hrun', hempty', hsame'⟩ := ih hrest hinv₁
      have hlists : (rest.flatMap fun c => List.replicate (h₁.slabsOf c).length
          (HeapOp.shrink c)) = rest.flatMap fun c => List.replicate (h.slabsOf c).length
          (HeapOp.shrink c) := by
        apply List.flatMap_congr
        intro d hd
        rw [hsame₁ d (fun heq => hnot (heq ▸ hd))]
      rw [hlists] at hrun'
      refine ⟨h', hrun₁.append hrun', ?_, ?_⟩
      · intro d hd
        rcases List.mem_cons.mp hd with rfl | hd
        · rw [hsame' d hnot, hempty₁]
        · exact hempty' d hd
      · intro d hd
        rw [List.mem_cons, not_or] at hd
        rw [hsame' d hd.2, hsame₁ d hd.1]

end Drain

/-- Back pointers are exact, `kmem_cache_shrink` takes away at most one slab and
none with a live object, a heap with empty lists has the page descriptors it
started with, and without live objects the lists can be emptied. -/
structure NoPageLeak (start : Heap PageState) (t : HeapTrace PageState) : Prop where
  back_pointers : ∀ i slabp, (t.heap.pages.memMap i).slab = some slabp ↔
    ∃ cachep first, slabp = frameAddr first ∧ slabp ∈ t.heap.slabsOf cachep ∧
      i ∈ blockFrames first (t.heap.cacheCache cachep).gfporder
  shrinks : ∀ cachep h', kmemCacheShrink zoneAllocator cachep t.heap = some h' →
    (∀ c, h'.slabsOf c = t.heap.slabsOf c) ∨
      ∃ slabp ∈ t.heap.slabsOf cachep,
        (∀ c, h'.slabsOf c =
          if c = cachep then (t.heap.slabsOf cachep).erase slabp else t.heap.slabsOf c) ∧
        ∀ o ∈ t.live, ¬ (slabp ≤ o.addr ∧
          o.addr < slabp + 2 ^ (t.heap.cacheCache cachep).gfporder * pageSize)
  restored : (∀ cachep, t.heap.slabsOf cachep = []) → SamePages t.heap.pages start.pages
  drains : t.live = [] → ∃ h', Run (ClientStep zoneAllocator) t (drainOps t.heap) ⟨h', []⟩ ∧
    (∀ cachep, h'.slabsOf cachep = []) ∧ SamePages h'.pages start.pages

section Main

variable {boot : Nat → Page} {freeAtBoot pages : Nat} {others : Set Block}
  {h h' : Heap PageState}

theorem PagesOwned.no_slab (ho : PagesOwned zoneAllocator (ZoneHolds boot freeAtBoot pages)
    others h) (hempty : ∀ c, h.slabsOf c = []) (i : Nat) : (h.pages.memMap i).slab = none := by
  cases hpage : (h.pages.memMap i).slab with
  | none => rfl
  | some slabp =>
      obtain ⟨c, _, _, hmem, _⟩ := ho.listed i slabp hpage
      rw [hempty] at hmem
      cases hmem

/-- Two heaps without slabs over the same other blocks have the same descriptors. -/
theorem PagesOwned.samePages
    (ho : PagesOwned zoneAllocator (ZoneHolds boot freeAtBoot pages) others h)
    (ho' : PagesOwned zoneAllocator (ZoneHolds boot freeAtBoot pages) others h')
    (hempty : ∀ c, h.slabsOf c = []) (hempty' : ∀ c, h'.slabsOf c = []) :
    SamePages h.pages h'.pages := by
  have hlisted : ∀ g : Heap PageState, (∀ c, g.slabsOf c = []) → listedBlocks g = ∅ := by
    intro g hg
    apply Set.eq_empty_of_forall_notMem
    intro b hb
    obtain ⟨c, hmem, _⟩ := hb
    rw [hg] at hmem
    cases hmem
  have hholds := ho.inv.holds
  have hholds' := ho'.inv.holds
  rw [hlisted h hempty, Set.union_empty] at hholds
  rw [hlisted h' hempty', Set.union_empty] at hholds'
  obtain ⟨hcount, hpriv, hfree⟩ := hholds.determined hholds'
  refine ⟨hcount, hpriv, ?_, hfree⟩
  intro i
  rw [ho.no_slab hempty, ho'.no_slab hempty']

end Main

/-- In every run of a client over `page_alloc.c`. -/
theorem no_page_leak (busy : Nat → Bool) (pages : Nat)
    (hpages : pages + 2 ^ maxPageOrder ≤ maxFrames) (memory : Nat → Slab)
    (start : Heap PageState)
    (hinit : kmemCacheInit zoneAllocator memory (memoryInit pages (memMapInit busy)) = some start)
    (ops : List HeapOp) (t : HeapTrace PageState)
    (hrun : Run (ClientStep zoneAllocator) ⟨start, []⟩ ops t) : NoPageLeak start t := by
  have spec := zoneAllocator_spec (memMapInit busy)
    (memoryInit pages (memMapInit busy)).zone.freePages hpages
  have hrec := zoneAllocator_recordsOrder (memMapInit busy)
    (memoryInit pages (memMapInit busy)).zone.freePages pages
  have hinitial := kmemCacheInit_spec spec (zoneHolds_start busy pages) hinit
  obtain ⟨cachePage, hstart⟩ := hinitial.pagesOwned
    (fun i => memoryInit_slab pages (memMapInit busy) i)
  have hclient := hrun.invariant (I := ClientInv zoneAllocator _ _)
    ⟨hstart, LiveInv.of_empty hinitial.empty⟩
    (fun _ _ _ hinv hstep => hinv.step spec hrec hstep)
  obtain ⟨heap, live⟩ := t
  constructor
  · exact hclient.owned.slab_iff
  · intro cachep h' hcall
    rcases (hclient.owned.shrink spec hrec hcall).2 with
      ⟨rfl, _⟩ | ⟨slabp, hmem, hinuse, s, rfl⟩
    · exact .inl fun _ => rfl
    · refine .inr ⟨slabp, hmem, slabsOf_removeSlab hclient.owned.inv hmem s, ?_⟩
      intro o ho
      exact hclient.live.not_in_unused hclient.owned.inv hmem hinuse ho
  · intro hempty
    exact hclient.owned.samePages hstart hempty hinitial.empty
  · intro hnone
    simp only at hnone
    subst hnone
    obtain ⟨h', hdrain, hempty, hsame⟩ :=
      hclient.drain_caches spec hrec (List.nodup_range (n := defaultSpecs.length))
    have hclient' := hdrain.invariant (I := ClientInv zoneAllocator _ _) hclient
      (fun _ _ _ hinv hstep => hinv.step spec hrec hstep)
    have hall : ∀ c, h'.slabsOf c = [] := by
      intro c
      rcases Nat.lt_or_ge c defaultSpecs.length with hlt | hge
      · exact hempty c (List.mem_range.mpr hlt)
      · exact IsTable.slabsOf_eq_nil hclient'.owned.inv.table hge
    exact ⟨h', hdrain, hall, hclient'.owned.samePages hstart hall hinitial.empty⟩

/-- An object taken and given back, and the caches of the small heap drained. -/
theorem small_heap_drained :
    ∃ start t h', smallHeap = some start ∧
      smallRun [.kmalloc 16 0, .kfree (frameAddr 3 + 1088)] = some t ∧
      Run (ClientStep zoneAllocator) t (drainOps t.heap) ⟨h', []⟩ ∧
      SamePages h'.pages start.pages := by
  have hlive : (smallRun [.kmalloc 16 0, .kfree (frameAddr 3 + 1088)]).map HeapTrace.live =
      some [] := by decide +kernel
  obtain ⟨t, hrun, hlive⟩ := Option.map_eq_some_iff.mp hlive
  obtain ⟨start, hinit, hcalls⟩ := Option.bind_eq_some_iff.mp hrun
  have hleak := no_page_leak _ 8 (by decide) _ start hinit _ t (clientRun_sound hcalls)
  obtain ⟨h', hdrain, _, hsame⟩ := hleak.drains hlive
  exact ⟨start, t, h', hinit, hrun, hdrain, hsame⟩

end Caos
