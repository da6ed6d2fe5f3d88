import Caos.Slab.Heap

/-!
The invariant that ties the slab lists to the page allocator. The blocks not yet
freed are those of the listed slabs and some others; every page of a listed slab
points back to the slab, and the header of the slab records where its objects
start. It does not say which objects are live, so it survives any `caos_kfree`.
-/

namespace Caos

open Lib

section Invariant

variable {σ : Type}

/-- The blocks of pages of the slabs on all lists. -/
def listedBlocks (h : Heap σ) : Set Block :=
  { b | ∃ cachep, frameAddr b.first ∈ h.slabsOf cachep ∧
      b.order = (h.cacheCache cachep).gfporder }

/-- The header of a slab of the cache `cachep`. -/
structure SlabHeader (c : KmemCache) (cachep slabp : Nat) (slab : Slab) : Prop where
  cache : slab.cache = some cachep
  sMem : slab.sMem = slabp + c.colourOff
  offset : slab.offset = c.colourOff

/-- `others` are the blocks not yet freed that no listed slab lives in. -/
structure HeapInv (A : PageAllocator σ) (Holds : σ → Set Block → Prop)
    (others : Set Block) (h : Heap σ) : Prop where
  table : IsTable defaultSpecs h.cacheCache
  holds : Holds h.pages (others ∪ listedBlocks h)
  apart : ∀ b ∈ others, b ∉ listedBlocks h
  base : ∀ cachep, ∀ slabp ∈ h.slabsOf cachep, ∃ first, slabp = frameAddr first
  owner : ∀ cachep first, frameAddr first ∈ h.slabsOf cachep →
    ∀ i ∈ blockFrames first (h.cacheCache cachep).gfporder,
      (A.page h.pages i).slab = some (frameAddr first)
  header : ∀ cachep, ∀ slabp ∈ h.slabsOf cachep,
    SlabHeader (h.cacheCache cachep) cachep slabp (h.slabAt slabp)
  nodup : ∀ cachep, (h.slabsOf cachep).Nodup

variable {A : PageAllocator σ} {Holds : σ → Set Block → Prop} {others : Set Block}
  {h h' : Heap σ} {cachep cachep' slabp first : Nat}

theorem slabsOf_updateSlabs {s : σ} {slabAt : Nat → Slab} {f : List Nat → List Nat} (i : Nat)
    (hsome : (h.cacheCache cachep).slabs = some (h.slabsOf cachep)) :
    (Heap.mk s slabAt (updateSlabs h.cacheCache cachep f)).slabsOf i =
      if i = cachep then f (h.slabsOf cachep) else h.slabsOf i := by
  simp only [Heap.slabsOf, updateSlabs_eq]
  split
  · next heq =>
      rw [heq, hsome]
      rfl
  · rfl

theorem IsTable.slabs_some {specs : List CacheSpec} (ht : IsTable specs h.cacheCache)
    (hc : cachep < specs.length) :
    (h.cacheCache cachep).slabs = some (h.slabsOf cachep) := by
  obtain ⟨slabs, heq⟩ := ht.created cachep _ (List.getElem?_eq_getElem hc)
  simp only [Heap.slabsOf, heq, Option.getD_some]

theorem IsTable.slabs_none {specs : List CacheSpec} (ht : IsTable specs h.cacheCache)
    (hc : specs.length ≤ cachep) : (h.cacheCache cachep).slabs = none := by
  rw [ht.unused cachep hc]
  rfl

theorem IsTable.slabsOf_eq_nil {specs : List CacheSpec} (ht : IsTable specs h.cacheCache)
    (hc : specs.length ≤ cachep) : h.slabsOf cachep = [] := by
  rw [Heap.slabsOf, ht.slabs_none hc]
  rfl

theorem IsTable.lt_of_slabs {specs : List CacheSpec} (ht : IsTable specs h.cacheCache)
    (hslabs : (h.cacheCache cachep).slabs ≠ none) : cachep < specs.length := by
  by_contra hge
  exact hslabs (ht.slabs_none (Nat.le_of_not_lt hge))

theorem IsTable.lt_of_mem {specs : List CacheSpec} (ht : IsTable specs h.cacheCache)
    (hmem : slabp ∈ h.slabsOf cachep) : cachep < specs.length := by
  apply ht.lt_of_slabs
  intro hnone
  simp [Heap.slabsOf, hnone] at hmem

theorem IsTable.geometry (ht : IsTable defaultSpecs h.cacheCache)
    (hc : cachep < defaultSpecs.length) : Geometry (h.cacheCache cachep) := by
  obtain ⟨slabs, heq⟩ := ht.created cachep _ (List.getElem?_eq_getElem hc)
  have hgeo := defaultSpecs_geometry _ (List.getElem_mem hc)
  rw [heq]
  exact ⟨hgeo.1, hgeo.2, hgeo.3, hgeo.4, hgeo.5, hgeo.6, hgeo.7⟩

/-- With all lists empty there is nothing to know about slabs. -/
theorem HeapInv.of_empty (htable : IsTable defaultSpecs h.cacheCache)
    (hholds : Holds h.pages others) (hempty : ∀ c, h.slabsOf c = []) :
    HeapInv A Holds others h := by
  have hnot : ∀ c slabp, slabp ∉ h.slabsOf c := by
    intro c slabp hmem
    rw [hempty] at hmem
    cases hmem
  have hlisted : listedBlocks h = ∅ := by
    apply Set.eq_empty_of_forall_notMem
    intro b hb
    obtain ⟨c, hmem, _⟩ := hb
    exact hnot c _ hmem
  constructor
  · exact htable
  · rw [hlisted, Set.union_empty]
    exact hholds
  · intro b _
    rw [hlisted]
    exact Set.notMem_empty b
  · intro c slabp hmem
    exact absurd hmem (hnot c slabp)
  · intro c f hmem
    exact absurd hmem (hnot c _)
  · intro c slabp hmem
    exact absurd hmem (hnot c slabp)
  · intro c
    rw [hempty]
    exact List.nodup_nil

/-- The pages of a slab belong to it. -/
theorem HeapInv.page_slab (hinv : HeapInv A Holds others h)
    (hmem : slabp ∈ h.slabsOf cachep) {offset : Nat}
    (hoff : offset < 2 ^ (h.cacheCache cachep).gfporder * pageSize) :
    (A.page h.pages (virtToPfn (slabp + offset))).slab = some slabp := by
  obtain ⟨first, rfl⟩ := hinv.base cachep slabp hmem
  have hpos : 0 < pageSize := by decide
  have hlo : offset / pageSize * pageSize ≤ offset := Nat.div_mul_le_self _ _
  have hhi : offset < (offset / pageSize + 1) * pageSize := by
    rw [Nat.mul_comm]
    exact Nat.lt_mul_div_succ offset hpos
  have hpage : offset / pageSize < 2 ^ (h.cacheCache cachep).gfporder :=
    (Nat.div_lt_iff_lt_mul hpos).mpr hoff
  rw [virtToPfn_frameAddr_add hlo hhi]
  apply hinv.owner cachep first hmem
  rw [mem_blockFrames]
  exact ⟨Nat.le_add_right _ _, Nat.add_lt_add_left hpage _⟩

/-- A slab is on the list of one cache only. -/
theorem HeapInv.cache_unique (hinv : HeapInv A Holds others h)
    (hmem : slabp ∈ h.slabsOf cachep) (hmem' : slabp ∈ h.slabsOf cachep') :
    cachep = cachep' := by
  have hc := (hinv.header cachep slabp hmem).cache
  have hc' := (hinv.header cachep' slabp hmem').cache
  exact Option.some.inj (hc.symm.trans hc')

/-- Stores to other fields than the header keep the invariant. -/
theorem HeapInv.setSlab (hinv : HeapInv A Holds others h) {slabAt : Nat → Slab}
    (hcache : ∀ b, (slabAt b).cache = (h.slabAt b).cache)
    (hsMem : ∀ b, (slabAt b).sMem = (h.slabAt b).sMem)
    (hoffset : ∀ b, (slabAt b).offset = (h.slabAt b).offset) :
    HeapInv A Holds others { h with slabAt := slabAt } := by
  refine ⟨hinv.table, hinv.holds, hinv.apart, hinv.base, hinv.owner, ?_, hinv.nodup⟩
  intro c slabp hmem
  have hhead := hinv.header c slabp hmem
  exact ⟨(hcache slabp).trans hhead.cache, (hsMem slabp).trans hhead.sMem,
    (hoffset slabp).trans hhead.offset⟩

/-- The heap after a slab has been added. -/
def Heap.addSlab (h : Heap σ) (cachep slabp : Nat) (s : σ) : Heap σ where
  pages := s
  slabAt := modifyAt h.slabAt slabp (newSlab cachep (h.cacheCache cachep) slabp)
  cacheCache := updateSlabs h.cacheCache cachep (slabp :: ·)

@[simp] theorem Heap.addSlab_gfporder (s : σ) (c : Nat) :
    ((h.addSlab cachep slabp s).cacheCache c).gfporder = (h.cacheCache c).gfporder :=
  updateSlabs_gfporder ..

@[simp] theorem Heap.addSlab_num (s : σ) (c : Nat) :
    ((h.addSlab cachep slabp s).cacheCache c).num = (h.cacheCache c).num :=
  updateSlabs_num ..

@[simp] theorem Heap.addSlab_objsize (s : σ) (c : Nat) :
    ((h.addSlab cachep slabp s).cacheCache c).objsize = (h.cacheCache c).objsize :=
  updateSlabs_objsize ..

@[simp] theorem Heap.addSlab_colourOff (s : σ) (c : Nat) :
    ((h.addSlab cachep slabp s).cacheCache c).colourOff = (h.cacheCache c).colourOff :=
  updateSlabs_colourOff ..

theorem slabsOf_addSlab {specs : List CacheSpec} (ht : IsTable specs h.cacheCache)
    (hc : cachep < specs.length) (slabp : Nat) (s : σ) (c : Nat) :
    (h.addSlab cachep slabp s).slabsOf c =
      if c = cachep then slabp :: h.slabsOf cachep else h.slabsOf c :=
  slabsOf_updateSlabs c (ht.slabs_some hc)

theorem mem_slabsOf_addSlab {specs : List CacheSpec} (ht : IsTable specs h.cacheCache)
    (hc : cachep < specs.length) (slabp : Nat) (s : σ) (c b : Nat) :
    b ∈ (h.addSlab cachep slabp s).slabsOf c ↔ c = cachep ∧ b = slabp ∨ b ∈ h.slabsOf c := by
  rw [slabsOf_addSlab ht hc]
  split
  · next heq => simp [heq]
  · next hne => simp [hne]

theorem listedBlocks_addSlab (hinv : HeapInv A Holds others h)
    (hc : cachep < defaultSpecs.length) (first : Nat) (s : σ) :
    listedBlocks (h.addSlab cachep (frameAddr first) s) =
      insert ⟨first, (h.cacheCache cachep).gfporder⟩ (listedBlocks h) := by
  ext b
  simp only [listedBlocks, Set.mem_ofPred_eq, Set.mem_insert_iff,
    mem_slabsOf_addSlab hinv.table hc, Heap.addSlab_gfporder]
  constructor
  · intro hb
    obtain ⟨c, ⟨rfl, hfirst⟩ | hmem, horder⟩ := hb
    · left
      have := frameAddr_injective hfirst
      cases b
      simp_all
    · exact .inr ⟨c, hmem, horder⟩
  · intro hb
    obtain rfl | ⟨c, hmem, horder⟩ := hb
    · exact ⟨cachep, .inl ⟨rfl, rfl⟩, rfl⟩
    · exact ⟨c, .inr hmem, horder⟩

/-- A slab whose block no other one meets may be put on a list. -/
theorem HeapInv.addSlab (hinv : HeapInv A Holds others h) (hc : cachep < defaultSpecs.length)
    {first : Nat} {s : σ}
    (hholds : Holds s (insert ⟨first, (h.cacheCache cachep).gfporder⟩ (others ∪ listedBlocks h)))
    (hdisj : ∀ b ∈ others ∪ listedBlocks h,
      Disjoint b.frames (blockFrames first (h.cacheCache cachep).gfporder))
    (hfresh : ∀ c, frameAddr first ∉ h.slabsOf c)
    (hslab : ∀ i, (A.page s i).slab =
      if i ∈ blockFrames first (h.cacheCache cachep).gfporder then some (frameAddr first)
      else (A.page h.pages i).slab) :
    HeapInv A Holds others (h.addSlab cachep (frameAddr first) s) := by
  have hmem_iff := mem_slabsOf_addSlab hinv.table hc (frameAddr first) s
  have hlisted := listedBlocks_addSlab hinv hc first s
  constructor
  · exact hinv.table.updateSlabs _ _
  · rw [hlisted, Set.union_insert]
    exact hholds
  · intro b hb
    rw [hlisted]
    intro hin
    rcases Set.mem_insert_iff.mp hin with rfl | hin
    · exact Finset.disjoint_left.mp (hdisj _ (.inl hb)) (Block.first_mem _)
        (first_mem_blockFrames _ _)
    · exact hinv.apart b hb hin
  · intro c slabp hmem
    obtain ⟨_, rfl⟩ | hmem := (hmem_iff c slabp).mp hmem
    · exact ⟨first, rfl⟩
    · exact hinv.base c slabp hmem
  · intro c f hmem i hi
    simp only [Heap.addSlab, updateSlabs_gfporder] at hi ⊢
    rw [hslab]
    obtain ⟨rfl, hfirst⟩ | hmem := (hmem_iff c _).mp hmem
    · obtain rfl := frameAddr_injective hfirst
      exact if_pos hi
    · rw [if_neg, hinv.owner c f hmem i hi]
      have hb := hdisj ⟨f, (h.cacheCache c).gfporder⟩ (.inr ⟨c, hmem, rfl⟩)
      exact Finset.disjoint_left.mp hb hi
  · intro c slabp hmem
    simp only [Heap.addSlab]
    obtain ⟨rfl, rfl⟩ | hmem := (hmem_iff c _).mp hmem
    · rw [modifyAt_same]
      exact ⟨rfl, by simp [newSlab], by simp [newSlab]⟩
    · have hne : slabp ≠ frameAddr first := by
        intro heq
        exact hfresh c (heq ▸ hmem)
      rw [modifyAt_of_ne _ hne]
      have hhead := hinv.header c slabp hmem
      exact ⟨hhead.cache, by simpa using hhead.sMem, by simpa using hhead.offset⟩
  · intro c
    rw [slabsOf_addSlab hinv.table hc]
    split
    · exact List.nodup_cons.mpr ⟨hfresh cachep, hinv.nodup cachep⟩
    · exact hinv.nodup c

/-- What `kmem_cache_grow` can do: fail and change nothing but the allocator, or
add a slab that was on no list. -/
theorem HeapInv.grow (spec : PageSpec A Holds) (hinv : HeapInv A Holds others h)
    (hc : cachep < defaultSpecs.length) (flags : Nat) :
    (∃ s, kmemCacheGrow A cachep flags h = (0, { h with pages := s }) ∧
      HeapInv A Holds others { h with pages := s } ∧
      ∀ i, (A.page s i).slab = (A.page h.pages i).slab) ∨
    (∃ first s,
      kmemCacheGrow A cachep flags h = (1, h.addSlab cachep (frameAddr first) s) ∧
      HeapInv A Holds others (h.addSlab cachep (frameAddr first) s) ∧
      (∀ c, frameAddr first ∉ h.slabsOf c) ∧
      ∀ i, (A.page s i).slab =
        if i ∈ blockFrames first (h.cacheCache cachep).gfporder then some (frameAddr first)
        else (A.page h.pages i).slab) := by
  rcases spec.kmemGetpages_cases hinv.holds (h.cacheCache cachep) flags with
    ⟨s, hcall, hholds, hslab⟩ | ⟨first, s, hcall, hholds, hdisj, hslab⟩
  · refine .inl ⟨s, ?_, ?_, hslab⟩
    · simp only [kmemCacheGrow, hcall]
    · refine ⟨hinv.table, hholds, hinv.apart, hinv.base, ?_, hinv.header, hinv.nodup⟩
      intro c f hmem i hi
      rw [← hinv.owner c f hmem i hi]
      exact hslab i
  · have hfresh : ∀ c, frameAddr first ∉ h.slabsOf c := by
      intro c hmem
      have hb := hdisj ⟨first, (h.cacheCache c).gfporder⟩ (.inr ⟨c, hmem, rfl⟩)
      exact Finset.disjoint_left.mp hb (Block.first_mem _) (first_mem_blockFrames _ _)
    refine .inr ⟨first, s, ?_, hinv.addSlab hc hholds hdisj hfresh hslab, hfresh, hslab⟩
    simp only [kmemCacheGrow, hcall, Heap.addSlab]

/-- The heap after a slab has been taken off its list. -/
def Heap.removeSlab (h : Heap σ) (cachep slabp : Nat) (s : σ) : Heap σ where
  pages := s
  slabAt := h.slabAt
  cacheCache := updateSlabs h.cacheCache cachep (·.erase slabp)

theorem mem_slabsOf_removeSlab (hinv : HeapInv A Holds others h)
    (hmem : slabp ∈ h.slabsOf cachep) (s : σ) (c b : Nat) :
    b ∈ (h.removeSlab cachep slabp s).slabsOf c ↔ b ∈ h.slabsOf c ∧ b ≠ slabp := by
  have hsome := hinv.table.slabs_some (hinv.table.lt_of_mem hmem)
  have hslabs : (h.removeSlab cachep slabp s).slabsOf c =
      if c = cachep then (h.slabsOf cachep).erase slabp else h.slabsOf c :=
    slabsOf_updateSlabs c hsome
  rw [hslabs]
  split
  · next heq => rw [heq, (hinv.nodup cachep).mem_erase_iff, and_comm]
  · next hne =>
      constructor
      · intro hb
        refine ⟨hb, ?_⟩
        intro heq
        exact hne (hinv.cache_unique (heq ▸ hb) hmem)
      · exact And.left

theorem listedBlocks_removeSlab (hinv : HeapInv A Holds others h)
    (hmem : frameAddr first ∈ h.slabsOf cachep) (s : σ) :
    listedBlocks (h.removeSlab cachep (frameAddr first) s) =
      listedBlocks h \ {⟨first, (h.cacheCache cachep).gfporder⟩} := by
  ext b
  simp only [listedBlocks, Set.mem_ofPred_eq, Set.mem_sdiff, Set.mem_singleton_iff,
    mem_slabsOf_removeSlab hinv hmem]
  simp only [Heap.removeSlab, updateSlabs_gfporder]
  constructor
  · intro hb
    obtain ⟨c, ⟨hb, hne⟩, horder⟩ := hb
    refine ⟨⟨c, hb, horder⟩, ?_⟩
    intro heq
    exact hne (by rw [heq])
  · intro hb
    obtain ⟨⟨c, hb, horder⟩, hne⟩ := hb
    refine ⟨c, ⟨hb, ?_⟩, horder⟩
    intro heq
    have hfirst := frameAddr_injective heq
    have hcache := hinv.cache_unique (heq ▸ hb) hmem
    apply hne
    cases b
    simp_all

/-- The pages of two listed slabs are different. -/
theorem HeapInv.owner_unique (hinv : HeapInv A Holds others h) {f i : Nat}
    (hmem : frameAddr first ∈ h.slabsOf cachep) (hmem' : frameAddr f ∈ h.slabsOf cachep')
    (hi : i ∈ blockFrames first (h.cacheCache cachep).gfporder)
    (hi' : i ∈ blockFrames f (h.cacheCache cachep').gfporder) : f = first := by
  have howner := hinv.owner cachep first hmem i hi
  rw [hinv.owner cachep' f hmem' i hi'] at howner
  exact frameAddr_injective (Option.some.inj howner)

/-- The parts of the invariant that concern the lists survive the removal of a slab. -/
theorem HeapInv.removeSlab (hinv : HeapInv A Holds others h) {s : σ} {others' : Set Block}
    (hmem : frameAddr first ∈ h.slabsOf cachep)
    (hholds : Holds s (others' ∪ listedBlocks (h.removeSlab cachep (frameAddr first) s)))
    (hapart : ∀ b ∈ others', b ∉ listedBlocks (h.removeSlab cachep (frameAddr first) s))
    (hslab : ∀ i, i ∉ blockFrames first (h.cacheCache cachep).gfporder →
      (A.page s i).slab = (A.page h.pages i).slab) :
    HeapInv A Holds others' (h.removeSlab cachep (frameAddr first) s) := by
  have hmem_iff := mem_slabsOf_removeSlab hinv hmem s
  constructor
  · exact hinv.table.updateSlabs _ _
  · exact hholds
  · exact hapart
  · intro c slabp hb
    exact hinv.base c slabp ((hmem_iff c slabp).mp hb).1
  · intro c f hb i hi
    obtain ⟨hb, hne⟩ := (hmem_iff c _).mp hb
    simp only [Heap.removeSlab, updateSlabs_gfporder] at hi ⊢
    rw [hslab, hinv.owner c f hb i hi]
    intro hin
    exact hne (congrArg frameAddr (hinv.owner_unique hmem hb hin hi))
  · intro c slabp hb
    have hhead := hinv.header c slabp ((hmem_iff c slabp).mp hb).1
    exact ⟨hhead.cache, by simpa [Heap.removeSlab] using hhead.sMem,
      by simpa [Heap.removeSlab] using hhead.offset⟩
  · intro c
    simp only [Heap.removeSlab, Heap.slabsOf, updateSlabs_eq]
    have hnodup := hinv.nodup c
    simp only [Heap.slabsOf] at hnodup
    split
    · cases hc : (h.cacheCache c).slabs with
      | none => exact List.nodup_nil
      | some slabs =>
          rw [hc] at hnodup
          exact hnodup.erase _
    · exact hnodup

/-- What `kmem_cache_shrink` takes away, before the pages are looked at. -/
theorem HeapInv.shrink_cases (hinv : HeapInv A Holds others h)
    (hcall : kmemCacheShrink A cachep h = some h') :
    (h' = h ∧ ∀ slabp ∈ h.slabsOf cachep, (h.slabAt slabp).inuse ≠ 0) ∨
    ∃ first, frameAddr first ∈ h.slabsOf cachep ∧ (h.slabAt (frameAddr first)).inuse = 0 ∧
      h' = h.removeSlab cachep (frameAddr first)
        (kmemFreepages A (h.cacheCache cachep) (frameAddr first) h.pages) := by
  rcases Nat.lt_or_ge cachep defaultSpecs.length with hc | hc
  · have hsome := hinv.table.slabs_some hc
    rw [kmemCacheShrink, hsome] at hcall
    simp only at hcall
    split at hcall
    · next hnone =>
        left
        refine ⟨(Option.some.inj hcall).symm, ?_⟩
        simpa using hnone
    · next slabp hfound =>
        right
        have hmem : slabp ∈ h.slabsOf cachep := List.mem_of_find?_eq_some hfound
        have hinuse : (h.slabAt slabp).inuse = 0 := by simpa using List.find?_some hfound
        obtain ⟨first, rfl⟩ := hinv.base cachep slabp hmem
        have hhead := hinv.header cachep _ hmem
        have haddr : (h.slabAt (frameAddr first)).sMem - (h.slabAt (frameAddr first)).offset =
            frameAddr first := by
          rw [hhead.sMem, hhead.offset, Nat.add_sub_cancel]
        have heq := (Option.some.inj hcall).symm
        simp only [slabDestroy, haddr] at heq
        exact ⟨first, hmem, hinuse, heq⟩
  · have hnone := hinv.table.slabs_none hc
    rw [kmemCacheShrink, hnone] at hcall
    cases hcall

/-- A slab leaves its list and its pages stay allocated: nobody owns the block any more. -/
theorem HeapInv.removeSlab_kept (hinv : HeapInv A Holds others h)
    (hmem : frameAddr first ∈ h.slabsOf cachep) :
    HeapInv A Holds (insert ⟨first, (h.cacheCache cachep).gfporder⟩ others)
      (h.removeSlab cachep (frameAddr first) h.pages) := by
  have hin : ⟨first, (h.cacheCache cachep).gfporder⟩ ∈ listedBlocks h := ⟨cachep, hmem, rfl⟩
  have hlisted := listedBlocks_removeSlab hinv hmem h.pages
  apply hinv.removeSlab hmem
  · rw [hlisted, Set.insert_union, ← Set.union_insert, Set.insert_sdiff_singleton,
      Set.insert_eq_of_mem hin]
    exact hinv.holds
  · intro b hb
    rw [hlisted]
    intro hrest
    rcases Set.mem_insert_iff.mp hb with rfl | hb
    · exact hrest.2 rfl
    · exact hinv.apart b hb hrest.1
  · intro i _
    rfl

/-- A slab leaves its list and its pages are freed. -/
theorem HeapInv.removeSlab_freed (hinv : HeapInv A Holds others h) {s : σ}
    (hmem : frameAddr first ∈ h.slabsOf cachep)
    (hholds : Holds s ((others ∪ listedBlocks h) \ {⟨first, (h.cacheCache cachep).gfporder⟩}))
    (hslab : ∀ i, (A.page s i).slab =
      if i ∈ blockFrames first (h.cacheCache cachep).gfporder then none
      else (A.page h.pages i).slab) :
    HeapInv A Holds others (h.removeSlab cachep (frameAddr first) s) := by
  have hnot : ⟨first, (h.cacheCache cachep).gfporder⟩ ∉ others :=
    fun hother => hinv.apart _ hother ⟨cachep, hmem, rfl⟩
  have hlisted := listedBlocks_removeSlab hinv hmem s
  apply hinv.removeSlab hmem
  · rw [hlisted]
    rw [Set.union_sdiff_distrib, Set.sdiff_singleton_eq_self hnot] at hholds
    exact hholds
  · intro b hb
    rw [hlisted]
    exact fun hrest => hinv.apart b hb hrest.1
  · intro i hi
    rw [hslab, if_neg hi]

/-- What `kmem_cache_shrink` can do: nothing, if every slab of the cache is in
use, or take one unused slab off the list. Its block is freed if the page
allocator has recorded its order. -/
theorem HeapInv.shrink (spec : PageSpec A Holds) (hinv : HeapInv A Holds others h)
    (hcall : kmemCacheShrink A cachep h = some h') :
    (h' = h ∧ ∀ slabp ∈ h.slabsOf cachep, (h.slabAt slabp).inuse ≠ 0) ∨
    (∃ first s others', frameAddr first ∈ h.slabsOf cachep ∧
      (h.slabAt (frameAddr first)).inuse = 0 ∧
      h' = h.removeSlab cachep (frameAddr first) s ∧
      HeapInv A Holds others' h' ∧
      ((A.page h.pages first).priv = (h.cacheCache cachep).gfporder →
        others' = others ∧ ∀ i, (A.page s i).slab =
          if i ∈ blockFrames first (h.cacheCache cachep).gfporder then none
          else (A.page h.pages i).slab)) := by
  rcases hinv.shrink_cases hcall with hnone | ⟨first, hmem, hinuse, heq⟩
  · exact .inl hnone
  right
  have hblock : ⟨first, (h.cacheCache cachep).gfporder⟩ ∈ others ∪ listedBlocks h :=
    .inr ⟨cachep, hmem, rfl⟩
  rcases spec.kmemFreepages_cases hinv.holds hblock with
    ⟨hpriv, hkeep⟩ | ⟨hpriv, hholds, hslab⟩
  · have hnext := hinv.removeSlab_kept hmem
    rw [hkeep] at heq
    rw [← heq] at hnext
    exact ⟨first, _, _, hmem, hinuse, heq, hnext, fun hcontra => absurd hcontra hpriv⟩
  · have hnext := hinv.removeSlab_freed hmem hholds hslab
    rw [← heq] at hnext
    exact ⟨first, _, _, hmem, hinuse, heq, hnext, fun _ => ⟨rfl, hslab⟩⟩

end Invariant

end Caos
