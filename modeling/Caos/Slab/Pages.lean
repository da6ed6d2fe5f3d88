import Mathlib.Data.Set.Insert
import Caos.Memory.PageExclusive
import Caos.Slab.Cache

/-!
The page allocator as the heap sees it, and the two functions of `slab.c` that
call it. The heap is verified against any page allocator that never hands out
a frame twice; `page_alloc.c` is one of them.
-/

namespace Caos

open Lib

/-- The functions of `page_alloc.c` that `slab.c` calls, and the access to a
descriptor of `mem_map`. -/
structure PageAllocator (σ : Type) where
  allocPages : Nat → Nat → σ → Option Nat × σ
  freePages : Nat → Nat → σ → σ
  page : σ → Nat → Page
  setPage : Nat → Page → σ → σ

/-- The number of frames between `PAGE_OFFSET` and the end of the address space. -/
def maxFrames : Nat := 2 ^ 35

/-- A page allocator that returns `NULL` or a block disjoint from every block not
yet freed. `Holds s blocks` says that these are the blocks not yet freed. The
other fields say that `setPage` is a store, that nobody else than `slab.c` uses
the field `slab`, and that descriptors keep the linear address of their page. -/
structure PageSpec {σ : Type} (A : PageAllocator σ) (Holds : σ → Set Block → Prop) : Prop where
  page_setPage : ∀ i p s j, A.page (A.setPage i p s) j = if j = i then p else A.page s j
  setPage_holds : ∀ {i p s blocks}, Holds s blocks → p.count = (A.page s i).count →
    p.priv = (A.page s i).priv → p.virtual = (A.page s i).virtual →
    Holds (A.setPage i p s) blocks
  alloc_none : ∀ {gfpMask order s s' blocks}, Holds s blocks →
    A.allocPages gfpMask order s = (none, s') → Holds s' blocks
  alloc_some : ∀ {gfpMask order s s' blocks first}, Holds s blocks →
    A.allocPages gfpMask order s = (some first, s') →
    Holds s' (insert ⟨first, order⟩ blocks) ∧
      ∀ b ∈ blocks, Disjoint b.frames (blockFrames first order)
  alloc_slab : ∀ gfpMask order s i,
    (A.page (A.allocPages gfpMask order s).2 i).slab = (A.page s i).slab
  free : ∀ {b s blocks}, Holds s blocks → b ∈ blocks →
    Holds (A.freePages (frameAddr b.first) b.order s) (blocks \ {b})
  free_slab : ∀ addr order s i, (A.page (A.freePages addr order s) i).slab = (A.page s i).slab
  virtual : ∀ {s blocks}, Holds s blocks → ∀ b ∈ blocks,
    (A.page s b.first).virtual = frameAddr b.first
  fits : ∀ {s blocks}, Holds s blocks → ∀ b ∈ blocks, b.first + 2 ^ b.order ≤ maxFrames

/-- A pointer with this value. -/
def ptr (addr : Nat) : Option Nat := if addr = 0 then none else some addr

@[simp] theorem ptr_frameAddr (pfn : Nat) : ptr (frameAddr pfn) = some (frameAddr pfn) := by
  have : frameAddr pfn ≠ 0 := by
    simp only [frameAddr, va, pageOffset]
    omega
  simp [ptr, this]

/-- The mask of `PG_slab`. -/
def pgSlab : Nat := 2 ^ 7

/-- `SetPageSlab`. -/
def setPageSlab (p : Page) : Page := { p with flags := p.flags ||| pgSlab }

/-- `ClearPageSlab`. -/
def clearPageSlab (p : Page) : Page := { p with flags := p.flags ^^^ (p.flags &&& pgSlab) }

section Pages

variable {σ : Type} (A : PageAllocator σ)

/-- The body of the loop of `kmem_getpages`. -/
def markSlab (page i : Nat) (s : σ) : σ :=
  A.setPage (page + i)
    { setPageSlab (A.page s (page + i)) with slab := ptr (A.page s page).virtual } s

/-- `kmem_getpages`. -/
def kmemGetpages (cachep : KmemCache) (flag : Nat) (s : σ) : Option Nat × σ :=
  match A.allocPages flag cachep.gfporder s with
  | (none, s) => (none, s)
  | (some page, s) =>
    let s := forDownFrom (markSlab A page) (2 ^ cachep.gfporder) s
    (ptr (A.page s page).virtual, s)

/-- The body of the loop of `kmem_freepages`. -/
def clearSlab (page i : Nat) (s : σ) : σ :=
  A.setPage (page + i) (clearPageSlab { A.page s (page + i) with slab := none }) s

/-- `kmem_freepages`. -/
def kmemFreepages (cachep : KmemCache) (addr : Nat) (s : σ) : σ :=
  let page := virtToPfn addr
  if (A.page s page).priv ≠ cachep.gfporder then s
  else A.freePages addr cachep.gfporder (forUpTo (clearSlab A page) (2 ^ cachep.gfporder) s)

end Pages

section Spec

variable {σ : Type} {A : PageAllocator σ} {Holds : σ → Set Block → Prop}
  {s s' : σ} {blocks : Set Block} {page first n order : Nat} {cachep : KmemCache}

/-- Stores to the fields `flags` and `slab` do not concern the allocator. -/
theorem PageSpec.markSlab_holds (spec : PageSpec A Holds) (h : Holds s blocks) (i : Nat) :
    Holds (markSlab A page i s) blocks :=
  spec.setPage_holds h rfl rfl rfl

theorem PageSpec.clearSlab_holds (spec : PageSpec A Holds) (h : Holds s blocks) (i : Nat) :
    Holds (clearSlab A page i s) blocks :=
  spec.setPage_holds h rfl rfl rfl

/-- The loop of `kmem_getpages` points the descriptors of the block to its head. -/
theorem PageSpec.markLoop (spec : PageSpec A Holds) (h : Holds s blocks)
    (hvirtual : (A.page s page).virtual = frameAddr page) (n : Nat) :
    Holds (forDownFrom (markSlab A page) n s) blocks ∧
      (A.page (forDownFrom (markSlab A page) n s) page).virtual = frameAddr page ∧
      ∀ i, (A.page (forDownFrom (markSlab A page) n s) i).slab =
        if page ≤ i ∧ i < page + n then some (frameAddr page) else (A.page s i).slab := by
  let I : Nat → σ → Prop := fun k t =>
    Holds t blocks ∧ (A.page t page).virtual = frameAddr page ∧
      ∀ i, (A.page t i).slab =
        if page + k ≤ i ∧ i < page + n then some (frameAddr page) else (A.page s i).slab
  have hinv : I 0 (forDownFrom (markSlab A page) n s) := by
    apply forDownFrom_invariant
    · refine ⟨h, hvirtual, ?_⟩
      intro i
      rw [if_neg (by omega)]
    · intro k t hk ht
      obtain ⟨hholds, hvirt, hslab⟩ := ht
      refine ⟨spec.markSlab_holds hholds k, ?_, ?_⟩
      · simp only [markSlab, spec.page_setPage]
        split
        · next heq => rw [← heq]; exact hvirt
        · exact hvirt
      · intro i
        simp only [markSlab, spec.page_setPage]
        split
        · next heq =>
            rw [if_pos (by omega), hvirt]
            exact ptr_frameAddr page
        · next hne =>
            rw [hslab i]
            split
            · rw [if_pos (by omega)]
            · rw [if_neg (by omega)]
  simpa [I] using hinv

/-- The loop of `kmem_freepages` clears the back pointers of the block. -/
theorem PageSpec.clearLoop (spec : PageSpec A Holds) (h : Holds s blocks) (n : Nat) :
    Holds (forUpTo (clearSlab A page) n s) blocks ∧
      ∀ i, (A.page (forUpTo (clearSlab A page) n s) i).slab =
        if page ≤ i ∧ i < page + n then none else (A.page s i).slab := by
  let I : Nat → σ → Prop := fun k t =>
    Holds t blocks ∧
      ∀ i, (A.page t i).slab = if page ≤ i ∧ i < page + k then none else (A.page s i).slab
  have hinv : I n (forUpTo (clearSlab A page) n s) := by
    apply forUpTo_invariant
    · refine ⟨h, ?_⟩
      intro i
      rw [if_neg (by omega)]
    · intro k t hk ht
      obtain ⟨hholds, hslab⟩ := ht
      refine ⟨spec.clearSlab_holds hholds k, ?_⟩
      intro i
      simp only [clearSlab, spec.page_setPage]
      split
      · next heq =>
          rw [if_pos (by omega)]
          rfl
      · next hne =>
          rw [hslab i]
          split
          · rw [if_pos (by omega)]
          · rw [if_neg (by omega)]
  exact hinv

/-- What `kmem_getpages` can do: fail and leave all back pointers alone, or add
a block whose descriptors point to its first page. -/
theorem PageSpec.kmemGetpages_cases (spec : PageSpec A Holds) (h : Holds s blocks)
    (cachep : KmemCache) (flag : Nat) :
    (∃ s', kmemGetpages A cachep flag s = (none, s') ∧ Holds s' blocks ∧
      ∀ i, (A.page s' i).slab = (A.page s i).slab) ∨
    (∃ first s', kmemGetpages A cachep flag s = (some (frameAddr first), s') ∧
      Holds s' (insert ⟨first, cachep.gfporder⟩ blocks) ∧
      (∀ b ∈ blocks, Disjoint b.frames (blockFrames first cachep.gfporder)) ∧
      ∀ i, (A.page s' i).slab =
        if i ∈ blockFrames first cachep.gfporder then some (frameAddr first)
        else (A.page s i).slab) := by
  have hslab := spec.alloc_slab flag cachep.gfporder s
  rcases hcall : A.allocPages flag cachep.gfporder s with ⟨_ | first, s₁⟩
  · rw [hcall] at hslab
    refine .inl ⟨s₁, ?_, spec.alloc_none h hcall, hslab⟩
    simp only [kmemGetpages, hcall]
  · rw [hcall] at hslab
    obtain ⟨hholds, hdisj⟩ := spec.alloc_some h hcall
    have hvirtual : (A.page s₁ first).virtual = frameAddr first :=
      spec.virtual hholds ⟨first, cachep.gfporder⟩ (Set.mem_insert _ _)
    obtain ⟨hholds', hvirtual', hmark⟩ := spec.markLoop hholds hvirtual (2 ^ cachep.gfporder)
    refine .inr ⟨first, _, ?_, hholds', hdisj, ?_⟩
    · simp only [kmemGetpages, hcall, hvirtual', ptr_frameAddr]
    · intro i
      rw [hmark, hslab]
      simp only [mem_blockFrames]

/-- `kmem_getpages` fails only if `alloc_pages` does. -/
theorem PageSpec.kmemGetpages_of_some (spec : PageSpec A Holds) (h : Holds s blocks) {flag : Nat}
    (hcall : A.allocPages flag cachep.gfporder s = (some first, s')) :
    ∃ t, kmemGetpages A cachep flag s = (some (frameAddr first), t) := by
  obtain ⟨hholds, _⟩ := spec.alloc_some h hcall
  have hvirtual := spec.virtual hholds ⟨first, cachep.gfporder⟩ (Set.mem_insert _ _)
  obtain ⟨_, hvirtual', _⟩ := spec.markLoop hholds hvirtual (2 ^ cachep.gfporder)
  exact ⟨_, by simp only [kmemGetpages, hcall, hvirtual', ptr_frameAddr]; rfl⟩

/-- What `kmem_freepages` does with a block that has not been freed: nothing, if
`private` is not the order of the cache, else the block is freed and its
descriptors point to no slab. -/
theorem PageSpec.kmemFreepages_cases (spec : PageSpec A Holds) (h : Holds s blocks)
    (hblock : ⟨first, cachep.gfporder⟩ ∈ blocks) :
    ((A.page s first).priv ≠ cachep.gfporder ∧
      kmemFreepages A cachep (frameAddr first) s = s) ∨
    ((A.page s first).priv = cachep.gfporder ∧
      Holds (kmemFreepages A cachep (frameAddr first) s)
        (blocks \ {⟨first, cachep.gfporder⟩}) ∧
      ∀ i, (A.page (kmemFreepages A cachep (frameAddr first) s) i).slab =
        if i ∈ blockFrames first cachep.gfporder then none else (A.page s i).slab) := by
  rcases eq_or_ne (A.page s first).priv cachep.gfporder with heq | hne
  · obtain ⟨hholds, hclear⟩ := @PageSpec.clearLoop _ _ _ _ _ first spec h (2 ^ cachep.gfporder)
    refine .inr ⟨heq, ?_, ?_⟩
    · simpa [kmemFreepages, heq] using spec.free hholds hblock
    · intro i
      simp only [kmemFreepages, virtToPfn_frameAddr, heq, ne_eq, not_true_eq_false, if_false,
        spec.free_slab, hclear, mem_blockFrames]
  · exact .inl ⟨hne, by simp [kmemFreepages, hne]⟩

end Spec

end Caos
