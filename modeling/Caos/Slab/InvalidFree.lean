import Caos.Slab.BackPointers
import Caos.Slab.Exclusive
import Caos.Slab.Fallback

/-!
`caos_kfree` on arbitrary addresses. Its checks recognise a page that belongs to
no slab and a slab without allocated objects. Any other address on a page of a
slab is taken for an object: behind the header it is freed, before it the index
becomes so large that the store to the bufctl array faults.
-/

namespace Caos

open Lib

/-- The call returns and leaves `inuse`, `free` and `bufctl` of every listed slab
as they are. -/
def KeepsSlabs {σ : Type} (A : PageAllocator σ) (objp : Nat) (h : Heap σ) : Prop :=
  ∃ h', caosKfree A objp h = some h' ∧ ∀ cachep, ∀ slabp ∈ h.slabsOf cachep,
    (h'.slabAt slabp).inuse = (h.slabAt slabp).inuse ∧
    (h'.slabAt slabp).free = (h.slabAt slabp).free ∧
    (h'.slabAt slabp).bufctl = (h.slabAt slabp).bufctl

/-- Every listed slab with this address in its pages has no allocated object. -/
def NoSlabInUse {σ : Type} (objp : Nat) (h : Heap σ) : Prop :=
  ∀ cachep, ∀ slabp ∈ h.slabsOf cachep, slabp ≤ objp →
    objp < slabp + 2 ^ (h.cacheCache cachep).gfporder * pageSize → (h.slabAt slabp).inuse = 0

section KeepsSlabs

variable {σ : Type} {A : PageAllocator σ} {Holds : σ → Set Block → Prop} {others : Set Block}
  {h : Heap σ} {cachep slabp objp paddr : Nat}

/-- An address in the pages of a slab in use is not rejected. -/
theorem HeapInv.not_keepsSlabs (hinv : HeapInv A Holds others h)
    (hmem : slabp ∈ h.slabsOf cachep) (hlo : slabp ≤ objp)
    (hhi : objp < slabp + 2 ^ (h.cacheCache cachep).gfporder * pageSize)
    (hinuse : (h.slabAt slabp).inuse ≠ 0) : ¬ KeepsSlabs A objp h := by
  intro hkeeps
  obtain ⟨h', hcall, hsame⟩ := hkeeps
  have hoff : objp - slabp < 2 ^ (h.cacheCache cachep).gfporder * pageSize := by omega
  have hpage := hinv.page_slab hmem hoff
  rw [Nat.add_sub_cancel' hlo] at hpage
  have hcache := (hinv.header cachep slabp hmem).cache
  simp only [caosKfree, hpage, hcache, Nat.le_zero, hinuse, if_false] at hcall
  split at hcall
  · obtain rfl := Option.some.inj hcall
    have hless := (hsame cachep slabp hmem).1
    simp only [putObject, modifyAt_same] at hless
    omega
  · cases hcall

/-- With exact back pointers every other address is rejected. -/
theorem PagesOwned.keepsSlabs (ho : PagesOwned A Holds others h)
    (hunused : NoSlabInUse (va paddr) h) : KeepsSlabs A (va paddr) h := by
  refine ⟨h, ?_, fun _ _ _ => ⟨rfl, rfl, rfl⟩⟩
  cases hpage : (A.page h.pages (virtToPfn (va paddr))).slab with
  | none => simp only [caosKfree, hpage]
  | some slabp =>
      obtain ⟨c, first, rfl, hmem, hi⟩ := ho.listed _ slabp hpage
      have hcache := (ho.inv.header c _ hmem).cache
      rw [mem_blockFrames, virtToPfn, pa_va] at hi
      have hinuse : (h.slabAt (frameAddr first)).inuse = 0 := by
        have hpages : (first + 2 ^ (h.cacheCache c).gfporder) * pageSize =
            first * pageSize + 2 ^ (h.cacheCache c).gfporder * pageSize := Nat.add_mul _ _ _
        have hstart := Nat.mul_le_of_le_div _ _ _ hi.1
        have hend := (Nat.div_lt_iff_lt_mul (show 0 < pageSize by decide)).mp hi.2
        apply hunused c _ hmem
        · simp only [frameAddr, va]
          omega
        · simp only [frameAddr, va]
          omega
      simp only [caosKfree, hpage, hcache, hinuse, Nat.le_refl, if_true]

end KeepsSlabs

/-- In every state that calls of the heap lead to, with any addresses freed, and
for every address of physical memory. -/
theorem kfree_keeps_iff (busy : Nat → Bool) (pages : Nat)
    (hpages : pages + 2 ^ maxPageOrder ≤ maxFrames) (memory : Nat → Slab)
    (start : Heap PageState)
    (hinit : kmemCacheInit zoneAllocator memory (memoryInit pages (memMapInit busy)) = some start)
    (ops : List HeapOp) (t : HeapTrace PageState)
    (hrun : Run (HeapStep zoneAllocator) ⟨start, []⟩ ops t) (paddr : Nat) :
    KeepsSlabs zoneAllocator (va paddr) t.heap ↔ NoSlabInUse (va paddr) t.heap := by
  have spec := zoneAllocator_spec (memMapInit busy)
    (memoryInit pages (memMapInit busy)).zone.freePages hpages
  have hrec := zoneAllocator_recordsOrder (memMapInit busy)
    (memoryInit pages (memMapInit busy)).zone.freePages pages
  obtain ⟨cachePage, hstart⟩ :=
    (kmemCacheInit_spec spec (zoneHolds_start busy pages) hinit).pagesOwned
      (fun i => memoryInit_slab pages (memMapInit busy) i)
  have ho := hrun.invariant (I := fun t => PagesOwned zoneAllocator _ _ t.heap) hstart
    (fun _ _ _ ho hstep => ho.step spec hrec hstep)
  constructor
  · intro hkeeps cachep slabp hmem hlo hhi
    by_contra hinuse
    exact ho.inv.not_keepsSlabs hmem hlo hhi hinuse hkeeps
  · exact ho.keepsSlabs

/-- The second free of the only object of a slab is rejected. -/
theorem second_free_rejected :
    ∃ t, smallRun [.kmalloc 16 0, .kfree (va (3 * pageSize + 1088))] = some t ∧
      KeepsSlabs zoneAllocator (va (3 * pageSize + 1088)) t.heap := by
  have hunused : (smallRun [.kmalloc 16 0, .kfree (va (3 * pageSize + 1088))]).map (fun t =>
      decide (∀ c < defaultSpecs.length, ∀ slabp ∈ t.heap.slabsOf c,
        (t.heap.slabAt slabp).inuse = 0)) = some true := by decide +kernel
  obtain ⟨t, hrun, hunused⟩ := Option.map_eq_some_iff.mp hunused
  refine ⟨t, hrun, ?_⟩
  obtain ⟨start, hinit, hcalls⟩ := Option.bind_eq_some_iff.mp hrun
  have hsteps := heapRun_of_client (clientRun_sound hcalls)
  have ht := hsteps.invariant (I := fun t => IsTable defaultSpecs t.heap.cacheCache)
    (kmemCacheInit_isTable hinit) (fun _ _ _ ht hstep => hstep.isTable ht)
  refine (kfree_keeps_iff _ 8 (by decide) _ start hinit _ t hsteps (3 * pageSize + 1088)).mpr ?_
  intro c slabp hmem _ _
  exact of_decide_eq_true hunused c (ht.lt_of_mem hmem) slabp hmem

/-- With another object of the slab allocated, the second free is accepted, in a
run of a client that so far has freed only what it was given. -/
theorem second_free_accepted :
    ¬ (∀ (busy : Nat → Bool) (pages : Nat) (_ : pages + 2 ^ maxPageOrder ≤ maxFrames)
        (memory : Nat → Slab) (start : Heap PageState)
        (_ : kmemCacheInit zoneAllocator memory (memoryInit pages (memMapInit busy)) =
          some start)
        (ops : List HeapOp) (t : HeapTrace PageState)
        (_ : Run (ClientStep zoneAllocator) ⟨start, []⟩ ops t) (paddr : Nat)
        (_ : paddr < pages * pageSize) (_ : ∀ o ∈ t.live, o.addr ≠ va paddr),
        KeepsSlabs zoneAllocator (va paddr) t.heap) := by
  intro hall
  have hstate : (smallRun [.kmalloc 16 0, .kmalloc 16 0, .kfree (frameAddr 3 + 1088)]).map
      (fun t => (t.live, t.heap.slabsOf 0, (t.heap.slabAt (frameAddr 3)).inuse)) =
      some ([⟨frameAddr 3 + 1104, 0⟩], [frameAddr 3], 1) := by decide +kernel
  obtain ⟨t, hrun, hstate⟩ := Option.map_eq_some_iff.mp hstate
  obtain ⟨hlive, hslabs, hinuse⟩ : t.live = [⟨frameAddr 3 + 1104, 0⟩] ∧
      t.heap.slabsOf 0 = [frameAddr 3] ∧ (t.heap.slabAt (frameAddr 3)).inuse = 1 := by
    simpa using hstate
  obtain ⟨start, hinit, hcalls⟩ := Option.bind_eq_some_iff.mp hrun
  have hclient := clientRun_sound hcalls
  have hdead : ∀ o ∈ t.live, o.addr ≠ va (3 * pageSize + 1088) := by
    intro o ho
    rw [hlive] at ho
    obtain rfl := List.mem_singleton.mp ho
    simp only [frameAddr, va]
    omega
  have hkeeps := hall _ 8 (by decide) _ start hinit _ t hclient _ (by decide) hdead
  have spec : PageSpec zoneAllocator (ZoneHolds (memMapInit fun f => f == 0)
      (memoryInit 8 (memMapInit fun f => f == 0)).zone.freePages 8) :=
    zoneAllocator_spec _ _ (by decide)
  obtain ⟨_, hinv⟩ := (kmemCacheInit_spec spec (zoneHolds_start _ 8) hinit).inv
  obtain ⟨others, hinv⟩ := (heapRun_of_client hclient).invariant
    (I := fun t => ∃ others, HeapInv zoneAllocator _ others t.heap) ⟨_, hinv⟩
    (fun _ _ _ hinv hstep => HeapInv.step spec hinv hstep)
  have hmem : frameAddr 3 ∈ t.heap.slabsOf 0 := by simp [hslabs]
  refine hinv.not_keepsSlabs hmem ?_ ?_ (by omega) hkeeps
  · simp only [frameAddr, va]
    omega
  · have hpages : pageSize ≤ 2 ^ (t.heap.cacheCache 0).gfporder * pageSize :=
      Nat.le_mul_of_pos_left _ (Nat.two_pow_pos _)
    simp only [frameAddr, va, pageSize, pageShift] at hpages ⊢
    omega

end Caos
