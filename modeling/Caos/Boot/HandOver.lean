import Caos.Boot.MemMap

/-!
The hand-over of the boot memory to the page allocator. The frames `alloc_bootmem` has
given away are marked busy once, by `mem_map_init`; the page allocator has no other
record of them. No call can clear the mark: `alloc_pages` takes free frames only, and
`__free_pages` releases only blocks whose first descriptor carries their order.
-/

namespace Caos

open Lib

/-- The pages returned by one call of `alloc_bootmem`. -/
structure PageRange where
  addr : Nat
  count : Nat
  deriving DecidableEq, Repr

/-- The number of the first frame. -/
def PageRange.first (r : PageRange) : Nat := virtToPfn r.addr

def PageRange.frames (r : PageRange) : Finset Nat := Finset.Ico r.first (r.first + r.count)

/-- A sequence of calls of `alloc_bootmem`, all of which return. -/
def allocAll : List Nat → Bootmem → Option (List PageRange × Bootmem)
  | [], b => some ([], b)
  | count :: counts, b => do
    let (addr, b) ← allocBootmem count b
    let (ranges, b) ← allocAll counts b
    return (⟨addr, count⟩ :: ranges, b)

/-- The ranges follow one another from the index of `b` to the index of `b'`. -/
structure Bumped (b b' : Bootmem) (ranges : List PageRange) : Prop where
  start : b'.start = b.start
  index_le : b.index ≤ b'.index
  first : ∀ r ∈ ranges, b.index ≤ r.first
  last : ∀ r ∈ ranges, r.first + r.count ≤ b'.index
  below : ∀ r ∈ ranges, r.first + r.count < b.max
  disjoint : ranges.Pairwise fun r r' => Disjoint r.frames r'.frames
  covered : ∀ f, (∃ r ∈ ranges, f ∈ r.frames) ↔ b.index ≤ f ∧ f < b'.index

theorem allocAll_cons {count addr : Nat} {counts : List Nat} {b b₁ b' : Bootmem}
    {ranges : List PageRange} (hhead : allocBootmem count b = some (addr, b₁))
    (htail : allocAll counts b₁ = some (ranges, b')) :
    allocAll (count :: counts) b = some (⟨addr, count⟩ :: ranges, b') := by
  simp only [allocAll, hhead, htail, Option.bind_eq_bind, Option.bind_some]
  rfl

theorem allocAll_append {count addr : Nat} {counts : List Nat} {b b₁ b' : Bootmem}
    {ranges : List PageRange} (hcounts : allocAll counts b = some (ranges, b₁))
    (hlast : allocBootmem count b₁ = some (addr, b')) :
    allocAll (counts ++ [count]) b = some (ranges ++ [⟨addr, count⟩], b') := by
  induction counts generalizing b ranges with
  | nil =>
      cases hcounts
      exact allocAll_cons hlast rfl
  | cons c counts ih =>
      simp only [allocAll, Option.bind_eq_bind, Option.bind_eq_some_iff] at hcounts
      obtain ⟨⟨addr', b₂⟩, hhead, ⟨rest, b₃⟩, htail, hret⟩ := hcounts
      cases hret
      exact allocAll_cons hhead (ih htail)

/-- Each call takes the pages behind those of the calls before it. -/
theorem allocAll_bumped {counts : List Nat} {b b' : Bootmem} {ranges : List PageRange}
    (h : allocAll counts b = some (ranges, b')) (hwrap : b.index + counts.sum < 2 ^ 64) :
    Bumped b b' ranges := by
  induction counts generalizing b ranges with
  | nil =>
      cases h
      constructor <;> simp
  | cons count counts ih =>
      simp only [allocAll, Option.bind_eq_bind, Option.bind_eq_some_iff] at h
      obtain ⟨⟨addr, b₁⟩, hhead, ⟨rest, b₂⟩, htail, hret⟩ := h
      simp only [pure, Option.some.injEq, Prod.mk.injEq] at hret
      obtain ⟨rfl, rfl⟩ := hret
      rw [List.sum_cons] at hwrap
      obtain ⟨hlt, rfl, rfl⟩ := allocBootmem_eq_some hhead (by omega)
      have hrest := ih htail (by dsimp only; omega)
      have hindex := hrest.index_le
      have hfirst : PageRange.first ⟨frameAddr b.index, count⟩ = b.index :=
        virtToPfn_frameAddr b.index
      dsimp only at hindex
      constructor
      · exact hrest.start
      · omega
      · rw [List.forall_mem_cons, hfirst]
        exact ⟨le_refl _, fun r hr => le_trans (Nat.le_add_right _ _) (hrest.first r hr)⟩
      · rw [List.forall_mem_cons, hfirst]
        exact ⟨hindex, hrest.last⟩
      · rw [List.forall_mem_cons, hfirst]
        exact ⟨hlt, hrest.below⟩
      · refine List.pairwise_cons.mpr ⟨?_, hrest.disjoint⟩
        intro r hr
        have hr' := hrest.first r hr
        dsimp only at hr'
        rw [PageRange.frames, PageRange.frames, hfirst, Finset.disjoint_left]
        intro f hf hf'
        rw [Finset.mem_Ico] at hf hf'
        dsimp only at hf
        omega
      · intro f
        rw [List.exists_mem_cons_iff, hrest.covered, PageRange.frames, Finset.mem_Ico, hfirst]
        dsimp only
        omega

/-! ## The calls of the page allocator -/

/-- `z->pages` of `memory_init`. -/
def zonePages (phyMemSize : Nat) : Nat := phyMemSize * 0x100000 % 2 ^ 64 / pageSize

/-- A call of the page allocator. `__free_pages` gets `NULL` or a descriptor by its
index, inside the table or behind it. -/
inductive PageCall where
  | alloc (gfpMask order : Nat)
  | free (page : Option Nat) (order : Nat)

def PageCall.next (s : PageState) : PageCall → PageState
  | .alloc gfpMask order => (allocPages gfpMask order s).2
  | .free page order => freePagesCore page order s

/-- The block returned by the call, if any, contains none of these frames. -/
def HandsOutNone (reserved : Nat → Prop) (s : PageState) : PageCall → Prop
  | .alloc gfpMask order => ∀ first, (allocPages gfpMask order s).1 = some first →
      ∀ f ∈ blockFrames first order, ¬ reserved f
  | .free _ _ => True

/-- The reserved frames are busy, and no descriptor of the table passes for the first
one of a block that contains any of them. -/
structure Guarded (reserved : Nat → Prop) (count : Nat) (s : PageState) : Prop where
  table : ∀ f, reserved f → f < count
  busy : ∀ f, reserved f → ¬ IsFree s.memMap f
  heads : ∀ page < count, (s.memMap page).priv ≤ maxPageOrder →
    ∀ f ∈ blockFrames page (s.memMap page).priv, ¬ reserved f

section

variable {reserved : Nat → Prop} {count gfpMask order page f n : Nat} {s : PageState}

/-- `alloc_pages` finds no reserved frame free. -/
theorem Guarded.alloc (h : Guarded reserved count s) (gfpMask order : Nat) :
    HandsOutNone reserved s (.alloc gfpMask order) ∧
      Guarded reserved count (PageCall.next s (.alloc gfpMask order)) := by
  rcases allocPages_cases gfpMask order s with ⟨-, -, first, hfit, hcall⟩ | ⟨hcall, -⟩
  · have hnone : ∀ f ∈ blockFrames first order, ¬ reserved f := by
      intro f hf hreserved
      rw [mem_blockFrames] at hf
      exact h.busy f hreserved (hfit.window.free_of_mem hf.1 hf.2)
    have hnext : PageCall.next s (.alloc gfpMask order) = takeBlock gfpMask order first s := by
      rw [PageCall.next, hcall]
    constructor
    · intro first' hsome
      rw [hcall] at hsome
      cases hsome
      exact hnone
    · rw [hnext]
      constructor
      · exact h.table
      · intro f hf
        have hout : f ∉ blockFrames first order := fun hmem => hnone f hmem hf
        rw [IsFree, takeBlock_count, if_neg hout]
        exact h.busy f hf
      · intro page hpage
        rw [takeBlock_priv]
        by_cases hfirst : page = first
        · rw [if_pos hfirst, hfirst]
          exact fun _ => hnone
        · rw [if_neg hfirst]
          exact h.heads page hpage
  · have hnext : PageCall.next s (.alloc gfpMask order) = s := by
      rw [PageCall.next, hcall]
    rw [hnext]
    refine ⟨?_, h⟩
    intro first hsome
    rw [hcall] at hsome
    cases hsome

/-- A block that `__free_pages` releases starts at a descriptor that says so. -/
theorem Guarded.free (h : Guarded reserved count s) (page : Option Nat) (order : Nat) :
    Guarded reserved count (PageCall.next s (.free page order)) := by
  cases page with
  | none => exact h
  | some page =>
      by_cases haccept : order ≤ maxPageOrder ∧ (s.memMap page).count ≠ 0 ∧
          (s.memMap page).priv = order
      · obtain ⟨horder, -, hpriv⟩ := haccept
        have hnone : ∀ f, reserved f → f ∉ blockFrames page order := by
          intro f hf hmem
          by_cases hpage : page < count
          · have hheads := h.heads page hpage
            rw [hpriv] at hheads
            exact hheads horder f hmem hf
          · have hlt := h.table f hf
            rw [mem_blockFrames] at hmem
            omega
        constructor
        · exact h.table
        · intro f hf
          rw [IsFree, PageCall.next, (freePagesCore_frame page order f s).2.2 (hnone f hf)]
          exact h.busy f hf
        · intro page' hpage' hle
          rw [PageCall.next] at hle ⊢
          rcases (freePagesCore_frame page order page' s).2.1 with hsame | hminus
          · rw [hsame] at hle ⊢
            exact h.heads page' hpage' hle
          · rw [hminus] at hle
            simp only [minusOne, maxPageOrder] at hle
            omega
      · rw [PageCall.next, freePagesCore_of_reject haccept]
        exact h

/-- In no run of any calls is a reserved frame handed out. -/
theorem Guarded.run (h : Guarded reserved count s) (calls : List PageCall) :
    EveryStep PageCall.next (HandsOutNone reserved) s calls := by
  induction calls generalizing s with
  | nil => trivial
  | cons call calls ih =>
      cases call with
      | alloc gfpMask order =>
          obtain ⟨hnone, hnext⟩ := h.alloc gfpMask order
          exact ⟨hnone, ih hnext⟩
      | free page order => exact ⟨trivial, ih (h.free page order)⟩

/-- The busy frames of a table without blocks are guarded when `memory_init` is done. -/
theorem Bootmem.guarded {b : Bootmem} (hbusy : ∀ l, b.busy l = true → l < count)
    (pages : Nat) (memory : Nat → Page) :
    Guarded (fun l => b.busy l = true) count
      (memoryInit pages (b.descriptor count memory)) := by
  constructor
  · exact hbusy
  · intro f hf
    rw [IsFree, memoryInit_count, Bootmem.descriptor_of_lt (hbusy f hf)]
    simp only [hf, if_true, one_ne_zero, not_false_eq_true]
  · intro page hpage hle
    rw [memoryInit_priv, Bootmem.descriptor_of_lt hpage] at hle
    simp only [minusOne, maxPageOrder] at hle
    omega

end

/-- What the page allocator takes over: `ranges` are the pages of all calls of
`alloc_bootmem`, those for `mem_map` included. -/
structure HandedOver (phyMemSize : Nat) (ranges : List PageRange) (map : Nat → Page) : Prop where
  disjoint : ranges.Pairwise fun r r' => Disjoint r.frames r'.frames
  window : ∀ r ∈ ranges, bootmemInit.start ≤ r.first ∧ r.first + r.count ≤ bootmemInit.max
  busy : ∀ f < pageCount phyMemSize, (map f).count ≠ 0 ↔
    f = 0 ∨ (0x9f ≤ f ∧ f < 0x200) ∨ ∃ r ∈ ranges, f ∈ r.frames
  kept : ∀ calls : List PageCall, EveryStep PageCall.next
    (HandsOutNone fun f => f = 0 ∨ (0x9f ≤ f ∧ f < 0x200) ∨ ∃ r ∈ ranges, f ∈ r.frames)
    (memoryInit (zonePages phyMemSize) map) calls

/-- Whatever the boot code has allocated stays its own: for every sequence of requests
that succeeds, `mem_map_init` at its end. -/
theorem bootmem_handed_over (phyMemSize : Nat) (memory : Nat → Page) (counts : List Nat)
    {ranges : List PageRange} {b b' : Bootmem} {memMap : Nat} {map : Nat → Page}
    (hcounts : allocAll counts bootmemInit = some (ranges, b))
    (hmap : b.memMapInit phyMemSize memory = some (memMap, map, b'))
    (hwrap : bootmemInit.index + counts.sum + memMapPages phyMemSize < 2 ^ 64)
    (hwindow : bootmemInit.max ≤ pageCount phyMemSize) :
    HandedOver phyMemSize (ranges ++ [⟨memMap, memMapPages phyMemSize⟩]) map := by
  rw [Bootmem.memMapInit_eq, Option.map_eq_some_iff] at hmap
  obtain ⟨⟨addr, b''⟩, halloc, hret⟩ := hmap
  cases hret
  have hall := allocAll_append hcounts halloc
  generalize hranges : ranges ++ [⟨memMap, memMapPages phyMemSize⟩] = all at *
  have hbump : Bumped bootmemInit b' all := by
    apply allocAll_bumped hall
    rw [List.sum_append, List.sum_singleton, ← Nat.add_assoc]
    exact hwrap
  have hstart : bootmemInit.index = 0x200 ∧ bootmemInit.start = 0x200 ∧
      bootmemInit.max = 0x7FF := by decide
  -- the mark of `mem_map_init` in terms of the ranges
  have hbusy : ∀ f, b'.busy f = true ↔
      f = 0 ∨ (0x9f ≤ f ∧ f < 0x200) ∨ ∃ r ∈ all, f ∈ r.frames := by
    intro f
    rw [Bootmem.busy_iff, hbump.covered, hbump.start, hstart.1, hstart.2.1]
  have htable : ∀ f, b'.busy f = true → f < pageCount phyMemSize := by
    intro f hf
    rw [hbusy] at hf
    rcases hf with rfl | hlow | ⟨r, hr, hfr⟩
    · omega
    · omega
    · have hbelow := hbump.below r hr
      rw [PageRange.frames, Finset.mem_Ico] at hfr
      omega
  constructor
  · exact hbump.disjoint
  · intro r hr
    have hfirst := hbump.first r hr
    have hbelow := hbump.below r hr
    omega
  · intro f hf
    rw [Bootmem.descriptor_of_lt hf, ← hbusy]
    by_cases hb : b'.busy f = true <;> simp [hb]
  · intro calls
    simp only [← hbusy]
    exact (Bootmem.guarded htable (zonePages phyMemSize) memory).run calls

/-- The allocations of a boot with 16 MB. -/
theorem small_memory_handed_over :
    ∃ ranges b memMap map b',
      allocAll [1, 1, 1, 1, 1, 1, 8, 1, 10] bootmemInit = some (ranges, b) ∧
      b.memMapInit 16 (fun _ => ⟨⟨0, 0⟩, 0, 0, 0, 0, 0, none⟩) = some (memMap, map, b') ∧
      HandedOver 16 (ranges ++ [⟨memMap, memMapPages 16⟩]) map := by
  obtain ⟨ranges, hcounts⟩ : ∃ ranges, allocAll [1, 1, 1, 1, 1, 1, 8, 1, 10] bootmemInit =
      some (ranges, { start := 0x200, index := 0x219, max := 0x7FF }) := ⟨_, rfl⟩
  have hpages : memMapPages 16 = 73 := by decide
  have hmap := Bootmem.memMapInit_eq 16 (fun _ => ⟨⟨0, 0⟩, 0, 0, 0, 0, 0, none⟩)
    { start := 0x200, index := 0x219, max := 0x7FF }
  rw [hpages, allocBootmem_of_lt (by decide) (by decide), Option.map_some] at hmap
  refine ⟨ranges, _, _, _, _, hcounts, hmap, ?_⟩
  exact bootmem_handed_over 16 _ _ hcounts hmap (by decide) (by decide)

end Caos
