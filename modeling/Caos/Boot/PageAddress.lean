import Caos.Boot.ApArea
import Caos.Memory.OutOfPages

/-!
The address interface of the page allocator, on 64-bit words. A descriptor is given by
its pointer, so that the conversions are also defined on `NULL`, and `page_to_virt` of
`NULL` is what `__get_free_pages` returns for a block it has not got.
-/

namespace Caos

open Lib

/-- The pointer to the descriptor with this index. `none` is `NULL`. -/
def pagePtr (memMap : BitVec 64) : Option Nat → BitVec 64
  | none => 0
  | some i => memMap + BitVec.ofNat 64 (sizeofPage * i)

/-- `pg - mem_map`, as the compiler divides by `sizeof(struct page)`, which is 8 times 9: an
arithmetic shift, and the product with the inverse of 9. It takes for granted that nothing is
left over. -/
def pageIndex (memMap pg : BitVec 64) : BitVec 64 :=
  (pg - memMap).sshiftRight 3 * 0x8E38E38E38E38E39

/-- `page_to_virt`. -/
def pageToVirt64 (memMap pg : BitVec 64) : BitVec 64 :=
  let pfn := pageIndex memMap pg
  pfn <<< pageShift + BitVec.ofNat 64 pageOffset

/-- `virt_to_page`. -/
def virtToPage64 (memMap vaddr : BitVec 64) : BitVec 64 :=
  let pfn := (vaddr - BitVec.ofNat 64 pageOffset) >>> pageShift
  memMap + BitVec.ofNat 64 sizeofPage * pfn

/-- `__get_free_pages`. -/
def getFreePages (memMap : BitVec 64) (gfpMask order : Nat) (s : PageState) :
    BitVec 64 × PageState :=
  if order > maxPageOrder then (0, s)
  else
    let (pg, s) := allocPagesCore gfpMask order s
    (pageToVirt64 memMap (pagePtr memMap pg), s)

/-- `free_pages`. -/
def freePages64 (memMap addr : BitVec 64) (order : Nat) (s : PageState) : PageState :=
  if order > maxPageOrder then s
  else freePagesCore (some (pageIndex memMap (virtToPage64 memMap addr)).toNat) order s

section

variable {memMap : BitVec 64} {i : Nat}

/-- The product with the inverse of 9 undoes one with 9. -/
theorem mul_inverse_nine (x : Nat) :
    9 * (x * 0x8E38E38E38E38E39 % 2 ^ 64) % 2 ^ 64 = x % 2 ^ 64 := by
  have hnine : 9 * (x * 0x8E38E38E38E38E39) = x + 2 ^ 64 * (5 * x) := by ring
  rw [Nat.mul_mod, Nat.mod_mod, ← Nat.mul_mod, hnine, Nat.add_mul_mod_self_left]

/-- The difference of two pointers, when it is not negative. -/
theorem toNat_pageIndex {pg : BitVec 64} (h : (pg - memMap).toNat < 2 ^ 63) :
    (pageIndex memMap pg).toNat =
      (pg - memMap).toNat / 8 * 0x8E38E38E38E38E39 % 2 ^ 64 := by
  have hmsb : (pg - memMap).msb = false := by
    rw [BitVec.msb_eq_false_iff_two_mul_lt]
    omega
  rw [pageIndex, BitVec.toNat_mul, BitVec.sshiftRight_eq_of_msb_false hmsb,
    BitVec.toNat_ushiftRight, Nat.shiftRight_eq_div_pow]
  rfl

theorem pageIndex_pagePtr (hi : i < 2 ^ 52) :
    (pageIndex memMap (pagePtr memMap (some i))).toNat = i := by
  have hdiff : (pagePtr memMap (some i) - memMap).toNat = sizeofPage * i := by
    rw [pagePtr, BitVec.add_comm, BitVec.add_sub_cancel, BitVec.toNat_ofNat, Nat.mod_eq_of_lt]
    simp only [sizeofPage]
    omega
  have hlt : (pagePtr memMap (some i) - memMap).toNat < 2 ^ 63 := by
    rw [hdiff]
    simp only [sizeofPage]
    omega
  rw [toNat_pageIndex hlt, hdiff]
  simp only [sizeofPage]
  omega

theorem toNat_pageToVirt64 {pg : BitVec 64} : (pageToVirt64 memMap pg).toNat =
    ((pageIndex memMap pg).toNat * pageSize + pageOffset) % 2 ^ 64 := by
  rw [pageToVirt64, BitVec.toNat_add, BitVec.toNat_shiftLeft, BitVec.toNat_ofNat,
    Nat.shiftLeft_eq]
  simp only [pageShift, pageSize, pageOffset]
  omega

/-- The linear address of a frame. -/
theorem pageToVirt64_pagePtr (hi : i < 2 ^ 52) :
    pageToVirt64 memMap (pagePtr memMap (some i)) = BitVec.ofNat 64 (frameAddr i) := by
  apply BitVec.eq_of_toNat_eq
  rw [toNat_pageToVirt64, pageIndex_pagePtr hi, BitVec.toNat_ofNat]
  rfl

/-- From the descriptor to the address and back. -/
theorem virtToPage64_pageToVirt64 (hi : i < 2 ^ 52) :
    virtToPage64 memMap (pageToVirt64 memMap (pagePtr memMap (some i))) =
      pagePtr memMap (some i) := by
  have hpfn : (pageToVirt64 memMap (pagePtr memMap (some i)) - BitVec.ofNat 64 pageOffset) >>>
      pageShift = BitVec.ofNat 64 i := by
    apply BitVec.eq_of_toNat_eq
    rw [BitVec.toNat_ushiftRight, pageToVirt64, BitVec.add_sub_cancel, BitVec.toNat_shiftLeft,
      pageIndex_pagePtr hi, BitVec.toNat_ofNat, Nat.shiftLeft_eq, Nat.shiftRight_eq_div_pow]
    simp only [pageShift]
    omega
  rw [virtToPage64, hpfn, pagePtr, BitVec.ofNat_mul]

/-- With a table in the boot heap, the linear address of `NULL` is not 0: nine times the index
is the distance to the table in units of 8 bytes, and that is not nine times the index of
address 0. -/
theorem pageToVirt64_null (hlo : pageOffset ≤ memMap.toNat)
    (hhi : memMap.toNat < va (bootingMemorySize * 0x100000)) :
    pageToVirt64 memMap (pagePtr memMap none) ≠ 0 := by
  intro hzero
  have hdiff : (pagePtr memMap none - memMap).toNat = 2 ^ 64 - memMap.toNat := by
    have hlt := memMap.isLt
    have hnull : (pagePtr memMap none).toNat = 0 := rfl
    rw [BitVec.toNat_sub, hnull]
    simp only [pageOffset] at hlo
    omega
  have hword : (pageToVirt64 memMap (pagePtr memMap none)).toNat = 0 := by
    rw [hzero]
    rfl
  simp only [va, bootingMemorySize, pageOffset] at hlo hhi
  rw [toNat_pageToVirt64, toNat_pageIndex (by omega), hdiff] at hword
  have hnine := mul_inverse_nine ((2 ^ 64 - memMap.toNat) / 8)
  rw [Nat.mod_eq_of_lt (by omega : (2 ^ 64 - memMap.toNat) / 8 < 2 ^ 64)] at hnine
  generalize (2 ^ 64 - memMap.toNat) / 8 * 0x8E38E38E38E38E39 % 2 ^ 64 = pfn at hword hnine
  have hrange : 2 ^ 43 ≤ 9 * pfn % 2 ^ 64 ∧ 9 * pfn % 2 ^ 64 ≤ 2 ^ 44 := by omega
  simp only [pageSize, pageShift, pageOffset] at hword
  omega

theorem zonePages_lt (phyMemSize : Nat) : zonePages phyMemSize < 2 ^ 52 := by
  simp only [zonePages, pageSize, pageShift]
  omega

end

/-- A block taken and given back by its address. -/
structure RoundTrip (memMap : BitVec 64) (order first : Nat) (s s' : PageState) : Prop where
  page : virtToPage64 memMap (pageToVirt64 memMap (pagePtr memMap (some first))) =
    pagePtr memMap (some first)
  descriptor : ∀ i, (freePages64 memMap (pageToVirt64 memMap (pagePtr memMap (some first)))
      order s').memMap i = { s.memMap i with flags := (s'.memMap i).flags }
  zone : (freePages64 memMap (pageToVirt64 memMap (pagePtr memMap (some first)))
      order s').zone = s.zone
  other_order : ∀ order', order' ≠ order →
    freePages64 memMap (pageToVirt64 memMap (pagePtr memMap (some first))) order' s' = s'

section

variable {boot : Nat → Page} {freeAtBoot pages gfpMask order first page : Nat}
  {s : PageState} {live : List Block} {memMap : BitVec 64}

/-- `free_pages` of the address of a descriptor. -/
theorem freePages64_pagePtr (hfirst : first < 2 ^ 52) :
    freePages64 memMap (pageToVirt64 memMap (pagePtr memMap (some first))) order s =
      freePagesCore (some first) order s := by
  rw [freePages64, virtToPage64_pageToVirt64 hfirst, pageIndex_pagePtr hfirst]
  by_cases horder : order > maxPageOrder
  · simp only [freePagesCore, if_pos horder]
  · rw [if_neg horder]

/-- A free page of the zone has `private` -1. -/
theorem PageInv.priv_of_free (h : PageInv boot freeAtBoot pages s live) (hpage : page < pages)
    (hfree : IsFree s.memMap page) : (s.memMap page).priv = minusOne := by
  rw [h.priv_other page, h.boot_priv page hpage]
  intro b hb heq
  have hcount := h.count page
  rw [if_pos ⟨b, hb, heq ▸ b.first_mem⟩, show (s.memMap page).count = 0 from hfree] at hcount
  cases hcount

theorem PageInv.round_trip (h : PageInv boot freeAtBoot pages s live) (hpages : pages < 2 ^ 52)
    {s' : PageState} (hcall : allocPages gfpMask order s = (some first, s')) :
    RoundTrip memMap order first s s' := by
  rcases allocPages_cases gfpMask order s with
    ⟨horder, hfree, first', hfit, htake⟩ | ⟨hnone, -⟩
  · rw [htake] at hcall
    cases hcall
    have hbelow := hfit.below
    rw [h.zone] at hbelow
    have hfirst : first < 2 ^ 52 := by omega
    have hpriv := h.priv_of_free hbelow (by simpa using hfit.window 0 (Nat.two_pow_pos order))
    have hrelease : freePagesCore (some first) order (takeBlock gfpMask order first s) =
        releasedBlock first order (takeBlock gfpMask order first s) := by
      apply freePagesCore_of_accept horder
      · rw [takeBlock_priv, if_pos rfl]
      · intro j hj
        rw [takeBlock_count, if_pos (by rw [mem_blockFrames]; omega)]
    constructor
    · exact virtToPage64_pageToVirt64 hfirst
    · intro i
      rw [freePages64_pagePtr hfirst, hrelease, releasedBlock]
      dsimp only
      rw [takeBlock_memMap]
      by_cases hi : i ∈ blockFrames first order
      · have hcount : (s.memMap i).count = 0 := by
          rw [mem_blockFrames] at hi
          exact hfit.window.free_of_mem hi.1 hi.2
        simp only [if_pos hi]
        by_cases hhead : i = first
        · subst hhead
          rw [if_pos rfl, ← hpriv, ← hcount]
        · rw [if_neg hhead, if_neg hhead, ← hcount]
      · simp only [if_neg hi]
    · rw [freePages64_pagePtr hfirst, hrelease, releasedBlock, takeBlock_zone]
      dsimp only
      rw [Nat.sub_add_cancel hfree.le]
    · intro order' hne
      rw [freePages64_pagePtr hfirst]
      apply freePagesCore_of_reject
      rintro ⟨-, -, hsame⟩
      rw [takeBlock_priv, if_pos rfl] at hsame
      exact hne hsame.symm
  · rw [hnone] at hcall
    cases hcall

end

/-- The state a run of calls leads to, from the one `memory_init` leaves. -/
def reachedState (busy : Nat → Bool) (behind : Nat → Page) {pages : Nat}
    (ops : List (PageOp pages)) : PageState :=
  ops.foldl pageCall (bootState busy behind pages)

theorem foldl_pageStep_state {pages : Nat} (ops : List (PageOp pages)) (t : PageTrace) :
    (ops.foldl pageStep t).state = ops.foldl pageCall t.state := by
  induction ops generalizing t with
  | nil => rfl
  | cons op ops ih => rw [List.foldl_cons, ih, pageStep_state, List.foldl_cons]

theorem reachedState_inv (busy : Nat → Bool) (behind : Nat → Page) {pages : Nat}
    (ops : List (PageOp pages)) : ∃ live, PageInv (bootTable busy behind pages)
      (bootState busy behind pages).zone.freePages pages (reachedState busy behind ops) live := by
  have hboot : PageInv (bootTable busy behind pages) (bootState busy behind pages).zone.freePages
      pages (bootState busy behind pages) [] := by
    apply memoryInit_inv
    intro f hf
    simp only [bootTable, if_pos hf, memMapInit]
  have hrun := List.foldlRecOn (motive := fun t : PageTrace =>
      PageInv (bootTable busy behind pages) (bootState busy behind pages).zone.freePages pages
        t.state t.live)
    ops pageStep (b := bootTrace busy behind pages) hboot (fun t ht op _ => pageStep_inv t op ht)
  rw [foldl_pageStep_state] at hrun
  exact ⟨_, hrun⟩

/-- For every address of the table and every block a reachable allocator hands out. -/
theorem alloc_free_round_trip (phyMemSize : Nat) (memMap : BitVec 64) (busy : Nat → Bool)
    (behind : Nat → Page) (ops : List (PageOp (zonePages phyMemSize)))
    (gfpMask order first : Nat) (s' : PageState)
    (hcall : allocPages gfpMask order (reachedState busy behind ops) = (some first, s')) :
    RoundTrip memMap order first (reachedState busy behind ops) s' := by
  obtain ⟨live, hinv⟩ := reachedState_inv busy behind ops
  exact hinv.round_trip (zonePages_lt phyMemSize) hcall

/-- The boot heap of a machine with this much memory, up to the end of `mem_map`. -/
def bootedHeap (phyMemSize : Nat) : Bootmem :=
  ⟨0x200, 0x211 + phyMemSize / 2 + memMapPages phyMemSize, 0x7FF⟩

/-- The address `mem_map_init` gets for its table. -/
def bootedMemMap (phyMemSize : Nat) : BitVec 64 :=
  BitVec.ofNat 64 (frameAddr (0x211 + phyMemSize / 2))

/-- Memory filled with zeros behind the table. -/
def zeroPage : Page := ⟨⟨0, 0⟩, 0, 0, 0, 0, 0, none⟩

/-- The first pages a machine with 16 MB hands out. -/
theorem bootedHeap_first {order : Nat} (horder : order ≤ maxPageOrder) :
    (allocPages 0 order (reachedState (bootedHeap 16).busy (fun _ => zeroPage)
      ([] : List (PageOp (zonePages 16))))).1 = some 1 := by
  have hpages : zonePages 16 = 4096 := by norm_num [zonePages, pageSize, pageShift]
  have hend : memMapPages 16 = 73 := by rw [memMapPages_eq (by norm_num)]
  have htable : (bootedHeap 16).descriptor (zonePages 16) (fun _ => zeroPage) =
      bootTable (bootedHeap 16).busy (fun _ => zeroPage) (zonePages 16) := by
    apply Bootmem.descriptor_bootTable
    · intro l hl
      rw [Bootmem.busy_iff] at hl
      simp only [bootedHeap, hend] at hl
      omega
    · exact fun _ _ => rfl
  rw [reachedState, List.foldl_nil, bootState, ← htable]
  exact lowFrames_first horder (by omega) rfl

/-- A block of 8 of them. -/
theorem eight_pages_round_trip :
    let s := reachedState (bootedHeap 16).busy (fun _ => zeroPage)
      ([] : List (PageOp (zonePages 16)))
    ∃ s', allocPages 0 3 s = (some 1, s') ∧ RoundTrip (bootedMemMap 16) 3 1 s s' := by
  intro s
  have hfirst : (allocPages 0 3 s).1 = some 1 := bootedHeap_first (by decide)
  cases hcall : allocPages 0 3 s with
  | mk pg s' =>
      rw [hcall] at hfirst
      obtain rfl : pg = some 1 := hfirst
      exact ⟨s', rfl, alloc_free_round_trip 16 (bootedMemMap 16) (bootedHeap 16).busy
        (fun _ => zeroPage) [] 0 3 1 s' hcall⟩

/-! ## `__get_free_pages` -/

/-- `mem_map` lies in the boot heap, and all frames of the zone have linear addresses. -/
structure TableMapped (phyMemSize : Nat) (memMap : BitVec 64) : Prop where
  heap_start : pageOffset ≤ memMap.toNat
  heap_end : memMap.toNat < va (bootingMemorySize * 0x100000)
  zone : frameAddr (zonePages phyMemSize) ≤ 2 ^ 64

/-- `__get_free_pages` does what `alloc_pages` does and returns the linear address of
the block, or 0. -/
structure AddressAgrees (memMap : BitVec 64) (gfpMask order : Nat) (s : PageState) : Prop where
  state : (getFreePages memMap gfpMask order s).2 = (allocPages gfpMask order s).2
  null_iff : (getFreePages memMap gfpMask order s).1 = 0 ↔ (allocPages gfpMask order s).1 = none
  unchanged : (allocPages gfpMask order s).1 = none → (getFreePages memMap gfpMask order s).2 = s
  address : ∀ first, (allocPages gfpMask order s).1 = some first →
    (getFreePages memMap gfpMask order s).1 = BitVec.ofNat 64 (frameAddr first)

/-- A request with an order that `alloc_pages` accepts is for less than `free_pages`, and
a run of free descriptors that starts in the zone is long enough for it. -/
def Servable (order : Nat) (s : PageState) : Prop :=
  order ≤ maxPageOrder →
    2 ^ order < s.zone.freePages ∧ ∃ f < s.zone.pages, Window (IsFree s.memMap) f (2 ^ order)

section

variable {memMap : BitVec 64} {phyMemSize gfpMask order : Nat} {s : PageState}

theorem servable_iff : Servable order s ↔
    (order ≤ maxPageOrder → (allocPages gfpMask order s).1 ≠ none) := by
  rw [Servable]
  apply forall_congr'
  intro horder
  rcases allocPages_cases gfpMask order s with ⟨-, hfree, first, hfit, hcall⟩ | ⟨hcall, hno⟩
  · rw [hcall]
    exact iff_of_true ⟨hfree, first, hfit.below, hfit.window⟩ (Option.some_ne_none first)
  · rw [hcall]
    apply iff_of_false
    · rintro ⟨hfree, f, hf, hwindow⟩
      exact hno horder hfree f hf hwindow
    · exact fun h => h rfl

/-- Behind the check of the order, the result of the scan is converted whatever it is. -/
theorem getFreePages_of_le (horder : order ≤ maxPageOrder) :
    getFreePages memMap gfpMask order s =
      (pageToVirt64 memMap (pagePtr memMap (allocPages gfpMask order s).1),
        (allocPages gfpMask order s).2) := by
  rw [getFreePages, if_neg (Nat.not_lt.mpr horder), allocPages_of_le horder]

theorem addressAgrees_iff (hmap : TableMapped phyMemSize memMap)
    (hpages : s.zone.pages = zonePages phyMemSize) :
    AddressAgrees memMap gfpMask order s ↔ Servable order s := by
  rw [@servable_iff gfpMask]
  by_cases horder : order ≤ maxPageOrder
  · have hget := @getFreePages_of_le memMap gfpMask order s horder
    rcases allocPages_cases gfpMask order s with ⟨-, -, first, hfit, hcall⟩ | ⟨hcall, -⟩
    · have hfirst : first < zonePages phyMemSize := hpages ▸ hfit.below
      have hlt := zonePages_lt phyMemSize
      have haddr : (getFreePages memMap gfpMask order s).1 = BitVec.ofNat 64 (frameAddr first) := by
        rw [hget, hcall]
        exact pageToVirt64_pagePtr (by omega)
      have hne : (getFreePages memMap gfpMask order s).1 ≠ 0 := by
        have hzone := hmap.zone
        intro hzero
        have hword : (BitVec.ofNat 64 (frameAddr first)).toNat = 0 := by
          rw [← haddr, hzero]
          rfl
        rw [BitVec.toNat_ofNat] at hword
        simp only [frameAddr, va, pageOffset, pageSize, pageShift] at hzone hword
        omega
      refine iff_of_true ⟨?_, ?_, ?_, ?_⟩ ?_
      · rw [hget]
      · rw [hcall]
        exact iff_of_false hne (Option.some_ne_none first)
      · intro hnone
        rw [hcall] at hnone
        cases hnone
      · intro first' hsome
        rw [hcall] at hsome
        cases hsome
        exact haddr
      · rw [hcall]
        exact fun _ => Option.some_ne_none first
    · have hnull : (getFreePages memMap gfpMask order s).1 ≠ 0 := by
        rw [hget, hcall]
        exact pageToVirt64_null hmap.heap_start hmap.heap_end
      apply iff_of_false
      · intro h
        exact hnull (h.null_iff.mpr (by rw [hcall]))
      · intro h
        exact h horder (by rw [hcall])
  · have hget : getFreePages memMap gfpMask order s = (0, s) := by
      rw [getFreePages, if_pos (Nat.not_le.mp horder)]
    have hcall : allocPages gfpMask order s = (none, s) := by
      rw [allocPages, if_pos (Nat.not_le.mp horder)]
    apply iff_of_true
    · constructor <;> simp [hget, hcall]
    · exact fun h => absurd h horder

end

/-- In every reachable state and for every mask and order: `__get_free_pages` agrees with
`alloc_pages` exactly if the request can be served or its order is refused. -/
theorem getFreePages_agrees_iff (phyMemSize : Nat) (memMap : BitVec 64)
    (hmap : TableMapped phyMemSize memMap) (busy : Nat → Bool) (behind : Nat → Page)
    (ops : List (PageOp (zonePages phyMemSize))) (gfpMask order : Nat) :
    AddressAgrees memMap gfpMask order (reachedState busy behind ops) ↔
      Servable order (reachedState busy behind ops) := by
  obtain ⟨live, hinv⟩ := reachedState_inv busy behind ops
  exact addressAgrees_iff hmap hinv.zone

/-- What `setup_arch` leaves is such a table. -/
theorem bootedMemMap_mapped (hlo : 16 ≤ phyMemSize) (hhi : phyMemSize ≤ 512) :
    TableMapped phyMemSize (bootedMemMap phyMemSize) := by
  have haddr : (bootedMemMap phyMemSize).toNat = frameAddr (0x211 + phyMemSize / 2) := by
    rw [bootedMemMap, BitVec.toNat_ofNat]
    simp only [frameAddr, va, pageOffset, pageSize, pageShift]
    omega
  constructor
  · rw [haddr]
    simp only [frameAddr, va]
    omega
  · rw [haddr]
    simp only [frameAddr, va, pageOffset, pageSize, pageShift, bootingMemorySize]
    omega
  · simp only [frameAddr, va, pageOffset, zonePages, pageSize, pageShift]
    omega

/-- These 8 pages by their address. -/
theorem eight_pages_address :
    AddressAgrees (bootedMemMap 16) 0 3 (reachedState (bootedHeap 16).busy (fun _ => zeroPage)
      ([] : List (PageOp (zonePages 16)))) := by
  refine (getFreePages_agrees_iff 16 _ (bootedMemMap_mapped (by norm_num) (by norm_num))
    _ _ _ 0 3).mpr ?_
  rw [@servable_iff 0, bootedHeap_first (by decide)]
  exact fun _ => Option.some_ne_none 1

/-- With 32 MB, all pages but the last are taken one by one; the request for the last one
fails in the guard and returns the linear address of `NULL`. -/
theorem null_page_address :
    ¬ ∀ (phyMemSize : Nat) (memMap : BitVec 64) (_ : TableMapped phyMemSize memMap)
        (busy : Nat → Bool) (behind : Nat → Page) (ops : List (PageOp (zonePages phyMemSize)))
        (gfpMask order : Nat),
      AddressAgrees memMap gfpMask order (reachedState busy behind ops) := by
  intro h
  have hpages : zonePages 32 = 8192 := by norm_num [zonePages, pageSize, pageShift]
  obtain ⟨ops, t, hrun, hnone, -⟩ := @last_page_reached (bootedHeap 32).busy (zonePages 32)
    (fun _ => zeroPage) (by rw [Bootmem.busy_iff]; exact .inl rfl) 1 (by omega) (by decide)
  have hstate : reachedState (bootedHeap 32).busy (fun _ => zeroPage) ops = t.state := by
    rw [← hrun, reachedState, foldl_pageStep_state]
    rfl
  have hmap := @bootedMemMap_mapped 32 (by norm_num) (by norm_num)
  have hagrees := h 32 _ hmap (bootedHeap 32).busy (fun _ => zeroPage) ops 0 0
  rw [hstate] at hagrees
  have hzero := hagrees.null_iff.mpr hnone
  rw [getFreePages_of_le (Nat.zero_le _), hnone] at hzero
  exact pageToVirt64_null hmap.heap_start hmap.heap_end hzero

end Caos
