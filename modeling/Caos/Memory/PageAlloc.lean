import Caos.Lib.Window
import Caos.Memory.Page

/-!
`page_alloc.c`: allocation of blocks of `2^order` consecutive pages by a scan of
the descriptor table, and their release. Each operation has one lemma that says
everything a call can do; later modules use these and not the loops.
-/

namespace Caos

open Lib

/-- The inner loop of `__alloc_pages`: the value of `last` when it is left. -/
def scanRun (map : Nat → Page) (first : Nat) : Nat → Nat → Nat
  | last, 0 => last
  | last, rest + 1 =>
    if (map (first + last)).count > 0 then last else scanRun map first (last + 1) rest

/-- The outer loop of `__alloc_pages`. Each iteration raises `first`, so `pages`
iterations are enough. -/
def scanZone (map : Nat → Page) (pages count : Nat) : Nat → Nat → Option Nat
  | 0, _ => none
  | fuel + 1, first =>
    if first < pages then
      if (map first).count ≠ 0 then scanZone map pages count fuel (first + 1)
      else
        let last := scanRun map first 0 count
        if last = count then some first
        -- the inner loop added `last` to `first` when it met the busy page
        else scanZone map pages count fuel (first + last + 1)
    else none

/-- The stores `__alloc_pages` makes once it has found the block. -/
def takeBlock (gfpMask order first : Nat) (s : PageState) : PageState :=
  let map := forUpTo
    (fun last map => modifyAt map (first + last) ({ · with count := 1, flags := gfpMask }))
    (2 ^ order) s.memMap
  { memMap := modifyAt map first ({ · with priv := order })
    zone := { s.zone with freePages := s.zone.freePages - 2 ^ order } }

/-- `__alloc_pages`. There is one zone, so a scan without a result ends the
search for a zone. The result is the index of the first descriptor. -/
def allocPagesCore (gfpMask order : Nat) (s : PageState) : Option Nat × PageState :=
  if s.zone.freePages > 2 ^ order then
    match scanZone s.memMap s.zone.pages (2 ^ order) s.zone.pages 0 with
    | some first => (some first, takeBlock gfpMask order first s)
    | none => (none, s)
  else (none, s)

/-- `alloc_pages`. -/
def allocPages (gfpMask order : Nat) (s : PageState) : Option Nat × PageState :=
  if order > maxPageOrder then (none, s) else allocPagesCore gfpMask order s

/-- One iteration of the release loop: `page[i].count--` on a `size_t`, and one
more free page when the count reaches 0. -/
def releasePage (page i : Nat) (s : PageState) : PageState :=
  let count := sub64 (s.memMap (page + i)).count 1
  { memMap := modifyAt s.memMap (page + i) ({ · with count := count })
    zone :=
      if count = 0 then { s.zone with freePages := s.zone.freePages + 1 } else s.zone }

/-- `__free_pages`. The descriptor is given by its index, `none` is `NULL`. -/
def freePagesCore (page : Option Nat) (order : Nat) (s : PageState) : PageState :=
  match page with
  | none => s
  | some page =>
    if order > maxPageOrder then s
    else if (s.memMap page).count = 0 then s
    else if (s.memMap page).priv ≠ order then s
    else
      let s := forUpTo (releasePage page) (2 ^ order) s
      if (s.memMap page).count = 0 then
        { s with memMap := modifyAt s.memMap page ({ · with priv := minusOne }) }
      else s

/-- `free_pages`. -/
def freePages (addr order : Nat) (s : PageState) : PageState :=
  if order > maxPageOrder then s else freePagesCore (some (virtToPfn addr)) order s

section Scan

variable {map : Nat → Page} {pages count fuel first last rest f : Nat}

/-- The first fit: the least block of free descriptors that starts in the zone. -/
structure FirstFit (map : Nat → Page) (pages count first : Nat) : Prop where
  below : first < pages
  window : Window (IsFree map) first count
  least : NoWindowBefore (IsFree map) count first

/-- The inner loop stops at the end of the window or at its first busy page. -/
theorem scanRun_spec (hw : Window (IsFree map) first last) :
    Window (IsFree map) first (scanRun map first last rest) ∧
      (scanRun map first last rest = last + rest ∨
        scanRun map first last rest < last + rest ∧
          ¬ IsFree map (first + scanRun map first last rest)) := by
  induction rest generalizing last with
  | zero => exact ⟨hw, .inl rfl⟩
  | succ rest ih =>
      simp only [scanRun]
      split
      · next hbusy => exact ⟨hw, .inr ⟨by omega, Nat.pos_iff_ne_zero.mp hbusy⟩⟩
      · next hfree =>
          have hnext := ih (hw.succ (Nat.eq_zero_of_not_pos hfree))
          rwa [show last + 1 + rest = last + (rest + 1) by omega] at hnext

/-- The skip-ahead scan is first fit. `first` has been reached without passing
the start of a window. -/
theorem scanZone_spec (hcount : 0 < count) (hskip : NoWindowBefore (IsFree map) count first)
    (hfuel : pages ≤ first + fuel) :
    (∃ f, scanZone map pages count fuel first = some f ∧ FirstFit map pages count f) ∨
      (scanZone map pages count fuel first = none ∧
        NoWindowBefore (IsFree map) count pages) := by
  induction fuel generalizing first with
  | zero => exact .inr ⟨rfl, fun g hg => hskip g (by omega)⟩
  | succ fuel ih =>
      by_cases hfirst : first < pages
      · by_cases hbusy : (map first).count ≠ 0
        · have hskip' : NoWindowBefore (IsFree map) count (first + 1) :=
            hskip.skip hbusy (by omega)
          have hnext := ih hskip' (by omega)
          simpa [scanZone, hfirst, hbusy] using hnext
        · obtain ⟨hrun, hend⟩ :=
            @scanRun_spec map first 0 count (by intro j hj; omega)
          rw [Nat.zero_add] at hend
          by_cases hlast : scanRun map first 0 count = count
          · refine .inl ⟨first, ?_, hfirst, hlast ▸ hrun, hskip⟩
            simp [scanZone, hfirst, hbusy, hlast]
          · obtain ⟨hlt, hblocked⟩ := hend.resolve_left hlast
            have hskip' : NoWindowBefore (IsFree map) count
                (first + scanRun map first 0 count + 1) :=
              hskip.skip hblocked (by omega)
            have hnext := ih hskip' (by omega)
            simpa [scanZone, hfirst, hbusy, hlast] using hnext
      · exact .inr ⟨by simp [scanZone, hfirst], fun g hg => hskip g (by omega)⟩

theorem FirstFit.unique {g : Nat} (hf : FirstFit map pages count f)
    (hg : FirstFit map pages count g) : f = g := by
  rcases Nat.lt_trichotomy f g with hlt | heq | hlt
  · exact absurd hf.window (hg.least f hlt)
  · exact heq
  · exact absurd hg.window (hf.least g hlt)

end Scan

section Alloc

variable {s : PageState} {gfpMask order first page : Nat}

@[simp] theorem takeBlock_zone :
    (takeBlock gfpMask order first s).zone =
      { s.zone with freePages := s.zone.freePages - 2 ^ order } := rfl

/-- The descriptors after an allocation, one by one. -/
theorem takeBlock_memMap (i : Nat) :
    (takeBlock gfpMask order first s).memMap i =
      if i ∈ blockFrames first order then
        { s.memMap i with
          count := 1
          flags := gfpMask
          priv := if i = first then order else (s.memMap i).priv }
      else s.memMap i := by
  have hpos := Nat.two_pow_pos order
  have hloop := forUpTo_modifyAt first
    (fun _ (p : Page) => { p with count := 1, flags := gfpMask }) (2 ^ order) s.memMap
  simp only [takeBlock, mem_blockFrames]
  by_cases hi : i = first
  · subst hi
    rw [modifyAt_same, hloop]
    simp [hpos]
  · rw [modifyAt_of_ne _ hi, hloop]
    split_ifs <;> rfl

theorem takeBlock_count (i : Nat) :
    ((takeBlock gfpMask order first s).memMap i).count =
      if i ∈ blockFrames first order then 1 else (s.memMap i).count := by
  rw [takeBlock_memMap]
  split_ifs <;> rfl

theorem takeBlock_priv (i : Nat) :
    ((takeBlock gfpMask order first s).memMap i).priv =
      if i = first then order else (s.memMap i).priv := by
  rw [takeBlock_memMap]
  by_cases hi : i = first
  · subst hi
    simp
  · split_ifs <;> rfl

/-- What a call of `alloc_pages` can do: take the first fit, or fail and change
nothing. -/
theorem allocPages_cases (gfpMask order : Nat) (s : PageState) :
    (order ≤ maxPageOrder ∧ 2 ^ order < s.zone.freePages ∧
      ∃ first, FirstFit s.memMap s.zone.pages (2 ^ order) first ∧
        allocPages gfpMask order s = (some first, takeBlock gfpMask order first s)) ∨
    (allocPages gfpMask order s = (none, s) ∧
      (order ≤ maxPageOrder → 2 ^ order < s.zone.freePages →
        NoWindowBefore (IsFree s.memMap) (2 ^ order) s.zone.pages)) := by
  by_cases horder : order ≤ maxPageOrder
  · by_cases hfree : 2 ^ order < s.zone.freePages
    · have hscan := @scanZone_spec s.memMap s.zone.pages (2 ^ order) s.zone.pages 0
        (Nat.two_pow_pos order) (noWindowBefore_zero _ _) (by omega)
      rcases hscan with ⟨first, hfound, hfit⟩ | ⟨hnone, hno⟩
      · refine .inl ⟨horder, hfree, first, hfit, ?_⟩
        simp [allocPages, allocPagesCore, Nat.not_lt.mpr horder, hfree, hfound]
      · refine .inr ⟨?_, fun _ _ => hno⟩
        simp [allocPages, allocPagesCore, Nat.not_lt.mpr horder, hfree, hnone]
    · refine .inr ⟨?_, fun _ h => absurd h hfree⟩
      simp [allocPages, allocPagesCore, Nat.not_lt.mpr horder, hfree]
  · refine .inr ⟨?_, fun h => absurd h horder⟩
    simp [allocPages, Nat.not_le.mp horder]

end Alloc

section Free

variable {s : PageState} {order page : Nat}

/-- A block all of whose pages have count 1, as `__free_pages` leaves it. -/
def releasedBlock (page order : Nat) (s : PageState) : PageState where
  memMap i :=
    if i ∈ blockFrames page order then
      { s.memMap i with
        count := 0
        priv := if i = page then minusOne else (s.memMap i).priv }
    else s.memMap i
  zone := { s.zone with freePages := s.zone.freePages + 2 ^ order }

theorem releasedBlock_count (i : Nat) :
    ((releasedBlock page order s).memMap i).count =
      if i ∈ blockFrames page order then 0 else (s.memMap i).count := by
  simp only [releasedBlock]
  split_ifs <;> rfl

theorem releasedBlock_priv (i : Nat) :
    ((releasedBlock page order s).memMap i).priv =
      if i = page then minusOne else (s.memMap i).priv := by
  simp only [releasedBlock]
  by_cases hi : i = page
  · subst hi
    simp
  · split_ifs <;> rfl

theorem releasePage_of_one {i : Nat} (h : (s.memMap (page + i)).count = 1) :
    releasePage page i s =
      { memMap := modifyAt s.memMap (page + i) ({ · with count := 0 })
        zone := { s.zone with freePages := s.zone.freePages + 1 } } := by
  simp [releasePage, h, sub64]

/-- The release loop on a block whose counts are all 1. -/
theorem releaseLoop_of_ones {n : Nat} (h : ∀ j, j < n → (s.memMap (page + j)).count = 1) :
    forUpTo (releasePage page) n s =
      { memMap := forUpTo (fun i t => modifyAt t (page + i) ({ · with count := 0 })) n s.memMap
        zone := { s.zone with freePages := s.zone.freePages + n } } := by
  induction n with
  | zero => rfl
  | succ n ih =>
      have hprev := ih (fun j hj => h j (by omega))
      simp only [forUpTo]
      rw [hprev, releasePage_of_one]
      · simp [Nat.add_assoc]
      · simp only
        rw [forUpTo_modifyAt page (fun _ (p : Page) => { p with count := 0 }),
          if_neg (by omega)]
        exact h n (by omega)

/-- What a call of `__free_pages` with a descriptor can do: nothing, or pass its
three checks. -/
theorem freePagesCore_of_reject
    (h : ¬ (order ≤ maxPageOrder ∧ (s.memMap page).count ≠ 0 ∧ (s.memMap page).priv = order)) :
    freePagesCore (some page) order s = s := by
  simp only [freePagesCore]
  split
  · rfl
  · split
    · rfl
    · split
      · rfl
      · next hmax hcount hpriv =>
          exact absurd ⟨by omega, hcount, not_not.mp hpriv⟩ h

theorem freePagesCore_of_accept (horder : order ≤ maxPageOrder)
    (hpriv : (s.memMap page).priv = order)
    (hones : ∀ j, j < 2 ^ order → (s.memMap (page + j)).count = 1) :
    freePagesCore (some page) order s = releasedBlock page order s := by
  have hpos := Nat.two_pow_pos order
  have hcount : (s.memMap page).count = 1 := by simpa using hones 0 hpos
  have hloop := forUpTo_modifyAt page
    (fun _ (p : Page) => { p with count := 0 }) (2 ^ order) s.memMap
  simp only [freePagesCore, Nat.not_lt.mpr horder, hcount, hpriv, if_false, ne_eq,
    not_true_eq_false, one_ne_zero]
  rw [releaseLoop_of_ones hones]
  have hzero : (forUpTo (fun i t => modifyAt t (page + i) ({ · with count := 0 }))
      (2 ^ order) s.memMap page).count = 0 := by
    rw [hloop, if_pos (by omega)]
  simp only [hzero, if_true, releasedBlock, PageState.mk.injEq, and_true]
  funext i
  simp only [mem_blockFrames]
  by_cases hi : i = page
  · subst hi
    rw [modifyAt_same, hloop, if_pos (by omega), if_pos (by omega), if_pos rfl]
  · rw [modifyAt_of_ne _ hi, hloop]
    split_ifs <;> rfl

/-- The release loop changes the counts of its block and nothing else. -/
theorem releaseLoop_frame (page n i : Nat) (s : PageState) :
    (forUpTo (releasePage page) n s).memMap i =
        { s.memMap i with count := ((forUpTo (releasePage page) n s).memMap i).count } ∧
      (¬ (page ≤ i ∧ i < page + n) →
        (forUpTo (releasePage page) n s).memMap i = s.memMap i) := by
  induction n with
  | zero => exact ⟨rfl, fun _ => rfl⟩
  | succ n ih =>
      obtain ⟨hfields, hout⟩ := ih
      simp only [forUpTo, releasePage]
      by_cases hi : i = page + n
      · subst hi
        rw [modifyAt_same, hfields]
        exact ⟨rfl, fun h => absurd (by omega) h⟩
      · rw [modifyAt_of_ne _ hi]
        exact ⟨hfields, fun h => hout (by omega)⟩

/-- What `__free_pages` changes, whatever the counts are: counts of its block, and the
`private` field of its first page, which becomes -1. -/
theorem freePagesCore_frame (page order i : Nat) (s : PageState) :
    (freePagesCore (some page) order s).memMap i =
        { s.memMap i with
          count := ((freePagesCore (some page) order s).memMap i).count
          priv := ((freePagesCore (some page) order s).memMap i).priv } ∧
      (((freePagesCore (some page) order s).memMap i).priv = (s.memMap i).priv ∨
        ((freePagesCore (some page) order s).memMap i).priv = minusOne) ∧
      (i ∉ blockFrames page order →
        (freePagesCore (some page) order s).memMap i = s.memMap i) := by
  obtain ⟨hfields, hout⟩ := releaseLoop_frame page (2 ^ order) i s
  have hpos := Nat.two_pow_pos order
  rw [mem_blockFrames]
  unfold freePagesCore
  dsimp only
  split_ifs
  · exact ⟨rfl, .inl rfl, fun _ => rfl⟩
  · exact ⟨rfl, .inl rfl, fun _ => rfl⟩
  · exact ⟨rfl, .inl rfl, fun _ => rfl⟩
  · dsimp only
    by_cases hi : i = page
    · subst hi
      rw [modifyAt_same, hfields]
      exact ⟨rfl, .inr rfl, fun h => absurd (by omega) h⟩
    · rw [modifyAt_of_ne _ hi, hfields]
      exact ⟨rfl, .inl rfl, fun h => hfields.symm.trans (hout h)⟩
  · rw [hfields]
    exact ⟨rfl, .inl rfl, fun h => hfields.symm.trans (hout h)⟩

@[simp] theorem freePages_frameAddr (pfn order : Nat) (s : PageState) :
    freePages (frameAddr pfn) order s = freePagesCore (some pfn) order s := by
  simp only [freePages, virtToPfn_frameAddr, freePagesCore]
  split <;> rfl

end Free

end Caos
