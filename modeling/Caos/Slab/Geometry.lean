import Caos.Slab.CacheTable
import Caos.Slab.Exclusive

/-!
The geometry `kmem_cache_create` computes. The number of objects is an approximate
quotient, corrected once; the objects start behind a bufctl array of that
approximate length, rounded up with the mask of the alignment. The object size is
rounded to whole words only, so a slab may hold objects that miss the alignment.
-/

namespace Caos

/-- The slabs of a cache are sound: their pages can be had, the header and the bufctl
array end before the first object, the last object ends within the pages, and the
objects are aligned as the caller asked. -/
structure GeometrySound (c : KmemCache) (align : Nat) : Prop where
  order_le : c.gfporder ≤ maxPageOrder
  num_pos : 1 ≤ c.num
  bufctl_fits : sizeofSlab + c.num * sizeofBufctl ≤ c.colourOff
  objects_fit : c.colourOff + c.num * c.objsize ≤ 2 ^ c.gfporder * pageSize
  aligned : ∀ k, align = 2 ^ k → ∀ pfn i, i < c.num → align ∣ objAddr c (frameAddr pfn) i

section Request

variable (size : Nat)

/-- The bytes of a slab of objects of `size` bytes. -/
def slabBytes : Nat :=
  let pageNeed :=
    (sizeofSlab + size * slabDefaultNum + sizeofBufctl * slabDefaultNum) / pageSize
  2 ^ (if pageNeed = 0 then 1 else fls64 pageNeed) * pageSize

/-- The objects a slab would hold without a bufctl array. -/
def roughNum : Nat := (slabBytes size - sizeofSlab) / size

/-- The end of a bufctl array for so many objects. -/
def roughOffset : Nat := sizeofSlab + roughNum size * sizeofBufctl

/-- The bytes the two roundings of the object number leave between that end and
the objects. -/
def slack : Nat :=
  (slabBytes size - sizeofSlab) % size + (size - roughNum size * sizeofBufctl % size)

end Request

/-- What rounding `x` up with the mask of `align` adds, as long as the sum does not
wrap around. -/
def alignPad (x align : Nat) : Nat :=
  if BitVec.ofNat 64 x &&& alignMask align = 0 then 0
  else (alignMask align).toNat -
    ((BitVec.ofNat 64 x + alignMask align) &&& alignMask align).toNat

/-- The arguments for which the geometry comes out right. A power of two must divide
the object size. Any other alignment need not be met, but rounding up with its mask
must not wrap around or use more than the slack. -/
structure SoundRequest (size align : Nat) : Prop where
  pow_dvd : (∃ k, align = 2 ^ k) → align ∣ alignUp size bytesPerLong
  pad_le : (¬ ∃ k, align = 2 ^ k) →
    let objsize := alignUp size bytesPerLong
    let mask := alignUp align bytesPerLong
    (BitVec.ofNat 64 (roughOffset objsize) &&& alignMask mask = 0 ∨
      roughOffset objsize + (alignMask mask).toNat < 2 ^ 64) ∧
    alignPad (roughOffset objsize) mask ≤ slack objsize

section AlignUp

variable {x align : Nat}

/-- Without wrap-around, rounding up adds the pad. -/
theorem alignUp_eq_add_pad (hx : x < 2 ^ 64)
    (hwrap : BitVec.ofNat 64 x &&& alignMask align = 0 ∨ x + (alignMask align).toNat < 2 ^ 64) :
    alignUp x align = x + alignPad x align := by
  change (if BitVec.ofNat 64 x &&& alignMask align ≠ 0 then
    ((BitVec.ofNat 64 x + alignMask align) &&& ~~~alignMask align).toNat else x) = _
  rw [alignPad]
  rcases eq_or_ne (BitVec.ofNat 64 x &&& alignMask align) 0 with hzero | hne
  · rw [if_neg (not_not.mpr hzero), if_pos hzero, Nat.add_zero]
  · rw [if_pos hne, if_neg hne]
    have hsum : (BitVec.ofNat 64 x + alignMask align).toNat = x + (alignMask align).toNat := by
      have hlt := hwrap.resolve_left hne
      rw [BitVec.toNat_add, BitVec.toNat_ofNat]
      omega
    have hsplit := toNat_and_not_add (BitVec.ofNat 64 x + alignMask align) (alignMask align)
    have hkept : ((BitVec.ofNat 64 x + alignMask align) &&& alignMask align).toNat ≤
        (alignMask align).toNat := by
      rw [BitVec.toNat_and]
      exact Nat.and_le_right
    omega

/-- With wrap-around, rounding up leads below half of `x`. -/
theorem alignUp_wrap_lt (hx : x < 2 ^ 64) (hne : BitVec.ofNat 64 x &&& alignMask align ≠ 0)
    (hwrap : 2 ^ 64 ≤ x + (alignMask align).toNat) : 2 * alignUp x align < x := by
  change 2 * (if BitVec.ofNat 64 x &&& alignMask align ≠ 0 then
    ((BitVec.ofNat 64 x + alignMask align) &&& ~~~alignMask align).toNat else x) < x
  rw [if_pos hne]
  have hmask := (alignMask align).isLt
  have hsum : (BitVec.ofNat 64 x + alignMask align).toNat =
      x + (alignMask align).toNat - 2 ^ 64 := by
    rw [BitVec.toNat_add, BitVec.toNat_ofNat]
    omega
  -- both operands of the conjunction bound the result
  have hleft : ((BitVec.ofNat 64 x + alignMask align) &&& ~~~alignMask align).toNat ≤
      x + (alignMask align).toNat - 2 ^ 64 := by
    rw [BitVec.toNat_and, hsum]
    exact Nat.and_le_left
  have hright : ((BitVec.ofNat 64 x + alignMask align) &&& ~~~alignMask align).toNat ≤
      2 ^ 64 - 1 - (alignMask align).toNat := by
    rw [BitVec.toNat_and, BitVec.toNat_not]
    exact Nat.and_le_right
  omega

/-- Rounding up to a power of two gives the least multiple from `x` on. -/
theorem alignUp_pow_least {k : Nat} (hk : k < 64) (hx : x + 2 ^ k ≤ 2 ^ 64) :
    2 ^ k ∣ alignUp x (2 ^ k) ∧ x ≤ alignUp x (2 ^ k) ∧
      ∀ y, x ≤ y → 2 ^ k ∣ y → alignUp x (2 ^ k) ≤ y := by
  have hpos : 0 < 2 ^ k := Nat.two_pow_pos k
  rw [alignUp_pow hk hx]
  refine ⟨Nat.dvd_mul_left _ _, ?_, ?_⟩
  · have hdiv := Nat.div_add_mod' (x + (2 ^ k - 1)) (2 ^ k)
    have hmod := Nat.mod_lt (x + (2 ^ k - 1)) hpos
    omega
  · rintro y hxy ⟨q, rfl⟩
    rw [Nat.mul_comm (2 ^ k) q]
    apply Nat.mul_le_mul_right
    apply Nat.le_of_lt_succ
    rw [Nat.div_lt_iff_lt_mul hpos, Nat.succ_mul, Nat.mul_comm q]
    omega

/-- Rounded to whole words, a power of two is the alignment or a word. -/
theorem alignUp_pow_long {k : Nat} (hk : k < 64) :
    alignUp (2 ^ k) bytesPerLong = 2 ^ max k 3 := by
  have hpow : 2 ^ k ≤ 2 ^ 63 := Nat.pow_le_pow_right (by norm_num) (by omega)
  obtain ⟨hdvd, hle, hleast⟩ := @alignUp_pow_least (2 ^ k) 3 (by norm_num) (by omega)
  change 8 ∣ alignUp (2 ^ k) 8 at hdvd
  change 2 ^ k ≤ alignUp (2 ^ k) 8 at hle
  rcases Nat.le_total 3 k with hge | hle3
  · rw [Nat.max_eq_left hge]
    exact Nat.le_antisymm (hleast _ le_rfl (Nat.pow_dvd_pow 2 hge)) hle
  · rw [Nat.max_eq_right hle3]
    have hsmall : 2 ^ k ≤ 2 ^ 3 := Nat.pow_le_pow_right (by norm_num) hle3
    refine Nat.le_antisymm (hleast _ hsmall dvd_rfl) ?_
    have hpos : 0 < 2 ^ k := Nat.two_pow_pos k
    exact Nat.le_of_dvd (hpos.trans_le hle) hdvd

end AlignUp

section Numbers

variable {size : Nat}

theorem slabBytes_bounds (hmax : size ≤ kmallocMaxSize) :
    slabDefaultNum * size ≤ slabBytes size - sizeofSlab ∧
      slabBytes size ≤ 2 ^ maxPageOrder * pageSize := by
  obtain ⟨horder, hfits⟩ := pageOrder_bounds hmax rfl rfl
  exact ⟨hfits, Nat.mul_le_mul_right _ (Nat.pow_le_pow_right (by norm_num) horder)⟩

theorem roughNum_bounds (hmin : bytesPerLong ≤ size) (hmax : size ≤ kmallocMaxSize) :
    slabDefaultNum ≤ roughNum size ∧ roughNum size ≤ 2 ^ 14 := by
  obtain ⟨hfits, hbytes⟩ := slabBytes_bounds hmax
  have hpos : 0 < size := Nat.lt_of_lt_of_le (by norm_num [bytesPerLong]) hmin
  refine ⟨(Nat.le_div_iff_mul_le hpos).mpr hfits, ?_⟩
  calc roughNum size ≤ (slabBytes size - sizeofSlab) / bytesPerLong :=
        Nat.div_le_div_left hmin (by norm_num [bytesPerLong])
    _ ≤ 2 ^ 14 := by
        simp only [maxPageOrder, pageSize, pageShift, bytesPerLong, sizeofSlab] at *
        omega

/-- The number of objects after the correction. -/
def finalNum (size : Nat) : Nat :=
  sub64 (roughNum size) (roughNum size * sizeofBufctl / size + 1)

/-- The correction takes off at most a quarter and one. -/
theorem finalNum_eq (hmin : bytesPerLong ≤ size) (hmax : size ≤ kmallocMaxSize) :
    finalNum size + (roughNum size * sizeofBufctl / size + 1) = roughNum size ∧
      roughNum size ≤ 2 * finalNum size ∧ 2 ≤ finalNum size := by
  obtain ⟨hlo, hhi⟩ := roughNum_bounds hmin hmax
  have hquarter : roughNum size * sizeofBufctl / size ≤
      roughNum size * sizeofBufctl / bytesPerLong :=
    Nat.div_le_div_left hmin (by norm_num [bytesPerLong])
  unfold finalNum sub64
  generalize roughNum size * sizeofBufctl / size = bufctlNum at *
  simp only [slabDefaultNum, sizeofBufctl, bytesPerLong] at *
  omega

/-- The objects, the bufctl array of the approximate length and the slack fill the
slab. -/
theorem slabBytes_eq (hmin : bytesPerLong ≤ size) (hmax : size ≤ kmallocMaxSize) :
    slabBytes size = roughOffset size + slack size + finalNum size * size := by
  obtain ⟨hfits, _⟩ := slabBytes_bounds hmax
  obtain ⟨hnum, _, _⟩ := finalNum_eq hmin hmax
  have hpos : 0 < size := Nat.lt_of_lt_of_le (by norm_num [bytesPerLong]) hmin
  have hpages := Nat.div_add_mod' (slabBytes size - sizeofSlab) size
  have hbufctl := Nat.div_add_mod' (roughNum size * sizeofBufctl) size
  have hrest := Nat.mod_lt (roughNum size * sizeofBufctl) hpos
  have hprod := congrArg (· * size) hnum
  simp only [Nat.add_mul, Nat.one_mul] at hprod
  change roughNum size * size + _ = _ at hpages
  simp only [roughOffset, slack, slabDefaultNum, bytesPerLong] at *
  omega

theorem roughOffset_lt (hmin : bytesPerLong ≤ size) (hmax : size ≤ kmallocMaxSize) :
    roughOffset size ≤ 2 ^ 16 := by
  have hhi := (roughNum_bounds hmin hmax).2
  simp only [roughOffset, sizeofSlab, sizeofBufctl]
  omega

/-- A colour offset that does not wrap around leaves room for the bufctl array, and
for the objects as long as it stays within the slack; one that does wrap around ends
up inside the bufctl array. -/
theorem fits_iff {offset : Nat} (hmin : bytesPerLong ≤ size) (hmax : size ≤ kmallocMaxSize)
    (hoffset : roughOffset size ≤ offset ∨ 2 * offset < roughOffset size) :
    (sizeofSlab + finalNum size * sizeofBufctl ≤ offset ∧
        offset + finalNum size * size ≤ slabBytes size) ↔
      roughOffset size ≤ offset ∧ offset ≤ roughOffset size + slack size := by
  obtain ⟨hnum, hhalf, _⟩ := finalNum_eq hmin hmax
  have hbytes := slabBytes_eq hmin hmax
  have hrough : roughOffset size = sizeofSlab + roughNum size * sizeofBufctl := rfl
  generalize roughNum size * sizeofBufctl / size = bufctlNum at hnum
  simp only [sizeofSlab, sizeofBufctl] at *
  constructor
  · rintro ⟨hbufctl, hobjects⟩
    omega
  · rintro ⟨hlo, hhi⟩
    omega

/-- Rounding up stays within the slack when it does not wrap around and the pad fits. -/
theorem alignUp_slack_iff {align : Nat} (hmin : bytesPerLong ≤ size)
    (hmax : size ≤ kmallocMaxSize) :
    (roughOffset size ≤ alignUp (roughOffset size) align ∧
        alignUp (roughOffset size) align ≤ roughOffset size + slack size) ↔
      (BitVec.ofNat 64 (roughOffset size) &&& alignMask align = 0 ∨
          roughOffset size + (alignMask align).toNat < 2 ^ 64) ∧
        alignPad (roughOffset size) align ≤ slack size := by
  have hx : roughOffset size < 2 ^ 64 :=
    (roughOffset_lt hmin hmax).trans_lt (by norm_num)
  constructor
  · rintro ⟨hlo, hhi⟩
    have hwrap : BitVec.ofNat 64 (roughOffset size) &&& alignMask align = 0 ∨
        roughOffset size + (alignMask align).toNat < 2 ^ 64 := by
      by_contra hnot
      rw [not_or] at hnot
      have hlt := alignUp_wrap_lt hx hnot.1 (by omega)
      omega
    rw [alignUp_eq_add_pad hx hwrap] at hhi
    exact ⟨hwrap, by omega⟩
  · rintro ⟨hwrap, hpad⟩
    rw [alignUp_eq_add_pad hx hwrap]
    omega

/-- Rounding up never ends between half of the offset and the offset. -/
theorem alignUp_dichotomy {align : Nat} (hmin : bytesPerLong ≤ size)
    (hmax : size ≤ kmallocMaxSize) :
    roughOffset size ≤ alignUp (roughOffset size) align ∨
      2 * alignUp (roughOffset size) align < roughOffset size := by
  have hx : roughOffset size < 2 ^ 64 :=
    (roughOffset_lt hmin hmax).trans_lt (by norm_num)
  rcases Decidable.em (BitVec.ofNat 64 (roughOffset size) &&& alignMask align = 0 ∨
    roughOffset size + (alignMask align).toNat < 2 ^ 64) with hwrap | hwrap
  · rw [alignUp_eq_add_pad hx hwrap]
    exact .inl (Nat.le_add_right _ _)
  · rw [not_or] at hwrap
    exact .inr (alignUp_wrap_lt hx hwrap.1 (by omega))

/-- A power of two that divides the object size rounds up within the slack: the
objects could also be laid down from the end of the slab. -/
theorem alignUp_pow_slack {k : Nat} (hmin : bytesPerLong ≤ size) (hmax : size ≤ kmallocMaxSize)
    (hdvd : 2 ^ k ∣ size) :
    2 ^ k ∣ alignUp (roughOffset size) (2 ^ k) ∧
      roughOffset size ≤ alignUp (roughOffset size) (2 ^ k) ∧
      alignUp (roughOffset size) (2 ^ k) ≤ roughOffset size + slack size := by
  have hpos : 0 < size := Nat.lt_of_lt_of_le (by norm_num [bytesPerLong]) hmin
  have hpow : 2 ^ k ≤ 2 ^ 11 := (Nat.le_of_dvd hpos hdvd).trans hmax
  have hk : k ≤ 11 := (Nat.pow_le_pow_iff_right (by norm_num)).mp hpow
  have hx := roughOffset_lt hmin hmax
  obtain ⟨hmul, hge, hleast⟩ := @alignUp_pow_least (roughOffset size) k (by omega) (by omega)
  refine ⟨hmul, hge, hleast _ (Nat.le_add_right _ _) ?_⟩
  have hbytes := slabBytes_eq hmin hmax
  have hslab : 2 ^ k ∣ slabBytes size := by
    refine Nat.dvd_trans (Nat.pow_dvd_pow 2 ?_) (Nat.dvd_mul_left pageSize _)
    rw [pageShift]
    omega
  rw [hbytes] at hslab
  exact (Nat.dvd_add_left (Nat.dvd_mul_left_of_dvd hdvd _)).mp hslab

end Numbers

section Descriptor

variable {spec : CacheSpec} {k : Nat}

/-- Neighbouring objects are aligned only if the alignment divides their size. -/
theorem dvd_objsize_of_aligned {c : KmemCache} {align : Nat} (hnum : 2 ≤ c.num)
    (h : ∀ pfn i, i < c.num → align ∣ objAddr c (frameAddr pfn) i) : align ∣ c.objsize := by
  have hfirst := h 0 0 (by omega)
  have hsecond := h 0 1 (by omega)
  simp only [objAddr, Nat.zero_mul, Nat.add_zero, Nat.one_mul] at hfirst hsecond
  exact (Nat.dvd_add_right hfirst).mp hsecond

/-- A slab starts at a page, so an alignment up to a page that divides the offset and
the size is met by every object. -/
theorem aligned_of_dvd {c : KmemCache} (hk : k ≤ pageShift) (hoffset : 2 ^ k ∣ c.colourOff)
    (hsize : 2 ^ k ∣ c.objsize) (pfn i : Nat) : 2 ^ k ∣ objAddr c (frameAddr pfn) i := by
  have hpage : 2 ^ k ∣ pageSize := Nat.pow_dvd_pow 2 hk
  have hbase : 2 ^ k ∣ pageOffset := hpage.trans ⟨pageOffset / pageSize, by decide⟩
  have hframe : 2 ^ k ∣ frameAddr pfn :=
    Nat.dvd_add (hpage.trans (Nat.dvd_mul_left _ _)) hbase
  exact Nat.dvd_add (Nat.dvd_add hframe hoffset) (Nat.dvd_mul_left_of_dvd hsize _)

/-- Any power of two that divides the object size gives a sound slab. -/
theorem CacheSpec.geometry_of_dvd (hlo : bytesPerLong ≤ spec.size)
    (hhi : spec.size ≤ kmallocMaxSize) (halign : spec.align = 2 ^ k) (hk : k < 64)
    (hdvd : 2 ^ k ∣ spec.objsize) :
    2 ^ k ∣ spec.descriptor.colourOff ∧ roughOffset spec.objsize ≤ spec.descriptor.colourOff ∧
      spec.descriptor.colourOff ≤ roughOffset spec.objsize + slack spec.objsize := by
  obtain ⟨hmin, hmax⟩ := spec.objsize_bounds hlo hhi
  have hword : 2 ^ 3 ∣ spec.objsize := by
    rw [CacheSpec.objsize, alignUp_long hhi]
    exact Nat.dvd_mul_left _ _
  have hround : 2 ^ max k 3 ∣ spec.objsize := by
    rcases Nat.le_total 3 k with hle | hle
    · rwa [Nat.max_eq_left hle]
    · rwa [Nat.max_eq_right hle]
  have hoffset : spec.descriptor.colourOff = alignUp (roughOffset spec.objsize) (2 ^ max k 3) := by
    rw [← alignUp_pow_long hk, ← halign]
    rfl
  obtain ⟨hmul, hge, hle⟩ := alignUp_pow_slack hmin hmax hround
  rw [hoffset]
  exact ⟨Nat.dvd_trans (Nat.pow_dvd_pow 2 (Nat.le_max_left _ _)) hmul, hge, hle⟩

/-- The geometry of a descriptor is sound exactly for a sound request. -/
theorem CacheSpec.geometrySound_iff (hlo : bytesPerLong ≤ spec.size)
    (hhi : spec.size ≤ kmallocMaxSize) (halign : spec.align < 2 ^ 64) :
    GeometrySound spec.descriptor spec.align ↔ SoundRequest spec.size spec.align := by
  obtain ⟨hmin, hmax⟩ := spec.objsize_bounds hlo hhi
  obtain ⟨hpos, horder⟩ := spec.descriptor_bounds hlo hhi
  have hnum : 2 ≤ spec.descriptor.num := (finalNum_eq hmin hmax).2.2
  have hfits := fits_iff hmin hmax
    (@alignUp_dichotomy _ (alignUp spec.align bytesPerLong) hmin hmax)
  constructor
  · intro h
    constructor
    · rintro ⟨k, hk⟩
      exact dvd_objsize_of_aligned hnum (h.aligned k hk)
    · intro _
      exact (alignUp_slack_iff hmin hmax).mp (hfits.mp ⟨h.bufctl_fits, h.objects_fit⟩)
  · intro h
    rcases Classical.em (∃ k, spec.align = 2 ^ k) with ⟨k, hk⟩ | hother
    · have hdvd : 2 ^ k ∣ spec.objsize := hk ▸ h.pow_dvd ⟨k, hk⟩
      have hlt : k < 64 := (Nat.pow_lt_pow_iff_right (by norm_num)).mp (hk ▸ halign)
      have hpage : k ≤ pageShift := by
        have hpow := (Nat.le_of_dvd (Nat.lt_of_lt_of_le (by norm_num [bytesPerLong]) hmin)
          hdvd).trans (hmax.trans (show kmallocMaxSize ≤ 2 ^ pageShift by
            norm_num [kmallocMaxSize, pageShift]))
        exact (Nat.pow_le_pow_iff_right (by norm_num)).mp hpow
      obtain ⟨hmul, hslack⟩ := CacheSpec.geometry_of_dvd hlo hhi hk hlt hdvd
      obtain ⟨hbufctl, hobjects⟩ := hfits.mpr hslack
      refine ⟨horder, hpos, hbufctl, hobjects, ?_⟩
      intro _ _ pfn i _
      rw [hk]
      exact aligned_of_dvd hpage hmul hdvd pfn i
    · obtain ⟨hbufctl, hobjects⟩ :=
        hfits.mpr ((alignUp_slack_iff hmin hmax).mpr (h.pad_le hother))
      exact ⟨horder, hpos, hbufctl, hobjects, fun k hk => absurd ⟨k, hk⟩ hother⟩

/-- The heap may rely on the descriptor of a sound request. -/
theorem CacheSpec.geometry_of_sound (hlo : bytesPerLong ≤ spec.size)
    (hhi : spec.size ≤ kmallocMaxSize) (halign : spec.align < 2 ^ 64)
    (hsound : SoundRequest spec.size spec.align) : Geometry spec.descriptor := by
  have h := (CacheSpec.geometrySound_iff hlo hhi halign).mpr hsound
  obtain ⟨hmin, hmax⟩ := spec.objsize_bounds hlo hhi
  have hnum : spec.descriptor.num ≤ roughNum spec.objsize :=
    Nat.le.intro (finalNum_eq hmin hmax).1
  have hrough := (roughNum_bounds hmin hmax).2
  have hbufctl := h.bufctl_fits
  refine ⟨h.num_pos, ?_, ?_, hmax, h.order_le, ?_, h.objects_fit⟩
  · rw [bufctlEnd]
    omega
  · exact Nat.lt_of_lt_of_le (by norm_num [bytesPerLong]) hmin
  · rwa [Nat.mul_comm sizeofBufctl]

end Descriptor

/-- A cache `kmem_cache_create` returns has sound slabs exactly for a sound request. -/
theorem kmemCacheCreate_geometry_iff {name : Option String} {size flags i : Nat}
    {align : BitVec 64} {table table' : Nat → KmemCache}
    (h : CacheTable.kmemCacheCreate name size align.toNat flags table = (some i, table')) :
    GeometrySound (table' i) align.toNat ↔ SoundRequest size align.toNat := by
  obtain ⟨hlo, hhi, n, _, hentry⟩ := CacheTable.kmemCacheCreate_some h
  rw [hentry]
  exact @CacheSpec.geometrySound_iff ⟨n, size, align.toNat, flags⟩ hlo hhi align.isLt

/-- Objects of 48 bytes may be aligned to 16. -/
theorem three_pairs_sound :
    ∃ table', CacheTable.kmemCacheCreate (some "48bytes") 48 16 0 (fun _ => KmemCache.zeroed) =
        (some 0, table') ∧ GeometrySound (table' 0) 16 := by
  refine ⟨_, rfl, ?_⟩
  refine (@kmemCacheCreate_geometry_iff (some "48bytes") 48 0 0 16#64
    (fun _ => KmemCache.zeroed) _ rfl).mpr ⟨?_, ?_⟩
  · intro _
    decide
  · intro hnot
    exact absurd ⟨4, rfl⟩ hnot

/-- After `kmem_cache_init`, a cache of 24-byte objects that asks for an alignment of
16 is created, and every other object of it misses the alignment. -/
theorem odd_words_misaligned :
    ∃ table table', CacheTable.kmemCacheInit (fun _ => KmemCache.zeroed) = some table ∧
      CacheTable.kmemCacheCreate (some "24bytes") 24 16 0 table = (some 8, table') ∧
      ¬ GeometrySound (table' 8) 16 := by
  obtain ⟨table, hinit, hholds⟩ := CacheTable.kmemCacheInit_holds fun _ => KmemCache.zeroed
  have hok : CacheTable.Accepted defaultSpecs ⟨"24bytes", 24, 16, 0⟩ :=
    CacheTable.accepted_of_creatable (by decide +kernel) (by decide +kernel)
  rcases hholds.create_cases ⟨"24bytes", 24, 16, 0⟩ with ⟨_, hcreate⟩ | ⟨hnot, _⟩
  · refine ⟨table, _, hinit, hcreate, ?_⟩
    rw [show 8 = defaultSpecs.length from rfl, Function.update_self]
    intro hsound
    have hdvd := dvd_objsize_of_aligned (by decide +kernel) (hsound.aligned 4 rfl)
    revert hdvd
    decide +kernel
  · exact absurd hok hnot

end Caos
