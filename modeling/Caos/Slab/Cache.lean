import Caos.Lib.CountedLoop
import Caos.Bitops
import Caos.Types

/-!
Cache descriptors of `slab.c` and the table `cache_cache` that holds them. A
descriptor fixes the geometry of the slabs of its cache: how many pages a slab
has, where the objects start and how many there are.
-/

namespace Caos

open Lib

/-- `sizeof(struct slab)`: eight words. -/
def sizeofSlab : Nat := 64

/-- `sizeof(struct kmem_cache)`: eight words. -/
def sizeofKmemCache : Nat := 64

/-- `sizeof(kmem_bufctl_t)`. -/
def sizeofBufctl : Nat := 2

/-- `SLAB_DEFAULT_NUM`. -/
def slabDefaultNum : Nat := 10

/-- `CACHE_CACHE_PAGE`. -/
def cacheCachePage : Nat := 1

/-- `KMALLOC_RETRY_MAX`. -/
def kmallocRetryMax : Nat := 3

/-- `BUFCTL_END`. -/
def bufctlEnd : Nat := 0xFFFF

/-- `KMALLOC_SMALL_SIZE`. -/
def kmallocSmallSize : Nat := 16

/-- `KMALLOC_MAX_SIZE`. -/
def kmallocMaxSize : Nat := 2048

/-- `X86_64_CACHE_ALIGN`. -/
def cacheAlign : Nat := 16

/-- `cache_cache_max`, as `kmem_cache_init` computes it. -/
def cacheCacheMax : Nat := 2 ^ cacheCachePage * pageSize / sizeofKmemCache

/-- Rounding up as `kmem_cache_create` does it three times, on 64-bit words:
`if ((x & (align-1)) != 0) { x += align-1; x &= ~(align-1); }`. -/
def alignUp (x align : Nat) : Nat :=
  let word := BitVec.ofNat 64 x
  let mask := BitVec.ofNat 64 align - 1
  if word &&& mask ≠ 0 then ((word + mask) &&& ~~~mask).toNat else x

/-- `struct kmem_cache`. The list `slabs` holds the addresses of the slabs from
the head on; `none` is the list head of a descriptor that is still filled with
zeros, whose pointers are `NULL`. -/
structure KmemCache where
  objsize : Nat
  flag : Nat
  num : Nat
  gfporder : Nat
  slabs : Option (List Nat)
  colourOff : Nat
  name : Option String
  deriving DecidableEq, Repr

/-- A descriptor as `caos_memset` leaves it. -/
def KmemCache.zeroed : KmemCache := ⟨0, 0, 0, 0, none, 0, none⟩

/-- The arguments of a call of `kmem_cache_create` with a name. -/
structure CacheSpec where
  name : String
  size : Nat
  align : Nat
  flags : Nat
  deriving DecidableEq, Repr

/-- The object size a call ends up with. -/
def CacheSpec.objsize (spec : CacheSpec) : Nat := alignUp spec.size bytesPerLong

/-- The descriptor `kmem_cache_create` fills in, from the rounding of the size
to the colour offset. -/
def CacheSpec.descriptor (spec : CacheSpec) : KmemCache :=
  let size := alignUp spec.size bytesPerLong
  let align := alignUp spec.align bytesPerLong
  let pageNeed :=
    (sizeofSlab + size * slabDefaultNum + sizeofBufctl * slabDefaultNum) / pageSize
  let pageOrder := if pageNeed = 0 then 1 else fls64 pageNeed
  let objNum := (2 ^ pageOrder * pageSize - sizeofSlab) / size
  let bufctlSize := objNum * sizeofBufctl
  { objsize := size
    flag := spec.flags
    num := sub64 objNum (bufctlSize / size + 1)
    gfporder := pageOrder
    slabs := some []
    colourOff := alignUp (sizeofSlab + bufctlSize) align
    name := some spec.name }

/-- The search of `kmem_cache_create` for the first unused descriptor. `none`
is the return on a duplicate name. -/
def findUnused (table : Nat → KmemCache) (name : String) : Nat → Nat → Option Nat
  | 0, cacheIndex => some cacheIndex
  | fuel + 1, cacheIndex =>
    match (table cacheIndex).name with
    | none => some cacheIndex
    | some other =>
      if cacheIndex < cacheCacheMax then
        if other = name then none else findUnused table name fuel (cacheIndex + 1)
      else some cacheIndex

/-- The same search with the comparison left open. -/
def searchTable (table : Nat → KmemCache) (same : String → Prop) [DecidablePred same] :
    Nat → Nat → Option Nat
  | 0, cacheIndex => some cacheIndex
  | fuel + 1, cacheIndex =>
    match (table cacheIndex).name with
    | none => some cacheIndex
    | some other =>
      if cacheIndex < cacheCacheMax then
        if same other then none else searchTable table same fuel (cacheIndex + 1)
      else some cacheIndex

theorem findUnused_eq (table : Nat → KmemCache) (name : String) (fuel i : Nat) :
    findUnused table name fuel i = searchTable table (· = name) fuel i := by
  induction fuel generalizing i with
  | zero => rfl
  | succ fuel ih =>
      rw [findUnused, searchTable]
      simp only [ih]

/-- The descriptors in front have the names of `specs`, and those behind them none. -/
structure UsedBy (specs : List CacheSpec) (table : Nat → KmemCache) : Prop where
  used : ∀ i spec, specs[i]? = some spec → (table i).name = some spec.name
  unused : ∀ i, specs.length ≤ i → i < cacheCacheMax → (table i).name = none

/-- The search ends behind the last cache unless it meets a name that compares equal. It
may read the descriptor behind a full table, whatever that is. -/
theorem UsedBy.searchTable {specs : List CacheSpec} {table : Nat → KmemCache}
    {same : String → Prop} [DecidablePred same] {fuel i : Nat} (h : UsedBy specs table)
    (hmax : specs.length ≤ cacheCacheMax) (hi : i ≤ specs.length)
    (hfuel : cacheCacheMax ≤ i + fuel) :
    searchTable table same fuel i =
      if ∃ spec ∈ specs.drop i, same spec.name then none else some specs.length := by
  induction fuel generalizing i with
  | zero =>
      have hend : i = specs.length := by omega
      simp [Caos.searchTable, hend]
  | succ fuel ih =>
      rw [Caos.searchTable]
      rcases Nat.lt_or_ge i specs.length with hlt | hge
      · have hname := h.used i _ (List.getElem?_eq_getElem hlt)
        have hbelow : i < cacheCacheMax := by omega
        rw [List.drop_eq_getElem_cons hlt]
        simp only [hname, hbelow, if_true, List.exists_mem_cons_iff]
        split
        · next hsame => simp [hsame]
        · next hother =>
            rw [ih (by omega) (by omega)]
            simp [hother]
      · have hend : i = specs.length := by omega
        rw [List.drop_of_length_le hge]
        split
        · simp [hend]
        · next hname =>
            have hfull : ¬ i < cacheCacheMax := by
              intro hbelow
              rw [h.unused i hge hbelow] at hname
              cases hname
            rw [hend] at hfull
            simp [hend, hfull]

/-- `kmem_cache_create` on the table. The result is the index of the new
descriptor. -/
def kmemCacheCreate (name : Option String) (size align flags : Nat)
    (table : Nat → KmemCache) : Option (Nat × (Nat → KmemCache)) :=
  match name with
  | none => none
  | some name =>
    if size < bytesPerLong ∨ size > kmallocMaxSize then none
    else
      match findUnused table name cacheCacheMax 0 with
      | none => none
      | some cacheIndex =>
        if cacheIndex ≥ cacheCacheMax then none
        else
          let cachep := CacheSpec.descriptor ⟨name, size, align, flags⟩
          some (cacheIndex, Function.update table cacheIndex cachep)

/-- The table holds exactly the caches of `specs`, in this order, behind them
descriptors filled with zeros. Their slab lists are arbitrary. An access to a
descriptor behind `cache_cache_max` meets such a descriptor too. -/
structure IsTable (specs : List CacheSpec) (table : Nat → KmemCache) : Prop where
  created : ∀ i spec, specs[i]? = some spec →
    ∃ slabs, table i = { spec.descriptor with slabs := some slabs }
  unused : ∀ i, specs.length ≤ i → table i = KmemCache.zeroed

/-- Replace the slab list of the cache `cachep`. -/
def updateSlabs (table : Nat → KmemCache) (cachep : Nat) (f : List Nat → List Nat) :
    Nat → KmemCache :=
  modifyAt table cachep fun c => { c with slabs := c.slabs.map f }

section UpdateSlabs

variable (table : Nat → KmemCache) (cachep : Nat) (f : List Nat → List Nat) (i : Nat)

theorem updateSlabs_eq :
    updateSlabs table cachep f i =
      { table i with slabs := if i = cachep then (table i).slabs.map f else (table i).slabs } := by
  rcases eq_or_ne i cachep with rfl | hne
  · simp [updateSlabs]
  · simp [updateSlabs, modifyAt_of_ne _ hne, hne]

@[simp] theorem updateSlabs_objsize :
    (updateSlabs table cachep f i).objsize = (table i).objsize := by
  rw [updateSlabs_eq]

@[simp] theorem updateSlabs_num : (updateSlabs table cachep f i).num = (table i).num := by
  rw [updateSlabs_eq]

@[simp] theorem updateSlabs_gfporder :
    (updateSlabs table cachep f i).gfporder = (table i).gfporder := by
  rw [updateSlabs_eq]

@[simp] theorem updateSlabs_colourOff :
    (updateSlabs table cachep f i).colourOff = (table i).colourOff := by
  rw [updateSlabs_eq]

end UpdateSlabs

section Create

variable {specs : List CacheSpec} {table : Nat → KmemCache} {spec : CacheSpec} {i : Nat}

/-- The descriptors in front are those of `specs`, but for their slab lists. -/
def Stored (specs : List CacheSpec) (table : Nat → KmemCache) : Prop :=
  ∀ i spec, specs[i]? = some spec →
    ∃ slabs, table i = { spec.descriptor with slabs := some slabs }

theorem Stored.updateSlabs (h : Stored specs table) (cachep : Nat) (f : List Nat → List Nat) :
    Stored specs (updateSlabs table cachep f) := by
  intro i spec hi
  obtain ⟨slabs, heq⟩ := h i spec hi
  rw [updateSlabs_eq, heq]
  split
  · exact ⟨f slabs, rfl⟩
  · exact ⟨slabs, rfl⟩

/-- A new descriptor behind the others. -/
theorem Stored.update (h : Stored specs table) (spec : CacheSpec) :
    Stored (specs ++ [spec]) (Function.update table specs.length spec.descriptor) := by
  intro i other hi
  rcases Nat.lt_trichotomy i specs.length with hlt | rfl | hgt
  · rw [List.getElem?_append_left hlt] at hi
    rw [Function.update_of_ne (by omega)]
    exact h i other hi
  · rw [List.getElem?_concat_length] at hi
    obtain rfl := Option.some.inj hi
    exact ⟨[], by rw [Function.update_self]; rfl⟩
  · rw [List.getElem?_eq_none (by simp; omega)] at hi
    cases hi

theorem Stored.name_eq (h : Stored specs table) (hi : specs[i]? = some spec) :
    (table i).name = some spec.name := by
  obtain ⟨slabs, heq⟩ := h i spec hi
  rw [heq]
  rfl

theorem IsTable.zeroed : IsTable [] (fun _ => KmemCache.zeroed) := by
  constructor
  · intro i spec h
    simp at h
  · intro i _
    rfl

theorem IsTable.name_eq (h : IsTable specs table) (hi : specs[i]? = some spec) :
    (table i).name = some spec.name := Stored.name_eq h.created hi

theorem IsTable.name_isSome (h : IsTable specs table) (i : Nat) :
    (table i).name.isSome ↔ i < specs.length := by
  constructor
  · intro hname
    by_contra hge
    rw [h.unused i (by omega)] at hname
    cases hname
  · intro hi
    rw [h.name_eq (List.getElem?_eq_getElem hi)]
    rfl

/-- A change of a slab list keeps the table. -/
theorem IsTable.updateSlabs (h : IsTable specs table) (i : Nat) (f : List Nat → List Nat) :
    IsTable specs (updateSlabs table i f) := by
  constructor
  · intro j spec hj
    obtain ⟨slabs, heq⟩ := h.created j spec hj
    rcases eq_or_ne j i with rfl | hne
    · refine ⟨f slabs, ?_⟩
      rw [Caos.updateSlabs, modifyAt_same, heq]
      rfl
    · exact ⟨slabs, by rw [Caos.updateSlabs, modifyAt_of_ne _ hne, heq]⟩
  · intro j hj
    rcases eq_or_ne j i with rfl | hne
    · rw [Caos.updateSlabs, modifyAt_same, h.unused j hj]
      rfl
    · rw [Caos.updateSlabs, modifyAt_of_ne _ hne, h.unused j hj]

/-- The search ends behind the last cache unless it meets the name. -/
theorem findUnused_spec (h : IsTable specs table) (hmax : specs.length ≤ cacheCacheMax)
    (name : String) :
    findUnused table name cacheCacheMax 0 =
      if ∃ spec ∈ specs, spec.name = name then none else some specs.length := by
  have hused : UsedBy specs table := by
    refine ⟨fun i spec hi => h.name_eq hi, fun i hi _ => ?_⟩
    rw [h.unused i hi]
    rfl
  rw [findUnused_eq, hused.searchTable hmax (Nat.zero_le _) (Nat.le_add_left _ _), List.drop_zero]

/-- The conditions under which `kmem_cache_create` makes a new cache. -/
structure Creatable (specs : List CacheSpec) (spec : CacheSpec) : Prop where
  size_ge : bytesPerLong ≤ spec.size
  size_le : spec.size ≤ kmallocMaxSize
  fresh : ∀ other ∈ specs, other.name ≠ spec.name
  room : specs.length < cacheCacheMax

/-- A call of `kmem_cache_create` fills in the first unused descriptor, or fails. -/
theorem kmemCacheCreate_cases (h : IsTable specs table) (hmax : specs.length ≤ cacheCacheMax)
    (spec : CacheSpec) :
    (Creatable specs spec ∧
      kmemCacheCreate (some spec.name) spec.size spec.align spec.flags table =
        some (specs.length, Function.update table specs.length spec.descriptor)) ∨
    (¬ Creatable specs spec ∧
      kmemCacheCreate (some spec.name) spec.size spec.align spec.flags table = none) := by
  have hfind := findUnused_spec h hmax spec.name
  rcases Decidable.em (spec.size < bytesPerLong ∨ spec.size > kmallocMaxSize) with hsize | hsize
  · refine .inr ⟨fun hc => ?_, by simp [kmemCacheCreate, hsize]⟩
    have := hc.size_ge
    have := hc.size_le
    omega
  rcases Decidable.em (∃ other ∈ specs, other.name = spec.name) with hdup | hdup
  · refine .inr ⟨fun hc => ?_, ?_⟩
    · obtain ⟨other, hmem, heq⟩ := hdup
      exact hc.fresh other hmem heq
    · simp only [kmemCacheCreate, hsize, if_false, hfind, hdup, if_true]
  rcases Nat.lt_or_ge specs.length cacheCacheMax with hroom | hroom
  · refine .inl ⟨⟨by omega, by omega, ?_, hroom⟩, ?_⟩
    · intro other hmem heq
      exact hdup ⟨other, hmem, heq⟩
    · have hnot : ¬ specs.length ≥ cacheCacheMax := by omega
      simp only [kmemCacheCreate, hsize, if_false, hfind, hdup, hnot]
  · refine .inr ⟨fun hc => ?_, ?_⟩
    · have := hc.room
      omega
    · simp only [kmemCacheCreate, hsize, if_false, hfind, hdup, hroom, if_true]

theorem IsTable.update (h : IsTable specs table) (spec : CacheSpec) :
    IsTable (specs ++ [spec]) (Function.update table specs.length spec.descriptor) := by
  constructor
  · intro i other hi
    rcases Nat.lt_trichotomy i specs.length with hlt | rfl | hgt
    · rw [List.getElem?_append_left hlt] at hi
      rw [Function.update_of_ne (by omega)]
      exact h.created i other hi
    · rw [List.getElem?_concat_length] at hi
      obtain rfl := Option.some.inj hi
      exact ⟨[], by rw [Function.update_self]; rfl⟩
    · rw [List.getElem?_eq_none (by simp; omega)] at hi
      cases hi
  · intro i hi
    rw [List.length_append, List.length_singleton] at hi
    rw [Function.update_of_ne (by omega)]
    exact h.unused i (by omega)

end Create

/-- `cache_names`. -/
def cacheNames : List String :=
  ["16bytes", "32bytes", "64bytes", "128bytes", "256bytes", "512bytes", "1024bytes", "2048bytes"]

/-- The loop of `kmem_cache_init` over the names. `none` is `halt()`. -/
def createDefaults : List String → Nat → (Nat → KmemCache) → Option (Nat → KmemCache)
  | [], _, table => some table
  | name :: rest, csize, table =>
    match kmemCacheCreate (some name) csize cacheAlign 0 table with
    | none => none
    | some (_, table) => createDefaults rest (csize * 2) table

/-- The calls this loop makes. -/
def defaultSpecsFrom : List String → Nat → List CacheSpec
  | [], _ => []
  | name :: rest, csize => ⟨name, csize, cacheAlign, 0⟩ :: defaultSpecsFrom rest (csize * 2)

/-- The default caches. -/
def defaultSpecs : List CacheSpec := defaultSpecsFrom cacheNames kmallocSmallSize

/-- Every prefix of a list of calls can be extended by the next one. -/
def AllCreatable : List CacheSpec → List CacheSpec → Prop
  | _, [] => True
  | specs, spec :: rest => Creatable specs spec ∧ AllCreatable (specs ++ [spec]) rest

theorem AllCreatable.length_le {specs rest : List CacheSpec} (h : AllCreatable specs rest)
    (hmax : specs.length ≤ cacheCacheMax) : specs.length + rest.length ≤ cacheCacheMax := by
  induction rest generalizing specs with
  | nil => exact hmax
  | cons spec rest ih =>
      have hroom := h.1.room
      have hrest := ih h.2 (by simp; omega)
      simp only [List.length_append, List.length_cons, List.length_nil] at hrest ⊢
      omega

theorem createDefaults_spec {names : List String} {csize : Nat} {specs : List CacheSpec}
    {table : Nat → KmemCache} (h : IsTable specs table)
    (hempty : ∀ i, (table i).slabs.getD [] = [])
    (hall : AllCreatable specs (defaultSpecsFrom names csize)) :
    ∃ table', createDefaults names csize table = some table' ∧
      IsTable (specs ++ defaultSpecsFrom names csize) table' ∧
      ∀ i, (table' i).slabs.getD [] = [] := by
  induction names generalizing csize specs table with
  | nil => exact ⟨table, rfl, by simpa [defaultSpecsFrom] using h, hempty⟩
  | cons name rest ih =>
      obtain ⟨hfirst, hrest⟩ := hall
      rcases kmemCacheCreate_cases h hfirst.room.le ⟨name, csize, cacheAlign, 0⟩ with
        ⟨_, hcreate⟩ | ⟨hnot, _⟩
      · have hempty' : ∀ i, (Function.update table specs.length
            (CacheSpec.descriptor ⟨name, csize, cacheAlign, 0⟩) i).slabs.getD [] = [] := by
          intro i
          rw [Function.update_apply]
          split
          · rfl
          · exact hempty i
        obtain ⟨table', hrun, htable, hlists⟩ := ih (h.update _) hempty' hrest
        refine ⟨table', ?_, ?_, hlists⟩
        · simp only [createDefaults]
          rw [hcreate]
          exact hrun
        · simpa [defaultSpecsFrom] using htable
      · exact absurd hfirst hnot

instance (specs : List CacheSpec) (spec : CacheSpec) : Decidable (Creatable specs spec) :=
  decidable_of_iff
    (bytesPerLong ≤ spec.size ∧ spec.size ≤ kmallocMaxSize ∧
      (∀ other ∈ specs, other.name ≠ spec.name) ∧ specs.length < cacheCacheMax)
    ⟨fun ⟨h1, h2, h3, h4⟩ => ⟨h1, h2, h3, h4⟩, fun h => ⟨h.1, h.2, h.3, h.4⟩⟩

instance decidableAllCreatable :
    (specs rest : List CacheSpec) → Decidable (AllCreatable specs rest)
  | _, [] => inferInstanceAs (Decidable True)
  | specs, spec :: rest =>
    have := decidableAllCreatable (specs ++ [spec]) rest
    inferInstanceAs (Decidable (Creatable specs spec ∧ AllCreatable (specs ++ [spec]) rest))

theorem allCreatable_defaultSpecs : AllCreatable [] defaultSpecs := by decide +kernel

/-- The table after the loop of `kmem_cache_init`. -/
theorem createDefaults_isTable :
    ∃ table, createDefaults cacheNames kmallocSmallSize (fun _ => KmemCache.zeroed) = some table ∧
      IsTable defaultSpecs table ∧ ∀ i, (table i).slabs.getD [] = [] :=
  createDefaults_spec IsTable.zeroed (fun _ => rfl) allCreatable_defaultSpecs

/-- The mask `align - 1` of the rounding. -/
def alignMask (align : Nat) : BitVec 64 := BitVec.ofNat 64 align - 1

theorem toNat_alignMask_pow {k : Nat} (hk : k < 64) : (alignMask (2 ^ k)).toNat = 2 ^ k - 1 := by
  have hlt : 2 ^ k < 2 ^ 64 := Nat.pow_lt_pow_right (by norm_num) hk
  have hpos : 0 < 2 ^ k := Nat.two_pow_pos k
  rw [alignMask, BitVec.toNat_sub, BitVec.toNat_ofNat, Nat.mod_eq_of_lt hlt]
  simp only [BitVec.ofNat_eq_ofNat, BitVec.toNat_ofNat]
  omega

theorem toNat_and_alignMask_pow {k : Nat} (hk : k < 64) (word : BitVec 64) :
    (word &&& alignMask (2 ^ k)).toNat = word.toNat % 2 ^ k := by
  rw [BitVec.toNat_and, toNat_alignMask_pow hk, Nat.and_two_pow_sub_one_eq_mod]

/-- Rounding up to a power of two. -/
theorem alignUp_pow {x k : Nat} (hk : k < 64) (hx : x + 2 ^ k ≤ 2 ^ 64) :
    alignUp x (2 ^ k) = (x + (2 ^ k - 1)) / 2 ^ k * 2 ^ k := by
  have hpos : 0 < 2 ^ k := Nat.two_pow_pos k
  have hword : (BitVec.ofNat 64 x).toNat = x := by
    rw [BitVec.toNat_ofNat]
    omega
  have hmod := toNat_and_alignMask_pow hk (BitVec.ofNat 64 x)
  rw [hword] at hmod
  change (if BitVec.ofNat 64 x &&& alignMask (2 ^ k) ≠ 0 then
    ((BitVec.ofNat 64 x + alignMask (2 ^ k)) &&& ~~~alignMask (2 ^ k)).toNat else x) = _
  split
  · have hsum : (BitVec.ofNat 64 x + alignMask (2 ^ k)).toNat = x + (2 ^ k - 1) := by
      rw [BitVec.toNat_add, hword, toNat_alignMask_pow hk]
      omega
    have hsplit := toNat_and_not_add (BitVec.ofNat 64 x + alignMask (2 ^ k)) (alignMask (2 ^ k))
    rw [toNat_and_alignMask_pow hk, hsum] at hsplit
    have hdiv := Nat.div_add_mod' (x + (2 ^ k - 1)) (2 ^ k)
    omega
  · next hzero =>
      rw [not_not.mp hzero] at hmod
      have hdiv := Nat.div_add_mod' x (2 ^ k)
      have hrest : (2 ^ k - 1) / 2 ^ k = 0 := Nat.div_eq_of_lt (by omega)
      have hdvd : 2 ^ k ∣ x := Nat.dvd_of_mod_eq_zero hmod.symm
      rw [Nat.add_div_of_dvd_right hdvd, hrest, Nat.add_zero, Nat.div_mul_cancel hdvd]

/-- Rounding a size up to whole words. -/
theorem alignUp_long {x : Nat} (h : x ≤ kmallocMaxSize) :
    alignUp x bytesPerLong = (x + 7) / 8 * 8 := by
  simp only [kmallocMaxSize] at h
  exact @alignUp_pow x 3 (by norm_num) (by omega)

/-- The object size of an accepted call. -/
theorem CacheSpec.objsize_bounds {spec : CacheSpec} (hlo : bytesPerLong ≤ spec.size)
    (hhi : spec.size ≤ kmallocMaxSize) :
    bytesPerLong ≤ spec.objsize ∧ spec.objsize ≤ kmallocMaxSize := by
  rw [CacheSpec.objsize, alignUp_long hhi]
  simp only [bytesPerLong, kmallocMaxSize] at *
  omega

/-- The pages of a slab are enough for `SLAB_DEFAULT_NUM` objects behind the
header, and not more than `alloc_pages` gives. -/
theorem pageOrder_bounds {size pageNeed pageOrder : Nat} (hsize : size ≤ kmallocMaxSize)
    (hneed : pageNeed =
      (sizeofSlab + size * slabDefaultNum + sizeofBufctl * slabDefaultNum) / pageSize)
    (horder : pageOrder = if pageNeed = 0 then 1 else fls64 pageNeed) :
    pageOrder ≤ maxPageOrder ∧
      slabDefaultNum * size ≤ 2 ^ pageOrder * pageSize - sizeofSlab := by
  simp only [kmallocMaxSize] at hsize
  simp only [sizeofSlab, sizeofBufctl, slabDefaultNum, pageSize, pageShift] at *
  have hmax : pageNeed ≤ 5 := by omega
  have hcases : pageOrder ≤ 3 ∧ pageNeed + 1 ≤ 2 ^ pageOrder := by
    rw [horder]
    clear hneed horder
    interval_cases pageNeed <;> decide
  refine ⟨hcases.1.trans (by decide), ?_⟩
  have hpages : (pageNeed + 1) * 2 ^ 12 ≤ 2 ^ pageOrder * 2 ^ 12 :=
    Nat.mul_le_mul_right _ hcases.2
  omega

/-- The bufctl array costs at most a quarter of the objects. -/
theorem objects_left {objNum size : Nat} (hnum : slabDefaultNum ≤ objNum)
    (hlt : objNum < 2 ^ 64) (hsize : bytesPerLong ≤ size) :
    0 < sub64 objNum (objNum * sizeofBufctl / size + 1) := by
  have hquarter : objNum * sizeofBufctl / size ≤ objNum * sizeofBufctl / bytesPerLong :=
    Nat.div_le_div_left hsize (by decide)
  unfold sub64
  generalize objNum * sizeofBufctl / size = bufctlNum at *
  simp only [slabDefaultNum, sizeofBufctl, bytesPerLong] at *
  omega

/-- A slab of an accepted cache has an object, and its pages can be had. -/
theorem CacheSpec.descriptor_bounds {spec : CacheSpec} (hlo : bytesPerLong ≤ spec.size)
    (hhi : spec.size ≤ kmallocMaxSize) :
    0 < spec.descriptor.num ∧ spec.descriptor.gfporder ≤ maxPageOrder := by
  obtain ⟨hmin, hmax⟩ := spec.objsize_bounds hlo hhi
  obtain ⟨horder, hfits⟩ := pageOrder_bounds hmax rfl rfl
  have hpos : 0 < spec.objsize := Nat.lt_of_lt_of_le (by decide) hmin
  refine ⟨objects_left ((Nat.le_div_iff_mul_le hpos).mpr hfits) ?_ hmin, horder⟩
  refine Nat.lt_of_le_of_lt (Nat.div_le_self _ _) (Nat.lt_of_le_of_lt (Nat.sub_le _ _) ?_)
  refine Nat.lt_of_le_of_lt (Nat.mul_le_mul_right _ (Nat.pow_le_pow_right (by decide) horder)) ?_
  decide

/-- What the allocation of slabs and objects needs to know about a descriptor:
the bufctl array and the objects fit into the pages of a slab, one behind the
other, and indices differ from `BUFCTL_END`. -/
structure Geometry (c : KmemCache) : Prop where
  num_pos : 0 < c.num
  num_lt : c.num < bufctlEnd
  objsize_pos : 0 < c.objsize
  objsize_le : c.objsize ≤ kmallocMaxSize
  order_le : c.gfporder ≤ maxPageOrder
  bufctl_fits : sizeofSlab + sizeofBufctl * c.num ≤ c.colourOff
  objects_fit : c.colourOff + c.num * c.objsize ≤ 2 ^ c.gfporder * pageSize

instance (c : KmemCache) : Decidable (Geometry c) :=
  decidable_of_iff
    (0 < c.num ∧ c.num < bufctlEnd ∧ 0 < c.objsize ∧ c.objsize ≤ kmallocMaxSize ∧
      c.gfporder ≤ maxPageOrder ∧ sizeofSlab + sizeofBufctl * c.num ≤ c.colourOff ∧
      c.colourOff + c.num * c.objsize ≤ 2 ^ c.gfporder * pageSize)
    ⟨fun ⟨h1, h2, h3, h4, h5, h6, h7⟩ => ⟨h1, h2, h3, h4, h5, h6, h7⟩,
      fun h => ⟨h.1, h.2, h.3, h.4, h.5, h.6, h.7⟩⟩

theorem defaultSpecs_geometry : ∀ spec ∈ defaultSpecs, Geometry spec.descriptor := by
  decide +kernel

end Caos
