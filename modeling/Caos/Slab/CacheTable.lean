import Mathlib.Data.List.TakeWhile
import Caos.CString
import Caos.Lib.Transducer
import Caos.Slab.Cache

/-!
The table `cache_cache` over any sequence of `kmem_cache_create` calls. Here names
are compared the way the code does it, byte by byte with `caos_strcmp`, and the
memory behind the table is arbitrary: the loop reads the entry at
`cache_cache_max` before it tests the bound.
-/

namespace Caos.CacheTable

open Lib

/-- The bytes at a name, with the NUL the compiler puts behind them. -/
def nameBytes (name : String) : List UInt8 := literal name ++ [0]

/-- Two names are the same string. -/
def SameName (a b : String) : Prop := cString (literal a) = cString (literal b)

instance (a b : String) : Decidable (SameName a b) := inferInstanceAs (Decidable (_ = _))

theorem caosStrcmp_nameBytes {a b : String} :
    caosStrcmp (nameBytes a) (nameBytes b) = 0 ↔ SameName a b := caosStrcmp_terminated

/-- Names of one-byte characters without a NUL, as string literals are. -/
def Plain (name : String) : Prop := ∀ c ∈ name.toList, 0 < c.toNat ∧ c.toNat < 2 ^ 8

instance (name : String) : Decidable (Plain name) :=
  List.decidableBAll (fun c : Char => 0 < c.toNat ∧ c.toNat < 2 ^ 8) name.toList

theorem Plain.toNat_byte {name : String} (h : Plain name) {c : Char} (hc : c ∈ name.toList) :
    (UInt8.ofNat c.toNat).toNat = c.toNat := UInt8.toNat_ofNat_of_lt' (h c hc).2

theorem Plain.cString_literal {name : String} (h : Plain name) :
    cString (literal name) = literal name := by
  apply List.takeWhile_eq_self_iff.mpr
  intro b hb
  obtain ⟨c, hc, rfl⟩ := List.mem_map.mp hb
  have hpos := (h c hc).1
  have hne : UInt8.ofNat c.toNat ≠ 0 := by
    rw [Ne, ← UInt8.toNat_inj, h.toNat_byte hc, UInt8.toNat_zero]
    omega
  simpa using hne

/-- The characters of a plain name can be read back from its bytes. -/
theorem Plain.map_literal {name : String} (h : Plain name) :
    (literal name).map (fun b => Char.ofNat b.toNat) = name.toList := by
  rw [literal, List.map_map]
  refine (List.map_congr_left ?_).trans (List.map_id _)
  intro c hc
  rw [Function.comp_apply, h.toNat_byte hc, Char.ofNat_toNat, id]

/-- Plain names are the same string exactly when they are equal. -/
theorem Plain.sameName_iff {a b : String} (ha : Plain a) (hb : Plain b) :
    SameName a b ↔ a = b := by
  rw [SameName, ha.cString_literal, hb.cString_literal]
  refine ⟨fun h => ?_, congrArg literal⟩
  apply String.toList_inj.mp
  rw [← ha.map_literal, ← hb.map_literal, h]

/-- The loop of `kmem_cache_create` over the used descriptors. `none` is the
return on a duplicate name. -/
def searchName (table : Nat → KmemCache) (name : String) : Nat → Nat → Option Nat
  | 0, cacheIndex => some cacheIndex
  | fuel + 1, cacheIndex =>
    match (table cacheIndex).name with
    | none => some cacheIndex
    | some other =>
      if cacheIndex < cacheCacheMax then
        if caosStrcmp (nameBytes other) (nameBytes name) = 0 then none
        else searchName table name fuel (cacheIndex + 1)
      else some cacheIndex

theorem searchName_eq (table : Nat → KmemCache) (name : String) (fuel i : Nat) :
    searchName table name fuel i =
      searchTable table (fun other => caosStrcmp (nameBytes other) (nameBytes name) = 0)
        fuel i := by
  induction fuel generalizing i with
  | zero => rfl
  | succ fuel ih =>
      rw [searchName, searchTable]
      cases (table i).name with
      | none => rfl
      | some other => simp only [ih]

/-- `kmem_cache_create`: the index of the new descriptor, `none` for `NULL`, and the
table it leaves. -/
def kmemCacheCreate (name : Option String) (size align flags : Nat)
    (table : Nat → KmemCache) : Option Nat × (Nat → KmemCache) :=
  match name with
  | none => (none, table)
  | some name =>
    if size < bytesPerLong ∨ size > kmallocMaxSize then (none, table)
    else
      match searchName table name cacheCacheMax 0 with
      | none => (none, table)
      | some cacheIndex =>
        if cacheIndex ≥ cacheCacheMax then (none, table)
        else
          let cachep := CacheSpec.descriptor ⟨name, size, align, flags⟩
          (some cacheIndex, Function.update table cacheIndex cachep)

/-- The loop of `kmem_cache_init` over the names. `none` is `halt()`. -/
def createNames : List String → Nat → (Nat → KmemCache) → Option (Nat → KmemCache)
  | [], _, table => some table
  | name :: rest, csize, table =>
    match kmemCacheCreate (some name) csize cacheAlign 0 table with
    | (none, _) => none
    | (some _, table) => createNames rest (csize * 2) table

/-- `kmem_cache_init` on the table: `caos_memset` clears the two pages, behind
them is whatever memory holds. -/
def kmemCacheInit (behind : Nat → KmemCache) : Option (Nat → KmemCache) :=
  createNames cacheNames kmallocSmallSize
    fun i => if i < cacheCacheMax then KmemCache.zeroed else behind i

/-- A call that returns a cache had a name and an allowed size, and filled in the
descriptor it returns. -/
theorem kmemCacheCreate_some {name : Option String} {size align flags i : Nat}
    {table table' : Nat → KmemCache}
    (h : kmemCacheCreate name size align flags table = (some i, table')) :
    bytesPerLong ≤ size ∧ size ≤ kmallocMaxSize ∧
      ∃ n, name = some n ∧ table' i = CacheSpec.descriptor ⟨n, size, align, flags⟩ := by
  cases name with
  | none => cases h
  | some name =>
      rw [kmemCacheCreate] at h
      split at h
      · cases h
      · next hsize =>
          split at h
          · cases h
          · split at h
            · cases h
            · cases h
              exact ⟨by omega, by omega, name, rfl, Function.update_self ..⟩

/-- What happens to the table: calls of `kmem_cache_create`, and between them
changes of the slab lists. -/
inductive Op
  | create (name : Option String) (size align flags : Nat)
  | slabs (cachep : Nat) (f : List Nat → List Nat)

/-- The table after an operation. -/
def Op.next (table : Nat → KmemCache) : Op → (Nat → KmemCache)
  | .create name size align flags => (kmemCacheCreate name size align flags table).2
  | .slabs cachep f => updateSlabs table cachep f

/-- The call, if it is one that creates a cache. -/
def Op.created (table : Nat → KmemCache) : Op → List CacheSpec
  | .create (some name) size align flags =>
    if (kmemCacheCreate (some name) size align flags table).1.isSome then
      [⟨name, size, align, flags⟩]
    else []
  | _ => []

/-- The calls that created a cache, in order. -/
def created (table : Nat → KmemCache) : List Op → List CacheSpec
  | [] => []
  | op :: ops => op.created table ++ created (op.next table) ops

/-- The table holds the caches of `specs` in this order, whatever their slab
lists are, and descriptors filled with zeros up to its end. -/
structure Holds (specs : List CacheSpec) (table : Nat → KmemCache) : Prop where
  room : specs.length ≤ cacheCacheMax
  stored : Stored specs table
  unused : ∀ i, specs.length ≤ i → i < cacheCacheMax → table i = KmemCache.zeroed
  sizes : ∀ spec ∈ specs, bytesPerLong ≤ spec.size ∧ spec.size ≤ kmallocMaxSize
  distinct : specs.Pairwise fun a b => ¬ SameName a.name b.name

section Holds

variable {specs : List CacheSpec} {table : Nat → KmemCache} {spec : CacheSpec} {i : Nat}

theorem Holds.zeroed (behind : Nat → KmemCache) :
    Holds [] fun i => if i < cacheCacheMax then KmemCache.zeroed else behind i := by
  constructor
  · exact Nat.zero_le _
  · intro i spec h
    simp at h
  · intro i _ hi
    simp [hi]
  · simp
  · exact .nil

theorem Holds.name_eq (h : Holds specs table) (hi : specs[i]? = some spec) :
    (table i).name = some spec.name := h.stored.name_eq hi

theorem Holds.name_none (h : Holds specs table) (hi : specs.length ≤ i)
    (hmax : i < cacheCacheMax) : (table i).name = none := by
  rw [h.unused i hi hmax]
  rfl

theorem Holds.used_iff (h : Holds specs table) (hmax : i < cacheCacheMax) :
    (table i).name ≠ none ↔ i < specs.length := by
  constructor
  · intro hused
    by_contra hge
    exact hused (h.name_none (by omega) hmax)
  · intro hi
    rw [h.name_eq (List.getElem?_eq_getElem hi)]
    exact Option.some_ne_none _

/-- The search ends behind the last cache unless it meets the name. -/
theorem Holds.searchName (h : Holds specs table) (name : String) :
    searchName table name cacheCacheMax 0 =
      if ∃ spec ∈ specs, SameName spec.name name then none else some specs.length := by
  have hused : UsedBy specs table := ⟨fun i spec hi => h.name_eq hi, fun i => h.name_none⟩
  rw [searchName_eq, hused.searchTable h.room (Nat.zero_le _) (Nat.le_add_left _ _),
    List.drop_zero]
  exact if_congr (by simp only [caosStrcmp_nameBytes]) rfl rfl

/-- The conditions under which a call makes a new cache. -/
structure Accepted (specs : List CacheSpec) (spec : CacheSpec) : Prop where
  size_ge : bytesPerLong ≤ spec.size
  size_le : spec.size ≤ kmallocMaxSize
  fresh : ∀ other ∈ specs, ¬ SameName other.name spec.name
  room : specs.length < cacheCacheMax

/-- A call fills in the first unused descriptor, or leaves the table alone. -/
theorem Holds.create_cases (h : Holds specs table) (spec : CacheSpec) :
    (Accepted specs spec ∧
      kmemCacheCreate (some spec.name) spec.size spec.align spec.flags table =
        (some specs.length, Function.update table specs.length spec.descriptor)) ∨
    (¬ Accepted specs spec ∧
      kmemCacheCreate (some spec.name) spec.size spec.align spec.flags table =
        (none, table)) := by
  have hfind := h.searchName spec.name
  rcases Decidable.em (spec.size < bytesPerLong ∨ spec.size > kmallocMaxSize) with hsize | hsize
  · refine .inr ⟨fun hc => ?_, by simp [kmemCacheCreate, hsize]⟩
    have := hc.size_ge
    have := hc.size_le
    omega
  rcases Decidable.em (∃ other ∈ specs, SameName other.name spec.name) with hdup | hdup
  · refine .inr ⟨fun hc => ?_, ?_⟩
    · obtain ⟨other, hmem, hsame⟩ := hdup
      exact hc.fresh other hmem hsame
    · simp only [kmemCacheCreate, hsize, if_false, hfind, hdup, if_true]
  rcases Nat.lt_or_ge specs.length cacheCacheMax with hroom | hroom
  · refine .inl ⟨⟨by omega, by omega, ?_, hroom⟩, ?_⟩
    · intro other hmem hsame
      exact hdup ⟨other, hmem, hsame⟩
    · have hnot : ¬ specs.length ≥ cacheCacheMax := by omega
      simp only [kmemCacheCreate, hsize, if_false, hfind, hdup, hnot]
  · refine .inr ⟨fun hc => ?_, ?_⟩
    · have := hc.room
      omega
    · simp only [kmemCacheCreate, hsize, if_false, hfind, hdup, hroom, if_true]

theorem Holds.update (h : Holds specs table) (hspec : Accepted specs spec) :
    Holds (specs ++ [spec]) (Function.update table specs.length spec.descriptor) := by
  constructor
  · rw [List.length_append, List.length_singleton]
    exact hspec.room
  · exact h.stored.update spec
  · intro i hi hmax
    rw [List.length_append, List.length_singleton] at hi
    rw [Function.update_of_ne (by omega)]
    exact h.unused i (by omega) hmax
  · intro other hmem
    rcases List.mem_append.mp hmem with hold | hnew
    · exact h.sizes other hold
    · rw [List.mem_singleton.mp hnew]
      exact ⟨hspec.size_ge, hspec.size_le⟩
  · apply List.pairwise_append.mpr
    refine ⟨h.distinct, List.pairwise_singleton _ _, ?_⟩
    intro other hmem new hnew
    rw [List.mem_singleton.mp hnew]
    exact hspec.fresh other hmem

/-- A change of a slab list keeps the caches. -/
theorem Holds.updateSlabs (h : Holds specs table) (cachep : Nat) (f : List Nat → List Nat) :
    Holds specs (updateSlabs table cachep f) := by
  refine ⟨h.room, h.stored.updateSlabs cachep f, fun i hi hmax => ?_, h.sizes, h.distinct⟩
  rw [updateSlabs_eq, h.unused i hi hmax]
  simp [KmemCache.zeroed]

theorem Holds.next (h : Holds specs table) (op : Op) :
    Holds (specs ++ op.created table) (op.next table) := by
  cases op with
  | create name size align flags =>
      cases name with
      | none => simpa [Op.next, Op.created, kmemCacheCreate] using h
      | some name =>
          rcases h.create_cases ⟨name, size, align, flags⟩ with ⟨hok, heq⟩ | ⟨_, heq⟩
          · simp only [Op.next, Op.created, heq, Option.isSome_some, if_true]
            exact h.update hok
          · simpa [Op.next, Op.created, heq] using h
  | slabs cachep f => simpa [Op.next, Op.created] using h.updateSlabs cachep f

theorem Holds.run (h : Holds specs table) (ops : List Op) :
    Holds (specs ++ created table ops) (ops.foldl Op.next table) := by
  induction ops generalizing specs table with
  | nil => simpa [created] using h
  | cons op ops ih =>
      have hrest := ih (h.next op)
      rwa [List.append_assoc] at hrest

end Holds

/-- The table when the calls of `specs` have created a cache: the used descriptors
come first, their names differ and their objects are whole words, large enough. -/
structure TableIntegrity (specs : List CacheSpec) (table : Nat → KmemCache) : Prop where
  room : specs.length ≤ cacheCacheMax
  used : ∀ i < cacheCacheMax, (table i).name ≠ none ↔ i < specs.length
  names_differ : ∀ i < cacheCacheMax, ∀ j < cacheCacheMax, i ≠ j → ∀ a b,
    (table i).name = some a → (table j).name = some b → ¬ SameName a b
  objsize : ∀ i spec, specs[i]? = some spec → (table i).name = some spec.name ∧
    bytesPerLong ∣ (table i).objsize ∧ spec.size ≤ (table i).objsize

/-- The effect of one call: `NULL` for a bad size, a duplicate name or a full table,
with the table unchanged, and otherwise the first unused descriptor. -/
structure CreateEffect (table : Nat → KmemCache) (name : Option String)
    (size align flags : Nat) : Prop where
  null_iff : (kmemCacheCreate name size align flags table).1 = none ↔
    name = none ∨ size < bytesPerLong ∨ size > kmallocMaxSize ∨
      (∃ i < cacheCacheMax, ∃ a b, (table i).name = some a ∧ name = some b ∧ SameName a b) ∨
      ∀ i < cacheCacheMax, (table i).name ≠ none
  null_unchanged : (kmemCacheCreate name size align flags table).1 = none →
    (kmemCacheCreate name size align flags table).2 = table
  first_unused : ∀ i, (kmemCacheCreate name size align flags table).1 = some i →
    i < cacheCacheMax ∧ (table i).name = none ∧ ∀ j < i, (table j).name ≠ none
  others_kept : ∀ i, (kmemCacheCreate name size align flags table).1 = some i →
    ∀ j ≠ i, (kmemCacheCreate name size align flags table).2 j = table j

section Integrity

variable {specs : List CacheSpec} {table : Nat → KmemCache}

theorem Holds.name_getElem (h : Holds specs table) {i : Nat} (hmax : i < cacheCacheMax)
    {a : String} (ha : (table i).name = some a) :
    ∃ spec, specs[i]? = some spec ∧ spec.name = a := by
  have hi : i < specs.length := by
    apply (h.used_iff hmax).mp
    rw [ha]
    exact Option.some_ne_none _
  refine ⟨specs[i], List.getElem?_eq_getElem hi, ?_⟩
  rw [h.name_eq (List.getElem?_eq_getElem hi)] at ha
  exact Option.some.inj ha

theorem Holds.integrity (h : Holds specs table) : TableIntegrity specs table := by
  refine ⟨h.room, fun i hi => h.used_iff hi, ?_, ?_⟩
  · intro i hi j hj hne a b ha hb
    obtain ⟨first, hfirst, rfl⟩ := h.name_getElem hi ha
    obtain ⟨second, hsecond, rfl⟩ := h.name_getElem hj hb
    obtain ⟨hilt, rfl⟩ := List.getElem?_eq_some_iff.mp hfirst
    obtain ⟨hjlt, rfl⟩ := List.getElem?_eq_some_iff.mp hsecond
    have hpairs := List.pairwise_iff_getElem.mp h.distinct
    rcases Nat.lt_or_gt_of_ne hne with hlt | hgt
    · exact hpairs i j hilt hjlt hlt
    · exact fun hsame => hpairs j i hjlt hilt hgt hsame.symm
  · intro i spec hi
    obtain ⟨slabs, heq⟩ := h.stored i spec hi
    have hsize : (table i).objsize = (spec.size + 7) / 8 * 8 := by
      rw [heq]
      exact alignUp_long (h.sizes spec (List.mem_of_getElem? hi)).2
    refine ⟨h.name_eq hi, ?_, ?_⟩
    · rw [hsize]
      exact Nat.dvd_mul_left _ _
    · omega

theorem Holds.full_iff (h : Holds specs table) :
    (∀ i < cacheCacheMax, (table i).name ≠ none) ↔ specs.length = cacheCacheMax := by
  have hroom := h.room
  constructor
  · intro hall
    by_contra hne
    have hlt : specs.length < cacheCacheMax := by omega
    exact hall _ hlt (h.name_none le_rfl hlt)
  · intro hfull i hi
    exact (h.used_iff hi).mpr (by omega)

theorem Holds.duplicate_iff (h : Holds specs table) (name : String) :
    (∃ i < cacheCacheMax, ∃ a b, (table i).name = some a ∧ some name = some b ∧ SameName a b) ↔
      ∃ spec ∈ specs, SameName spec.name name := by
  have hroom := h.room
  constructor
  · rintro ⟨i, hi, a, b, ha, hb, hsame⟩
    obtain ⟨spec, hspec, rfl⟩ := h.name_getElem hi ha
    obtain rfl := Option.some.inj hb
    exact ⟨spec, List.mem_of_getElem? hspec, hsame⟩
  · rintro ⟨spec, hmem, hsame⟩
    obtain ⟨i, hi, rfl⟩ := List.getElem_of_mem hmem
    exact ⟨i, by omega, _, _, h.name_eq (List.getElem?_eq_getElem hi), rfl, hsame⟩

theorem Holds.accepted_iff (h : Holds specs table) (spec : CacheSpec) :
    ¬ Accepted specs spec ↔
      spec.size < bytesPerLong ∨ spec.size > kmallocMaxSize ∨
        (∃ other ∈ specs, SameName other.name spec.name) ∨ specs.length = cacheCacheMax := by
  have hroom := h.room
  constructor
  · intro hnot
    by_contra hnone
    simp only [not_or, not_exists, not_and] at hnone
    obtain ⟨hlo, hhi, hfresh, hfull⟩ := hnone
    exact hnot ⟨by omega, by omega, hfresh, by omega⟩
  · rintro (hlo | hhi | ⟨other, hmem, hsame⟩ | hfull) hc
    · exact absurd hc.size_ge (by omega)
    · exact absurd hc.size_le (by omega)
    · exact hc.fresh other hmem hsame
    · exact absurd hc.room (by omega)

theorem Holds.createEffect (h : Holds specs table) (name : Option String)
    (size align flags : Nat) : CreateEffect table name size align flags := by
  cases name with
  | none => constructor <;> simp [kmemCacheCreate]
  | some name =>
      have hnot := h.accepted_iff ⟨name, size, align, flags⟩
      rw [← h.duplicate_iff, ← h.full_iff] at hnot
      rcases h.create_cases ⟨name, size, align, flags⟩ with ⟨hok, heq⟩ | ⟨hno, heq⟩
      · constructor
        · rw [heq, ← hnot]
          simp [hok]
        · rw [heq]
          simp
        · rw [heq]
          rintro i hi
          obtain rfl := Option.some.inj hi
          refine ⟨hok.room, h.name_none le_rfl hok.room, fun j hj => ?_⟩
          exact (h.used_iff (hj.trans hok.room)).mpr hj
        · rw [heq]
          rintro i hi j hne
          obtain rfl := Option.some.inj hi
          exact Function.update_of_ne hne _ _
      · constructor
        · rw [heq, ← hnot]
          simp [hno]
        · rw [heq]
          simp
        · rw [heq]
          simp
        · rw [heq]
          simp

end Integrity

section Refinement

variable {table : Nat → KmemCache} {name : String}

/-- On plain names, the byte-wise search is the search for an equal name. -/
theorem searchName_eq_findUnused (hname : Plain name)
    (htable : ∀ i other, (table i).name = some other → Plain other) (fuel i : Nat) :
    searchName table name fuel i = findUnused table name fuel i := by
  induction fuel generalizing i with
  | zero => rfl
  | succ fuel ih =>
      rw [searchName, findUnused]
      cases hother : (table i).name with
      | none => rfl
      | some other =>
          have hsame := (htable i other hother).sameName_iff hname
          simp only [caosStrcmp_nameBytes, hsame, ih]

/-- On plain names, a call does to the table what the call that compares whole
names does. -/
theorem kmemCacheCreate_eq (hname : Plain name)
    (htable : ∀ i other, (table i).name = some other → Plain other) (size align flags : Nat) :
    kmemCacheCreate (some name) size align flags table =
      match Caos.kmemCacheCreate (some name) size align flags table with
      | none => (none, table)
      | some (cacheIndex, table') => (some cacheIndex, table') := by
  simp only [kmemCacheCreate, Caos.kmemCacheCreate, searchName_eq_findUnused hname htable]
  split
  · rfl
  · cases findUnused table name cacheCacheMax 0 with
    | none => rfl
    | some cacheIndex =>
        rcases Nat.lt_or_ge cacheIndex cacheCacheMax with hroom | hfull
        · simp only [Nat.not_le.mpr hroom, if_false]
        · simp only [hfull, if_true]

/-- Where whole names are compared and a call is accepted, it is accepted here. -/
theorem accepted_of_creatable {specs : List CacheSpec} {spec : CacheSpec}
    (h : Creatable specs spec) (hplain : ∀ other ∈ specs ++ [spec], Plain other.name) :
    Accepted specs spec := by
  refine ⟨h.size_ge, h.size_le, ?_, h.room⟩
  intro other hmem hsame
  have hother := hplain other (List.mem_append_left _ hmem)
  have hspec := hplain spec List.mem_concat_self
  exact h.fresh other hmem ((hother.sameName_iff hspec).mp hsame)

/-- A call of `kmem_cache_create`: the table it leaves and what it returns. -/
def createCall (table : Nat → KmemCache) (spec : CacheSpec) :
    (Nat → KmemCache) × List (Option Nat) :=
  let (cachep, table) := kmemCacheCreate (some spec.name) spec.size spec.align spec.flags table
  (table, [cachep])

/-- The same call where whole names are compared. -/
def wholeCall (table : Nat → KmemCache) (spec : CacheSpec) :
    (Nat → KmemCache) × List (Option Nat) :=
  match Caos.kmemCacheCreate (some spec.name) spec.size spec.align spec.flags table with
  | none => (table, [none])
  | some (cachep, table) => (table, [some cachep])

/-- The names in the table are plain. -/
def PlainNames (table : Nat → KmemCache) : Prop :=
  ∀ i other, (table i).name = some other → Plain other

theorem PlainNames.of_isTable {specs : List CacheSpec} (ht : IsTable specs table)
    (hspecs : ∀ spec ∈ specs, Plain spec.name) : PlainNames table := by
  intro i other hother
  rcases Nat.lt_or_ge i specs.length with hlt | hge
  · rw [ht.name_eq (List.getElem?_eq_getElem hlt)] at hother
    obtain rfl := Option.some.inj hother
    exact hspecs _ (List.getElem_mem hlt)
  · rw [ht.unused i hge] at hother
    cases hother

theorem createCall_eq (htable : PlainNames table) (spec : CacheSpec) (hspec : Plain spec.name) :
    createCall table spec = wholeCall table spec := by
  rw [createCall, kmemCacheCreate_eq hspec htable, wholeCall]
  cases Caos.kmemCacheCreate (some spec.name) spec.size spec.align spec.flags table <;> rfl

theorem PlainNames.update (h : PlainNames table) (i : Nat) (spec : CacheSpec)
    (hspec : Plain spec.name) : PlainNames (Function.update table i spec.descriptor) := by
  intro j other hother
  rw [Function.update_apply] at hother
  split at hother
  · obtain rfl := Option.some.inj hother
    exact hspec
  · exact h j other hother

theorem PlainNames.wholeCall (h : PlainNames table) (spec : CacheSpec)
    (hspec : Plain spec.name) : PlainNames (wholeCall table spec).1 := by
  unfold CacheTable.wholeCall
  split
  · exact h
  · next cachep table' hcreate =>
      simp only [Caos.kmemCacheCreate] at hcreate
      split at hcreate
      · cases hcreate
      split at hcreate
      · cases hcreate
      split at hcreate
      · cases hcreate
      · cases hcreate
        exact h.update _ spec hspec

/-- The loop of `kmem_cache_init` leaves the same table. -/
theorem createNames_eq {names : List String} {csize : Nat} (h : PlainNames table)
    (hnames : ∀ name ∈ names, Plain name) :
    createNames names csize table = createDefaults names csize table := by
  induction names generalizing csize table with
  | nil => rfl
  | cons name rest ih =>
      obtain ⟨hname, hrest⟩ := List.forall_mem_cons.mp hnames
      have hnext := h.wholeCall ⟨name, csize, cacheAlign, 0⟩ hname
      rw [createNames, createDefaults, kmemCacheCreate_eq hname h]
      rw [CacheTable.wholeCall] at hnext
      dsimp only at hnext
      cases hcreate : Caos.kmemCacheCreate (some name) csize cacheAlign 0 table with
      | none => rfl
      | some out =>
          rw [hcreate] at hnext
          exact ih hnext hrest

end Refinement

theorem Holds.createNames {names : List String} {csize : Nat} {specs : List CacheSpec}
    {table : Nat → KmemCache} (h : Holds specs table)
    (hall : AllCreatable specs (defaultSpecsFrom names csize))
    (hplain : ∀ spec ∈ specs ++ defaultSpecsFrom names csize, Plain spec.name) :
    ∃ table', createNames names csize table = some table' ∧
      Holds (specs ++ defaultSpecsFrom names csize) table' := by
  induction names generalizing csize specs table with
  | nil => exact ⟨table, rfl, by simpa [defaultSpecsFrom] using h⟩
  | cons name rest ih =>
      obtain ⟨hfirst, hrest⟩ := hall
      rw [defaultSpecsFrom, List.append_cons] at hplain ⊢
      have hok := accepted_of_creatable hfirst
        fun other hmem => hplain other (List.mem_append_left _ hmem)
      rcases h.create_cases ⟨name, csize, cacheAlign, 0⟩ with ⟨_, hcreate⟩ | ⟨hnot, _⟩
      · obtain ⟨table', hrun, hholds⟩ := ih (h.update hok) hrest hplain
        refine ⟨table', ?_, hholds⟩
        rw [CacheTable.createNames, hcreate]
        exact hrun
      · exact absurd hok hnot

/-- `kmem_cache_init` never halts, and leaves the default caches. -/
theorem kmemCacheInit_holds (behind : Nat → KmemCache) :
    ∃ table, kmemCacheInit behind = some table ∧ Holds defaultSpecs table := by
  apply (Holds.zeroed behind).createNames allCreatable_defaultSpecs
  decide +kernel

/-- After `kmem_cache_init` and any calls, the table holds the caches of the calls
that were accepted, and the next call has the effect it should have. -/
theorem kmemCacheInit_integrity (behind : Nat → KmemCache) :
    ∃ table, kmemCacheInit behind = some table ∧
      ∀ ops : List Op,
        TableIntegrity (defaultSpecs ++ created table ops) (ops.foldl Op.next table) ∧
        ∀ name size align flags,
          CreateEffect (ops.foldl Op.next table) name size align flags := by
  obtain ⟨table, hinit, hholds⟩ := kmemCacheInit_holds behind
  refine ⟨table, hinit, fun ops => ?_⟩
  have hrun := hholds.run ops
  exact ⟨hrun.integrity, fun name size align flags => hrun.createEffect name size align flags⟩

/-- Over a table with nothing behind it, comparing whole names makes no difference:
`kmem_cache_init` leaves the same table, and every sequence of calls with plain names behind
it gets the same results and leaves the same table. -/
theorem whole_names_agree (calls : List CacheSpec) (hplain : ∀ spec ∈ calls, Plain spec.name) :
    ∃ table, kmemCacheInit (fun _ => KmemCache.zeroed) = some table ∧
      createDefaults cacheNames kmallocSmallSize (fun _ => KmemCache.zeroed) = some table ∧
      outputs createCall table calls = outputs wholeCall table calls ∧
      finalState createCall table calls = finalState wholeCall table calls := by
  have hzeroed : PlainNames fun _ => KmemCache.zeroed := nofun
  have hsame : kmemCacheInit (fun _ => KmemCache.zeroed) =
      createDefaults cacheNames kmallocSmallSize fun _ => KmemCache.zeroed := by
    rw [kmemCacheInit, createNames_eq]
    · simp only [ite_self]
    · simpa only [ite_self] using hzeroed
    · decide +kernel
  obtain ⟨table, hdefaults, ht, -⟩ := createDefaults_isTable
  have htable : PlainNames table := .of_isTable ht (by decide +kernel)
  obtain ⟨houtputs, hfinal⟩ := @run_congr _ _ _ createCall table calls wholeCall PlainNames
    (fun spec => Plain spec.name) (fun _ spec h => createCall_eq h spec)
    (fun _ spec h => h.wholeCall spec) htable hplain
  exact ⟨table, hsame.trans hdefaults, hdefaults, houtputs, hfinal⟩

/-- Two calls for one name. -/
theorem packets_twice_agree :
    ∃ table, kmemCacheInit (fun _ => KmemCache.zeroed) = some table ∧
      outputs createCall table [⟨"packets", 512, 16, 0⟩, ⟨"packets", 64, 16, 0⟩] =
        outputs wholeCall table [⟨"packets", 512, 16, 0⟩, ⟨"packets", 64, 16, 0⟩] := by
  obtain ⟨table, hinit, -, houtputs, -⟩ :=
    whole_names_agree [⟨"packets", 512, 16, 0⟩, ⟨"packets", 64, 16, 0⟩] (by decide +kernel)
  exact ⟨table, hinit, houtputs⟩

end Caos.CacheTable
