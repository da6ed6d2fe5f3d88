import Mathlib.Data.Finset.Card
import Caos.Lib.IndexChain
import Caos.Slab.Kmalloc
import Caos.Slab.ZonePages

/-!
Exclusivity of heap objects over whole runs. In every listed slab the indices
whose objects are live are exactly those missing from the chain that starts at
`free` and is threaded through the bufctl array. Objects of different slabs lie
on different pages, and a page knows its slab.
-/

namespace Caos

open Lib

/-- The address of the object with index `k`. -/
def objAddr (c : KmemCache) (slabp k : Nat) : Nat := slabp + c.colourOff + k * c.objsize

/-- The indices of the live objects of a slab. -/
def taken (c : KmemCache) (slabp : Nat) (live : List Obj) : Finset Nat :=
  (Finset.range c.num).filter fun k => objAddr c slabp k ∈ live.map Obj.addr

theorem mem_taken {c : KmemCache} {slabp k : Nat} {live : List Obj} :
    k ∈ taken c slabp live ↔ k < c.num ∧ objAddr c slabp k ∈ live.map Obj.addr := by
  simp [taken]

/-- The live objects are objects of listed slabs, and every slab knows which. -/
structure LiveInv {σ : Type} (h : Heap σ) (live : List Obj) : Prop where
  slot : ∀ o ∈ live, ∃ slabp ∈ h.slabsOf o.cachep, ∃ k < (h.cacheCache o.cachep).num,
    o.addr = objAddr (h.cacheCache o.cachep) slabp k
  nodup : (live.map Obj.addr).Nodup
  chain : ∀ c, ∀ slabp ∈ h.slabsOf c,
    FreeList (h.slabAt slabp).bufctl bufctlEnd (h.slabAt slabp).free (h.cacheCache c).num
      (taken (h.cacheCache c) slabp live)
  inuse : ∀ c, ∀ slabp ∈ h.slabsOf c,
    (h.slabAt slabp).inuse = (taken (h.cacheCache c) slabp live).card

section Geometry

variable {c : KmemCache} {slabp k k' : Nat}

theorem Geometry.le_objAddr (hgeo : Geometry c) (slabp k : Nat) :
    slabp + sizeofSlab + sizeofBufctl * c.num ≤ objAddr c slabp k := by
  have := hgeo.bufctl_fits
  unfold objAddr
  omega

/-- Every object ends before the next one and inside the pages of the slab. -/
theorem Geometry.objAddr_add_le (hgeo : Geometry c) (slabp : Nat) (hk : k < c.num) :
    objAddr c slabp k + c.objsize ≤ slabp + 2 ^ c.gfporder * pageSize := by
  have hfit := hgeo.objects_fit
  have hmul : (k + 1) * c.objsize ≤ c.num * c.objsize := Nat.mul_le_mul_right _ hk
  rw [Nat.succ_mul] at hmul
  unfold objAddr
  omega

theorem objAddr_add_le_of_lt (c : KmemCache) (slabp : Nat) (hlt : k < k') :
    objAddr c slabp k + c.objsize ≤ objAddr c slabp k' := by
  have hmul : (k + 1) * c.objsize ≤ k' * c.objsize := Nat.mul_le_mul_right _ hlt
  rw [Nat.succ_mul] at hmul
  unfold objAddr
  omega

theorem Geometry.objAddr_injective (hgeo : Geometry c)
    (heq : objAddr c slabp k = objAddr c slabp k') : k = k' := by
  have hpos := hgeo.objsize_pos
  rcases Nat.lt_trichotomy k k' with hlt | heq' | hlt
  · have := objAddr_add_le_of_lt c slabp hlt
    omega
  · exact heq'
  · have := objAddr_add_le_of_lt c slabp hlt
    omega

end Geometry

section Live

variable {σ : Type} {A : PageAllocator σ} {Holds : σ → Set Block → Prop} {others : Set Block}
  {h h' : Heap σ} {live : List Obj} {cachep cachep' slabp slabp' k k' : Nat}

/-- Every byte of an object lies on a page of its slab. -/
theorem HeapInv.objPage (hinv : HeapInv A Holds others h) (hmem : slabp ∈ h.slabsOf cachep)
    (hk : k < (h.cacheCache cachep).num) {x : Nat}
    (hlo : objAddr (h.cacheCache cachep) slabp k ≤ x)
    (hhi : x < objAddr (h.cacheCache cachep) slabp k + (h.cacheCache cachep).objsize) :
    (A.page h.pages (virtToPfn x)).slab = some slabp := by
  have hgeo := hinv.table.geometry (hinv.table.lt_of_mem hmem)
  have hend := hgeo.objAddr_add_le slabp hk
  have hstart := hgeo.le_objAddr slabp k
  have hoff : x - slabp < 2 ^ (h.cacheCache cachep).gfporder * pageSize := by omega
  have hpage := hinv.page_slab hmem hoff
  rwa [Nat.add_sub_cancel' (by omega)] at hpage

/-- An address belongs to one object of one slab only. -/
theorem HeapInv.slot_unique (hinv : HeapInv A Holds others h)
    (hmem : slabp ∈ h.slabsOf cachep) (hk : k < (h.cacheCache cachep).num)
    (hmem' : slabp' ∈ h.slabsOf cachep') (hk' : k' < (h.cacheCache cachep').num) {x : Nat}
    (hlo : objAddr (h.cacheCache cachep) slabp k ≤ x)
    (hhi : x < objAddr (h.cacheCache cachep) slabp k + (h.cacheCache cachep).objsize)
    (hlo' : objAddr (h.cacheCache cachep') slabp' k' ≤ x)
    (hhi' : x < objAddr (h.cacheCache cachep') slabp' k' + (h.cacheCache cachep').objsize) :
    cachep = cachep' ∧ slabp = slabp' ∧ k = k' := by
  have hpage := hinv.objPage hmem hk hlo hhi
  rw [hinv.objPage hmem' hk' hlo' hhi'] at hpage
  obtain rfl := Option.some.inj hpage
  obtain rfl := hinv.cache_unique hmem hmem'
  refine ⟨rfl, rfl, ?_⟩
  rcases Nat.lt_trichotomy k k' with hlt | heq | hlt
  · have := objAddr_add_le_of_lt (h.cacheCache cachep) slabp' hlt
    omega
  · exact heq
  · have := objAddr_add_le_of_lt (h.cacheCache cachep) slabp' hlt
    omega

theorem HeapInv.objAddr_unique (hinv : HeapInv A Holds others h)
    (hmem : slabp ∈ h.slabsOf cachep) (hk : k < (h.cacheCache cachep).num)
    (hmem' : slabp' ∈ h.slabsOf cachep') (hk' : k' < (h.cacheCache cachep').num)
    (heq : objAddr (h.cacheCache cachep) slabp k = objAddr (h.cacheCache cachep') slabp' k') :
    cachep = cachep' ∧ slabp = slabp' ∧ k = k' := by
  have hpos := (hinv.table.geometry (hinv.table.lt_of_mem hmem)).objsize_pos
  have hpos' := (hinv.table.geometry (hinv.table.lt_of_mem hmem')).objsize_pos
  exact hinv.slot_unique hmem hk hmem' hk' (Nat.le_refl _) (by omega) (by omega) (by omega)

theorem LiveInv.of_empty (hempty : ∀ c, h.slabsOf c = []) : LiveInv h [] := by
  constructor
  · intro o ho
    cases ho
  · exact List.nodup_nil
  all_goals
    intro c slabp hmem
    rw [hempty] at hmem
    cases hmem

theorem taken_updateSlabs (table : Nat → KmemCache) (f : List Nat → List Nat) (c : Nat) :
    taken (updateSlabs table cachep f c) slabp live = taken (table c) slabp live := by
  simp [taken, objAddr]

/-- The bufctl array of a new slab is the list of all its objects. -/
theorem newSlab_freeList {c : KmemCache} (hgeo : Geometry c) (cachep slabp : Nat) (old : Slab) :
    FreeList (newSlab cachep c slabp old).bufctl bufctlEnd (newSlab cachep c slabp old).free
      c.num ∅ := by
  have hlt := hgeo.num_lt
  have hfill : ∀ i, forUpTo
      (fun i bufctl => modifyAt bufctl (0 + i) fun _ => (i + 1) % 2 ^ 16) c.num old.bufctl i =
      if 0 ≤ i ∧ i < 0 + c.num then (i - 0 + 1) % 2 ^ 16 else old.bufctl i :=
    forUpTo_modifyAt 0 (fun i _ => (i + 1) % 2 ^ 16) c.num old.bufctl
  simp only [bufctlEnd] at hlt
  apply FreeList.fresh hgeo.num_pos
  · simp only [bufctlEnd]
    omega
  · intro k hk
    simp only [newSlab]
    rw [Function.update_of_ne (by omega), hfill, if_pos (by omega)]
    omega
  · simp only [newSlab]
    exact Function.update_self ..

/-- Growing a cache concerns no live object. -/
theorem LiveInv.addSlab (hlive : LiveInv h live) (hinv : HeapInv A Holds others h)
    (hc : cachep < defaultSpecs.length) {s : σ}
    (hnext : HeapInv A Holds others (h.addSlab cachep slabp s))
    (hfresh : ∀ c, slabp ∉ h.slabsOf c) : LiveInv (h.addSlab cachep slabp s) live := by
  have hmem_iff := mem_slabsOf_addSlab hinv.table hc slabp s
  have hne : ∀ c, ∀ b ∈ h.slabsOf c, b ≠ slabp := by
    intro c b hb heq
    exact hfresh c (heq ▸ hb)
  have hnew : taken (h.cacheCache cachep) slabp live = ∅ := by
    apply Finset.eq_empty_of_forall_notMem
    intro k hk
    obtain ⟨hlt, hmem⟩ := mem_taken.mp hk
    obtain ⟨o, ho, haddr⟩ := List.mem_map.mp hmem
    obtain ⟨b, hb, j, hj, hoaddr⟩ := hlive.slot o ho
    have hk : k < ((h.addSlab cachep slabp s).cacheCache cachep).num := by simpa using hlt
    have hj' : j < ((h.addSlab cachep slabp s).cacheCache o.cachep).num := by simpa using hj
    have hunique := hnext.objAddr_unique ((hmem_iff cachep slabp).mpr (.inl ⟨rfl, rfl⟩)) hk
      ((hmem_iff o.cachep b).mpr (.inr hb)) hj'
      (by simpa [objAddr] using haddr.symm.trans hoaddr)
    exact hfresh o.cachep (hunique.2.1 ▸ hb)
  constructor
  · intro o ho
    obtain ⟨b, hb, j, hj, hoaddr⟩ := hlive.slot o ho
    exact ⟨b, (hmem_iff o.cachep b).mpr (.inr hb), j, by simpa using hj,
      by simpa [objAddr] using hoaddr⟩
  · exact hlive.nodup
  · intro c b hb
    simp only [Heap.addSlab, taken_updateSlabs, updateSlabs_num]
    rcases (hmem_iff c b).mp hb with ⟨rfl, rfl⟩ | hold
    · rw [modifyAt_same, hnew]
      exact newSlab_freeList (hinv.table.geometry hc) _ _ _
    · rw [modifyAt_of_ne _ (hne c b hold)]
      exact hlive.chain c b hold
  · intro c b hb
    simp only [Heap.addSlab, taken_updateSlabs]
    rcases (hmem_iff c b).mp hb with ⟨rfl, rfl⟩ | hold
    · rw [modifyAt_same, hnew]
      rfl
    · rw [modifyAt_of_ne _ (hne c b hold)]
      exact hlive.inuse c b hold

/-- A slab without live objects can be taken away. -/
theorem LiveInv.removeSlab (hlive : LiveInv h live) (hinv : HeapInv A Holds others h)
    (hmem : slabp ∈ h.slabsOf cachep) (hinuse : (h.slabAt slabp).inuse = 0) (s : σ) :
    LiveInv (h.removeSlab cachep slabp s) live := by
  have hmem_iff := mem_slabsOf_removeSlab hinv hmem s
  constructor
  · intro o ho
    obtain ⟨b, hb, j, hj, hoaddr⟩ := hlive.slot o ho
    refine ⟨b, (hmem_iff o.cachep b).mpr ⟨hb, ?_⟩, j, by simpa [Heap.removeSlab] using hj,
      by simpa [objAddr, Heap.removeSlab] using hoaddr⟩
    intro heq
    subst heq
    have hcard := hlive.inuse o.cachep b hb
    rw [hinuse, eq_comm, Finset.card_eq_zero] at hcard
    have hin : j ∈ taken (h.cacheCache o.cachep) b live :=
      mem_taken.mpr ⟨hj, hoaddr ▸ List.mem_map_of_mem ho⟩
    rw [hcard] at hin
    cases hin
  · exact hlive.nodup
  · intro c b hb
    have hold := ((hmem_iff c b).mp hb).1
    simpa only [Heap.removeSlab, taken_updateSlabs, updateSlabs_num] using hlive.chain c b hold
  · intro c b hb
    have hold := ((hmem_iff c b).mp hb).1
    simpa only [Heap.removeSlab, taken_updateSlabs] using hlive.inuse c b hold

theorem taken_cons_self (hgeo : Geometry (h.cacheCache cachep))
    (hk : k < (h.cacheCache cachep).num) (c : Nat) :
    taken (h.cacheCache cachep) slabp (⟨objAddr (h.cacheCache cachep) slabp k, c⟩ :: live) =
      insert k (taken (h.cacheCache cachep) slabp live) := by
  ext j
  simp only [Finset.mem_insert, mem_taken, List.map_cons, List.mem_cons]
  constructor
  · intro hj
    obtain ⟨hlt, heq | hmem⟩ := hj
    · exact .inl (hgeo.objAddr_injective heq)
    · exact .inr ⟨hlt, hmem⟩
  · intro hj
    obtain rfl | ⟨hlt, hmem⟩ := hj
    · exact ⟨hk, .inl rfl⟩
    · exact ⟨hlt, .inr hmem⟩

/-- A step inside one slab that leaves the live objects of all other slabs alone. -/
theorem LiveInv.modifySlab {live' : List Obj} {f : Slab → Slab} (hlive : LiveInv h live)
    (hinv : HeapInv A Holds others h) (hmem : slabp ∈ h.slabsOf cachep)
    (hslot : ∀ o ∈ live', ∃ b ∈ h.slabsOf o.cachep, ∃ k < (h.cacheCache o.cachep).num,
      o.addr = objAddr (h.cacheCache o.cachep) b k)
    (hnodup : (live'.map Obj.addr).Nodup)
    (hother : ∀ c, ∀ b ∈ h.slabsOf c, b ≠ slabp →
      taken (h.cacheCache c) b live' = taken (h.cacheCache c) b live)
    (hchain : FreeList (f (h.slabAt slabp)).bufctl bufctlEnd (f (h.slabAt slabp)).free
      (h.cacheCache cachep).num (taken (h.cacheCache cachep) slabp live'))
    (hinuse : (f (h.slabAt slabp)).inuse = (taken (h.cacheCache cachep) slabp live').card) :
    LiveInv { h with slabAt := modifyAt h.slabAt slabp f } live' := by
  refine ⟨hslot, hnodup, ?_, ?_⟩
  · intro c b hb
    rcases eq_or_ne b slabp with rfl | hne
    · obtain rfl := hinv.cache_unique hb hmem
      simp only [modifyAt_same]
      exact hchain
    · simp only [modifyAt_of_ne _ hne]
      rw [hother c b hb hne]
      exact hlive.chain c b hb
  · intro c b hb
    rcases eq_or_ne b slabp with rfl | hne
    · obtain rfl := hinv.cache_unique hb hmem
      simp only [modifyAt_same]
      exact hinuse
    · simp only [modifyAt_of_ne _ hne]
      rw [hother c b hb hne]
      exact hlive.inuse c b hb

/-- Taking the first free object of a slab makes it live. -/
theorem LiveInv.take (hlive : LiveInv h live) (hinv : HeapInv A Holds others h)
    (hmem : slabp ∈ h.slabsOf cachep)
    (hfree : hasFree h (h.cacheCache cachep) slabp = true) :
    LiveInv (takeObject cachep slabp h).2
      (⟨(takeObject cachep slabp h).1, cachep⟩ :: live) := by
  have hgeo := hinv.table.geometry (hinv.table.lt_of_mem hmem)
  have hend : (h.slabAt slabp).free ≠ bufctlEnd := by
    simp only [hasFree, decide_eq_true_eq] at hfree
    exact hfree.1
  have hchain := hlive.chain cachep slabp hmem
  obtain ⟨hlt, hnot⟩ := hchain.head_free hend
  have haddr : (takeObject cachep slabp h).1 =
      objAddr (h.cacheCache cachep) slabp (h.slabAt slabp).free := by
    simp only [takeObject, objAddr, (hinv.header cachep slabp hmem).sMem]
  have hself : ∀ c, taken (h.cacheCache cachep) slabp
      (⟨objAddr (h.cacheCache cachep) slabp (h.slabAt slabp).free, c⟩ :: live) = _ :=
    fun c => taken_cons_self hgeo hlt c
  have hother : ∀ c, ∀ b ∈ h.slabsOf c, b ≠ slabp →
      taken (h.cacheCache c) b
        (⟨objAddr (h.cacheCache cachep) slabp (h.slabAt slabp).free, cachep⟩ :: live) =
      taken (h.cacheCache c) b live := by
    intro c b hb hne
    ext j
    simp only [mem_taken, List.map_cons, List.mem_cons, and_congr_right_iff]
    intro hj
    apply or_iff_right
    intro heq
    exact hne (hinv.objAddr_unique hb hj hmem hlt heq).2.1
  rw [haddr]
  apply hlive.modifySlab hinv hmem
  · intro o ho
    rcases List.mem_cons.mp ho with rfl | ho
    · exact ⟨slabp, hmem, _, hlt, rfl⟩
    · exact hlive.slot o ho
  · refine List.nodup_cons.mpr ⟨?_, hlive.nodup⟩
    intro hin
    exact hnot (mem_taken.mpr ⟨hlt, hin⟩)
  · exact hother
  · rw [hself]
    exact hchain.take hend
  · rw [hself, Finset.card_insert_of_notMem hnot, hlive.inuse cachep slabp hmem]

theorem map_addr_eraseP (live : List Obj) (a : Nat) :
    (live.eraseP (·.addr = a)).map Obj.addr = (live.map Obj.addr).erase a := by
  rw [List.erase_eq_eraseP', List.eraseP_map]
  congr 1

/-- What `caos_kfree` does with a live object: its index in its slab is put in
front of the free list. -/
theorem LiveInv.caosKfree_eq (hlive : LiveInv h live) (spec : PageSpec A Holds)
    (hinv : HeapInv A Holds others h) (hmem : slabp ∈ h.slabsOf cachep)
    (hk : k < (h.cacheCache cachep).num) {a : Nat}
    (haddr : a = objAddr (h.cacheCache cachep) slabp k) (hin : a ∈ live.map Obj.addr)
    (hcall : caosKfree A a h = some h') : h' = putObject slabp k h := by
  have hgeo := hinv.table.geometry (hinv.table.lt_of_mem hmem)
  have hpos := hgeo.objsize_pos
  have hhead := hinv.header cachep slabp hmem
  have hpage := hinv.objPage hmem hk (x := a) (by omega) (by omega)
  have hinuse : (h.slabAt slabp).inuse ≠ 0 := by
    rw [hlive.inuse cachep slabp hmem]
    exact Finset.card_ne_zero_of_mem (mem_taken.mpr ⟨hk, haddr ▸ hin⟩)
  have hlt : a < 2 ^ 64 := by
    obtain ⟨first, rfl⟩ := hinv.base cachep slabp hmem
    have hfits := spec.fits hinv.holds ⟨first, (h.cacheCache cachep).gfporder⟩
      (.inr ⟨cachep, hmem, rfl⟩)
    have hend := hgeo.objAddr_add_le (frameAddr first) hk
    simp only [frameAddr, va, pageOffset, pageSize, pageShift, maxFrames] at hfits hend haddr
    omega
  have hindex : sub64 a (h.slabAt slabp).sMem / (h.cacheCache cachep).objsize = k := by
    have hsub : sub64 a (h.slabAt slabp).sMem = k * (h.cacheCache cachep).objsize := by
      rw [sub64, hhead.sMem]
      unfold objAddr at haddr
      omega
    rw [hsub, Nat.mul_div_cancel _ hpos]
  simp only [caosKfree, hpage, hhead.cache, hindex, Nat.le_zero, hinuse, if_false] at hcall
  split at hcall
  · exact (Option.some.inj hcall).symm
  · cases hcall

theorem LiveInv.taken_eraseP (hlive : LiveInv h live) (hgeo : Geometry (h.cacheCache cachep))
    (k : Nat) :
    taken (h.cacheCache cachep) slabp
        (live.eraseP (·.addr = objAddr (h.cacheCache cachep) slabp k)) =
      (taken (h.cacheCache cachep) slabp live).erase k := by
  ext j
  simp only [Finset.mem_erase, mem_taken, map_addr_eraseP, hlive.nodup.mem_erase_iff]
  constructor
  · intro hj
    obtain ⟨hlt, hne, hmem⟩ := hj
    exact ⟨fun heq => hne (heq ▸ rfl), hlt, hmem⟩
  · intro hj
    obtain ⟨hne, hlt, hmem⟩ := hj
    exact ⟨hlt, fun heq => hne (hgeo.objAddr_injective heq), hmem⟩

/-- The head of a free list fits into a bufctl entry. -/
theorem LiveInv.free_mod (hlive : LiveInv h live) (hinv : HeapInv A Holds others h)
    (hmem : slabp ∈ h.slabsOf cachep) :
    (h.slabAt slabp).free % 2 ^ 16 = (h.slabAt slabp).free := by
  have hlt := (hinv.table.geometry (hinv.table.lt_of_mem hmem)).num_lt
  apply Nat.mod_eq_of_lt
  simp only [bufctlEnd] at hlt
  rcases eq_or_ne (h.slabAt slabp).free bufctlEnd with heq | hne
  · rw [heq]
    decide
  · have := ((hlive.chain cachep slabp hmem).head_free hne).1
    omega

/-- Freeing a live object takes it away from the live objects. -/
theorem LiveInv.put (hlive : LiveInv h live) (spec : PageSpec A Holds)
    (hinv : HeapInv A Holds others h) {a : Nat} (hin : ∃ o ∈ live, o.addr = a)
    (hcall : caosKfree A a h = some h') : LiveInv h' (live.eraseP (·.addr = a)) := by
  have hlive_map : a ∈ live.map Obj.addr := List.mem_map.mpr hin
  obtain ⟨o, ho, rfl⟩ := hin
  obtain ⟨slabp, hmem, k, hk, haddr⟩ := hlive.slot o ho
  have hgeo := hinv.table.geometry (hinv.table.lt_of_mem hmem)
  obtain rfl := hlive.caosKfree_eq spec hinv hmem hk haddr hlive_map hcall
  have hchain := hlive.chain o.cachep slabp hmem
  have hkin : k ∈ taken (h.cacheCache o.cachep) slabp live :=
    mem_taken.mpr ⟨hk, haddr ▸ hlive_map⟩
  have hsame : taken (h.cacheCache o.cachep) slabp (live.eraseP (·.addr = o.addr)) =
      (taken (h.cacheCache o.cachep) slabp live).erase k := by
    rw [haddr]
    exact hlive.taken_eraseP hgeo k
  have hother : ∀ c, ∀ b ∈ h.slabsOf c, b ≠ slabp →
      taken (h.cacheCache c) b (live.eraseP (·.addr = o.addr)) =
        taken (h.cacheCache c) b live := by
    intro c b hb hne
    ext j
    simp only [mem_taken, map_addr_eraseP, hlive.nodup.mem_erase_iff, haddr,
      and_congr_right_iff, and_iff_right_iff_imp]
    intro hj _ heq
    exact hne (hinv.objAddr_unique hb hj hmem hk heq).2.1
  have hfree := hlive.free_mod hinv hmem
  have hkend : k ≠ bufctlEnd := by
    have := hgeo.num_lt
    omega
  apply hlive.modifySlab hinv hmem
  · intro p hp
    exact hlive.slot p (List.mem_of_mem_eraseP hp)
  · rw [map_addr_eraseP]
    exact hlive.nodup.erase _
  · exact hother
  · simp only [hfree]
    rw [hsame]
    exact hchain.give hkin hkend
  · simp only [hsame]
    rw [Finset.card_erase_of_mem hkin, hlive.inuse o.cachep slabp hmem]

/-- `caos_kmalloc` keeps both invariants; its result joins the live objects. -/
theorem LiveInv.kmalloc (hlive : LiveInv h live) (spec : PageSpec A Holds)
    (hinv : HeapInv A Holds others h) {size flags fuel : Nat} {result : KmallocResult}
    (hcall : caosKmalloc A size flags fuel h = some (result, h')) :
    LiveInv h' (match result with
      | .object addr cachep => ⟨addr, cachep⟩ :: live
      | _ => live) := by
  have hgrow : ∀ h c flags, (HeapInv A Holds others h ∧ LiveInv h live) →
      (h.cacheCache c).slabs ≠ none →
      HeapInv A Holds others (kmemCacheGrow A c flags h).2 ∧
        LiveInv (kmemCacheGrow A c flags h).2 live := by
    intro h c flags ⟨hinv, hlive⟩ hslabs
    have hc := hinv.table.lt_of_slabs hslabs
    rcases hinv.grow spec hc flags with ⟨s, hcall, hnext, _⟩ | ⟨first, s, hcall, hnext, hfresh, _⟩
    · rw [hcall]
      exact ⟨hnext, hlive.slot, hlive.nodup, hlive.chain, hlive.inuse⟩
    · rw [hcall]
      exact ⟨hnext, hlive.addSlab hinv hc hnext hfresh⟩
  rcases caosKmalloc_cases hgrow ⟨hinv, hlive⟩ hcall with
    ⟨hnone, _, hnext⟩ | ⟨h₁, c, ⟨hinv₁, hlive₁⟩, slabp, hmem, hfree, rfl, rfl⟩
  · cases result with
    | null => exact hnext
    | fault => exact hnext
    | object addr cachep => exact absurd rfl (hnone addr cachep)
  · exact hlive₁.take hinv₁ hmem hfree

/-- A client's calls keep both invariants. -/
theorem ClientStep.invariant (spec : PageSpec A Holds) {t t' : HeapTrace σ} {op : HeapOp}
    (hinv : ∃ others, HeapInv A Holds others t.heap ∧ LiveInv t.heap t.live)
    (hstep : ClientStep A t op t') :
    ∃ others, HeapInv A Holds others t'.heap ∧ LiveInv t'.heap t'.live := by
  obtain ⟨others, hinv, hlive⟩ := hinv
  obtain ⟨hstep, hclient⟩ := hstep
  cases hstep with
  | kmallocNull hcall => exact ⟨others, hinv.kmalloc spec hcall, hlive.kmalloc spec hinv hcall⟩
  | kmallocObject hcall => exact ⟨others, hinv.kmalloc spec hcall, hlive.kmalloc spec hinv hcall⟩
  | kfree hcall => exact ⟨others, hinv.kfree hcall, hlive.put spec hinv (hclient _ rfl) hcall⟩
  | shrink hcall =>
      rcases hinv.shrink spec hcall with
        ⟨rfl, _⟩ | ⟨_, s, others', hmem, hinuse, rfl, hnext, _⟩
      · exact ⟨others, hinv, hlive⟩
      · exact ⟨others', hnext, hlive.removeSlab hinv hmem hinuse s⟩

end Live

/-- Every live object lies in the pages of a slab of its cache behind the header
and the bufctl array, live objects do not overlap, and the free list of every
slab holds exactly the indices of its other objects. -/
structure HeapExclusive {σ : Type} (h : Heap σ) (live : List Obj) : Prop where
  in_bounds : ∀ o ∈ live, ∃ slabp ∈ h.slabsOf o.cachep,
    slabp + sizeofSlab + sizeofBufctl * (h.cacheCache o.cachep).num ≤ o.addr ∧
    o.addr + (h.cacheCache o.cachep).objsize ≤
      slabp + 2 ^ (h.cacheCache o.cachep).gfporder * pageSize
  disjoint : live.Pairwise fun o p =>
    o.addr + (h.cacheCache o.cachep).objsize ≤ p.addr ∨
      p.addr + (h.cacheCache p.cachep).objsize ≤ o.addr
  chain : ∀ cachep, ∀ slabp ∈ h.slabsOf cachep, ∃ l,
    Chain (h.slabAt slabp).bufctl bufctlEnd (h.slabAt slabp).free l ∧ l.Nodup ∧
    l.length + (h.slabAt slabp).inuse = (h.cacheCache cachep).num ∧
    ∀ k, k ∈ l ↔ k < (h.cacheCache cachep).num ∧
      ∀ o ∈ live, o.addr ≠ (h.slabAt slabp).sMem + k * (h.cacheCache cachep).objsize

theorem LiveInv.exclusive {σ : Type} {A : PageAllocator σ} {Holds : σ → Set Block → Prop}
    {others : Set Block} {h : Heap σ} {live : List Obj} (hlive : LiveInv h live)
    (hinv : HeapInv A Holds others h) : HeapExclusive h live := by
  constructor
  · intro o ho
    obtain ⟨slabp, hmem, k, hk, haddr⟩ := hlive.slot o ho
    have hgeo := hinv.table.geometry (hinv.table.lt_of_mem hmem)
    rw [haddr]
    exact ⟨slabp, hmem, hgeo.le_objAddr slabp k, hgeo.objAddr_add_le slabp hk⟩
  · have hpair := hlive.nodup
    rw [List.Nodup, List.pairwise_map] at hpair
    refine hpair.imp_of_mem ?_
    intro o p ho hp hne
    obtain ⟨slabp, hmem, k, hk, haddr⟩ := hlive.slot o ho
    obtain ⟨slabp', hmem', k', hk', haddr'⟩ := hlive.slot p hp
    -- a common byte would belong to one object only
    by_contra hoverlap
    push Not at hoverlap
    have hpos := (hinv.table.geometry (hinv.table.lt_of_mem hmem)).objsize_pos
    have hpos' := (hinv.table.geometry (hinv.table.lt_of_mem hmem')).objsize_pos
    obtain ⟨hcache, hslab, hindex⟩ := hinv.slot_unique (x := max o.addr p.addr) hmem hk hmem' hk'
      (by omega) (by omega) (by omega) (by omega)
    exact hne (by rw [haddr, haddr', hcache, hslab, hindex])
  · intro c slabp hmem
    have hchain := hlive.chain c slabp hmem
    obtain ⟨l, hl, hmem_iff⟩ := hchain.chain
    refine ⟨l, hl, hl.nodup, ?_, ?_⟩
    · rw [hlive.inuse c slabp hmem]
      exact hchain.length_add_card hl
    · intro k
      rw [hmem_iff, mem_taken, (hinv.header c slabp hmem).sMem]
      simp only [objAddr, List.mem_map, not_and, not_exists]
      constructor
      · intro hk
        exact ⟨hk.1, fun o ho => hk.2 hk.1 o ho⟩
      · intro hk
        exact ⟨hk.1, fun _ o ho => hk.2 o ho⟩

/-- In every run of a client over any page allocator that hands out no frame
twice, from the heap `kmem_cache_init` leaves. -/
theorem heap_exclusive {σ : Type} (A : PageAllocator σ) (Holds : σ → Set Block → Prop)
    (spec : PageSpec A Holds) (s : σ) (blocks : Set Block) (h0 : Holds s blocks)
    (memory : Nat → Slab) (start : Heap σ) (hinit : kmemCacheInit A memory s = some start)
    (ops : List HeapOp) (t : HeapTrace σ) (hrun : Run (ClientStep A) ⟨start, []⟩ ops t) :
    HeapExclusive t.heap t.live := by
  have hstart := kmemCacheInit_spec spec h0 hinit
  obtain ⟨cachePage, hinv⟩ := hstart.inv
  obtain ⟨others, hinv, hlive⟩ := hrun.invariant
    (I := fun t => ∃ others, HeapInv A Holds others t.heap ∧ LiveInv t.heap t.live)
    ⟨_, hinv, LiveInv.of_empty hstart.empty⟩ (fun _ _ _ ht hstep => hstep.invariant spec ht)
  exact hlive.exclusive hinv

/-- The heap of a machine with 8 pages of which the first is busy. -/
def smallHeap : Option (Heap PageState) :=
  kmemCacheInit zoneAllocator (fun _ => ⟨0, 0, 0, 0, fun _ => 0, none⟩)
    (memoryInit 8 (memMapInit fun f => f == 0))

/-- The calls of a client of this heap. -/
def smallRun (ops : List HeapOp) : Option (HeapTrace PageState) :=
  smallHeap.bind fun start => ops.foldlM (clientNext zoneAllocator 4) ⟨start, []⟩

/-- Two objects of different caches, one of them freed and handed out again. -/
theorem small_heap_exclusive :
    ∃ t, smallRun [.kmalloc 16 0, .kmalloc 24 0, .kfree (frameAddr 3 + 1088), .kmalloc 9 0] =
        some t ∧
      t.live = [⟨frameAddr 3 + 1088, 0⟩, ⟨frameAddr 5 + 576, 1⟩] ∧
      HeapExclusive t.heap t.live := by
  have hlive : (smallRun [.kmalloc 16 0, .kmalloc 24 0, .kfree (frameAddr 3 + 1088),
      .kmalloc 9 0]).map HeapTrace.live =
      some [⟨frameAddr 3 + 1088, 0⟩, ⟨frameAddr 5 + 576, 1⟩] := by decide +kernel
  obtain ⟨t, hrun, hlive⟩ := Option.map_eq_some_iff.mp hlive
  refine ⟨t, hrun, hlive, ?_⟩
  obtain ⟨start, hinit, hcalls⟩ := Option.bind_eq_some_iff.mp hrun
  exact heap_exclusive zoneAllocator _ (zoneAllocator_spec _ _ (by decide)) _ ∅
    (zoneHolds_start _ 8) _ start hinit _ t (clientRun_sound hcalls)

end Caos
