import Caos.Mp.Processors

/-!
`smp_scan_config` and `mp_spec_init`: the search for the MP floating pointer structure in
the three areas in which a BIOS may leave it. The search records the addresses it looks
at; the code keeps no such record.
-/

namespace Caos

open Lib

/-- `phys_to_virt`, on 64-bit words. -/
def physToVirt (address : BitVec 64) : BitVec 64 := address + BitVec.ofNat 64 pageOffset

/-- `SMP_MAGIC_IDENT`. -/
def smpMagicIdent : UInt32 :=
  '_'.val <<< 24 ||| 'P'.val <<< 16 ||| 'M'.val <<< 8 ||| '_'.val

/-- `struct intel_mp_floating`, without the fields that nothing reads. -/
structure IntelMpFloating where
  mpfPhysptr : UInt32
  mpfLength : UInt8
  mpfSpecification : UInt8
  mpfFeature1 : UInt8

def readMpFloating (mem : ByteMemory) (mpf : BitVec 64) : IntelMpFloating where
  mpfPhysptr := read32 mem (mpf.toNat + 4)
  mpfLength := mem (mpf.toNat + 8)
  mpfSpecification := mem (mpf.toNat + 9)
  mpfFeature1 := mem (mpf.toNat + 11)

/-- The globals `smp_found_config` and `mpf_found`. -/
structure MpfGlobals where
  smpFoundConfig : Nat
  mpfFound : BitVec 64
  deriving DecidableEq

/-- The locals of `smp_scan_config`, and the addresses examined so far. -/
structure ScanLoop where
  basep : BitVec 64
  length : BitVec 64
  examined : List (BitVec 64)

/-- What `smp_scan_config` returns, leaves in the globals and has examined. -/
structure ScanResult where
  value : Bool
  globals : MpfGlobals
  examined : List (BitVec 64)
  deriving DecidableEq

/-- One iteration of `smp_scan_config`. -/
def scanStep (mem : ByteMemory) (globals : MpfGlobals) (l : ScanLoop) :
    ScanLoop ⊕ ScanResult :=
  if l.length > 0 then
    let mpf := readMpFloating mem l.basep
    let examined := l.examined ++ [l.basep]
    if read32 mem l.basep.toNat = smpMagicIdent ∧ mpf.mpfLength = 1 ∧
        (mpf.mpfSpecification = 1 ∨ mpf.mpfSpecification = 4) then
      .inr ⟨true, { smpFoundConfig := 1, mpfFound := l.basep }, examined⟩
    -- `basep` counts words of four bytes
    else .inl { basep := l.basep + 4 * 4, length := l.length - 16, examined := examined }
  else .inr ⟨false, globals, l.examined⟩

/-- `smp_scan_config`, with at most `fuel` tests of its loop. -/
def smpScanConfig (mem : ByteMemory) (base length : BitVec 64) (fuel : Nat)
    (globals : MpfGlobals) : Option ScanResult :=
  iterate (scanStep mem globals) fuel
    { basep := physToVirt base, length := length, examined := [] }

/-- What `mp_spec_init` clears before it reads the table. -/
def initCpuInfo (s : MpState) : MpState :=
  { s with
    disabledCpus := 0
    bootCpuId := 0
    numProcessors := 0
    cpuPresentMap := 0
    mpCurrentPciId := 0
    nrIoapics := 0
    mpIrqEntries := 0
    mpIoapics := fun i => if i < maxIoApics then ⟨0, 0, 0, 0, 0⟩ else s.mpIoapics i
    mpIrqs := fun i => if i < maxIrqSources then ⟨0, 0, 0, 0, 0, 0, 0⟩ else s.mpIrqs i }

/-- How `mp_spec_init` ends: it returns, or the machine is in `halt()`. -/
inductive InitResult where
  | ret (globals : MpfGlobals) (s : MpState)
  | halted (globals : MpfGlobals)

/-- `phys_to_virt(mpf->mpf_physptr)`. -/
def mpTableAddr (mem : ByteMemory) (mpf : BitVec 64) : Nat :=
  (physToVirt ((readMpFloating mem mpf).mpfPhysptr.toBitVec.setWidth 64)).toNat

/-- `mp_spec_init` behind `mpf = mpf_found`. -/
def mpSpecInitFound (mem : ByteMemory) (fuel : Nat) (globals : MpfGlobals) (s : MpState) :
    Option InitResult :=
  let mpf := readMpFloating mem globals.mpfFound
  if mpf.mpfFeature1 = 0 ∧ mpf.mpfPhysptr ≠ 0 then
    match smpReadMpc mem (mpTableAddr mem globals.mpfFound) fuel (initCpuInfo s) with
    | some (.ret true s) => some (.ret globals s)
    | some (.ret false _) | some .halted => some (.halted globals)
    | none => none
  else some (.halted globals)

/-- `mp_spec_init`, with at most `fuel` iterations of each of its loops. -/
def mpSpecInit (mem : ByteMemory) (fuel : Nat) (globals : MpfGlobals) (s : MpState) :
    Option InitResult := do
  let r ← smpScanConfig mem 0x0 0x400 fuel globals
  -- `||`: the next area is searched only where the last one has nothing
  let r ← if r.value then some r else smpScanConfig mem (639 * 0x400) 0x400 fuel r.globals
  let r ← if r.value then some r else smpScanConfig mem 0xf0000 0x10000 fuel r.globals
  if r.value then mpSpecInitFound mem fuel r.globals s else some (.halted r.globals)

/-! ## What the search is for -/

/-- An MP floating pointer structure at `p`: its signature, its length in paragraphs and
its version. -/
def IsMpFloating (mem : ByteMemory) (p : BitVec 64) : Prop :=
  StoredAt mem p.toNat (literal "_MP_") ∧ mem (p.toNat + 8) = 1 ∧
    (mem (p.toNat + 9) = 1 ∨ mem (p.toNat + 9) = 4)

instance (mem : ByteMemory) : DecidablePred (IsMpFloating mem) :=
  fun _ => inferInstanceAs (Decidable (_ ∧ _ ∧ (_ ∨ _)))

/-- Paragraph `k` from `base` on. -/
def paragraph (base : BitVec 64) (k : Nat) : BitVec 64 :=
  physToVirt (base + BitVec.ofNat 64 (16 * k))

/-- The paragraphs of an area, in ascending order. -/
def paragraphs (base length : BitVec 64) : List (BitVec 64) :=
  (List.range (length.toNat / 16)).map (paragraph base)

/-- A search that ends with `r`: it has looked at paragraphs of the area alone, it succeeds
exactly if one of them holds the structure, and it leaves the lowest of these behind. -/
structure ExactSearch (mem : ByteMemory) (base length : BitVec 64) (globals : MpfGlobals)
    (r : ScanResult) : Prop where
  iterations : r.examined.length ≤ length.toNat / 16
  inside : ∀ p ∈ r.examined, p ∈ paragraphs base length
  found_iff : r.value = true ↔ ∃ p ∈ paragraphs base length, IsMpFloating mem p
  lowest : r.value = true → ∃ k < length.toNat / 16, r.globals.mpfFound = paragraph base k ∧
    IsMpFloating mem (paragraph base k) ∧ ∀ j < k, ¬ IsMpFloating mem (paragraph base j)
  failed : r.value = false → r.globals = globals

/-- The first 1K, the last 1K below 640K and the BIOS area. -/
def mpAreas : List (BitVec 64 × BitVec 64) :=
  [(0x0, 0x400), (639 * 0x400, 0x400), (0xf0000, 0x10000)]

/-- The first paragraph that holds the structure, in the order of the areas. -/
def firstMpFloating (mem : ByteMemory) : Option (BitVec 64) :=
  (mpAreas.flatMap fun area => paragraphs area.1 area.2).find? fun p => IsMpFloating mem p

section Scan

variable {mem : ByteMemory} {base length p : BitVec 64} {globals : MpfGlobals} {k n : Nat}

theorem bytes32_smpMagicIdent : bytes32 smpMagicIdent = literal "_MP_" := by decide

/-- The test of the loop recognises the structure. -/
theorem isMpFloating_iff : IsMpFloating mem p ↔
    read32 mem p.toNat = smpMagicIdent ∧ (readMpFloating mem p).mpfLength = 1 ∧
      ((readMpFloating mem p).mpfSpecification = 1 ∨
        (readMpFloating mem p).mpfSpecification = 4) := by
  have hsignature : StoredAt mem p.toNat (literal "_MP_") ↔
      read32 mem p.toNat = smpMagicIdent := by
    rw [← bytes32_smpMagicIdent]
    constructor
    · exact read32_of_storedAt
    · intro h
      rw [← h]
      exact storedAt_read32 p.toNat
  rw [IsMpFloating, hsignature]
  rfl

/-- The state in front of iteration `k` of `n`. -/
def scanFront (base : BitVec 64) (n k : Nat) : ScanLoop where
  basep := paragraph base k
  length := BitVec.ofNat 64 (16 * (n - k))
  examined := (List.range k).map (paragraph base)

theorem paragraph_succ : paragraph base k + 4 * 4 = paragraph base (k + 1) := by
  have hnext : BitVec.ofNat 64 (16 * (k + 1)) = BitVec.ofNat 64 (16 * k) + 4 * 4 := by
    rw [Nat.mul_succ, BitVec.ofNat_add]
    rfl
  rw [paragraph, paragraph, physToVirt, physToVirt, hnext]
  ac_rfl

theorem scanStep_front (hn : 16 * n < 2 ^ 64) (hk : k < n) :
    scanStep mem globals (scanFront base n k) =
      if IsMpFloating mem (paragraph base k) then
        .inr ⟨true, { smpFoundConfig := 1, mpfFound := paragraph base k },
          (List.range (k + 1)).map (paragraph base)⟩
      else .inl (scanFront base n (k + 1)) := by
  have hlength : BitVec.ofNat 64 (16 * (n - k)) > 0 := by
    rw [gt_iff_lt, BitVec.lt_def, BitVec.toNat_ofNat, Nat.mod_eq_of_lt (by omega)]
    exact Nat.mul_pos (by decide) (by omega)
  have hrest : BitVec.ofNat 64 (16 * (n - k)) - 16 = BitVec.ofNat 64 (16 * (n - (k + 1))) := by
    have h16 : (16 : BitVec 64).toNat = 16 := rfl
    apply BitVec.eq_of_toNat_eq
    simp only [BitVec.toNat_sub, BitVec.toNat_ofNat, h16]
    omega
  have hexamined : (List.range k).map (paragraph base) ++ [paragraph base k] =
      (List.range (k + 1)).map (paragraph base) := by
    rw [List.range_succ, List.map_append, List.map_singleton]
  simp only [scanStep, scanFront, if_pos hlength, hrest, hexamined, paragraph_succ,
    isMpFloating_iff]

theorem scanStep_end :
    scanStep mem globals (scanFront base n n) =
      .inr ⟨false, globals, (List.range n).map (paragraph base)⟩ := by
  simp [scanStep, scanFront]

/-- `smp_scan_config` finds the first of the paragraphs. -/
theorem smpScanConfig_eq (hlength : length.toNat % 16 = 0) :
    smpScanConfig mem base length (length.toNat / 16 + 1) globals =
      some (((List.range (length.toNat / 16)).find? fun k =>
        IsMpFloating mem (paragraph base k)).elim
        ⟨false, globals, paragraphs base length⟩
        fun k => ⟨true, { smpFoundConfig := 1, mpfFound := paragraph base k },
          (List.range (k + 1)).map (paragraph base)⟩) := by
  have hsize : 16 * (length.toNat / 16) = length.toNat := by omega
  have hstart : scanFront base (length.toNat / 16) 0 =
      { basep := physToVirt base, length := length, examined := [] } := by
    rw [scanFront, Nat.sub_zero, hsize, BitVec.ofNat_toNat, BitVec.setWidth_eq, paragraph,
      Nat.mul_zero, BitVec.add_zero, List.range_zero, List.map_nil]
  rw [smpScanConfig, ← hstart]
  apply iterate_search
  · intro k hk
    rw [scanStep_front (by omega) hk]
    simp only [decide_eq_true_eq]
  · exact scanStep_end

/-- The search takes one iteration a paragraph. -/
theorem smpScanConfig_exactSearch (hlength : length.toNat % 16 = 0) :
    ∃ r, smpScanConfig mem base length (length.toNat / 16 + 1) globals = some r ∧
      ExactSearch mem base length globals r := by
  refine ⟨_, smpScanConfig_eq hlength, ?_⟩
  have hmem : ∀ {k}, k < length.toNat / 16 → paragraph base k ∈ paragraphs base length :=
    fun hk => List.mem_map_of_mem (List.mem_range.mpr hk)
  cases hfind : (List.range (length.toNat / 16)).find? fun k =>
      IsMpFloating mem (paragraph base k) with
  | none =>
      rw [List.find?_range_eq_none] at hfind
      have hnone : ∀ p ∈ paragraphs base length, ¬ IsMpFloating mem p := by
        intro p hp
        obtain ⟨k, hk, rfl⟩ := List.mem_map.mp hp
        simpa using hfind k (List.mem_range.mp hk)
      refine ⟨?_, fun p hp => hp, ?_, nofun, fun _ => rfl⟩
      · rw [Option.elim_none, paragraphs, List.length_map, List.length_range]
      · refine iff_of_false Bool.false_ne_true ?_
        rintro ⟨p, hp, hmp⟩
        exact hnone p hp hmp
  | some k =>
      rw [List.find?_range_eq_some, List.mem_range] at hfind
      obtain ⟨hmp, hk, hbefore⟩ := hfind
      have hfloating : IsMpFloating mem (paragraph base k) := by simpa using hmp
      refine ⟨?_, ?_, iff_of_true rfl ⟨_, hmem hk, hfloating⟩, fun _ => ?_, nofun⟩
      · rw [Option.elim_some, List.length_map, List.length_range]
        exact hk
      · intro p hp
        obtain ⟨j, hj, rfl⟩ := List.mem_map.mp hp
        rw [List.mem_range] at hj
        exact hmem (by omega)
      · exact ⟨k, hk, rfl, hfloating, fun j hj => by simpa using hbefore j hj⟩

/-- What `mp_spec_init` takes from a search: the first paragraph that holds the structure. -/
theorem smpScanConfig_first {fuel : Nat} (hlength : length.toNat % 16 = 0)
    (hfuel : length.toNat / 16 < fuel) (mem : ByteMemory) (base : BitVec 64)
    (globals : MpfGlobals) :
    ∃ examined, smpScanConfig mem base length fuel globals =
      some (((paragraphs base length).find? fun p => IsMpFloating mem p).elim
        ⟨false, globals, examined⟩
        fun p => ⟨true, { smpFoundConfig := 1, mpfFound := p }, examined⟩) := by
  have hrun := iterate_mono (@smpScanConfig_eq mem base length globals hlength) hfuel
  rw [smpScanConfig, hrun, paragraphs, List.find?_map]
  have hcomp : (fun p => decide (IsMpFloating mem p)) ∘ paragraph base =
      fun k => decide (IsMpFloating mem (paragraph base k)) := rfl
  rw [hcomp]
  cases (List.range (length.toNat / 16)).find? fun k => IsMpFloating mem (paragraph base k) with
  | none => exact ⟨_, rfl⟩
  | some k => exact ⟨_, rfl⟩

end Scan

section Init

variable {mem : ByteMemory} {fuel : Nat} {globals : MpfGlobals} {s : MpState}

/-- `mp_spec_init` reads the table of the first structure in the order of the areas. -/
theorem mpSpecInit_eq (hfuel : 0x1000 < fuel) :
    mpSpecInit mem fuel globals s =
      (firstMpFloating mem).elim (some (.halted globals)) fun p =>
        mpSpecInitFound mem fuel { smpFoundConfig := 1, mpfFound := p } s := by
  obtain ⟨first, hfirst⟩ := @smpScanConfig_first 0x400 fuel (by decide)
    (lt_trans (by decide) hfuel) mem 0x0 globals
  obtain ⟨second, hsecond⟩ := @smpScanConfig_first 0x400 fuel (by decide)
    (lt_trans (by decide) hfuel) mem (639 * 0x400) globals
  obtain ⟨third, hthird⟩ := @smpScanConfig_first 0x10000 fuel (by decide)
    (lt_of_le_of_lt (by decide) hfuel) mem 0xf0000 globals
  rw [firstMpFloating, mpAreas, List.flatMap_cons, List.flatMap_cons, List.flatMap_singleton,
    List.find?_append, List.find?_append]
  generalize ((paragraphs 0x0 0x400).find? fun p => IsMpFloating mem p) = low at *
  generalize ((paragraphs (639 * 0x400) 0x400).find? fun p => IsMpFloating mem p) = high at *
  generalize ((paragraphs 0xf0000 0x10000).find? fun p => IsMpFloating mem p) = bios at *
  simp only [mpSpecInit, hfirst, Option.bind_eq_bind, Option.bind_some]
  cases low with
  | some p => simp only [Option.elim_some, Option.some_or, if_true]
  | none =>
      simp only [Option.elim_none, Bool.false_eq_true, if_false, hsecond, Option.bind_some,
        Option.none_or]
      cases high with
      | some p => simp only [Option.elim_some, Option.some_or, if_true]
      | none =>
          simp only [Option.elim_none, Bool.false_eq_true, if_false, hthird, Option.bind_some,
            Option.none_or]
          cases bios with
          | some p => simp only [Option.elim_some, if_true]
          | none => simp only [Option.elim_none, Bool.false_eq_true, if_false]

theorem initCpuInfo_cleared : initCpuInfo clearedGlobals = clearedGlobals := by
  simp only [initCpuInfo, clearedGlobals, ite_self]

theorem mpSpecInitFound_ret {found : MpfGlobals} {s' : MpState}
    (h : mpSpecInitFound mem fuel globals s = some (.ret found s')) :
    found = globals ∧ smpReadMpc mem (mpTableAddr mem globals.mpfFound) fuel (initCpuInfo s) =
      some (.ret true s') := by
  unfold mpSpecInitFound at h
  dsimp only at h
  split at h
  · split at h
    · next hread =>
        obtain ⟨rfl, rfl⟩ := InitResult.ret.inj (Option.some.inj h)
        exact ⟨rfl, hread⟩
    all_goals cases h
  · cases h

/-- Where `mp_spec_init` returns, it has registered the processors of the table that the
first structure points to. -/
theorem registration_of_mpSpecInit {found : MpfGlobals} {s : MpState} {entries : List MpEntry}
    (hfuel : 0x1000 < fuel)
    (hret : mpSpecInit mem fuel globals clearedGlobals = some (.ret found s))
    (ht : TableAt mem (mpTableAddr mem found.mpfFound) entries) :
    firstMpFloating mem = some found.mpfFound ∧ Registration (enabledProcessors entries) s := by
  rw [mpSpecInit_eq hfuel] at hret
  cases hfirst : firstMpFloating mem with
  | none =>
      rw [hfirst, Option.elim_none] at hret
      cases hret
  | some p =>
      rw [hfirst, Option.elim_some] at hret
      obtain ⟨rfl, hread⟩ := mpSpecInitFound_ret hret
      rw [initCpuInfo_cleared] at hread
      exact ⟨rfl, registration_of_ret ht hread⟩

end Init

/-- The search is exact in every area of whole paragraphs, and `mp_spec_init` goes on with
the first structure in the order of its areas, or halts with the globals unchanged. -/
theorem mpSearch_exact (mem : ByteMemory) :
    (∀ (base length : BitVec 64) (globals : MpfGlobals), length.toNat % 16 = 0 →
      ∃ r, smpScanConfig mem base length (length.toNat / 16 + 1) globals = some r ∧
        ExactSearch mem base length globals r) ∧
    ∀ (fuel : Nat) (globals : MpfGlobals) (s : MpState), 0x1000 < fuel →
      mpSpecInit mem fuel globals s =
        (firstMpFloating mem).elim (some (.halted globals)) fun p =>
          mpSpecInitFound mem fuel { smpFoundConfig := 1, mpfFound := p } s :=
  ⟨fun _ _ _ hlength => smpScanConfig_exactSearch hlength, fun _ _ _ hfuel => mpSpecInit_eq hfuel⟩

/-- Memory with the structure in the last 1K below 640K. -/
def pointerInEbda : ByteMemory := fun a =>
  if a < 0xFFFF80000009FC10 then 0
  else (literal "_MP_" ++ bytes32 0xF5000 ++ [1, 4]).getD (a - 0xFFFF80000009FC10) 0

/-- It is found in the second paragraph of its area. -/
theorem ebda_searched : ∃ r,
    smpScanConfig pointerInEbda (639 * 0x400) 0x400 65 { smpFoundConfig := 0, mpfFound := 0 } =
      some r ∧ r.value = true ∧ r.globals.mpfFound = physToVirt 0x9FC10 := by
  obtain ⟨r, hrun, hexact⟩ := (mpSearch_exact pointerInEbda).1 (639 * 0x400) 0x400
    { smpFoundConfig := 0, mpfFound := 0 } (by decide)
  have hat : IsMpFloating pointerInEbda (paragraph (639 * 0x400) 1) := by decide
  have hbefore : ¬ IsMpFloating pointerInEbda (paragraph (639 * 0x400) 0) := by decide
  have hfound : r.value = true :=
    hexact.found_iff.mpr ⟨_, List.mem_map_of_mem (List.mem_range.mpr (by decide)), hat⟩
  obtain ⟨k, -, hk, hmp, hlowest⟩ := hexact.lowest hfound
  refine ⟨r, hrun, hfound, ?_⟩
  rcases Nat.lt_trichotomy k 1 with hlt | rfl | hgt
  · obtain rfl : k = 0 := by omega
    exact absurd hmp hbefore
  · exact hk
  · exact absurd hat (hlowest 1 hgt)

end Caos
