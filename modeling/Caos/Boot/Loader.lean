import Caos.Lib.Iteration
import Caos.Lib.Stores

/-!
`bootsect.asm`: the setup image and the kernel are read from the floppy, one sector a
call of int 0x13. The processor is in real mode, and the return addresses of the calls lie
in the memory that is read into. A read of the BIOS is one step: it stores the sector.
-/

namespace Caos

open Lib

/-- `SETUP_SECT`. -/
def setupSect : Nat := 8

/-- `BOOT_SEG`, which is also the stack segment. -/
def bootSeg : UInt16 := 0x7c0

/-- `SETUP_SEG`. -/
def setupSeg : UInt16 := 0x900

/-- `KERNEL_SEG`. -/
def kernelSeg : UInt16 := 0xA00

/-- `sect_per_track`. -/
def sectPerTrack : UInt16 := 18

/-- `head_per_drv`. -/
def headPerDrv : UInt16 := 2

/-- The sectors of the floppy. -/
def floppySectors : Nat := 2880

/-- The linear address of `seg:off`. -/
def segOff (seg off : UInt16) : Nat := seg.toNat * 16 + off.toNat

/-- The bytes of a sector of the floppy, sector by sector. -/
abbrev Floppy := Nat → Nat → UInt8

@[irreducible] def sectorBytes (floppy : Floppy) (n : Nat) : List UInt8 :=
  (List.range 512).map (floppy n)

/-- What int 0x13 is called with: `ch`, `cl`, `dh` and `es:bx`. -/
structure DiskRead where
  cylinder : UInt8
  sector : UInt8
  head : UInt8
  dest : Nat
  deriving DecidableEq

/-- The linear sector that the triple denotes. Sectors are counted from 1. -/
def DiskRead.linearSector (r : DiskRead) : Nat :=
  (r.cylinder.toNat * headPerDrv.toNat + r.head.toNat) * sectPerTrack.toNat + r.sector.toNat - 1

/-- The triple denotes a sector of the floppy. -/
def DiskRead.OnFloppy (r : DiskRead) : Prop :=
  r.cylinder.toNat < 80 ∧ r.head.toNat < 2 ∧ 1 ≤ r.sector.toNat ∧ r.sector.toNat ≤ 18

/-- The registers that live across a read, `current_sect` and the memory. `reads` records
the calls of int 0x13. -/
structure Loader where
  sp : UInt16
  es : UInt16
  si : UInt16
  cx : UInt16
  currentSect : UInt16
  mem : ByteMemory
  reads : List DiskRead

def Loader.push (w : UInt16) (m : Loader) : Loader :=
  { m with
    sp := m.sp - 2
    mem := storeBytes m.mem (segOff bootSeg (m.sp - 2)) (bytes16 w) }

def Loader.pop (m : Loader) : UInt16 × Loader :=
  (read16 m.mem (segOff bootSeg m.sp), { m with sp := m.sp + 2 })

/-- `inc byte` on the low byte of a word. -/
def incByte (w : UInt16) : UInt16 := .ofNat (w.toNat / 256 * 256 + (w.toNat + 1) % 256)

/-- `read_one_sect`. -/
def readOneSect (floppy : Floppy) (m : Loader) : Loader :=
  let ax := m.currentSect
  let di := sectPerTrack
  let dx := ax % di
  let ax := ax / di
  let readSect := dx.toUInt8 + 1
  let dx := ax % headPerDrv
  let ax := ax / headPerDrv
  let r := {
    cylinder := ax.toUInt8
    sector := readSect
    head := dx.toUInt8
    dest := segOff m.es m.si : DiskRead }
  { m with
    mem := storeBytes m.mem r.dest (sectorBytes floppy r.linearSector)
    reads := m.reads ++ [r]
    currentSect := incByte m.currentSect }

/-- How a call of `read_sectors` is left. A `ret` to another address than the one that
was pushed leaves the code for good. -/
inductive CallExit where
  | returned (m : Loader)
  | lost

/-- One round of `read_sectors`. `afterOne` and `back` are the addresses behind the calls
of `read_one_sect` and of `read_sectors`. -/
def readSectorsStep (floppy : Floppy) (afterOne back : UInt16) (m : Loader) : Loader ⊕ CallExit :=
  let m := (m.push m.cx).push afterOne
  let m := readOneSect floppy m
  let (target, m) := m.pop
  if target ≠ afterOne then .inr .lost
  else
    let (cx, m) := m.pop
    let m := { m with si := m.si + 512, cx := cx - 1 }
    if m.cx = 0 then
      let (target, m) := m.pop
      if target ≠ back then .inr .lost else .inr (.returned m)
    else .inl m

/-- `call read_sectors` with `es`, `si` and `cx` as `start` sets them. -/
def readSectors (floppy : Floppy) (afterOne back es : UInt16) (count fuel : Nat) (m : Loader) :
    Option CallExit :=
  iterate (readSectorsStep floppy afterOne back) fuel
    ({ m with es, si := 0, cx := .ofNat count }.push back)

/-- The addresses behind the calls. -/
structure Returns where
  afterOne : UInt16
  afterSetup : UInt16
  afterKernel : UInt16

/-- The machine in front of the first call. -/
def Loader.start (mem : ByteMemory) : Loader :=
  { sp := 0, es := bootSeg, si := 0, cx := 0, currentSect := 1, mem, reads := [] }

/-- `start`, as far as the two calls of `read_sectors`. -/
def loadImages (floppy : Floppy) (ret : Returns) (kernelSect fuel : Nat) (mem : ByteMemory) :
    Option CallExit :=
  match readSectors floppy ret.afterOne ret.afterSetup setupSeg setupSect fuel (.start mem) with
  | some (.returned m) =>
    readSectors floppy ret.afterOne ret.afterKernel kernelSeg kernelSect fuel m
  | exit => exit

/-- Both images are in memory, and they were read sector by sector. -/
structure ImagesLoaded (floppy : Floppy) (kernelSect : Nat) (m : Loader) : Prop where
  order : m.reads.map (fun r => (r.linearSector, r.dest)) =
    (List.range setupSect).map (fun k => (1 + k, 0x9000 + 512 * k)) ++
      (List.range kernelSect).map (fun k => (9 + k, 0xA000 + 512 * k))
  geometry : ∀ r ∈ m.reads, r.OnFloppy
  setup : ∀ k < setupSect, StoredAt m.mem (0x9000 + 512 * k) (sectorBytes floppy (1 + k))
  kernel : ∀ k < kernelSect, StoredAt m.mem (0xA000 + 512 * k) (sectorBytes floppy (9 + k))

/-- The boot loader loads every image with a kernel of this size. -/
def LoadsKernel (ret : Returns) (kernelSect : Nat) : Prop :=
  ∀ (floppy : Floppy) (mem : ByteMemory), ∃ fuel m,
    loadImages floppy ret kernelSect fuel mem = some (.returned m) ∧
      ImagesLoaded floppy kernelSect m

/-! ## One sector -/

/-- The read of a linear sector. -/
def chsRead (n dest : Nat) : DiskRead where
  cylinder := .ofNat (n / 36)
  sector := .ofNat (n % 18 + 1)
  head := .ofNat (n / 18 % 2)
  dest := dest

section Sector

variable {n dest : Nat} {floppy : Floppy} {m : Loader}

@[simp] theorem sectorBytes_length : (sectorBytes floppy n).length = 512 := by
  unfold sectorBytes
  rw [List.length_map]
  exact List.length_range

theorem sectorBytes_getD {i : Nat} (h : i < 512) :
    (sectorBytes floppy n).getD i 0 = floppy n i := by
  unfold sectorBytes
  rw [List.getD_eq_getElem?_getD, List.getElem?_map, List.getElem?_range h]
  rfl

theorem linearSector_chsRead (h : n < floppySectors) : (chsRead n dest).linearSector = n := by
  unfold floppySectors at h
  have htrack : sectPerTrack.toNat = 18 := rfl
  have hheads : headPerDrv.toNat = 2 := rfl
  simp only [DiskRead.linearSector, chsRead, UInt8.toNat_ofNat', htrack, hheads]
  omega

theorem onFloppy_chsRead (h : n < floppySectors) : (chsRead n dest).OnFloppy := by
  unfold floppySectors at h
  simp only [DiskRead.OnFloppy, chsRead, UInt8.toNat_ofNat']
  omega

/-- The low byte does not wrap around. -/
theorem toNat_incByte {w : UInt16} (h : w.toNat < 255) : (incByte w).toNat = w.toNat + 1 := by
  rw [incByte, UInt16.toNat_ofNat']
  omega

/-- The divisions of `read_one_sect` give the cylinder, the head and the sector. -/
theorem chsRead_eq {w : UInt16} :
    ({ cylinder := (w / sectPerTrack / headPerDrv).toUInt8
       sector := (w % sectPerTrack).toUInt8 + 1
       head := (w / sectPerTrack % headPerDrv).toUInt8
       dest := dest } : DiskRead) = chsRead w.toNat dest := by
  have htrack : sectPerTrack.toNat = 18 := rfl
  have hheads : headPerDrv.toNat = 2 := rfl
  have hone : (1 : UInt8).toNat = 1 := rfl
  rw [chsRead, DiskRead.mk.injEq]
  refine ⟨?_, ?_, ?_, rfl⟩
  · apply UInt8.toNat_inj.mp
    simp only [UInt8.toNat_ofNat', UInt16.toNat_toUInt8, UInt16.toNat_div, htrack, hheads]
    omega
  · apply UInt8.toNat_inj.mp
    simp only [UInt8.toNat_ofNat', UInt16.toNat_toUInt8, UInt8.toNat_add, UInt16.toNat_mod, htrack,
      hone]
    omega
  · apply UInt8.toNat_inj.mp
    simp only [UInt8.toNat_ofNat', UInt16.toNat_toUInt8, UInt16.toNat_div, UInt16.toNat_mod, htrack,
      hheads]

theorem readOneSect_eq (h : m.currentSect.toNat < floppySectors) :
    readOneSect floppy m =
      { m with
        mem := storeBytes m.mem (segOff m.es m.si) (sectorBytes floppy m.currentSect.toNat)
        reads := m.reads ++ [chsRead m.currentSect.toNat (segOff m.es m.si)]
        currentSect := incByte m.currentSect } := by
  simp only [readOneSect, chsRead_eq, linearSector_chsRead h]

end Sector

/-! ## One round -/

/-- The memory behind a read: the two pushed words, and the sector over whatever it
covers. -/
def memAfterRead (floppy : Floppy) (afterOne : UInt16) (m : Loader) : ByteMemory :=
  storeBytes (storeBytes (storeBytes m.mem 0x17BFC (bytes16 m.cx)) 0x17BFA (bytes16 afterOne))
    (segOff m.es m.si) (sectorBytes floppy m.currentSect.toNat)

/-- The machine behind a round whose return address survived. -/
def afterRound (floppy : Floppy) (afterOne : UInt16) (m : Loader) : Loader :=
  { m with
    si := m.si + 512
    cx := read16 (memAfterRead floppy afterOne m) 0x17BFC - 1
    currentSect := incByte m.currentSect
    mem := memAfterRead floppy afterOne m
    reads := m.reads ++ [chsRead m.currentSect.toNat (segOff m.es m.si)] }

section Round

variable {floppy : Floppy} {afterOne back : UInt16} {m : Loader}

theorem afterRound_sp : (afterRound floppy afterOne m).sp = m.sp := by
  rw [afterRound]

theorem afterRound_es : (afterRound floppy afterOne m).es = m.es := by
  rw [afterRound]

theorem afterRound_si : (afterRound floppy afterOne m).si = m.si + 512 := by
  rw [afterRound]

theorem afterRound_cx : (afterRound floppy afterOne m).cx =
    read16 (memAfterRead floppy afterOne m) 0x17BFC - 1 := by
  rw [afterRound]

theorem afterRound_sect :
    (afterRound floppy afterOne m).currentSect = incByte m.currentSect := by
  rw [afterRound]

theorem afterRound_mem :
    (afterRound floppy afterOne m).mem = memAfterRead floppy afterOne m := by
  rw [afterRound]

theorem afterRound_reads : (afterRound floppy afterOne m).reads =
    m.reads ++ [chsRead m.currentSect.toNat (segOff m.es m.si)] := by
  rw [afterRound]

/-- What lies apart from the pushed words and from the sector survives a read. -/
theorem memAfterRead_of_apart {addr : Nat} {bytes : List UInt8} (h : StoredAt m.mem addr bytes)
    (hwords : addr + bytes.length ≤ 0x17BFA ∨ 0x17BFE ≤ addr)
    (hsector : addr + bytes.length ≤ segOff m.es m.si ∨ segOff m.es m.si + 512 ≤ addr) :
    StoredAt (memAfterRead floppy afterOne m) addr bytes := by
  have hword : ∀ w, (bytes16 w).length = 2 := fun _ => rfl
  have hpushed : StoredAt (storeBytes m.mem 0x17BFC (bytes16 m.cx)) addr bytes := by
    apply h.storeBytes
    rw [hword]
    omega
  refine StoredAt.storeBytes (hpushed.storeBytes ?_) ?_
  · rw [hword]
    omega
  · rw [sectorBytes_length]
    exact hsector

/-- Where the sector does not reach the pushed words, both are popped again. -/
theorem popped_of_apart (h : segOff m.es m.si + 512 ≤ 0x17BFA) :
    read16 (memAfterRead floppy afterOne m) 0x17BFA = afterOne ∧
      read16 (memAfterRead floppy afterOne m) 0x17BFC = m.cx := by
  have hword : ∀ w, (bytes16 w).length = 2 := fun _ => rfl
  constructor
  · apply read16_of_storedAt
    apply storedAt_storeBytes.storeBytes
    rw [sectorBytes_length]
    omega
  · apply read16_of_storedAt
    apply (storedAt_storeBytes.storeBytes _).storeBytes
    · rw [sectorBytes_length]
      omega
    · rw [hword, hword]
      omega

theorem memAfterRead_sector : StoredAt (memAfterRead floppy afterOne m) (segOff m.es m.si)
    (sectorBytes floppy m.currentSect.toNat) :=
  storedAt_storeBytes

theorem readSectorsStep_eq (hsp : m.sp = 0xFFFE) (hsect : m.currentSect.toNat < floppySectors) :
    readSectorsStep floppy afterOne back m =
      if read16 (memAfterRead floppy afterOne m) 0x17BFA ≠ afterOne then .inr .lost
      else if (afterRound floppy afterOne m).cx = 0 then
        if read16 (memAfterRead floppy afterOne m) 0x17BFE ≠ back then .inr .lost
        else .inr (.returned { afterRound floppy afterOne m with sp := 0 })
      else .inl (afterRound floppy afterOne m) := by
  have hread := @readOneSect_eq floppy ((m.push m.cx).push afterOne) hsect
  have hback : segOff bootSeg 0xFFFE = 0x17BFE := by decide
  have hcx : segOff bootSeg 0xFFFC = 0x17BFC := by decide
  have hone : segOff bootSeg 0xFFFA = 0x17BFA := by decide
  have hsub : (0xFFFE : UInt16) - 2 = 0xFFFC := by decide
  have hsub' : (0xFFFC : UInt16) - 2 = 0xFFFA := by decide
  have hadd : (0xFFFA : UInt16) + 2 = 0xFFFC := by decide
  have hadd' : (0xFFFC : UInt16) + 2 = 0xFFFE := by decide
  have hadd'' : (0xFFFE : UInt16) + 2 = 0 := by decide
  unfold readSectorsStep
  dsimp only
  rw [hread]
  simp only [Loader.push, Loader.pop, hsp, hsub, hsub', hadd, hadd', hadd'', hback, hcx, hone,
    afterRound, memAfterRead]

end Round

/-! ## A whole call -/

/-- What `i` rounds of a call have done: the sectors from `first` on lie from `es:0` on,
and nothing below was touched. -/
structure Progress (floppy : Floppy) (es : UInt16) (first : Nat) (before : Loader) (i : Nat)
    (m : Loader) : Prop where
  sect : m.currentSect.toNat = first + i
  reads : m.reads = before.reads ++
    (List.range i).map fun k => chsRead (first + k) (es.toNat * 16 + 512 * k)
  stored : ∀ k < i, StoredAt m.mem (es.toNat * 16 + 512 * k) (sectorBytes floppy (first + k))
  frame : ∀ a < es.toNat * 16, m.mem a = before.mem a

/-- The machine in front of round `i`, with the return address still on the stack. -/
structure Loading (floppy : Floppy) (es back : UInt16) (first count : Nat) (before : Loader)
    (i : Nat) (m : Loader) : Prop extends Progress floppy es first before i m where
  sp : m.sp = 0xFFFE
  es : m.es = es
  si : m.si.toNat = 512 * i
  cx : m.cx.toNat = count - i
  back : StoredAt m.mem 0x17BFE (bytes16 back)

section Call

variable {floppy : Floppy} {es back : UInt16} {first count i : Nat} {before m : Loader}

/-- A round whose sector lies below the stack. -/
theorem Loading.next (h : Loading floppy es back first count before i m) (afterOne : UInt16)
    (hi : i < count)
    (hes : 0x9000 ≤ es.toNat * 16) (hroom : es.toNat * 16 + 512 * (i + 1) ≤ 0x17BFA)
    (hsect : first + i < 255) :
    read16 (memAfterRead floppy afterOne m) 0x17BFA = afterOne ∧
      Loading floppy es back first count before (i + 1) (afterRound floppy afterOne m) := by
  have hdest : segOff m.es m.si = es.toNat * 16 + 512 * i := by rw [segOff, h.es, h.si]
  have hend : segOff m.es m.si + 512 = es.toNat * 16 + 512 * (i + 1) := by
    rw [hdest, Nat.add_assoc, Nat.mul_succ 512]
  obtain ⟨hone, hcx⟩ := @popped_of_apart floppy afterOne m (hend.le.trans hroom)
  refine ⟨hone, ⟨?_, ?_, ?_, ?_⟩, ?_, ?_, ?_, ?_, ?_⟩
  · rw [afterRound_sect, toNat_incByte (by rw [h.sect]; exact hsect), h.sect, Nat.add_assoc]
  · rw [afterRound_reads, h.reads, h.sect, hdest, List.range_succ, List.map_append,
      List.append_assoc, List.map_singleton]
  · intro k hk
    rw [afterRound_mem]
    rcases Nat.lt_or_ge k i with hlt | hge
    · apply memAfterRead_of_apart (h.stored k hlt)
      all_goals
        rw [sectorBytes_length]
        omega
    · obtain rfl : k = i := by omega
      rw [← hdest, ← h.sect]
      exact memAfterRead_sector
  · intro a ha
    rw [afterRound_mem, memAfterRead, hdest, storeBytes_of_outside (.inl (by omega)),
      storeBytes_of_outside (.inl (by omega)), storeBytes_of_outside (.inl (by omega))]
    exact h.frame a ha
  · rw [afterRound_sp, h.sp]
  · rw [afterRound_es, h.es]
  · have h512 : (512 : UInt16).toNat = 512 := rfl
    rw [afterRound_si, UInt16.toNat_add, h.si, h512]
    omega
  · have h1 : (1 : UInt16).toNat = 1 := rfl
    rw [afterRound_cx, hcx, UInt16.toNat_sub_of_le, h.cx, h1]
    · omega
    · rw [UInt16.le_iff_toNat_le, h1, h.cx]
      omega
  · rw [afterRound_mem]
    exact memAfterRead_of_apart h.back (by omega) (by omega)

theorem loading_start (hsp : before.sp = 0) (hfirst : before.currentSect.toNat = first)
    (hcount : count < 2 ^ 16) (hes : es.toNat * 16 ≤ 0x17BFE) :
    Loading floppy es back first count before 0
      ({ before with es, si := 0, cx := .ofNat count }.push back) := by
  have hsub : before.sp - 2 = 0xFFFE := by
    rw [hsp]
    decide
  have htop : segOff bootSeg 0xFFFE = 0x17BFE := by decide
  refine ⟨⟨hfirst, by simp [Loader.push], nofun, ?_⟩, hsub, rfl, rfl, ?_, ?_⟩
  · intro a ha
    simp only [Loader.push, hsub, htop]
    exact storeBytes_of_outside (.inl (by omega))
  · simp only [Loader.push, UInt16.toNat_ofNat']
    omega
  · simp only [Loader.push, hsub, htop]
    exact storedAt_storeBytes

/-- The first rounds of a call, as long as there are more to come and the sectors lie below
the stack. -/
theorem Loading.visits {n : Nat} (h : Loading floppy es back first count before 0 m)
    (afterOne : UInt16) (hn : n < count) (hes : 0x9000 ≤ es.toNat * 16)
    (hroom : es.toNat * 16 + 512 * n ≤ 0x17BFA) (hsect : first + n ≤ 255) :
    ∃ m', Visits (readSectorsStep floppy afterOne back) m m' ∧
      Loading floppy es back first count before n m' := by
  apply visits_of_indexed h
  intro i t hi hloading
  have hbelow : es.toNat * 16 + 512 * (i + 1) ≤ 0x17BFA :=
    (Nat.add_le_add_left (Nat.mul_le_mul_left 512 hi) _).trans hroom
  obtain ⟨hone, hnext⟩ := hloading.next afterOne (by omega) hes hbelow (by omega)
  have hmore : (afterRound floppy afterOne t).cx ≠ 0 := by
    intro hzero
    have hcx := hnext.cx
    rw [hzero, UInt16.toNat_zero] at hcx
    omega
  refine ⟨_, ?_, hnext⟩
  rw [readSectorsStep_eq hloading.sp (by rw [hloading.sect]; unfold floppySectors; omega),
    if_neg (not_not.mpr hone), if_neg hmore]

/-- A call whose sectors all lie below the stack returns with the sectors read. -/
theorem readSectors_returns (floppy : Floppy) (afterOne back es : UInt16) (hsp : before.sp = 0)
    (hfirst : before.currentSect.toNat = first) (hpos : 0 < count)
    (hes : 0x9000 ≤ es.toNat * 16) (hroom : es.toNat * 16 + 512 * count ≤ 0x17BFA)
    (hsect : first + count ≤ 255) :
    ∃ m, (∃ fuel, readSectors floppy afterOne back es count fuel before = some (.returned m)) ∧
      Progress floppy es first before count m ∧ m.sp = 0 := by
  obtain ⟨n, rfl⟩ : ∃ n, count = n + 1 := ⟨count - 1, by omega⟩
  have hstart : Loading floppy es back first (n + 1) before 0 _ :=
    loading_start hsp hfirst (by omega) (by omega)
  obtain ⟨m', hvisits, hloading⟩ :=
    hstart.visits afterOne (Nat.lt_succ_self n) hes (by omega) (by omega)
  obtain ⟨hone, hnext⟩ := hloading.next afterOne (Nat.lt_succ_self n) hes hroom (by omega)
  have hlast : (afterRound floppy afterOne m').cx = 0 := by
    apply UInt16.toNat_inj.mp
    rw [hnext.cx, Nat.sub_self, UInt16.toNat_zero]
  have hback : read16 (memAfterRead floppy afterOne m') 0x17BFE = back :=
    read16_of_storedAt hnext.back
  have hstep : readSectorsStep floppy afterOne back m' =
      .inr (.returned { afterRound floppy afterOne m' with sp := 0 }) := by
    rw [readSectorsStep_eq hloading.sp (by rw [hloading.sect]; unfold floppySectors; omega),
      if_neg (not_not.mpr hone), if_pos hlast, if_neg (not_not.mpr hback)]
  exact ⟨_, hvisits.iterate_exit hstep, ⟨hnext.sect, hnext.reads, hnext.stored, hnext.frame⟩, rfl⟩

end Call

/-! ## Both calls -/

section Images

variable {floppy : Floppy} {ret : Returns} {kernelSect fuel : Nat} {mem : ByteMemory}
  {m : Loader}

theorem setupSeg_base : setupSeg.toNat * 16 = 0x9000 := by decide

theorem kernelSeg_base : kernelSeg.toNat * 16 = 0xA000 := by decide

/-- The call for the setup image returns. -/
theorem setup_returns (floppy : Floppy) (ret : Returns) (mem : ByteMemory) :
    ∃ m, (∃ fuel, readSectors floppy ret.afterOne ret.afterSetup setupSeg setupSect fuel
        (.start mem) = some (.returned m)) ∧
      Progress floppy setupSeg 1 (.start mem) setupSect m ∧ m.sp = 0 :=
  readSectors_returns floppy ret.afterOne ret.afterSetup setupSeg rfl rfl (by decide) (by decide)
    (by decide) (by decide)

/-- The kernel is read by the machine that the first call leaves. -/
theorem loadImages_eq_some {first : Loader} {exit : CallExit}
    (hfirst : ∃ fuel, readSectors floppy ret.afterOne ret.afterSetup setupSeg setupSect fuel
      (.start mem) = some (.returned first))
    (hload : loadImages floppy ret kernelSect fuel mem = some exit) :
    readSectors floppy ret.afterOne ret.afterKernel kernelSeg kernelSect fuel first =
      some exit := by
  obtain ⟨fuel', hfuel'⟩ := hfirst
  unfold loadImages at hload
  cases hsetup : readSectors floppy ret.afterOne ret.afterSetup setupSeg setupSect fuel
      (.start mem) with
  | none =>
      rw [hsetup] at hload
      cases hload
  | some result =>
      obtain rfl : result = .returned first := iterate_unique hsetup hfuel'
      rwa [hsetup] at hload

theorem loadImages_of_returned {first : Loader} {exit : CallExit}
    (hfirst : ∃ fuel, readSectors floppy ret.afterOne ret.afterSetup setupSeg setupSect fuel
      (.start mem) = some (.returned first))
    (hkernel : ∃ fuel, readSectors floppy ret.afterOne ret.afterKernel kernelSeg kernelSect fuel
      first = some exit) :
    ∃ fuel, loadImages floppy ret kernelSect fuel mem = some exit := by
  obtain ⟨fuel, hfuel⟩ := hfirst
  obtain ⟨fuel', hfuel'⟩ := hkernel
  refine ⟨max fuel fuel', ?_⟩
  have hsetup : readSectors floppy ret.afterOne ret.afterSetup setupSeg setupSect (max fuel fuel')
      (.start mem) = some (.returned first) := iterate_mono hfuel (Nat.le_max_left _ _)
  rw [loadImages, hsetup]
  exact iterate_mono hfuel' (Nat.le_max_right _ _)

theorem reads_of_progress {es : UInt16} {first count : Nat} {before : Loader}
    (h : Progress floppy es first before count m) (hcount : first + count ≤ floppySectors) :
    m.reads.map (fun r => (r.linearSector, r.dest)) =
        before.reads.map (fun r => (r.linearSector, r.dest)) ++
          (List.range count).map (fun k => (first + k, es.toNat * 16 + 512 * k)) ∧
      ((∀ r ∈ before.reads, r.OnFloppy) → ∀ r ∈ m.reads, r.OnFloppy) := by
  rw [h.reads]
  constructor
  · rw [List.map_append, List.map_map, List.append_cancel_left_eq]
    apply List.map_congr_left
    intro k hk
    have hlt := List.mem_range.mp hk
    rw [Function.comp_apply, linearSector_chsRead (by omega)]
    rfl
  · intro hbefore r hr
    rcases List.mem_append.mp hr with hold | hnew
    · exact hbefore r hold
    · obtain ⟨k, hk, rfl⟩ := List.mem_map.mp hnew
      have hlt := List.mem_range.mp hk
      exact onFloppy_chsRead (by omega)

/-- A kernel whose sectors end below the stack is loaded. -/
theorem loadsKernel_of_le (ret : Returns) (hpos : 1 ≤ kernelSect) (hle : kernelSect ≤ 109) :
    LoadsKernel ret kernelSect := by
  intro floppy mem
  obtain ⟨first, hfirst, hsetup, hsp⟩ := setup_returns floppy ret mem
  obtain ⟨m, hreturns, hkernel, -⟩ := readSectors_returns floppy ret.afterOne
    ret.afterKernel kernelSeg hsp hsetup.sect hpos (by decide) (by rw [kernelSeg_base]; omega)
    (by unfold setupSect; omega)
  obtain ⟨fuel, hload⟩ := loadImages_of_returned hfirst hreturns
  obtain ⟨hreads, hgeometry⟩ := reads_of_progress hsetup (by decide)
  obtain ⟨hreads', hgeometry'⟩ :=
    reads_of_progress hkernel (by unfold setupSect floppySectors; omega)
  refine ⟨fuel, m, hload, ?_, hgeometry' (hgeometry nofun), ?_, ?_⟩
  · rw [hreads', hreads, setupSeg_base, kernelSeg_base]
    rfl
  · intro k hk
    have hstored := hsetup.stored k hk
    rw [setupSeg_base] at hstored
    apply hstored.congr
    intro a _ ha
    rw [sectorBytes_length] at ha
    apply hkernel.frame
    rw [kernelSeg_base]
    unfold setupSect at hk
    omega
  · intro k hk
    have hstored := hkernel.stored k hk
    rwa [kernelSeg_base] at hstored

/-- Every round that does not lose its way reads one sector. -/
theorem readSectorsStep_reads (floppy : Floppy) (afterOne back : UInt16) (m : Loader) :
    match readSectorsStep floppy afterOne back m with
    | .inl t | .inr (.returned t) => t.reads.length = m.reads.length + 1
    | .inr .lost => True := by
  unfold readSectorsStep
  dsimp only
  generalize hr : readOneSect floppy ((m.push m.cx).push afterOne) = r
  have hreads : r.reads.length = m.reads.length + 1 := by
    rw [← hr]
    simp [readOneSect, Loader.push]
  split_ifs
  · trivial
  · trivial
  · exact hreads
  · exact hreads

/-- A call that returns has read at least one sector, also for the count 0. -/
theorem readSectors_reads {afterOne back es : UInt16} {count : Nat} {before : Loader}
    (h : readSectors floppy afterOne back es count fuel before = some (.returned m)) :
    before.reads.length < m.reads.length := by
  obtain ⟨t, hvisits, hexit⟩ := iterate_exit h
  have hmore : before.reads.length ≤ t.reads.length := by
    refine hvisits.invariant (I := fun t => before.reads.length ≤ t.reads.length) (Nat.le_refl _) ?_
    intro s t hs hstep
    have hone := readSectorsStep_reads floppy afterOne back s
    rw [hstep] at hone
    exact hs.trans (by rw [hone]; exact Nat.le_succ _)
  have hone := readSectorsStep_reads floppy afterOne back t
  rw [hexit] at hone
  dsimp only at hone
  omega

/-- Sector 109 of the kernel comes to lie on the stack: if it does not repeat the return
address by chance, the way back is lost. -/
theorem Loading.lost {afterOne back : UInt16} {count : Nat} {before : Loader}
    (h : Loading floppy kernelSeg back 9 count before 109 m)
    (hfloppy : floppy 118 506 ≠ .ofNat afterOne.toNat) :
    readSectorsStep floppy afterOne back m = .inr .lost := by
  have hsect : m.currentSect.toNat = 118 := h.sect
  have hdest : segOff m.es m.si = 0x17A00 := by rw [segOff, h.es, h.si, kernelSeg_base]
  have hbyte : memAfterRead floppy afterOne m 0x17BFA = floppy 118 506 := by
    rw [memAfterRead, hdest, hsect, storeBytes_apply, sectorBytes_length, if_pos (by decide)]
    exact sectorBytes_getD (by decide)
  rw [readSectorsStep_eq h.sp (by rw [hsect]; decide), if_pos]
  intro hone
  have hstored := @storedAt_read16 (memAfterRead floppy afterOne m) 0x17BFA
  rw [hone] at hstored
  exact hfloppy (hbyte.symm.trans hstored.1)

/-- A larger kernel takes the return addresses with it. -/
theorem not_loadsKernel_of_lt (ret : Returns) (hlt : 109 < kernelSect)
    (hfit : 1 + setupSect + kernelSect ≤ floppySectors) : ¬ LoadsKernel ret kernelSect := by
  intro h
  have hword : kernelSect < 2 ^ 16 := by
    unfold setupSect floppySectors at hfit
    omega
  let floppy : Floppy := fun _ _ => .ofNat (ret.afterOne.toNat + 1)
  have hfloppy : floppy 118 506 ≠ .ofNat ret.afterOne.toNat := by
    intro heq
    have hnat := congrArg UInt8.toNat heq
    simp only [floppy, UInt8.toNat_ofNat'] at hnat
    omega
  obtain ⟨first, hfirst, hsetup, hsp⟩ := setup_returns floppy ret (fun _ => 0)
  obtain ⟨fuel, m, hload, -⟩ := h floppy fun _ => 0
  have hkernel := loadImages_eq_some hfirst hload
  have hstart : Loading floppy kernelSeg ret.afterKernel 9 kernelSect first 0 _ :=
    loading_start hsp hsetup.sect hword (by decide)
  obtain ⟨m', hvisits, hloading⟩ :=
    hstart.visits ret.afterOne hlt (by decide) (by decide) (by decide)
  obtain ⟨fuel', hlost⟩ := hvisits.iterate_exit (hloading.lost hfloppy)
  cases iterate_unique hkernel hlost

/-- A kernel of no sectors is read all the same. -/
theorem not_loadsKernel_zero (ret : Returns) : ¬ LoadsKernel ret 0 := by
  intro h
  obtain ⟨first, hfirst, hsetup, -⟩ := setup_returns (fun _ _ => 0) ret fun _ => 0
  obtain ⟨fuel, m, hload, hloaded⟩ := h (fun _ _ => 0) fun _ => 0
  have hmore := readSectors_reads (loadImages_eq_some hfirst hload)
  have hsetup8 : first.reads.length = 8 := by
    rw [hsetup.reads]
    rfl
  have horder := congrArg List.length hloaded.order
  rw [List.length_map] at horder
  have hcount : m.reads.length = 8 := horder
  omega

end Images

/-- The boot loader loads a kernel exactly if it has between 1 and 109 sectors: the next
one lies on the stack. -/
theorem loadsKernel_iff (ret : Returns) {kernelSect : Nat}
    (hfit : 1 + setupSect + kernelSect ≤ floppySectors) :
    LoadsKernel ret kernelSect ↔ 1 ≤ kernelSect ∧ kernelSect ≤ 109 := by
  constructor
  · intro h
    refine ⟨?_, ?_⟩
    · by_contra hzero
      obtain rfl : kernelSect = 0 := by omega
      exact not_loadsKernel_zero ret h
    · by_contra hlt
      exact not_loadsKernel_of_lt ret (by omega) hfit h
  · rintro ⟨hpos, hle⟩
    exact loadsKernel_of_le ret hpos hle

theorem small_kernel_loads : LoadsKernel ⟨0x50, 0x30, 0x3D⟩ 100 :=
  (loadsKernel_iff ⟨0x50, 0x30, 0x3D⟩ (by decide)).mpr (by decide)

/-- A kernel of 200 sectors. -/
theorem large_kernel_not_loaded :
    ¬ ∀ (ret : Returns) (kernelSect : Nat), 1 + setupSect + kernelSect ≤ floppySectors →
      LoadsKernel ret kernelSect := by
  intro h
  exact not_loadsKernel_of_lt ⟨0, 0, 0⟩ (by decide) (by decide) (h ⟨0, 0, 0⟩ 200 (by decide))

end Caos
