import Caos.Boot.LongMode

/-!
The way from the floppy into the kernel: the boot loader, `setup.asm`, and the change from the
boot page tables to those of `paging_init`.
-/

namespace Caos

open Lib

section Floppy

variable {floppy : Floppy} {img : SetupImage} {mem : ByteMemory} {cr0 a : Nat}

/-- `protect_start` stores to its tables only. -/
theorem protectStart_below (hhi : a < 0x90000) : protectStart mem a = mem a := by
  rw [protectStart_eq, setEntries_frame (.inl (by omega)), setEntries_frame (.inl (by omega))]
  unfold upperTables pdpAddr pml4Addr
  rw [storeEax_frame (.inl (by omega)), storeEax_frame (.inl (by omega)),
    storeEax_frame (.inl (by omega)), repStos_frame (.inl (by omega))]

/-- The real mode part and the tables leave alone what is behind the boot GDT, the images among
it. -/
theorem before_longStart (hlo : 0x8028 ≤ a) (hhi : a < 0x90000) :
    protectStart (setupStart cr0 mem) a = mem a := by
  have hgdt : (quads bootGdt).length = 40 := quads_length
  rw [protectStart_below hhi, setupStart, storeBytes_of_outside,
    repStos_frame (.inl (by unfold gdtAddr; omega))]
  rw [hgdt]
  unfold gdtAddr
  omega

/-- The byte of an image that was loaded sector by sector. -/
theorem byte_of_sectors {base first count : Nat} (h : ∀ k < count,
    StoredAt mem (base + 512 * k) (sectorBytes floppy (first + k))) {i : Nat}
    (hi : i < 512 * count) : mem (base + i) = floppy (first + i / 512) (i % 512) := by
  have hsector := (h (i / 512) (by omega)).getD (i := i % 512)
    (by rw [sectorBytes_length]; omega)
  have haddr : base + 512 * (i / 512) + i % 512 = base + i := by omega
  rw [haddr, sectorBytes_getD (by omega)] at hsector
  exact hsector

/-- Only the bytes of the image matter. -/
theorem Booted.congr {image image' : Nat → UInt8} {e : KernelEntry} (h : Booted img image e)
    (himage : ∀ i < 512 * img.ksize, image i = image' i) : Booted img image' e where
  entry := h.entry
  kernel i hi := (h.kernel i hi).trans (himage i hi)
  bss := h.bss
  heap := h.heap
  params := h.params
  counted := h.counted
  tables := h.tables

/-- The counter of the processors is zero on the floppy. -/
def CounterZero (img : SetupImage) (floppy : Floppy) : Prop :=
  ∀ i < 8, floppy (1 + (img.processorSig64 - 0x9000 + i) / 512)
    ((img.processorSig64 - 0x9000 + i) % 512) = 0

/-- From any memory, the boot processor comes into the kernel with the image of the floppy in
its place, if the image is one that the boot loader can load. -/
theorem kernel_entered (ret : Returns) (cr0 : Nat) (mem : ByteMemory)
    (hcounter : CounterZero img floppy) (hpos : 1 ≤ img.ksize) (hle : img.ksize ≤ 109) :
    ∃ fuel m s, loadImages floppy ret img.ksize fuel mem = some (.returned m) ∧
      setupAsm img cr0 m.mem = some s ∧
      Booted img (fun i => floppy (9 + i / 512) (i % 512)) s := by
  have hlo := img.sig_lo
  have hhi := img.sig_hi
  obtain ⟨fuel, m, hload, himages⟩ := loadsKernel_of_le ret hpos hle floppy mem
  have hcount : readWord (protectStart (setupStart cr0 m.mem)) img.processorSig64 8 = 0 := by
    apply readWord_zero
    intro a halo hahi
    obtain ⟨i, rfl⟩ := Nat.exists_eq_add_of_le halo
    have hoffset : img.processorSig64 - 0x9000 + i < 512 * setupSect := by
      unfold setupSect
      omega
    have hbyte := byte_of_sectors himages.setup hoffset
    have haddr : 0x9000 + (img.processorSig64 - 0x9000 + i) = img.processorSig64 + i := by
      omega
    rw [before_longStart (by omega) (by omega), ← haddr, hbyte]
    exact hcounter i (by omega)
  have himage : ∀ i < 512 * img.ksize,
      protectStart (setupStart cr0 m.mem) (0xA000 + i) = floppy (9 + i / 512) (i % 512) := by
    intro i hi
    rw [before_longStart (by omega) (by omega)]
    exact byte_of_sectors himages.kernel hi
  obtain ⟨s, hrun, hbooted⟩ :=
    longStart_boots (protectStart_tables (setupStart cr0 m.mem)) hcount hpos (by omega)
  exact ⟨fuel, m, s, hload, hrun, hbooted.congr himage⟩

end Floppy

/-- An image of 100 sectors, for 128 megabytes. -/
def someImage : SetupImage where
  ksize := 100
  msize := 128
  codeStart := 0xFFFF800000100000
  codeEnd := 0xFFFF800000108000
  dataStart := 0xFFFF800000108000
  dataEnd := 0xFFFF80000010A000
  bssStart := 0xFFFF80000010A000
  bssEnd := 0xFFFF80000010C000
  kernelEnd := 0xFFFF80000010C000
  perCpuStart := 0xFFFF80000010C000
  perCpuEnd := 0xFFFF80000010D000
  processorSig64 := 0x9400
  sig_lo := by norm_num
  sig_hi := by norm_num

theorem someImage_entered :
    ∃ fuel m s, loadImages (fun _ _ => 0) ⟨0x50, 0x30, 0x3D⟩ 100 fuel (fun _ => 0) =
        some (.returned m) ∧
      setupAsm someImage 0x60000010 m.mem = some s ∧ Booted someImage (fun _ => 0) s :=
  @kernel_entered (fun _ _ => 0) someImage ⟨0x50, 0x30, 0x3D⟩ 0x60000010 (fun _ => 0)
    (fun _ _ => rfl) (by norm_num [someImage]) (by norm_num [someImage])

/-! ## The change of the tables -/

/-- The state in which `paging_init` is called: so far the kernel has stored nothing to the
boot tables, and of the memory behind its stack only to the pages of the GDT, the TSS and the
IDT. -/
structure Started (e : KernelEntry) (s : Paging) : Prop where
  bootmem : (gdtInit bootmemInit).bind idtInit = some s.bootmem
  stores : s.stores = []
  tables : ∀ w, 512 * 0x90 ≤ w → w < 512 * 0x97 → s.mem w = words e.mem w
  heap : ∀ w, 512 * 0x203 ≤ w → w < 512 * 0x800 → s.mem w = words e.mem w

section Switch

variable {img : SetupImage} {image : Nat → UInt8} {e : KernelEntry} {s : Paging}

theorem Started.atPagingInit (h : Started e s) (hbooted : Booted img image e) :
    AtPagingInit s := by
  refine ⟨h.bootmem, ?_, h.stores⟩
  have hboot := Option.some_inj.mp (h.bootmem.symm.trans idtInit_gdtInit)
  have hindex : s.bootmem.index = 0x203 := by rw [hboot]
  have hmax : s.bootmem.max = 0x7FF := by rw [hboot]
  intro w hlo hhi
  rw [h.heap w (by omega) (by omega)]
  apply readWord_zero
  intro a halo hahi
  exact hbooted.heap a (by omega) (by omega)

/-- `paging_init` stores nothing below its tables. -/
theorem pagingDone_below {phyMemSize w : Nat} (hw : w < 512 * s.bootmem.index) :
    (pagingDone phyMemSize s).mem w = s.mem w := by
  have hmem := pagingDone_mem phyMemSize s w
  dsimp only at hmem
  rw [hmem, if_neg (by omega), if_neg (by omega), if_neg (by omega), if_neg (by omega),
    if_neg (by omega), if_neg (by omega), if_neg (by omega), if_neg (by omega), if_neg (by omega)]

/-- What `paging_init` puts into `cr3`. -/
def pagingCr3 (swapperPgDir : Nat) : Nat := pa swapperPgDir

/-- The tables of `paging_init` map the boot memory at `PAGE_OFFSET`, and nothing below. -/
theorem TablesAt.phys {mem : Nat → Nat} {phyMemSize first ptes : Nat}
    (h : TablesAt phyMemSize first ptes mem) (hptes : 4 ≤ ptes ∧ ptes < 512)
    (hfirst : first + 14 + ptes < 2 ^ 28) {q : Nat} (hq : q < 0x800000) :
    linearToPhys mem (pagingCr3 (frameAddr first)) (pageOffset + q) = some q ∧
      linearToPhys mem (pagingCr3 (frameAddr first)) q = none := by
  have hcr3 : ptePfn (pagingCr3 (frameAddr first)) = virtToPfn (frameAddr first) := by
    rw [virtToPfn_frameAddr, pagingCr3, pa_frameAddr]
    simp only [ptePfn, pageSize, pageShift]
    omega
  have hmapped : ∀ address a b c pte, walk mem (frameAddr first) address = some [a, b, c, pte] →
      linearToPhys mem (pagingCr3 (frameAddr first)) address =
        some (ptePfn pte * pageSize + address % pageSize) := by
    intro address a b c pte hwalk
    simp only [walk] at hwalk
    simp only [linearToPhys, hcr3]
    split_ifs at hwalk ⊢
    rw [hwalk]
  have hunmapped : ∀ address, walk mem (frameAddr first) address = none →
      linearToPhys mem (pagingCr3 (frameAddr first)) address = none := by
    intro address hwalk
    simp only [walk] at hwalk
    simp only [linearToPhys, hcr3]
    split_ifs at hwalk ⊢
    · rw [hwalk]
    · rfl
  constructor
  · have hleaf := (@entry_bits (q / 4096) 3 (.inl rfl) (by omega)).2.2
    rw [hmapped _ _ _ _ _ (h.walk_kernel hptes.2 hfirst (by omega))]
    simp only [hleaf, pageSize, pageShift, pageOffset, Option.some_inj]
    omega
  · have hbelow : ∀ p < 2 ^ 39, q ≠ pageOffset + p := by
      intro p hp
      simp only [pageOffset]
      omega
    exact hunmapped q (h.walk_outside hbelow)

/-- When `paging_init` changes `cr3`, the kernel keeps its code, its data and its stack: all of
the boot memory stays at `PAGE_OFFSET`. Only the addresses of `setup.asm` go away. -/
theorem switch_keeps_window (h : Started e s) (hbooted : Booted img image e)
    (hlo : 16 ≤ img.msize.toNat) (hhi : img.msize.toNat ≤ 512) :
    ∃ swapperPgDir t,
      pagingInit (readWord e.mem (bootingParamsAddr + 8 * 7) 8) s = some (swapperPgDir, t) ∧
        ∀ q < bootingMemorySize * 0x100000,
          linearToPhys t.mem bootCr3 (pageOffset + q) = some q ∧
            linearToPhys t.mem (pagingCr3 swapperPgDir) (pageOffset + q) = some q ∧
            linearToPhys t.mem bootCr3 q = some q ∧
            linearToPhys t.mem (pagingCr3 swapperPgDir) q = none := by
  have hinit := h.atPagingInit hbooted
  have hindex : s.bootmem.index = 0x203 := by rw [hinit.bootmem_eq]
  have hsize : readWord e.mem (bootingParamsAddr + 8 * 7) 8 = img.msize.toNat :=
    hbooted.params 7 _ rfl
  obtain ⟨hcall, htables⟩ := hinit.returns hlo hhi
  have hboot : BootTables (pagingDone img.msize.toNat s).mem := by
    apply hbooted.tables.of_words
    intro w hwlo hwhi
    rw [pagingDone_below (by omega)]
    exact h.tables w hwlo hwhi
  rw [hsize]
  refine ⟨_, _, hcall, fun q hq => ?_⟩
  have hlt : q < 0x800000 := by
    simpa [bootingMemorySize] using hq
  obtain ⟨hkernel, hnone⟩ := htables.phys (by omega) (by omega) hlt
  have hsmall : q < 2 ^ 39 := hlt.trans (by norm_num)
  refine ⟨?_, hkernel, ?_, hnone⟩
  · rw [hboot.window (.inr rfl) hsmall, if_pos hq]
  · have hwindow := @BootTables.window _ hboot 0 q (.inl rfl) hsmall
    rwa [Nat.zero_add, if_pos hq] at hwindow

end Switch

/-- The memory in front of `long_start`, where it was zero before. -/
def blankStart : ByteMemory := protectStart (setupStart 0 fun _ => 0)

theorem blankStart_zero {a : Nat} (hlo : 0x9000 ≤ a) (hhi : a < 0x90000) : blankStart a = 0 :=
  before_longStart (by omega) hhi

theorem blankStart_count : readWord blankStart someImage.processorSig64 8 = 0 := by
  apply readWord_zero
  intro a hlo hhi
  have haddr : someImage.processorSig64 = 0x9400 := rfl
  exact blankStart_zero (by omega) (by omega)

/-- A kernel of zeros is entered, and changes the tables. -/
theorem someImage_switches :
    ∃ e s swapperPgDir t, Booted someImage (fun _ => 0) e ∧ Started e s ∧
      pagingInit (readWord e.mem (bootingParamsAddr + 8 * 7) 8) s = some (swapperPgDir, t) ∧
        ∀ q < bootingMemorySize * 0x100000,
          linearToPhys t.mem bootCr3 (pageOffset + q) = some q ∧
            linearToPhys t.mem (pagingCr3 swapperPgDir) (pageOffset + q) = some q ∧
            linearToPhys t.mem bootCr3 q = some q ∧
            linearToPhys t.mem (pagingCr3 swapperPgDir) q = none := by
  obtain ⟨e, -, hbooted⟩ := longStart_boots (protectStart_tables _) blankStart_count
    (by norm_num [someImage]) (by norm_num [someImage])
  have hbooted' : Booted someImage (fun _ => 0) e := by
    apply hbooted.congr
    intro i hi
    have hsize : someImage.ksize = 100 := rfl
    exact blankStart_zero (by omega) (by omega)
  have hstarted : Started e ⟨⟨0x200, 0x203, 0x7FF⟩, words e.mem, []⟩ :=
    ⟨idtInit_gdtInit, rfl, fun _ _ _ => rfl, fun _ _ _ => rfl⟩
  obtain ⟨swapperPgDir, t, hswitch⟩ := switch_keeps_window hstarted hbooted' (by decide) (by decide)
  exact ⟨e, _, swapperPgDir, t, hbooted', hstarted, hswitch⟩

end Caos
