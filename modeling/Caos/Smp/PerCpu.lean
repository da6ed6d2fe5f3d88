import Caos.Boot.PageAddress
import Caos.Bitops
import Caos.Copy

/-!
`setup_per_cpu_areas`. The block for the copies is requested for `NR_CPUS` times the
whole pages of the section, the loop makes five copies of its bytes. A section of a page
or more has never room for them, a smaller one has the one page of order 0.
-/

namespace Caos

open Lib

/-- The variables of the loop: `percpu_buf`, memory, and `cpu_offset`. -/
structure PerCpu where
  buf : Nat
  mem : ByteMemory
  cpuOffset : Nat → Nat

/-- The number of copies the loop makes. -/
def perCpuCopies : Nat := 5

/-- The order of the block for a section of this size. -/
def perCpuOrder (percpuSize : Nat) : Nat := fls64 (percpuSize / pageSize * nrCpus)

/-- One iteration of the loop. -/
def copySection (start percpuSize i : Nat) (p : PerCpu) : PerCpu where
  mem := caosMemcpy p.buf start percpuSize p.mem
  cpuOffset := Function.update p.cpuOffset i (sub64 p.buf start)
  buf := p.buf + percpuSize

/-- `setup_per_cpu_areas`, for the section from `start` to `stop`. -/
def setupPerCpuAreas (memMap : BitVec 64) (start stop : Nat) (s : PageState)
    (mem : ByteMemory) (cpuOffset : Nat → Nat) : PageState × PerCpu :=
  let percpuSize := sub64 stop start
  let (percpuPage, s) := allocPages 0 (perCpuOrder percpuSize) s
  let percpuBuf := pageToVirt64 memMap (pagePtr memMap percpuPage)
  (s, forUpTo (copySection start percpuSize) perCpuCopies ⟨percpuBuf.toNat, mem, cpuOffset⟩)

/-- The address of `per_cpu(var, cpu)` for a variable at `addr`. -/
def perCpuAddr (p : PerCpu) (addr cpu : Nat) : Nat := (addr + p.cpuOffset cpu) % 2 ^ 64

/-- The copies lie inside the block that begins at `block` and has `size` bytes, apart from
one another, and hold the variables of the section as they were. -/
structure AreasPrivate (start stop block size : Nat) (mem : ByteMemory) (p : PerCpu) : Prop where
  inside : ∀ cpu < perCpuCopies, block ≤ perCpuAddr p start cpu ∧
    perCpuAddr p start cpu + (stop - start) ≤ block + size
  disjoint : ∀ cpu < perCpuCopies, ∀ other < perCpuCopies, cpu ≠ other →
    perCpuAddr p start cpu + (stop - start) ≤ perCpuAddr p start other ∨
      perCpuAddr p start other + (stop - start) ≤ perCpuAddr p start cpu
  variable_inside : ∀ cpu < perCpuCopies, ∀ addr len, start ≤ addr → addr + len ≤ stop →
    perCpuAddr p start cpu ≤ perCpuAddr p addr cpu ∧
      perCpuAddr p addr cpu + len ≤ perCpuAddr p start cpu + (stop - start)
  variable_value : ∀ cpu < perCpuCopies, ∀ addr, start ≤ addr → addr < stop →
    p.mem (perCpuAddr p addr cpu) = mem addr
  others_kept : ∀ a, a < block ∨ block + size ≤ a → p.mem a = mem a

section

variable {start stop size block n : Nat} {mem : ByteMemory} {cpuOffset : Nat → Nat}

/-- Where the copies are, after `n` iterations. -/
theorem copySections_offset (n : Nat) :
    (forUpTo (copySection start size) n ⟨block, mem, cpuOffset⟩).buf = block + n * size ∧
      ∀ i < n, (forUpTo (copySection start size) n ⟨block, mem, cpuOffset⟩).cpuOffset i =
        sub64 (block + i * size) start := by
  induction n with
  | zero =>
      simp only [forUpTo, Nat.zero_mul, Nat.add_zero, Nat.not_lt_zero, false_implies,
        implies_true, and_self]
  | succ n ih =>
      obtain ⟨hbuf, hoffset⟩ := ih
      simp only [forUpTo, copySection]
      constructor
      · rw [hbuf, Nat.succ_mul, Nat.add_assoc]
      · intro i hi
        by_cases hlast : i = n
        · rw [hlast, Function.update_self, hbuf]
        · rw [Function.update_of_ne hlast, hoffset i (by omega)]

/-- What they hold, when no copy reaches into the section: the bytes of the section again
and again. -/
theorem copySections_mem (n : Nat) (hout : start + size ≤ block ∨ block + n * size ≤ start)
    (a : Nat) :
    (forUpTo (copySection start size) n ⟨block, mem, cpuOffset⟩).mem a =
      if block ≤ a ∧ a < block + n * size then mem (start + (a - block) % size) else mem a := by
  induction n generalizing a with
  | zero =>
      rw [Nat.zero_mul, Nat.add_zero, if_neg (by omega)]
      rfl
  | succ n ih =>
      rw [Nat.succ_mul] at hout ⊢
      have hprev := ih (by omega)
      have hbuf := (@copySections_offset start size block mem cpuOffset n).1
      simp only [forUpTo, copySection]
      rw [caosMemcpy_apply (by omega), hbuf]
      by_cases hlast : block + n * size ≤ a ∧ a < block + n * size + size
      · have hindex : (a - block) % size = a - (block + n * size) := by
          rw [Nat.sub_add_eq, show a - block = a - block - n * size + n * size by omega,
            Nat.add_mul_mod_self_right, Nat.add_sub_cancel, Nat.mod_eq_of_lt (by omega)]
        rw [if_pos hlast, if_pos (by omega), hprev, if_neg (by omega), hindex]
      · rw [if_neg hlast, hprev]
        by_cases hin : block ≤ a ∧ a < block + n * size
        · rw [if_pos hin, if_pos (by omega)]
        · rw [if_neg hin, if_neg (by omega)]

/-- The bytes of the block for a section of whole pages, and of less than one. -/
theorem perCpuOrder_bound (size : Nat) :
    perCpuCopies * size ≤ 2 ^ perCpuOrder size * pageSize ↔ size ≤ 819 := by
  rw [perCpuOrder, fls64]
  by_cases hpage : size / pageSize * nrCpus = 0
  · rw [if_pos hpage]
    simp only [nrCpus, perCpuCopies, pageSize, pageShift] at hpage ⊢
    omega
  · rw [if_neg hpage, Nat.pow_succ]
    have hlog := Nat.log2_self_le hpage
    simp only [nrCpus, perCpuCopies, pageSize, pageShift] at hpage hlog ⊢
    generalize 2 ^ (size / 2 ^ 12 * 2).log2 = whole at hlog ⊢
    omega

/-- A variable in the copy of a CPU. -/
theorem perCpuAddr_copySections {addr cpu : Nat} (hstart : start < 2 ^ 64) (haddr : start ≤ addr)
    (hcpu : cpu < n) :
    perCpuAddr (forUpTo (copySection start size) n ⟨block, mem, cpuOffset⟩) addr cpu =
      (block + cpu * size + (addr - start)) % 2 ^ 64 := by
  rw [perCpuAddr, (copySections_offset n).2 cpu hcpu, sub64]
  omega

/-- The block is as large as the copies together if they are all inside it. -/
theorem AreasPrivate.fits (hstart : start < 2 ^ 64) (hsize : size ≤ 2 ^ maxPageOrder * pageSize)
    (h : AreasPrivate start stop block size mem
      (forUpTo (copySection start (stop - start)) perCpuCopies ⟨block, mem, cpuOffset⟩)) :
    perCpuCopies * (stop - start) ≤ size := by
  obtain ⟨hlo, hhi⟩ := h.inside 4 (by decide)
  rw [perCpuAddr_copySections hstart (Nat.le_refl start) (by decide), Nat.sub_self,
    Nat.add_zero] at hlo hhi
  simp only [maxPageOrder, pageSize, pageShift] at hsize
  simp only [perCpuCopies]
  omega

/-- Five copies in one page that the section is not in. -/
theorem areasPrivate_of_fits (hle : start ≤ stop) (hstart : start < 2 ^ 64)
    (hfits : perCpuCopies * (stop - start) < size) (hblock : block + size ≤ 2 ^ 64)
    (hapart : start = stop ∨ stop ≤ block ∨ block + size ≤ start) :
    AreasPrivate start stop block size mem
      (forUpTo (copySection start (stop - start)) perCpuCopies ⟨block, mem, cpuOffset⟩) := by
  have hbound : ∀ cpu < perCpuCopies,
      cpu * (stop - start) + (stop - start) ≤ perCpuCopies * (stop - start) := by
    intro cpu hcpu
    rw [← Nat.succ_mul]
    exact Nat.mul_le_mul_right _ hcpu
  have haddr : ∀ cpu < perCpuCopies, ∀ addr, start ≤ addr → addr ≤ stop →
      perCpuAddr (forUpTo (copySection start (stop - start)) perCpuCopies ⟨block, mem, cpuOffset⟩)
        addr cpu = block + cpu * (stop - start) + (addr - start) := by
    intro cpu hcpu addr hlo hhi
    have hcopy := hbound cpu hcpu
    rw [perCpuAddr_copySections hstart hlo hcpu, Nat.mod_eq_of_lt (by omega)]
  have hcopies : perCpuCopies * (stop - start) = 5 * (stop - start) := rfl
  have hmem := @copySections_mem start (stop - start) block mem cpuOffset perCpuCopies (by omega)
  constructor
  · intro cpu hcpu
    have hcopy := hbound cpu hcpu
    rw [haddr cpu hcpu start (Nat.le_refl start) hle]
    omega
  · intro cpu hcpu other hother hne
    rw [haddr cpu hcpu start (Nat.le_refl start) hle,
      haddr other hother start (Nat.le_refl start) hle]
    rcases Nat.lt_or_gt_of_ne hne with hlt | hgt
    · have hnext := Nat.mul_le_mul_right (stop - start) hlt
      rw [Nat.succ_mul] at hnext
      omega
    · have hnext := Nat.mul_le_mul_right (stop - start) hgt
      rw [Nat.succ_mul] at hnext
      omega
  · intro cpu hcpu addr len hlo hhi
    rw [haddr cpu hcpu start (Nat.le_refl start) hle, haddr cpu hcpu addr hlo (by omega)]
    omega
  · intro cpu hcpu addr hlo hhi
    have hcopy := hbound cpu hcpu
    have hindex : (block + cpu * (stop - start) + (addr - start) - block) % (stop - start) =
        addr - start := by
      rw [Nat.add_assoc, Nat.add_sub_cancel_left, Nat.add_comm, Nat.add_mul_mod_self_right,
        Nat.mod_eq_of_lt (by omega)]
    rw [haddr cpu hcpu addr hlo hhi.le, hmem, if_pos (by omega), hindex, Nat.add_sub_cancel' hlo]
  · intro a ha
    rw [hmem, if_neg (by omega)]

end

/-- What is free was free at boot. -/
theorem PageInv.free_at_boot {boot : Nat → Page} {freeAtBoot pages f : Nat} {s : PageState}
    {live : List Block} (h : PageInv boot freeAtBoot pages s live) (hfree : IsFree s.memMap f) :
    IsFree boot f := by
  have hcount := h.count f
  rw [show (s.memMap f).count = 0 from hfree] at hcount
  split at hcount
  · cases hcount
  · exact hcount.symm

theorem frameAddr_page_le {first pages : Nat} (hfirst : first < pages)
    (hpages : frameAddr pages ≤ 2 ^ 64) : frameAddr first + pageSize ≤ 2 ^ 64 := by
  have hnext := Nat.mul_le_mul_right pageSize (Nat.succ_le_of_lt hfirst)
  rw [Nat.succ_mul] at hnext
  rw [frameAddr, va] at hpages ⊢
  omega

/-- A range with no byte in a frame lies before or behind its page, or is empty. -/
theorem range_apart_frame {first start stop : Nat} (hle : start ≤ stop)
    (h : ∀ a, start ≤ a → a < stop → virtToPfn a ≠ first) :
    start = stop ∨ stop ≤ frameAddr first ∨ frameAddr first + pageSize ≤ start := by
  have hpfn : ∀ d < pageSize, virtToPfn (frameAddr first + d) = first := by
    intro d hd
    exact virtToPfn_frameAddr_add (Nat.zero_mul pageSize ▸ Nat.zero_le d) (by omega)
  by_contra hmeet
  rcases Nat.le_total start (frameAddr first) with hbefore | hbehind
  · exact h (frameAddr first) hbefore (by omega) (virtToPfn_frameAddr first)
  · obtain ⟨d, rfl⟩ := Nat.exists_eq_add_of_le hbehind
    exact h (frameAddr first + d) (Nat.le_refl _) (by omega) (hpfn d (by omega))

/-- When the block can be had, the loop starts at its first page. -/
theorem setupPerCpuAreas_eq {phyMemSize start stop first : Nat} {memMap : BitVec 64}
    {s : PageState} {mem : ByteMemory} {cpuOffset : Nat → Nat}
    (hmap : TableMapped phyMemSize memMap) (hpages : s.zone.pages = zonePages phyMemSize)
    (hle : start ≤ stop) (hstop : stop < 2 ^ 64)
    (hcall : (allocPages 0 (perCpuOrder (stop - start)) s).1 = some first) :
    (setupPerCpuAreas memMap start stop s mem cpuOffset).2 =
      forUpTo (copySection start (stop - start)) perCpuCopies ⟨frameAddr first, mem, cpuOffset⟩ ∧
    perCpuOrder (stop - start) ≤ maxPageOrder ∧ first < zonePages phyMemSize ∧
      IsFree s.memMap first := by
  have hlt := zonePages_lt phyMemSize
  rcases allocPages_cases 0 (perCpuOrder (stop - start)) s with
    ⟨horder, -, first', hfit, htake⟩ | ⟨hnone, -⟩
  · obtain rfl : first' = first := by
      rw [htake] at hcall
      exact Option.some.inj hcall
    have hbelow : first' < zonePages phyMemSize := hpages ▸ hfit.below
    refine ⟨?_, horder, hbelow, by simpa using hfit.window 0 (Nat.two_pow_pos _)⟩
    have hsize : sub64 stop start = stop - start := by
      rw [sub64]
      omega
    have haddr := frameAddr_page_le hbelow hmap.zone
    have hbuf : (pageToVirt64 memMap (pagePtr memMap (some first'))).toNat = frameAddr first' := by
      rw [pageToVirt64_pagePtr (by omega), BitVec.toNat_ofNat, Nat.mod_eq_of_lt]
      exact Nat.lt_of_lt_of_le (Nat.lt_add_of_pos_right (by decide)) haddr
    simp only [setupPerCpuAreas, hsize, htake, hbuf]
  · rw [hnone] at hcall
    cases hcall

/-- For every section of the kernel image, in every state of the page allocator from which
its block can be had: the copies are private if and only if the section has at most 819
bytes, a fifth of a page. -/
theorem perCpuAreas_private_iff (phyMemSize : Nat) (memMap : BitVec 64)
    (hmap : TableMapped phyMemSize memMap) (busy : Nat → Bool) (behind : Nat → Page)
    (ops : List (PageOp (zonePages phyMemSize))) (start stop : Nat) (hle : start ≤ stop)
    (hstop : stop < 2 ^ 64)
    (himage : ∀ a, start ≤ a → a < stop →
      ¬ IsFree (bootTable busy behind (zonePages phyMemSize)) (virtToPfn a))
    (mem : ByteMemory) (cpuOffset : Nat → Nat) (first : Nat)
    (hcall : (allocPages 0 (perCpuOrder (stop - start)) (reachedState busy behind ops)).1 =
      some first) :
    AreasPrivate start stop (frameAddr first) (2 ^ perCpuOrder (stop - start) * pageSize) mem
        (setupPerCpuAreas memMap start stop (reachedState busy behind ops) mem cpuOffset).2 ↔
      stop - start ≤ 819 := by
  obtain ⟨live, hinv⟩ := reachedState_inv busy behind ops
  obtain ⟨hcopies, horder, hfirst, hfree⟩ :=
    @setupPerCpuAreas_eq _ _ _ _ _ _ mem cpuOffset hmap hinv.zone hle hstop hcall
  have hblock : 2 ^ perCpuOrder (stop - start) * pageSize ≤ 2 ^ maxPageOrder * pageSize :=
    Nat.mul_le_mul_right _ (Nat.pow_le_pow_right (by decide) horder)
  rw [hcopies, ← perCpuOrder_bound]
  constructor
  · exact AreasPrivate.fits (by omega) hblock
  · intro hfits
    have hsmall := (perCpuOrder_bound (stop - start)).mp hfits
    have horder0 : perCpuOrder (stop - start) = 0 := by
      rw [perCpuOrder, Nat.div_eq_of_lt (Nat.lt_of_le_of_lt hsmall (by decide))]
      rfl
    rw [horder0, Nat.pow_zero, Nat.one_mul]
    apply areasPrivate_of_fits hle (by omega)
    · simp only [perCpuCopies, pageSize, pageShift]
      omega
    · exact frameAddr_page_le hfirst hmap.zone
    · apply range_apart_frame hle
      rintro a hlo hhi rfl
      -- the page was free, and so it was at boot
      exact himage a hlo hhi (hinv.free_at_boot hfree)

/-- A section of up to 4095 bytes at the linear address 0x120000 of the kernel image. -/
theorem section_in_image {size a : Nat} (hsize : size < pageSize) (hlo : frameAddr 0x120 ≤ a)
    (hhi : a < frameAddr 0x120 + size) :
    ¬ IsFree (bootTable (bootedHeap 16).busy (fun _ => zeroPage) (zonePages 16)) (virtToPfn a) := by
  have hpages : 0x120 < zonePages 16 := by norm_num [zonePages, pageSize, pageShift]
  obtain ⟨d, rfl⟩ := Nat.exists_eq_add_of_le hlo
  have hpfn : virtToPfn (frameAddr 0x120 + d) = 0x120 :=
    virtToPfn_frameAddr_add (Nat.zero_mul pageSize ▸ Nat.zero_le d) (by omega)
  have hbusy : (bootedHeap 16).busy 0x120 = true := by
    rw [Bootmem.busy_iff]
    exact .inr (.inl ⟨by norm_num, by norm_num⟩)
  rw [hpfn, IsFree, bootTable, if_pos hpages, memMapInit, hbusy]
  exact one_ne_zero

/-- The five variables of `percpu.c`, on a machine with 16 MB. -/
theorem five_longs_private :
    AreasPrivate (frameAddr 0x120) (frameAddr 0x120 + 40) (frameAddr 1)
      (2 ^ perCpuOrder (frameAddr 0x120 + 40 - frameAddr 0x120) * pageSize) (fun _ => 7)
      (setupPerCpuAreas (bootedMemMap 16) (frameAddr 0x120) (frameAddr 0x120 + 40)
        (reachedState (bootedHeap 16).busy (fun _ => zeroPage) ([] : List (PageOp (zonePages 16))))
        (fun _ => 7) (fun _ => 0)).2 :=
  (perCpuAreas_private_iff 16 _ (bootedMemMap_mapped (by norm_num) (by norm_num)) _ _ []
    (frameAddr 0x120) (frameAddr 0x120 + 40) (Nat.le_add_right _ _) (by decide)
    (fun _ => section_in_image (by decide)) _ _ 1 (bootedHeap_first (by decide))).mpr (by decide)

/-- A section of 1000 bytes there: the fifth copy begins at offset 4000 of the one page. -/
theorem large_section_spills :
    ¬ ∀ (phyMemSize : Nat) (memMap : BitVec 64) (_ : TableMapped phyMemSize memMap)
        (busy : Nat → Bool) (behind : Nat → Page) (ops : List (PageOp (zonePages phyMemSize)))
        (start stop : Nat) (_ : start ≤ stop) (_ : stop < 2 ^ 64)
        (_ : ∀ a, start ≤ a → a < stop →
          ¬ IsFree (bootTable busy behind (zonePages phyMemSize)) (virtToPfn a))
        (mem : ByteMemory) (cpuOffset : Nat → Nat) (first : Nat)
        (_ : (allocPages 0 (perCpuOrder (stop - start)) (reachedState busy behind ops)).1 =
          some first),
      AreasPrivate start stop (frameAddr first) (2 ^ perCpuOrder (stop - start) * pageSize) mem
        (setupPerCpuAreas memMap start stop (reachedState busy behind ops) mem cpuOffset).2 := by
  intro h
  have hmap := @bootedMemMap_mapped 16 (by norm_num) (by norm_num)
  have himage := fun a => @section_in_image 1000 a (by decide)
  have hcall := @bootedHeap_first (perCpuOrder (frameAddr 0x120 + 1000 - frameAddr 0x120))
    (by decide)
  have hprivate := h 16 _ hmap _ _ [] (frameAddr 0x120) (frameAddr 0x120 + 1000)
    (Nat.le_add_right _ _) (by decide) himage (fun _ => 7) (fun _ => 0) 1 hcall
  obtain ⟨live, hinv⟩ := reachedState_inv (bootedHeap 16).busy (fun _ => zeroPage)
    ([] : List (PageOp (zonePages 16)))
  rw [(setupPerCpuAreas_eq hmap hinv.zone (Nat.le_add_right _ _) (by decide) hcall).1] at hprivate
  have hfits := hprivate.fits (by decide) (by decide)
  exact absurd hfits (by decide)

end Caos
