import Caos.Boot.PagingTables

/-!
What the tables of `paging_init` map. The walk is followed for every linear
address, through the tables as they stand after all stores.
-/

namespace Caos

open Lib

/-- The entry for this frame, with attributes that fit below the address. -/
theorem entry_bits {pfn attr : Nat} (hattr : attr = 0x3 ∨ attr = 0x11) (hpfn : pfn < 2 ^ 28) :
    Present (pfn * 4096 + attr) ∧ ¬ LargePage (pfn * 4096 + attr) ∧
      ptePfn (pfn * 4096 + attr) = pfn := by
  simp only [Present, LargePage, ptePfn, pageSize, pageShift]
  omega

section

variable {mem : Nat → Nat} {i pfn next attr : Nat} {rest : List Nat}

/-- The walk goes on in the table the entry points to. -/
theorem walkFrom_entry (h : mem (512 * pfn + i) = next * 4096 + attr)
    (hattr : attr = 0x3 ∨ attr = 0x11) (hnext : next < 2 ^ 28) :
    walkFrom mem (i :: rest) pfn =
      (walkFrom mem rest next).map ((next * 4096 + attr) :: ·) := by
  obtain ⟨hpresent, hlarge, hpfn⟩ := entry_bits hattr hnext
  simp only [walkFrom, h, hpresent, hlarge, hpfn, not_true_eq_false, false_and, if_false]

theorem walkFrom_absent (h : mem (512 * pfn + i) = 0) : walkFrom mem (i :: rest) pfn = none := by
  have habsent : ¬ Present 0 := by decide
  simp only [walkFrom, h, habsent, not_false_eq_true, if_true]

end

section

variable {mem : Nat → Nat} {phyMemSize first ptes : Nat}

/-- The tables are entered with the addresses of the 512 GB from `PAGE_OFFSET` on, and
only with these. -/
theorem TablesAt.walk_eq (h : TablesAt phyMemSize first ptes mem) (hfirst : first + 1 < 2 ^ 28)
    {q : Nat} (hq : q < 2 ^ 39) :
    walk mem (frameAddr first) (pageOffset + q) =
      (walkFrom mem [q / 0x40000000, q / 0x200000 % 512, q / 4096 % 512] (first + 1)).map
        (((first + 1) * 4096 + 3) :: ·) := by
  have hcanonical : Canonical (pageOffset + q) := by
    simp only [Canonical, pageOffset]
    omega
  have hindices : pgdIndex (pageOffset + q) = 0x100 ∧
      pudIndex (pageOffset + q) = q / 0x40000000 ∧
      pmdIndex (pageOffset + q) = q / 0x200000 % 512 ∧
      pteIndex (pageOffset + q) = q / 4096 % 512 := by
    simp only [pgdIndex, pudIndex, pmdIndex, pteIndex, pageOffset]
    omega
  obtain ⟨hpgd, hpud, hpmd, hpte⟩ := hindices
  have hentry := (h.pgd 0x100 (by norm_num)).trans (if_pos rfl)
  rw [walk, if_pos hcanonical, virtToPfn_frameAddr, hpgd, hpud, hpmd, hpte,
    walkFrom_entry hentry (.inl rfl) hfirst]

theorem TablesAt.walk_outside (h : TablesAt phyMemSize first ptes mem) {address : Nat}
    (hout : ∀ q < 2 ^ 39, address ≠ pageOffset + q) :
    walk mem (frameAddr first) address = none := by
  unfold walk
  split_ifs with hcanonical
  · have hlt : pgdIndex address < 512 := Nat.mod_lt _ (by norm_num)
    have hpgd : pgdIndex address ≠ 0x100 := by
      intro hpgd
      have hq := hout (address - pageOffset)
      simp only [Canonical, pgdIndex, pageOffset] at *
      omega
    rw [virtToPfn_frameAddr]
    apply walkFrom_absent
    rw [h.pgd _ hlt, if_neg hpgd]
  · rfl

/-- The walk of an address of the kernel mapping that has a page table. -/
theorem TablesAt.walk_kernel (h : TablesAt phyMemSize first ptes mem) (hptes : ptes < 512)
    (hfirst : first + 14 + ptes < 2 ^ 28) {p : Nat} (hp : p < 0x200000 * ptes) :
    walk mem (frameAddr first) (pageOffset + p) =
      some [(first + 1) * 4096 + 3, (first + 2) * 4096 + 3,
        (first + 3 + p / 0x200000) * 4096 + 3, p / 4096 * 4096 + 3] := by
  have hpud : p / 0x40000000 = 0 := by omega
  have hpmd : p / 0x200000 % 512 = p / 0x200000 := by omega
  have hpte : 512 * (p / 0x200000) + p / 4096 % 512 = p / 4096 := by omega
  have hk : p / 0x200000 < ptes := by omega
  have hentry3 := (h.pud 0 (by norm_num)).trans (if_pos rfl)
  have hentry2 := (h.pmd (p / 0x200000) (by omega)).trans (if_pos hk)
  have hentry1 := h.pte _ hk (p / 4096 % 512) (by omega)
  rw [hpte] at hentry1
  rw [h.walk_eq (by omega) (by omega), hpud, hpmd, walkFrom_entry hentry3 (.inl rfl) (by omega),
    walkFrom_entry hentry2 (.inl rfl) (by omega), walkFrom_entry hentry1 (.inl rfl) (by omega)]
  rfl

/-- The walk of an address of the device window. -/
theorem TablesAt.walk_device (h : TablesAt phyMemSize first ptes mem) (hptes : ptes < 512)
    (hfirst : first + 14 + ptes < 2 ^ 28) {d : Nat} (hd : d < 20 * 0x100000) :
    walk mem (frameAddr first) (pageOffset + 0xC0000000 + d) =
      some [(first + 1) * 4096 + 3, (first + 3 + ptes) * 4096 + 0x11,
        (first + 4 + ptes + d / 0x200000) * 4096 + 0x11,
        (0xFEC00 + d / 4096) * 4096 + 0x11] := by
  have hpud : (0xC0000000 + d) / 0x40000000 = 3 := by omega
  have hpmd : (0xC0000000 + d) / 0x200000 % 512 = d / 0x200000 := by omega
  have hpte : (0xC0000000 + d) / 4096 % 512 = d / 4096 % 512 := by omega
  have hk : d / 0x200000 < 10 := by omega
  have hentry3 := (h.pud 3 (by norm_num)).trans ((if_neg (by norm_num)).trans (if_pos rfl))
  have hentry2 := (h.pmdReserv (d / 0x200000) (by omega)).trans (if_pos hk)
  have hentry1 : mem (512 * (first + 4 + ptes + d / 0x200000) + d / 4096 % 512) =
      (0xFEC00 + d / 4096) * 4096 + 0x11 := by
    rw [h.pteReserv _ hk _ (by omega)]
    omega
  rw [Nat.add_assoc, h.walk_eq (by omega) (by omega), hpud, hpmd, hpte,
    walkFrom_entry hentry3 (.inr rfl) (by omega), walkFrom_entry hentry2 (.inr rfl) (by omega),
    walkFrom_entry hentry1 (.inr rfl) (by omega)]
  rfl

/-- Where the size is even, nothing else is mapped. -/
theorem TablesAt.walk_none (h : TablesAt phyMemSize first ptes mem) (hptes : ptes < 512)
    (hfirst : first + 14 + ptes < 2 ^ 28) (heven : phyMemSize = 2 * ptes) {address : Nat}
    (hkernel : ∀ p < phyMemSize * 0x100000, address ≠ pageOffset + p)
    (hdevice : ∀ d < 20 * 0x100000, address ≠ pageOffset + 0xC0000000 + d) :
    walk mem (frameAddr first) address = none := by
  by_cases hhigh : ∃ q < 2 ^ 39, address = pageOffset + q
  swap
  · push Not at hhigh
    exact h.walk_outside hhigh
  obtain ⟨q, hq, rfl⟩ := hhigh
  rw [h.walk_eq (by omega) hq, Option.map_eq_none_iff]
  by_cases hgiga : q / 0x40000000 = 0
  · have hbeyond : ¬ q / 0x200000 % 512 < ptes := by
      intro hlt
      exact hkernel q (by omega) rfl
    have hentry3 := (h.pud 0 (by norm_num)).trans (if_pos rfl)
    rw [hgiga, walkFrom_entry hentry3 (.inl rfl) (by omega), Option.map_eq_none_iff]
    apply walkFrom_absent
    rw [h.pmd _ (by omega), if_neg hbeyond]
  · by_cases hwindow : q / 0x40000000 = 3
    · have hbeyond : ¬ q / 0x200000 % 512 < 10 := by
        intro hlt
        exact hdevice (q - 0xC0000000) (by omega) (by omega)
      have hentry3 := (h.pud 3 (by norm_num)).trans ((if_neg (by norm_num)).trans (if_pos rfl))
      rw [hwindow, walkFrom_entry hentry3 (.inr rfl) (by omega), Option.map_eq_none_iff]
      apply walkFrom_absent
      rw [h.pmdReserv _ (by omega), if_neg hbeyond, if_neg (by omega)]
    · apply walkFrom_absent
      rw [h.pud _ (by omega), if_neg hgiga, if_neg hwindow]

end

/-- The frame in the last entry of the walk. -/
def leafPfn (mem : Nat → Nat) (swapperPgDir address : Nat) : Option Nat :=
  ((walk mem swapperPgDir address).bind List.getLast?).map ptePfn

/-- The linear addresses `paging_init` maps: the physical memory in whole page
tables, and the device window. -/
def LinearAddress (phyMemSize address : Nat) : Prop :=
  (∃ p < 0x200000 * (phyMemSize / 2), address = pageOffset + p) ∨
    ∃ d < 20 * 0x100000, address = pageOffset + 0xC0000000 + d

/-- Physical memory is mapped at `PAGE_OFFSET` and the device registers uncached at
`PAGE_OFFSET + 0xC0000000`, no two pages on one frame. -/
structure KernelMapping (phyMemSize swapperPgDir : Nat) (mem : Nat → Nat) : Prop where
  kernel : ∀ p < 0x200000 * (phyMemSize / 2), ∃ pgd pud pmd pte,
    walk mem swapperPgDir (pageOffset + p) = some [pgd, pud, pmd, pte] ∧
      (∀ entry ∈ [pgd, pud, pmd, pte], Present entry ∧ Writable entry) ∧
      ptePfn pte = p / pageSize
  device : ∀ d < 20 * 0x100000, ∃ pgd pud pmd pte,
    walk mem swapperPgDir (pageOffset + 0xC0000000 + d) = some [pgd, pud, pmd, pte] ∧
      Present pte ∧ CacheDisabled pte ∧ ptePfn pte = (0xFEC00000 + d) / pageSize
  injective : ∀ a b, LinearAddress phyMemSize a → LinearAddress phyMemSize b →
    leafPfn mem swapperPgDir a = leafPfn mem swapperPgDir b → a / pageSize = b / pageSize

section

variable {mem : Nat → Nat} {phyMemSize first : Nat}

theorem TablesAt.leafPfn_kernel (h : TablesAt phyMemSize first (phyMemSize / 2) mem)
    (hsize : phyMemSize < 1024) (hfirst : first + 14 + phyMemSize / 2 < 2 ^ 28) {p : Nat}
    (hp : p < 0x200000 * (phyMemSize / 2)) :
    leafPfn mem (frameAddr first) (pageOffset + p) = some (p / 4096) := by
  have hbits := @entry_bits (p / 4096) 3 (.inl rfl) (by omega)
  rw [leafPfn, h.walk_kernel (by omega) hfirst hp]
  exact congrArg some hbits.2.2

theorem TablesAt.leafPfn_device (h : TablesAt phyMemSize first (phyMemSize / 2) mem)
    (hsize : phyMemSize < 1024) (hfirst : first + 14 + phyMemSize / 2 < 2 ^ 28) {d : Nat}
    (hd : d < 20 * 0x100000) :
    leafPfn mem (frameAddr first) (pageOffset + 0xC0000000 + d) = some (0xFEC00 + d / 4096) := by
  have hbits := @entry_bits (0xFEC00 + d / 4096) 0x11 (.inr rfl) (by omega)
  rw [leafPfn, h.walk_device (by omega) hfirst hd]
  exact congrArg some hbits.2.2

theorem TablesAt.kernelMapping (h : TablesAt phyMemSize first (phyMemSize / 2) mem)
    (hsize : phyMemSize < 1024) (hfirst : first + 14 + phyMemSize / 2 < 2 ^ 28) :
    KernelMapping phyMemSize (frameAddr first) mem := by
  constructor
  · intro p hp
    refine ⟨_, _, _, _, h.walk_kernel (by omega) hfirst hp, ?_, ?_⟩
    · have hbits : ∀ pfn, Present (pfn * 4096 + 3) ∧ Writable (pfn * 4096 + 3) := by
        intro pfn
        simp only [Present, Writable, pageRw]
        omega
      simp only [List.forall_mem_cons, hbits, List.not_mem_nil, false_imp_iff, implies_true,
        and_self]
    · exact (@entry_bits (p / 4096) 3 (.inl rfl) (by omega)).2.2
  · intro d hd
    have hbits := @entry_bits (0xFEC00 + d / 4096) 0x11 (.inr rfl) (by omega)
    refine ⟨_, _, _, _, h.walk_device (by omega) hfirst hd, hbits.1, ?_, ?_⟩
    · simp only [CacheDisabled, pagePcd]
      omega
    · rw [hbits.2.2]
      simp only [pageSize, pageShift]
      omega
  · intro a b ha hb hsame
    simp only [pageSize, pageShift]
    obtain ⟨p, hp, rfl⟩ | ⟨d, hd, rfl⟩ := ha
    · rw [h.leafPfn_kernel hsize hfirst hp] at hsame
      obtain ⟨p', hp', rfl⟩ | ⟨d', hd', rfl⟩ := hb
      · rw [h.leafPfn_kernel hsize hfirst hp', Option.some_inj] at hsame
        simp only [pageOffset]
        omega
      · rw [h.leafPfn_device hsize hfirst hd', Option.some_inj] at hsame
        omega
    · rw [h.leafPfn_device hsize hfirst hd] at hsame
      obtain ⟨p', hp', rfl⟩ | ⟨d', hd', rfl⟩ := hb
      · rw [h.leafPfn_kernel hsize hfirst hp', Option.some_inj] at hsame
        omega
      · rw [h.leafPfn_device hsize hfirst hd', Option.some_inj] at hsame
        simp only [pageOffset]
        omega

end

/-- The state in which `setup_arch` calls `paging_init`: the GDT, the TSS and the IDT
have their pages, and `setup.asm` has left the rest of the boot memory zero. -/
structure AtPagingInit (s : Paging) : Prop where
  bootmem : (gdtInit bootmemInit).bind idtInit = some s.bootmem
  zero : ZeroFilled s
  stores : s.stores = []

theorem AtPagingInit.bootmem_eq {s : Paging} (h : AtPagingInit s) :
    s.bootmem = { start := 0x200, index := 0x203, max := 0x7FF } :=
  Option.some_inj.mp (h.bootmem.symm.trans idtInit_gdtInit)

/-- All of the memory is zero. -/
def zeroBoot : Paging :=
  { bootmem := { start := 0x200, index := 0x203, max := 0x7FF }, mem := fun _ => 0, stores := [] }

theorem zeroBoot_atPagingInit : AtPagingInit zeroBoot :=
  ⟨idtInit_gdtInit, fun _ _ _ => rfl, rfl⟩

section

variable {s : Paging} {phyMemSize : Nat}

theorem AtPagingInit.inside_iff (h : AtPagingInit s) (hhi : phyMemSize ≤ 512) :
    StoresInside (pagingDone phyMemSize s) ↔ phyMemSize % 2 = 0 := by
  apply pagingDone_inside_iff (by omega)
  intro store hstore
  rw [h.stores] at hstore
  exact absurd hstore List.not_mem_nil

theorem AtPagingInit.returns (h : AtPagingInit s) (hlo : 16 ≤ phyMemSize)
    (hhi : phyMemSize ≤ 512) :
    pagingInit phyMemSize s = some (frameAddr 0x203, pagingDone phyMemSize s) ∧
      TablesAt phyMemSize 0x203 (phyMemSize / 2) (pagingDone phyMemSize s).mem := by
  have hbootmem := h.bootmem_eq
  have hindex : s.bootmem.index = 0x203 := by rw [hbootmem]
  have hmax : s.bootmem.max = 0x7FF := by rw [hbootmem]
  constructor
  · rw [pagingInit_eq (by omega) (by omega) (by omega) (by omega), hindex]
  · rw [← hindex]
    exact pagingDone_tables (by omega) (by omega) (by omega) h.zero

/-- For every memory size the Makefile allows, `paging_init` returns with the kernel
mapping in place. -/
theorem pagingInit_maps (h : AtPagingInit s) (hlo : 16 ≤ phyMemSize) (hhi : phyMemSize ≤ 512) :
    ∃ swapperPgDir t, pagingInit phyMemSize s = some (swapperPgDir, t) ∧
      KernelMapping phyMemSize swapperPgDir t.mem := by
  obtain ⟨hcall, htables⟩ := h.returns hlo hhi
  exact ⟨_, _, hcall, htables.kernelMapping (by omega) (by omega)⟩

/-- The memory size the Makefile sets. -/
theorem default_memory_mapped :
    ∃ swapperPgDir t, pagingInit 128 zeroBoot = some (swapperPgDir, t) ∧
      KernelMapping 128 swapperPgDir t.mem :=
  pagingInit_maps zeroBoot_atPagingInit (by norm_num) (by norm_num)

/-- Every entry was set inside its own table, and the linear addresses with a present
leaf are those of the physical memory and of the device window. -/
def CoversMemory (phyMemSize swapperPgDir : Nat) (t : Paging) : Prop :=
  StoresInside t ∧ ∀ address, (walk t.mem swapperPgDir address).isSome ↔
    (∃ p < phyMemSize * 0x100000, address = pageOffset + p) ∨
      ∃ d < 20 * 0x100000, address = pageOffset + 0xC0000000 + d

/-- The tables cover the memory exactly for the even sizes. -/
theorem pagingInit_covers_iff (h : AtPagingInit s) (hlo : 16 ≤ phyMemSize)
    (hhi : phyMemSize ≤ 512) :
    (∃ swapperPgDir t, pagingInit phyMemSize s = some (swapperPgDir, t) ∧
      CoversMemory phyMemSize swapperPgDir t) ↔ phyMemSize % 2 = 0 := by
  obtain ⟨hcall, htables⟩ := h.returns hlo hhi
  have hinside := h.inside_iff hhi
  constructor
  · rintro ⟨swapperPgDir, t, hcall', hcovers, -⟩
    rw [hcall] at hcall'
    cases hcall'
    exact hinside.mp hcovers
  · intro heven
    refine ⟨_, _, hcall, hinside.mpr heven, ?_⟩
    intro address
    constructor
    · intro hsome
      by_contra hout
      push Not at hout
      rw [htables.walk_none (by omega) (by omega) (by omega) hout.1 hout.2] at hsome
      cases hsome
    · rintro (⟨p, hp, rfl⟩ | ⟨d, hd, rfl⟩)
      · rw [htables.walk_kernel (by omega) (by omega) (by omega)]
        rfl
      · rw [htables.walk_device (by omega) (by omega) hd]
        rfl

end

theorem default_memory_covered :
    ∃ swapperPgDir t, pagingInit 128 zeroBoot = some (swapperPgDir, t) ∧
      CoversMemory 128 swapperPgDir t :=
  (pagingInit_covers_iff zeroBoot_atPagingInit (by norm_num) (by norm_num)).mpr rfl

/-- With 17 MB there are 8 page tables, and entries for 8 and a half are set. -/
theorem odd_memory_spills :
    ¬ ∀ (s : Paging) (phyMemSize : Nat), AtPagingInit s → 16 ≤ phyMemSize → phyMemSize ≤ 512 →
      ∃ swapperPgDir t, pagingInit phyMemSize s = some (swapperPgDir, t) ∧
        CoversMemory phyMemSize swapperPgDir t := by
  intro h
  obtain ⟨swapperPgDir, t, hcall, hcovers, -⟩ :=
    h zeroBoot 17 zeroBoot_atPagingInit (by norm_num) (by norm_num)
  rw [(zeroBoot_atPagingInit.returns (by norm_num) (by norm_num)).1] at hcall
  cases hcall
  have heven := (zeroBoot_atPagingInit.inside_iff (by norm_num)).mp hcovers
  omega

end Caos
