import Caos.Lib.Words
import Caos.Boot.ApArea
import Caos.Boot.KernelMapping

/-!
The page tables of `setup.asm`: the protected mode part of the start-up, up to the store to
`cr3`, and what the tables map. The memory in front of it is arbitrary.
-/

namespace Caos

open Lib

/-- `PDP_addr`. -/
def pdpAddr : Nat := 0x91000

/-- `PDE_addr`. -/
def pdeAddr : Nat := 0x92000

/-- `PTE_addr`. -/
def pteAddr : Nat := 0x93000

/-- `BIT_CR3_PWT` and `BIT_CR3_PCD`. -/
def cr3Attr : Nat := 0x8 + 0x10

/-- `rep stosd` and `rep stosq`, by their width. -/
def repStos (width eax : Nat) : (ecx edi : Nat) → ByteMemory → ByteMemory
  | 0, _, mem => mem
  | ecx + 1, edi, mem =>
    repStos width eax ecx (edi + width) (storeBytes mem edi (leBytes width eax))

/-- `mov [es:edi], eax`. -/
def storeEax (edi eax : Nat) (mem : ByteMemory) : ByteMemory :=
  storeBytes mem edi (leBytes 4 eax)

/-- The loops `set_PDE` and `set_PTE`. -/
def setEntries : (ecx edi eax : Nat) → ByteMemory → ByteMemory
  | 0, _, _, mem => mem
  | ecx + 1, edi, eax, mem => setEntries ecx (edi + 8) (eax + 0x1000) (storeEax edi eax mem)

/-- The stores of `protect_start` to the tables. -/
def protectStart (mem : ByteMemory) : ByteMemory :=
  -- the count is that of the bytes of seven frames, and the unit is four bytes
  let mem := repStos 4 0 (7 * 4096) pml4Addr mem
  let mem := storeEax pml4Addr (pdpAddr + 7) mem
  let mem := storeEax (pml4Addr + 8 * 0x100) (pdpAddr + 7) mem
  let mem := storeEax pdpAddr (pdeAddr + 7) mem
  let mem := setEntries (bootingMemorySize / 2) pdeAddr (pteAddr + 7) mem
  setEntries (bootingMemorySize * 256) pteAddr 7 mem

/-- What `protect_start` puts into `cr3`. -/
def bootCr3 : Nat := pml4Addr + cr3Attr

/-- The physical address of a linear one; the boot tables map no large pages. -/
def linearToPhys (mem : Nat → Nat) (cr3 address : Nat) : Option Nat :=
  if Canonical address then
    match walkFrom mem
        [pgdIndex address, pudIndex address, pmdIndex address, pteIndex address] (ptePfn cr3) with
    | some [_, _, _, pte] => some (ptePfn pte * pageSize + address % pageSize)
    | _ => none
  else none

/-! ## The stores -/

section Stores

variable {mem : ByteMemory} {width ecx edi eax a k : Nat}

theorem leBytes_zero_getD {n i : Nat} : (leBytes n 0).getD i 0 = 0 := by
  induction n generalizing i with
  | zero => rfl
  | succ n ih =>
      cases i with
      | zero => rfl
      | succ i => simpa [leBytes] using ih

theorem repStos_frame (h : a < edi ∨ edi + width * ecx ≤ a) :
    repStos width eax ecx edi mem a = mem a := by
  induction ecx generalizing edi mem with
  | zero => rfl
  | succ ecx ih =>
      rw [Nat.mul_succ] at h
      rw [repStos, ih (by omega), storeBytes_of_outside]
      rw [leBytes_length]
      omega

/-- With zero the range is zero, and the rest is as it was. -/
theorem repStos_apply (mem : ByteMemory) (width ecx edi a : Nat) : repStos width 0 ecx edi mem a =
    if edi ≤ a ∧ a < edi + width * ecx then 0 else mem a := by
  induction ecx generalizing edi mem with
  | zero =>
      have hempty : ¬ (edi ≤ a ∧ a < edi + width * 0) := by
        omega
      rw [if_neg hempty, repStos]
  | succ ecx ih =>
      rw [repStos, ih, storeBytes_apply, leBytes_length, leBytes_zero_getD, Nat.mul_succ]
      split_ifs <;> first | rfl | omega

theorem setEntries_frame (h : a < edi ∨ edi + 8 * ecx ≤ a ∨ 4 ≤ (a - edi) % 8) :
    setEntries ecx edi eax mem a = mem a := by
  induction ecx generalizing edi eax mem with
  | zero => rfl
  | succ ecx ih =>
      rw [setEntries, ih (by omega), storeEax, storeBytes_of_outside]
      rw [leBytes_length]
      omega

theorem storeEax_frame (h : a < edi ∨ edi + 4 ≤ a) : storeEax edi eax mem a = mem a := by
  rw [storeEax, storeBytes_of_outside]
  rw [leBytes_length]
  exact h

/-- An entry whose upper half was zero. -/
theorem storeEax_entry (heax : eax < 2 ^ 32) (hzero : ∀ a, edi + 4 ≤ a → a < edi + 8 → mem a = 0) :
    readWord (storeEax edi eax mem) edi 8 = eax := by
  have hlow : readWord (storeEax edi eax mem) edi 4 = eax :=
    readWord_storeBytes (by omega)
  have hhigh : readWord (storeEax edi eax mem) (edi + 4) 4 = 0 := by
    apply readWord_zero
    intro a hlo hhi
    rw [storeEax_frame (.inr hlo)]
    exact hzero a hlo (by omega)
  rw [@readWord_add _ _ 4 4, hlow, hhigh, Nat.mul_zero, Nat.add_zero]

/-- The entries of a loop, where their upper halves were zero. -/
theorem setEntries_entry (hk : k < ecx) (heax : eax + 0x1000 * ecx < 2 ^ 32)
    (hzero : ∀ a, edi + 8 * k + 4 ≤ a → a < edi + 8 * k + 8 → mem a = 0) :
    readWord (setEntries ecx edi eax mem) (edi + 8 * k) 8 = eax + 0x1000 * k := by
  induction ecx generalizing edi eax mem k with
  | zero => omega
  | succ ecx ih =>
      rw [setEntries]
      cases k with
      | zero =>
          rw [readWord_congr fun a hlo hhi => setEntries_frame (.inl (by omega))]
          exact storeEax_entry (by omega) hzero
      | succ k =>
          have haddr : edi + 8 * (k + 1) = edi + 8 + 8 * k := by omega
          rw [haddr, ih (by omega) (by omega)]
          · omega
          · intro a hlo hhi
            rw [storeEax_frame (.inr (by omega))]
            exact hzero a (by omega) (by omega)

end Stores

/-! ## The tables -/

/-- The four levels, from frame 0x90 on: one table, entered twice, for the first megabytes of
physical memory. -/
structure BootTables (mem : Nat → Nat) : Prop where
  pml4 : ∀ i < 512, mem (512 * 0x90 + i) = if i = 0 ∨ i = 0x100 then 0x91 * 4096 + 7 else 0
  pdp : ∀ i < 512, mem (512 * 0x91 + i) = if i = 0 then 0x92 * 4096 + 7 else 0
  pde : ∀ i < 512, mem (512 * 0x92 + i) = if i < 4 then (0x93 + i) * 4096 + 7 else 0
  pte : ∀ i < 2048, mem (512 * 0x93 + i) = i * 4096 + 7

/-- The tables are in seven frames. -/
theorem BootTables.of_words {mem mem' : Nat → Nat} (h : BootTables mem)
    (hmem : ∀ i, 512 * 0x90 ≤ i → i < 512 * 0x97 → mem' i = mem i) : BootTables mem' := by
  constructor
  · intro i hi
    rw [hmem _ (by omega) (by omega), h.pml4 i hi]
  · intro i hi
    rw [hmem _ (by omega) (by omega), h.pdp i hi]
  · intro i hi
    rw [hmem _ (by omega) (by omega), h.pde i hi]
  · intro i hi
    rw [hmem _ (by omega) (by omega), h.pte i hi]

theorem BootTables.congr {mem mem' : ByteMemory} (h : BootTables (words mem))
    (hmem : ∀ a, 0x90000 ≤ a → a < 0x97000 → mem' a = mem a) : BootTables (words mem') := by
  apply h.of_words
  intro i hlo hhi
  apply words_congr
  intro a halo hahi
  exact hmem a (by omega) (by omega)

section Tables

variable {mem : ByteMemory} {a : Nat}

/-- The first stores, behind which the rest of the tables is still zero. -/
def upperTables (mem : ByteMemory) : ByteMemory :=
  storeEax pdpAddr (pdeAddr + 7) (storeEax (pml4Addr + 8 * 0x100) (pdpAddr + 7)
    (storeEax pml4Addr (pdpAddr + 7) (repStos 4 0 (7 * 4096) pml4Addr mem)))

theorem protectStart_eq (mem : ByteMemory) : protectStart mem =
    setEntries 2048 0x93000 7 (setEntries 4 0x92000 0x93007 (upperTables mem)) := by
  rfl

theorem cleared (hlo : 0x90000 ≤ a) (hhi : a < 0xAC000) :
    repStos 4 0 (7 * 4096) pml4Addr mem a = 0 := by
  rw [repStos_apply, if_pos]
  simp only [pml4Addr]
  omega

theorem upperTables_zero (hlo : 0x90000 ≤ a) (hhi : a < 0xAC000)
    (hout : 4 ≤ a % 8 ∨ (a / 8 ≠ 0x12000 ∧ a / 8 ≠ 0x12100 ∧ a / 8 ≠ 0x12200)) :
    upperTables mem a = 0 := by
  unfold upperTables pdpAddr pml4Addr
  rw [storeEax_frame (by omega), storeEax_frame (by omega), storeEax_frame (by omega)]
  exact cleared hlo hhi

/-- The words of the first stores. -/
theorem upperTables_words (mem : ByteMemory) (addr : Nat) (hlo : 0x90000 ≤ addr)
    (hhi : addr + 8 ≤ 0xAC000) (halign : addr % 8 = 0) :
    readWord (upperTables mem) addr 8 =
      if addr = 0x90000 ∨ addr = 0x90800 then 0x91007
      else if addr = 0x91000 then 0x92007 else 0 := by
  have hcleared : ∀ a, addr ≤ a → a < addr + 8 → repStos 4 0 (7 * 4096) pml4Addr mem a = 0 := by
    intro a halo hahi
    exact cleared (by omega) (by omega)
  split_ifs with hpml4 hpdp
  · unfold upperTables pdeAddr pdpAddr pml4Addr at *
    rcases hpml4 with rfl | rfl
    · rw [readWord_congr fun a _ hahi => storeEax_frame (.inl (by omega)),
        readWord_congr fun a _ hahi => storeEax_frame (.inl (by omega))]
      apply storeEax_entry (by norm_num)
      intro a halo hahi
      exact hcleared a (by omega) hahi
    · rw [readWord_congr fun a _ hahi => storeEax_frame (.inl (by omega))]
      apply storeEax_entry (by norm_num)
      intro a halo hahi
      rw [storeEax_frame (.inr (by omega))]
      exact hcleared a (by omega) hahi
  · unfold upperTables pdeAddr pdpAddr pml4Addr at *
    subst hpdp
    apply storeEax_entry (by norm_num)
    intro a halo hahi
    rw [storeEax_frame (.inr (by omega)), storeEax_frame (.inr (by omega))]
    exact hcleared a (by omega) hahi
  · apply readWord_zero
    intro a halo hahi
    exact upperTables_zero (by omega) (by omega) (by omega)

/-- For any memory in front of it. -/
theorem protectStart_tables (mem : ByteMemory) : BootTables (words (protectStart mem)) := by
  rw [protectStart_eq]
  -- below the entries of a loop, its memory is the one in front of it
  have hpte : ∀ i, 8 * i + 8 ≤ 0x93000 →
      words (setEntries 2048 0x93000 7 (setEntries 4 0x92000 0x93007 (upperTables mem))) i =
        words (setEntries 4 0x92000 0x93007 (upperTables mem)) i := by
    intro i hi
    exact words_congr fun a _ hahi => setEntries_frame (.inl (by omega))
  have hpde : ∀ i, 8 * i + 8 ≤ 0x92000 ∨ 0x92020 ≤ 8 * i →
      words (setEntries 4 0x92000 0x93007 (upperTables mem)) i =
        readWord (upperTables mem) (8 * i) 8 := by
    intro i hi
    exact readWord_congr fun a halo hahi => setEntries_frame (by omega)
  constructor
  · intro i hi
    rw [hpte _ (by omega), hpde _ (by omega),
      upperTables_words mem _ (by omega) (by omega) (by omega)]
    split_ifs <;> omega
  · intro i hi
    rw [hpte _ (by omega), hpde _ (by omega),
      upperTables_words mem _ (by omega) (by omega) (by omega)]
    split_ifs <;> omega
  · intro i hi
    rw [hpte _ (by omega)]
    split_ifs with hentry
    · have haddr : 8 * (512 * 0x92 + i) = 0x92000 + 8 * i := by omega
      rw [words, haddr, setEntries_entry hentry (by norm_num)]
      · omega
      · intro a halo hahi
        exact upperTables_zero (by omega) (by omega) (by omega)
    · rw [hpde _ (by omega), upperTables_words mem _ (by omega) (by omega) (by omega)]
      split_ifs <;> omega
  · intro i hi
    have haddr : 8 * (512 * 0x93 + i) = 0x93000 + 8 * i := by omega
    rw [words, haddr, setEntries_entry hi (by norm_num)]
    · omega
    · intro a halo hahi
      rw [setEntries_frame (by omega)]
      exact upperTables_zero (by omega) (by omega) (by omega)

end Tables

/-! ## What they map -/

section Walk

variable {mem : Nat → Nat} {i pfn next attr : Nat} {rest : List Nat}

/-- The walk goes on behind an entry of a table, whatever its attributes but the size bit. -/
theorem walkFrom_next (h : mem (512 * pfn + i) = next * 4096 + attr) (hpresent : attr % 2 = 1)
    (hsize : attr < 0x80) (hnext : next < 2 ^ 28) :
    walkFrom mem (i :: rest) pfn =
      (walkFrom mem rest next).map ((next * 4096 + attr) :: ·) := by
  have hentry : Present (next * 4096 + attr) ∧ ¬ LargePage (next * 4096 + attr) ∧
      ptePfn (next * 4096 + attr) = next := by
    simp only [Present, LargePage, ptePfn, pageSize, pageShift]
    omega
  obtain ⟨hp, hl, hpfn⟩ := hentry
  simp only [walkFrom, h, hp, hl, hpfn, not_true_eq_false, false_and, if_false]

end Walk

section Mapping

variable {mem : Nat → Nat} {address : Nat}

/-- The frames that the boot tables map: the boot memory, twice. -/
def bootPhys (address : Nat) : Option Nat :=
  if address < bootingMemorySize * 0x100000 then some address
  else if pageOffset ≤ address ∧ address < pageOffset + bootingMemorySize * 0x100000 then
    some (address - pageOffset)
  else none

/-- The 512 GB behind each of the two entries of the PML4. -/
theorem BootTables.window (h : BootTables mem) {base q : Nat} (hbase : base = 0 ∨ base = pageOffset)
    (hq : q < 2 ^ 39) :
    linearToPhys mem bootCr3 (base + q) =
      if q < bootingMemorySize * 0x100000 then some q else none := by
  have hcanonical : Canonical (base + q) := by
    simp only [Canonical, pageOffset] at *
    omega
  have hindices : (pgdIndex (base + q) = 0 ∨ pgdIndex (base + q) = 0x100) ∧
      pudIndex (base + q) = q / 0x40000000 ∧ pmdIndex (base + q) = q / 0x200000 % 512 ∧
      pteIndex (base + q) = q / 4096 % 512 ∧ (base + q) % 4096 = q % 4096 := by
    simp only [pgdIndex, pudIndex, pmdIndex, pteIndex, pageOffset] at *
    omega
  obtain ⟨hpgd, hpud, hpmd, hpte, hoffset⟩ := hindices
  have hcr3 : ptePfn bootCr3 = 0x90 := by
    rfl
  have hentry4 := (h.pml4 (pgdIndex (base + q)) (by omega)).trans (if_pos hpgd)
  rw [linearToPhys, if_pos hcanonical, hcr3, hpud, hpmd, hpte,
    walkFrom_next hentry4 (by norm_num) (by norm_num) (by norm_num)]
  by_cases hgiga : q / 0x40000000 = 0
  · have hentry3 := (h.pdp 0 (by norm_num)).trans (if_pos rfl)
    rw [hgiga, walkFrom_next hentry3 (by norm_num) (by norm_num) (by norm_num)]
    by_cases hmega : q / 0x200000 % 512 < 4
    · have hentry2 := (h.pde _ (by omega)).trans (if_pos hmega)
      have hindex : 512 * (0x93 + q / 0x200000 % 512) + q / 4096 % 512 = 512 * 0x93 + q / 4096 := by
        omega
      have hentry1 : mem (512 * (0x93 + q / 0x200000 % 512) + q / 4096 % 512) =
          q / 4096 * 4096 + 7 := by
        rw [hindex]
        exact h.pte _ (by omega)
      have hleaf : ptePfn (q / 4096 * 4096 + 7) = q / 4096 := by
        simp only [ptePfn, pageSize, pageShift]
        omega
      have hin : q < bootingMemorySize * 0x100000 := by
        simp only [bootingMemorySize]
        omega
      rw [walkFrom_next hentry2 (by norm_num) (by norm_num) (by omega),
        walkFrom_next hentry1 (by norm_num) (by norm_num) (by omega), if_pos hin]
      simp only [walkFrom, Option.map_some, hleaf, pageSize, pageShift, Option.some_inj]
      omega
    · have hout : ¬ q < bootingMemorySize * 0x100000 := by
        simp only [bootingMemorySize]
        omega
      rw [walkFrom_absent ((h.pde _ (by omega)).trans (if_neg hmega)), if_neg hout]
      rfl
  · have hout : ¬ q < bootingMemorySize * 0x100000 := by
      simp only [bootingMemorySize]
      omega
    rw [walkFrom_absent ((h.pdp _ (by omega)).trans (if_neg hgiga)), if_neg hout]
    rfl

/-- The boot tables map the boot memory at zero and at `PAGE_OFFSET`, and nothing else. -/
theorem BootTables.phys (h : BootTables mem) (address : Nat) :
    linearToPhys mem bootCr3 address = bootPhys address := by
  simp only [bootPhys]
  by_cases hlow : address < 2 ^ 39
  · have hwindow := h.window (.inl rfl) hlow
    have hhigh : ¬ (pageOffset ≤ address ∧
        address < pageOffset + bootingMemorySize * 0x100000) := by
      simp only [pageOffset]
      omega
    rw [Nat.zero_add] at hwindow
    rw [hwindow, if_neg hhigh]
  · have hnot : ¬ address < bootingMemorySize * 0x100000 := by
      simp only [bootingMemorySize]
      omega
    rw [if_neg hnot]
    by_cases hhigh : pageOffset ≤ address ∧ address < pageOffset + 2 ^ 39
    · obtain ⟨q, rfl⟩ := Nat.exists_eq_add_of_le hhigh.1
      rw [h.window (.inr rfl) (by omega), Nat.add_sub_cancel_left]
      split_ifs <;> first | rfl | omega
    · have hout : ¬ (pageOffset ≤ address ∧
          address < pageOffset + bootingMemorySize * 0x100000) := by
        rintro ⟨hge, hlt⟩
        have hsize : bootingMemorySize * 0x100000 ≤ 2 ^ 39 := by
          simp [bootingMemorySize]
        exact hhigh ⟨hge, hlt.trans_le (Nat.add_le_add_left hsize _)⟩
      rw [if_neg hout, linearToPhys]
      split_ifs with hcanonical
      · have hpgd : ¬ (pgdIndex address = 0 ∨ pgdIndex address = 0x100) := by
          simp only [Canonical, pgdIndex, pageOffset] at *
          omega
        have hcr3 : ptePfn bootCr3 = 0x90 := by
          rfl
        have hlt : pgdIndex address < 512 := Nat.mod_lt _ (by norm_num)
        rw [hcr3, walkFrom_absent ((h.pml4 _ hlt).trans (if_neg hpgd))]
      · rfl

/-- Whatever the memory held. -/
theorem bootTables_map_exactly (mem : ByteMemory) (address : Nat) :
    linearToPhys (words (protectStart mem)) bootCr3 address = bootPhys address :=
  (protectStart_tables mem).phys address

end Mapping

end Caos
