import Caos.Boot.Paging

/-!
The contents of the tables when `paging_init` returns. `first` is the frame of the
PGD; the other tables follow it, `phy_mem_size / 2` page tables among them.
-/

namespace Caos

open Lib

/-- Every entry was set inside the pages of its own table. -/
def StoresInside (s : Paging) : Prop :=
  ∀ store ∈ s.stores, 8 * store.2 + 8 ≤ store.1.pages * pageSize

/-- The boot memory that is not yet allocated is zero. -/
def ZeroFilled (s : Paging) : Prop :=
  ∀ w, 512 * s.bootmem.index ≤ w → w < 512 * s.bootmem.max → s.mem w = 0

section

variable {table : Table} {s : Paging} {f : Nat → Nat} {l entry first last n w : Nat}

@[simp] theorem setEntry_bootmem : (setEntry table l entry s).bootmem = s.bootmem := rfl

theorem setEntry_mem :
    (setEntry table l entry s).mem w = if w = table.word + l then entry else s.mem w := by
  simp only [setEntry, modifyAt, Function.update_apply]

theorem setEntry_inside : StoresInside (setEntry table l entry s) ↔
    8 * l + 8 ≤ table.pages * pageSize ∧ StoresInside s := by
  simp only [StoresInside, setEntry, List.forall_mem_cons]

@[simp] theorem forRange_setEntry_bootmem :
    (forRange (fun l => setEntry table l (f l)) first last s).bootmem = s.bootmem := by
  unfold forRange
  induction last - first with
  | zero => rfl
  | succ n ih => exact ih

theorem forRange_setEntry_mem :
    (forRange (fun l => setEntry table l (f l)) first last s).mem w =
      if table.word + first ≤ w ∧ w < table.word + last then f (w - table.word) else s.mem w := by
  have hmem : (forRange (fun l => setEntry table l (f l)) first last s).mem =
      forRange (fun l m => modifyAt m (table.word + l) (fun _ => f l)) first last s.mem := by
    unfold forRange
    induction last - first with
    | zero => rfl
    | succ n ih =>
        simp only [forUpTo]
        rw [← ih]
        rfl
  rw [hmem, forRange_modifyAt table.word (fun l _ => f l)]

theorem forRange_setEntry_inside :
    StoresInside (forRange (fun l => setEntry table l (f l)) first last s) ↔
      (∀ l, first ≤ l → l < last → 8 * l + 8 ≤ table.pages * pageSize) ∧ StoresInside s := by
  have hloop : ∀ n,
      StoresInside (forUpTo (fun i => setEntry table (first + i) (f (first + i))) n s) ↔
        (∀ i, i < n → 8 * (first + i) + 8 ≤ table.pages * pageSize) ∧ StoresInside s := by
    intro n
    induction n with
    | zero => simp [forUpTo]
    | succ n ih =>
        simp only [forUpTo]
        rw [setEntry_inside, ih, ← and_assoc, Nat.forall_lt_succ_right, and_comm (a := _ ≤ _)]
  unfold forRange
  rw [hloop]
  apply and_congr_left'
  constructor
  · intro h l hfirst hlast
    have hl := h (l - first) (by omega)
    rwa [Nat.add_sub_cancel' hfirst] at hl
  · intro h i hi
    exact h (first + i) (by omega) (by omega)

/-- The state after the allocation of `count` more pages. -/
def Paging.advance (count : Nat) (s : Paging) : Paging :=
  { s with bootmem := { s.bootmem with index := s.bootmem.index + count } }

@[simp] theorem advance_index (count : Nat) (s : Paging) :
    (s.advance count).bootmem.index = s.bootmem.index + count := rfl

@[simp] theorem advance_max (count : Nat) (s : Paging) :
    (s.advance count).bootmem.max = s.bootmem.max := rfl

theorem advance_advance (count more : Nat) (s : Paging) :
    (s.advance count).advance more = s.advance (count + more) := by
  simp only [Paging.advance, Nat.add_assoc]

@[simp] theorem advance_mem (count : Nat) (s : Paging) : (s.advance count).mem = s.mem := rfl

@[simp] theorem advance_inside {count : Nat} {s : Paging} :
    StoresInside (s.advance count) ↔ StoresInside s := Iff.rfl

theorem allocTable_of_lt {count : Nat} (h : s.bootmem.index + count < s.bootmem.max)
    (hmax : s.bootmem.max ≤ 2 ^ 64) :
    allocTable count s = some (⟨frameAddr s.bootmem.index, count⟩, s.advance count) := by
  simp only [allocTable, allocBootmem_of_lt h hmax]
  rfl

@[simp] theorem Table.word_frameAddr (pfn pages : Nat) :
    Table.word ⟨frameAddr pfn, pages⟩ = 512 * pfn := by
  simp only [Table.word, frameAddr, pa_va, pageSize, pageShift]
  omega

@[simp] theorem pa_frameAddr (pfn : Nat) : pa (frameAddr pfn) = pfn * 4096 := by
  simp only [frameAddr, pa_va, pageSize, pageShift]
  rfl

theorem setPgd_eq : setPgd = setEntry := rfl

theorem setPud_eq : setPud = setEntry := rfl

theorem setPmd_eq : setPmd = setEntry := rfl

theorem setPte_eq : setPte = setEntry := rfl

@[simp] theorem fillKernelTables_bootmem {phyMemSize pmdCount pteCount : Nat}
    {pgd pud pmd pte : Table} :
    (fillKernelTables phyMemSize pmdCount pteCount pgd pud pmd pte s).bootmem = s.bootmem := by
  rw [fillKernelTables, setPgd_eq, setPud_eq, setPmd_eq, setPte_eq, forRange_setEntry_bootmem,
    forRange_setEntry_bootmem, forRange_setEntry_bootmem, forRange_setEntry_bootmem,
    setEntry_bootmem, forRange_setEntry_bootmem]

@[simp] theorem fillReservTables_bootmem {pud pmdReserv pteReserv : Table} :
    (fillReservTables pud pmdReserv pteReserv s).bootmem = s.bootmem := by
  rw [fillReservTables, setPud_eq, setPmd_eq, setPte_eq, forRange_setEntry_bootmem,
    forRange_setEntry_bootmem, setEntry_bootmem]

end

/-- The state in which `paging_init` returns. -/
def pagingDone (phyMemSize : Nat) (s : Paging) : Paging :=
  let first := s.bootmem.index
  let ptes := phyMemSize / 2
  let pud : Table := ⟨frameAddr (first + 1), 1⟩
  let kernel := fillKernelTables phyMemSize 1 ptes ⟨frameAddr first, 1⟩ pud
    ⟨frameAddr (first + 2), 1⟩ ⟨frameAddr (first + 3), ptes⟩ (s.advance (3 + ptes))
  fillReservTables pud ⟨frameAddr (first + 3 + ptes), 1⟩ ⟨frameAddr (first + 4 + ptes), 10⟩
    (kernel.advance 11)

theorem pagingDone_bootmem (phyMemSize : Nat) (s : Paging) :
    (pagingDone phyMemSize s).bootmem =
      { s.bootmem with index := s.bootmem.index + (14 + phyMemSize / 2) } := by
  have hindex : s.bootmem.index + (3 + phyMemSize / 2) + 11 =
      s.bootmem.index + (14 + phyMemSize / 2) := by omega
  rw [pagingDone, fillReservTables_bootmem, Paging.advance, fillKernelTables_bootmem,
    Paging.advance]
  simp only [hindex]

/-- With enough boot memory `paging_init` returns. -/
theorem pagingInit_eq {phyMemSize : Nat} {s : Paging} (hlo : 2 ≤ phyMemSize)
    (hhi : phyMemSize < 2048) (hmax : s.bootmem.max ≤ 2 ^ 64)
    (hfit : s.bootmem.index + 14 + phyMemSize / 2 < s.bootmem.max) :
    pagingInit phyMemSize s = some (frameAddr s.bootmem.index, pagingDone phyMemSize s) := by
  have hpmd : (if phyMemSize / 1024 = 0 then 1 else phyMemSize / 1024) = 1 := by
    split_ifs <;> omega
  have hpte : phyMemSize / 2 ≠ 0 := by omega
  unfold pagingInit
  simp only [hpmd, if_neg hpte]
  have hstep : ∀ {count : Nat} {t : Paging}, t.bootmem.index + count < s.bootmem.max →
      t.bootmem.max = s.bootmem.max →
      allocTable count t = some (⟨frameAddr t.bootmem.index, count⟩, t.advance count) := by
    intro count t ht hsame
    exact allocTable_of_lt (hsame ▸ ht) (hsame ▸ hmax)
  rw [hstep (by omega) (by rfl)]
  dsimp only [Option.bind_eq_bind, Option.bind_some, pure]
  rw [hstep (by simp only [advance_index]; omega) (by rfl)]
  dsimp only [Option.bind_eq_bind, Option.bind_some]
  rw [hstep (by simp only [advance_index]; omega) (by rfl)]
  dsimp only [Option.bind_eq_bind, Option.bind_some]
  rw [hstep (by simp only [advance_index]; omega) (by rfl)]
  dsimp only [Option.bind_eq_bind, Option.bind_some]
  rw [hstep (by simp only [fillKernelTables_bootmem, advance_index]; omega)
    (by simp only [fillKernelTables_bootmem, advance_max])]
  dsimp only [Option.bind_eq_bind, Option.bind_some]
  rw [hstep (by simp only [fillKernelTables_bootmem, advance_index]; omega)
    (by simp only [fillKernelTables_bootmem, advance_max])]
  dsimp only [Option.bind_eq_bind, Option.bind_some]
  simp only [fillKernelTables_bootmem, advance_index, advance_advance, Nat.reduceAdd]
  have hpmdReserv : s.bootmem.index + (3 + phyMemSize / 2) =
      s.bootmem.index + 3 + phyMemSize / 2 := by omega
  have hpteReserv : s.bootmem.index + 3 + phyMemSize / 2 + 1 =
      s.bootmem.index + 4 + phyMemSize / 2 := by omega
  rw [pagingDone, hpmdReserv, hpteReserv]

/-- The words of all tables, the last store first. -/
theorem pagingDone_mem (phyMemSize : Nat) (s : Paging) (w : Nat) :
    let first := s.bootmem.index
    let ptes := phyMemSize / 2
    (pagingDone phyMemSize s).mem w =
      if 512 * (first + 4 + ptes) ≤ w ∧ w < 512 * (first + 4 + ptes) + 5120 then
        0xFEC00000 + (w - 512 * (first + 4 + ptes)) * 4096 + 0x11
      else if 512 * (first + 3 + ptes) ≤ w ∧ w < 512 * (first + 3 + ptes) + 10 then
        (first + 4 + ptes) * 4096 + (w - 512 * (first + 3 + ptes)) * 4096 + 0x11
      else if w = 512 * (first + 1) + 3 then (first + 3 + ptes) * 4096 + 0x11
      else if 512 * (first + 3) ≤ w ∧ w < 512 * (first + 3) + phyMemSize * 256 then
        (w - 512 * (first + 3)) * 4096 + 3
      else if 512 * (first + 2) ≤ w ∧ w < 512 * (first + 2) + ptes then
        (first + 3) * 4096 + (w - 512 * (first + 2)) * 4096 + 3
      else if w = 512 * (first + 1) then (first + 2) * 4096 + 3
      else if 512 * first + 0x101 ≤ w ∧ w < 512 * first + 0x200 then 0
      else if w = 512 * first + 0x100 then (first + 1) * 4096 + 3
      else if 512 * first ≤ w ∧ w < 512 * first + 0x100 then 0
      else s.mem w := by
  dsimp only
  rw [pagingDone, fillReservTables, fillKernelTables, setPgd_eq, setPud_eq, setPmd_eq, setPte_eq,
    forRange_setEntry_mem, forRange_setEntry_mem, setEntry_mem, advance_mem,
    forRange_setEntry_mem, forRange_setEntry_mem, forRange_single, setEntry_mem,
    forRange_setEntry_mem, setEntry_mem, forRange_setEntry_mem, advance_mem]
  simp only [Table.word_frameAddr, pa_frameAddr, pageRw, pagePresent, pagePcd, pageSize, pageShift,
    Nat.add_zero, Nat.zero_mul, Nat.mul_zero, Nat.reduceAdd, Nat.reducePow, Nat.reduceMul]

/-- The tables `paging_init` leaves, each from its frame on. -/
structure TablesAt (phyMemSize first ptes : Nat) (mem : Nat → Nat) : Prop where
  pgd : ∀ i < 512, mem (512 * first + i) = if i = 0x100 then (first + 1) * 4096 + 3 else 0
  pud : ∀ i < 512, mem (512 * (first + 1) + i) =
    if i = 0 then (first + 2) * 4096 + 3
    else if i = 3 then (first + 3 + ptes) * 4096 + 0x11
    else 0
  pmd : ∀ i < 512, mem (512 * (first + 2) + i) =
    if i < ptes then (first + 3 + i) * 4096 + 3 else 0
  pte : ∀ k < ptes, ∀ i < 512, mem (512 * (first + 3 + k) + i) = (512 * k + i) * 4096 + 3
  pmdReserv : ∀ i < 512, mem (512 * (first + 3 + ptes) + i) =
    if i < 10 then (first + 4 + ptes + i) * 4096 + 0x11
    -- the page table entries for which there is no page table
    else if 512 * ptes + i < 256 * phyMemSize then (512 * ptes + i) * 4096 + 3
    else 0
  pteReserv : ∀ k < 10, ∀ i < 512, mem (512 * (first + 4 + ptes + k) + i) =
    0xFEC00000 + (512 * k + i) * 4096 + 0x11

theorem pagingDone_tables {phyMemSize : Nat} {s : Paging} (hlo : 2 ≤ phyMemSize)
    (hhi : phyMemSize < 1024) (hfit : s.bootmem.index + 14 + phyMemSize / 2 < s.bootmem.max)
    (hzero : ZeroFilled s) :
    TablesAt phyMemSize s.bootmem.index (phyMemSize / 2) (pagingDone phyMemSize s).mem := by
  have hmem := pagingDone_mem phyMemSize s
  have hfree : ∀ w, 512 * s.bootmem.index ≤ w →
      w < 512 * (s.bootmem.index + 14 + phyMemSize / 2) → s.mem w = 0 :=
    fun w hlo hhi => hzero w hlo (by omega)
  have hsize : phyMemSize = 2 * (phyMemSize / 2) ∨ phyMemSize = 2 * (phyMemSize / 2) + 1 := by
    omega
  dsimp only at hmem
  generalize s.bootmem.index = first at *
  generalize phyMemSize / 2 = ptes at *
  constructor
  · intro i hi
    rw [hmem, if_neg (by omega), if_neg (by omega), if_neg (by omega), if_neg (by omega),
      if_neg (by omega), if_neg (by omega)]
    split_ifs <;> omega
  · intro i hi
    rw [hmem, if_neg (by omega), if_neg (by omega)]
    by_cases hdevice : i = 3
    · rw [if_pos (by omega), if_neg (by omega), if_pos hdevice]
    rw [if_neg (by omega), if_neg (by omega), if_neg (by omega), if_neg hdevice]
    by_cases hkernel : i = 0
    · rw [if_pos (by omega), if_pos hkernel]
    · rw [if_neg (by omega), if_neg (by omega), if_neg (by omega), if_neg (by omega),
        if_neg hkernel]
      exact hfree _ (by omega) (by omega)
  · intro i hi
    rw [hmem, if_neg (by omega), if_neg (by omega), if_neg (by omega), if_neg (by omega)]
    by_cases hkernel : i < ptes
    · rw [if_pos (by omega), if_pos hkernel]
      omega
    · rw [if_neg (by omega), if_neg (by omega), if_neg (by omega), if_neg (by omega),
        if_neg (by omega), if_neg hkernel]
      exact hfree _ (by omega) (by omega)
  · intro k hk i hi
    rw [hmem, if_neg (by omega), if_neg (by omega), if_neg (by omega), if_pos (by omega)]
    omega
  · intro i hi
    rw [hmem, if_neg (by omega)]
    by_cases hdevice : i < 10
    · rw [if_pos (by omega), if_pos hdevice]
      omega
    rw [if_neg (by omega), if_neg (by omega), if_neg hdevice]
    by_cases hspill : 512 * ptes + i < 256 * phyMemSize
    · rw [if_pos (by omega), if_pos hspill]
      omega
    · rw [if_neg (by omega), if_neg (by omega), if_neg (by omega), if_neg (by omega),
        if_neg (by omega), if_neg (by omega), if_neg hspill]
      exact hfree _ (by omega) (by omega)
  · intro k hk i hi
    rw [hmem, if_pos (by omega)]
    omega

/-- The page tables hold `512 * (phy_mem_size / 2)` entries, and `256 * phy_mem_size`
are set. -/
theorem pagingDone_inside_iff {phyMemSize : Nat} {s : Paging} (hhi : phyMemSize < 1024)
    (hs : StoresInside s) : StoresInside (pagingDone phyMemSize s) ↔ phyMemSize % 2 = 0 := by
  rw [pagingDone, fillReservTables, fillKernelTables, setPgd_eq, setPud_eq, setPmd_eq, setPte_eq,
    forRange_setEntry_inside, forRange_setEntry_inside, setEntry_inside, advance_inside,
    forRange_setEntry_inside, forRange_setEntry_inside, forRange_single, setEntry_inside,
    forRange_setEntry_inside, setEntry_inside, forRange_setEntry_inside, advance_inside]
  simp only [pageSize, pageShift]
  constructor
  · rintro ⟨-, -, -, hpte, -⟩
    by_contra hodd
    have hlast := hpte (phyMemSize * 256 - 1) (by omega) (by omega)
    omega
  · intro heven
    refine ⟨?_, ?_, by norm_num, ?_, ?_, by norm_num, ?_, by norm_num, ?_, hs⟩
    all_goals
      intro l _ hl
      omega

end Caos
