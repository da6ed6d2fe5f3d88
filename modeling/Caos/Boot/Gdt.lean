import Caos.Boot.BootChain
import Caos.Boot.Descriptors
import Caos.Copy

/-!
`gdt_init` on the memory that `setup.asm` leaves. The boot GDT has no end of its own: the page
in front of it is not cleared, so that the copy goes on to the first quadword behind it that
happens to be zero. Addresses are physical; below 8 MB the boot tables map the boot GDT to
itself and the pages of `alloc_bootmem` to what `__pa` computes.
-/

namespace Caos

open Lib

/-! ## `string.c` -/

/-- `caos_memset`. -/
def caosMemset (dst : Nat) (c : UInt8) : (len : Nat) → ByteMemory → ByteMemory
  | 0, mem => mem
  | len + 1, mem => caosMemset (dst + 1) c len (Function.update mem dst c)

theorem caosMemset_apply {dst len a : Nat} {c : UInt8} {mem : ByteMemory} :
    caosMemset dst c len mem a = if dst ≤ a ∧ a < dst + len then c else mem a := by
  induction len generalizing dst mem with
  | zero =>
      rw [caosMemset, if_neg]
      omega
  | succ len ih =>
      rw [caosMemset, ih]
      rcases Nat.lt_trichotomy a dst with hlt | rfl | hgt
      · rw [if_neg (by omega), if_neg (by omega), Function.update_of_ne hlt.ne]
      · rw [if_neg (by omega), if_pos (by omega), Function.update_self]
      · have hiff : dst + 1 ≤ a ∧ a < dst + 1 + len ↔ dst ≤ a ∧ a < dst + (len + 1) := by omega
        simp only [hiff, Function.update_of_ne hgt.ne']

/-! ## `gdt.c` -/

/-- `gdt_table` in memory. -/
def gdtTableAt (mem : ByteMemory) (gdtTable : Nat) : GdtTable := fun i =>
  { l := .ofNat 32 (readWord mem (gdtTable + 8 * i) 4)
    h := .ofNat 32 (readWord mem (gdtTable + 8 * i + 4) 4) }

/-- `while (boot_gdt[i] != 0)`, with the index that it ends at. -/
def copyBootGdt (bootGdtAddr gdtTable : Nat) :
    (fuel i : Nat) → ByteMemory → Option (Nat × ByteMemory)
  | 0, _, _ => none
  | fuel + 1, i, mem =>
    if readWord mem (bootGdtAddr + 8 * i) 8 ≠ 0 then
      copyBootGdt bootGdtAddr gdtTable fuel (i + 1)
        (caosMemcpy (gdtTable + 8 * i) (bootGdtAddr + 8 * i) 8 mem)
    else some (i, mem)

/-- A store of a descriptor's word. -/
def storeDword (addr : Nat) (w : BitVec 32) (mem : ByteMemory) : ByteMemory :=
  storeBytes mem addr (leBytes 4 w.toNat)

/-- The stores of `set_tss`, with the address that `alloc_bootmem` returns. -/
def storeTss (gdtTable num address : Nat) (mem : ByteMemory) : ByteMemory :=
  let table := setTss num (.ofNat 64 address) (gdtTableAt mem gdtTable)
  let mem := storeDword (gdtTable + 8 * num) (table num).l mem
  let mem := storeDword (gdtTable + 8 * num + 4) (table num).h mem
  let mem := storeDword (gdtTable + 8 * (num + 1)) (table (num + 1)).l mem
  caosMemset (pa address) 0 pageSize mem

/-- `gdt_init`. -/
def gdtInitTable (bootGdtAddr fuel : Nat) (b : Bootmem) (mem : ByteMemory) :
    Option (Bootmem × ByteMemory) := do
  let (gdtTable, b) ← allocBootmem 1 b
  let (_, mem) ← copyBootGdt bootGdtAddr (pa gdtTable) fuel 1 mem
  let (address, b) ← allocBootmem 1 b
  return (b, storeTss (pa gdtTable) 5 address mem)

section Copy

variable {bootGdtAddr gdtTable fuel i n a k : Nat} {mem : ByteMemory}

/-- The loop copies up to the first zero, if it writes behind all that it reads. -/
theorem copyBootGdt_eq (hi : i ≤ n) (hfuel : n - i < fuel)
    (happart : bootGdtAddr + 8 * n + 8 ≤ gdtTable)
    (hdesc : ∀ j, i ≤ j → j < n → readWord mem (bootGdtAddr + 8 * j) 8 ≠ 0)
    (hend : readWord mem (bootGdtAddr + 8 * n) 8 = 0) :
    ∃ mem', copyBootGdt bootGdtAddr gdtTable fuel i mem = some (n, mem') ∧
      ∀ a, mem' a = if gdtTable + 8 * i ≤ a ∧ a < gdtTable + 8 * n then
        mem (bootGdtAddr + (a - gdtTable)) else mem a := by
  induction fuel generalizing i mem with
  | zero => omega
  | succ fuel ih =>
      rcases Nat.eq_or_lt_of_le hi with rfl | hlt
      · refine ⟨mem, ?_, fun a => ?_⟩
        · simp only [copyBootGdt, hend, ne_eq, not_true_eq_false, if_false]
        · rw [if_neg (by omega)]
      · have hcopy : ∀ a, caosMemcpy (gdtTable + 8 * i) (bootGdtAddr + 8 * i) 8 mem a =
            if gdtTable + 8 * i ≤ a ∧ a < gdtTable + 8 * i + 8 then
              mem (bootGdtAddr + 8 * i + (a - (gdtTable + 8 * i))) else mem a :=
          fun a => caosMemcpy_apply (by omega)
        have hword : ∀ j, j ≤ n →
            readWord (caosMemcpy (gdtTable + 8 * i) (bootGdtAddr + 8 * i) 8 mem)
              (bootGdtAddr + 8 * j) 8 = readWord mem (bootGdtAddr + 8 * j) 8 := by
          intro j hj
          apply readWord_congr
          intro a halo hahi
          rw [hcopy, if_neg (by omega)]
        obtain ⟨mem', hrun, hmem'⟩ := @ih (i + 1)
          (caosMemcpy (gdtTable + 8 * i) (bootGdtAddr + 8 * i) 8 mem) hlt (by omega)
          (fun j hlo hhi => by
            rw [hword j (by omega)]
            exact hdesc j (by omega) hhi)
          (by rw [hword n (by omega)]; exact hend)
        refine ⟨mem', ?_, fun a => ?_⟩
        · simp only [copyBootGdt, hdesc i (by omega) hlt, ne_eq, not_false_eq_true, if_true, hrun]
        · rw [hmem']
          by_cases hlater : gdtTable + 8 * (i + 1) ≤ a ∧ a < gdtTable + 8 * n
          · rw [if_pos hlater, if_pos (by omega), hcopy, if_neg (by omega)]
          · rw [if_neg hlater, hcopy]
            by_cases hfirst : gdtTable + 8 * i ≤ a ∧ a < gdtTable + 8 * i + 8
            · have haddr : bootGdtAddr + 8 * i + (a - (gdtTable + 8 * i)) =
                  bootGdtAddr + (a - gdtTable) := by omega
              rw [if_pos hfirst, if_pos (by omega), haddr]
            · rw [if_neg hfirst, if_neg (by omega)]

theorem storeDword_frame {w : BitVec 32} {addr : Nat} (h : a < addr ∨ addr + 4 ≤ a) :
    storeDword addr w mem a = mem a := by
  rw [storeDword, storeBytes_of_outside]
  rw [leBytes_length]
  omega

theorem readWord_storeDword {w : BitVec 32} {addr : Nat} :
    BitVec.ofNat 32 (readWord (storeDword addr w mem) addr 4) = w := by
  rw [storeDword, readWord_storeBytes (lt_of_lt_of_eq w.isLt (by norm_num))]
  exact (BitVec.ofNat_toNat 32 w).trans (BitVec.setWidth_eq w)

/-- A word is not reached by the later stores of `set_tss`. -/
theorem storeDword_word {w : BitVec 32} {addr addr' : Nat}
    (h : addr' + 4 ≤ addr ∨ addr + 4 ≤ addr') :
    readWord (storeDword addr w mem) addr' 4 = readWord mem addr' 4 :=
  readWord_congr fun _ _ _ => storeDword_frame (by omega)

theorem caosMemset_word {dst len : Nat} {c : UInt8} (h : a + 4 ≤ dst) :
    readWord (caosMemset dst c len mem) a 4 = readWord mem a 4 := by
  apply readWord_congr
  intro b hlo hhi
  rw [caosMemset_apply, if_neg (by omega)]

/-- In memory as in the table: `set_tss` changes two slots, and clears the page of the TSS. -/
theorem gdtTableAt_storeTss {address num : Nat} (hk : gdtTable + 8 * k + 8 ≤ pa address) :
    gdtTableAt (storeTss gdtTable num address mem) gdtTable k =
      setTss num (.ofNat 64 address) (gdtTableAt mem gdtTable) k := by
  have hsucc : gdtTable + 8 * (num + 1) = gdtTable + 8 * num + 8 := by omega
  unfold storeTss
  dsimp only
  rw [hsucc]
  rw [gdtTableAt, caosMemset_word (by omega), caosMemset_word (by omega)]
  rcases eq_or_ne k num with rfl | hne
  · rw [storeDword_word (by omega), storeDword_word (by omega), readWord_storeDword,
      storeDword_word (by omega), readWord_storeDword]
  · rcases eq_or_ne k (num + 1) with rfl | hne'
    · rw [hsucc, readWord_storeDword, storeDword_word (by omega), storeDword_word (by omega),
        storeDword_word (by omega)]
      -- the upper half of the second slot keeps what was copied there
      have hupper : (setTss num (.ofNat 64 address) (gdtTableAt mem gdtTable) (num + 1)).h =
          (gdtTableAt mem gdtTable (num + 1)).h := by
        rw [setTss, Function.update_self, setGdtDesc_of_ne (Nat.succ_ne_self num)]
      rw [← hsucc]
      exact GdtDesc.mk.injEq _ _ _ _ |>.mpr ⟨rfl, hupper.symm⟩
    · rw [storeDword_word (by omega), storeDword_word (by omega), storeDword_word (by omega),
        storeDword_word (by omega), storeDword_word (by omega), storeDword_word (by omega),
        setTss_of_ne hne hne']
      rfl

/-- The two words of a quadword. -/
def quadDesc (w : Nat) : GdtDesc := { l := .ofNat 32 w, h := .ofNat 32 (w / 2 ^ 32) }

theorem gdtTableAt_eq :
    gdtTableAt mem gdtTable k = quadDesc (readWord mem (gdtTable + 8 * k) 8) := by
  have hlow : readWord mem (gdtTable + 8 * k) 4 < 256 ^ 4 := readWord_lt
  have hquad := @readWord_add mem (gdtTable + 8 * k) 4 4
  simp only [Nat.reduceAdd, Nat.reducePow] at hlow hquad
  rw [gdtTableAt, hquad, quadDesc, GdtDesc.mk.injEq]
  generalize readWord mem (gdtTable + 8 * k) 4 = low at hlow
  generalize readWord mem (gdtTable + 8 * k + 4) 4 = high
  constructor
  · apply BitVec.eq_of_toNat_eq
    simp only [BitVec.toNat_ofNat]
    omega
  · have hdiv : (low + 4294967296 * high) / 2 ^ 32 = high := by omega
    rw [hdiv]

theorem quadDesc_eq_zero {w : Nat} (hw : w < 2 ^ 64) : quadDesc w = quadDesc 0 ↔ w = 0 := by
  refine ⟨fun h => ?_, fun h => by rw [h]⟩
  obtain ⟨hl, hh⟩ := GdtDesc.mk.injEq _ _ _ _ |>.mp h
  have hl' := congrArg BitVec.toNat hl
  have hh' := congrArg BitVec.toNat hh
  simp only [BitVec.toNat_ofNat] at hl' hh'
  omega

end Copy

/-! ## The table of the kernel -/

/-- The index of the first quadword behind the boot GDT that is zero. -/
structure BootGdtEnd (mem : ByteMemory) (n : Nat) : Prop where
  behind : 5 ≤ n
  zero : readWord mem (gdtAddr + 8 * n) 8 = 0
  first : ∀ j, 5 ≤ j → j < n → readWord mem (gdtAddr + 8 * j) 8 ≠ 0

/-- The processor loads the task register from this slot: it is an available 64-bit TSS, and the
type field of the upper half is zero. -/
def TssLoads (table : GdtTable) (num : Nat) : Prop :=
  (table num).segment.type.extractLsb' 0 8 = 0x89 ∧ (table (num + 1)).h.extractLsb' 8 5 = 0

/-- The slots as `gdt_init` lists them: none behind the TSS, whose upper half holds the upper
half of its address alone. -/
def SlotsAsListed (table : GdtTable) : Prop :=
  (table 6).h = 0 ∧ ∀ k, 7 ≤ k → k < 512 → table k = quadDesc 0

section Table

variable {mem : ByteMemory} {n fuel : Nat}

/-- What the loop copies, slot by slot. -/
def copiedGdt (mem : ByteMemory) (n : Nat) : GdtTable := fun k =>
  if 1 ≤ k ∧ k < n then quadDesc (readWord mem (gdtAddr + 8 * k) 8) else quadDesc 0

theorem bootGdt_desc (hgdt : StoredAt mem gdtAddr (quads bootGdt)) {k w : Nat}
    (hk : bootGdt[k]? = some w) : readWord mem (gdtAddr + 8 * k) 8 = w := by
  have hlt : ∀ w ∈ bootGdt, w < 2 ^ 64 := by decide
  exact readWord_quads hgdt hk (hlt w (List.mem_of_getElem? hk))

/-- A slot depends on the same slot of the table before. -/
theorem setTss_congr {num k : Nat} {address : BitVec 64} {table table' : GdtTable}
    (h : table k = table' k) : setTss num address table k = setTss num address table' k := by
  unfold setTss setGdtDesc
  simp only [Function.update_apply]
  split_ifs with hnext hsame hnum
  · rfl
  · rw [← hnext, h]
  · rfl
  · exact h

theorem gdtInitTable_eq (hgdt : StoredAt mem gdtAddr (quads bootGdt))
    (hpage : ∀ a, 0x200000 ≤ a → a < 0x201000 → mem a = 0) (hend : BootGdtEnd mem n)
    (hn : n < 0x3F000) (hfuel : n ≤ fuel) :
    ∃ mem', gdtInitTable gdtAddr fuel bootmemInit mem =
        some ({ start := 0x200, index := 0x202, max := 0x7FF }, mem') ∧
      ∀ k < 512, gdtTableAt mem' 0x200000 k =
        setTss 5 (.ofNat 64 (frameAddr 0x201)) (copiedGdt mem n) k := by
  have hbehind := hend.behind
  have hgdtAddr : gdtAddr = 0x8000 := rfl
  have htable : allocBootmem 1 bootmemInit =
      some (frameAddr 0x200, { start := 0x200, index := 0x201, max := 0x7FF }) := by decide
  have htss : allocBootmem 1 { start := 0x200, index := 0x201, max := 0x7FF } =
      some (frameAddr 0x201, { start := 0x200, index := 0x202, max := 0x7FF }) := by decide
  have hpaTable : pa (frameAddr 0x200) = 0x200000 := rfl
  have hpaTss : pa (frameAddr 0x201) = 0x201000 := rfl
  have hdesc : ∀ j, 1 ≤ j → j < n → readWord mem (gdtAddr + 8 * j) 8 ≠ 0 := by
    intro j hlo hhi
    rcases Nat.lt_or_ge j 5 with hlt | hge
    · have hboot : ∀ j < 5, 1 ≤ j → ∃ w, bootGdt[j]? = some w ∧ w ≠ 0 := by decide
      obtain ⟨w, hw, hne⟩ := hboot j hlt hlo
      rw [bootGdt_desc hgdt hw]
      exact hne
    · exact hend.first j hge hhi
  obtain ⟨mem', hrun, hmem'⟩ := @copyBootGdt_eq gdtAddr 0x200000 fuel 1 n mem (by omega)
    (by omega) (by omega) hdesc hend.zero
  refine ⟨storeTss 0x200000 5 (frameAddr 0x201) mem', ?_, fun k hk => ?_⟩
  · simp only [gdtInitTable, htable, Option.bind_eq_bind, Option.bind_some, hpaTable, hrun, htss]
    rfl
  · rw [gdtTableAt_storeTss (by rw [hpaTss]; omega)]
    apply setTss_congr
    rw [gdtTableAt_eq, copiedGdt]
    split
    · next hcopied =>
        apply congrArg quadDesc
        apply readWord_moved
        intro i hi
        have haddr : gdtAddr + (0x200000 + 8 * k + i - 0x200000) = gdtAddr + 8 * k + i := by omega
        rw [hmem', if_pos (by omega), haddr]
    · next hrest =>
        apply congrArg quadDesc
        apply readWord_zero
        intro a hlo hhi
        rw [hmem', if_neg (by omega)]
        exact hpage a (by omega) (by omega)

/-- The descriptor that `ltr` reads is that of the TSS, but for what its upper half keeps. -/
theorem tssLoads_iff {address : BitVec 64} {table table' : GdtTable}
    (h5 : table 5 = setTss 5 address table' 5) (h6 : table 6 = setTss 5 address table' 6) :
    TssLoads table 5 ↔ (table' 6).h.extractLsb' 8 5 = 0 := by
  have htype : (setTss 5 address table' 5).segment.type.extractLsb' 0 8 = 0x89 := by
    have hne : (5 : Nat) ≠ 5 + 1 := by decide
    rw [setTss, Function.update_of_ne hne, segment_setGdtDesc]
    rfl
  have hupper : (setTss 5 address table' 6).h = (table' 6).h := by
    have hne : (5 : Nat) + 1 ≠ 5 := by decide
    rw [setTss, Function.update_self, setGdtDesc_of_ne hne]
  simp only [TssLoads, h5, h6, htype, hupper, true_and]

theorem slotsAsListed_iff (hend : BootGdtEnd mem n) {address : BitVec 64} {table : GdtTable}
    (h : ∀ k < 512, table k = setTss 5 address (copiedGdt mem n) k) (hn : n < 512) :
    SlotsAsListed table ↔
      n ≤ 6 ∨ n = 7 ∧ (quadDesc (readWord mem (gdtAddr + 8 * 6) 8)).h = 0 := by
  have hupper : (table 6).h = (copiedGdt mem n 6).h := by
    have hne : (5 : Nat) + 1 ≠ 5 := by decide
    rw [h 6 (by decide), setTss, Function.update_self, setGdtDesc_of_ne hne]
  have hrest : ∀ k, 7 ≤ k → k < 512 → (table k = quadDesc 0 ↔ n ≤ k) := by
    intro k hlo hhi
    rw [h k hhi, setTss_of_ne (by omega) (by omega), copiedGdt]
    split
    · next hcopied =>
        rw [quadDesc_eq_zero (lt_of_lt_of_eq readWord_lt (by norm_num))]
        exact iff_of_false (hend.first k (by omega) hcopied.2) (by omega)
    · next hout => exact iff_of_true rfl (by omega)
  have hall : (∀ k, 7 ≤ k → k < 512 → table k = quadDesc 0) ↔ n ≤ 7 := by
    constructor
    · exact fun hslots => (hrest 7 le_rfl (by decide)).mp (hslots 7 le_rfl (by decide))
    · exact fun hle k hlo hhi => (hrest k hlo hhi).mpr (by omega)
  rw [SlotsAsListed, hupper, hall, copiedGdt]
  rcases Nat.lt_or_ge 6 n with hlt | hge
  · rw [if_pos ⟨by decide, hlt⟩]
    constructor
    · exact fun hslots => .inr ⟨by omega, hslots.1⟩
    · rintro (hle | ⟨rfl, hzero⟩)
      · omega
      · exact ⟨hzero, le_rfl⟩
  · rw [if_neg (by omega)]
    exact iff_of_true ⟨rfl, by omega⟩ (.inl hge)

end Table

section Setup

variable {img : SetupImage} {cr0 n fuel : Nat} {mem : ByteMemory} {e : KernelEntry}

/-- `setup.asm` puts the boot GDT to its place, and leaves alone what is behind it there. -/
theorem setupAsm_gdt (hcount : readWord mem img.processorSig64 8 = 0) (hpos : 1 ≤ img.ksize)
    (hle : img.ksize ≤ 1900) :
    ∃ e image, setupAsm img cr0 mem = some e ∧ Booted img image e ∧
      StoredAt e.mem gdtAddr (quads bootGdt) ∧ ∀ a, 0x8028 ≤ a → a < 0x9000 → e.mem a = mem a := by
  have hlo := img.sig_lo
  have hhi := img.sig_hi
  have hgdtAddr : gdtAddr = 0x8000 := rfl
  generalize hbefore : protectStart (setupStart cr0 mem) = before
  have hsame : ∀ a, 0x8028 ≤ a → a < 0x90000 → before a = mem a := by
    intro a halo hahi
    rw [← hbefore, before_longStart halo hahi]
  have hcount' : readWord before img.processorSig64 8 = 0 := by
    rw [← hcount]
    exact readWord_congr fun a halo hahi => hsame a (by omega) (by omega)
  have htables : BootTables (words before) := hbefore ▸ protectStart_tables _
  obtain ⟨e, hrun, hbooted⟩ := longStart_boots htables hcount' hpos hle
  obtain ⟨mem', after, hrun', hmem, hentered⟩ := longStart_eq htables hcount' hpos hle
  have hafter : e.mem = after := by
    rw [hrun, Option.some_inj] at hrun'
    rw [hrun']
  -- the GDT and what is behind it lie below the counter, the parameters and the stack
  have hframe : ∀ a, a < 0x9000 → e.mem a = before a := by
    intro a ha
    have htop : stackTop 0 = 0x200000 := rfl
    rw [hafter, hentered.frame a (.inl (by omega)) (.inl (by omega)) (.inl (by omega)), hmem,
      if_neg (by omega)]
  refine ⟨e, _, ?_, hbooted, ?_, fun a halo hahi => ?_⟩
  · rw [setupAsm, hbefore, hrun]
  · have hstored : StoredAt (setupStart cr0 mem) gdtAddr (quads bootGdt) := storedAt_storeBytes
    refine hstored.congr fun a halo hahi => ?_
    rw [quads_length] at hahi
    have hlength : bootGdt.length = 5 := rfl
    rw [hframe a (by omega), ← hbefore, protectStart_below (by omega)]
  · rw [hframe a hahi, hsame a halo (by omega)]

/-- `gdt_init`, called with the booting parameter for the GDT on the memory of `setup.asm`. The
segments are those of `setup.asm`, and the TSS is found at its page. That `ltr` finds the
upper half of its descriptor in order, and that no further slot is used, depends on what was
in memory behind the boot GDT before. -/
theorem gdt_init_iff (cr0 : Nat) (hcount : readWord mem img.processorSig64 8 = 0)
    (hpos : 1 ≤ img.ksize) (hle : img.ksize ≤ 1900) (hend : BootGdtEnd mem n) (hn : n < 512)
    (hfuel : n ≤ fuel) :
    ∃ e mem', setupAsm img cr0 mem = some e ∧
      gdtInitTable (readWord e.mem (bootingParamsAddr + 8 * 8) 8) fuel bootmemInit e.mem =
        some ({ start := 0x200, index := 0x202, max := 0x7FF }, mem') ∧
      (∀ k < 5, gdtTableAt mem' 0x200000 k = quadDesc (bootGdt.getD k 0)) ∧
      tssAddress (gdtTableAt mem' 0x200000) 5 = .ofNat 64 (frameAddr 0x201) ∧
      (TssLoads (gdtTableAt mem' 0x200000) 5 ↔
        n ≤ 6 ∨ (quadDesc (readWord mem (gdtAddr + 8 * 6) 8)).h.extractLsb' 8 5 = 0) ∧
      (SlotsAsListed (gdtTableAt mem' 0x200000) ↔
        n ≤ 6 ∨ n = 7 ∧ (quadDesc (readWord mem (gdtAddr + 8 * 6) 8)).h = 0) := by
  obtain ⟨e, image, hrun, hbooted, hgdt, hsame⟩ := @setupAsm_gdt img cr0 mem hcount hpos hle
  have hgdtAddr : gdtAddr = 0x8000 := rfl
  have hword : ∀ j, 5 ≤ j → j < 512 →
      readWord e.mem (gdtAddr + 8 * j) 8 = readWord mem (gdtAddr + 8 * j) 8 :=
    fun j hlo hhi => readWord_congr fun a halo hahi => hsame a (by omega) (by omega)
  have hend' : BootGdtEnd e.mem n := by
    refine ⟨hend.behind, ?_, fun j hlo hhi => ?_⟩
    · rw [hword n hend.behind hn]
      exact hend.zero
    · rw [hword j hlo (by omega)]
      exact hend.first j hlo hhi
  have hparam : readWord e.mem (bootingParamsAddr + 8 * 8) 8 = gdtAddr := hbooted.params 8 _ rfl
  obtain ⟨mem', hinit, htable⟩ := @gdtInitTable_eq e.mem n fuel hgdt
    (fun a halo hahi => hbooted.heap a halo (by omega)) hend' (by omega) hfuel
  have hsixth : ∀ (P : GdtDesc → Prop), P (quadDesc 0) →
      (P (copiedGdt e.mem n 6) ↔
        n ≤ 6 ∨ P (quadDesc (readWord mem (gdtAddr + 8 * 6) 8))) := by
    intro P hzero
    rw [copiedGdt]
    split
    · next hcopied =>
        rw [hword 6 (by decide) (by decide), or_iff_right (by omega)]
    · next hout => exact iff_of_true hzero (.inl (by omega))
  refine ⟨e, mem', hrun, ?_, fun k hk => ?_, ?_, ?_, ?_⟩
  · rw [hparam, hinit]
  · rw [htable k (by omega), setTss_of_ne (by omega) (by omega), copiedGdt]
    split
    · have hget : bootGdt[k]? = some (bootGdt.getD k 0) := by
        rw [List.getD_eq_getElem?_getD, List.getElem?_eq_getElem hk, Option.getD_some]
      rw [bootGdt_desc hgdt hget]
    · next hout =>
        obtain rfl : k = 0 := by have hbehind := hend.behind; omega
        rfl
  · have haddress := @tssAddress_setTss 5 (.ofNat 64 (frameAddr 0x201)) (copiedGdt e.mem n)
    rw [tssAddress] at haddress ⊢
    rw [htable 5 (by decide), htable 6 (by decide)]
    exact haddress
  · rw [tssLoads_iff (htable 5 (by decide)) (htable 6 (by decide))]
    exact hsixth (fun d => d.h.extractLsb' 8 5 = 0) (by decide)
  · rw [slotsAsListed_iff hend' htable hn]
    rw [hword 6 (by decide) (by decide)]

end Setup

/-- Memory that is zero but for three quadwords behind the boot GDT. -/
def dirtyMemory : ByteMemory := fun a => if 0x8028 ≤ a ∧ a < 0x8040 then 0xFF else 0

/-- Memory that was zero before, and memory that was not: there `ltr` finds bits in the upper
half of its descriptor, and slot 7 holds what was in memory. -/
theorem blank_and_dirty_gdt_init :
    (∃ e mem', setupAsm someImage 0 (fun _ => 0) = some e ∧
      gdtInitTable (readWord e.mem (bootingParamsAddr + 8 * 8) 8) 5 bootmemInit e.mem =
        some ({ start := 0x200, index := 0x202, max := 0x7FF }, mem') ∧
      TssLoads (gdtTableAt mem' 0x200000) 5 ∧ SlotsAsListed (gdtTableAt mem' 0x200000)) ∧
    ∃ e mem', setupAsm someImage 0 dirtyMemory = some e ∧
      gdtInitTable (readWord e.mem (bootingParamsAddr + 8 * 8) 8) 8 bootmemInit e.mem =
        some ({ start := 0x200, index := 0x202, max := 0x7FF }, mem') ∧
      ¬ TssLoads (gdtTableAt mem' 0x200000) 5 ∧ ¬ SlotsAsListed (gdtTableAt mem' 0x200000) := by
  constructor
  · have hzero : ∀ a n, readWord (fun _ => 0) a n = 0 := fun a n => readWord_zero fun _ _ _ => rfl
    have hend : BootGdtEnd (fun _ => 0) 5 := ⟨le_rfl, hzero _ _, fun j hlo hhi => by omega⟩
    obtain ⟨e, mem', hrun, hinit, -, -, hloads, hlisted⟩ :=
      @gdt_init_iff someImage 5 5 (fun _ => 0) 0 (hzero _ _) (by decide) (by decide) hend
        (by decide) le_rfl
    exact ⟨e, mem', hrun, hinit, hloads.mpr (.inl (by decide)), hlisted.mpr (.inl (by decide))⟩
  · have hend : BootGdtEnd dirtyMemory 8 := by
      refine ⟨by decide, by decide, fun j hlo hhi => ?_⟩
      interval_cases j <;> decide
    obtain ⟨e, mem', hrun, hinit, -, -, hloads, hlisted⟩ :=
      @gdt_init_iff someImage 8 8 dirtyMemory 0 (by decide) (by decide) (by decide) hend
        (by decide) le_rfl
    exact ⟨e, mem', hrun, hinit, hloads.not.mpr (by decide), hlisted.not.mpr (by decide)⟩

end Caos
