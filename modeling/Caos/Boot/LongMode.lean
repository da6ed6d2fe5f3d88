import Caos.Boot.BootTables
import Caos.Boot.Loader

/-!
`setup.asm` behind the boot loader: the GDT of the real mode part, the page tables, and in
long mode the copy of the kernel image, the stacks, the booting parameters and the entry of the
kernel. In long mode every access goes through the boot page tables, and has no result where
these map nothing. The letters that the stages put on the screen are left out.
-/

namespace Caos

open Lib

/-- `KERNEL_STACK_START`. -/
def kernelStackStart : Nat := 0xFFFF800000200000

/-- `KERNEL_CODE64_SEL`. -/
def kernelCode64Sel : Nat := 0x18

/-- What the build puts into `setup.asm`: `KSIZE` and `MSIZE`, the addresses of
`kernel_section.inc`, and where `processor_sig64` comes to lie in its 4096 bytes. -/
structure SetupImage where
  ksize : Nat
  msize : UInt64
  codeStart : UInt64
  codeEnd : UInt64
  dataStart : UInt64
  dataEnd : UInt64
  bssStart : UInt64
  bssEnd : UInt64
  kernelEnd : UInt64
  perCpuStart : UInt64
  perCpuEnd : UInt64
  processorSig64 : Nat
  sig_lo : 0x9000 ≤ processorSig64
  sig_hi : processorSig64 + 8 ≤ 0xA000

/-- The booting parameters, in the order of their places. -/
def SetupImage.params (img : SetupImage) : List Nat :=
  [img.codeStart.toNat, img.codeEnd.toNat, img.dataStart.toNat, img.dataEnd.toNat,
    img.bssStart.toNat, img.bssEnd.toNat, img.kernelEnd.toNat, img.msize.toNat, gdtAddr,
    bootingMemorySize, 0x9F000, 0x100000, img.perCpuStart.toNat, img.perCpuEnd.toNat]

/-- The descriptors at `gdt`. -/
def bootGdt : List Nat :=
  [0, 0x00CF9A000000FFFF, 0x00CF92000000FFFF, 0x00AF9A000000FFFF, 0x00AF92000000FFFF]

/-- Consecutive quadwords. -/
def quads (values : List Nat) : List UInt8 := values.flatMap (leBytes 8)

/-- The real mode part. `es` is still 0xb800 where the GDT is to be cleared, and the upper half
of `eax` that of `cr0`. -/
def setupStart (cr0 : Nat) (mem : ByteMemory) : ByteMemory :=
  let mem := repStos 4 (cr0 / 2 ^ 16 * 2 ^ 16) (4096 / 2) (0xb8000 + gdtAddr) mem
  storeBytes mem gdtAddr (quads bootGdt)

/-! ## Long mode -/

/-- `mov qword [address], w`, for an aligned address. -/
def storeLinear (address w : Nat) (mem : ByteMemory) : Option ByteMemory :=
  (linearToPhys (words mem) bootCr3 address).map fun p => storeBytes mem p (leBytes 8 w)

/-- A load of `n` bytes. -/
def loadLinear (address n : Nat) (mem : ByteMemory) : Option Nat :=
  (linearToPhys (words mem) bootCr3 address).map fun p => readWord mem p n

/-- `rep stosq` with zero in `rax`. -/
def clearKernel : (rcx rdi : Nat) → ByteMemory → Option ByteMemory
  | 0, _, mem => some mem
  | rcx + 1, rdi, mem => do clearKernel rcx (rdi + 8) (← storeLinear rdi 0 mem)

/-- The loop `copy_kernel`, by the rounds that are left. -/
def copyKernel : (rounds rsi rdi : Nat) → ByteMemory → Option ByteMemory
  | 0, _, _, mem => some mem
  | rounds + 1, rsi, rdi, mem => do
    let rax ← loadLinear rsi 8 mem
    copyKernel rounds (rsi + 8) (rdi + 8) (← storeLinear rdi rax mem)

/-- `rcx` is counted down by 8 and tested behind the copy. -/
def copyRounds (rcx : Nat) : Nat := if rcx = 0 then 2 ^ 61 else rcx / 8

/-- The part of `long_start` that only the boot processor executes. -/
def fillKernelArea (ksize : Nat) (mem : ByteMemory) : Option ByteMemory := do
  let mem ← clearKernel (7 * 1024 * 1024 / 8) 0x100000 mem
  copyKernel (copyRounds (ksize * 512)) 0xA000 0x100000 mem

/-- A sequence of `push`. -/
def pushes : List Nat → (rsp : Nat) → ByteMemory → Option (Nat × ByteMemory)
  | [], rsp, mem => some (rsp, mem)
  | w :: ws, rsp, mem => do pushes ws (rsp - 8) (← storeLinear (rsp - 8) w mem)

/-- The stores of the booting parameters. -/
def storeParams : List Nat → (rdi : Nat) → ByteMemory → Option ByteMemory
  | [], _, mem => some mem
  | w :: ws, rdi, mem => do storeParams ws (rdi + 8) (← storeLinear rdi w mem)

/-- The machine at the entry of the kernel. -/
structure KernelEntry where
  rip : Nat
  rsp : Nat
  rdi : Nat
  mem : ByteMemory

/-- `iretq`: the frame is popped. -/
def iretq (rsp rdi : Nat) (mem : ByteMemory) : Option KernelEntry := do
  let rip ← loadLinear rsp 8 mem
  let newRsp ← loadLinear (rsp + 24) 8 mem
  return { rip := rip, rsp := newRsp, rdi := rdi, mem := mem }

/-- `long_start` from `copy_kernel_end` on. -/
def copyKernelEnd (img : SetupImage) (mem : ByteMemory) : Option KernelEntry := do
  let al ← loadLinear img.processorSig64 1 mem
  let rsp := if al = 0 then kernelStackStart else kernelStackStart - 0x2000
  let (rsp, mem) ← pushes (List.replicate 0x10 0x12345678ABCDEF00) rsp mem
  let mem ← storeParams img.params bootingParamsAddr mem
  let rdi ← loadLinear img.processorSig64 8 mem
  let rax ← loadLinear img.processorSig64 8 mem
  let mem ← storeLinear img.processorSig64 ((rax + 1) % 2 ^ 64) mem
  let (rsp, mem) ← pushes [0, rsp, 0, kernelCode64Sel, img.codeStart.toNat] rsp mem
  iretq rsp rdi mem

/-- `long_start`. -/
def longStart (img : SetupImage) (mem : ByteMemory) : Option KernelEntry := do
  let al ← loadLinear img.processorSig64 1 mem
  -- the others skip to `copy_kernel_end`
  let mem ← if al = 0 then fillKernelArea img.ksize mem else some mem
  copyKernelEnd img mem

/-- `setup.asm`, from its first instruction on. -/
def setupAsm (img : SetupImage) (cr0 : Nat) (mem : ByteMemory) : Option KernelEntry :=
  longStart img (protectStart (setupStart cr0 mem))

/-! ## Accesses through the boot tables -/

section Accesses

variable {mem : ByteMemory} {address addr q w n : Nat} {bytes : List UInt8} {ws : List Nat}

theorem BootTables.low (h : BootTables (words mem)) (ha : address < 0x800000) :
    linearToPhys (words mem) bootCr3 address = some address := by
  have hwindow := @BootTables.window _ h 0 address (.inl rfl) (by omega)
  rw [Nat.zero_add] at hwindow
  rw [hwindow, if_pos]
  simpa [bootingMemorySize] using ha

theorem BootTables.high (h : BootTables (words mem)) (hq : q < 0x800000) :
    linearToPhys (words mem) bootCr3 (pageOffset + q) = some q := by
  rw [h.window (.inr rfl) (by omega), if_pos]
  simpa [bootingMemorySize] using hq

/-- A store outside the seven frames. -/
theorem BootTables.store (h : BootTables (words mem))
    (hout : addr + bytes.length ≤ 0x90000 ∨ 0x97000 ≤ addr) :
    BootTables (words (storeBytes mem addr bytes)) := by
  apply h.congr
  intro a hlo hhi
  exact storeBytes_of_outside (by omega)

theorem BootTables.storeLinear_low (h : BootTables (words mem)) (ha : address < 0x800000)
    (w : Nat) :
    storeLinear address w mem = some (storeBytes mem address (leBytes 8 w)) := by
  rw [storeLinear, h.low ha, Option.map_some]

theorem BootTables.storeLinear_high (h : BootTables (words mem)) (hq : q < 0x800000) (w : Nat) :
    storeLinear (pageOffset + q) w mem = some (storeBytes mem q (leBytes 8 w)) := by
  rw [storeLinear, h.high hq, Option.map_some]

theorem BootTables.loadLinear_low (h : BootTables (words mem)) (ha : address < 0x800000) (n : Nat) :
    loadLinear address n mem = some (readWord mem address n) := by
  rw [loadLinear, h.low ha, Option.map_some]

theorem BootTables.loadLinear_high (h : BootTables (words mem)) (hq : q < 0x800000) (n : Nat) :
    loadLinear (pageOffset + q) n mem = some (readWord mem q n) := by
  rw [loadLinear, h.high hq, Option.map_some]

@[simp] theorem quads_length : (quads ws).length = 8 * ws.length := by
  induction ws with
  | nil => rfl
  | cons w ws ih =>
      simp only [quads, List.flatMap_cons, List.length_append, leBytes_length,
        List.length_cons] at *
      omega

/-- The quadword at a place. -/
theorem readWord_quads (h : StoredAt mem addr (quads ws)) {k : Nat} (hk : ws[k]? = some w)
    (hw : w < 2 ^ 64) : readWord mem (addr + 8 * k) 8 = w := by
  induction ws generalizing addr k with
  | nil => simp at hk
  | cons v ws ih =>
      rw [quads, List.flatMap_cons, storedAt_append, leBytes_length] at h
      cases k with
      | zero =>
          obtain rfl : v = w := by simpa using hk
          exact readWord_of_storedAt h.1 hw
      | succ k =>
          have haddr : addr + 8 * (k + 1) = addr + 8 + 8 * k := by omega
          rw [haddr]
          exact ih h.2 (by simpa using hk)

end Accesses

/-! ## The loops -/

section Loops

variable {mem : ByteMemory} {rcx rounds rsi rdi q : Nat} {ws : List Nat}

theorem clearKernel_eq (h : BootTables (words mem)) (hlo : 0x97000 ≤ rdi)
    (hhi : rdi + 8 * rcx ≤ 0x800000) :
    clearKernel rcx rdi mem = some (repStos 8 0 rcx rdi mem) := by
  induction rcx generalizing rdi mem with
  | zero => rfl
  | succ rcx ih =>
      rw [clearKernel, h.storeLinear_low (by omega), Option.bind_eq_bind, Option.bind_some,
        ih (h.store (.inr hlo)) (by omega) (by omega), repStos]

/-- The bytes of the number that bytes denote. -/
theorem leBytes_leNat (bytes : List UInt8) : leBytes bytes.length (leNat bytes) = bytes := by
  induction bytes with
  | nil => rfl
  | cons b bytes ih =>
      have hlt := b.toNat_lt
      have hdiv : (b.toNat + 256 * leNat bytes) / 256 = leNat bytes := by omega
      have hlow : UInt8.ofNat (b.toNat + 256 * leNat bytes) = b := by
        apply UInt8.toNat_inj.mp
        rw [UInt8.toNat_ofNat']
        omega
      rw [leNat, List.length_cons, leBytes, hdiv, ih, hlow]

/-- The image is copied to a place behind it. -/
theorem copyKernel_eq (h : BootTables (words mem)) (hlo : 0x97000 ≤ rdi)
    (hhi : rdi + 8 * rounds ≤ 0x800000) (hbehind : rsi + 8 * rounds ≤ rdi) :
    ∃ mem', copyKernel rounds rsi rdi mem = some mem' ∧ BootTables (words mem') ∧
      ∀ a, mem' a = if rdi ≤ a ∧ a < rdi + 8 * rounds then mem (rsi + (a - rdi)) else mem a := by
  induction rounds generalizing rsi rdi mem with
  | zero =>
      refine ⟨mem, rfl, h, fun a => ?_⟩
      rw [if_neg (by omega)]
  | succ rounds ih =>
      have hbytes : leBytes 8 (readWord mem rsi 8) = readBytes mem rsi 8 := by
        have hread := leBytes_leNat (readBytes mem rsi 8)
        rwa [readBytes_length] at hread
      have hstore : BootTables (words (storeBytes mem rdi (readBytes mem rsi 8))) :=
        h.store (.inr hlo)
      obtain ⟨mem', hrun, htables, hmem⟩ :=
        @ih _ (rsi + 8) (rdi + 8) hstore (by omega) (by omega) (by omega)
      refine ⟨mem', ?_, htables, fun a => ?_⟩
      · have hword := @BootTables.storeLinear_low _ rdi h (by omega) (readWord mem rsi 8)
        rw [copyKernel, h.loadLinear_low (by omega)]
        simp only [Option.bind_eq_bind, Option.bind_some, hword, hbytes, hrun]
      · rw [hmem, storeBytes_readBytes, storeBytes_readBytes]
        split_ifs <;> first | rfl | omega | (congr 1; omega)

theorem storeParams_eq (h : BootTables (words mem)) (hlo : 0x97000 ≤ rdi)
    (hhi : rdi + 8 * ws.length ≤ 0x800000) :
    storeParams ws rdi mem = some (storeBytes mem rdi (quads ws)) := by
  induction ws generalizing rdi mem with
  | nil => rfl
  | cons w ws ih =>
      rw [List.length_cons] at hhi
      rw [storeParams, h.storeLinear_low (by omega), Option.bind_eq_bind, Option.bind_some,
        ih (h.store (.inr hlo)) (by omega) (by omega), quads, quads, List.flatMap_cons,
        storeBytes_append, leBytes_length]

/-- The words pushed last stand first. -/
theorem pushes_eq (h : BootTables (words mem)) (hlo : 0x97000 + 8 * ws.length ≤ q)
    (hhi : q ≤ 0x800000) :
    ∃ mem', pushes ws (pageOffset + q) mem = some (pageOffset + (q - 8 * ws.length), mem') ∧
      BootTables (words mem') ∧ StoredAt mem' (q - 8 * ws.length) (quads ws.reverse) ∧
      ∀ a, a < q - 8 * ws.length ∨ q ≤ a → mem' a = mem a := by
  induction ws generalizing q mem with
  | nil => exact ⟨mem, by simp [pushes], h, by simp [quads], fun _ _ => rfl⟩
  | cons w ws ih =>
      rw [List.length_cons] at *
      have hrsp : pageOffset + q - 8 = pageOffset + (q - 8) := by
        omega
      have hstore : BootTables (words (storeBytes mem (q - 8) (leBytes 8 w))) :=
        h.store (.inr (by omega))
      obtain ⟨mem', hrun, htables, hstored, hframe⟩ := ih (q := q - 8) hstore (by omega) (by omega)
      have hlen : q - 8 - 8 * ws.length = q - 8 * (ws.length + 1) := by
        omega
      rw [hlen] at hrun hstored hframe
      refine ⟨mem', ?_, htables, ?_, fun a ha => ?_⟩
      · rw [pushes, hrsp, h.storeLinear_high (by omega), Option.bind_eq_bind, Option.bind_some,
          hrun]
      · have hlast : StoredAt mem' (q - 8) (leBytes 8 w) := by
          apply storedAt_storeBytes.congr
          intro a hge hlt
          rw [leBytes_length] at hlt
          exact hframe a (.inr hge)
        rw [List.reverse_cons, quads, List.flatMap_append, storedAt_append]
        refine ⟨hstored, ?_⟩
        have hend : q - 8 * (ws.length + 1) + (List.flatMap (leBytes 8) ws.reverse).length =
            q - 8 := by
          have hquads := @quads_length ws.reverse
          rw [quads, List.length_reverse] at hquads
          omega
        rw [hend]
        simpa using hlast
      · rw [hframe a (by omega), storeBytes_of_outside]
        rw [leBytes_length]
        omega

end Loops

/-! ## The entry of the kernel -/

/-- The physical address of the stack that a processor is given for this count. -/
def stackTop (count : Nat) : Nat := if count % 256 = 0 then 0x200000 else 0x1FE000

/-- What a processor that finds this count stores on the way to the kernel. -/
structure Entered (img : SetupImage) (count : Nat) (before after : ByteMemory) : Prop where
  tables : BootTables (words after)
  counted : readWord after img.processorSig64 8 = (count + 1) % 2 ^ 64
  params : ∀ k p, img.params[k]? = some p → readWord after (bootingParamsAddr + 8 * k) 8 = p
  frame : ∀ a, a < img.processorSig64 ∨ img.processorSig64 + 8 ≤ a → a < 0x9F000 ∨ 0x9F070 ≤ a →
    a < stackTop count - 0xA8 ∨ stackTop count ≤ a → after a = before a

section Entry

variable {img : SetupImage} {mem : ByteMemory} {count : Nat}

/-- The byte of the counter that is tested. -/
theorem readWord_one (h : readWord mem img.processorSig64 8 = count) :
    readWord mem img.processorSig64 1 = count % 256 := by
  have hlt : readWord mem img.processorSig64 1 < 256 := by
    have hbyte := (mem img.processorSig64).toNat_lt
    simpa [readWord, readBytes, leNat] using hbyte
  rw [@readWord_add _ _ 1 7] at h
  omega

theorem params_lt {p : Nat} (hp : p ∈ img.params) : p < 2 ^ 64 := by
  simp only [SetupImage.params, List.mem_cons, List.not_mem_nil, or_false] at hp
  have hlt := fun w : UInt64 => w.toNat_lt
  rcases hp with rfl | rfl | rfl | rfl | rfl | rfl | rfl | rfl | rfl | rfl | rfl | rfl | rfl | rfl
  all_goals first | exact hlt _ | norm_num [gdtAddr, bootingMemorySize]

/-- The kernel area is cleared, and the image copied. -/
theorem fillKernelArea_eq {ksize : Nat} (h : BootTables (words mem)) (hpos : 1 ≤ ksize)
    (hle : ksize ≤ 1900) :
    ∃ mem', fillKernelArea ksize mem = some mem' ∧ BootTables (words mem') ∧ ∀ a, mem' a =
      if 0x100000 ≤ a ∧ a < 0x100000 + 512 * ksize then mem (0xA000 + (a - 0x100000))
      else if 0x100000 ≤ a ∧ a < 0x800000 then 0 else mem a := by
  have hclear := @clearKernel_eq mem (7 * 1024 * 1024 / 8) 0x100000 h (by norm_num) (by norm_num)
  have hrounds : copyRounds (ksize * 512) = 64 * ksize := by
    rw [copyRounds, if_neg (by omega)]
    omega
  have harea : ∀ a, repStos 8 0 (7 * 1024 * 1024 / 8) 0x100000 mem a =
      if 0x100000 ≤ a ∧ a < 0x800000 then 0 else mem a :=
    fun a => repStos_apply mem 8 _ 0x100000 a
  have htables : BootTables (words (repStos 8 0 (7 * 1024 * 1024 / 8) 0x100000 mem)) := by
    apply h.congr
    intro a _ hhi
    rw [harea, if_neg (by omega)]
  obtain ⟨mem', hrun, htables', hmem⟩ := @copyKernel_eq _ (64 * ksize) 0xA000 0x100000 htables
    (by norm_num) (by omega) (by omega)
  refine ⟨mem', ?_, htables', fun a => ?_⟩
  · rw [fillKernelArea, hclear, hrounds]
    exact hrun
  · rw [hmem, harea, harea]
    split_ifs <;> first | omega | rfl

theorem stackTop_cases (count : Nat) :
    (if count % 256 = 0 then kernelStackStart else kernelStackStart - 0x2000) =
        pageOffset + stackTop count ∧
      (stackTop count = 0x200000 ∨ stackTop count = 0x1FE000) := by
  unfold stackTop
  split_ifs
  · exact ⟨rfl, .inl rfl⟩
  · exact ⟨rfl, .inr rfl⟩

/-- Every processor enters the kernel with the count it found. -/
theorem copyKernelEnd_eq (h : BootTables (words mem))
    (hcount : readWord mem img.processorSig64 8 = count) :
    ∃ after, copyKernelEnd img mem =
        some ⟨img.codeStart.toNat, pageOffset + (stackTop count - 0x80), count, after⟩ ∧
      Entered img count mem after := by
  have hlo := img.sig_lo
  have hhi := img.sig_hi
  obtain ⟨hstack, htop⟩ := stackTop_cases count
  generalize htopeq : stackTop count = top at hstack htop
  obtain ⟨mem₁, hpush, htables₁, -, hmem₁⟩ := @pushes_eq mem top
    (List.replicate 0x10 0x12345678ABCDEF00) h (by rw [List.length_replicate]; omega) (by omega)
  simp only [List.length_replicate, Nat.reduceMul] at hpush hmem₁
  have hlen : img.params.length = 14 := rfl
  have hparams : storeParams img.params bootingParamsAddr mem₁ =
      some (storeBytes mem₁ bootingParamsAddr (quads img.params)) :=
    storeParams_eq htables₁ (by norm_num [bootingParamsAddr])
      (by norm_num [bootingParamsAddr, hlen])
  generalize hmem₂ : storeBytes mem₁ bootingParamsAddr (quads img.params) = mem₂ at hparams
  have hframe₂ : ∀ a, a < 0x9F000 ∨ 0x9F070 ≤ a → mem₂ a = mem₁ a := by
    intro a ha
    rw [← hmem₂, storeBytes_of_outside]
    rw [quads_length, hlen]
    exact ha
  have htables₂ : BootTables (words mem₂) :=
    htables₁.congr fun a _ hhi => hframe₂ a (.inl (by omega))
  have hcount₂ : readWord mem₂ img.processorSig64 8 = count := by
    rw [← hcount]
    apply readWord_congr
    intro a halo hahi
    rw [hframe₂ a (.inl (by omega)), hmem₁ a (.inl (by omega))]
  generalize hmem₃ :
    storeBytes mem₂ img.processorSig64 (leBytes 8 ((count + 1) % 2 ^ 64)) = mem₃
  have hframe₃ : ∀ a, a < img.processorSig64 ∨ img.processorSig64 + 8 ≤ a → mem₃ a = mem₂ a := by
    intro a ha
    rw [← hmem₃, storeBytes_of_outside]
    rw [leBytes_length]
    exact ha
  have htables₃ : BootTables (words mem₃) :=
    htables₂.congr fun a hlo _ => hframe₃ a (.inr (by omega))
  obtain ⟨mem₄, hframe, htables₄, hstored, hmem₄⟩ := @pushes_eq mem₃ (top - 0x80)
    [0, pageOffset + (top - 0x80), 0, kernelCode64Sel, img.codeStart.toNat] htables₃
    (by simp only [List.length_cons, List.length_nil]; omega) (by omega)
  simp only [List.length_cons, List.length_nil, Nat.reduceAdd, Nat.reduceMul]
    at hframe hstored hmem₄
  -- the frame that `iretq` pops
  have hrip : loadLinear (pageOffset + (top - 0x80 - 40)) 8 mem₄ = some img.codeStart.toNat := by
    have hword := @readWord_quads mem₄ _ _ _ hstored 0 rfl img.codeStart.toNat_lt
    rw [Nat.mul_zero, Nat.add_zero] at hword
    rw [htables₄.loadLinear_high (by omega), hword]
  have hrsp : loadLinear (pageOffset + (top - 0x80 - 40) + 24) 8 mem₄ =
      some (pageOffset + (top - 0x80)) := by
    have hlt : pageOffset + (top - 0x80) < 2 ^ 64 := by
      simp only [pageOffset]
      omega
    have hword := @readWord_quads mem₄ _ _ _ hstored 3 rfl hlt
    rw [Nat.add_assoc, htables₄.loadLinear_high (by omega), hword]
  refine ⟨mem₄, ?_, htables₄, ?_, ?_, ?_⟩
  · have hlow : img.processorSig64 < 0x800000 := by omega
    have hload := h.loadLinear_low hlow 1
    have hload₂ := htables₂.loadLinear_low hlow 8
    have hstore := htables₂.storeLinear_low hlow
    rw [readWord_one hcount] at hload
    rw [hcount₂] at hload₂
    simp only [copyKernelEnd, Option.bind_eq_bind, hload, Option.bind_some, hstack, hpush,
      hparams, hload₂, hstore, hmem₃, hframe, iretq, hrip, hrsp]
    rfl
  · have hstored₃ : readWord mem₃ img.processorSig64 8 = (count + 1) % 2 ^ 64 := by
      rw [← hmem₃]
      exact readWord_storeBytes (by omega)
    rw [← hstored₃]
    apply readWord_congr
    intro a halo hahi
    exact hmem₄ a (.inl (by omega))
  · intro k p hk
    have hlt := (List.getElem?_eq_some_iff.mp hk).1
    rw [hlen] at hlt
    have hstored₂ : StoredAt mem₂ bootingParamsAddr (quads img.params) := by
      rw [← hmem₂]
      exact storedAt_storeBytes
    rw [← readWord_quads hstored₂ hk (params_lt (List.mem_of_getElem? hk))]
    apply readWord_congr
    intro a halo hahi
    unfold bootingParamsAddr at halo hahi
    rw [hmem₄ a (.inl (by omega)), hframe₃ a (.inr (by omega))]
  · intro a hsig hparam hout
    rw [htopeq] at hout
    rw [hmem₄ a (by omega), hframe₃ a hsig, hframe₂ a hparam, hmem₁ a (by omega)]

/-! ## The boot processor and the others -/

/-- What is in memory where the ways meet again: the kernel area was filled if the low byte
of the count is zero. -/
def AtCopyKernelEnd (img : SetupImage) (count : Nat) (before mem : ByteMemory) : Prop :=
  ∀ a, mem a =
    if count % 256 = 0 ∧ 0x100000 ≤ a ∧ a < 0x800000 then
      if a < 0x100000 + 512 * img.ksize then before (0xA000 + (a - 0x100000)) else 0
    else before a

/-- On complete boot tables, every processor reaches the kernel. -/
theorem longStart_eq (h : BootTables (words mem))
    (hcount : readWord mem img.processorSig64 8 = count) (hpos : 1 ≤ img.ksize)
    (hle : img.ksize ≤ 1900) :
    ∃ mem' after, longStart img mem =
        some ⟨img.codeStart.toNat, pageOffset + (stackTop count - 0x80), count, after⟩ ∧
      AtCopyKernelEnd img count mem mem' ∧ Entered img count mem' after := by
  have hlo := img.sig_lo
  have hhi := img.sig_hi
  have hlow : img.processorSig64 < 0x800000 := by omega
  have hload := h.loadLinear_low hlow 1
  rw [readWord_one hcount] at hload
  obtain ⟨mem', hfill, htables, hmem⟩ : ∃ mem',
      (if count % 256 = 0 then fillKernelArea img.ksize mem else some mem) = some mem' ∧
        BootTables (words mem') ∧ AtCopyKernelEnd img count mem mem' := by
    split_ifs with hbyte
    · obtain ⟨mem', hrun, htables, hmem⟩ := fillKernelArea_eq h hpos hle
      refine ⟨mem', hrun, htables, fun a => ?_⟩
      rw [hmem]
      split_ifs <;> first | omega | rfl
    · refine ⟨mem, rfl, h, fun a => ?_⟩
      rw [if_neg (not_and_of_not_left _ hbyte)]
  have hcount' : readWord mem' img.processorSig64 8 = count := by
    rw [← hcount]
    apply readWord_congr
    intro a halo hahi
    rw [hmem, if_neg (by omega)]
  obtain ⟨after, hrun, hentered⟩ := copyKernelEnd_eq htables hcount'
  refine ⟨mem', after, ?_, hmem, hentered⟩
  simp only [longStart, Option.bind_eq_bind, hload, Option.bind_some]
  split_ifs at hfill ⊢
  · simp only [hfill, Option.bind_some, hrun]
  · simp only [Option.some_inj.mp hfill, hrun]

/-- What `start_kernel` finds on the boot processor. -/
structure Booted (img : SetupImage) (image : Nat → UInt8) (s : KernelEntry) : Prop where
  entry : s.rip = img.codeStart.toNat ∧ s.rdi = 0 ∧ s.rsp = kernelStackStart - 0x80
  kernel : ∀ i < 512 * img.ksize, s.mem (0x100000 + i) = image i
  bss : ∀ a, 0x100000 + 512 * img.ksize ≤ a → a < 0x1FFF00 → s.mem a = 0
  heap : ∀ a, 0x200000 ≤ a → a < 0x800000 → s.mem a = 0
  params : ∀ k p, img.params[k]? = some p → readWord s.mem (bootingParamsAddr + 8 * k) 8 = p
  counted : readWord s.mem img.processorSig64 8 = 1
  tables : BootTables (words s.mem)

/-- The boot processor finds the counter at zero. -/
theorem longStart_boots (h : BootTables (words mem))
    (hcount : readWord mem img.processorSig64 8 = 0) (hpos : 1 ≤ img.ksize)
    (hle : img.ksize ≤ 1900) :
    ∃ s, longStart img mem = some s ∧ Booted img (fun i => mem (0xA000 + i)) s := by
  have hhi := img.sig_hi
  obtain ⟨mem', after, hrun, hmem, hentered⟩ := longStart_eq h hcount hpos hle
  have hframe : ∀ a, 0x100000 ≤ a → a < 0x800000 → a < 0x1FFF00 ∨ 0x200000 ≤ a →
      after a = if a < 0x100000 + 512 * img.ksize then mem (0xA000 + (a - 0x100000)) else 0 := by
    intro a ha ha' hout
    have htop : stackTop 0 = 0x200000 := rfl
    rw [hentered.frame a (by omega) (by omega) (by omega), hmem, if_pos ⟨rfl, ha, ha'⟩]
  have hrsp : pageOffset + (stackTop 0 - 0x80) = kernelStackStart - 0x80 := by
    norm_num [pageOffset, stackTop, kernelStackStart]
  rw [hrsp] at hrun
  refine ⟨_, hrun, ?_⟩
  constructor
  · exact ⟨rfl, rfl, rfl⟩
  · intro i hi
    refine (hframe _ (by omega) (by omega) (by omega)).trans ?_
    rw [if_pos (by omega), Nat.add_sub_cancel_left]
  · intro a ha ha'
    refine (hframe _ (by omega) (by omega) (by omega)).trans ?_
    rw [if_neg (by omega)]
  · intro a ha ha'
    refine (hframe _ (by omega) (by omega) (by omega)).trans ?_
    rw [if_neg (by omega)]
  · exact hentered.params
  · exact hentered.counted
  · exact hentered.tables

end Entry

end Caos
