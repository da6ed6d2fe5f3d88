import Caos.Console.Numerals
import Caos.Console.Printf

/-!
The static buffer of `caos_printf`. Nothing in `caos_vsprintf` knows its size: the
stores go on as long as there is something to format.
-/

namespace Caos

open Lib

/-- The size of `sz`. -/
def szSize : Nat := 128

/-- The addresses `caos_strcat` stores to, as far as it gets in `fuel` iterations. -/
def strcatStores : Nat → Nat → Nat → ByteMemory → List Nat
  | 0, _, _, _ => []
  | fuel + 1, dest, src, mem =>
    if mem src ≠ 0 then
      dest :: strcatStores fuel (dest + 1) (src + 1) (Function.update mem dest (mem src))
    else []

/-- The addresses `caos_vsprintf` stores to, as far as it gets in `fuel` iterations. The
number functions store to as many addresses as they return; where the test of the sign is
an invalid opcode, nothing has been stored yet. -/
def vsprintfStores (bt : LockedBt) : Nat → Nat → Nat → List (BitVec 64) → ByteMemory → List Nat
  | 0, _, _, _, _ => []
  | fuel + 1, str, fmt, args, mem =>
    if mem fmt = 0 then [str]
    else if mem fmt = charByte '%' ∧ mem (fmt + 1) = charByte 'd' then
      match vaArg args with
      | none => []
      | some (argValue, args) =>
        match printDecimal bt str argValue mem with
        | none => []
        | some (digitNum, mem) =>
          List.range' str digitNum ++ vsprintfStores bt fuel (str + digitNum) (fmt + 2) args mem
    else if mem fmt = charByte '%' ∧ mem (fmt + 1) = charByte 'x' then
      match vaArg args with
      | none => []
      | some (argValue, args) =>
        match printHex str argValue mem with
        | none => []
        | some (digitNum, mem) =>
          List.range' str digitNum ++ vsprintfStores bt fuel (str + digitNum) (fmt + 2) args mem
    else if mem fmt = charByte '%' ∧ mem (fmt + 1) = charByte 's' then
      match vaArg args with
      | none => []
      | some (argValue, args) =>
        strcatStores fuel str argValue.toNat mem ++
          match caosStrcat fuel str argValue.toNat mem with
          | none => []
          | some (digitNum, mem) => vsprintfStores bt fuel (str + digitNum) (fmt + 2) args mem
    else if mem fmt = charByte '%' ∧ mem (fmt + 1) = charByte 'c' then
      match vaArg args with
      | none => []
      | some (argValue, args) =>
        str :: vsprintfStores bt fuel (str + 1) (fmt + 2) args
          (Function.update mem str (.ofNat argValue.toNat))
    else
      str :: vsprintfStores bt fuel (str + 1) (fmt + 1) args (Function.update mem str (mem fmt))

/-- Every byte that the call stores while it formats, the NUL included, lies in `sz`. -/
def StaysInBuffer (bt : LockedBt) (sz fmt : Nat) (args : List (BitVec 64))
    (mem : ByteMemory) : Prop :=
  ∀ fuel, ∀ a ∈ vsprintfStores bt fuel sz fmt args mem, sz ≤ a ∧ a < sz + szSize

/-- How many characters a conversion prints. The smallest number prints as a minus sign. -/
def Conversion.width (text : BitVec 64 → List UInt8) : Conversion → BitVec 64 → Nat
  | .decimal, a =>
    if a = BitVec.intMin 64 then 1
    else (Caos.decimal.numeral a.toInt.natAbs).length + if a.toInt < 0 then 1 else 0
  | .hex, a => (upperHex.numeral a.toNat).length
  | .string, a => (text a).length
  | .char, _ => 1

/-- How many bytes a format stores, its NUL included. A number that `print_decimal` does not
return from ends the text without one. -/
def storedLength (bt : LockedBt) (text : BitVec 64 → List UInt8) :
    List Directive → List (BitVec 64) → Nat
  | [], _ => 1
  | .plain _ :: ds, args => storedLength bt text ds args + 1
  | .convert _ :: _, [] => 0
  | .convert k :: ds, a :: args =>
    if k = .decimal ∧ ¬ bt.Prints a then 0 else k.width text a + storedLength bt text ds args

section Width

variable {text : BitVec 64 → List UInt8} {k : Conversion} {a : BitVec 64}

theorem length_emit : (k.emit text a).length = k.width text a := by
  cases k with
  | decimal =>
      rw [Conversion.emit, Conversion.width]
      split
      · next h => rw [h, decimalBytes_intMin]; rfl
      · next h =>
          rw [decimalBytes_eq h]
          split <;> simp
  | hex => rw [Conversion.emit, Conversion.width, hexBytes_eq]
  | string => rfl
  | char => rfl

theorem storedLength_convert {bt : LockedBt} {ds : List Directive} {args : List (BitVec 64)}
    (hprints : k = .decimal → bt.Prints a) :
    storedLength bt text (.convert k :: ds) (a :: args) =
      (k.emit text a).length + storedLength bt text ds args := by
  have hgoes : ¬ (k = .decimal ∧ ¬ bt.Prints a) := fun h => h.2 (hprints h.1)
  rw [storedLength, if_neg hgoes, length_emit]

theorem storedLength_stops {bt : LockedBt} {ds : List Directive} {args : List (BitVec 64)}
    (hprints : ¬ bt.Prints a) :
    storedLength bt text (.convert .decimal :: ds) (a :: args) = 0 :=
  if_pos ⟨rfl, hprints⟩

end Width

/-! ## The stores of `caos_strcat` -/

section Strcat

variable {mem : ByteMemory} {dest src stop fuel a : Nat} {text : List UInt8}

/-- A copy into unused bytes stores no more than the string has. -/
theorem strcatStores_lt (h : IsCString mem src text)
    (happart : src + text.length + 1 ≤ dest ∨ dest + text.length ≤ src)
    (ha : a ∈ strcatStores fuel dest src mem) : dest ≤ a ∧ a < dest + text.length := by
  induction text generalizing mem dest src fuel with
  | nil =>
      cases fuel with
      | zero => cases ha
      | succ fuel =>
          have hend : mem src = 0 := h.stored.1
          rw [strcatStores, if_neg (not_not.mpr hend)] at ha
          cases ha
  | cons b text ih =>
      rw [List.length_cons] at happart ⊢
      cases fuel with
      | zero => cases ha
      | succ fuel =>
          obtain ⟨hb, hne⟩ := h.head
          rw [strcatStores, hb, if_pos hne, List.mem_cons] at ha
          rcases ha with rfl | ha
          · omega
          · have hrest : IsCString (Function.update mem dest b) (src + 1) text :=
              h.tail_update (by omega)
            have hlt := ih hrest (by omega) ha
            omega

/-- A string too long for the bytes that are left is stored behind them. -/
theorem stop_mem_strcatStores (h : IsCString mem src text)
    (happart : src + text.length + 1 ≤ dest ∨ stop ≤ src) (hle : dest ≤ stop)
    (hlong : stop < dest + text.length) (hfuel : text.length ≤ fuel) :
    stop ∈ strcatStores fuel dest src mem := by
  induction text generalizing mem dest src fuel with
  | nil =>
      rw [List.length_nil] at hlong
      omega
  | cons b text ih =>
      rw [List.length_cons] at happart hlong hfuel
      obtain ⟨fuel, rfl⟩ : ∃ k, fuel = k + 1 := ⟨fuel - 1, by omega⟩
      obtain ⟨hb, hne⟩ := h.head
      rw [strcatStores, hb, if_pos hne, List.mem_cons]
      rcases Nat.lt_or_eq_of_le hle with hlt | rfl
      · right
        have hrest : IsCString (Function.update mem dest b) (src + 1) text :=
          h.tail_update (by omega)
        exact ih hrest (by omega) (by omega) (by omega) (by omega)
      · exact .inl rfl

end Strcat

/-! ## The record of the stores is complete -/

theorem strcatLoop_frame {mem : ByteMemory} {dest src fuel x : Nat} {r : Nat × ByteMemory}
    (h : strcatLoop fuel dest src mem = some r) (hx : x ∉ strcatStores fuel dest src mem) :
    r.2 x = mem x := by
  induction fuel generalizing dest src mem with
  | zero => simp [strcatLoop] at h
  | succ fuel ih =>
      rw [strcatLoop] at h
      rw [strcatStores] at hx
      split at h
      · next hne =>
          rw [if_pos hne, List.mem_cons, not_or] at hx
          rw [ih h hx.2, Function.update_of_ne hx.1]
      · cases h
        rfl

/-- A byte that is not among the stores is kept. -/
theorem caosVsprintf_frame {bt : LockedBt} {mem : ByteMemory} {str fmt fuel x : Nat}
    {args : List (BitVec 64)} {r : ByteMemory × List (BitVec 64)}
    (h : caosVsprintf bt fuel str fmt args mem = some r)
    (hx : x ∉ vsprintfStores bt fuel str fmt args mem) : r.1 x = mem x := by
  induction fuel generalizing str fmt args mem with
  | zero => simp [caosVsprintf] at h
  | succ fuel ih =>
      have houtside : ∀ {bytes : List UInt8}, x ∉ List.range' str bytes.length →
          storeBytes mem str bytes x = mem x := by
        intro bytes hrange
        rw [List.mem_range'_1] at hrange
        exact storeBytes_of_outside (by omega)
      rw [caosVsprintf] at h
      rw [vsprintfStores] at hx
      split_ifs at h hx with hend hd hx' hs hc
      · cases h
        rw [List.mem_singleton] at hx
        exact Function.update_of_ne hx _ _
      · cases args with
        | nil => cases h
        | cons a args =>
            simp only [vaArg, Option.bind_eq_bind, Option.bind_some] at h hx
            cases hout : printDecimal bt str a mem with
            | none => simp [hout] at h
            | some out =>
                simp only [hout, Option.bind_some] at h hx
                obtain rfl := printDecimal_some hout
                rw [List.mem_append, not_or] at hx
                rw [ih h hx.2]
                exact houtside hx.1
      · cases args with
        | nil => cases h
        | cons a args =>
            simp only [vaArg, Option.bind_eq_bind, Option.bind_some, printHex_eq] at h hx
            rw [List.mem_append, not_or] at hx
            rw [ih h hx.2, houtside hx.1]
      · cases args with
        | nil => cases h
        | cons a args =>
            simp only [vaArg, Option.bind_eq_bind, Option.bind_some] at h hx
            rw [List.mem_append, not_or] at hx
            cases hcat : caosStrcat fuel str a.toNat mem with
            | none => simp [hcat] at h
            | some out =>
                simp only [hcat, Option.bind_some] at h hx
                rw [caosStrcat, Option.map_eq_some_iff] at hcat
                obtain ⟨r', hloop, rfl⟩ := hcat
                rw [ih h hx.2, strcatLoop_frame hloop hx.1]
      · cases args with
        | nil => cases h
        | cons a args =>
            simp only [vaArg, Option.bind_eq_bind, Option.bind_some] at h hx
            rw [List.mem_cons, not_or] at hx
            rw [ih h hx.2, Function.update_of_ne hx.1]
      · rw [List.mem_cons, not_or] at hx
        rw [ih h hx.2, Function.update_of_ne hx.1]

/-! ## The stores of `caos_vsprintf` -/

section Iteration

variable {bt : LockedBt} {mem : ByteMemory} {str stop fmt fuel : Nat} {a : BitVec 64}
  {args : List (BitVec 64)} {text : BitVec 64 → List UInt8} {k : Conversion}
  {b c : UInt8} {rest format : List UInt8}

theorem vsprintfStores_plain (hne : mem fmt ≠ 0)
    (h : conversion (mem fmt) (mem (fmt + 1)) = none) :
    vsprintfStores bt (fuel + 1) str fmt args mem =
      str :: vsprintfStores bt fuel (str + 1) (fmt + 1) args (storeBytes mem str [mem fmt]) := by
  have hd : ¬ (mem fmt = charByte '%' ∧ mem (fmt + 1) = charByte 'd') := not_letter h .decimal
  have hx : ¬ (mem fmt = charByte '%' ∧ mem (fmt + 1) = charByte 'x') := not_letter h .hex
  have hs : ¬ (mem fmt = charByte '%' ∧ mem (fmt + 1) = charByte 's') := not_letter h .string
  have hc : ¬ (mem fmt = charByte '%' ∧ mem (fmt + 1) = charByte 'c') := not_letter h .char
  rw [vsprintfStores, if_neg hne, if_neg hd, if_neg hx, if_neg hs, if_neg hc]
  rfl

/-- A number or a character is stored as a whole. -/
theorem vsprintfStores_convert (h : conversion (mem fmt) (mem (fmt + 1)) = some k)
    (hprints : k = .decimal → bt.Prints a) (hk : k ≠ .string) :
    vsprintfStores bt (fuel + 1) str fmt (a :: args) mem =
      List.range' str (k.emit text a).length ++
        vsprintfStores bt fuel (str + (k.emit text a).length) (fmt + 2) args
          (storeBytes mem str (k.emit text a)) := by
  obtain ⟨hne, hb, hletter, hother⟩ := conversion_tests h
  cases k with
  | decimal =>
      rw [vsprintfStores, if_neg hne, if_pos ⟨hb, hletter⟩]
      simp only [vaArg, printDecimal_eq (hprints rfl), Conversion.emit]
  | hex =>
      rw [vsprintfStores, if_neg hne, if_neg (hother _ (by decide)), if_pos ⟨hb, hletter⟩]
      simp only [vaArg, printHex_eq, Conversion.emit]
  | string => exact absurd rfl hk
  | char =>
      rw [vsprintfStores, if_neg hne, if_neg (hother _ (by decide)), if_neg (hother _ (by decide)),
        if_neg (hother _ (by decide)), if_pos ⟨hb, hletter⟩]
      rfl

/-- A number that `print_decimal` does not return from is not stored. -/
theorem vsprintfStores_stops (h : conversion (mem fmt) (mem (fmt + 1)) = some .decimal)
    (hprints : ¬ bt.Prints a) : vsprintfStores bt (fuel + 1) str fmt (a :: args) mem = [] := by
  obtain ⟨hne, hb, hletter, -⟩ := conversion_tests h
  rw [vsprintfStores, if_neg hne, if_pos ⟨hb, hletter⟩]
  simp only [vaArg, printDecimal_eq_none hprints]

theorem vsprintfStores_string
    (h : conversion (mem fmt) (mem (fmt + 1)) = some .string) :
    vsprintfStores bt (fuel + 1) str fmt (a :: args) mem =
      strcatStores fuel str a.toNat mem ++
        match caosStrcat fuel str a.toNat mem with
        | none => []
        | some (digitNum, mem) => vsprintfStores bt fuel (str + digitNum) (fmt + 2) args mem := by
  obtain ⟨hne, hb, hletter, hother⟩ := conversion_tests h
  rw [vsprintfStores, if_neg hne, if_neg (hother _ (by decide)), if_neg (hother _ (by decide)),
    if_pos ⟨hb, hletter⟩]
  simp only [vaArg]

end Iteration

section Run

variable {bt : LockedBt} {text : BitVec 64 → List UInt8} {mem : ByteMemory}
  {str stop fmt fuel x : Nat} {format rest : List UInt8} {a : BitVec 64}
  {args : List (BitVec 64)} {b c : UInt8} {k : Conversion}

theorem vsprintfStores_end (h : Callable text mem str stop fmt [] args) :
    vsprintfStores bt (fuel + 1) str fmt args mem = [str] := by
  have hend : mem fmt = 0 := h.format_at.stored.1
  rw [vsprintfStores, if_pos hend]

theorem vsprintfStores_of_plain (h : Callable text mem str stop fmt (b :: rest) args)
    (hnone : conversion b (rest.headD 0) = none) :
    vsprintfStores bt (fuel + 1) str fmt args mem =
      str :: vsprintfStores bt fuel (str + 1) (fmt + 1) args (storeBytes mem str [b]) := by
  obtain ⟨hb, hne⟩ := h.format_at.head
  rw [vsprintfStores_plain (by rwa [hb]) (by rwa [hb, h.format_at.second]), hb]

/-- The stores of a conversion that fits, and those behind it. -/
theorem mem_stores_convert (h : Callable text mem str stop fmt (b :: c :: rest) (a :: args))
    (hconv : conversion b c = some k) (hprints : k = .decimal → bt.Prints a)
    (hfits : str + (k.emit text a).length ≤ stop)
    (hx : x ∈ vsprintfStores bt (fuel + 1) str fmt (a :: args) mem) :
    str ≤ x ∧ x < str + (k.emit text a).length ∨
      x ∈ vsprintfStores bt fuel (str + (k.emit text a).length) (fmt + 2) args
        (storeBytes mem str (k.emit text a)) := by
  by_cases hk : k = .string
  · subst hk
    obtain ⟨htext, happart⟩ := h.string_arg hconv
    have happart' : a.toNat + (text a).length + 1 ≤ str ∨ str + (text a).length ≤ a.toNat := by
      rw [Conversion.emit] at hfits
      omega
    rw [vsprintfStores_string (h.conversion_at hconv), List.mem_append] at hx
    rcases hx with hstore | hbehind
    · exact .inl (strcatStores_lt htext happart' hstore)
    · right
      cases hcat : caosStrcat fuel str a.toNat mem with
      | none => simp [hcat] at hbehind
      | some out =>
          have hlong := caosStrcat_mono hcat (Nat.le_max_left fuel ((text a).length + 1))
          have hout := caosStrcat_eq htext happart'
            (Nat.lt_of_succ_le (Nat.le_max_right fuel ((text a).length + 1)))
          rw [hlong, Option.some.injEq] at hout
          rw [hcat, hout] at hbehind
          exact hbehind
  · rw [vsprintfStores_convert (h.conversion_at hconv) hprints hk, List.mem_append,
      List.mem_range'_1] at hx
    exact hx

/-- A text that fits is stored as a whole, and nothing behind it. -/
theorem vsprintfStores_lt (h : Callable text mem str stop fmt format args)
    (hfits : str + storedLength bt text (directives format) args ≤ stop)
    (hx : x ∈ vsprintfStores bt fuel str fmt args mem) :
    str ≤ x ∧ x < str + storedLength bt text (directives format) args := by
  induction format using directives.induct generalizing mem str fmt args fuel with
  | case1 =>
      cases fuel with
      | zero => cases hx
      | succ fuel =>
          rw [vsprintfStores_end h, List.mem_singleton] at hx
          rw [directives, storedLength]
          omega
  | case2 b =>
      have hparse := @directives_plain b [] (conversion_nul b)
      rw [hparse, storedLength, directives, storedLength] at hfits ⊢
      cases fuel with
      | zero => cases hx
      | succ fuel =>
          rw [vsprintfStores_of_plain h (conversion_nul b), List.mem_cons] at hx
          rcases hx with rfl | hx
          · omega
          · cases fuel with
            | zero => cases hx
            | succ fuel =>
                rw [vsprintfStores_end (h.behind_plain hparse (by omega)),
                  List.mem_singleton] at hx
                omega
  | case3 b c rest k hconv ih =>
      obtain ⟨a, args, rfl⟩ := h.args_cons hconv
      cases fuel with
      | zero => cases hx
      | succ fuel =>
          by_cases hprints : k = .decimal → bt.Prints a
          · rw [directives_convert hconv, storedLength_convert hprints] at hfits ⊢
            rcases mem_stores_convert h hconv hprints (by omega) hx with hstore | hbehind
            · omega
            · have hlt := ih (h.behind_convert hconv (by omega)) (by omega) hbehind
              omega
          · obtain ⟨rfl, hnot⟩ := Classical.not_imp.mp hprints
            rw [vsprintfStores_stops (h.conversion_at hconv) hnot] at hx
            cases hx
  | case4 b c rest hnone ih =>
      have hparse := @directives_plain b (c :: rest) hnone
      rw [hparse, storedLength] at hfits ⊢
      cases fuel with
      | zero => cases hx
      | succ fuel =>
          rw [vsprintfStores_of_plain h hnone, List.mem_cons] at hx
          rcases hx with rfl | hx
          · omega
          · have hlt := ih (h.behind_plain hparse (by omega)) (by omega) hx
            omega

/-- A conversion too long for the bytes that are left is stored behind them. -/
theorem stop_mem_convert (h : Callable text mem str stop fmt (b :: c :: rest) (a :: args))
    (hconv : conversion b c = some k) (hprints : k = .decimal → bt.Prints a)
    (hle : str ≤ stop) (hlong : stop < str + (k.emit text a).length)
    (hfuel : (k.emit text a).length ≤ fuel) :
    stop ∈ vsprintfStores bt (fuel + 1) str fmt (a :: args) mem := by
  by_cases hk : k = .string
  · subst hk
    obtain ⟨htext, happart⟩ := h.string_arg hconv
    rw [vsprintfStores_string (h.conversion_at hconv), List.mem_append]
    exact .inl (stop_mem_strcatStores htext happart hle hlong hfuel)
  · rw [vsprintfStores_convert (h.conversion_at hconv) hprints hk, List.mem_append,
      List.mem_range'_1]
    exact .inl ⟨hle, hlong⟩

/-- The stores behind a conversion that fits. -/
theorem mem_stores_behind (h : Callable text mem str stop fmt (b :: c :: rest) (a :: args))
    (hconv : conversion b c = some k) (hprints : k = .decimal → bt.Prints a)
    (hfits : str + (k.emit text a).length ≤ stop) (hfuel : (k.emit text a).length < fuel)
    (hx : x ∈ vsprintfStores bt fuel (str + (k.emit text a).length) (fmt + 2) args
      (storeBytes mem str (k.emit text a))) :
    x ∈ vsprintfStores bt (fuel + 1) str fmt (a :: args) mem := by
  by_cases hk : k = .string
  · subst hk
    obtain ⟨htext, happart⟩ := h.string_arg hconv
    rw [Conversion.emit] at hfits
    rw [vsprintfStores_string (h.conversion_at hconv), List.mem_append,
      caosStrcat_eq htext (by omega) hfuel]
    exact .inr hx
  · rw [vsprintfStores_convert (h.conversion_at hconv) hprints hk, List.mem_append]
    exact .inr hx

/-- A text that does not fit is stored behind the buffer. -/
theorem stop_mem_vsprintfStores (h : Callable text mem str stop fmt format args)
    (hle : str ≤ stop) (hlong : stop < str + storedLength bt text (directives format) args)
    (hfuel : format.length + storedLength bt text (directives format) args < fuel) :
    stop ∈ vsprintfStores bt fuel str fmt args mem := by
  obtain ⟨fuel, rfl⟩ : ∃ k, fuel = k + 1 := ⟨fuel - 1, by omega⟩
  induction format using directives.induct generalizing mem str fmt args fuel with
  | case1 =>
      rw [directives, storedLength] at hlong
      rw [vsprintfStores_end h, List.mem_singleton]
      omega
  | case2 b =>
      have hparse := @directives_plain b [] (conversion_nul b)
      rw [hparse, storedLength, directives, storedLength] at hlong hfuel
      rw [vsprintfStores_of_plain h (conversion_nul b), List.mem_cons]
      rcases Nat.lt_or_eq_of_le hle with hlt | heq
      · right
        obtain ⟨fuel, rfl⟩ : ∃ k, fuel = k + 1 := ⟨fuel - 1, by omega⟩
        rw [vsprintfStores_end (h.behind_plain hparse hlt), List.mem_singleton]
        omega
      · exact .inl heq.symm
  | case3 b c rest k hconv ih =>
      obtain ⟨a, args, rfl⟩ := h.args_cons hconv
      rw [directives_convert hconv] at hlong hfuel
      by_cases hprints : k = .decimal → bt.Prints a
      · rw [storedLength_convert hprints] at hlong hfuel
        rw [List.length_cons, List.length_cons] at hfuel
        by_cases hfits : str + (k.emit text a).length ≤ stop
        · obtain ⟨fuel, rfl⟩ : ∃ k, fuel = k + 1 := ⟨fuel - 1, by omega⟩
          apply mem_stores_behind h hconv hprints hfits (by omega)
          exact ih (h.behind_convert hconv hfits) hfits (by omega) fuel (by omega)
        · exact stop_mem_convert h hconv hprints hle (by omega) (by omega)
      · obtain ⟨rfl, hnot⟩ := Classical.not_imp.mp hprints
        rw [storedLength_stops hnot] at hlong
        omega
  | case4 b c rest hnone ih =>
      have hparse := @directives_plain b (c :: rest) hnone
      rw [hparse, storedLength] at hlong hfuel
      rw [List.length_cons] at hfuel
      rw [vsprintfStores_of_plain h hnone, List.mem_cons]
      rcases Nat.lt_or_eq_of_le hle with hlt | heq
      · right
        obtain ⟨fuel, rfl⟩ : ∃ k, fuel = k + 1 := ⟨fuel - 1, by omega⟩
        exact ih (h.behind_plain hparse hlt) hlt (by omega) fuel (by omega)
      · exact .inl heq.symm

end Run

/-- The bytes stored while `caos_printf` formats stay in its buffer exactly if there are no
more than 128 of them: the text and its NUL, or the text in front of a number that
`print_decimal` does not return from. -/
theorem printf_stays_iff {bt : LockedBt} {text : BitVec 64 → List UInt8} {mem : ByteMemory}
    {sz fmt : Nat} {format : List UInt8} {args : List (BitVec 64)}
    (h : Callable text mem sz (sz + szSize) fmt format args) :
    StaysInBuffer bt sz fmt args mem ↔
      storedLength bt text (directives format) args ≤ szSize := by
  constructor
  · intro hstays
    by_contra hgt
    have hout := @stop_mem_vsprintfStores bt _ _ _ _ _ _ _ _ h (by omega) (by omega)
      (Nat.lt_succ_self _)
    have hlt := hstays _ _ hout
    omega
  · intro hle fuel a ha
    have hlt := vsprintfStores_lt h (by omega) ha
    omega

/-- `caos_printf("AB")`. -/
theorem short_text_stays :
    StaysInBuffer .invalidOpcode 256 0 [] (memoryOf (literal "AB" ++ [0])) := by
  have hcall : Callable (fun _ => []) (memoryOf (literal "AB" ++ [0])) 256 (256 + szSize) 0
      (literal "AB") [] :=
    .of_no_args ⟨by decide, by decide⟩ (by decide) (by decide)
  exact (printf_stays_iff hcall).mpr (by decide)

/-- `caos_printf("%s", s)` for a string of 128 characters. -/
theorem long_string_overruns :
    ¬ ∀ (text : BitVec 64 → List UInt8) (mem : ByteMemory) (sz fmt : Nat)
      (format : List UInt8) (args : List (BitVec 64)),
      Callable text mem sz (sz + szSize) fmt format args →
      StaysInBuffer .invalidOpcode sz fmt args mem := by
  intro h
  let name := List.replicate 128 (charByte 'a')
  let mem := memoryOf (literal "%s" ++ [0] ++ (name ++ [0]) ++ [])
  have hname : IsCString mem 3 name :=
    ⟨storedAt_memoryOf (literal "%s" ++ [0]) (name ++ [0]) [],
      fun hmem => absurd (List.eq_of_mem_replicate hmem) (by decide)⟩
  have hlength : name.length = 128 := List.length_replicate
  have happart : (3#64).toNat + name.length + 1 ≤ 256 := by
    rw [hlength]
    decide
  have hcall : Callable (fun _ => name) mem 256 (256 + szSize) 0 (literal "%s") [3] :=
    ⟨⟨by decide, by decide⟩, by decide, by decide, List.forall_mem_singleton.mpr hname,
      List.forall_mem_singleton.mpr (.inl happart)⟩
  have hdirectives : directives (literal "%s") = [.convert .string] := by decide
  have hstored : storedLength .invalidOpcode (fun _ => name) (directives (literal "%s")) [3] =
      129 := by
    rw [hdirectives, storedLength_convert (by decide), Conversion.emit, hlength, storedLength]
  have hout := stop_mem_vsprintfStores hcall (by decide) (by rw [hstored]; decide)
    (Nat.lt_succ_self _)
  have hlt := h _ _ _ _ _ _ hcall _ _ hout
  omega

end Caos
