import Caos.CString
import Caos.Console.Format

/-!
`caos_vsprintf` against the meaning of a format: a sequence of plain characters and
conversions, each of which takes the next argument. A percent sign that no conversion
follows is a plain character, and the scan goes on right behind it. A call does not return
from a number that `print_decimal` does not return from.
-/

namespace Caos

open Lib

/-- `va_arg` on the words that are left; every argument is one of 64 bits. -/
def vaArg : List (BitVec 64) → Option (BitVec 64 × List (BitVec 64))
  | [] => none
  | a :: args => some (a, args)

/-- `caos_vsprintf`: memory afterwards and the arguments left over. `none` is an
argument too few, an invalid opcode, or more iterations than `fuel`. -/
def caosVsprintf (bt : LockedBt) : Nat → Nat → Nat → List (BitVec 64) → ByteMemory →
    Option (ByteMemory × List (BitVec 64))
  | 0, _, _, _, _ => none
  | fuel + 1, str, fmt, args, mem =>
    if mem fmt = 0 then some (Function.update mem str 0, args)
    else if mem fmt = charByte '%' ∧ mem (fmt + 1) = charByte 'd' then do
      let (argValue, args) ← vaArg args
      let (digitNum, mem) ← printDecimal bt str argValue mem
      caosVsprintf bt fuel (str + digitNum) (fmt + 2) args mem
    else if mem fmt = charByte '%' ∧ mem (fmt + 1) = charByte 'x' then do
      let (argValue, args) ← vaArg args
      let (digitNum, mem) ← printHex str argValue mem
      caosVsprintf bt fuel (str + digitNum) (fmt + 2) args mem
    else if mem fmt = charByte '%' ∧ mem (fmt + 1) = charByte 's' then do
      let (argValue, args) ← vaArg args
      let (digitNum, mem) ← caosStrcat fuel str argValue.toNat mem
      caosVsprintf bt fuel (str + digitNum) (fmt + 2) args mem
    else if mem fmt = charByte '%' ∧ mem (fmt + 1) = charByte 'c' then do
      let (argValue, args) ← vaArg args
      caosVsprintf bt fuel (str + 1) (fmt + 2) args
        (Function.update mem str (.ofNat argValue.toNat))
    else
      caosVsprintf bt fuel (str + 1) (fmt + 1) args (Function.update mem str (mem fmt))

/-- The conversions a format can ask for. -/
inductive Conversion
  | decimal | hex | string | char
  deriving DecidableEq, Repr

/-- The character behind the percent sign. -/
def Conversion.letter : Conversion → UInt8
  | .decimal => charByte 'd'
  | .hex => charByte 'x'
  | .string => charByte 's'
  | .char => charByte 'c'

/-- A format is made of plain characters and conversions. -/
inductive Directive
  | plain (b : UInt8)
  | convert (k : Conversion)
  deriving DecidableEq, Repr

/-- The conversion two characters stand for, if any. -/
def conversion (b c : UInt8) : Option Conversion :=
  if b = charByte '%' then
    [Conversion.decimal, .hex, .string, .char].find? fun k => c = k.letter
  else none

/-- The meaning of a format. -/
def directives : List UInt8 → List Directive
  | [] => []
  | [b] => [.plain b]
  | b :: c :: rest =>
    match conversion b c with
    | some k => .convert k :: directives rest
    | none => .plain b :: directives (c :: rest)

/-- What a conversion makes of its argument, where `text` gives the strings that
arguments point to. -/
def Conversion.emit (text : BitVec 64 → List UInt8) : Conversion → BitVec 64 → List UInt8
  | .decimal, a => decimalBytes a
  | .hex, a => hexBytes a
  | .string, a => text a
  | .char, a => [.ofNat a.toNat]

/-- The output of a format, without the NUL. -/
def formatOutput (text : BitVec 64 → List UInt8) :
    List Directive → List (BitVec 64) → List UInt8
  | [], _ => []
  | .plain b :: ds, args => b :: formatOutput text ds args
  | .convert _ :: _, [] => []
  | .convert k :: ds, a :: args => k.emit text a ++ formatOutput text ds args

/-- The number of arguments a format takes. -/
def argCount : List Directive → Nat
  | [] => 0
  | .plain _ :: ds => argCount ds
  | .convert _ :: ds => argCount ds + 1

/-- The arguments that one conversion prints. -/
def argsOf (k : Conversion) : List Directive → List (BitVec 64) → List (BitVec 64)
  | [], _ => []
  | .plain _ :: ds, args => argsOf k ds args
  | .convert _ :: _, [] => []
  | .convert j :: ds, a :: args => if j = k then a :: argsOf k ds args else argsOf k ds args

/-- A call the function can be expected to serve: the format is a string, there are
enough arguments, those printed as strings point to strings, and neither the format
nor they overlap the bytes to be written. -/
structure Printable (text : BitVec 64 → List UInt8) (mem : ByteMemory) (str fmt : Nat)
    (format : List UInt8) (args : List (BitVec 64)) : Prop where
  format_at : IsCString mem fmt format
  args_enough : argCount (directives format) ≤ args.length
  format_apart : fmt + format.length + 1 ≤ str ∨
    str + (formatOutput text (directives format) args).length + 1 ≤ fmt
  strings_at : ∀ p ∈ argsOf .string (directives format) args, IsCString mem p.toNat (text p)
  strings_apart : ∀ p ∈ argsOf .string (directives format) args,
    p.toNat + (text p).length + 1 ≤ str ∨
      str + (formatOutput text (directives format) args).length + 1 ≤ p.toNat

/-- What a caller hands over: strings, enough arguments, and nothing that overlaps the
bytes from `str` to `stop`. -/
structure Callable (text : BitVec 64 → List UInt8) (mem : ByteMemory) (str stop fmt : Nat)
    (format : List UInt8) (args : List (BitVec 64)) : Prop where
  format_at : IsCString mem fmt format
  args_enough : argCount (directives format) ≤ args.length
  format_apart : fmt + format.length + 1 ≤ str ∨ stop ≤ fmt
  strings_at : ∀ p ∈ argsOf .string (directives format) args, IsCString mem p.toNat (text p)
  strings_apart : ∀ p ∈ argsOf .string (directives format) args,
    p.toNat + (text p).length + 1 ≤ str ∨ stop ≤ p.toNat

section Parse

variable {b c : UInt8} {k : Conversion} {rest : List UInt8}

theorem conversion_eq_some (h : conversion b c = some k) :
    b = charByte '%' ∧ c = k.letter := by
  rw [conversion] at h
  split at h
  · next hb => exact ⟨hb, by simpa using List.find?_some h⟩
  · cases h

theorem conversion_letter (k : Conversion) :
    conversion (charByte '%') k.letter = some k := by
  cases k <;> decide

/-- At a conversion the scan goes on past its end and past the tests for the other letters. -/
theorem conversion_tests (h : conversion b c = some k) :
    b ≠ 0 ∧ b = charByte '%' ∧ c = k.letter ∧
      ∀ c', k.letter ≠ c' → ¬ (b = charByte '%' ∧ c = c') := by
  obtain ⟨rfl, rfl⟩ := conversion_eq_some h
  exact ⟨by decide, rfl, rfl, fun c' hc hand => hc hand.2⟩

/-- A plain character starts no conversion. -/
theorem not_letter (h : conversion b c = none) (k : Conversion) :
    ¬ (b = charByte '%' ∧ c = k.letter) := by
  rintro ⟨rfl, rfl⟩
  rw [conversion_letter] at h
  cases h

/-- The end of a format ends a percent sign. -/
theorem conversion_nul (b : UInt8) : conversion b 0 = none := by
  rw [conversion]
  split
  · decide
  · rfl

theorem directives_convert (h : conversion b c = some k) :
    directives (b :: c :: rest) = .convert k :: directives rest := by
  rw [directives, h]

theorem directives_plain (h : conversion b (rest.headD 0) = none) :
    directives (b :: rest) = .plain b :: directives rest := by
  cases rest with
  | nil => rfl
  | cons c rest =>
      rw [List.headD_cons] at h
      rw [directives, h]

end Parse

section Iteration

variable {bt : LockedBt} {mem : ByteMemory} {str fmt fuel : Nat} {a : BitVec 64}
  {args : List (BitVec 64)} {text : BitVec 64 → List UInt8} {k : Conversion}

/-- One iteration at a plain character. -/
theorem caosVsprintf_plain (hne : mem fmt ≠ 0)
    (h : conversion (mem fmt) (mem (fmt + 1)) = none) :
    caosVsprintf bt (fuel + 1) str fmt args mem =
      caosVsprintf bt fuel (str + 1) (fmt + 1) args (storeBytes mem str [mem fmt]) := by
  have hd : ¬ (mem fmt = charByte '%' ∧ mem (fmt + 1) = charByte 'd') := not_letter h .decimal
  have hx : ¬ (mem fmt = charByte '%' ∧ mem (fmt + 1) = charByte 'x') := not_letter h .hex
  have hs : ¬ (mem fmt = charByte '%' ∧ mem (fmt + 1) = charByte 's') := not_letter h .string
  have hc : ¬ (mem fmt = charByte '%' ∧ mem (fmt + 1) = charByte 'c') := not_letter h .char
  rw [caosVsprintf, if_neg hne, if_neg hd, if_neg hx, if_neg hs, if_neg hc]
  rfl

/-- One iteration at a conversion: it stores what the conversion emits, advances by
that much and takes one argument. -/
theorem caosVsprintf_convert (h : conversion (mem fmt) (mem (fmt + 1)) = some k)
    (hprints : k = .decimal → bt.Prints a)
    (hstring : k = .string → IsCString mem a.toNat (text a) ∧ (text a).length < fuel ∧
      (a.toNat + (text a).length + 1 ≤ str ∨ str + (text a).length ≤ a.toNat)) :
    caosVsprintf bt (fuel + 1) str fmt (a :: args) mem =
      caosVsprintf bt fuel (str + (k.emit text a).length) (fmt + 2) args
        (storeBytes mem str (k.emit text a)) := by
  obtain ⟨hne, hb, hletter, hother⟩ := conversion_tests h
  cases k with
  | decimal =>
      rw [caosVsprintf, if_neg hne, if_pos ⟨hb, hletter⟩]
      simp only [vaArg, Option.bind_eq_bind, Option.bind_some, printDecimal_eq (hprints rfl),
        Conversion.emit]
  | hex =>
      rw [caosVsprintf, if_neg hne, if_neg (hother _ (by decide)), if_pos ⟨hb, hletter⟩]
      simp only [vaArg, Option.bind_eq_bind, Option.bind_some, printHex_eq, Conversion.emit]
  | string =>
      obtain ⟨htext, hfuel, happart⟩ := hstring rfl
      rw [caosVsprintf, if_neg hne, if_neg (hother _ (by decide)), if_neg (hother _ (by decide)),
        if_pos ⟨hb, hletter⟩]
      simp only [vaArg, Option.bind_eq_bind, Option.bind_some,
        caosStrcat_eq htext happart hfuel, Conversion.emit]
  | char =>
      rw [caosVsprintf, if_neg hne, if_neg (hother _ (by decide)), if_neg (hother _ (by decide)),
        if_neg (hother _ (by decide)), if_pos ⟨hb, hletter⟩]
      rfl

/-- A number that `print_decimal` does not return from ends the run. -/
theorem caosVsprintf_stops (h : conversion (mem fmt) (mem (fmt + 1)) = some .decimal)
    (hprints : ¬ bt.Prints a) :
    caosVsprintf bt (fuel + 1) str fmt (a :: args) mem = none := by
  obtain ⟨hne, hb, hletter, -⟩ := conversion_tests h
  rw [caosVsprintf, if_neg hne, if_pos ⟨hb, hletter⟩]
  simp only [vaArg, Option.bind_eq_bind, Option.bind_some, printDecimal_eq_none hprints]
  rfl

end Iteration

section Run

variable {bt : LockedBt} {text : BitVec 64 → List UInt8} {mem : ByteMemory} {str stop fmt : Nat}
  {format rest : List UInt8} {a : BitVec 64} {args : List (BitVec 64)} {b c : UInt8}
  {k : Conversion}

/-- A call can be served if it keeps clear of the bytes of its output. -/
theorem printable_iff : Printable text mem str fmt format args ↔
    Callable text mem str (str + (formatOutput text (directives format) args).length + 1) fmt
      format args :=
  ⟨fun h => ⟨h.1, h.2, h.3, h.4, h.5⟩, fun h => ⟨h.1, h.2, h.3, h.4, h.5⟩⟩

theorem argsOf_nil (ds : List Directive) : argsOf k ds [] = [] := by
  induction ds with
  | nil => rfl
  | cons d ds ih =>
      cases d with
      | plain b => exact ih
      | convert k => rfl

theorem forall_argsOf_nil {P : BitVec 64 → Prop} (ds : List Directive) :
    ∀ a ∈ argsOf k ds [], P a := by
  rw [argsOf_nil]
  exact List.forall_mem_nil _

/-- A call without arguments. -/
theorem Callable.of_no_args (hformat : IsCString mem fmt format)
    (hargs : argCount (directives format) = 0)
    (happart : fmt + format.length + 1 ≤ str ∨ stop ≤ fmt) :
    Callable text mem str stop fmt format [] :=
  ⟨hformat, hargs.le, happart, forall_argsOf_nil _, forall_argsOf_nil _⟩

/-- The character behind the first one of a string, which may be its NUL. -/
theorem IsCString.second {src : Nat} (h : IsCString mem src (b :: rest)) :
    mem (src + 1) = rest.headD 0 := by
  cases rest with
  | nil => exact h.stored.2.1
  | cons c rest => exact h.stored.2.1

theorem Callable.conversion_at (h : Callable text mem str stop fmt (b :: c :: rest) args)
    (hconv : conversion b c = some k) : conversion (mem fmt) (mem (fmt + 1)) = some k := by
  rw [h.format_at.head.1, h.format_at.second]
  exact hconv

/-- A string argument at the head of the arguments. -/
theorem Callable.string_arg (h : Callable text mem str stop fmt (b :: c :: rest) (a :: args))
    (hconv : conversion b c = some .string) : IsCString mem a.toNat (text a) ∧
      (a.toNat + (text a).length + 1 ≤ str ∨ stop ≤ a.toNat) := by
  have hmem : a ∈ argsOf .string (directives (b :: c :: rest)) (a :: args) := by
    rw [directives_convert hconv, argsOf, if_pos rfl]
    exact List.mem_cons_self
  exact ⟨h.strings_at a hmem, h.strings_apart a hmem⟩

theorem Callable.args_cons (h : Callable text mem str stop fmt (b :: c :: rest) args)
    (hconv : conversion b c = some k) : ∃ a args', args = a :: args' := by
  have hargs := h.args_enough
  rw [directives_convert hconv, argCount] at hargs
  exact List.exists_cons_of_length_pos (by omega)

/-- What is left to hand over behind a plain character. -/
theorem Callable.behind_plain (h : Callable text mem str stop fmt (b :: rest) args)
    (hplain : directives (b :: rest) = .plain b :: directives rest) (hlt : str < stop) :
    Callable text (storeBytes mem str [b]) (str + 1) stop (fmt + 1) rest args := by
  obtain ⟨hformat, hargs, hapart, hstrings, hstrApart⟩ := h
  rw [hplain, argsOf] at hstrings hstrApart
  rw [hplain, argCount] at hargs
  rw [List.length_cons] at hapart
  refine ⟨hformat.tail.storeBytes ?_, hargs, by omega, ?_, ?_⟩
  · rw [List.length_singleton]
    omega
  · intro p hp
    have hp' := hstrApart p hp
    exact (hstrings p hp).storeBytes (by rw [List.length_singleton]; omega)
  · intro p hp
    have hp' := hstrApart p hp
    omega

/-- What is left to hand over behind a conversion that fits. -/
theorem Callable.behind_convert (h : Callable text mem str stop fmt (b :: c :: rest) (a :: args))
    (hconv : conversion b c = some k) (hfits : str + (k.emit text a).length ≤ stop) :
    Callable text (storeBytes mem str (k.emit text a)) (str + (k.emit text a).length) stop
      (fmt + 2) rest args := by
  obtain ⟨hformat, hargs, hapart, hstrings, hstrApart⟩ := h
  have hsub : ∀ p ∈ argsOf .string (directives rest) args,
      p ∈ argsOf .string (directives (b :: c :: rest)) (a :: args) := by
    intro p hp
    rw [directives_convert hconv, argsOf]
    split
    · exact List.mem_cons_of_mem _ hp
    · exact hp
  rw [directives_convert hconv, argCount, List.length_cons] at hargs
  rw [List.length_cons, List.length_cons] at hapart
  refine ⟨hformat.tail.tail.storeBytes (by omega), by omega, by omega, ?_, ?_⟩
  · intro p hp
    have hp' := hstrApart p (hsub p hp)
    exact (hstrings p (hsub p hp)).storeBytes (by omega)
  · intro p hp
    have hp' := hstrApart p (hsub p hp)
    omega

/-- What is left to print behind a plain character. -/
theorem Printable.behind_plain (h : Printable text mem str fmt (b :: rest) args)
    (hplain : directives (b :: rest) = .plain b :: directives rest) :
    Printable text (storeBytes mem str [b]) (str + 1) (fmt + 1) rest args := by
  have hstop : str + (formatOutput text (directives (b :: rest)) args).length + 1 =
      str + 1 + (formatOutput text (directives rest) args).length + 1 := by
    rw [hplain, formatOutput, List.length_cons]
    omega
  rw [printable_iff, hstop] at h
  exact printable_iff.mpr (h.behind_plain hplain (by omega))

/-- What is left to print behind a conversion. -/
theorem Printable.behind_convert (h : Printable text mem str fmt (b :: c :: rest) (a :: args))
    (hconv : conversion b c = some k) :
    Printable text (storeBytes mem str (k.emit text a)) (str + (k.emit text a).length)
      (fmt + 2) rest args := by
  have hstop : str + (formatOutput text (directives (b :: c :: rest)) (a :: args)).length + 1 =
      str + (k.emit text a).length + (formatOutput text (directives rest) args).length + 1 := by
    rw [directives_convert hconv, formatOutput, List.length_append]
    omega
  rw [printable_iff, hstop] at h
  exact printable_iff.mpr (h.behind_convert hconv (by omega))

theorem Printable.string_arg (h : Printable text mem str fmt (b :: c :: rest) (a :: args))
    (hconv : conversion b c = some k) (hk : k = .string) :
    IsCString mem a.toNat (text a) ∧
      (a.toNat + (text a).length + 1 ≤ str ∨ str + (text a).length ≤ a.toNat) := by
  subst hk
  obtain ⟨htext, happart⟩ := (printable_iff.mp h).string_arg hconv
  rw [directives_convert hconv, formatOutput, List.length_append, Conversion.emit] at happart
  exact ⟨htext, by omega⟩

/-- A plain character and then the rest of the run. -/
theorem caosVsprintf_of_plain {fuel : Nat} (h : Printable text mem str fmt (b :: rest) args)
    (hnone : conversion b (rest.headD 0) = none) :
    caosVsprintf bt (fuel + 1) str fmt args mem =
      caosVsprintf bt fuel (str + 1) (fmt + 1) args (storeBytes mem str [b]) := by
  obtain ⟨hb, hne⟩ := h.format_at.head
  rw [caosVsprintf_plain (by rwa [hb]) (by rwa [hb, h.format_at.second]), hb]

/-- The numbers behind a conversion that can be printed are those that are left to print. -/
theorem prints_convert (hprints : k = .decimal → bt.Prints a) (ds : List Directive) :
    (∀ x ∈ argsOf .decimal (.convert k :: ds) (a :: args), bt.Prints x) ↔
      ∀ x ∈ argsOf .decimal ds args, bt.Prints x := by
  rw [argsOf]
  split
  · next hk => rw [List.forall_mem_cons, and_iff_right (hprints hk)]
  · rfl

/-- `caos_vsprintf` writes the output of the format and a NUL, nothing else, and takes
the arguments of the format, unless a number ends the run. -/
theorem caosVsprintf_run {fuel : Nat} (h : Printable text mem str fmt format args)
    (hfuel : format.length + (formatOutput text (directives format) args).length < fuel) :
    caosVsprintf bt fuel str fmt args mem =
      if ∀ a ∈ argsOf .decimal (directives format) args, bt.Prints a then
        some (storeBytes mem str (formatOutput text (directives format) args ++ [0]),
          args.drop (argCount (directives format)))
      else none := by
  obtain ⟨fuel, rfl⟩ : ∃ k, fuel = k + 1 := ⟨fuel - 1, by omega⟩
  induction format using directives.induct generalizing mem str fmt args fuel with
  | case1 =>
      have hend : mem fmt = 0 := h.format_at.stored.1
      rw [caosVsprintf, if_pos hend, directives, argsOf, if_pos (List.forall_mem_nil _)]
      rfl
  | case2 b =>
      have hparse := @directives_plain b [] (conversion_nul b)
      rw [hparse, formatOutput, List.length_cons, List.length_cons] at hfuel
      obtain ⟨fuel, rfl⟩ : ∃ k, fuel = k + 1 := ⟨fuel - 1, by omega⟩
      have hend : storeBytes mem str [b] (fmt + 1) = 0 :=
        (h.behind_plain hparse).format_at.stored.1
      rw [caosVsprintf_of_plain h (conversion_nul b), caosVsprintf, if_pos hend, hparse, argsOf,
        directives, argsOf, if_pos (List.forall_mem_nil _)]
      rfl
  | case3 b c rest k hconv ih =>
      obtain ⟨a, args, rfl⟩ := (printable_iff.mp h).args_cons hconv
      have hconv' := (printable_iff.mp h).conversion_at hconv
      have hbehind := h.behind_convert hconv
      have hstring := h.string_arg hconv
      rw [directives_convert hconv, formatOutput] at hfuel ⊢
      simp only [List.length_append, List.length_cons] at hfuel
      obtain ⟨fuel, rfl⟩ : ∃ k, fuel = k + 1 := ⟨fuel - 1, by omega⟩
      have hready : k = .string → IsCString mem a.toNat (text a) ∧
          (text a).length < fuel + 1 ∧
          (a.toNat + (text a).length + 1 ≤ str ∨ str + (text a).length ≤ a.toNat) := by
        intro hk
        obtain ⟨htext, happart⟩ := hstring hk
        rw [hk, Conversion.emit] at hfuel
        exact ⟨htext, by omega, happart⟩
      by_cases hprints : k = .decimal → bt.Prints a
      · rw [caosVsprintf_convert hconv' hprints hready, ih hbehind fuel (by omega), argCount,
          List.drop_succ_cons, List.append_assoc, ← storeBytes_append,
          if_congr (prints_convert hprints _) rfl rfl]
      · obtain ⟨rfl, hnot⟩ := Classical.not_imp.mp hprints
        have hmem : a ∈ argsOf .decimal (.convert .decimal :: directives rest) (a :: args) := by
          rw [argsOf, if_pos rfl]
          exact List.mem_cons_self
        rw [caosVsprintf_stops hconv' hnot, if_neg fun hall => hnot (hall a hmem)]
  | case4 b c rest hnone ih =>
      have hparse := @directives_plain b (c :: rest) hnone
      rw [hparse, formatOutput] at hfuel
      simp only [List.length_cons] at hfuel ih
      obtain ⟨fuel, rfl⟩ : ∃ k, fuel = k + 1 := ⟨fuel - 1, by omega⟩
      rw [caosVsprintf_of_plain h hnone, ih (h.behind_plain hparse) fuel (by omega), hparse,
        formatOutput, List.cons_append, argCount, argsOf]
      rfl

theorem caosVsprintf_eq {fuel : Nat} (h : Printable text mem str fmt format args)
    (hprints : ∀ a ∈ argsOf .decimal (directives format) args, bt.Prints a)
    (hfuel : format.length + (formatOutput text (directives format) args).length < fuel) :
    caosVsprintf bt fuel str fmt args mem =
      some (storeBytes mem str (formatOutput text (directives format) args ++ [0]),
        args.drop (argCount (directives format))) :=
  (caosVsprintf_run h hfuel).trans (if_pos hprints)

end Run

/-- The call ends with the output of the format and a NUL in the buffer, has taken the
arguments of the format and changed no other byte. What `print_decimal` and `print_hex`
emit does not depend on where they emit it. -/
structure Compositional (bt : LockedBt) (text : BitVec 64 → List UInt8) (mem : ByteMemory)
    (str fmt : Nat) (format : List UInt8) (args : List (BitVec 64)) : Prop where
  decimal_emits : ∀ buf a m r, printDecimal bt buf a m = some r →
    r = ((decimalBytes a).length, storeBytes m buf (decimalBytes a))
  hex_emits : ∀ buf a m,
    printHex buf a m = some ((hexBytes a).length, storeBytes m buf (hexBytes a))
  output : ∃ mem', (∀ fuel,
      format.length + (formatOutput text (directives format) args).length < fuel →
      caosVsprintf bt fuel str fmt args mem =
        some (mem', args.drop (argCount (directives format)))) ∧
    StoredAt mem' str (formatOutput text (directives format) args ++ [0]) ∧
    ∀ addr, (addr < str ∨
      str + (formatOutput text (directives format) args).length + 1 ≤ addr) →
      mem' addr = mem addr

/-- Formatting is compositional exactly if every `%d` argument gets past the test of its
sign. -/
theorem caosVsprintf_compositional_iff {bt : LockedBt} {text : BitVec 64 → List UInt8}
    {mem : ByteMemory} {str fmt : Nat} {format : List UInt8} {args : List (BitVec 64)}
    (h : Printable text mem str fmt format args) :
    Compositional bt text mem str fmt format args ↔
      ∀ a ∈ argsOf .decimal (directives format) args, bt.Prints a := by
  constructor
  · intro hcomp
    obtain ⟨mem', hrun, -⟩ := hcomp.output
    have hsome := hrun _ (Nat.lt_succ_self _)
    rw [caosVsprintf_run h (Nat.lt_succ_self _)] at hsome
    by_contra hnot
    rw [if_neg hnot] at hsome
    cases hsome
  · intro hprints
    refine ⟨fun _ _ _ _ => printDecimal_some, printHex_eq, _,
      fun fuel hfuel => caosVsprintf_eq h hprints hfuel, storedAt_storeBytes, ?_⟩
    intro addr haddr
    apply storeBytes_of_outside
    rw [List.length_append, List.length_singleton]
    omega

/-- `caos_sprintf(buf, "%d-%s%", -7, "ok")`, where the test of the sign is executed. -/
theorem minus_seven_ok :
    ∃ mem', caosVsprintf .executed 16 32 0 [-7, 7]
        (memoryOf (literal "%d-%s%" ++ [0] ++ literal "ok" ++ [0])) = some (mem', []) ∧
      StoredAt mem' 32 (literal "-7-ok%" ++ [0]) := by
  have hcall : Printable (fun _ => literal "ok")
      (memoryOf (literal "%d-%s%" ++ [0] ++ literal "ok" ++ [0])) 32 0 (literal "%d-%s%")
      [-7, 7] :=
    ⟨⟨by decide, by decide⟩, by decide, by decide,
      List.forall_mem_singleton.mpr ⟨by decide, by decide⟩,
      List.forall_mem_singleton.mpr (by decide)⟩
  have hprints : ∀ a ∈ argsOf .decimal (directives (literal "%d-%s%")) [-7, 7],
      LockedBt.executed.Prints a := fun _ _ => .inr rfl
  obtain ⟨mem', hrun, hstored, _⟩ := ((caosVsprintf_compositional_iff hcall).mpr hprints).output
  exact ⟨mem', hrun 16 (by decide), hstored⟩

/-- `caos_sprintf(buf, "%d", 5)` raises the invalid opcode. -/
theorem five_not_formatted :
    ¬ ∀ (text : BitVec 64 → List UInt8) (mem : ByteMemory) (str fmt : Nat)
      (format : List UInt8) (args : List (BitVec 64)),
      Printable text mem str fmt format args →
      Compositional .invalidOpcode text mem str fmt format args := by
  intro h
  have hcall : Printable (fun _ => []) (memoryOf (literal "%d" ++ [0])) 32 0 (literal "%d") [5] :=
    ⟨⟨by decide, by decide⟩, by decide, by decide, List.forall_mem_nil _, List.forall_mem_nil _⟩
  obtain ⟨mem', hrun, -⟩ := (h _ _ _ _ _ _ hcall).output
  have hsome := hrun _ (Nat.lt_succ_self _)
  rw [caosVsprintf_stops (by decide) (by decide)] at hsome
  cases hsome

end Caos
