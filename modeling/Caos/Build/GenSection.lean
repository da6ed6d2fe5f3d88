import Caos.CString

/-!
`utils/gen_section.c`, which makes `kernel_section.inc` for `setup.asm` out of the listing that
`nm` prints of the kernel. The buffers are global arrays of fixed sizes. A token that does not
fit into its array is stored behind the end of it, and has no result here.
-/

namespace Caos.Build

def newline : UInt8 := 0x0A

/-- `isspace`. -/
def isSpace (c : UInt8) : Bool := c == 0x20 || 0x09 ≤ c && c ≤ 0x0D

/-- What the calls of `fgets(line_buf, 127, symfile)` read, one after another, with the room
that is left in the buffer and the line so far. -/
def fgetsLines : (room : Nat) → (line file : List UInt8) → List (List UInt8)
  | _, line, [] => if line = [] then [] else [line]
  | room, line, c :: file =>
    if c = newline ∨ room ≤ 1 then (line ++ [c]) :: fgetsLines 126 [] file
    else fgetsLines (room - 1) (line ++ [c]) file

/-- The globals `address`, `flag` and `symbol`. -/
structure MapFields where
  address : List UInt8
  flag : UInt8
  symbol : List UInt8

/-- The characters that `%s` matches, and what is left. -/
def scanToken (s : List UInt8) : List UInt8 × List UInt8 :=
  let s := s.dropWhile isSpace
  (s.takeWhile fun c => !isSpace c, s.dropWhile fun c => !isSpace c)

/-- `sscanf(line_buf, "%s %c %s", address, &flag, symbol)`. What is not matched stays. -/
def scanLine (line : List UInt8) (f : MapFields) : Option MapFields :=
  let (address, rest) := scanToken (cString line)
  if address = [] then some f
  -- `char address[20]`
  else if 20 ≤ address.length then none
  else
    match rest.dropWhile isSpace with
    | [] => some { f with address := address }
    | flag :: rest =>
      let (symbol, _) := scanToken rest
      if symbol = [] then some { f with address := address, flag := flag }
      -- `char symbol[64]`
      else if 64 ≤ symbol.length then none
      else some { address := address, flag := flag, symbol := symbol }

/-- `fprintf(headfile, "%-20s equ 0x%s\n", symbol, address)`. -/
def equLine (symbol address : List UInt8) : List UInt8 :=
  symbol ++ .replicate (20 - symbol.length) 0x20 ++ literal " equ 0x" ++ address ++ [newline]

/-- `while (fgets(line_buf, 127, symfile) != NULL)`. -/
def genLines : List (List UInt8) → MapFields → Option (List UInt8)
  | [], _ => some []
  | line :: lines, f => do
    let f ← scanLine line f
    let rest ← genLines lines f
    return equLine f.symbol f.address ++ rest

/-- The comment at the head of the file. -/
def heading : List UInt8 :=
  literal ";*******************************************************************\n" ++
    literal "; This file is generated automatically by utils/gen_section program\n" ++
    literal ";*******************************************************************\n"

/-- `main`, from the text of `system.map` to that of the header. -/
def genSection (map : List UInt8) : Option (List UInt8) :=
  (genLines (fgetsLines 126 [] map) { address := [], flag := 0, symbol := [] }).map (heading ++ ·)

/-! ## Listings -/

/-- A word of a listing. -/
structure IsToken (s : List UInt8) : Prop where
  ne_nil : s ≠ []
  solid : ∀ c ∈ s, isSpace c = false ∧ c ≠ 0

/-- A defined symbol as `nm` prints it. -/
structure NmSymbol where
  address : List UInt8
  flag : UInt8
  name : List UInt8
  address_token : IsToken address
  address_length : address.length = 16
  flag_token : IsToken [flag]
  name_token : IsToken name

/-- Its line, without the end. -/
def NmSymbol.fields (s : NmSymbol) : List UInt8 := s.address ++ 0x20 :: s.flag :: 0x20 :: s.name

def NmSymbol.line (s : NmSymbol) : List UInt8 := s.fields ++ [newline]

/-- The name and the digits that an assembler reads from a line of `equ`. -/
def readEqu (line : List UInt8) : Option (List UInt8 × List UInt8) :=
  let (name, rest) := scanToken line
  let (equ, rest) := scanToken rest
  let (value, _) := scanToken rest
  if equ = literal "equ" ∧ value.take 2 = literal "0x" then some (name, value.drop 2) else none

section Tokens

variable {s t rest : List UInt8} {line file : List UInt8} {room : Nat} {f : MapFields}

theorem IsToken.notMem_newline (h : IsToken s) : newline ∉ s := by
  intro hmem
  have hspace := (h.solid newline hmem).1
  cases hspace

/-- The check of a word that can be evaluated. -/
theorem solid_of_all (h : s.all (fun c => !isSpace c && c != 0) = true) :
    ∀ c ∈ s, isSpace c = false ∧ c ≠ 0 := by
  intro c hc
  have hboth := List.all_eq_true.mp h c hc
  simpa using hboth

/-- A token is matched as far as the next white space. -/
theorem scanToken_eq (h : IsToken s) (ht : ∀ c ∈ t, isSpace c = true)
    (hrest : ∀ c ∈ rest.head?, isSpace c = true) : scanToken (t ++ (s ++ rest)) = (s, rest) := by
  have hskip : (t ++ (s ++ rest)).dropWhile isSpace = s ++ rest := by
    rw [List.dropWhile_append_of_pos ht]
    obtain ⟨c, s, rfl⟩ := List.exists_cons_of_ne_nil h.ne_nil
    have hc := (h.solid c List.mem_cons_self).1
    simp [hc]
  have hsolid : ∀ c ∈ s, (!isSpace c) = true := fun c hc => by simp [(h.solid c hc).1]
  have hend : rest.takeWhile (fun c => !isSpace c) = [] ∧
      rest.dropWhile (fun c => !isSpace c) = rest := by
    cases rest with
    | nil => exact ⟨rfl, rfl⟩
    | cons c rest =>
        have hc := hrest c rfl
        simp [hc]
  rw [scanToken, hskip, List.takeWhile_append_of_pos hsolid, List.dropWhile_append_of_pos hsolid,
    hend.1, hend.2, List.append_nil]

/-- `scanLine` on the fields of a symbol, whatever white space follows. -/
theorem scanLine_eq (symbol : NmSymbol) {name : List UInt8} (hname : IsToken name)
    (ht : ∀ c ∈ t, isSpace c = true ∧ c ≠ 0) :
    scanLine (symbol.address ++ 0x20 :: symbol.flag :: 0x20 :: (name ++ t)) f =
      if 64 ≤ name.length then none
      else some { address := symbol.address, flag := symbol.flag, symbol := name } := by
  have hsolid : ∀ c ∈ symbol.address ++ 0x20 :: symbol.flag :: 0x20 :: (name ++ t), c ≠ 0 := by
    simp only [List.forall_mem_append, List.forall_mem_cons]
    exact ⟨fun c hc => (symbol.address_token.solid c hc).2, by decide,
      (symbol.flag_token.solid _ List.mem_cons_self).2, by decide,
      fun c hc => (hname.solid c hc).2, fun c hc => (ht c hc).2⟩
  have hstring : cString (symbol.address ++ 0x20 :: symbol.flag :: 0x20 :: (name ++ t)) =
      symbol.address ++ 0x20 :: symbol.flag :: 0x20 :: (name ++ t) := by
    have hall := @List.takeWhile_append_of_pos _ (fun c : UInt8 => decide (c ≠ 0)) _ []
      (fun c hc => decide_eq_true (hsolid c hc))
    simp only [List.append_nil, List.takeWhile_nil] at hall
    exact hall
  have haddress : scanToken (symbol.address ++ 0x20 :: symbol.flag :: 0x20 :: (name ++ t)) =
      (symbol.address, 0x20 :: symbol.flag :: 0x20 :: (name ++ t)) :=
    @scanToken_eq symbol.address [] _ symbol.address_token nofun (by simp [isSpace])
  have hflag : (0x20 :: symbol.flag :: 0x20 :: (name ++ t)).dropWhile isSpace =
      symbol.flag :: 0x20 :: (name ++ t) := by
    have hspace := (symbol.flag_token.solid _ List.mem_cons_self).1
    have hblank : isSpace 0x20 = true := by decide
    simp [hblank, hspace]
  have hsymbol : scanToken (0x20 :: (name ++ t)) = (name, t) := by
    refine @scanToken_eq name [0x20] t hname (by simp [isSpace]) fun c hc => ?_
    exact (ht c (List.mem_of_mem_head? hc)).1
  have hlength : ¬ 20 ≤ symbol.address.length := by
    rw [symbol.address_length]
    decide
  simp only [scanLine, hstring, haddress, symbol.address_token.ne_nil, hlength, hflag, hsymbol,
    hname.ne_nil, if_false]

/-! ## Lines -/

/-- A line that fits into the buffer is read whole. -/
theorem fgetsLines_line (hline : newline ∉ s) (hroom : s.length < room) :
    fgetsLines room line (s ++ newline :: file) =
      (line ++ s ++ [newline]) :: fgetsLines 126 [] file := by
  induction s generalizing room line with
  | nil => simp [fgetsLines]
  | cons c s ih =>
      rw [List.length_cons] at hroom
      rw [List.mem_cons, not_or] at hline
      rw [List.cons_append, fgetsLines, if_neg (not_or.mpr ⟨Ne.symm hline.1, by omega⟩),
        ih hline.2 (by omega)]
      simp

/-- Of a longer one, what fits. -/
theorem fgetsLines_full (hline : newline ∉ s) (hroom : room ≤ s.length) (hpos : 0 < room) :
    fgetsLines room line (s ++ file) =
      (line ++ s.take room) :: fgetsLines 126 [] (s.drop room ++ file) := by
  induction s generalizing room line with
  | nil => simp at hroom; omega
  | cons c s ih =>
      rw [List.mem_cons, not_or] at hline
      rw [List.length_cons] at hroom
      obtain ⟨room, rfl⟩ := Nat.exists_eq_add_of_lt hpos
      rw [Nat.zero_add] at hroom ⊢
      cases room with
      | zero => simp [fgetsLines]
      | succ room =>
          rw [List.cons_append, fgetsLines, if_neg (not_or.mpr ⟨Ne.symm hline.1, by omega⟩),
            Nat.add_sub_cancel, ih hline.2 (by omega) (Nat.succ_pos room)]
          simp

theorem IsToken.take (h : IsToken s) {n : Nat} (hn : 0 < n) : IsToken (s.take n) := by
  refine ⟨?_, fun c hc => h.solid c (List.mem_of_mem_take hc)⟩
  rw [Ne, List.take_eq_nil_iff]
  exact not_or.mpr ⟨hn.ne', h.ne_nil⟩

theorem NmSymbol.notMem_newline (symbol : NmSymbol) : newline ∉ symbol.fields := by
  have hflag := symbol.flag_token.notMem_newline
  have hblank : newline ≠ 0x20 := by decide
  rw [List.mem_singleton] at hflag
  simp [NmSymbol.fields, symbol.address_token.notMem_newline, symbol.name_token.notMem_newline,
    hflag, hblank]

theorem NmSymbol.fields_length (symbol : NmSymbol) :
    symbol.fields.length = symbol.name.length + 19 := by
  simp only [NmSymbol.fields, List.length_append, List.length_cons, symbol.address_length]
  omega

theorem NmSymbol.line_append (symbol : NmSymbol) :
    symbol.line ++ file = symbol.fields ++ newline :: file := by
  simp [NmSymbol.line]

theorem scanLine_symbol (symbol : NmSymbol) : scanLine symbol.line f =
    if 64 ≤ symbol.name.length then none
    else some { address := symbol.address, flag := symbol.flag, symbol := symbol.name } := by
  have hscan := @scanLine_eq [newline] f symbol symbol.name symbol.name_token
    (by simp [newline, isSpace])
  simpa only [NmSymbol.line, NmSymbol.fields, List.append_assoc, List.cons_append] using hscan

/-- A name that is too long for its array is so on the part of the line that is read. -/
theorem fgetsLines_long (symbol : NmSymbol) (hlength : 64 ≤ symbol.name.length) :
    ∃ line lines, fgetsLines 126 [] (symbol.line ++ file) = line :: lines ∧
      scanLine line f = none := by
  have hfields := symbol.fields_length
  rw [symbol.line_append]
  rcases Nat.lt_or_ge symbol.fields.length 126 with hlt | hge
  · refine ⟨_, _, fgetsLines_line symbol.notMem_newline hlt, ?_⟩
    have hscan := @scanLine_symbol f symbol
    rwa [if_pos hlength] at hscan
  · refine ⟨_, _, fgetsLines_full symbol.notMem_newline hge (by decide), ?_⟩
    have htake : symbol.fields.take 126 =
        symbol.address ++ 0x20 :: symbol.flag :: 0x20 :: (symbol.name.take 107 ++ []) := by
      rw [NmSymbol.fields, List.take_append, symbol.address_length, List.append_nil,
        List.take_of_length_le (by rw [symbol.address_length]; decide)]
      rfl
    have hlong : 64 ≤ (symbol.name.take 107).length := by
      rw [List.length_take]
      omega
    rw [List.nil_append, htake,
      scanLine_eq symbol (symbol.name_token.take (by decide)) (List.forall_mem_nil _),
      if_pos hlong]

theorem genLines_eq (symbols : List NmSymbol) (f : MapFields) :
    genLines (fgetsLines 126 [] (symbols.flatMap NmSymbol.line)) f =
      if ∀ s ∈ symbols, s.name.length < 64 then
        some (symbols.flatMap fun s => equLine s.name s.address)
      else none := by
  induction symbols generalizing f with
  | nil => rfl
  | cons symbol symbols ih =>
      rw [List.flatMap_cons, List.flatMap_cons]
      rcases Nat.lt_or_ge symbol.name.length 64 with hlt | hge
      · have hfields := symbol.fields_length
        have hread := @fgetsLines_line symbol.fields [] (symbols.flatMap NmSymbol.line) 126
          symbol.notMem_newline (by omega)
        have hscan := @scanLine_symbol f symbol
        rw [if_neg (Nat.not_le.mpr hlt)] at hscan
        rw [symbol.line_append, hread, List.nil_append, ← NmSymbol.line, genLines, hscan]
        simp only [Option.bind_eq_bind, Option.bind_some, ih, List.forall_mem_cons, hlt, true_and]
        split_ifs <;> rfl
      · obtain ⟨line, lines, hread, hscan⟩ :=
          @fgetsLines_long (symbols.flatMap NmSymbol.line) f symbol hge
        have hlong : ¬ ∀ s ∈ symbol :: symbols, s.name.length < 64 := by
          intro hall
          exact absurd (hall symbol List.mem_cons_self) (Nat.not_lt.mpr hge)
        rw [hread, genLines, hscan, if_neg hlong]
        rfl

/-- An assembler reads the name and the address back. -/
theorem readEqu_equLine {address : List UInt8} (hs : IsToken s) (haddress : IsToken address) :
    readEqu (equLine s address) = some (s, address) := by
  have hequ : IsToken (literal "equ") := ⟨by decide, solid_of_all rfl⟩
  have hvalue : IsToken (literal "0x" ++ address) := by
    refine ⟨by simp [haddress.ne_nil], ?_⟩
    rw [List.forall_mem_append]
    exact ⟨solid_of_all rfl, haddress.solid⟩
  have hmiddle : literal " equ 0x" = [0x20] ++ literal "equ" ++ [0x20] ++ literal "0x" := by decide
  have hspace : ∀ c ∈ [(0x20 : UInt8)], isSpace c = true := List.forall_mem_singleton.mpr rfl
  generalize hpad : List.replicate (20 - s.length) (0x20 : UInt8) = pad
  have hblank : ∀ c ∈ pad ++ [0x20], isSpace c = true := by
    rw [List.forall_mem_append, ← hpad]
    refine ⟨fun c hc => ?_, hspace⟩
    rw [List.eq_of_mem_replicate hc]
    rfl
  have hline : equLine s address = [] ++ (s ++ (pad ++ [0x20] ++ (literal "equ" ++
      ([0x20] ++ (literal "0x" ++ address ++ [newline]))))) := by
    simp only [equLine, hpad, hmiddle, List.append_assoc, List.nil_append]
  have hhead : ∀ c ∈ (pad ++ [0x20] ++ (literal "equ" ++
      ([0x20] ++ (literal "0x" ++ address ++ [newline])))).head?, isSpace c = true := by
    intro c hc
    cases pad with
    | nil =>
        cases hc
        decide
    | cons c pad =>
        cases hc
        exact hblank c List.mem_cons_self
  rw [hline]
  simp only [readEqu, scanToken_eq hs (List.forall_mem_nil _) hhead]
  rw [scanToken_eq hequ hblank (fun c hc => by cases hc; decide)]
  dsimp only
  rw [scanToken_eq hvalue hspace (fun c hc => by cases hc; decide)]
  have htake : (literal "0x" ++ address).take 2 = literal "0x" := rfl
  have hdrop : (literal "0x" ++ address).drop 2 = address := rfl
  simp only [htake, hdrop, and_self, if_true]

end Tokens

/-- For every listing of defined symbols: where all names fit into their array, the header has
one line for each symbol, in the order of the listing, from which the name and the address are
read back; where one does not, the array is overrun. -/
theorem genSection_exact (symbols : List NmSymbol) :
    genSection (symbols.flatMap NmSymbol.line) =
      (if ∀ s ∈ symbols, s.name.length < 64 then
        some (heading ++ symbols.flatMap fun s => equLine s.name s.address)
      else none) ∧
    ∀ s ∈ symbols, readEqu (equLine s.name s.address) = some (s.name, s.address) := by
  refine ⟨?_, fun s _ => readEqu_equLine s.name_token s.address_token⟩
  rw [genSection, genLines_eq]
  split_ifs <;> rfl

/-- A line of `nm`, and what becomes of it. -/
def startKernelSymbol : NmSymbol where
  address := literal "ffff800000100000"
  flag := 0x54
  name := literal "start_kernel"
  address_token := ⟨by decide, solid_of_all (by decide)⟩
  address_length := rfl
  flag_token := ⟨by decide, solid_of_all (by decide)⟩
  name_token := ⟨by decide, solid_of_all (by decide)⟩

example : genSection startKernelSymbol.line =
    some (heading ++ literal "start_kernel         equ 0xffff800000100000\n") := by rfl

/-- Where an undefined symbol has no address, its flag is taken for it, and the name is split. -/
example : scanLine (literal "                 U memcpy\n") ⟨[], 0, []⟩ =
    some { address := literal "U", flag := 0x6D, symbol := literal "emcpy" } := by rfl

end Caos.Build
