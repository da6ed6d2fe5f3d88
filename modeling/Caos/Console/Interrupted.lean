import Caos.Console.Printf

/-!
`caos_printf` called from an interrupt that comes while another call prints. Both calls
format into the one buffer `sz`, and the interrupted call goes on in whatever the nested
one has left there, at the index it has kept.
-/

namespace Caos

open Lib

/-- The index of the first character that has not been printed. -/
def Printing.next (p : Printing) : Nat := if p.pc = .increment then p.i + 1 else p.i

/-- The call interrupted at `p` prints the characters of `msg` that it has not printed
yet, out of the memory it finds, and stops. -/
def Resumes (sz : Nat) (mem : ByteMemory) (msg : List UInt8) (p : Printing) : Prop :=
  ∃ fuel i, iterate (printLoop sz mem) fuel p =
    some (i, p.shown ++ (msg.drop p.shown.length).map screenCall)

/-- Where a call that prints `msg` without interruption can stand. The two last fields
say which tests the character at the index has passed. -/
structure Reached (msg : List UInt8) (p : Printing) : Prop where
  shown : p.shown = (msg.take p.next).map screenCall
  le : p.next ≤ msg.length
  inside : p.pc ≠ .test → p.i < msg.length
  not_newline : p.pc = .ifBackspace ∨ p.pc = .put → msg.getD p.i 0 ≠ newline
  not_backspace : p.pc = .put → msg.getD p.i 0 ≠ backspace

section

variable {sz i : Nat} {mem : ByteMemory} {msg rest buf : List UInt8} {p q : Printing}

theorem IsCString.getD {addr : Nat} (h : IsCString mem addr msg) (hi : i ≤ msg.length) :
    mem (addr + i) = msg.getD i 0 := by
  rw [h.stored.getD (by simpa using Nat.lt_succ_of_le hi)]
  rcases Nat.lt_or_eq_of_le hi with hlt | rfl
  · rw [List.getD_append _ _ _ _ hlt]
  · simp

theorem message_drop (h : i ≤ (message buf).length) :
    (message buf).drop i = message (buf.drop i) := by
  induction buf generalizing i with
  | nil => simp [message]
  | cons c buf ih =>
      cases i with
      | zero => rfl
      | succ i =>
          by_cases hc : c = 0
          · simp [message, hc] at h
          · rw [message, List.takeWhile_cons_of_pos (by simpa using hc)] at h ⊢
            exact ih (by simpa [message] using h)

theorem Reached.length (h : Reached msg p) : p.shown.length = p.next := by
  rw [h.shown, List.length_map, List.length_take, Nat.min_eq_left h.le]

theorem reached_start : Reached msg .start := by
  constructor <;> simp [Printing.start, Printing.next]

/-- One more character printed. -/
theorem Reached.snoc (h : Reached msg p) (hpc : p.pc ≠ .increment) (hi : p.i < msg.length) :
    p.shown ++ [screenCall (msg.getD p.i 0)] = (msg.take (p.i + 1)).map screenCall := by
  have hshown := h.shown
  rw [Printing.next, if_neg hpc] at hshown
  rw [hshown, List.take_add_one, List.getElem?_eq_getElem hi, Option.toList_some, List.map_append,
    List.getD_eq_getElem _ _ hi]
  rfl

/-- What one step of the loop does to a place it can stand at. -/
theorem Reached.step (h : Reached msg p) (hmem : IsCString mem sz msg)
    (hstep : printLoop sz mem p = .inl q) : Reached msg q := by
  obtain ⟨pc, i, shown⟩ := p
  have hle := h.le
  cases pc with
  | test =>
      have hread : mem (sz + i) = msg.getD i 0 := hmem.getD hle
      simp only [printLoop, hread] at hstep
      split at hstep
      · next hne =>
          cases hstep
          have hlt : i < msg.length := by
            by_contra hge
            exact hne (List.getD_eq_default _ _ (Nat.le_of_not_lt hge))
          exact ⟨h.shown, hle, fun _ => hlt, by simp, by simp⟩
      · cases hstep
  | ifNewline =>
      have hlt : i < msg.length := h.inside (by simp)
      have hread : mem (sz + i) = msg.getD i 0 := hmem.getD hlt.le
      simp only [printLoop, hread] at hstep
      split at hstep
      · next hnewline =>
          cases hstep
          have hshown := h.snoc (by simp) hlt
          simp only [hnewline] at hshown
          exact ⟨hshown, hlt, fun _ => hlt, by simp, by simp⟩
      · next hnewline =>
          cases hstep
          exact ⟨h.shown, hle, fun _ => hlt, fun _ => hnewline, by simp⟩
  | ifBackspace =>
      have hlt : i < msg.length := h.inside (by simp)
      have hread : mem (sz + i) = msg.getD i 0 := hmem.getD hlt.le
      simp only [printLoop, hread] at hstep
      split at hstep
      · next hbackspace =>
          cases hstep
          have hshown := h.snoc (by simp) hlt
          simp only [hbackspace] at hshown
          exact ⟨hshown, hlt, fun _ => hlt, by simp, by simp⟩
      · next hbackspace =>
          cases hstep
          exact ⟨h.shown, hle, fun _ => hlt, fun _ => h.not_newline (.inl rfl), fun _ => hbackspace⟩
  | put =>
      have hlt : i < msg.length := h.inside (by simp)
      have hread : mem (sz + i) = msg.getD i 0 := hmem.getD hlt.le
      simp only [printLoop, hread] at hstep
      cases hstep
      have hcall : screenCall (msg.getD i 0) = .putchar (msg.getD i 0) := by
        rw [screenCall, if_neg (h.not_newline (.inr rfl)), if_neg (h.not_backspace rfl)]
      have hshown := h.snoc (by simp) hlt
      simp only [hcall] at hshown
      exact ⟨hshown, hlt, by simp, by simp, by simp⟩
  | increment =>
      cases hstep
      exact ⟨h.shown, hle, by simp, by simp, by simp⟩

theorem reached_of_visits (hmem : IsCString mem sz msg)
    (h : Visits (printLoop sz mem) .start p) : Reached msg p :=
  h.invariant reached_start fun _ _ hp hstep => hp.step hmem hstep

/-- What has been shown stays shown. -/
theorem shown_prefix {fuel : Nat} {r : Nat × List ScreenCall}
    (h : iterate (printLoop sz mem) fuel p = some r) : p.shown <+: r.2 := by
  obtain ⟨q, hvisits, hexit⟩ := iterate_exit h
  have hprefix : p.shown <+: q.shown := by
    refine Visits.invariant (I := fun t => p.shown <+: t.shown) hvisits (List.prefix_refl _) ?_
    rintro ⟨pc, i, shown⟩ t ht hstep
    simp only [printLoop] at hstep
    split at hstep
    · split at hstep <;> cases hstep
      exact ht
    · split at hstep <;> cases hstep
      · exact ht.trans (List.prefix_append _ _)
      · exact ht
    · split at hstep <;> cases hstep
      · exact ht.trans (List.prefix_append _ _)
      · exact ht
    · cases hstep
      exact ht.trans (List.prefix_append _ _)
    · cases hstep
      exact ht
  obtain ⟨pc, i, shown⟩ := q
  simp only [printLoop] at hexit
  split at hexit
  · split at hexit <;> cases hexit
    exact hprefix
  all_goals first | cases hexit | (split at hexit <;> cases hexit)

/-- Behind the test of the loop the call prints the character it finds at its index,
whatever that is now. It is treated as the character it has been, if it still is. -/
theorem Reached.lands (h : Reached msg p) (htest : p.pc ≠ .test) (hincr : p.pc ≠ .increment)
    (mem : ByteMemory) : ∃ call, Visits (printLoop sz mem) p
        { pc := .test, i := p.i + 1, shown := p.shown ++ [call] } ∧
      (call = screenCall (msg.getD p.i 0) ↔ mem (sz + p.i) = msg.getD p.i 0) := by
  obtain ⟨pc, i, shown⟩ := p
  cases pc with
  | test => exact absurd rfl htest
  | increment => exact absurd rfl hincr
  | ifNewline => exact ⟨_, ifNewline_lands, screenCall_injective.eq_iff⟩
  | ifBackspace =>
      refine ⟨_, ifBackspace_lands, ?_⟩
      have hnewline := h.not_newline (.inl rfl)
      rw [screenCall, if_neg hnewline]
      grind
  | put =>
      refine ⟨_, put_lands, ?_⟩
      have hnewline := h.not_newline (.inr rfl)
      have hbackspace := h.not_backspace rfl
      rw [screenCall, if_neg hnewline, if_neg hbackspace]
      grind

/-- A call that comes to the test prints the string it finds there, and stops. -/
theorem ends_string {shown : List ScreenCall} (h : IsCString mem (sz + i) rest)
    (hvisits : Visits (printLoop sz mem) p { pc := .test, i := i, shown := shown }) :
    ∃ fuel, iterate (printLoop sz mem) fuel p =
      some (i + rest.length, shown ++ rest.map screenCall) := by
  obtain ⟨fuel, hend⟩ := @iterate_string sz i mem shown rest h
  obtain ⟨q, hq, hexit⟩ := iterate_exit hend
  exact (hvisits.trans hq).iterate_exit hexit

/-- What the call has shown when it comes to the test it has shown at the end. -/
theorem landed_prefix {fuel : Nat} {r : Nat × List ScreenCall}
    (hvisits : Visits (printLoop sz mem) p q)
    (h : iterate (printLoop sz mem) fuel p = some r) : q.shown <+: r.2 := by
  obtain ⟨fuel', r', hend⟩ := hvisits.ends_iff.mp ⟨fuel, r, h⟩
  obtain ⟨t, ht, hexit⟩ := iterate_exit hend
  obtain ⟨fuel'', hend'⟩ := (hvisits.trans ht).iterate_exit hexit
  rw [iterate_unique h hend']
  exact shown_prefix hend

/-- The characters shown at the end, once the call comes to the test. -/
theorem shown_of_ends {shown : List ScreenCall} {fuel : Nat} {r : Nat × List ScreenCall}
    (h : IsCString mem (sz + i) rest)
    (hvisits : Visits (printLoop sz mem) p { pc := .test, i := i, shown := shown })
    (hend : iterate (printLoop sz mem) fuel p = some r) :
    r.2 = shown ++ rest.map screenCall := by
  obtain ⟨fuel', hend'⟩ := ends_string h hvisits
  rw [iterate_unique hend hend']

theorem map_screenCall_injective : Function.Injective (List.map screenCall) :=
  List.map_injective_iff.mpr screenCall_injective

theorem drop_eq_getD_cons (h : i < msg.length) :
    msg.drop i = msg.getD i 0 :: msg.drop (i + 1) := by
  rw [List.drop_eq_getElem_cons h, List.getD_eq_getElem _ _ h]

theorem getD_ne_zero (hnul : 0 ∉ msg) (h : i < msg.length) : msg.getD i 0 ≠ 0 := by
  intro hzero
  rw [List.getD_eq_getElem _ _ h] at hzero
  exact hnul (hzero ▸ List.getElem_mem h)

/-- A call whose next character is still to be tested. -/
theorem Reached.resumes_iff_of_untested (h : Reached msg p)
    (hpc : p.pc = .test ∨ p.pc = .increment) (hrest : IsCString mem (sz + p.next) rest) :
    Resumes sz mem msg p ↔ rest = msg.drop p.next := by
  rw [Resumes, h.length]
  have hvisits : Visits (printLoop sz mem) p { pc := .test, i := p.next, shown := p.shown } := by
    obtain ⟨pc, i, shown⟩ := p
    rcases hpc with rfl | rfl
    · exact .start
    · exact .next .start rfl
  constructor
  · rintro ⟨fuel, i, hend⟩
    have hall := shown_of_ends hrest hvisits hend
    exact map_screenCall_injective (List.append_cancel_left hall.symm)
  · rintro rfl
    obtain ⟨fuel, hend⟩ := ends_string hrest hvisits
    exact ⟨fuel, _, hend⟩

/-- A call whose next character has passed the test of the loop: it is printed without
another look for the NUL. -/
theorem Reached.resumes_iff_of_tested (h : Reached msg p) (hnul : 0 ∉ msg)
    (htest : p.pc ≠ .test) (hincr : p.pc ≠ .increment)
    (hrest : IsCString mem (sz + p.next) rest) :
    Resumes sz mem msg p ↔ rest = msg.drop p.next := by
  rw [Resumes, h.length]
  have hnext : p.next = p.i := if_neg hincr
  have hlt := h.inside htest
  obtain ⟨call, hvisits, hcall⟩ := @Reached.lands sz msg p h htest hincr mem
  rw [hnext] at hrest ⊢
  rw [drop_eq_getD_cons hlt]
  constructor
  · rintro ⟨fuel, i, hend⟩
    have hshown := landed_prefix hvisits hend
    rw [List.map_cons, List.prefix_append_right_inj, List.cons_prefix_cons] at hshown
    have hread := hcall.mp hshown.1
    cases rest with
    | nil => exact absurd (hread.symm.trans hrest.stored.1) (getD_ne_zero hnul hlt)
    | cons c rest =>
        have hc : c = msg.getD p.i 0 := hrest.head.1.symm.trans hread
        have htail : IsCString mem (sz + (p.i + 1)) rest := hrest.tail
        have hall := shown_of_ends htail hvisits hend
        rw [hcall.mpr hread, List.map_cons, List.append_assoc, List.singleton_append] at hall
        rw [hc, map_screenCall_injective (List.cons.inj (List.append_cancel_left hall)).2]
  · rintro rfl
    have htail : IsCString mem (sz + (p.i + 1)) (msg.drop (p.i + 1)) := hrest.tail
    obtain ⟨fuel, hend⟩ := ends_string htail hvisits
    rw [hcall.mpr hrest.head.1, List.append_assoc] at hend
    exact ⟨fuel, _, hend⟩

/-- The interrupted call resumes exactly if the string it finds behind the characters it
has printed is the rest of its own. -/
theorem Reached.resumes_iff (h : Reached msg p) (hnul : 0 ∉ msg)
    (hrest : IsCString mem (sz + p.next) rest) :
    Resumes sz mem msg p ↔ rest = msg.drop p.next := by
  by_cases hpc : p.pc = .test ∨ p.pc = .increment
  · exact h.resumes_iff_of_untested hpc hrest
  · rw [not_or] at hpc
    exact h.resumes_iff_of_tested hnul hpc.1 hpc.2 hrest

end

section Nested

variable {bt : LockedBt} {sz fmt fmt' fuel fuel' j : Nat} {mem mem₁ mem₂ : ByteMemory}
  {text text' : BitVec 64 → List UInt8} {format format' buf buf' : List UInt8}
  {args args' left : List (BitVec 64)} {r : Nat × List ScreenCall} {p : Printing}

/-- The string behind the first `j` characters, once another text has been formatted into
the buffer. -/
theorem isCString_overwritten (h : StoredAt mem sz (buf ++ [0])) (hj : j ≤ buf.length) :
    IsCString (storeBytes mem sz (buf' ++ [0])) (sz + j)
      (if buf'.length < j then message (buf.drop j) else message (buf'.drop j)) := by
  split
  · next hlt =>
      have hkept : StoredAt mem (sz + j) (buf.drop j ++ [0]) := by
        rw [← List.drop_append_of_le_length hj]
        exact h.drop (by simp; omega)
      apply isCString_message
      apply hkept.storeBytes
      right
      simp
      omega
  · next hge =>
      have hnew : StoredAt (storeBytes mem sz (buf' ++ [0])) (sz + j) (buf'.drop j ++ [0]) := by
        rw [← List.drop_append_of_le_length (Nat.le_of_not_lt hge)]
        exact storedAt_storeBytes.drop (by simp; omega)
      exact isCString_message hnew

/-- A call of `caos_printf` interrupted at any point of its output loop, by a nested call
that is complete, goes on with the rest of its own text exactly if the nested text is
shorter than what has been printed, or continues like its own. -/
theorem printf_resumes_iff (houter : Printable text mem sz fmt format args)
    (hformat : caosVsprintf bt fuel sz fmt args mem = some (mem₁, left))
    (hpoint : Visits (printLoop sz mem₁) .start p)
    (hinner : Printable text' mem₁ sz fmt' format' args')
    (hnested : caosPrintf bt fuel' sz fmt' args' mem₁ = some (mem₂, r)) :
    Resumes sz mem₂ (message (formatted text format args)) p ↔
      (formatted text' format' args').length < p.shown.length ∨
        message ((formatted text' format' args').drop p.shown.length) =
          message ((formatted text format args).drop p.shown.length) := by
  have hmem₁ : mem₁ = storeBytes mem sz (formatted text format args ++ [0]) :=
    (caosVsprintf_some houter hformat).2
  have hmem₂ : mem₂ = storeBytes mem₁ sz (formatted text' format' args' ++ [0]) :=
    congrArg Prod.fst (caosPrintf_some hinner hnested)
  have hstored : StoredAt mem₁ sz (formatted text format args ++ [0]) := hmem₁ ▸ storedAt_storeBytes
  have hmsg := isCString_message hstored
  have hreached := reached_of_visits hmsg hpoint
  have hle : p.next ≤ (formatted text format args).length :=
    hreached.le.trans (List.takeWhile_prefix _).length_le
  have hrest := @isCString_overwritten sz p.next mem₁ (formatted text format args)
    (formatted text' format' args') hstored hle
  rw [← hmem₂] at hrest
  rw [hreached.resumes_iff hmsg.no_nul hrest, message_drop hreached.le, hreached.length]
  split
  · next hlt => simp [hlt]
  · next hge => simp [hge]

end Nested

/-- Two formats without conversions. -/
def twoTexts (first second : String) : ByteMemory :=
  memoryOf (literal first ++ [0] ++ literal second ++ [0])

/-- `"AB"`, interrupted behind the `A` by a call that prints `"xB"`. -/
theorem same_rest_resumes :
    let mem₁ := storeBytes (twoTexts "AB" "xB") 32 (literal "AB" ++ [0])
    let mem₂ := storeBytes mem₁ 32 (literal "xB" ++ [0])
    Resumes 32 mem₂ (literal "AB") { pc := .test, i := 1, shown := [.putchar 65] } := by
  intro mem₁ mem₂
  have houter : Printable (fun _ => []) (twoTexts "AB" "xB") 32 0 (literal "AB") [] :=
    printable_iff.mpr (.of_no_args ⟨by decide, by decide⟩ (by decide) (by decide))
  have hformat : caosVsprintf .invalidOpcode 16 32 0 [] (twoTexts "AB" "xB") = some (mem₁, []) :=
    caosVsprintf_eq houter (forall_argsOf_nil _) (by decide)
  have hpoint : Visits (printLoop 32 mem₁) .start
      { pc := .test, i := 1, shown := [.putchar 65] } :=
    @visits_next 32 0 mem₁ [] 65 (by decide) (by decide)
  have hinner : Printable (fun _ => []) mem₁ 32 3 (literal "xB") [] :=
    printable_iff.mpr (.of_no_args ⟨by decide, by decide⟩ (by decide) (by decide))
  obtain ⟨fuel, r, hnested⟩ :=
    @caosPrintf_returns .invalidOpcode _ _ _ _ _ _ hinner (forall_argsOf_nil _)
  have hmem₂ : r.1 = mem₂ := congrArg Prod.fst (caosPrintf_some hinner hnested)
  rw [← hmem₂]
  exact (printf_resumes_iff houter hformat hpoint hinner hnested).mpr (by decide)

/-- `"AB"`, interrupted behind the `A` by a call that prints `"xyz"`, goes on with `"yz"`. -/
theorem longer_text_printed :
    ¬ ∀ (text text' : BitVec 64 → List UInt8) (mem mem₁ mem₂ : ByteMemory)
      (sz fmt fmt' fuel fuel' : Nat) (format format' : List UInt8)
      (args args' left : List (BitVec 64)) (r : Nat × List ScreenCall) (p : Printing),
      Printable text mem sz fmt format args →
      caosVsprintf .invalidOpcode fuel sz fmt args mem = some (mem₁, left) →
      Visits (printLoop sz mem₁) .start p →
      Printable text' mem₁ sz fmt' format' args' →
      caosPrintf .invalidOpcode fuel' sz fmt' args' mem₁ = some (mem₂, r) →
      Resumes sz mem₂ (message (formatted text format args)) p := by
  intro h
  have houter : Printable (fun _ => []) (twoTexts "AB" "xyz") 32 0 (literal "AB") [] :=
    printable_iff.mpr (.of_no_args ⟨by decide, by decide⟩ (by decide) (by decide))
  have hformat : caosVsprintf .invalidOpcode 16 32 0 [] (twoTexts "AB" "xyz") =
      some (storeBytes (twoTexts "AB" "xyz") 32 (literal "AB" ++ [0]), []) :=
    caosVsprintf_eq houter (forall_argsOf_nil _) (by decide)
  generalize hmem₁ : storeBytes (twoTexts "AB" "xyz") 32 (literal "AB" ++ [0]) = mem₁ at hformat
  have hpoint : Visits (printLoop 32 mem₁) .start
      { pc := .test, i := 1, shown := [.putchar 65] } :=
    @visits_next 32 0 mem₁ [] 65 (by rw [← hmem₁]; decide) (by decide)
  have hinner : Printable (fun _ => []) mem₁ 32 3 (literal "xyz") [] :=
    printable_iff.mpr (.of_no_args (hmem₁ ▸ ⟨by decide, by decide⟩) (by decide) (by decide))
  obtain ⟨fuel, ⟨mem₂, r⟩, hnested⟩ :=
    @caosPrintf_returns .invalidOpcode _ _ _ _ _ _ hinner (forall_argsOf_nil _)
  have hresumes := h _ _ _ _ _ _ _ _ _ _ _ _ _ _ _ _ _ houter hformat hpoint hinner hnested
  have hmsg : IsCString mem₁ 32 (literal "AB") := hmem₁ ▸ ⟨by decide, by decide⟩
  have hrest : IsCString mem₂ (32 + 1) (literal "yz") := by
    have hmem₂ : mem₂ = storeBytes mem₁ 32 (literal "xyz" ++ [0]) :=
      congrArg Prod.fst (caosPrintf_some hinner hnested)
    rw [hmem₂, ← hmem₁]
    exact ⟨by decide, by decide⟩
  have hsame := ((reached_of_visits hmsg hpoint).resumes_iff (by decide) hrest).mp hresumes
  exact absurd hsame (by decide)

end Caos
