import Caos.Mp.Decode

/-!
The entry loop of `smp_read_mpc` on arbitrary bytes. The `switch` has no default, so
an iteration at an unknown type byte changes nothing and the loop stays there.
-/

namespace Caos

open Lib

variable {mem : ByteMemory} {mpc mpcLength : Nat}

/-- The offsets at which the loop meets an entry, from `offset` on: a known type byte
leads to the next offset, and the table ends at `mpcLength`. -/
def entryOffsets (mem : ByteMemory) (mpc mpcLength : Nat) : Nat → Nat → List Nat
  | 0, _ => []
  | fuel + 1, offset =>
    if offset < mpcLength then
      offset :: match MpType.ofByte? (mem (mpc + offset)) with
        | some t => entryOffsets mem mpc mpcLength fuel (offset + t.size)
        | none => []
    else []

/-- The offsets of all entries of the table at `mpc`. Every entry has at least one byte,
so `mpc_length` bounds their number. -/
def tableOffsets (mem : ByteMemory) (mpc : Nat) : List Nat :=
  entryOffsets mem mpc (readConfigTable mem mpc).mpcLength.toNat
    (readConfigTable mem mpc).mpcLength.toNat sizeofMpConfigTable

/-- How many of the offsets hold an interrupt-source entry. -/
def countIntsrc (mem : ByteMemory) (mpc : Nat) (offsets : List Nat) : Nat :=
  offsets.countP fun offset => mem (mpc + offset) = MpType.intsrc.byte

theorem countIntsrc_append (first second : List Nat) :
    countIntsrc mem mpc (first ++ second) =
      countIntsrc mem mpc first + countIntsrc mem mpc second := List.countP_append

theorem interruptSources_length (e : MpEntry) :
    (interruptSources [e]).length = if e.mpType.byte = MpType.intsrc.byte then 1 else 0 := by
  cases e <;> rfl

/-- The loop comes to the end of the table, or to the first unknown type byte. -/
theorem visits_last {fuel offset : Nat} {l : EntryLoop} (hcount : l.count = offset)
    (hmpt : l.mpt = mpc + offset) (hfuel : mpcLength ≤ offset + fuel)
    (hroom : l.globals.mpIrqEntries +
      countIntsrc mem mpc (entryOffsets mem mpc mpcLength fuel offset) < maxIrqSources) :
    ∃ t, Visits (entryStep mem mpcLength) l t ∧
      ((∀ o ∈ entryOffsets mem mpc mpcLength fuel offset, mem (mpc + o) ≤ 4) ∧
          ¬ t.count < mpcLength ∨
        (∃ o ∈ entryOffsets mem mpc mpcLength fuel offset, ¬ mem (mpc + o) ≤ 4) ∧
          t.count < mpcLength ∧ entryAt mem t.mpt = none) := by
  induction fuel generalizing offset l with
  | zero =>
      refine ⟨l, .start, .inl ⟨?_, by omega⟩⟩
      intro o ho
      simp [entryOffsets] at ho
  | succ fuel ih =>
      rw [entryOffsets] at hroom ⊢
      by_cases hlt : offset < mpcLength
      · rw [if_pos hlt] at hroom ⊢
        cases he : entryAt mem l.mpt with
        | none =>
            have hunknown := entryAt_eq_none_iff.mp he
            rw [hmpt] at hunknown
            exact ⟨l, .start, .inr ⟨⟨offset, List.mem_cons_self, hunknown⟩,
              hcount ▸ hlt, he⟩⟩
        | some e =>
            have htype := type_of_storedAt (entryAt_eq_some_iff.mp he)
            rw [hmpt] at htype
            have hone : countIntsrc mem mpc [offset] = (interruptSources [e]).length := by
              rw [interruptSources_length, ← htype]
              simp [countIntsrc, List.countP_cons]
            have hknown : mem (mpc + offset) ≤ 4 := by
              rw [htype, ← MpType.ofByte?_isSome_iff, MpType.ofByte?_byte]
              rfl
            rw [htype, MpType.ofByte?_byte] at hroom ⊢
            dsimp only at hroom ⊢
            rw [← List.singleton_append, countIntsrc_append, hone] at hroom
            obtain ⟨globals, hhandle, hirq⟩ := @handleEntry_of_room l.globals e (by omega)
            have hstep := entryStep_of_entry (hcount ▸ hlt) he
            rw [hhandle] at hstep
            have hpos := e.mpType.size_pos
            obtain ⟨t, hvisits, hlast⟩ := @ih (offset + e.mpType.size)
              (l.advance e.mpType.size globals) (by rw [← hcount]; rfl)
              (by rw [← Nat.add_assoc, ← hmpt]; rfl) (by omega)
              (by simp only [EntryLoop.advance, hirq]; omega)
            refine ⟨t, hvisits.head hstep, ?_⟩
            rw [List.forall_mem_cons, List.exists_mem_cons_iff]
            rcases hlast with ⟨hall, hend⟩ | ⟨hsome, hstuck⟩
            · exact .inl ⟨⟨hknown, hall⟩, hend⟩
            · exact .inr ⟨.inr hsome, hstuck⟩
      · rw [if_neg hlt]
        refine ⟨l, .start, .inl ⟨?_, by omega⟩⟩
        intro o ho
        cases ho

/-- For every header that passes the checks, the entry loop ends, and `smp_read_mpc`
returns, exactly when every entry that the loop meets has a known type byte. -/
theorem entryLoop_ends_iff (hheader : ValidHeader (readConfigTable mem mpc))
    (hirqs : countIntsrc mem mpc (tableOffsets mem mpc) < maxIrqSources) :
    (Ends (entryStep mem (readConfigTable mem mpc).mpcLength.toNat)
        (entryLoopStart mem mpc clearedGlobals) ↔
      ∀ offset ∈ tableOffsets mem mpc, mem (mpc + offset) ≤ 4) ∧
    ((∃ fuel s, smpReadMpc mem mpc fuel clearedGlobals = some (.ret true s)) ↔
      ∀ offset ∈ tableOffsets mem mpc, mem (mpc + offset) ≤ 4) := by
  have hroom : (entryLoopStart mem mpc clearedGlobals).globals.mpIrqEntries +
      countIntsrc mem mpc (tableOffsets mem mpc) < maxIrqSources := by
    simpa [entryLoopStart, clearedGlobals] using hirqs
  obtain ⟨t, hvisits, hlast⟩ := @visits_last mem mpc (readConfigTable mem mpc).mpcLength.toNat
    (readConfigTable mem mpc).mpcLength.toNat sizeofMpConfigTable
    (entryLoopStart mem mpc clearedGlobals) rfl rfl (by omega) hroom
  rcases hlast with ⟨hall, hend⟩ | ⟨⟨offset, hmem, hunknown⟩, hlt, he⟩
  · obtain ⟨fuel, hfuel⟩ := hvisits.iterate_exit (entryStep_of_end hend)
    have hret : smpReadMpc mem mpc fuel clearedGlobals = some (.ret true t.globals) := by
      rw [smpReadMpc_eq hheader, hfuel]
      rfl
    exact ⟨⟨fun _ => hall, fun _ => ⟨fuel, _, hfuel⟩⟩, ⟨fun _ => hall, fun _ => ⟨fuel, _, hret⟩⟩⟩
  · have hstuck : ¬ Ends (entryStep mem (readConfigTable mem mpc).mpcLength.toNat)
        (entryLoopStart mem mpc clearedGlobals) := by
      rw [hvisits.ends_iff]
      apply @not_ends_of_invariant _ _ _ (· = t)
      · rintro u rfl
        exact ⟨u, entryStep_of_no_entry hlt he, rfl⟩
      · rfl
    have hnever : ¬ ∀ offset ∈ tableOffsets mem mpc, mem (mpc + offset) ≤ 4 :=
      fun hall => hunknown (hall offset hmem)
    constructor
    · exact iff_of_false hstuck hnever
    · apply iff_of_false _ hnever
      rintro ⟨fuel, s, hret⟩
      apply hstuck
      rw [smpReadMpc_eq hheader, Option.map_eq_some_iff] at hret
      obtain ⟨exit, hexit, -⟩ := hret
      exact ⟨fuel, exit, hexit⟩

/-- A table with one entry, of the given type byte and seven bytes more. -/
def oneEntryTable (type : UInt8) : ByteMemory :=
  memoryOf (headerBytes 52 ++ [type, 0, 0, 0, 0, 0, 0, 0])

theorem lintsrc_entry_ends :
    (Ends (entryStep (oneEntryTable 4) (readConfigTable (oneEntryTable 4) 0).mpcLength.toNat)
        (entryLoopStart (oneEntryTable 4) 0 clearedGlobals) ↔
      ∀ offset ∈ tableOffsets (oneEntryTable 4) 0, oneEntryTable 4 (0 + offset) ≤ 4) ∧
    ((∃ fuel s, smpReadMpc (oneEntryTable 4) 0 fuel clearedGlobals = some (.ret true s)) ↔
      ∀ offset ∈ tableOffsets (oneEntryTable 4) 0, oneEntryTable 4 (0 + offset) ≤ 4) :=
  entryLoop_ends_iff ⟨by decide, by decide, by decide⟩ (by decide)

/-- The header passes every check, and the loop never gets past the type byte 5. -/
theorem unknown_entry_never_ends :
    ValidHeader (readConfigTable (oneEntryTable 5) 0) ∧
    countIntsrc (oneEntryTable 5) 0 (tableOffsets (oneEntryTable 5) 0) < maxIrqSources ∧
    ¬ Ends (entryStep (oneEntryTable 5) (readConfigTable (oneEntryTable 5) 0).mpcLength.toNat)
      (entryLoopStart (oneEntryTable 5) 0 clearedGlobals) := by
  have he : entryAt (oneEntryTable 5) (0 + sizeofMpConfigTable) = none :=
    entryAt_eq_none_iff.mpr (by decide)
  refine ⟨⟨by decide, by decide, by decide⟩, by decide, ?_⟩
  apply @not_ends_of_invariant _ _ _ (· = entryLoopStart (oneEntryTable 5) 0 clearedGlobals)
  · rintro u rfl
    exact ⟨_, entryStep_of_no_entry (by decide) he, rfl⟩
  · rfl

end Caos
