import Caos.Mp.Decode

/-!
The bytes from which `smp_read_mpc` fills the globals. The loop compares `count` with
`mpc_length` at the start of an entry only, so the last entry may be cut off by the end
of the table. Whether this happens is decided by the sizes of the entries alone.
-/

namespace Caos

open Lib

variable {mem mem' : ByteMemory} {mpc mpcLength : Nat}

/-- `offsetof(struct mp_config_table, mpc_lapic)` and the size of that field. -/
def mpcLapicEnd : Nat := 36 + 4

/-- `mpc_length` of the table at `mpc`. -/
def tableLength (mem : ByteMemory) (mpc : Nat) : Nat := (readConfigTable mem mpc).mpcLength.toNat

/-- The entries that the loop passes to a handler from `l` on lie inside the table. -/
def EntriesInside (mem : ByteMemory) (mpc mpcLength : Nat) (l : EntryLoop) : Prop :=
  ∀ t e, Visits (entryStep mem mpcLength) l t → t.count < mpcLength →
    entryAt mem t.mpt = some e → mpc ≤ t.mpt ∧ t.mpt + e.mpType.size ≤ mpc + mpcLength

/-- Everything that reaches a global comes from the first `mpc_length` bytes of the
table: each entry passed to a handler and the field `mpc_lapic` lie there, and other
bytes have no influence. -/
structure StaysInside (mem : ByteMemory) (mpc : Nat) : Prop where
  entries : EntriesInside mem mpc (tableLength mem mpc) (entryLoopStart mem mpc clearedGlobals)
  lapic : mpcLapicEnd ≤ tableLength mem mpc
  others : ∀ mem' : ByteMemory,
    (∀ addr, mpc ≤ addr → addr < mpc + tableLength mem mpc → mem' addr = mem addr) →
    ∀ fuel, smpReadMpc mem' mpc fuel clearedGlobals = smpReadMpc mem mpc fuel clearedGlobals

/-- How many interrupt sources an entry of this type counts for. -/
def MpType.irqs : MpType → Nat
  | .intsrc => 1
  | .processor | .bus | .ioapic | .lintsrc => 0

/-- The offset behind the last entry: entry sizes are added up from `offset` on, until
the sum reaches `mpcLength`, a type byte is unknown, or the interrupt sources reach their
limit. -/
def parsedEnd (mem : ByteMemory) (mpc mpcLength : Nat) : Nat → Nat → Nat → Nat
  | 0, _, offset => offset
  | fuel + 1, irqs, offset =>
    if offset < mpcLength then
      match MpType.ofByte? (mem (mpc + offset)) with
      | some t =>
        if irqs + t.irqs ≥ maxIrqSources then offset + t.size
        else parsedEnd mem mpc mpcLength fuel (irqs + t.irqs) (offset + t.size)
      | none => offset
    else offset

/-- The offset behind the last entry of the table at `mpc`. -/
def tableEnd (mem : ByteMemory) (mpc : Nat) : Nat :=
  parsedEnd mem mpc (tableLength mem mpc) (tableLength mem mpc) 0 sizeofMpConfigTable

/-! ## The loop and the byte pointer -/

/-- What an iteration does to `count` and `mpt`. -/
theorem entryStep_advance {l t : EntryLoop} (h : entryStep mem mpcLength l = .inl t) :
    t.mpt + l.count = l.mpt + t.count := by
  by_cases hlt : l.count < mpcLength
  · cases he : entryAt mem l.mpt with
    | none =>
        rw [entryStep_of_no_entry hlt he] at h
        cases h
        rfl
    | some e =>
        rw [entryStep_of_entry hlt he] at h
        cases hhandle : handleEntry l.globals e with
        | none =>
            rw [hhandle] at h
            cases h
        | some globals =>
            rw [hhandle] at h
            cases h
            simp only [EntryLoop.advance]
            omega
  · rw [entryStep_of_end hlt] at h
    cases h

/-- The byte pointer and the counter stay in step. -/
theorem visits_mpt {l t : EntryLoop} (hvisits : Visits (entryStep mem mpcLength) l t)
    (hmpt : l.mpt = mpc + l.count) : t.mpt = mpc + t.count := by
  apply hvisits.invariant (I := fun l => l.mpt = mpc + l.count) hmpt
  intro s t hs hstep
  have hadvance := entryStep_advance hstep
  omega

/-! ## The last entry decides -/

theorem le_parsedEnd (fuel irqs offset : Nat) :
    offset ≤ parsedEnd mem mpc mpcLength fuel irqs offset := by
  induction fuel generalizing irqs offset with
  | zero => exact Nat.le_refl _
  | succ fuel ih =>
      simp only [parsedEnd]
      split
      · split
        · next t _ =>
            split
            · exact Nat.le_add_right _ _
            · exact (Nat.le_add_right _ _).trans (ih _ _)
        · exact Nat.le_refl _
      · exact Nat.le_refl _

theorem interruptSources_of_type (e : MpEntry) :
    (interruptSources [e]).length = e.mpType.irqs := by
  cases e <;> rfl

theorem handleEntry_of_full {s : MpState} {e : MpEntry} (hroom : s.mpIrqEntries < maxIrqSources)
    (hfull : maxIrqSources ≤ s.mpIrqEntries + e.mpType.irqs) : handleEntry s e = none := by
  cases e with
  | intsrc m type => exact if_pos hfull
  | processor m type => exact absurd hfull (Nat.not_le.mpr hroom)
  | bus m type => exact absurd hfull (Nat.not_le.mpr hroom)
  | ioapic m type => exact absurd hfull (Nat.not_le.mpr hroom)
  | lintsrc m type => exact absurd hfull (Nat.not_le.mpr hroom)

theorem entriesInside_of_end {l : EntryLoop} (hge : ¬ l.count < mpcLength) :
    EntriesInside mem mpc mpcLength l := by
  intro t e hvisits hlt
  rcases visits_iff.mp hvisits with rfl | ⟨u, hu, _⟩
  · exact absurd hlt hge
  · rw [entryStep_of_end hge] at hu
    cases hu

theorem entriesInside_of_no_entry {l : EntryLoop} (hlt : l.count < mpcLength)
    (he : entryAt mem l.mpt = none) : EntriesInside mem mpc mpcLength l := by
  intro t e hvisits _ ht
  have hsame : t = l := by
    apply hvisits.invariant (I := (· = l)) rfl
    rintro u v rfl huv
    rw [entryStep_of_no_entry hlt he] at huv
    cases huv
    rfl
  rw [hsame, he] at ht
  cases ht

/-- An entry that halts the machine is the last one. -/
theorem entriesInside_of_halt {l : EntryLoop} {e : MpEntry} (hlt : l.count < mpcLength)
    (he : entryAt mem l.mpt = some e) (hhandle : handleEntry l.globals e = none)
    (hmpt : l.mpt = mpc + l.count) :
    EntriesInside mem mpc mpcLength l ↔ l.count + e.mpType.size ≤ mpcLength := by
  constructor
  · intro h
    have hl := (h l e .start hlt he).2
    omega
  · intro h t e' hvisits _ he'
    rcases visits_iff.mp hvisits with rfl | ⟨u, hu, _⟩
    · rw [he] at he'
      cases he'
      omega
    · rw [entryStep_of_entry hlt he, hhandle] at hu
      cases hu

theorem entriesInside_of_entry {l : EntryLoop} {e : MpEntry} {globals : MpState}
    (hlt : l.count < mpcLength) (he : entryAt mem l.mpt = some e)
    (hhandle : handleEntry l.globals e = some globals) (hmpt : l.mpt = mpc + l.count) :
    EntriesInside mem mpc mpcLength l ↔ l.count + e.mpType.size ≤ mpcLength ∧
      EntriesInside mem mpc mpcLength (l.advance e.mpType.size globals) := by
  have hstep := entryStep_of_entry hlt he
  rw [hhandle] at hstep
  constructor
  · intro h
    have hl := (h l e .start hlt he).2
    exact ⟨by omega, fun t e' hvisits => h t e' (hvisits.head hstep)⟩
  · rintro ⟨hsize, h⟩ t e' hvisits hlt' he'
    rcases visits_iff.mp hvisits with rfl | ⟨u, hu, hvisits'⟩
    · rw [he] at he'
      cases he'
      omega
    · rw [hstep] at hu
      cases hu
      exact h t e' hvisits' hlt' he'

/-- From any state of the loop on, the entries lie inside exactly when the last one
does not pass the end of the table. -/
theorem entriesInside_iff {fuel irqs offset : Nat} {l : EntryLoop} (hcount : l.count = offset)
    (hmpt : l.mpt = mpc + l.count) (hirqs : l.globals.mpIrqEntries = irqs)
    (hroom : irqs < maxIrqSources) (hfuel : mpcLength ≤ offset + fuel) :
    EntriesInside mem mpc mpcLength l ↔
      parsedEnd mem mpc mpcLength fuel irqs offset ≤ max offset mpcLength := by
  induction fuel generalizing irqs offset l with
  | zero =>
      exact iff_of_true (entriesInside_of_end (by omega)) (Nat.le_max_left _ _)
  | succ fuel ih =>
      rw [parsedEnd]
      by_cases hlt : offset < mpcLength
      · rw [if_pos hlt, Nat.max_eq_right (Nat.le_of_lt hlt)]
        rw [← hcount] at hlt
        cases he : entryAt mem l.mpt with
        | none =>
            have hinside : EntriesInside mem mpc mpcLength l := entriesInside_of_no_entry hlt he
            have htype : MpType.ofByte? (mem (mpc + offset)) = none := by
              rw [← hcount, ← hmpt, ← Option.not_isSome_iff_eq_none, MpType.ofByte?_isSome_iff]
              exact entryAt_eq_none_iff.mp he
            rw [htype]
            exact iff_of_true hinside (by dsimp only; omega)
        | some e =>
            have htype : MpType.ofByte? (mem (mpc + offset)) = some e.mpType := by
              rw [← hcount, ← hmpt, type_of_storedAt (entryAt_eq_some_iff.mp he),
                MpType.ofByte?_byte]
            rw [htype]
            dsimp only
            split
            · next hfull =>
                have hhandle : handleEntry l.globals e = none :=
                  handleEntry_of_full (hirqs ▸ hroom) (hirqs ▸ hfull)
                rw [entriesInside_of_halt hlt he hhandle hmpt, hcount]
            · next hnext =>
                obtain ⟨globals, hhandle, hirq⟩ := @handleEntry_of_room l.globals e (by
                  rw [interruptSources_of_type, hirqs]
                  omega)
                rw [interruptSources_of_type, hirqs] at hirq
                have hpos := e.mpType.size_pos
                rw [entriesInside_of_entry hlt he hhandle hmpt, hcount,
                  @ih (irqs + e.mpType.irqs) (offset + e.mpType.size)
                    (l.advance e.mpType.size globals) (by rw [← hcount]; rfl)
                    (by simp only [EntryLoop.advance]; omega) hirq (by omega) (by omega)]
                have hle : offset + e.mpType.size ≤ parsedEnd mem mpc mpcLength fuel
                  (irqs + e.mpType.irqs) (offset + e.mpType.size) := le_parsedEnd _ _ _
                omega
      · rw [if_neg hlt]
        exact iff_of_true (entriesInside_of_end (by omega)) (Nat.le_max_left _ _)

/-! ## Bytes behind the table -/

/-- The header reads nothing behind `mpc_lapic`. -/
theorem readConfigTable_congr (h : ∀ k, k < mpcLapicEnd → mem' (mpc + k) = mem (mpc + k)) :
    readConfigTable mem' mpc = readConfigTable mem mpc := by
  have h0 : mem' mpc = mem mpc := h 0 (by decide)
  simp only [readConfigTable, read16, read32, Nat.add_assoc, Nat.reduceAdd, h0, h 1 (by decide),
    h 2 (by decide), h 3 (by decide), h 4 (by decide), h 5 (by decide), h 6 (by decide),
    h 36 (by decide), h 37 (by decide), h 38 (by decide), h 39 (by decide)]

/-- An iteration at an entry inside the table reads nothing behind it. -/
theorem entryStep_congr {l : EntryLoop} (hmpt : l.mpt = mpc + l.count)
    (hinside : ∀ e, l.count < mpcLength → entryAt mem l.mpt = some e →
      mpc ≤ l.mpt ∧ l.mpt + e.mpType.size ≤ mpc + mpcLength)
    (hmem : ∀ addr, mpc ≤ addr → addr < mpc + mpcLength → mem' addr = mem addr) :
    entryStep mem' mpcLength l = entryStep mem mpcLength l := by
  by_cases hlt : l.count < mpcLength
  · cases he : entryAt mem l.mpt with
    | none =>
        have he' : entryAt mem' l.mpt = none := by
          rw [entryAt_eq_none_iff] at he ⊢
          rwa [hmem l.mpt (by omega) (by omega)]
        rw [entryStep_of_no_entry hlt he, entryStep_of_no_entry hlt he']
    | some e =>
        have hsize := (hinside e hlt he).2
        have he' : entryAt mem' l.mpt = some e := by
          rw [entryAt_eq_some_iff] at he ⊢
          apply he.congr
          intro addr hlo hhi
          rw [MpEntry.bytes_length] at hhi
          exact hmem addr (by omega) (by omega)
        rw [entryStep_of_entry hlt he, entryStep_of_entry hlt he']
  · rw [entryStep_of_end hlt, entryStep_of_end hlt]

theorem smpReadMpc_congr (hlapic : mpcLapicEnd ≤ tableLength mem mpc)
    (hinside : EntriesInside mem mpc (tableLength mem mpc)
      (entryLoopStart mem mpc clearedGlobals))
    (hmem : ∀ addr, mpc ≤ addr → addr < mpc + tableLength mem mpc → mem' addr = mem addr)
    (fuel : Nat) :
    smpReadMpc mem' mpc fuel clearedGlobals = smpReadMpc mem mpc fuel clearedGlobals := by
  have htable : readConfigTable mem' mpc = readConfigTable mem mpc := by
    apply readConfigTable_congr
    intro k hk
    exact hmem (mpc + k) (by omega) (by omega)
  have hstart : entryLoopStart mem' mpc clearedGlobals =
      entryLoopStart mem mpc clearedGlobals := by
    rw [entryLoopStart, htable, entryLoopStart]
  have hloop : iterate (entryStep mem' (tableLength mem mpc)) fuel
      (entryLoopStart mem mpc clearedGlobals) =
      iterate (entryStep mem (tableLength mem mpc)) fuel
        (entryLoopStart mem mpc clearedGlobals) := by
    apply iterate_congr
    intro t hvisits
    exact entryStep_congr (visits_mpt hvisits rfl) (fun e => hinside t e hvisits) hmem
  rw [tableLength] at hloop
  simp only [smpReadMpc, htable, hstart, hloop]

/-- For every header and every content of memory: `smp_read_mpc` stays inside the table
exactly when `mpc_length` covers the field `mpc_lapic` and the sizes of the entries do
not add up past `mpc_length`. -/
theorem smpReadMpc_inside_iff (mem : ByteMemory) (mpc : Nat) :
    StaysInside mem mpc ↔ mpcLapicEnd ≤ tableLength mem mpc ∧
      tableEnd mem mpc ≤ max sizeofMpConfigTable (tableLength mem mpc) := by
  have hentries : EntriesInside mem mpc (tableLength mem mpc)
      (entryLoopStart mem mpc clearedGlobals) ↔
      tableEnd mem mpc ≤ max sizeofMpConfigTable (tableLength mem mpc) :=
    entriesInside_iff rfl rfl rfl (by decide) (Nat.le_add_left _ _)
  constructor
  · intro h
    exact ⟨h.lapic, hentries.mp h.entries⟩
  · rintro ⟨hlapic, hend⟩
    have hinside := hentries.mpr hend
    exact ⟨hinside, hlapic, fun mem' hmem => smpReadMpc_congr hlapic hinside hmem⟩

/-- A table whose length ends in the middle of its interrupt-source entry. -/
def cutTable : ByteMemory := memoryOf (headerBytes 48 ++ [3, 0, 0, 0] ++ [1, 2, 3, 4])

/-- `mp_irqs` is filled from the four bytes behind this table. -/
theorem cut_entry_read : ValidHeader (readConfigTable cutTable 0) ∧ ¬ StaysInside cutTable 0 := by
  refine ⟨⟨by decide, by decide, by decide⟩, ?_⟩
  intro h
  have hentry : entryAt cutTable sizeofMpConfigTable = some (.intsrc ⟨3, 0, 0, 1, 2, 3, 4⟩ rfl) :=
    entryAt_eq_some_iff.mpr (by decide)
  have hend := (h.entries _ _ .start (by decide) hentry).2
  revert hend
  decide

end Caos
