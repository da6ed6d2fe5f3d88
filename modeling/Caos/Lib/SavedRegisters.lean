import Mathlib.Tactic

/-!
Registers saved on a stack of words that grows down, and restored from it. Restoring
pairs the registers with the saved ones in reverse: the register restored first gets
the value saved last.
-/

namespace Caos.Lib

/-- A stack pointer and the memory it points into, by words. -/
structure WordStack where
  sp : BitVec 64
  mem : BitVec 64 → BitVec 64

namespace WordStack

/-- The word `i` places above the top. -/
def word (st : WordStack) (i : Nat) : BitVec 64 := st.mem (st.sp + BitVec.ofNat 64 (8 * i))

def push (st : WordStack) (v : BitVec 64) : WordStack where
  sp := st.sp - 8#64
  mem := Function.update st.mem (st.sp - 8#64) v

/-- Drop `n` words. -/
def drop (st : WordStack) (n : Nat) : WordStack :=
  { st with sp := st.sp + BitVec.ofNat 64 (8 * n) }

def pushAll (st : WordStack) (vs : List (BitVec 64)) : WordStack := vs.foldl push st

variable (st : WordStack)

@[simp] theorem word_push_zero (v : BitVec 64) : (st.push v).word 0 = v := by
  simp [word, push]

/-- A push moves every word one place up, as long as the stack does not wrap around. -/
theorem word_push_succ (v : BitVec 64) {i : Nat} (hi : i + 1 < 2 ^ 61) :
    (st.push v).word (i + 1) = st.word i := by
  have haddr : st.sp - 8#64 + BitVec.ofNat 64 (8 * (i + 1)) =
      st.sp + BitVec.ofNat 64 (8 * i) := by
    apply BitVec.eq_of_toNat_eq
    simp only [BitVec.toNat_add, BitVec.toNat_sub, BitVec.toNat_ofNat]
    omega
  have hne : st.sp - 8#64 + BitVec.ofNat 64 (8 * (i + 1)) ≠ st.sp - 8#64 := by
    intro heq
    have hnat := congrArg BitVec.toNat heq
    simp only [BitVec.toNat_add, BitVec.toNat_sub, BitVec.toNat_ofNat] at hnat
    omega
  change Function.update st.mem (st.sp - 8#64) v _ = _
  rw [push, Function.update_of_ne hne, haddr, word]

theorem pushAll_concat (vs : List (BitVec 64)) (v : BitVec 64) :
    st.pushAll (vs ++ [v]) = (st.pushAll vs).push v := by
  simp [pushAll]

/-- The pushed words lie on the stack in reverse. -/
theorem word_pushAll {vs : List (BitVec 64)} (hlen : vs.length < 2 ^ 61) {i : Nat}
    {v : BitVec 64} (hv : vs.reverse[i]? = some v) : (st.pushAll vs).word i = v := by
  induction vs using List.reverseRecOn generalizing i with
  | nil => simp at hv
  | append_singleton vs w ih =>
      rw [List.length_append, List.length_singleton] at hlen
      rw [List.reverse_append, List.reverse_singleton, List.singleton_append] at hv
      rw [pushAll_concat]
      cases i with
      | zero =>
          rw [List.getElem?_cons_zero] at hv
          rw [word_push_zero]
          exact Option.some.inj hv
      | succ i =>
          rw [List.getElem?_cons_succ] at hv
          have hi := (List.getElem?_eq_some_iff.mp hv).1
          rw [List.length_reverse] at hi
          rw [word_push_succ _ _ (by omega), ih (by omega) hv]

theorem word_drop {n i : Nat} : (st.drop n).word i = st.word (n + i) := by
  have haddr : st.sp + BitVec.ofNat 64 (8 * n) + BitVec.ofNat 64 (8 * i) =
      st.sp + BitVec.ofNat 64 (8 * (n + i)) := by
    rw [Nat.mul_add, BitVec.ofNat_add, BitVec.add_assoc]
  rw [word, drop, haddr, word]

end WordStack

/-- A register file: what a register holds, widened to a word, and what it keeps of
a word it is loaded with. -/
structure RegisterFile (F R : Type*) where
  get : F → R → BitVec 64
  set : F → R → BitVec 64 → F
  keep : R → BitVec 64 → BitVec 64
  get_set : ∀ f r v, get (set f r v) r = keep r v
  get_set_of_ne : ∀ f r r' v, r' ≠ r → get (set f r v) r' = get f r'

namespace RegisterFile

variable {F R : Type*} (file : RegisterFile F R)

/-- Load `regs` with the words from the top of the stack on. -/
def load : List R → F → WordStack → F
  | [], f, _ => f
  | r :: rs, f, st => load rs (file.set f r (st.word 0)) (st.drop 1)

theorem get_load_of_notMem {regs : List R} {f : F} {st : WordStack} {r : R} (h : r ∉ regs) :
    file.get (file.load regs f st) r = file.get f r := by
  induction regs generalizing f st with
  | nil => rfl
  | cons r' rs ih =>
      rw [List.mem_cons, not_or] at h
      rw [load, ih h.2, file.get_set_of_ne _ _ _ _ h.1]

/-- Each register is loaded with the word of its place. -/
theorem get_load {regs : List R} (hnodup : regs.Nodup) {f : F} {st : WordStack} {i : Nat}
    {r : R} (hr : regs[i]? = some r) :
    file.get (file.load regs f st) r = file.keep r (st.word i) := by
  induction regs generalizing f st i with
  | nil => simp at hr
  | cons r' rs ih =>
      rw [List.nodup_cons] at hnodup
      rw [load]
      cases i with
      | zero =>
          rw [List.getElem?_cons_zero] at hr
          obtain rfl := Option.some.inj hr
          rw [file.get_load_of_notMem hnodup.1, file.get_set]
      | succ i =>
          rw [List.getElem?_cons_succ] at hr
          rw [ih hnodup.2 hr, WordStack.word_drop, Nat.add_comm]

/-- Registers loaded from words that still are what was saved: each gets what the
register saved at the mirrored place held. -/
theorem get_load_saved {saved restored : List R} (hnodup : restored.Nodup)
    (hshort : saved.length < 2 ^ 61) {f f' : F} {st st' : WordStack}
    (hframe : ∀ i < saved.length,
      st'.word i = (st.pushAll (saved.map (file.get f))).word i)
    {i : Nat} {r source : R} (hr : restored[i]? = some r)
    (hsource : saved.reverse[i]? = some source) :
    file.get (file.load restored f' st') r = file.keep r (file.get f source) := by
  have hi := (List.getElem?_eq_some_iff.mp hsource).1
  rw [List.length_reverse] at hi
  have hpushed : (saved.map (file.get f)).reverse[i]? = some (file.get f source) := by
    rw [← List.map_reverse, List.getElem?_map, hsource, Option.map_some]
  rw [file.get_load hnodup hr, hframe i hi, st.word_pushAll (by rwa [List.length_map]) hpushed]

end RegisterFile

end Caos.Lib
