import Caos.Types

/-!
The comparison functions of `string.c`. Both compare bytes as `unsigned char` or
`char` and return the first difference, widened to `size_t`.
-/

namespace Caos

/-- The bytes of a string literal, without the terminating NUL. -/
def literal (s : String) : List UInt8 := s.toList.map fun c => .ofNat c.toNat

/-- `caos_memcmp` on the first `count` bytes at `cs` and `ct`. -/
def caosMemcmp : List UInt8 → List UInt8 → Nat → Nat
  | c :: cs, t :: ct, count + 1 =>
    if sub64 c.toNat t.toNat ≠ 0 then sub64 c.toNat t.toNat else caosMemcmp cs ct count
  | _, _, _ => 0

/-- `(size_t)t` for a `char`, which is signed. -/
def charToSize (t : UInt8) : Nat :=
  if t.toNat < 2 ^ 7 then t.toNat else 2 ^ 64 - 2 ^ 8 + t.toNat

/-- `caos_strcmp`, on the bytes from `src` and `dst` on. The loop stops at the
first difference or at the NUL of `src`; a string has its NUL in the list. -/
def caosStrcmp : List UInt8 → List UInt8 → Nat
  | s :: src, d :: dst =>
    if s - d ≠ 0 ∨ s = 0 then charToSize (s - d) else caosStrcmp src dst
  | _, _ => 0

theorem sub64_eq_zero_iff {x y : Nat} (hx : x < 2 ^ 64) (hy : y < 2 ^ 64) :
    sub64 x y = 0 ↔ x = y := by
  rw [sub64]
  omega

theorem byte_sub_eq_zero_iff {s d : UInt8} : s - d = 0 ↔ s = d := by
  constructor
  · intro h
    have hsum := UInt8.sub_add_cancel s d
    rw [h, UInt8.zero_add] at hsum
    exact hsum.symm
  · rintro rfl
    exact UInt8.sub_self s

theorem charToSize_eq_zero_iff {t : UInt8} : charToSize t = 0 ↔ t = 0 := by
  rw [← UInt8.toNat_inj, charToSize]
  have hlt := t.toNat_lt
  rw [UInt8.toNat_zero]
  split
  · exact Iff.rfl
  · omega

/-- `caos_memcmp` returns 0 exactly when the compared bytes agree. -/
theorem caosMemcmp_eq_zero_iff {cs ct : List UInt8} {count : Nat}
    (hcs : count ≤ cs.length) (hct : count ≤ ct.length) :
    caosMemcmp cs ct count = 0 ↔ cs.take count = ct.take count := by
  induction count generalizing cs ct with
  | zero => simp [caosMemcmp]
  | succ count ih =>
      cases cs with
      | nil => simp at hcs
      | cons c cs =>
          cases ct with
          | nil => simp at hct
          | cons t ct =>
              have hbyte : sub64 c.toNat t.toNat = 0 ↔ c = t := by
                have hc := c.toNat_lt
                have ht := t.toNat_lt
                rw [sub64_eq_zero_iff (by omega) (by omega), UInt8.toNat_inj]
              have hrest := @ih cs ct (by simpa using hcs) (by simpa using hct)
              rw [caosMemcmp, List.take_succ_cons, List.take_succ_cons, List.cons.injEq]
              split
              · next hne => exact ⟨fun h => absurd h hne, fun h => absurd (hbyte.mpr h.1) hne⟩
              · next heq => rw [hrest, hbyte.mp (not_not.mp heq)]; simp

/-- Against a NUL-terminated string, `caos_strcmp` returns 0 exactly when `src`
starts with that string and its NUL. -/
theorem caosStrcmp_eq_zero_iff {src dst tail : List UInt8} (hdst : 0 ∉ dst)
    (hlen : dst.length < src.length) :
    caosStrcmp src (dst ++ 0 :: tail) = 0 ↔ (dst ++ [0]) <+: src := by
  induction dst generalizing src with
  | nil =>
      cases src with
      | nil => simp at hlen
      | cons s src =>
          simp only [List.nil_append, caosStrcmp]
          split <;> simp_all [charToSize_eq_zero_iff, eq_comm]
  | cons d dst ih =>
      cases src with
      | nil => simp at hlen
      | cons s src =>
          have hd : d ≠ 0 := by
            rintro rfl
            exact hdst List.mem_cons_self
          have hrest := @ih src (fun h => hdst (List.mem_cons_of_mem _ h)) (by simpa using hlen)
          rw [List.cons_append, List.cons_append, caosStrcmp, List.cons_prefix_cons]
          split
          · next hstop =>
              have hne : d ≠ s := by
                rintro rfl
                simp [hd] at hstop
              have hdiff : s - d ≠ 0 := mt byte_sub_eq_zero_iff.mp (Ne.symm hne)
              simp [charToSize_eq_zero_iff, hdiff, hne]
          · next hgo =>
              have heq : d = s := by
                by_contra hne
                exact hgo (.inl (mt byte_sub_eq_zero_iff.mp (Ne.symm hne)))
              rw [hrest]
              simp [heq]

/-- The string at an address: the bytes before the first NUL. -/
def cString (bytes : List UInt8) : List UInt8 := bytes.takeWhile (· ≠ 0)

theorem cString_cons (b : UInt8) (bytes : List UInt8) :
    cString (b :: bytes) = if b = 0 then [] else b :: cString bytes := by
  simp only [cString, List.takeWhile_cons, decide_not, Bool.not_eq_true', decide_eq_false_iff_not]
  split <;> simp_all

/-- On two terminated strings, `caos_strcmp` returns 0 exactly when they are equal. -/
theorem caosStrcmp_terminated {xs ys : List UInt8} :
    caosStrcmp (xs ++ [0]) (ys ++ [0]) = 0 ↔ cString xs = cString ys := by
  induction xs generalizing ys with
  | nil =>
      cases ys with
      | nil => simp [caosStrcmp, charToSize_eq_zero_iff]
      | cons y ys =>
          have hbyte : charToSize (0 - y) = 0 ↔ y = 0 := by
            rw [charToSize_eq_zero_iff, byte_sub_eq_zero_iff, eq_comm]
          simp only [List.nil_append, List.cons_append, caosStrcmp, or_true, if_true, hbyte,
            cString_cons]
          split <;> simp_all [cString]
  | cons x xs ih =>
      cases ys with
      | nil =>
          have hstop : x - 0 ≠ 0 ∨ x = 0 := by
            rw [Ne, byte_sub_eq_zero_iff]
            exact (Decidable.em (x = 0)).symm
          simp only [List.nil_append, List.cons_append, caosStrcmp, hstop, if_true,
            charToSize_eq_zero_iff, byte_sub_eq_zero_iff, cString_cons]
          split <;> simp_all [cString]
      | cons y ys =>
          simp only [List.cons_append, caosStrcmp, cString_cons]
          rcases eq_or_ne x y with rfl | hne
          · split
            · next hzero =>
                have hx : x = 0 := by simpa using hzero
                simp [hx, charToSize_eq_zero_iff]
            · next hgo =>
                have hx : x ≠ 0 := fun h => hgo (.inr h)
                simp only [ih, if_neg hx, List.cons.injEq, true_and]
          · have hdiff : x - y ≠ 0 := mt byte_sub_eq_zero_iff.mp hne
            simp only [hdiff, ne_eq, not_false_eq_true, true_or, if_true, charToSize_eq_zero_iff,
              false_iff]
            split <;> split <;> simp_all

end Caos
