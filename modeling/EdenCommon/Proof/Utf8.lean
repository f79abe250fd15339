import EdenCommon.Spec.Utf8

/-!
# `isValidUtf8` in front of a byte that is no continuation byte

If the byte at `end` is not a continuation byte, the read past the end makes the
scanner answer `false` there and then, and the answer is a function of the range
alone (`isValidUtf8_eq`). Every check the path types make is of this kind: the range
is followed by a separator or by the NUL of a `std::string`.

* `readContinuations_eq`: reading past the range stops at the byte behind it.
* `isValidUtf8_iff`: in front of such a byte the scanner accepts what it accepts in a
  `std::string`, whatever stands further behind.
-/

namespace EdenCommon

/-- `num` continuation bytes read inside a range. -/
def takeContinuations : ℕ → Bytes → UInt32 → Option (Bytes × UInt32)
  | 0, s, cp => some (s, cp)
  | _ + 1, [], _ => none
  | num + 1, c :: s, cp =>
    if isValidContinuation c then
      takeContinuations num s ((cp <<< 6) ||| (clearContinuationBit c).toUInt32)
    else none

/-- The scanner that stays inside its range. -/
def strictUtf8 : ℕ → Bytes → Bool
  | 0, _ => false
  | _ + 1, [] => true
  | fuel + 1, first :: s =>
    if !isBitSet first 7 then strictUtf8 fuel s
    else
      match leadByte first with
      | none => false
      | some (num, bits, least) =>
        match takeContinuations num s bits with
        | none => false
        | some (s', cp) => if cp < least then false else strictUtf8 fuel s'

theorem takeContinuations_length {num : ℕ} {s s' : Bytes} {cp cp' : UInt32} :
    takeContinuations num s cp = some (s', cp') → s.length = s'.length + num := by
  induction num generalizing s cp with
  | zero => intro h; simp [takeContinuations] at h; rw [h.1]; rfl
  | succ num ih =>
    intro h
    cases s with
    | nil => simp [takeContinuations] at h
    | cons c s =>
      unfold takeContinuations at h
      split at h
      · have := ih h; simp only [List.length_cons]; omega
      · simp at h

/-- Reading past the range stops at the byte behind it. -/
theorem readContinuations_eq {b : UInt8} (hb : isValidContinuation b = false) (t : Bytes) (num : ℕ) :
    ∀ (s : Bytes) (cp : UInt32), readContinuations num (s ++ b :: t) cp =
      some ((takeContinuations num s cp).map fun r => (r.1 ++ b :: t, r.2)) := by
  induction num with
  | zero => intro s cp; simp [readContinuations, takeContinuations]
  | succ num ih =>
    intro s cp
    cases s with
    | nil => simp [readContinuations, takeContinuations, hb]
    | cons c s =>
      simp only [List.cons_append, readContinuations, takeContinuations]
      split
      · rw [ih]
      · rfl

theorem isValidContinuations_eq {b : UInt8} (hb : isValidContinuation b = false) (t s : Bytes) (num : ℕ)
    (cp : UInt32) : isValidContinuations (s ++ b :: t) s.length num cp =
      some ((takeContinuations num s cp).map fun r => (r.1 ++ b :: t, r.2)) := by
  unfold isValidContinuations
  rw [readContinuations_eq hb]
  split
  · rename_i hlt
    cases h : takeContinuations num s cp with
    | none => rfl
    | some r => obtain ⟨s', cp'⟩ := r
                have := takeContinuations_length h; omega
  · rfl

theorem isValidUtf8Loop_eq {b : UInt8} (hb : isValidContinuation b = false) (t : Bytes) :
    ∀ (f g : ℕ) (s : Bytes), s.length < f → s.length < g →
      isValidUtf8Loop f (s ++ b :: t) s.length = some (strictUtf8 g s) := by
  intro f
  induction f with
  | zero => intro g s h; omega
  | succ f ih =>
    intro g s hf hg
    obtain ⟨g, rfl⟩ : ∃ g', g = g' + 1 := ⟨g - 1, by omega⟩
    cases s with
    | nil => simp [isValidUtf8Loop, strictUtf8]
    | cons first s =>
      have hroom : ((first :: s).length : ℤ) - 1 = (s.length : ℤ) := by simp
      have hne : ((first :: s).length : ℤ) ≠ 0 := by simp; omega
      simp only [List.length_cons] at hf hg
      unfold isValidUtf8Loop strictUtf8
      rw [if_neg hne, List.cons_append]
      simp only [hroom]
      split
      · exact ih g s (by omega) (by omega)
      · cases leadByte first with
        | none => rfl
        | some l =>
          obtain ⟨num, bits, least⟩ := l
          simp only [isValidContinuations_eq hb]
          cases ht : takeContinuations num s bits with
          | none => rfl
          | some r =>
            obtain ⟨s', cp⟩ := r
            have hlen := takeContinuations_length ht
            simp only [Option.map_some]
            split
            · rfl
            · rw [show (s.length : ℤ) - num = (s'.length : ℤ) by omega]
              exact ih g s' (by omega) (by omega)

/-- **The answer of `isValidUtf8`** in front of a byte that is no continuation byte. -/
theorem isValidUtf8_eq {b : UInt8} (hb : isValidContinuation b = false) (s t : Bytes) :
    isValidUtf8 s (b :: t) = some (strictUtf8 (s.length + 1) s) :=
  isValidUtf8Loop_eq hb t _ _ s (by omega) (by omega)

/-- In front of such a byte the scanner accepts what it accepts in a `std::string`. -/
theorem isValidUtf8_iff {b : UInt8} (hb : isValidContinuation b = false) (s t : Bytes) :
    isValidUtf8 s (b :: t) = some true ↔ AcceptedUtf8 s := by
  unfold AcceptedUtf8 nulTerminator
  rw [isValidUtf8_eq hb, isValidUtf8_eq (by decide)]

end EdenCommon
