import EdenCommon.Lib.Utf8Encoding
import EdenCommon.Proof.Utf8Reads

/-!
# The strings that `isValidUtf8` accepts

The scanner shifts and masks, an encoder divides: `encodeUtf8` says on numbers what the
shortest form of a value is. In front of a byte that is no continuation byte the scanner
answers in every case, and it accepts the rows of shortest forms of values below
`0x200000` and nothing else (`isValidUtf8_shortestForms`). Surrogates and values above
`0x10FFFF` are among these.

* `encodeUtf8_codePoint`: a sequence that the scanner lets through is the shortest form of
  its code point.
* `WellEncoded.encodeUtf8`: the scanner passes a shortest form, whatever the value below
  `0x200000`.
* `isValidUtf8_answers`: in front of a byte that is no continuation byte the scanner comes
  to an answer.
-/

namespace EdenCommon

open Lib

variable {num : ℕ} {c first : UInt8} {bits least : UInt32} {s continuations : Bytes} {v : ℕ}

/-! ### Bytes as numbers -/

theorem forall_byte {P : UInt8 → Prop} (h : ∀ n < 256, P (.ofNat n)) (c : UInt8) : P c := by
  have hc := h c.toNat c.toNat_lt
  rwa [UInt8.ofNat_toNat] at hc

theorem isBitSet_seven : ∀ c : UInt8, isBitSet c 7 = decide (0x80 ≤ c.toNat) :=
  forall_byte (by decide +kernel)

theorem isValidContinuation_eq : ∀ c : UInt8, isValidContinuation c = decide (0x80 ≤ c.toNat ∧ c.toNat < 0xC0) :=
  forall_byte (by decide +kernel)

theorem toNat_clearContinuationBit : ∀ c : UInt8, (clearContinuationBit c).toNat = c.toNat % 128 :=
  forall_byte (by decide +kernel)

theorem leadByte_eq : ∀ c : UInt8, 0x80 ≤ c.toNat → leadByte c =
    if c.toNat < 0xC0 then none
    else if c.toNat < 0xE0 then some (1, .ofNat (c.toNat % 32), 0x80)
    else if c.toNat < 0xF0 then some (2, .ofNat (c.toNat % 16), 0x800)
    else if c.toNat < 0xF8 then some (3, .ofNat (c.toNat % 8), 0x10000)
    else none :=
  forall_byte (by decide +kernel)

/-- A turn of the loop of `isValidContinuation`. -/
theorem toNat_shift (cp : UInt32) (hc : isValidContinuation c = true) (hcp : cp.toNat < 0x4000000) :
    ((cp <<< 6) ||| (clearContinuationBit c).toUInt32).toNat = cp.toNat * 64 + c.toNat % 64 := by
  rw [isValidContinuation_eq, decide_eq_true_eq] at hc
  have hclear : (clearContinuationBit c).toNat < 2 ^ 6 := by
    rw [toNat_clearContinuationBit]
    omega
  have hshift : cp.toNat <<< 6 % 2 ^ 32 = cp.toNat <<< 6 := by
    rw [Nat.shiftLeft_eq]
    omega
  rw [UInt32.toNat_or, UInt32.toNat_shiftLeft, UInt8.toNat_toUInt32]
  show cp.toNat <<< 6 % 2 ^ 32 ||| (clearContinuationBit c).toNat = _
  rw [hshift, ← Nat.shiftLeft_add_eq_or_of_lt hclear, Nat.shiftLeft_eq, toNat_clearContinuationBit]
  omega

/-- The code point of a sequence, on numbers. -/
theorem toNat_codePoint (bits : UInt32) (hcont : ∀ c ∈ continuations, isValidContinuation c = true)
    (hbits : (bits.toNat + 1) * 64 ^ continuations.length ≤ 0x100000000) :
    (codePoint bits continuations).toNat = continuations.foldl (fun v c => v * 64 + c.toNat % 64) bits.toNat := by
  induction continuations generalizing bits with
  | nil => rfl
  | cons c continuations ih =>
    rw [List.length_cons, Nat.pow_succ, Nat.mul_comm (64 ^ _), ← Nat.mul_assoc] at hbits
    have hpos : 1 ≤ 64 ^ continuations.length := Nat.one_le_pow _ _ (by omega)
    have hle := Nat.mul_le_mul_left ((bits.toNat + 1) * 64) hpos
    have hshift := toNat_shift bits (hcont c (by simp)) (by omega)
    rw [List.foldl_cons, ← hshift]
    refine ih _ (fun c hc => hcont c (by simp [hc])) (Nat.le_trans (Nat.mul_le_mul_right _ ?_) hbits)
    rw [hshift]
    omega

/-! ### Sequences and shortest forms -/

theorem ofNat_eq {n : ℕ} (h : n = c.toNat) : UInt8.ofNat n = c := by
  rw [h, UInt8.ofNat_toNat]

theorem toNat_of_isValidContinuation (hc : isValidContinuation c = true) : 0x80 ≤ c.toNat ∧ c.toNat < 0xC0 := by
  rwa [isValidContinuation_eq, decide_eq_true_eq] at hc

/-- **Soundness.** A sequence that the scanner lets through is the shortest form of its code point. -/
theorem encodeUtf8_codePoint (h7 : isBitSet first 7 = true) (hlead : leadByte first = some (num, bits, least))
    (hlen : continuations.length = num) (hcont : ∀ c ∈ continuations, isValidContinuation c = true)
    (hleast : least ≤ codePoint bits continuations) :
    (codePoint bits continuations).toNat < 0x200000 ∧
      encodeUtf8 (codePoint bits continuations).toNat = first :: continuations := by
  rw [isBitSet_seven, decide_eq_true_eq] at h7
  rw [leadByte_eq first h7] at hlead
  rw [UInt32.le_iff_toNat_le] at hleast
  split_ifs at hlead
  · obtain ⟨rfl, rfl, rfl⟩ : 1 = num ∧ UInt32.ofNat (first.toNat % 32) = bits ∧ 0x80 = least := by
      simpa using hlead
    obtain ⟨a, rfl⟩ := List.length_eq_one_iff.1 hlen
    have ha := toNat_of_isValidContinuation (hcont a (by simp))
    have hv := toNat_codePoint (.ofNat (first.toNat % 32)) hcont (by simp; omega)
    rw [show UInt32.toNat 0x80 = 0x80 from rfl] at hleast
    simp only [List.foldl_cons, List.foldl_nil, UInt32.toNat_ofNat'] at hv
    refine ⟨by omega, ?_⟩
    unfold encodeUtf8
    rw [if_neg (by omega), if_pos (by omega), ofNat_eq (c := first) (by omega), ofNat_eq (c := a) (by omega)]
  · obtain ⟨rfl, rfl, rfl⟩ : 2 = num ∧ UInt32.ofNat (first.toNat % 16) = bits ∧ 0x800 = least := by
      simpa using hlead
    obtain ⟨a, b, rfl⟩ := List.length_eq_two.1 hlen
    have ha := toNat_of_isValidContinuation (hcont a (by simp))
    have hb := toNat_of_isValidContinuation (hcont b (by simp))
    have hv := toNat_codePoint (.ofNat (first.toNat % 16)) hcont (by simp; omega)
    rw [show UInt32.toNat 0x800 = 0x800 from rfl] at hleast
    simp only [List.foldl_cons, List.foldl_nil, UInt32.toNat_ofNat'] at hv
    refine ⟨by omega, ?_⟩
    unfold encodeUtf8
    rw [if_neg (by omega), if_neg (by omega), if_pos (by omega), ofNat_eq (c := first) (by omega),
      ofNat_eq (c := a) (by omega), ofNat_eq (c := b) (by omega)]
  · obtain ⟨rfl, rfl, rfl⟩ : 3 = num ∧ UInt32.ofNat (first.toNat % 8) = bits ∧ 0x10000 = least := by
      simpa using hlead
    obtain ⟨a, b, d, rfl⟩ := List.length_eq_three.1 hlen
    have ha := toNat_of_isValidContinuation (hcont a (by simp))
    have hb := toNat_of_isValidContinuation (hcont b (by simp))
    have hd := toNat_of_isValidContinuation (hcont d (by simp))
    have hv := toNat_codePoint (.ofNat (first.toNat % 8)) hcont (by simp; omega)
    rw [show UInt32.toNat 0x10000 = 0x10000 from rfl] at hleast
    simp only [List.foldl_cons, List.foldl_nil, UInt32.toNat_ofNat'] at hv
    refine ⟨by omega, ?_⟩
    unfold encodeUtf8
    rw [if_neg (by omega), if_neg (by omega), if_neg (by omega), ofNat_eq (c := first) (by omega),
      ofNat_eq (c := a) (by omega), ofNat_eq (c := b) (by omega), ofNat_eq (c := d) (by omega)]

theorem isValidContinuation_ofNat (h : v < 64) : isValidContinuation (.ofNat (0x80 + v)) = true := by
  rw [isValidContinuation_eq, decide_eq_true_eq, UInt8.toNat_ofNat']
  omega

/-- **Completeness.** The scanner passes a shortest form. -/
theorem WellEncoded.encodeUtf8 (hv : v < 0x200000) (hs : WellEncoded s) : WellEncoded (encodeUtf8 v ++ s) := by
  unfold Lib.encodeUtf8
  split_ifs with h1 h2 h3
  · refine .ascii ?_ hs
    rw [isBitSet_seven, UInt8.toNat_ofNat', decide_eq_false_iff_not]
    omega
  · have hcont := isValidContinuation_ofNat (Nat.mod_lt v (show 0 < 64 by omega))
    have hfirst : (UInt8.ofNat (0xC0 + v / 64)).toNat = 0xC0 + v / 64 := by
      rw [UInt8.toNat_ofNat']
      omega
    refine @WellEncoded.sequence _ 1 (.ofNat (v / 64)) 0x80 [_] s ?_ ?_ rfl (by simpa using hcont) ?_ hs
    · rw [isBitSet_seven, decide_eq_true_eq]
      omega
    · rw [leadByte_eq _ (by omega), if_neg (by omega), if_pos (by omega), hfirst,
        show (0xC0 + v / 64) % 32 = v / 64 by omega]
    · rw [UInt32.le_iff_toNat_le, toNat_codePoint _ (by simpa using hcont) (by simp; omega)]
      simp only [List.foldl_cons, List.foldl_nil, UInt32.toNat_ofNat', UInt8.toNat_ofNat']
      show 0x80 ≤ _
      omega
  · have hlast := isValidContinuation_ofNat (Nat.mod_lt v (show 0 < 64 by omega))
    have hnext := isValidContinuation_ofNat (Nat.mod_lt (v / 64) (show 0 < 64 by omega))
    have hfirst : (UInt8.ofNat (0xE0 + v / 4096)).toNat = 0xE0 + v / 4096 := by
      rw [UInt8.toNat_ofNat']
      omega
    have hcont : ∀ c ∈ [UInt8.ofNat (0x80 + v / 64 % 64), UInt8.ofNat (0x80 + v % 64)], isValidContinuation c = true := by
      simp only [List.forall_mem_cons]
      exact ⟨hnext, hlast, by simp⟩
    refine @WellEncoded.sequence _ 2 (.ofNat (v / 4096)) 0x800 [_, _] s ?_ ?_ rfl hcont ?_ hs
    · rw [isBitSet_seven, decide_eq_true_eq]
      omega
    · rw [leadByte_eq _ (by omega), if_neg (by omega), if_neg (by omega), if_pos (by omega), hfirst,
        show (0xE0 + v / 4096) % 16 = v / 4096 by omega]
    · rw [UInt32.le_iff_toNat_le, toNat_codePoint _ hcont (by simp; omega)]
      simp only [List.foldl_cons, List.foldl_nil, UInt32.toNat_ofNat', UInt8.toNat_ofNat']
      show 0x800 ≤ _
      omega
  · have hlast := isValidContinuation_ofNat (Nat.mod_lt v (show 0 < 64 by omega))
    have hnext := isValidContinuation_ofNat (Nat.mod_lt (v / 64) (show 0 < 64 by omega))
    have hnext' := isValidContinuation_ofNat (Nat.mod_lt (v / 4096) (show 0 < 64 by omega))
    have hfirst : (UInt8.ofNat (0xF0 + v / 262144)).toNat = 0xF0 + v / 262144 := by
      rw [UInt8.toNat_ofNat']
      omega
    have hcont : ∀ c ∈ [UInt8.ofNat (0x80 + v / 4096 % 64), UInt8.ofNat (0x80 + v / 64 % 64), UInt8.ofNat (0x80 + v % 64)],
        isValidContinuation c = true := by
      simp only [List.forall_mem_cons]
      exact ⟨hnext', hnext, hlast, by simp⟩
    refine @WellEncoded.sequence _ 3 (.ofNat (v / 262144)) 0x10000 [_, _, _] s ?_ ?_ rfl hcont ?_ hs
    · rw [isBitSet_seven, decide_eq_true_eq]
      omega
    · rw [leadByte_eq _ (by omega), if_neg (by omega), if_neg (by omega), if_neg (by omega), if_pos (by omega), hfirst,
        show (0xF0 + v / 262144) % 8 = v / 262144 by omega]
    · rw [UInt32.le_iff_toNat_le, toNat_codePoint _ hcont (by simp; omega)]
      simp only [List.foldl_cons, List.foldl_nil, UInt32.toNat_ofNat', UInt8.toNat_ofNat']
      show 0x10000 ≤ _
      omega

theorem wellEncoded_iff_shortestForms : WellEncoded s ↔ ShortestForms s := by
  constructor
  · intro h
    induction h with
    | nil => exact .nil
    | @ascii c s hc hs ih =>
      rw [isBitSet_seven, decide_eq_false_iff_not] at hc
      have hform : Lib.encodeUtf8 c.toNat = [c] := by
        unfold Lib.encodeUtf8
        rw [if_pos (by omega), UInt8.ofNat_toNat]
      have hrow := ShortestForms.cons (v := c.toNat) (by omega) ih
      rwa [hform] at hrow
    | @sequence first num bits least continuations s h7 hlead hlen hcont hleast hs ih =>
      obtain ⟨hv, hform⟩ := encodeUtf8_codePoint h7 hlead hlen hcont hleast
      have hrow := ShortestForms.cons hv ih
      rwa [hform] at hrow
  · rintro ⟨vs, hvs, rfl⟩
    induction vs with
    | nil => exact .nil
    | cons v vs ih => exact .encodeUtf8 (hvs v (by simp)) (ih fun w hw => hvs w (by simp [hw]))

/-- What is accepted in a `std::string`. -/
theorem acceptedUtf8_iff_shortestForms : AcceptedUtf8 s ↔ ShortestForms s := by
  rw [acceptedUtf8_iff_wellEncoded, wellEncoded_iff_shortestForms]

theorem isValidUtf8_answers {b : UInt8} (hb : isValidContinuation b = false) (s t : Bytes) :
    ∃ r, isValidUtf8 s (b :: t) = some r ∧ (r = true ↔ ShortestForms s) := by
  refine ⟨_, isValidUtf8_eq hb s t, ?_⟩
  rw [← acceptedUtf8_iff_shortestForms, ← isValidUtf8_iff hb s t, isValidUtf8_eq hb s t, Option.some_inj]

/-- **What `isValidUtf8` accepts** in front of a byte that is no continuation byte: the rows of
shortest forms of values below `0x200000`. -/
theorem isValidUtf8_shortestForms (s t : Bytes) (b : UInt8) (hb : isValidContinuation b = false) :
    ∃ r, isValidUtf8 s (b :: t) = some r ∧ (r = true ↔ ShortestForms s) :=
  isValidUtf8_answers hb s t

/-- A surrogate in front of the terminating NUL. -/
theorem isValidUtf8_shortestForms_surrogate :
    ∃ r, isValidUtf8 [0xED, 0xA0, 0x80] [0] = some r ∧ (r = true ↔ ShortestForms [0xED, 0xA0, 0x80]) :=
  isValidUtf8_shortestForms [0xED, 0xA0, 0x80] [] 0 (by decide)

end EdenCommon
