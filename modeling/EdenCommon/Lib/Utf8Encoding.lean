import Mathlib.Algebra.GroupWithZero.Nat
import Mathlib.Data.List.Basic
import Mathlib.Tactic.SplitIfs

/-!
# UTF-8 as an encoding of numbers

The shortest form of a number in one to four bytes, which leaves 21 bits, and the rows
of such forms. Unicode encodes its scalar values this way and nothing else; the other
numbers of 21 bits, surrogates and values above `0x10FFFF`, have a form all the same.

* `utf8Value_encodeUtf8`: a form gives its number back.
* `encodeUtf8_append_inj`: no form is the beginning of another one.
* `flatMap_encodeUtf8_inj`: a row of forms is read in one way only.
-/

namespace Lib

variable {v w : ℕ} {vs ws : List ℕ} {s t : List UInt8}

/-- The shortest form of `v`, for `v` of at most 21 bits. -/
def encodeUtf8 (v : ℕ) : List UInt8 :=
  if v < 0x80 then [.ofNat v]
  else if v < 0x800 then [.ofNat (0xC0 + v / 64), .ofNat (0x80 + v % 64)]
  else if v < 0x10000 then [.ofNat (0xE0 + v / 4096), .ofNat (0x80 + v / 64 % 64), .ofNat (0x80 + v % 64)]
  else
    [.ofNat (0xF0 + v / 262144), .ofNat (0x80 + v / 4096 % 64), .ofNat (0x80 + v / 64 % 64), .ofNat (0x80 + v % 64)]

/-- The Unicode scalar values: no surrogates, nothing above `0x10FFFF`. -/
def IsScalar (v : ℕ) : Prop := v < 0xD800 ∨ 0xDFFF < v ∧ v < 0x110000

instance (v : ℕ) : Decidable (IsScalar v) := inferInstanceAs (Decidable (_ ∨ _))

/-- A row of shortest forms. -/
def ShortestForms (s : List UInt8) : Prop := ∃ vs : List ℕ, (∀ v ∈ vs, v < 0x200000) ∧ s = vs.flatMap encodeUtf8

/-- A row of shortest forms of scalar values: UTF-8 as Unicode has it. -/
def StrictUtf8 (s : List UInt8) : Prop := ∃ vs : List ℕ, (∀ v ∈ vs, IsScalar v) ∧ s = vs.flatMap encodeUtf8

theorem IsScalar.lt (h : IsScalar v) : v < 0x200000 := by
  unfold IsScalar at h
  omega

theorem ShortestForms.nil : ShortestForms [] := ⟨[], by simp, rfl⟩

/-- One more value in its shortest form. -/
theorem ShortestForms.cons (hv : v < 0x200000) (h : ShortestForms s) : ShortestForms (encodeUtf8 v ++ s) := by
  obtain ⟨vs, hvs, rfl⟩ := h
  exact ⟨v :: vs, by simpa [hv] using hvs, rfl⟩

theorem StrictUtf8.nil : StrictUtf8 [] := ⟨[], by simp, rfl⟩

/-- One more scalar value. -/
theorem StrictUtf8.cons (hv : IsScalar v) (h : StrictUtf8 s) : StrictUtf8 (encodeUtf8 v ++ s) := by
  obtain ⟨vs, hvs, rfl⟩ := h
  exact ⟨v :: vs, by simpa [hv] using hvs, rfl⟩

/-- A row is empty or starts with a form. -/
theorem StrictUtf8.eq_nil_or_cons (h : StrictUtf8 s) :
    s = [] ∨ ∃ v t, IsScalar v ∧ s = encodeUtf8 v ++ t ∧ StrictUtf8 t := by
  obtain ⟨vs, hvs, rfl⟩ := h
  cases vs with
  | nil => exact .inl rfl
  | cons v vs => exact .inr ⟨v, _, hvs v (by simp), List.flatMap_cons, vs, fun w hw => hvs w (by simp [hw]), rfl⟩

/-! ### Reading a form -/

/-- How many bytes the form has that starts with `first`. -/
def utf8Length (first : UInt8) : ℕ :=
  if first.toNat < 0x80 then 1 else if first.toNat < 0xE0 then 2 else if first.toNat < 0xF0 then 3 else 4

/-- The number of a form. -/
def utf8Value : List UInt8 → ℕ
  | [a] => a.toNat
  | [a, b] => a.toNat % 32 * 64 + b.toNat % 64
  | [a, b, c] => (a.toNat % 16 * 64 + b.toNat % 64) * 64 + c.toNat % 64
  | [a, b, c, d] => ((a.toNat % 8 * 64 + b.toNat % 64) * 64 + c.toNat % 64) * 64 + d.toNat % 64
  | _ => 0

/-- **Round trip** of a value. -/
theorem utf8Value_encodeUtf8 (hv : v < 0x200000) : utf8Value (encodeUtf8 v) = v := by
  unfold encodeUtf8
  split_ifs <;> simp only [utf8Value, UInt8.toNat_ofNat'] <;> omega

/-- The first byte tells the length. -/
theorem encodeUtf8_eq_cons (hv : v < 0x200000) :
    ∃ first rest, encodeUtf8 v = first :: rest ∧ rest.length + 1 = utf8Length first := by
  unfold encodeUtf8
  split_ifs <;> refine ⟨_, _, rfl, ?_⟩ <;> simp only [utf8Length, UInt8.toNat_ofNat', List.length_cons, List.length_nil] <;>
    split_ifs <;> omega

theorem encodeUtf8_ne_nil (v : ℕ) : encodeUtf8 v ≠ [] := by
  unfold encodeUtf8
  split_ifs <;> simp

/-- **No form is the beginning of another one.** -/
theorem encodeUtf8_append_inj (hv : v < 0x200000) (hw : w < 0x200000) (h : encodeUtf8 v ++ s = encodeUtf8 w ++ t) :
    v = w ∧ s = t := by
  obtain ⟨a, r, ha, hr⟩ := encodeUtf8_eq_cons hv
  obtain ⟨b, q, hb, hq⟩ := encodeUtf8_eq_cons hw
  have hab : a = b := by
    rw [ha, hb] at h
    exact (List.cons.inj h).1
  have hlen : (encodeUtf8 v).length = (encodeUtf8 w).length := by
    rw [ha, hb, List.length_cons, List.length_cons, hr, hq, hab]
  obtain ⟨henc, hst⟩ := List.append_inj h hlen
  refine ⟨?_, hst⟩
  rw [← utf8Value_encodeUtf8 hv, henc, utf8Value_encodeUtf8 hw]

/-- What is left of a strict row behind its first form is strict. -/
theorem StrictUtf8.of_append (hv : IsScalar v) (hs : s = encodeUtf8 v ++ t) (h : StrictUtf8 s) : StrictUtf8 t := by
  rcases h.eq_nil_or_cons with hnil | ⟨w, t', hw, hs', ht'⟩
  · rw [hnil] at hs
    exact absurd (List.append_eq_nil_iff.1 hs.symm).1 (encodeUtf8_ne_nil v)
  · obtain ⟨-, rfl⟩ := encodeUtf8_append_inj hv.lt hw.lt (hs.symm.trans hs')
    exact ht'

/-- **A row of forms is read in one way only.** -/
theorem flatMap_encodeUtf8_inj (hvs : ∀ v ∈ vs, v < 0x200000) (hws : ∀ w ∈ ws, w < 0x200000)
    (h : vs.flatMap encodeUtf8 = ws.flatMap encodeUtf8) : vs = ws := by
  induction vs generalizing ws with
  | nil =>
    cases ws with
    | nil => rfl
    | cons w ws =>
      rw [List.flatMap_cons] at h
      exact absurd (List.append_eq_nil_iff.1 h.symm).1 (encodeUtf8_ne_nil w)
  | cons v vs ih =>
    cases ws with
    | nil =>
      rw [List.flatMap_cons] at h
      exact absurd (List.append_eq_nil_iff.1 h).1 (encodeUtf8_ne_nil v)
    | cons w ws =>
      rw [List.flatMap_cons, List.flatMap_cons] at h
      obtain ⟨rfl, hrest⟩ := encodeUtf8_append_inj (hvs v (by simp)) (hws w (by simp)) h
      rw [ih (fun v hv => hvs v (by simp [hv])) (fun w hw => hws w (by simp [hw])) hrest]

end Lib
