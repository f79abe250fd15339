import EdenCommon.Proof.PathMap
import EdenCommon.Spec.PathCompare
import Mathlib.Order.RelClasses

/-!
# Equality and order of paths agree

Both are read off the folded key: `isPathPieceLess` is its order and `isPathPieceEqual`
its equality (`isPathPieceEqual_iff`), although one lowers signed characters and the
other asks `folly` about pairs of bytes. So the order is a strict weak order whose
incomparable paths are the equal ones (`pathPiece_order`).

* `compare_iff`: what `comparePathPiece` answers is the comparison of the folded keys. Its
  three results are transitive and swap with the arguments.
* `hashValue_eq`: the keys of equal paths hold the same bytes, so equal paths are hashed
  alike.
* `pathPiece_order`: order, equality and hash agree for every path type, both platforms and
  both case sensitivities.
-/

namespace EdenCommon

variable {K : Type} [PathPiece K] {P : Platform} {cs : CaseSensitivity} {fold : UInt8 → UInt8 → Bool}

/-! ### Equality is equality of folded keys -/

theorem toLower_toNat (x : UInt8) :
    (toLower x).toNat = if 65 ≤ x.toNat ∧ x.toNat ≤ 90 then x.toNat + 32 else x.toNat := by
  unfold toLower
  have hle : (0x41 ≤ x ∧ x ≤ 0x5A) ↔ (65 ≤ x.toNat ∧ x.toNat ≤ 90) := by
    rw [UInt8.le_iff_toNat_le, UInt8.le_iff_toNat_le]; rfl
  by_cases h : 0x41 ≤ x ∧ x ≤ 0x5A
  · have h' := hle.1 h
    rw [if_pos h, if_pos h', UInt8.toNat_add]
    exact Nat.mod_eq_of_lt (by have := h'.2; simp; omega)
  · rw [if_neg h, if_neg fun h' => h (hle.2 h')]

/-- Two bytes are lowered alike iff they are equal or the same letter up to case. -/
theorem toLower_eq_iff (x y : UInt8) : toLower x = toLower y ↔ x = y ∨ SameLetter x y := by
  have hadd : ∀ z w : UInt8, z.toNat ≤ 90 → (w = z + 0x20 ↔ w.toNat = z.toNat + 32) := by
    intro z w hz
    rw [← UInt8.toNat_inj, UInt8.toNat_add, Nat.mod_eq_of_lt (by simp; omega)]
    rfl
  have hx := toLower_toNat x
  have hy := toLower_toNat y
  have hle : ∀ z : UInt8, (0x41 ≤ z ↔ 65 ≤ z.toNat) ∧ (z ≤ 0x5A ↔ z.toNat ≤ 90) :=
    fun z => ⟨UInt8.le_iff_toNat_le, UInt8.le_iff_toNat_le⟩
  rw [← UInt8.toNat_inj, ← UInt8.toNat_inj]
  unfold SameLetter
  simp only [(hle _).1, (hle _).2]
  constructor
  · intro h
    rw [hx, hy] at h
    split at h <;> split at h <;> rename_i h1 h2
    · exact .inl (by omega)
    · exact .inr (.inl ⟨h1.1, h1.2, (hadd x y h1.2).2 h.symm⟩)
    · exact .inr (.inr ⟨h2.1, h2.2, (hadd y x h2.2).2 h⟩)
    · exact .inl h
  · rintro (h | ⟨h1, h2, h3⟩ | ⟨h1, h2, h3⟩)
    · rw [hx, hy, h]
    · rw [hadd x y h2] at h3
      rw [hx, hy, if_pos ⟨h1, h2⟩, if_neg (by omega), h3]
    · rw [hadd y x h2] at h3
      rw [hx, hy, if_pos (show 65 ≤ y.toNat ∧ y.toNat ≤ 90 from ⟨h1, h2⟩), if_neg (by omega), h3]

/-- Signed bytes are compared, and different bytes stay different. -/
theorem toInt8_toInt_inj {x y : UInt8} (h : x.toInt8.toInt = y.toInt8.toInt) : x = y := by
  have := Int8.toInt_inj.1 h
  simpa using congrArg Int8.toUInt8 this

/-- Two bytes are folded alike if they are the same letter. -/
theorem foldChar_insensitive_iff (x y : UInt8) :
    foldChar .insensitive x = foldChar .insensitive y ↔ x = y ∨ SameLetter x y := by
  rw [← toLower_eq_iff]
  exact ⟨fun h => toInt8_toInt_inj h, fun h => by simp only [foldChar, h]⟩

theorem foldChar_sensitive_injective : Function.Injective (foldChar .sensitive) := by
  intro x y h
  exact UInt8.toNat_inj.1 (Int.ofNat_inj.1 h)

/-- Comparing ranges elementwise is comparing the lists of what the comparison sees. -/
theorem rangeEqual_iff {α β : Type} {equal : α → α → Bool} {f : α → β}
    (h : ∀ a b, equal a b = true ↔ f a = f b) :
    ∀ l r : List α, rangeEqual equal l r = true ↔ l.map f = r.map f := by
  intro l
  induction l with
  | nil => intro r; cases r <;> simp [rangeEqual]
  | cons a l ih =>
    intro r
    cases r with
    | nil => simp [rangeEqual]
    | cons b r => simp [rangeEqual, h, ih]

/-- What is assumed of `folly::AsciiCaseInsensitive`. -/
def FoldsAscii (fold : UInt8 → UInt8 → Bool) : Prop := ∀ x y, fold x y = true ↔ x = y ∨ SameLetter x y

/-- Two texts are equal if their folded bytes are. -/
theorem stringEqual_iff (hfold : FoldsAscii fold) (cs : CaseSensitivity) (l r : Bytes) :
    stringEqual fold cs l r = true ↔ l.map (foldChar cs) = r.map (foldChar cs) := by
  cases cs with
  | sensitive =>
    simp only [stringEqual, beq_iff_eq]
    exact (List.map_inj_right foldChar_sensitive_injective).symm
  | insensitive => exact rangeEqual_iff (fun x y => (hfold x y).trans (foldChar_insensitive_iff x y).symm) l r

/-- **Equality of paths** is equality of the folded keys. -/
theorem isPathPieceEqual_iff (hfold : FoldsAscii fold) (left right : K) :
    isPathPieceEqual fold P cs left right = true ↔ foldKey P cs left = foldKey P cs right := by
  unfold isPathPieceEqual foldKey
  rcases (PathPiece.components : Option (Platform → K → List Bytes)) with - | components
  · simp [stringEqual_iff hfold]
  · cases P.kIsWindows with
    | false => simp [stringEqual_iff hfold]
    | true => exact rangeEqual_iff (stringEqual_iff hfold cs) _ _

/-- The `operator==` of the two composed types is the sensitive equality. -/
theorem rangeEqual_stringEqual (l r : List Bytes) :
    rangeEqual (stringEqual fold .sensitive) l r = (l == r) := by
  have h := @rangeEqual_iff _ _ (stringEqual fold .sensitive) id (fun a b => by simp [stringEqual]) l r
  rw [List.map_id, List.map_id] at h
  rw [Bool.eq_iff_iff, h, beq_iff_eq]

/-- `==` of relative paths is the comparison with regard to case. -/
theorem relativePath_eq (a b : RelativePath) : a.eq P b = isPathPieceEqual fold P .sensitive a b := by
  cases P with
  | posix => rfl
  | windows => exact (rangeEqual_stringEqual _ _).symm

theorem absolutePath_eq (a b : AbsolutePath) : a.eq P b = isPathPieceEqual fold P .sensitive a b := by
  cases P with
  | posix => rfl
  | windows => exact (rangeEqual_stringEqual _ _).symm

/-! ### The order -/

/-- **Equal** means equal keys. -/
theorem compare_equal_iff (hfold : FoldsAscii fold) (a b : K) :
    comparePathPiece fold P cs a b = .equal ↔ foldKey P cs a = foldKey P cs b := by
  rw [← isPathPieceEqual_iff hfold]
  unfold comparePathPiece
  split_ifs with h1 h2 <;> simp [h1]

/-- **Before** means a smaller key. -/
theorem compare_before_iff (hfold : FoldsAscii fold) (a b : K) :
    comparePathPiece fold P cs a b = .before ↔ foldKey P cs a < foldKey P cs b := by
  have heq := @isPathPieceEqual_iff K _ P cs fold hfold a b
  have hlt := @isPathPieceLess_iff K _ P cs a b
  unfold comparePathPiece
  by_cases h1 : isPathPieceEqual fold P cs a b = true
  · rw [if_pos h1, heq.1 h1]; simp
  · rw [if_neg h1, ← hlt]
    split_ifs with h2 <;> simp [h2]

theorem compare_after_iff (hfold : FoldsAscii fold) (a b : K) :
    comparePathPiece fold P cs a b = .after ↔ foldKey P cs b < foldKey P cs a := by
  have h1 := @compare_equal_iff K _ P cs fold hfold a b
  have h2 := @compare_before_iff K _ P cs fold hfold a b
  rcases lt_trichotomy (foldKey P cs a) (foldKey P cs b) with h | h | h
  · rw [h2.2 h]; simp [h.not_gt]
  · rw [h1.2 h]; simp [h]
  · cases hc : comparePathPiece fold P cs a b with
    | equal => exact absurd (h1.1 hc) h.ne'
    | before => exact absurd (h2.1 hc) h.not_gt
    | after => simp [h]

/-- What `comparePathPiece` answers, as a comparison of the folded keys. -/
theorem compare_iff (hfold : FoldsAscii fold) (a b : K) (r : CompareResult) :
    comparePathPiece fold P cs a b = r ↔
      match r with
      | .equal => foldKey P cs a = foldKey P cs b
      | .before => foldKey P cs a < foldKey P cs b
      | .after => foldKey P cs b < foldKey P cs a := by
  cases r with
  | equal => exact compare_equal_iff hfold a b
  | before => exact compare_before_iff hfold a b
  | after => exact compare_after_iff hfold a b

/-- A swap of the arguments swaps the result. -/
theorem compare_swap (hfold : FoldsAscii fold) (a b : K) :
    comparePathPiece fold P cs b a = (comparePathPiece fold P cs a b).swap := by
  have h := (@compare_iff K _ P cs fold hfold a b _).1 rfl
  rw [compare_iff hfold]
  cases hr : comparePathPiece fold P cs a b with
  | equal => rw [hr] at h; exact h.symm
  | before => rw [hr] at h; exact h
  | after => rw [hr] at h; exact h

/-- All three results are transitive. -/
theorem compare_trans (hfold : FoldsAscii fold) {a b c : K} {r : CompareResult}
    (hab : comparePathPiece fold P cs a b = r) (hbc : comparePathPiece fold P cs b c = r) :
    comparePathPiece fold P cs a c = r := by
  rw [compare_iff hfold] at *
  cases r with
  | equal => exact Eq.trans hab hbc
  | before => exact lt_trans hab hbc
  | after => exact lt_trans hbc hab

/-- `isPathPieceLess` is a strict weak order. -/
theorem strictWeakOrder : IsStrictWeakOrder K fun a b => isPathPieceLess P cs a b = true := by
  simp only [isPathPieceLess_iff]
  refine { irrefl := fun a => lt_irrefl _, trans := fun a b c => lt_trans, incomp_trans := ?_ }
  simp only [not_lt]
  exact fun a b c hab hbc => ⟨hbc.1.trans hab.1, hab.2.trans hbc.2⟩

/-- The keys of equal paths hold the same bytes, so they are hashed alike. -/
theorem hashValue_eq (H : SpookyHashV2) {a b : K} (h : isPathPieceEqual fold P .sensitive a b = true) :
    hashValue H P a = hashValue H P b := by
  have hstr : ∀ l r : Bytes, stringEqual fold .sensitive l r = true ↔ l = r := by
    intro l r; simp [stringEqual]
  unfold isPathPieceEqual at h
  unfold hashValue
  generalize (PathPiece.components : Option (Platform → K → List Bytes)) = components at h ⊢
  generalize P.kIsWindows = kIsWindows at h ⊢
  rcases components with - | components
  · simp only [hstr] at h
    simp only [h]
  · cases kIsWindows with
    | false =>
      simp only [hstr] at h
      simp only [h]
    | true =>
      have hc := (@rangeEqual_iff _ _ _ id hstr _ _).1 h
      rw [List.map_id, List.map_id] at hc
      simp only [hc]

/-- **Order, equality and hash of paths agree**, for every path type, both platforms and
both case sensitivities. -/
theorem pathPiece_order (H : SpookyHashV2) (hfold : FoldsAscii fold) (P : Platform) (cs : CaseSensitivity) :
    IsStrictWeakOrder K (fun a b => isPathPieceLess P cs a b = true) ∧
    (∀ a b : K, (¬ isPathPieceLess P cs a b = true ∧ ¬ isPathPieceLess P cs b a = true) ↔
      isPathPieceEqual fold P cs a b = true) ∧
    (∀ a b : K, comparePathPiece fold P cs b a = (comparePathPiece fold P cs a b).swap) ∧
    (∀ (a b c : K) (r : CompareResult), comparePathPiece fold P cs a b = r → comparePathPiece fold P cs b c = r →
      comparePathPiece fold P cs a c = r) ∧
    ∀ a b : K, isPathPieceEqual fold P .sensitive a b = true → hashValue H P a = hashValue H P b := by
  refine ⟨strictWeakOrder, fun a b => ?_, compare_swap hfold, fun a b c r => compare_trans hfold,
    fun a b => hashValue_eq H⟩
  rw [isPathPieceLess_iff, isPathPieceLess_iff, isPathPieceEqual_iff hfold]
  exact ⟨fun ⟨h1, h2⟩ => (lt_trichotomy _ _).resolve_left h1 |>.resolve_right h2, fun h => by simp [h]⟩

/-- `A` and `a` are equal, and incomparable, if case does not matter. -/
theorem pathPiece_order_letters :
    isPathPieceEqual (fun x y => decide (x = y ∨ SameLetter x y)) .windows .insensitive
        (⟨[0x41]⟩ : RelativePath) ⟨[0x61]⟩ = true ∧
      (¬ isPathPieceLess .windows .insensitive (⟨[0x41]⟩ : RelativePath) ⟨[0x61]⟩ = true ∧
        ¬ isPathPieceLess .windows .insensitive (⟨[0x61]⟩ : RelativePath) ⟨[0x41]⟩ = true) :=
  have h := (pathPiece_order (K := RelativePath) ⟨fun _ _ => 0, Unit, (), fun _ _ => (), fun _ => (0, 0)⟩
    (fun x y => decide_eq_true_iff) .windows .insensitive).2.1 ⟨[0x41]⟩ ⟨[0x61]⟩
  ⟨by decide, h.2 (by decide)⟩

end EdenCommon
