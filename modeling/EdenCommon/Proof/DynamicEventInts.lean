import EdenCommon.Spec.DynamicEventInts

/-!
# Which truncations of a `DynamicEvent` are defined

`addTruncatedInt_of_ne_zero` follows the function once it has counted the zeros in front of a
value: its two branches and the one shift that can be too wide. `addTruncatedInt_keeps_iff` then
says for which arguments it stores what is left of the value: for all but 0, and a negative
value of which nothing is to be kept.

* `addTruncatedInt_of_highest`: the branches behind the count, in terms of the highest set
  bit of the value.
* `addTruncatedInt_zero`: zero has no highest bit to look for, and the count of its leading
  zeros is undefined.
* `addInt_ne_undefined`: the sibling that stores a whole value is always defined.
-/

namespace EdenCommon

open Lib

variable {ints_ : IntMap} {name : Bytes} {value : BitVec 64} {bits_to_keep h : ℕ}

theorem addInt_ne_undefined (ints_ : IntMap) (name : Bytes) (value : BitVec 64) :
    .error .undefined ≠ ints_.addInt name value := by
  unfold IntMap.addInt
  split <;> simp

theorem addTruncatedInt_zero (ints_ : IntMap) (name : Bytes) (hb : bits_to_keep ≤ 64) :
    ints_.addTruncatedInt name 0#64 bits_to_keep = .error .undefined := by
  unfold IntMap.addTruncatedInt builtinClzll
  rw [if_neg (by omega), if_pos rfl]
  rfl

/-- **The branches** behind the count, in terms of the highest set bit. -/
theorem addTruncatedInt_of_highest (hh : HighestBit value h) (hb : bits_to_keep ≤ 64) :
    ints_.addTruncatedInt name value bits_to_keep =
      if h < bits_to_keep then ints_.addInt name value
      else if h + 1 - bits_to_keep < 64 then
        ints_.addInt name (value &&& (((1#64 <<< bits_to_keep) - 1#64) <<< (h + 1 - bits_to_keep)))
      else .error .undefined := by
  have hne := hh.ne_zero
  have hclz := clz_toNat_lt hne
  have hpos : 64 - value.clz.toNat = h + 1 := by
    have := hh.unique (highestBit_clz hne)
    omega
  have hh64 := hh.lt_width
  unfold IntMap.addTruncatedInt builtinClzll
  rw [if_neg (by omega), if_neg hne]
  simp only [bind, Except.bind, hpos, Nat.succ_le_iff, shiftLeft64]
  by_cases hlt : h < bits_to_keep
  · rw [if_pos hlt, if_pos hlt]
  · rw [if_neg hlt, if_neg hlt, if_pos (by omega : bits_to_keep < 64)]
    by_cases hs : h + 1 - bits_to_keep < 64
    · simp only [if_pos hs]
    · simp only [if_neg hs]

/-- **What is stored** is what is to be kept of the value, for all values but 0, and the negative
ones when no bit is to be kept. -/
theorem addTruncatedInt_keeps_iff (ints_ : IntMap) (name : Bytes) (value : BitVec 64) (bits_to_keep : ℕ)
    (hb : bits_to_keep ≤ 64) :
    (∃ stored, KeepsTop value bits_to_keep stored ∧
        ints_.addTruncatedInt name value bits_to_keep = ints_.addInt name stored) ↔
      value ≠ 0#64 ∧ ¬(bits_to_keep = 0 ∧ value.msb = true) := by
  constructor
  · rintro ⟨stored, -, heq⟩
    have hne : value ≠ 0#64 := by
      rintro rfl
      rw [addTruncatedInt_zero _ _ hb] at heq
      exact addInt_ne_undefined _ _ _ heq
    refine ⟨hne, ?_⟩
    rintro ⟨rfl, hm⟩
    -- the mask of no bits would have to move past the last bit
    have hh := highestBit_clz hne
    have hlast := hh.msb_iff.mp hm
    rw [addTruncatedInt_of_highest hh hb, if_neg (by omega), if_neg (by omega)] at heq
    exact addInt_ne_undefined _ _ _ heq
  · rintro ⟨hne, hneg⟩
    have hh := highestBit_clz hne
    set h := 64 - 1 - value.clz.toNat
    have hh64 := hh.lt_width
    by_cases hlt : h < bits_to_keep
    · refine ⟨value, keepsTop_self hh hlt, ?_⟩
      rw [addTruncatedInt_of_highest hh hb, if_pos hlt]
    · refine ⟨_, keepsTop_mask hh (by omega), ?_⟩
      have hs : h + 1 - bits_to_keep < 64 := by
        by_contra hge
        exact hneg ⟨by omega, hh.msb_iff.mpr (by omega)⟩
      rw [addTruncatedInt_of_highest hh hb, if_neg hlt, if_pos hs]

/-- 123 cut down to four bits. -/
theorem addTruncatedInt_keeps_123 :
    (4 ≤ 64) ∧ ∃ stored, KeepsTop 123#64 4 stored ∧
      IntMap.addTruncatedInt (fun _ => none) [] 123#64 4 = IntMap.addInt (fun _ => none) [] stored :=
  ⟨by decide, (addTruncatedInt_keeps_iff _ _ _ _ (by decide)).mpr (by decide)⟩

/-- Zero has no highest bit to look for. -/
theorem addTruncatedInt_zero_undefined :
    IntMap.addTruncatedInt (fun _ => none) [] 0#64 8 = .error .undefined ∧
      ¬∃ stored, KeepsTop 0#64 8 stored ∧
        IntMap.addTruncatedInt (fun _ => none) [] 0#64 8 = IntMap.addInt (fun _ => none) [] stored := by
  have hz := addTruncatedInt_zero (fun _ => none) [] (by decide : 8 ≤ 64)
  refine ⟨hz, ?_⟩
  rintro ⟨stored, -, heq⟩
  rw [hz] at heq
  exact addInt_ne_undefined _ _ _ heq

end EdenCommon
