import Mathlib.Algebra.GroupWithZero.Nat
import Mathlib.Tactic.ByContra
import Mathlib.Tactic.Set

/-!
# The bits below the highest set bit

`HighestBit x h` is the position a count of the leading zeros gives (`highestBit_clz`), and
`KeepsTop x n r` says that `r` is `x` without its bits more than `n` places below the top.
What is kept is unique (`KeepsTop.unique`); it is `x` under a mask of `n` ones moved to the top
(`keepsTop_mask`), and `x` itself where `x` has no more than `n` significant bits
(`keepsTop_self`).
-/

namespace Lib

variable {w : ℕ} {x r : BitVec w} {h n : ℕ}

/-- `h` is the position of the highest set bit of `x`. -/
structure HighestBit (x : BitVec w) (h : ℕ) : Prop where
  set : x.getLsbD h = true
  above : ∀ j, h < j → x.getLsbD j = false

theorem HighestBit.unique {h' : ℕ} (hx : HighestBit x h) (hx' : HighestBit x h') : h = h' := by
  rcases Nat.lt_trichotomy h h' with hlt | heq | hlt
  · have := hx.above h' hlt
    rw [hx'.set] at this
    contradiction
  · exact heq
  · have := hx'.above h hlt
    rw [hx.set] at this
    contradiction

theorem HighestBit.lt_width (hx : HighestBit x h) : h < w := BitVec.lt_of_getLsbD hx.set

theorem HighestBit.ne_zero (hx : HighestBit x h) : x ≠ 0#w := by
  rintro rfl
  simpa using hx.set

/-- The last bit is the highest one as soon as it is set. -/
theorem HighestBit.msb_iff (hx : HighestBit x h) : x.msb = true ↔ h + 1 = w := by
  have hw := hx.lt_width
  rw [BitVec.msb_eq_getLsbD_last]
  constructor
  · intro hm
    by_contra hne
    have := hx.above (w - 1) (by omega)
    rw [hm] at this
    contradiction
  · intro heq
    rw [show w - 1 = h by omega]
    exact hx.set

theorem clz_toNat_lt (hx : x ≠ 0#w) : x.clz.toNat < w := by
  have hlt := BitVec.lt_def.mp (BitVec.clz_lt_iff_ne_zero.mpr hx)
  simpa [Nat.mod_eq_of_lt (Nat.lt_two_pow_self (n := w))] using hlt

/-- **The count of the leading zeros** stops at the highest set bit. -/
theorem highestBit_clz (hx : x ≠ 0#w) : HighestBit x (w - 1 - x.clz.toNat) := by
  have hclz := clz_toNat_lt hx
  refine ⟨BitVec.getLsbD_true_clz_of_ne_zero (by omega) hx, fun j hj => ?_⟩
  have hpast : ∀ k, x.getLsbD (w - x.clz.toNat + k) = false := by
    intro k
    unfold BitVec.clz
    exact BitVec.getLsbD_false_of_clzAuxRec (by intro i hi; simp [show w ≤ i by omega]) k
  have := hpast (j - (w - x.clz.toNat))
  rwa [show w - x.clz.toNat + (j - (w - x.clz.toNat)) = j by omega] at this

/-- `r` has the `n` bits of `x` from its highest set bit downwards, and no other. -/
def KeepsTop (x : BitVec w) (n : ℕ) (r : BitVec w) : Prop :=
  ∀ i, r.getLsbD i = true ↔ x.getLsbD i = true ∧ ∃ h, HighestBit x h ∧ h < i + n

theorem KeepsTop.unique {r' : BitVec w} (hr : KeepsTop x n r) (hr' : KeepsTop x n r') : r = r' := by
  apply BitVec.eq_of_getLsbD_eq
  intro i _
  rw [Bool.eq_iff_iff, hr i, hr' i]

/-- Nothing is lost of what has at most `n` significant bits. -/
theorem keepsTop_self (hx : HighestBit x h) (hn : h < n) : KeepsTop x n x := by
  intro i
  constructor
  · intro hi
    exact ⟨hi, h, hx, by omega⟩
  · exact fun hi => hi.1

/-- `n` ones at the bottom. -/
theorem getLsbD_ones (hn : n < w) (i : ℕ) : ((1#w <<< n) - 1#w).getLsbD i = decide (i < n) := by
  have hpow : 2 ^ n < 2 ^ w := Nat.pow_lt_pow_right (by omega) hn
  have hval : ((1#w <<< n) - 1#w).toNat = 2 ^ n - 1 := by
    have hone : 1 < 2 ^ w := Nat.one_lt_two_pow (by omega)
    have hpos : 0 < 2 ^ n := Nat.two_pow_pos n
    rw [BitVec.toNat_sub_of_le]
    · simp [BitVec.toNat_shiftLeft, Nat.mod_eq_of_lt hone, Nat.shiftLeft_eq, Nat.mod_eq_of_lt hpow]
    · rw [BitVec.le_def]
      simp [BitVec.toNat_shiftLeft, Nat.mod_eq_of_lt hone, Nat.shiftLeft_eq, Nat.mod_eq_of_lt hpow]
      omega
  rw [← BitVec.testBit_toNat, hval, Nat.testBit_two_pow_sub_one]

/-- **The mask.** `n` ones, moved up to the highest set bit, cut `x` down to its top. -/
theorem keepsTop_mask (hx : HighestBit x h) (hn : n ≤ h) :
    KeepsTop x n (x &&& (((1#w <<< n) - 1#w) <<< (h + 1 - n))) := by
  have hw := hx.lt_width
  intro i
  rw [BitVec.getLsbD_and, BitVec.getLsbD_shiftLeft, getLsbD_ones (by omega)]
  constructor
  · intro hi
    simp only [Bool.and_eq_true, decide_eq_true_eq, Bool.not_eq_true', decide_eq_false_iff_not] at hi
    exact ⟨hi.1, h, hx, by omega⟩
  · rintro ⟨hi, h', hx', hlt⟩
    have hhh := hx.unique hx'
    have hih : i ≤ h := by
      by_contra hgt
      have := hx.above i (by omega)
      rw [hi] at this
      contradiction
    simp only [hi, true_and, Bool.and_eq_true, decide_eq_true_eq, Bool.not_eq_true',
      decide_eq_false_iff_not]
    omega

end Lib
