import Mathlib.Algebra.GroupWithZero.Nat

/-!
# Big-endian numbers

Writing a number to a fixed number of bytes, the most significant first, and reading
it back. What does not fit into the bytes is cut off.
-/

namespace Lib

/-- The `n` low bytes of `v`. -/
def toBytesBE : ℕ → ℕ → List UInt8
  | 0, _ => []
  | n + 1, v => toBytesBE n (v / 256) ++ [UInt8.ofNat v]

def ofBytesBE (bs : List UInt8) : ℕ := bs.foldl (fun v b => v * 256 + b.toNat) 0

@[simp] theorem length_toBytesBE (n v : ℕ) : (toBytesBE n v).length = n := by
  induction n generalizing v with
  | zero => rfl
  | succ n ih => simp [toBytesBE, ih]

/-- A byte behind the others is the lowest one. -/
theorem ofBytesBE_concat (bs : List UInt8) (b : UInt8) : ofBytesBE (bs ++ [b]) = ofBytesBE bs * 256 + b.toNat := by
  unfold ofBytesBE
  rw [List.foldl_append]
  rfl

/-- **Round trip** of a number that fits. -/
theorem ofBytesBE_toBytesBE (n v : ℕ) (h : v < 256 ^ n) : ofBytesBE (toBytesBE n v) = v := by
  induction n generalizing v with
  | zero =>
    have hv : v = 0 := by simpa using h
    subst hv
    rfl
  | succ n ih =>
    have hdiv : v / 256 < 256 ^ n := by
      rw [Nat.pow_succ] at h
      exact Nat.div_lt_of_lt_mul (by rwa [Nat.mul_comm])
    have hmod : (UInt8.ofNat v).toNat = v % 256 := by simp
    rw [toBytesBE, ofBytesBE_concat, ih _ hdiv, hmod]
    omega

end Lib
