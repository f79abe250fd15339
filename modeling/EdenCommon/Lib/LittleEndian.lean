import Mathlib.Algebra.GroupWithZero.Nat

/-!
# Little-endian numbers, and reads of them in a block of memory

Writing a number to a fixed number of bytes, the least significant first, and reading it
back, at any place in a block of memory. A read that is not inside the block has no result.
-/

namespace Lib

/-- The `n` low bytes of `v`. -/
def toBytesLE : ℕ → ℕ → List UInt8
  | 0, _ => []
  | n + 1, v => UInt8.ofNat v :: toBytesLE n (v / 256)

def ofBytesLE (bs : List UInt8) : ℕ := bs.foldr (fun b v => b.toNat + v * 256) 0

@[simp] theorem length_toBytesLE (n v : ℕ) : (toBytesLE n v).length = n := by
  induction n generalizing v with
  | zero => rfl
  | succ n ih => simp [toBytesLE, ih]

@[simp] theorem ofBytesLE_cons (b : UInt8) (bs : List UInt8) :
    ofBytesLE (b :: bs) = b.toNat + ofBytesLE bs * 256 := rfl

/-- **Round trip** of a number that fits. -/
theorem ofBytesLE_toBytesLE (n v : ℕ) (h : v < 256 ^ n) : ofBytesLE (toBytesLE n v) = v := by
  induction n generalizing v with
  | zero =>
    obtain rfl : v = 0 := by simpa using h
    rfl
  | succ n ih =>
    have hdiv : v / 256 < 256 ^ n := by
      rw [Nat.pow_succ] at h
      exact Nat.div_lt_of_lt_mul (by rwa [Nat.mul_comm])
    have hmod : (UInt8.ofNat v).toNat = v % 256 := by simp
    rw [toBytesLE, ofBytesLE_cons, ih _ hdiv, hmod]
    omega

/-- The `n` bytes at `pos`. -/
def readBytes (mem : List UInt8) (pos n : ℕ) : Option (List UInt8) :=
  if pos + n ≤ mem.length then some ((mem.drop pos).take n) else none

/-- Bytes are read where they lie. -/
theorem readBytes_eq (pre bs post : List UInt8) : readBytes (pre ++ bs ++ post) pre.length bs.length = some bs := by
  unfold readBytes
  rw [if_pos (by simp only [List.length_append]; omega), List.append_assoc, List.drop_left, List.take_left]

/-- A read that succeeds is inside the memory. -/
theorem readBytes_isSome {mem : List UInt8} {pos n : ℕ} {bs : List UInt8} (h : readBytes mem pos n = some bs) :
    pos + n ≤ mem.length := by
  unfold readBytes at h
  split at h
  · assumption
  · simp at h

/-- Bytes at a place that is given by its distance from the block's beginning. -/
theorem readBytes_at (pre post : List UInt8) {bs mem : List UInt8} {pos n : ℕ} (hmem : mem = pre ++ bs ++ post)
    (hpos : pos = pre.length) (hn : n = bs.length) : readBytes mem pos n = some bs := by
  subst hmem hpos hn
  exact readBytes_eq pre bs post

end Lib
