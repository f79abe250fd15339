import Mathlib.Algebra.GroupWithZero.Nat
import Mathlib.Data.List.TakeWhile

/-!
# Decimal numbers

Numbers written with ASCII digits, the most significant first and without leading zeros, and
read back from the front of a text.
-/

namespace Lib

def isDigit (b : UInt8) : Bool := 0x30 ≤ b && b ≤ 0x39

def digit (n : ℕ) : UInt8 := UInt8.ofNat (0x30 + n % 10)

/-- The digits of `n`, at most as many as the first argument says. -/
def decimalLoop : ℕ → ℕ → List UInt8
  | 0, _ => []
  | fuel + 1, n => if n < 10 then [digit n] else decimalLoop fuel (n / 10) ++ [digit n]

def decimal (n : ℕ) : List UInt8 := decimalLoop (n + 1) n

/-- The number that digits stand for. -/
def ofDecimal (bs : List UInt8) : ℕ := bs.foldl (fun v b => v * 10 + (b.toNat - 0x30)) 0

/-- A digit behind the others is the lowest one. -/
theorem ofDecimal_concat (bs : List UInt8) (b : UInt8) : ofDecimal (bs ++ [b]) = ofDecimal bs * 10 + (b.toNat - 0x30) := by
  rw [ofDecimal, List.foldl_append]
  rfl

theorem toNat_digit (n : ℕ) : (digit n).toNat = 0x30 + n % 10 := by
  have hlt : n % 10 < 10 := Nat.mod_lt _ (by decide)
  rw [digit, UInt8.toNat_ofNat']
  omega

theorem isDigit_digit (n : ℕ) : isDigit (digit n) = true := by
  have hlt : n % 10 < 10 := Nat.mod_lt _ (by decide)
  have h := toNat_digit n
  simp only [isDigit, Bool.and_eq_true, decide_eq_true_eq, UInt8.le_iff_toNat_le, h]
  refine ⟨Nat.le_add_right _ _, ?_⟩
  show 0x30 + n % 10 ≤ 0x39
  omega

/-- **The loop** writes the digits of the number and nothing else, at least one. -/
theorem decimalLoop_spec (fuel : ℕ) : ∀ n, n < fuel → ofDecimal (decimalLoop fuel n) = n ∧ decimalLoop fuel n ≠ [] ∧
    ∀ b ∈ decimalLoop fuel n, isDigit b = true := by
  induction fuel with
  | zero => exact fun _ h => absurd h (Nat.not_lt_zero _)
  | succ fuel ih =>
    intro n hn
    rw [decimalLoop]
    split
    · rename_i hsmall
      refine ⟨?_, List.cons_ne_nil _ _, fun b hb => ?_⟩
      · show 0 * 10 + ((digit n).toNat - 0x30) = n
        rw [toNat_digit]
        omega
      · rw [List.mem_singleton.1 hb]
        exact isDigit_digit n
    · obtain ⟨hval, -, hdigits⟩ := ih (n / 10) (by omega)
      refine ⟨?_, by simp, fun b hb => ?_⟩
      · rw [ofDecimal_concat, hval, toNat_digit]
        omega
      · rcases List.mem_append.1 hb with hb | hb
        · exact hdigits b hb
        · rw [List.mem_singleton.1 hb]
          exact isDigit_digit n

/-- **Round trip.** -/
theorem ofDecimal_decimal (n : ℕ) : ofDecimal (decimal n) = n := (decimalLoop_spec _ n (Nat.lt_succ_self n)).1

theorem decimal_ne_nil (n : ℕ) : decimal n ≠ [] := (decimalLoop_spec _ n (Nat.lt_succ_self n)).2.1

theorem isDigit_decimal {n : ℕ} {b : UInt8} (h : b ∈ decimal n) : isDigit b = true :=
  (decimalLoop_spec _ n (Nat.lt_succ_self n)).2.2 b h

/-- The digits in front of a text that goes on with something else. -/
theorem takeWhile_decimal (n : ℕ) {rest : List UInt8} (h : ∀ b ∈ rest.head?, isDigit b = false) :
    (decimal n ++ rest).takeWhile isDigit = decimal n := by
  rw [List.takeWhile_append_of_pos fun b hb => isDigit_decimal hb]
  cases rest with
  | nil => simp
  | cons b rest => rw [List.takeWhile_cons_of_neg (by simp [h b rfl]), List.append_nil]

/-- There are as many digits as the number needs. -/
theorem lt_length_decimalLoop (k : ℕ) : ∀ fuel n, 10 ^ k ≤ n → n < fuel → k < (decimalLoop fuel n).length := by
  induction k with
  | zero =>
    intro fuel n _ hfuel
    exact List.length_pos_iff.2 (decimalLoop_spec fuel n hfuel).2.1
  | succ k ih =>
    intro fuel n hn hfuel
    obtain ⟨fuel, rfl⟩ : ∃ f, fuel = f + 1 := ⟨fuel - 1, by omega⟩
    have hpos : 0 < 10 ^ k := Nat.pow_pos (by decide)
    rw [Nat.pow_succ] at hn
    rw [decimalLoop, if_neg (by omega), List.length_append, List.length_singleton]
    exact Nat.succ_lt_succ (ih fuel (n / 10) (by omega) (by omega))

/-- There are no more digits than the number needs. -/
theorem length_decimalLoop_le (k : ℕ) : ∀ fuel n, n < 10 ^ k → 0 < k → (decimalLoop fuel n).length ≤ k := by
  induction k with
  | zero => exact fun _ _ _ h => absurd h (Nat.lt_irrefl 0)
  | succ k ih =>
    intro fuel n hn _
    cases fuel with
    | zero => exact Nat.zero_le _
    | succ fuel =>
      rw [decimalLoop]
      split
      · exact Nat.succ_le_succ (Nat.zero_le _)
      · rename_i hbig
        rw [Nat.pow_succ] at hn
        have hk : 0 < k := by
          cases k with
          | zero => omega
          | succ k => exact Nat.succ_pos _
        rw [List.length_append, List.length_singleton]
        exact Nat.succ_le_succ (ih fuel (n / 10) (by omega) hk)

end Lib
