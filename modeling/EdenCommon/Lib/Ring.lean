import Mathlib.Data.Fin.Basic
import Mathlib.Data.List.Rotate
import Mathlib.Data.Nat.ModEq

/-!
# Circular buffers indexed by time

A buffer of `n` cells holds the value of time `t` in cell `t % n`. Any `n` consecutive
times occupy every cell exactly once (`slot_inj`, `exists_slot`), so an update of the
cells of at most `n` consecutive times changes each of them once and no other cell
(`mapRange_slot`, `mapRange_of_forall_ne`).

A buffer into which values are pushed holds the last `n` of them (`HoldsLast.push`); read
from cell zero on, they come in rotated order (`HoldsLast.perm`).
-/

namespace Lib

variable {β : Type*} {n : ℕ} [NeZero n]

/-- The cell of time `t`. -/
def slot (n : ℕ) [NeZero n] (t : ℕ) : Fin n := ⟨t % n, Nat.mod_lt _ (Nat.pos_of_neZero n)⟩

theorem slot_eq_iff {s t : ℕ} : slot n s = slot n t ↔ s ≡ t [MOD n] := by
  unfold slot Nat.ModEq
  exact Fin.mk.injEq _ _ _ _ ▸ Iff.rfl

/-- Of `n` consecutive times no two share a cell. -/
theorem slot_inj {a s t : ℕ} (hs : a ≤ s ∧ s < a + n) (ht : a ≤ t ∧ t < a + n)
    (h : slot n s = slot n t) : s = t := by
  wlog hle : s ≤ t generalizing s t
  · exact (this ht hs h.symm (by omega)).symm
  have hdvd : n ∣ t - s := (Nat.modEq_iff_dvd' hle).1 (slot_eq_iff.1 h)
  have := Nat.eq_zero_of_dvd_of_lt hdvd (by omega)
  omega

/-- Of `n` consecutive times one has the given cell. -/
theorem exists_slot (a : ℕ) (i : Fin n) : ∃ t, a ≤ t ∧ t < a + n ∧ slot n t = i := by
  have hn : 0 < n := Nat.pos_of_neZero n
  have hi := i.isLt
  have hlt : a % n < n := Nat.mod_lt a hn
  by_cases h : a % n ≤ i
  · refine ⟨a + (i - a % n), by omega, by omega, Fin.ext ?_⟩
    change (a + (i - a % n)) % n = i
    rw [← Nat.mod_add_mod, Nat.add_sub_cancel' h, Nat.mod_eq_of_lt hi]
  · refine ⟨a + (n + i - a % n), by omega, by omega, Fin.ext ?_⟩
    change (a + (n + i - a % n)) % n = i
    rw [← Nat.mod_add_mod, Nat.add_sub_cancel' (by omega), Nat.add_mod_left, Nat.mod_eq_of_lt hi]

/-- Update the cells of the times `lo, lo + 1, …, lo + k - 1`, in this order. -/
def mapRange (f : ℕ → β → β) (buf : Fin n → β) (lo k : ℕ) : Fin n → β :=
  (List.range' lo k).foldl (fun b p => Function.update b (slot n p) (f p (b (slot n p)))) buf

theorem mapRange_succ (f : ℕ → β → β) (buf : Fin n → β) (lo k : ℕ) :
    mapRange f buf lo (k + 1) = Function.update (mapRange f buf lo k) (slot n (lo + k))
      (f (lo + k) (mapRange f buf lo k (slot n (lo + k)))) := by
  unfold mapRange
  rw [List.range'_concat, List.foldl_append, Nat.one_mul]
  rfl

/-- A cell of none of the times is left alone. -/
theorem mapRange_of_forall_ne (f : ℕ → β → β) (buf : Fin n → β) {lo : ℕ} {i : Fin n} {k : ℕ}
    (h : ∀ p, lo ≤ p → p < lo + k → slot n p ≠ i) : mapRange f buf lo k i = buf i := by
  induction k with
  | zero => rfl
  | succ k ih =>
    rw [mapRange_succ, Function.update_of_ne (h (lo + k) (by omega) (by omega)).symm]
    exact ih fun p hp hlt => h p hp (by omega)

/-- The cell of one of at most `n` consecutive times is updated once. -/
theorem mapRange_slot (f : ℕ → β → β) (buf : Fin n → β) {lo t : ℕ} {k : ℕ} (hk : k ≤ n)
    (hlo : lo ≤ t) (hlt : t < lo + k) :
    mapRange f buf lo k (slot n t) = f t (buf (slot n t)) := by
  induction k with
  | zero => omega
  | succ k ih =>
    rw [mapRange_succ]
    rcases Nat.lt_or_ge t (lo + k) with h | h
    · have hne : slot n t ≠ slot n (lo + k) := by
        intro he
        have := slot_inj (a := lo) ⟨hlo, by omega⟩ ⟨by omega, by omega⟩ he
        omega
      rw [Function.update_of_ne hne]
      exact ih (by omega) h
    · obtain rfl : t = lo + k := by omega
      rw [Function.update_self]
      congr 1
      refine mapRange_of_forall_ne f buf fun p hp hpk he => ?_
      have := slot_inj (a := lo) ⟨hp, by omega⟩ ⟨by omega, by omega⟩ he
      omega

/-! ### The last values pushed -/

/-- The buffer holds the last `n` values of `l`, which were pushed at the times `0, 1, …`. -/
def HoldsLast (buf : Fin n → β) (l : List β) : Prop :=
  ∀ k x, l[k]? = some x → l.length ≤ k + n → buf (slot n k) = x

variable {buf : Fin n → β} {l : List β}

theorem holdsLast_nil (buf : Fin n → β) : HoldsLast buf [] := nofun

theorem HoldsLast.push (h : HoldsLast buf l) (x : β) :
    HoldsLast (Function.update buf (slot n l.length) x) (l ++ [x]) := by
  intro k y hk hlast
  rw [List.length_append, List.length_singleton] at hlast
  rcases Nat.lt_trichotomy k l.length with hlt | rfl | hgt
  · rw [List.getElem?_append_left hlt] at hk
    have hne : slot n k ≠ slot n l.length := by
      intro he
      have := slot_inj (a := k) ⟨le_rfl, by omega⟩ ⟨hlt.le, by omega⟩ he
      omega
    rw [Function.update_of_ne hne]
    exact h k y hk (by omega)
  · rw [List.getElem?_concat_length] at hk
    rw [Function.update_self]
    exact Option.some.inj hk
  · rw [List.getElem?_eq_none (by simp; omega)] at hk
    cases hk

/-- The first cells, as many as were written. -/
theorem HoldsLast.perm (h : HoldsLast buf l) :
    ((List.range (min n l.length)).map fun i => buf (slot n i)).Perm (l.drop (l.length - n)) := by
  have hn : 0 < n := Nat.pos_of_neZero n
  rcases Nat.le_total l.length n with hle | hle
  · -- nothing was overwritten
    have heq : ((List.range (min n l.length)).map fun i => buf (slot n i)) = l := by
      apply List.ext_getElem
      · simp [hle]
      · intro i h1 h2
        rw [List.getElem_map, List.getElem_range]
        exact h i l[i] (List.getElem?_eq_getElem h2) (by omega)
    rw [heq, Nat.sub_eq_zero_of_le hle, List.drop_zero]
  · have hlen : (l.drop (l.length - n)).length = n := by rw [List.length_drop]; omega
    -- cell zero holds the value of the first multiple of `n` in the window
    have heq : ((List.range (min n l.length)).map fun i => buf (slot n i)) =
        (l.drop (l.length - n)).rotate (n - (l.length - n) % n) := by
      apply List.ext_getElem
      · rw [List.length_map, List.length_range, List.length_rotate, hlen, Nat.min_eq_left hle]
      · intro i h1 h2
        have hi : i < n := by rw [List.length_rotate, hlen] at h2; exact h2
        have hmod : (l.length - n) % n < n := Nat.mod_lt _ hn
        rw [List.getElem_map, List.getElem_range, List.getElem_rotate, List.getElem_drop]
        simp only [hlen]
        have hj : (i + (n - (l.length - n) % n)) % n < n := Nat.mod_lt _ hn
        have hslot : slot n i = slot n (l.length - n + (i + (n - (l.length - n) % n)) % n) := by
          rw [slot_eq_iff]
          unfold Nat.ModEq
          rw [Nat.add_mod_mod, ← Nat.mod_add_mod, show (l.length - n) % n + (i + (n - (l.length - n) % n)) = i + n by omega,
            Nat.add_mod_right]
        rw [hslot]
        exact h _ _ (List.getElem?_eq_getElem (by omega)) (by omega)
    rw [heq]
    exact List.rotate_perm _ _

end Lib
