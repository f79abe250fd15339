import Mathlib.Data.Nat.Notation
import Mathlib.Logic.Function.Basic

/-!
# Reference counts

`owners x` is how many owners `x` has, `refcnt x` the count kept for it while it is there,
and `doomed x` says that somebody is about to delete it. `Counted` says that the counts are
right, that nothing is deleted which has an owner, and that nothing without an owner is
forgotten. Taking, sharing and giving back a reference change the count of one `x`
(`Counted.change`); a deletion ends it (`Counted.free`).
-/

namespace Lib

variable {X : Type*}

structure Counted (owners : X → ℕ) (refcnt : X → Option ℕ) (doomed : X → Prop) : Prop where
  eq : ∀ x n, refcnt x = some n → n = owners x
  present : ∀ x, 0 < owners x → (refcnt x).isSome
  kept : ∀ x n, refcnt x = some n → 0 < owners x ∨ doomed x

variable {owners owners' : X → ℕ} {refcnt : X → Option ℕ} {doomed doomed' : X → Prop} {x : X} {n : ℕ}

/-- The counts depend on the numbers of owners only. -/
theorem Counted.congr (h : Counted owners refcnt doomed) (howners : ∀ y, owners' y = owners y)
    (hdoomed : ∀ y, doomed y → doomed' y) : Counted owners' refcnt doomed' where
  eq := fun y n hy => (h.eq y n hy).trans (howners y).symm
  present := fun y hy => h.present y (by rwa [← howners y])
  kept := by
    intro y n hy
    rw [howners y]
    exact (h.kept y n hy).imp_right (hdoomed y)

/-- The last reference is the only one. -/
theorem Counted.owners_eq_one (h : Counted owners refcnt doomed) (hx : refcnt x = some 1) : owners x = 1 :=
  (h.eq x 1 hx).symm

variable [DecidableEq X]

/-- **One count changes** together with the number of its owners. -/
theorem Counted.change (h : Counted owners refcnt doomed) (hother : ∀ y, y ≠ x → owners' y = owners y)
    (hx : n = owners' x) (hkept : 0 < n ∨ doomed' x) (hdoomed : ∀ y, y ≠ x → doomed y → doomed' y) :
    Counted owners' (Function.update refcnt x (some n)) doomed' where
  eq := by
    intro y m hy
    by_cases hyx : y = x
    · subst hyx
      rw [Function.update_self] at hy
      exact (Option.some.inj hy).symm.trans hx
    · rw [Function.update_of_ne hyx] at hy
      exact (h.eq y m hy).trans (hother y hyx).symm
  present := by
    intro y hy
    by_cases hyx : y = x
    · rw [hyx, Function.update_self]
      rfl
    · rw [Function.update_of_ne hyx]
      exact h.present y (by rwa [← hother y hyx])
  kept := by
    intro y m hy
    by_cases hyx : y = x
    · rw [hyx, ← hx]
      exact hkept
    · rw [Function.update_of_ne hyx] at hy
      rw [hother y hyx]
      exact (h.kept y m hy).imp_right (hdoomed y hyx)

/-- **An object without owners is freed.** -/
theorem Counted.free (h : Counted owners refcnt doomed) (hother : ∀ y, y ≠ x → owners' y = owners y)
    (hx : owners' x = 0) (hdoomed : ∀ y, y ≠ x → doomed y → doomed' y) :
    Counted owners' (Function.update refcnt x none) doomed' where
  eq := by
    intro y m hy
    by_cases hyx : y = x
    · rw [hyx, Function.update_self] at hy
      cases hy
    · rw [Function.update_of_ne hyx] at hy
      exact (h.eq y m hy).trans (hother y hyx).symm
  present := by
    intro y hy
    have hyx : y ≠ x := by
      rintro rfl
      rw [hx] at hy
      exact absurd hy (Nat.lt_irrefl 0)
    rw [Function.update_of_ne hyx]
    exact h.present y (by rwa [← hother y hyx])
  kept := by
    intro y m hy
    by_cases hyx : y = x
    · rw [hyx, Function.update_self] at hy
      cases hy
    · rw [Function.update_of_ne hyx] at hy
      rw [hother y hyx]
      exact (h.kept y m hy).imp_right (hdoomed y hyx)

end Lib
