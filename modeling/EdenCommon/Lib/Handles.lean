import Mathlib.Logic.Function.Basic

/-!
# Owners of handles

A handle is open, is then held by one owner or kept outside of all of them, and may come up
again for something else once it is closed. `Owned` says that nothing else ever happens: no
handle has two owners, none that is held is closed, and none that is open is lost. Opening and
closing a handle outside, taking one into an owner and giving one up keep it.
-/

namespace Lib

variable {ι α : Type*} {held : ι → Option α} {outside opened : α → Bool} {i j : ι} {x : α}

structure Owned (held : ι → Option α) (outside opened : α → Bool) : Prop where
  alone : ∀ i j x, held i = some x → held j = some x → i = j
  apart : ∀ i x, held i = some x → outside x = false
  opened_iff : ∀ x, opened x = true ↔ outside x = true ∨ ∃ i, held i = some x

theorem Owned.nobody (opened : α → Bool) : Owned (fun _ : ι => none) opened opened where
  alone := fun _ _ _ h => by cases h
  apart := fun _ _ h => by cases h
  opened_iff := fun x => ⟨Or.inl, fun h => h.elim id fun ⟨_, h⟩ => by cases h⟩

theorem Owned.is_open (h : Owned held outside opened) (hi : held i = some x) : opened x = true :=
  (h.opened_iff x).2 (Or.inr ⟨i, hi⟩)

variable [DecidableEq α]

theorem Owned.fresh (h : Owned held outside opened) (hx : opened x = false) :
    Owned held (Function.update outside x true) (Function.update opened x true) where
  alone := h.alone
  apart := by
    intro i y hi
    have hne : y ≠ x := by
      rintro rfl
      rw [h.is_open hi] at hx
      cases hx
    rw [Function.update_of_ne hne]
    exact h.apart i y hi
  opened_iff := by
    intro y
    by_cases hy : y = x
    · subst hy
      simp
    · rw [Function.update_of_ne hy, Function.update_of_ne hy]
      exact h.opened_iff y

/-- A handle outside is closed. -/
theorem Owned.close_outside (h : Owned held outside opened) (hx : outside x = true) :
    Owned held (Function.update outside x false) (Function.update opened x false) where
  alone := h.alone
  apart := by
    intro i y hi
    rw [Function.update_apply]
    split
    · rfl
    · exact h.apart i y hi
  opened_iff := by
    intro y
    by_cases hy : y = x
    · subst hy
      rw [Function.update_self, Function.update_self]
      refine ⟨fun hfalse => Or.inl hfalse, fun hleft => hleft.elim id fun hheld => ?_⟩
      obtain ⟨i, hi⟩ := hheld
      rw [h.apart i y hi] at hx
      cases hx
    · rw [Function.update_of_ne hy, Function.update_of_ne hy]
      exact h.opened_iff y

variable [DecidableEq ι]

/-- An owner that holds nothing takes a handle from outside. -/
theorem Owned.take (h : Owned held outside opened) (hi : held i = none) (hx : outside x = true) :
    Owned (Function.update held i (some x)) (Function.update outside x false) opened := by
  have hheld : ∀ {j y}, Function.update held i (some x) j = some y → (j = i ∧ y = x) ∨ (j ≠ i ∧ held j = some y) := by
    intro j y hj
    by_cases hji : j = i
    · rw [hji, Function.update_self] at hj
      exact Or.inl ⟨hji, (Option.some.inj hj).symm⟩
    · rw [Function.update_of_ne hji] at hj
      exact Or.inr ⟨hji, hj⟩
  have hnot : ∀ j, held j ≠ some x := by
    intro j hj
    rw [h.apart j x hj] at hx
    cases hx
  refine ⟨fun j k y hj hk => ?_, fun j y hj => ?_, fun y => ?_⟩
  · obtain ⟨hji, hy⟩ | ⟨-, hj⟩ := hheld hj <;> obtain ⟨hki, hy'⟩ | ⟨-, hk⟩ := hheld hk
    · rw [hji, hki]
    · exact absurd (hy ▸ hk) (hnot k)
    · exact absurd (hy' ▸ hj) (hnot j)
    · exact h.alone j k y hj hk
  · obtain ⟨-, rfl⟩ | ⟨-, hj⟩ := hheld hj
    · exact Function.update_self _ _ _
    · rw [Function.update_apply]
      split
      · rfl
      · exact h.apart j y hj
  · rw [h.opened_iff]
    by_cases hy : y = x
    · subst hy
      rw [hx, Function.update_self]
      exact ⟨fun _ => Or.inr ⟨i, Function.update_self _ _ _⟩, fun _ => Or.inl rfl⟩
    · rw [Function.update_of_ne hy]
      refine or_congr_right ⟨fun ⟨j, hj⟩ => ⟨j, ?_⟩, fun ⟨j, hj⟩ => ?_⟩
      · have hne : j ≠ i := by
          rintro rfl
          rw [hi] at hj
          cases hj
        rwa [Function.update_of_ne hne]
      · obtain ⟨-, rfl⟩ | ⟨-, hj⟩ := hheld hj
        · exact absurd rfl hy
        · exact ⟨j, hj⟩

/-- An owner gives its handle up. -/
theorem Owned.give (h : Owned held outside opened) (hi : held i = some x) :
    Owned (Function.update held i none) (Function.update outside x true) opened := by
  have hheld : ∀ {j y}, Function.update held i none j = some y → j ≠ i ∧ held j = some y := by
    intro j y hj
    by_cases hji : j = i
    · rw [hji, Function.update_self] at hj
      cases hj
    · rw [Function.update_of_ne hji] at hj
      exact ⟨hji, hj⟩
  refine ⟨fun j k y hj hk => h.alone j k y (hheld hj).2 (hheld hk).2, fun j y hj => ?_, fun y => ?_⟩
  · obtain ⟨hji, hj⟩ := hheld hj
    have hne : y ≠ x := by
      rintro rfl
      exact hji (h.alone j i y hj hi)
    rw [Function.update_of_ne hne]
    exact h.apart j y hj
  · rw [h.opened_iff]
    by_cases hy : y = x
    · subst hy
      rw [Function.update_self]
      exact ⟨fun _ => Or.inl rfl, fun _ => Or.inr ⟨i, hi⟩⟩
    · rw [Function.update_of_ne hy]
      refine or_congr_right ⟨fun ⟨j, hj⟩ => ⟨j, ?_⟩, fun ⟨j, hj⟩ => ⟨j, (hheld hj).2⟩⟩
      have hne : j ≠ i := by
        rintro rfl
        rw [hi] at hj
        exact hy (Option.some.inj hj).symm
      rwa [Function.update_of_ne hne]

/-- An owner closes its handle. -/
theorem Owned.close (h : Owned held outside opened) (hi : held i = some x) :
    Owned (Function.update held i none) outside (Function.update opened x false) := by
  have hclosed := (h.give hi).close_outside (Function.update_self _ _ _)
  have hsame : Function.update outside x false = outside := by rw [← h.apart i x hi, Function.update_eq_self]
  rwa [Function.update_idem, hsame] at hclosed

/-- The handle goes from one owner to another, which held nothing. -/
theorem Owned.move (h : Owned held outside opened) (hi : held i = none) (hj : held j = some x) :
    Owned (Function.update (Function.update held j none) i (some x)) outside opened := by
  have hij : i ≠ j := by
    rintro rfl
    rw [hi] at hj
    cases hj
  have hmoved := (h.give hj).take (i := i) (by rwa [Function.update_of_ne hij]) (Function.update_self _ _ _)
  have hsame : Function.update outside x false = outside := by rw [← h.apart j x hj, Function.update_eq_self]
  rwa [Function.update_idem, hsame] at hmoved

omit [DecidableEq α] in
/-- An owner that holds nothing comes or goes. -/
theorem Owned.same (h : Owned held outside opened) (hi : held i = none) :
    Owned (Function.update held i none) outside opened := by
  rwa [← hi, Function.update_eq_self]

end Lib
