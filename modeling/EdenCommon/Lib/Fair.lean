import Mathlib.Data.Nat.Notation
import Mathlib.Tactic.ByContra
import Mathlib.Tactic.Push

/-!
# Fair infinite runs

Rules for what must happen along an infinite run, stated over times: a predicate of a
time speaks of the state and the step there. `WeaklyFair.first` is the step rule and
`eventually_of_measure` the induction rule.
-/

namespace Lib

/-- What stays enabled from some time on is taken at some later time. -/
def WeaklyFair (enabled taken : ℕ → Prop) : Prop :=
  ∀ t, (∀ t', t ≤ t' → enabled t') → ∃ t', t ≤ t' ∧ taken t'

variable {enabled taken P Q : ℕ → Prop}

theorem WeaklyFair.mono {taken' : ℕ → Prop} (h : WeaklyFair enabled taken) (hsub : ∀ t, taken t → taken' t) :
    WeaklyFair enabled taken' := by
  intro t he
  obtain ⟨t', ht', htaken⟩ := h t he
  exact ⟨t', ht', hsub t' htaken⟩

/-- **Step rule.** If `P` enables the step and only the step ends `P`, then the step is
taken, and `P` still holds when it is. -/
theorem WeaklyFair.first (hfair : WeaklyFair enabled taken) (henabled : ∀ t, P t → enabled t)
    (hkeep : ∀ t, P t → ¬ taken t → P (t + 1)) {t : ℕ} (ht : P t) : ∃ t', t ≤ t' ∧ P t' ∧ taken t' := by
  by_contra hno
  push Not at hno
  have hforever : ∀ k, P (t + k) := by
    intro k
    induction k with
    | zero => exact ht
    | succ k ih => exact hkeep (t + k) ih (hno (t + k) (by omega) ih)
  have hP : ∀ t', t ≤ t' → P t' := fun t' h => by
    have := hforever (t' - t)
    rwa [show t + (t' - t) = t' by omega] at this
  obtain ⟨t', h1, h2⟩ := hfair t fun t' h => henabled t' (hP t' h)
  exact hno t' h1 (hP t' h1) h2

/-- **Induction rule.** If `P` leads to `Q` or to `P` with a smaller measure, it leads to `Q`. -/
theorem eventually_of_measure (m : ℕ → ℕ)
    (h : ∀ t, P t → (∃ t', t ≤ t' ∧ Q t') ∨ ∃ t', t ≤ t' ∧ P t' ∧ m t' < m t) :
    ∀ t, P t → ∃ t', t ≤ t' ∧ Q t' := by
  intro t ht
  induction hm : m t using Nat.strongRecOn generalizing t with
  | ind n ih =>
    rcases h t ht with hq | ⟨t', h1, h2, h3⟩
    · exact hq
    · obtain ⟨t'', h4, h5⟩ := ih (m t') (hm ▸ h3) t' h2 rfl
      exact ⟨t'', Nat.le_trans h1 h4, h5⟩

end Lib
