import Mathlib.Data.Nat.Notation
import Mathlib.Order.WellFounded

/-!
# Runs that end

A step function whose steps all go down in a well-founded relation has no infinite run.
The relations of the parts of a state are put together in lexicographic order.
-/

namespace Lib

variable {σ ι τ : Type*} {step : σ → ι → Option σ}

/-- **Termination.** If every step goes down, there is no infinite run. -/
theorem no_infinite_run {R : τ → τ → Prop} (hwf : WellFounded R) (m : σ → τ)
    (hdown : ∀ s op s', step s op = some s' → R (m s') (m s)) (run : ℕ → σ) (ops : ℕ → ι) :
    ¬ ∀ t, step (run t) (ops t) = some (run (t + 1)) := by
  intro hrun
  have hnone : ∀ x t, m (run t) = x → False := by
    intro x
    induction x using hwf.induction with
    | h x ih =>
      rintro t rfl
      exact ih _ (hdown _ _ _ (hrun t)) (t + 1) rfl
  exact hnone _ 0 rfl

variable {α β : Type*}

/-- Down in the first part, or down in the second with the same first part. -/
def LexDown (R : α → α → Prop) (S : β → β → Prop) (x y : α × β) : Prop :=
  R x.1 y.1 ∨ (x.1 = y.1 ∧ S x.2 y.2)

theorem LexDown.wellFounded {R : α → α → Prop} {S : β → β → Prop} (hR : WellFounded R) (hS : WellFounded S) :
    WellFounded (LexDown R S) := by
  refine Subrelation.wf (fun {x y} h => ?_) (WellFounded.prod_lex hR hS)
  obtain ⟨a, b⟩ := x
  obtain ⟨c, d⟩ := y
  obtain h | ⟨h, hs⟩ := h
  · exact Prod.Lex.left _ _ h
  · have h : a = c := h
    subst h
    exact Prod.Lex.right _ hs

end Lib
