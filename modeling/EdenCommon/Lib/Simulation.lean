import EdenCommon.Lib.Wp

/-!
# Programs over a larger state

A program `M` over `τ` does what `m` does over `σ`, seen through `f : τ → σ`, and keeps a
condition of its own on the way: `Sim f M m P Q E`. What is added to the state may end
`M` only where `m` ends, so a condition that holds in between excludes it.
-/

namespace Lib

variable {ε σ τ ρ α β : Type} {f : τ → σ} {M : EStateM ε τ α} {m : EStateM ε σ α} {P : τ → Prop} {Q : α → τ → Prop}
  {E : ε → τ → Prop}

/-- From a state with `P`, the program `M` ends as `m` does, and with `Q` or `E`. -/
def Sim (f : τ → σ) (M : EStateM ε τ α) (m : EStateM ε σ α) (P : τ → Prop) (Q : α → τ → Prop) (E : ε → τ → Prop) : Prop :=
  ∀ t, P t → wp M (fun a t' => Q a t' ∧ m (f t) = .ok a (f t')) (fun e t' => E e t' ∧ m (f t) = .error e (f t')) t

/-- **Sequencing** of two programs that simulate. -/
theorem Sim.bind {K : α → EStateM ε τ β} {k : α → EStateM ε σ β} {R : β → τ → Prop} (h : Sim f M m P Q E)
    (hk : ∀ a, Sim f (K a) (k a) (Q a) R E) : Sim f (M >>= K) (m >>= k) P R E := by
  intro t ht
  refine wp.bind (h t ht) ?_ ?_
  · rintro e t' ⟨he, hm⟩
    refine ⟨he, ?_⟩
    change EStateM.bind m k (f t) = _
    rw [EStateM.bind, hm]
  · rintro a t' ⟨ha, hm⟩
    have hbind : (m >>= k) (f t) = k a (f t') := by
      change EStateM.bind m k (f t) = _
      rw [EStateM.bind, hm]
    rw [hbind]
    exact hk a t' ha

theorem Sim.pure {a : α} (h : ∀ t, P t → Q a t) : Sim f (pure a) (pure a : EStateM ε σ α) P Q E := by
  intro t ht
  rw [wp_pure]
  exact ⟨h t ht, rfl⟩

/-- A program on a part of the state that the condition does not mention. -/
theorem Sim.onFst {c : EStateM ε ρ α} {g : τ → σ} {P : τ → Prop} :
    Sim (fun s : ρ × τ => (s.1, g s.2)) (onFst c) (onFst c) (fun s => P s.2) (fun _ s => P s.2) (fun _ s => P s.2) := by
  intro s hs
  rw [wp_onFst]
  unfold wp Lib.onFst
  cases hc : c s.1 with
  | ok a r => exact ⟨hs, rfl⟩
  | error e r => exact ⟨hs, rfl⟩

end Lib
