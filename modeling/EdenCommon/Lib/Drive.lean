import EdenCommon.Lib.Run
import Mathlib.Data.Nat.Notation

/-!
# Loops that ask their environment

Every round of the loop takes one answer of the environment and goes on in a new state or ends with
a result. `drive` runs it over the answers that are to come; a loop that wants one more answer
than there are has not ended.

* `drive_eq_some`: the rounds before the last one are a run of the continuing rounds.
* `drive_result`: the rule for an invariant of the rounds that go on.
* `drive_total`: both rules in one, for a measure that falls with every round.
* `drive_eq_none`: the rule for a loop that never ends.
* `drive_isSome`: the loop ends if a measure falls with every useful answer.
-/

namespace Lib

variable {σ ι ρ : Type*}

/-- The result of the loop, and the answers that it has not taken. -/
def drive (body : σ → ι → σ ⊕ ρ) : List ι → σ → Option (ρ × List ι)
  | [], _ => none
  | x :: xs, s =>
    match body s x with
    | .inl s' => drive body xs s'
    | .inr r => some (r, xs)

/-- A round that goes on. -/
def goesOn (body : σ → ι → σ ⊕ ρ) (s : σ) (x : ι) : Option σ := (body s x).getLeft?

variable {body : σ → ι → σ ⊕ ρ} {s s' : σ} {x : ι} {xs rest : List ι} {r : ρ}

@[simp] theorem drive_nil : drive body [] s = none := rfl

theorem drive_inl (h : body s x = .inl s') : drive body (x :: xs) s = drive body xs s' := by
  rw [drive, h]

theorem drive_inr (h : body s x = .inr r) : drive body (x :: xs) s = some (r, xs) := by
  rw [drive, h]

theorem goesOn_eq_some : goesOn body s x = some s' ↔ body s x = .inl s' := by
  unfold goesOn
  cases body s x <;> simp

/-- **The rounds of a loop that has ended**: some that go on, and one that ends it. -/
theorem drive_eq_some : drive body xs s = some (r, rest) ↔
    ∃ pre x s', xs = pre ++ x :: rest ∧ run (goesOn body) s pre = some s' ∧ body s' x = .inr r := by
  constructor
  · intro h
    induction xs generalizing s with
    | nil => simp at h
    | cons y ys ih =>
      cases hb : body s y with
      | inl s₁ =>
        rw [drive_inl hb] at h
        obtain ⟨pre, x, s', rfl, hrun, hend⟩ := ih h
        exact ⟨y :: pre, x, s', rfl, by rw [run_cons (goesOn_eq_some.mpr hb), hrun], hend⟩
      | inr r' =>
        rw [drive_inr hb, Option.some.injEq, Prod.mk.injEq] at h
        obtain ⟨rfl, rfl⟩ := h
        exact ⟨[], y, s, rfl, rfl, hb⟩
  · rintro ⟨pre, x, s', rfl, hrun, hend⟩
    induction pre generalizing s with
    | nil =>
      rw [run_nil, Option.some.injEq] at hrun
      rw [hrun, List.nil_append]
      exact drive_inr hend
    | cons y ys ih =>
      obtain ⟨s₁, hs, hrun⟩ := run_cons_eq_some.mp hrun
      rw [List.cons_append, drive_inl (goesOn_eq_some.mp hs)]
      exact ih hrun

/-- A loop that has ended does not look at further answers. -/
theorem drive_append (h : drive body xs s = some (r, rest)) (ys : List ι) :
    drive body (xs ++ ys) s = some (r, rest ++ ys) := by
  obtain ⟨pre, x, s', rfl, hrun, hend⟩ := drive_eq_some.mp h
  exact drive_eq_some.mpr ⟨pre, x, s', by rw [List.append_assoc, List.cons_append], hrun, hend⟩

/-- **Partial correctness.** The rounds that go on keep `I`, and one that ends in a state with `I`
gives a result with `P`. Only the answers with `A` have to be considered. -/
theorem drive_result {I : σ → Prop} {P : ρ → Prop} {A : ι → Prop} (hI : I s) (hA : ∀ x ∈ xs, A x)
    (hkeep : ∀ s x s', I s → A x → body s x = .inl s' → I s')
    (hend : ∀ s x r, I s → A x → body s x = .inr r → P r) (h : drive body xs s = some (r, rest)) : P r := by
  induction xs generalizing s with
  | nil => simp at h
  | cons y ys ih =>
    have hy := hA y List.mem_cons_self
    cases hb : body s y with
    | inl s' =>
      rw [drive_inl hb] at h
      exact ih (hkeep s y s' hI hy hb) (fun x hx => hA x (List.mem_cons_of_mem y hx)) h
    | inr r' =>
      rw [drive_inr hb, Option.some.injEq, Prod.mk.injEq] at h
      rw [← h.1]
      exact hend s y r' hI hy hb

/-- **Total correctness.** In states with `I` a round ends the loop with `P`, or keeps `I` and lowers the
measure. -/
theorem drive_total {I : σ → Prop} {P : ρ → Prop} {A : ι → Prop} (m : σ → ℕ) (hI : I s) (hA : ∀ x ∈ xs, A x)
    (hstep : ∀ s x, I s → A x →
      (∃ r, body s x = .inr r ∧ P r) ∨ ∃ s', body s x = .inl s' ∧ I s' ∧ m s' < m s) :
    (m s < xs.length → (drive body xs s).isSome) ∧ ∀ r rest, drive body xs s = some (r, rest) → P r := by
  induction xs generalizing s with
  | nil => exact ⟨fun h => absurd h (Nat.not_lt_zero _), nofun⟩
  | cons y ys ih =>
    rcases hstep s y hI (hA y List.mem_cons_self) with ⟨r, hb, hP⟩ | ⟨s', hb, hI', hm⟩
    · rw [drive_inr hb]
      refine ⟨fun _ => rfl, fun r' rest h => ?_⟩
      obtain ⟨rfl, -⟩ := Prod.mk.inj (Option.some.inj h)
      exact hP
    · rw [drive_inl hb]
      obtain ⟨hends, hP⟩ := ih hI' fun x hx => hA x (List.mem_cons_of_mem y hx)
      refine ⟨fun h => hends ?_, hP⟩
      rw [List.length_cons] at h
      omega

/-- **Divergence.** In states with `I` every round goes on, to a state with `I`. -/
theorem drive_eq_none {I : σ → Prop} {A : ι → Prop} (hI : I s) (hA : ∀ x ∈ xs, A x)
    (hstep : ∀ s x, I s → A x → ∃ s', body s x = .inl s' ∧ I s') : drive body xs s = none := by
  induction xs generalizing s with
  | nil => rfl
  | cons y ys ih =>
    obtain ⟨s', hb, hI'⟩ := hstep s y hI (hA y List.mem_cons_self)
    rw [drive_inl hb]
    exact ih hI' fun x hx => hA x (List.mem_cons_of_mem y hx)

/-- **Termination.** No round raises the measure `m`, and one with a useful answer lowers it or
ends the loop. -/
theorem drive_isSome (m : σ → ℕ) (useful : ι → Bool) {A : ι → Prop} (hA : ∀ x ∈ xs, A x)
    (hstep : ∀ s x s', A x → body s x = .inl s' → m s' + (if useful x then 1 else 0) ≤ m s)
    (h : m s < xs.countP useful) : (drive body xs s).isSome := by
  induction xs generalizing s with
  | nil => simp at h
  | cons y ys ih =>
    cases hb : body s y with
    | inl s' =>
      have hm := hstep s y s' (hA y List.mem_cons_self) hb
      rw [drive_inl hb]
      rw [List.countP_cons] at h
      apply ih fun x hx => hA x (List.mem_cons_of_mem y hx)
      omega
    | inr r' =>
      rw [drive_inr hb]
      rfl

end Lib
