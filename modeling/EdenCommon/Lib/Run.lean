import Mathlib.Data.List.Induction

/-!
# Runs of step functions

A run folds a step function over a list of operations and stops at the first
operation that fails. `run_invariant` is the induction rule for an invariant of the
state. `run_history` is the rule for an invariant that may speak of the whole history:
kept by one step under a guard on the history and the operation, it holds after every
guarded run. `AllSteps` says that every step of a run meets a guard on the state before
it; `run_iff` turns "lost exactly by a step without the guard" into a statement about runs.

`recorded` runs a step function beside a history that it does not read.

`exec` is a run of a total step function that collects what each step answers, and
`exec_sim` is the simulation rule for it.
-/

namespace Lib

variable {σ ι : Type*}

/-- The state after the operations `ops`, or `none` if one of them fails. -/
def run (step : σ → ι → Option σ) (s : σ) (ops : List ι) : Option σ := ops.foldlM step s

variable (step : σ → ι → Option σ)

@[simp] theorem run_nil (s : σ) : run step s [] = some s := rfl

/-- Two parts of a run. -/
theorem run_append (s : σ) (ops ops' : List ι) :
    run step s (ops ++ ops') = (run step s ops).bind fun s' => run step s' ops' := by
  unfold run; rw [List.foldlM_append]; rfl

/-- The last step of a run. -/
theorem run_concat (s : σ) (ops : List ι) (op : ι) :
    run step s (ops ++ [op]) = (run step s ops).bind fun s' => step s' op := by
  rw [run_append]
  congr 1; funext s'
  cases h : step s' op <;> simp [run, h]

variable {step}

theorem run_cons {s s' : σ} {op : ι} {ops : List ι} (hs : step s op = some s') :
    run step s (op :: ops) = run step s' ops := by
  simp [run, hs]

/-- The first step of a run that succeeds. -/
theorem run_cons_eq_some {s s' : σ} {op : ι} {ops : List ι} :
    run step s (op :: ops) = some s' ↔ ∃ s₁, step s op = some s₁ ∧ run step s₁ ops = some s' := by
  simp [run, Option.bind_eq_some_iff]

/-- **Invariance.** What holds initially and is kept by every step holds after every run. -/
theorem run_invariant {I : σ → Prop} {s₀ : σ} (h0 : I s₀) (hstep : ∀ s op s', I s → step s op = some s' → I s')
    (ops : List ι) {s : σ} (hrun : run step s₀ ops = some s) : I s := by
  induction ops using List.reverseRecOn generalizing s with
  | nil => cases hrun; exact h0
  | append_singleton ops op ih =>
    rw [run_concat] at hrun
    obtain ⟨s₁, h1, h2⟩ := Option.bind_eq_some_iff.1 hrun
    exact hstep s₁ op s (ih h1) h2

/-- **Guarded history induction.** If `I` holds initially and every operation
whose guard holds takes an `I` state to an `I` state, then a run all of whose
operations meet their guards succeeds and ends in an `I` state. -/
theorem run_history {I : List ι → σ → Prop} {G : List ι → ι → Prop} {s₀ : σ}
    (h0 : I [] s₀)
    (hstep : ∀ ops op s, I ops s → G ops op → ∃ s', step s op = some s' ∧ I (ops ++ [op]) s') :
    ∀ ops, (∀ pre op, pre ++ [op] <+: ops → G pre op) → ∃ s, run step s₀ ops = some s ∧ I ops s := by
  intro ops
  induction ops using List.reverseRecOn with
  | nil => intro _; exact ⟨s₀, rfl, h0⟩
  | append_singleton ops op ih =>
    intro hg
    obtain ⟨s, hs, hi⟩ := ih fun pre o hp => hg pre o (hp.trans (List.prefix_append _ _))
    obtain ⟨s', hs', hi'⟩ := hstep ops op s hi (hg ops op (List.prefix_refl _))
    exact ⟨s', by rw [run_concat, hs]; exact hs', hi'⟩

/-- The steps of a run over `x :: ops` are the step `x` and the steps of `ops` after it. -/
theorem forall_step_cons {G : List ι → ι → Prop} {x : ι} {ops : List ι} :
    (∀ pre op, pre ++ [op] <+: x :: ops → G pre op) ↔
      G [] x ∧ ∀ pre op, pre ++ [op] <+: ops → G (x :: pre) op := by
  constructor
  · intro h
    exact ⟨h [] x ⟨ops, rfl⟩, fun pre op hp => h (x :: pre) op (by simpa using hp)⟩
  · rintro ⟨h0, h1⟩ pre op hp
    cases pre with
    | nil => obtain rfl : op = x := by simpa using hp
             exact h0
    | cons y pre =>
      obtain ⟨rfl, hp'⟩ : y = x ∧ pre ++ [op] <+: ops := by simpa using hp
      exact h1 pre op hp'

/-! ### Guards on the state -/

/-- Every operation of the run meets `G` in the state before it. -/
def AllSteps (step : σ → ι → Option σ) (G : σ → ι → Prop) (s : σ) : List ι → Prop
  | [] => True
  | op :: ops => G s op ∧ ∀ s', step s op = some s' → AllSteps step G s' ops

theorem allSteps_cons {G : σ → ι → Prop} {s s' : σ} {op : ι} {ops : List ι} (hs : step s op = some s') :
    AllSteps step G s (op :: ops) ↔ G s op ∧ AllSteps step G s' ops := by
  rw [AllSteps]
  simp only [hs, Option.some.injEq, forall_eq']

theorem allSteps_cons_none {G : σ → ι → Prop} {s : σ} {op : ι} {ops : List ι} (hs : step s op = none) :
    AllSteps step G s (op :: ops) ↔ G s op := by
  rw [AllSteps]
  simp [hs]

instance AllSteps.decidable {G : σ → ι → Prop} [∀ s op, Decidable (G s op)] :
    ∀ (ops : List ι) (s : σ), Decidable (AllSteps step G s ops)
  | [], _ => isTrue trivial
  | op :: ops, s =>
    match hs : step s op with
    | some s' =>
      have : Decidable (AllSteps step G s' ops) := AllSteps.decidable ops s'
      decidable_of_iff (G s op ∧ AllSteps step G s' ops) (allSteps_cons hs).symm
    | none => decidable_of_iff (G s op) (allSteps_cons_none hs).symm

/-- Two conditions that all steps meet. -/
theorem AllSteps.and {G G' : σ → ι → Prop} {s : σ} {ops : List ι} (h : AllSteps step G s ops)
    (h' : AllSteps step G' s ops) : AllSteps step (fun s op => G s op ∧ G' s op) s ops := by
  induction ops generalizing s with
  | nil => trivial
  | cons op ops ih => exact ⟨⟨h.1, h'.1⟩, fun s' hs' => ih (h.2 s' hs') (h'.2 s' hs')⟩

/-- The conditions of two parts of a run. -/
theorem AllSteps.append {G : σ → ι → Prop} {s : σ} {ops ops' : List ι} (h : AllSteps step G s ops)
    (h' : ∀ s', run step s ops = some s' → AllSteps step G s' ops') : AllSteps step G s (ops ++ ops') := by
  induction ops generalizing s with
  | nil => exact h' s rfl
  | cons op ops ih =>
    refine ⟨h.1, fun s₁ hs₁ => ih (h.2 s₁ hs₁) fun s' hs' => ?_⟩
    exact h' s' (by rw [run_cons hs₁, hs'])

/-- A guard that no state fails. -/
theorem AllSteps.of_forall {G : σ → ι → Prop} {ops : List ι} (h : ∀ op ∈ ops, ∀ s, G s op) (s : σ) :
    AllSteps step G s ops := by
  induction ops generalizing s with
  | nil => trivial
  | cons op ops ih =>
    exact ⟨h op List.mem_cons_self s, fun s' _ => ih (fun op' hop' => h op' (List.mem_cons_of_mem op hop')) s'⟩

/-- A guard on the operations alone. -/
theorem allSteps_of_run {G : ι → Prop} {ops : List ι} {s s' : σ} (hrun : run step s ops = some s') :
    AllSteps step (fun _ => G) s ops ↔ ∀ op ∈ ops, G op := by
  induction ops generalizing s with
  | nil => exact iff_of_true trivial fun _ h => absurd h List.not_mem_nil
  | cons op ops ih =>
    obtain ⟨s₁, hs, hrun'⟩ := run_cons_eq_some.1 hrun
    rw [allSteps_cons hs, ih hrun', List.forall_mem_cons]

/-- **Exact guards.** If in states with `I` a step keeps `I`, and keeps `P` exactly if it
meets `G`, then `P` holds after a run exactly if it held before and all steps meet `G`. -/
theorem run_iff {I P : σ → Prop} {G : σ → ι → Prop}
    (hI : ∀ s op s', I s → step s op = some s' → I s')
    (hP : ∀ s op s', I s → step s op = some s' → (P s' ↔ P s ∧ G s op)) :
    ∀ (ops : List ι) {s₀ s : σ}, I s₀ → run step s₀ ops = some s → (P s ↔ P s₀ ∧ AllSteps step G s₀ ops) := by
  intro ops
  induction ops with
  | nil =>
    intro s₀ s _ hrun
    obtain rfl : s₀ = s := by simpa using hrun
    simp [AllSteps]
  | cons op ops ih =>
    intro s₀ s h0 hrun
    obtain ⟨s₁, h1, h2⟩ := run_cons_eq_some.1 hrun
    rw [ih (hI s₀ op s₁ h0 h1) h2, hP s₀ op s₁ h0 h1, allSteps_cons h1, and_assoc]

/-- **Guarded invariance.** What holds initially and is kept by the steps that meet `G`
holds after every run all of whose steps do. -/
theorem run_guarded {I : σ → Prop} {G : σ → ι → Prop}
    (hstep : ∀ s op s', I s → G s op → step s op = some s' → I s') :
    ∀ (ops : List ι) {s₀ s : σ}, I s₀ → AllSteps step G s₀ ops → run step s₀ ops = some s → I s := by
  intro ops
  induction ops with
  | nil =>
    intro s₀ s h0 _ hrun
    obtain rfl : s₀ = s := by simpa using hrun
    exact h0
  | cons op ops ih =>
    intro s₀ s h0 hg hrun
    obtain ⟨s₁, h1, h2⟩ := run_cons_eq_some.1 hrun
    exact ih (hstep s₀ op s₁ h0 hg.1 h1) (hg.2 s₁ h1) h2

/-- If the steps that keep `I` are those that meet `G`, then `I` holds in every state of
a run exactly if all its steps meet `G`. -/
theorem allSteps_iff {I : σ → Prop} {G : σ → ι → Prop}
    (hI : ∀ s op s', I s → step s op = some s' → (I s' ↔ G s op)) :
    ∀ (ops : List ι) {s₀ s : σ}, I s₀ → run step s₀ ops = some s →
      (AllSteps step G s₀ ops ↔ ∀ pre, pre <+: ops → ∀ s', run step s₀ pre = some s' → I s') := by
  intro ops
  induction ops with
  | nil =>
    intro s₀ s h0 _
    refine ⟨fun _ pre hpre s' hs' => ?_, fun _ => trivial⟩
    obtain rfl := List.prefix_nil.1 hpre
    obtain rfl : s₀ = s' := by simpa using hs'
    exact h0
  | cons op ops ih =>
    intro s₀ s h0 hrun
    obtain ⟨s₁, h1, h2⟩ := run_cons_eq_some.1 hrun
    rw [allSteps_cons h1, ← hI s₀ op s₁ h0 h1]
    constructor
    · rintro ⟨hs₁, hrest⟩ pre hpre s' hs'
      cases pre with
      | nil =>
        obtain rfl : s₀ = s' := by simpa using hs'
        exact h0
      | cons x pre =>
        obtain ⟨rfl, hpre'⟩ := List.cons_prefix_cons.1 hpre
        rw [run_cons h1] at hs'
        exact (ih hs₁ h2).1 hrest pre hpre' s' hs'
    · intro h
      have hs₁ : I s₁ := h [op] (List.cons_prefix_cons.2 ⟨rfl, List.nil_prefix⟩) s₁ (by rw [run_cons h1]; rfl)
      refine ⟨hs₁, (ih hs₁ h2).2 fun pre hpre s' hs' => ?_⟩
      exact h (op :: pre) (List.cons_prefix_cons.2 ⟨rfl, hpre⟩) s' (by rw [run_cons h1]; exact hs')

/-! ### Recorded runs -/

/-- The step function beside a history that it does not read. -/
def recorded {η : Type*} (step : σ → ι → Option σ) (record : σ → η → ι → η) (x : σ × η) (op : ι) : Option (σ × η) :=
  (step x.1 op).map fun s' => (s', record x.1 x.2 op)

theorem recorded_eq_some {η : Type*} {record : σ → η → ι → η} {x x' : σ × η} {op : ι} :
    recorded step record x op = some x' ↔ step x.1 op = some x'.1 ∧ record x.1 x.2 op = x'.2 := by
  unfold recorded
  constructor
  · intro h
    obtain ⟨s', hs, rfl⟩ := Option.map_eq_some_iff.1 h
    exact ⟨hs, rfl⟩
  · rintro ⟨hs, hh⟩
    rw [hs, Option.map_some, hh]

/-! ### Runs with answers -/

variable {τ ω : Type*}

/-- The state after the operations `ops` and the answer to each of them. -/
def exec (step : σ → ι → σ × ω) (s : σ) : List ι → σ × List ω
  | [] => (s, [])
  | op :: ops => ((exec step (step s op).1 ops).1, (step s op).2 :: (exec step (step s op).1 ops).2)

/-- **Simulation.** A relation that every operation keeps while giving the same answer
is kept by every run, with the same answers. -/
theorem exec_sim {R : σ → τ → Prop} {step : σ → ι → σ × ω} {step' : τ → ι → τ × ω}
    (hstep : ∀ s t op, R s t → R (step s op).1 (step' t op).1 ∧ (step s op).2 = (step' t op).2) :
    ∀ (ops : List ι) (s : σ) (t : τ), R s t →
      R (exec step s ops).1 (exec step' t ops).1 ∧ (exec step s ops).2 = (exec step' t ops).2 := by
  intro ops
  induction ops with
  | nil => intro s t h; exact ⟨h, rfl⟩
  | cons op ops ih =>
    intro s t h
    obtain ⟨h1, h2⟩ := hstep s t op h
    obtain ⟨h3, h4⟩ := ih _ _ h1
    exact ⟨h3, by rw [exec, exec, h2, h4]⟩

end Lib
