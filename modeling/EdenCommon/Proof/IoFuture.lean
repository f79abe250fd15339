import EdenCommon.Spec.IoFuture
import Mathlib.Tactic.ByContra

/-!
# When every future of `IoFuture` is completed once

`wait_cases` and `event_cases` say what the three members do. A wait that cannot register leaves
the promise fulfilled while the timer or an earlier handler may still be there; everything else
keeps them together with a promise that is pending (`Inv`). `exactlyOnce_iff` follows the two
possibilities over a run: an event behind such a wait ends the program, and without one the
invariant is kept.

* `cancelPrevious_spec`: the previous wait is over before the next one starts.
* `event_spec`, `event_terminates`: both callbacks disarm the timer and the handler and
  complete the promise; behind a failed wait they end the program.
* `run_inv`: the invariant holds as long as no event follows a failed wait.
-/

namespace EdenCommon

open Lib

namespace IoFuture

variable {s s' : IoFuture} {op : Op}

/-- How often a future has been completed. -/
def count (completions : List (ℕ × Completion)) (future : ℕ) : ℕ := completions.countP fun c => c.1 = future

/-- The state between the steps of a run that has met no event after a failed wait. `failed` says
that the last step was such a wait. -/
structure Inv (failed : Bool) (s : IoFuture) : Prop where
  alive : s.terminated = false
  once : ∀ future, count s.completions future = if future < s.futures ∧ s.promise_ ≠ .pending future then 1 else 0
  armed : ∀ future, s.promise_ = .pending future →
    future + 1 = s.futures ∧ s.handlerRegistered = true ∧ s.timeoutScheduled = true
  afterFailure : failed = true → s.promise_ = .fulfilled
  quiet : failed = false → s.promise_.isFulfilled → s.handlerRegistered = false ∧ s.timeoutScheduled = false

theorem Inv.exactlyOnce {failed : Bool} (h : Inv failed s) : s.ExactlyOnce := by
  refine ⟨h.alive, fun future hlt => ?_, fun future hp => (h.armed future hp).2⟩
  have := h.once future
  by_cases hp : s.promise_ = .pending future
  · rw [if_pos hp]
    rwa [if_neg fun hc => hc.2 hp] at this
  · rw [if_neg hp]
    rwa [if_pos ⟨hlt, hp⟩] at this

theorem inv_start : Inv false {} :=
  ⟨rfl, fun future => by simp [count], fun future h => by simp at h, by simp, by simp⟩

/-! ### What the members do -/

theorem complete_pending {future : ℕ} (h : s.promise_ = .pending future) (c : Completion) :
    s.complete c = some { s with promise_ := .fulfilled, completions := s.completions ++ [(future, c)] } := by
  unfold complete
  rw [h]

theorem complete_fulfilled (h : s.promise_.isFulfilled = true) (c : Completion) : s.complete c = none := by
  unfold complete
  cases hp : s.promise_ with
  | pending future => simp [hp, Promise.isFulfilled] at h
  | empty => rfl
  | fulfilled => rfl

theorem isFulfilled_iff : s.promise_.isFulfilled = true ↔ ∀ future, s.promise_ ≠ .pending future := by
  cases s.promise_ <;> simp [Promise.isFulfilled]

theorem count_concat (completions : List (ℕ × Completion)) (future : ℕ) (c : Completion) (f : ℕ) :
    count (completions ++ [(future, c)]) f = count completions f + if future = f then 1 else 0 := by
  unfold count
  rw [List.countP_append, List.countP_singleton]
  simp only [decide_eq_true_eq]

/-- **The previous wait** is over before the next one starts. -/
theorem cancelPrevious_spec {failed : Bool} (h : Inv failed s) :
    ∃ s₁, s.cancelPrevious = some s₁ ∧ s₁.terminated = false ∧ s₁.promise_.isFulfilled = true ∧
      s₁.futures = s.futures ∧ (∀ future, count s₁.completions future = if future < s.futures then 1 else 0) := by
  unfold cancelPrevious
  by_cases hf : s.promise_.isFulfilled = true
  · refine ⟨s, if_pos hf, h.alive, hf, rfl, fun future => ?_⟩
    have hne := isFulfilled_iff.mp hf future
    have := h.once future
    simpa only [hne, ne_eq, not_false_eq_true, and_true] using this
  · rw [if_neg hf]
    obtain ⟨future, hp⟩ : ∃ future, s.promise_ = .pending future := by
      by_contra hno
      exact hf (isFulfilled_iff.mpr fun future hp => hno ⟨future, hp⟩)
    refine ⟨_, complete_pending hp _, h.alive, rfl, rfl, fun f => ?_⟩
    have hlast := (h.armed future hp).1
    have honce := h.once f
    have hpf : s.promise_ = .pending f ↔ future = f := by rw [hp, Promise.pending.injEq]
    rw [count_concat, honce]
    by_cases heq : future = f
    · rw [if_neg fun hc => hc.2 (hpf.mpr heq), if_pos heq, if_pos (by omega)]
    · rw [if_neg heq, Nat.add_zero]
      have hne : s.promise_ ≠ .pending f := fun hc => heq (hpf.mp hc)
      simp only [hne, ne_eq, not_false_eq_true, and_true]

/-- A wait that fails to register has completed every future. -/
theorem Inv.of_failed (halive : s.terminated = false) (hp : s.promise_ = .fulfilled)
    (hcount : ∀ f, count s.completions f = if f < s.futures then 1 else 0) : Inv true s := by
  refine ⟨halive, fun f => ?_, ?_, fun _ => hp, ?_⟩
  · rw [hcount f, hp]
    simp
  · simp [hp]
  · simp

/-- **A wait** gives one more future. It ends with the future pending and both ways to complete it
armed, or with the future completed. -/
theorem wait_inv {failed : Bool} {persist : Bool} {timeout handler : Registration} (h : Inv failed s)
    (hs : s.wait persist timeout handler = some s') :
    Inv (Op.failsToRegister (.wait persist timeout handler)) s' := by
  obtain ⟨s₁, hcancel, halive, -, hfutures, hcount⟩ := cancelPrevious_spec h
  rw [wait, hcancel, Option.bind_some] at hs
  have hcompleted : ∀ f, count s₁.completions f + (if s₁.futures = f then 1 else 0) = if f < s₁.futures + 1 then 1 else 0 := by
    intro f
    rw [hcount f, hfutures]
    split <;> split <;> split <;> omega
  cases persist with
  | true => simp at hs
  | false =>
    simp only [Bool.false_eq_true, if_false] at hs
    cases timeout with
    | fails stays =>
      simp only at hs
      rw [complete_pending rfl, Option.some.injEq] at hs
      subst hs
      exact Inv.of_failed halive rfl fun f => (count_concat _ _ _ f).trans (hcompleted f)
    | succeeds =>
      cases handler with
      | fails stays =>
        simp only at hs
        rw [complete_pending rfl, Option.some.injEq] at hs
        subst hs
        exact Inv.of_failed halive rfl fun f => (count_concat _ _ _ f).trans (hcompleted f)
      | succeeds =>
        rw [Option.some.injEq] at hs
        subst hs
        refine ⟨halive, fun f => ?_, ?_, by simp [Op.failsToRegister], by simp [Promise.isFulfilled]⟩
        · have := hcount f
          simp only [ne_eq, Promise.pending.injEq]
          rw [this, hfutures]
          split <;> split <;> omega
        · intro future hp
          simp only [Promise.pending.injEq] at hp
          simp [hp]

/-- What either callback does: it disarms both and completes the promise, or ends the program. -/
theorem event_spec (he : op.isEvent = true) (hs : step s op = some s') :
    ∃ c, s' = { s with handlerRegistered := false, timeoutScheduled := false }.orTerminate c ∧
      (s.handlerRegistered = true ∨ s.timeoutScheduled = true) ∧ s.terminated = false := by
  unfold step at hs
  by_cases ht : s.terminated = true
  · rw [if_pos ht] at hs
    contradiction
  · rw [if_neg ht] at hs
    have hf : s.terminated = false := by simpa using ht
    cases op with
    | wait persist timeout handler => simp [Op.isEvent] at he
    | handlerReady events =>
      simp only [handlerReady] at hs
      by_cases hr : s.handlerRegistered = true
      · rw [if_pos hr, Option.some.injEq] at hs
        exact ⟨_, hs.symm, Or.inl hr, hf⟩
      · rw [if_neg hr] at hs
        contradiction
    | timeoutExpired =>
      simp only [timeoutExpired] at hs
      by_cases hr : s.timeoutScheduled = true
      · rw [if_pos hr, Option.some.injEq] at hs
        exact ⟨_, hs.symm, Or.inr hr, hf⟩
      · rw [if_neg hr] at hs
        contradiction

/-- **An event** that is waited for completes the future. -/
theorem event_inv (h : Inv false s) (he : op.isEvent = true) (hs : step s op = some s') : Inv false s' := by
  obtain ⟨c, rfl, harmed, -⟩ := event_spec he hs
  obtain ⟨future, hp⟩ : ∃ future, s.promise_ = .pending future := by
    by_contra hno
    have hquiet := h.quiet rfl (isFulfilled_iff.mpr fun future hp => hno ⟨future, hp⟩)
    rw [hquiet.1, hquiet.2] at harmed
    simp at harmed
  have hp' : ({ s with handlerRegistered := false, timeoutScheduled := false } : IoFuture).promise_ =
    .pending future := hp
  rw [orTerminate, complete_pending hp', Option.getD_some]
  refine ⟨h.alive, fun f => ?_, by simp, by simp, by simp⟩
  have hlast := (h.armed future hp).1
  have honce := h.once f
  rw [count_concat, honce, hp]
  simp only [ne_eq, Promise.pending.injEq, reduceCtorEq, not_false_eq_true, and_true]
  split <;> split <;> split <;> omega

/-- **An event after a failed wait** ends the program. -/
theorem event_terminates (h : Inv true s) (he : op.isEvent = true) (hs : step s op = some s') :
    s'.terminated = true := by
  obtain ⟨c, rfl, -, -⟩ := event_spec he hs
  have hf : ({ s with handlerRegistered := false, timeoutScheduled := false } : IoFuture).promise_.isFulfilled =
      true := by
    simp only [h.afterFailure rfl, Promise.isFulfilled]
  rw [orTerminate, complete_fulfilled hf]
  rfl

/-! ### Runs -/

/-- `b` is an event and `a` a wait that could not register. -/
def EventAfterFailure (a b : Op) : Prop := a.failsToRegister = true ∧ b.isEvent = true

instance (a b : Op) : Decidable (EventAfterFailure a b) := inferInstanceAs (Decidable (_ ∧ _))

/-- Whether the last operation could not register. -/
def lastFailed (ops : List Op) : Bool := ops.getLast?.any Op.failsToRegister

/-- **Over a run**: the invariant holds as long as no event follows a failed wait, and then the
program has ended. -/
theorem run_inv (ops : List Op) (h : run step {} ops = some s) :
    (ops.IsChain (fun a b => ¬EventAfterFailure a b) → Inv (lastFailed ops) s) ∧
      (¬ops.IsChain (fun a b => ¬EventAfterFailure a b) → s.terminated = true) := by
  induction ops using List.reverseRecOn generalizing s with
  | nil =>
    rw [run_nil, Option.some.injEq] at h
    subst h
    exact ⟨fun _ => inv_start, fun hc => absurd List.isChain_nil hc⟩
  | append_singleton ops op ih =>
    rw [run_concat] at h
    obtain ⟨s₁, h1, h2⟩ := Option.bind_eq_some_iff.mp h
    obtain ⟨hkeep, hend⟩ := ih h1
    have halive : s₁.terminated = false := by
      unfold step at h2
      by_contra ht
      rw [if_pos (by simpa using ht)] at h2
      contradiction
    have hchain : ops.IsChain (fun a b => ¬EventAfterFailure a b) := by
      by_contra hc
      rw [hend hc] at halive
      contradiction
    have hinv := hkeep hchain
    have hlast : lastFailed (ops ++ [op]) = op.failsToRegister := by simp [lastFailed]
    have hnext : (ops ++ [op]).IsChain (fun a b => ¬EventAfterFailure a b) ↔
        ¬(lastFailed ops = true ∧ op.isEvent = true) := by
      have hpair : (∀ a ∈ ops.getLast?, ∀ b ∈ [op].head?, ¬EventAfterFailure a b) ↔
          ¬(lastFailed ops = true ∧ op.isEvent = true) := by
        cases hl : ops.getLast? with
        | none => simp [lastFailed, hl]
        | some a => simp [lastFailed, hl, EventAfterFailure]
      rw [List.isChain_append, hpair]
      exact ⟨fun hc => hc.2.2, fun hc => ⟨hchain, List.isChain_singleton op, hc⟩⟩
    rw [hlast, hnext]
    cases hev : op.isEvent with
    | false =>
      refine ⟨fun _ => ?_, fun hc => by simp at hc⟩
      cases op with
      | wait persist timeout handler =>
        unfold step at h2
        rw [if_neg (by simp [halive])] at h2
        exact wait_inv hinv h2
      | handlerReady events => simp [Op.isEvent] at hev
      | timeoutExpired => simp [Op.isEvent] at hev
    | true =>
      have hno : op.failsToRegister = false := by
        cases op with
        | wait persist timeout handler => simp [Op.isEvent] at hev
        | handlerReady events => rfl
        | timeoutExpired => rfl
      cases hfail : lastFailed ops with
      | false =>
        rw [hfail] at hinv
        refine ⟨fun _ => ?_, fun hc => by simp at hc⟩
        rw [hno]
        exact event_inv hinv hev h2
      | true =>
        rw [hfail] at hinv
        exact ⟨fun hc => by simp at hc, fun _ => event_terminates hinv hev h2⟩

/-- **Every future is completed exactly once**, and no callback throws, exactly over the runs in
which no event follows a wait that could not register. -/
theorem exactlyOnce_iff (ops : List Op) (s : IoFuture) (h : run step {} ops = some s) :
    s.ExactlyOnce ↔ ops.IsChain fun a b => ¬(a.failsToRegister = true ∧ b.isEvent = true) := by
  obtain ⟨hkeep, hend⟩ := run_inv ops h
  constructor
  · intro honce
    by_contra hc
    have := honce.alive
    rw [hend hc] at this
    contradiction
  · exact fun hc => (hkeep hc).exactlyOnce

/-- A wait that is replaced, and a wait whose event comes. -/
theorem exactlyOnce_replaced :
    run step {} [.wait false .succeeds .succeeds, .wait false .succeeds .succeeds, .handlerReady 2] =
        some { promise_ := .fulfilled, futures := 2,
               completions := [(0, .systemError .ecanceled "I/O wait canceled"), (1, .value 2)] } ∧
      ExactlyOnce { promise_ := .fulfilled, futures := 2,
                    completions := [(0, .systemError .ecanceled "I/O wait canceled"), (1, .value 2)] } :=
  ⟨by decide, (exactlyOnce_iff _ _ (by decide : run step {} [.wait false .succeeds .succeeds,
    .wait false .succeeds .succeeds, .handlerReady 2] = _)).mpr (by decide)⟩

/-- The timer of a wait that could not register its handler fires. -/
theorem timeout_after_failed_wait :
    run step {} [.wait false .succeeds (.fails false), .timeoutExpired] =
        some { promise_ := .fulfilled, futures := 1, terminated := true,
               completions := [(0, .systemError .eio "error registering for socket I/O")] } ∧
      ¬ExactlyOnce { promise_ := .fulfilled, futures := 1, terminated := true,
                     completions := [(0, .systemError .eio "error registering for socket I/O")] } := by
  refine ⟨by decide, fun h => ?_⟩
  have := h.alive
  contradiction

end IoFuture

end EdenCommon
