import EdenCommon.Proof.ProcessInfoCache
import EdenCommon.Spec.ProcessInfoShutdown
import Mathlib.Tactic.ByContra

/-!
# The destructor of `ProcessInfoCache` returns

The post of the destructor is one count more than the requests need (`Down.credit`), so the
worker that finishes its turn cannot find the semaphore empty. Every call of
`getAllProcessInfos` has its answer when it returns, so no request is left when the worker
stops (`Down.waiters`).

* `step_cases`: a step moves a call before the destructor begins, or the worker before it
  stops, or the shutdown.
* `Down.step`, `run_down`: the credit and the answers are kept in every run.
* `Down.remaining_lt`, `Down.can_step`: behind the beginning of the destructor every step
  brings its end closer, and there is always one.
* `destructor_returns`: so the destructor returns, wherever the calls and the worker are.
-/

namespace EdenCommon

namespace ProcessInfoCache

/-! ### Who waits for an answer -/

/-- The call asks for `p`, which may not be answered yet. -/
def Caller.AsksFor (p : PromiseId) (c : Caller) : Prop := c = .post (some p) ∨ c = .waiting p

/-- Every request of `getAllProcessInfos` is answered, or a call has not returned that asks for it. -/
def Sys.Waited {Info : Type} (s : Sys Info) : Prop :=
  ∀ p ∈ s.getAllsQueued, p ∈ s.getAllResults.map Prod.fst ∨ ∃ c ∈ s.callers, c.AsksFor p

section Waited

variable {Info : Type} {expiry : Time} {s s' : Sys Info} {i : ℕ} {c d : Caller}

theorem mem_map_of_lookup {results : List (PromiseId × List (Pid × Info))} {p : PromiseId}
    (h : (results.lookup p).isSome) : p ∈ results.map Prod.fst := by
  obtain ⟨x, hx⟩ := Option.isSome_iff_exists.1 h
  rw [List.lookup_eq_some_iff] at hx
  obtain ⟨l₁, l₂, rfl, -⟩ := hx
  simp

/-- A call goes from `c` to `d`, and where it asked before, it asks still or has its answer. -/
theorem Sys.Waited.set (h : s.Waited) (hi : s.callers[i]? = some c) (hcallers : s'.callers = s.callers.set i d)
    (hresults : s'.getAllResults = s.getAllResults)
    (hqueued : ∀ p ∈ s'.getAllsQueued, p ∈ s.getAllsQueued ∨ d.AsksFor p)
    (hkeep : ∀ p, c.AsksFor p → d.AsksFor p ∨ p ∈ s.getAllResults.map Prod.fst) : s'.Waited := by
  intro p hp
  have hd : d ∈ s'.callers := by
    rw [hcallers]
    exact List.mem_set (List.getElem?_eq_some_iff.1 hi).1 d
  rw [hresults]
  obtain hp | hp := hqueued p hp
  · obtain hp | ⟨c', hc', hasks⟩ := h p hp
    · exact Or.inl hp
    · obtain ⟨j, hj⟩ := List.mem_iff_getElem?.1 hc'
      by_cases hji : j = i
      · subst hji
        obtain rfl : c = c' := by rw [hi] at hj; exact Option.some.inj hj
        obtain hd' | hp := hkeep p hasks
        · exact Or.inr ⟨d, hd, hd'⟩
        · exact Or.inl hp
      · refine Or.inr ⟨c', ?_, hasks⟩
        rw [hcallers]
        apply List.mem_of_getElem? (i := j)
        rwa [List.getElem?_set_ne (Ne.symm hji)]
  · exact Or.inr ⟨d, hd, hp⟩

theorem Sys.Waited.proceed (h : s.Waited) (hi : s.callers[i]? = some c) (hc : s.proceed i c = some s') : s'.Waited := by
  have hsilent : ∀ {c : Caller} {p : PromiseId}, (∀ q, c ≠ .post (some q)) → (∀ q, c ≠ .waiting q) → ¬ c.AsksFor p :=
    fun hpost hwait hasks => hasks.elim (hpost _) (hwait _)
  cases c with
  | lookup pid now =>
    rw [Sys.proceed] at hc
    split at hc
    · cases hc
      exact h.set hi rfl rfl (fun p hp => Or.inl hp) fun p hp => absurd hp (hsilent (by simp) (by simp))
    · cases hc
      exact h.set hi rfl rfl (fun p hp => Or.inl hp) fun p hp => absurd hp (hsilent (by simp) (by simp))
  | add pid now =>
    rw [Sys.proceed] at hc
    split at hc
    · cases hc
      exact h.set hi rfl rfl (fun p hp => Or.inl hp) fun p hp => absurd hp (hsilent (by simp) (by simp))
    · cases hc
      exact h.set hi rfl rfl (fun p hp => Or.inl hp) fun p hp => absurd hp (hsilent (by simp) (by simp))
  | addUpdate pid now =>
    rw [Sys.proceed] at hc
    split at hc
    · cases hc
      exact h.set hi rfl rfl (fun p hp => Or.inl hp) fun p hp => absurd hp (hsilent (by simp) (by simp))
    · cases hc
      exact h.set hi rfl rfl (fun p hp => Or.inl hp) fun p hp => absurd hp (hsilent (by simp) (by simp))
  | getAll =>
    cases hc
    refine h.set hi rfl rfl (fun p hp => ?_) fun p hp => absurd hp (hsilent (by simp) (by simp))
    obtain hp | hp := List.mem_append.1 hp
    · exact Or.inl hp
    · exact Or.inr (Or.inl (by rw [List.mem_singleton.1 hp]))
  | post promise =>
    cases promise with
    | none =>
      cases hc
      exact h.set hi rfl rfl (fun p hp => Or.inl hp) fun p hp => absurd hp (hsilent (by simp) (by simp))
    | some q =>
      cases hc
      refine h.set hi rfl rfl (fun p hp => Or.inl hp) fun p hp => Or.inl (Or.inr ?_)
      obtain hp | hp := hp
      · cases hp
        rfl
      · cases hp
  | waiting q =>
    rw [Sys.proceed, Option.ite_none_right_eq_some] at hc
    obtain ⟨hready, hc⟩ := hc
    cases hc
    refine h.set hi rfl rfl (fun p hp => Or.inl hp) fun p hp => Or.inr ?_
    obtain hp | hp := hp
    · cases hp
    · cases hp
      exact mem_map_of_lookup hready
  | returned => cases hc

theorem Sys.Waited.append (h : s.Waited) (hcallers : s'.callers = s.callers ++ [d])
    (hresults : s'.getAllResults = s.getAllResults) (hqueued : s'.getAllsQueued = s.getAllsQueued) : s'.Waited := by
  intro p hp
  rw [hqueued] at hp
  rw [hresults, hcallers]
  refine (h p hp).imp_right ?_
  rintro ⟨c, hc, hasks⟩
  exact ⟨c, List.mem_append_left _ hc, hasks⟩

theorem Sys.Waited.caller {op : Op Info} (h : s.Waited) (hop : op.isWorker = false)
    (hs : step expiry s op = some s') : s'.Waited := by
  cases op with
  | lookup pid now cached =>
    cases cached with
    | some node => cases hs; exact h
    | none => cases hs; exact h.append rfl rfl rfl
  | add pid now cached =>
    cases cached with
    | true => cases hs; exact h
    | false => cases hs; exact h.append rfl rfl rfl
  | getAllProcessInfos => cases hs; exact h.append rfl rfl rfl
  | proceed i =>
    obtain ⟨c, hi, hc⟩ := Option.bind_eq_some_iff.1 hs
    exact h.proceed hi hc
  | _ => cases hop

/-- The worker leaves the calls alone and only adds answers. -/
theorem WorkerStep.calls (h : WorkerStep s s') : s'.callers = s.callers ∧ s'.getAllsQueued = s.getAllsQueued ∧
    ∃ more, s'.getAllResults = s.getAllResults ++ more := by
  cases h with
  | answer all p todo hw h => subst h; exact ⟨rfl, rfl, [(p, all)], rfl⟩
  | wait _ _ h | swap _ _ h | tryWait _ _ _ _ _ _ _ h | readInfo _ _ _ _ _ _ _ _ h | expire _ _ _ _ _ _ _ h
  | collect _ _ _ _ _ h | finish _ _ h => subst h; exact ⟨rfl, rfl, [], (List.append_nil _).symm⟩

theorem Sys.Waited.worker (h : s.Waited) (hs : WorkerStep s s') : s'.Waited := by
  obtain ⟨hcallers, hqueued, more, hresults⟩ := hs.calls
  intro p hp
  rw [hqueued] at hp
  rw [hresults, hcallers, List.map_append, List.mem_append]
  exact (h p hp).imp_left Or.inl

/-- **When all calls have returned, no request is left.** -/
theorem Sys.Waited.getAllQueue (h : s.Waited) (hinv : Inv s) (hreturned : ∀ c ∈ s.callers, c = .returned) :
    s.state_.getAllQueue = [] := by
  rw [List.eq_nil_iff_forall_not_mem]
  intro p hp
  have hqueued : p ∈ s.getAllsQueued := by
    rw [hinv.getAlls]
    exact List.mem_append_right _ hp
  obtain hanswered | ⟨c, hc, hasks⟩ := h p hqueued
  · have hnodup := hinv.nodupGetAlls
    rw [hinv.getAlls, hinv.swappedGetAlls, List.nodup_append] at hnodup
    exact hnodup.2.2 p (List.mem_append_left _ hanswered) p hp rfl
  · rw [hreturned c hc] at hasks
    obtain h | h := hasks <;> cases h

end Waited

namespace Shutdown

open Lib

variable {Info : Type} {expiry : Time} {s s' : Shutdown Info}

/-! ### What a step can do -/

/-- **What a step does**: a call moves before the destructor, the worker moves before it stops,
or the shutdown goes on. -/
theorem step_cases {op : Op Info} (h : step expiry s op = some s') :
    (∃ c cache, s' = { s with cache := cache } ∧ c.isWorker = false ∧ s.destructor = .alive ∧
      ProcessInfoCache.step expiry s.cache c = some cache) ∨
    (∃ cache, s' = { s with cache := cache } ∧ s.exited = false ∧
      (s.workerThreadShouldStop = true → s.cache.worker ≠ .woken) ∧ WorkerStep s.cache cache) ∨
    (s.destructor = .alive ∧ (∀ c ∈ s.cache.callers, c = .returned) ∧
      s' = { s with workerThreadShouldStop := true, destructor := .post }) ∨
    (s.destructor = .post ∧ s' = { s with cache := { s.cache with sem_ := s.cache.sem_ + 1 }, destructor := .join }) ∨
    (s.cache.worker = .woken ∧ s.workerThreadShouldStop = true ∧ s.exited = false ∧
      s' = { s with exited := true, checkFailed := s.checkFailed || decide (s.cache.state_.getAllQueue ≠ []) }) ∨
    (s.destructor = .join ∧ s.exited = true ∧ s' = { s with destructor := .destroyed }) := by
  cases op with
  | cache op =>
    rw [step, Option.ite_none_right_eq_some] at h
    obtain ⟨hmay, h⟩ := h
    obtain ⟨cache, hcache, rfl⟩ := Option.map_eq_some_iff.1 h
    cases hw : op.isWorker with
    | false =>
      left
      refine ⟨op, cache, rfl, hw, ?_, hcache⟩
      cases op <;> simp_all [mayStep, ProcessInfoCache.Op.isWorker]
    | true =>
      right; left
      refine ⟨cache, rfl, ?_, fun hstop hwoken => ?_, worker_cases hw hcache⟩
      · cases op <;> simp_all [mayStep, ProcessInfoCache.Op.isWorker]
      · -- a woken worker can only swap
        cases op <;> simp_all [mayStep, ProcessInfoCache.step, ProcessInfoCache.Op.isWorker]
  | stop =>
    rw [step, Option.ite_none_right_eq_some] at h
    obtain ⟨⟨halive, hreturned⟩, h⟩ := h
    cases h
    exact .inr (.inr (.inl ⟨halive, hreturned, rfl⟩))
  | post =>
    rw [step] at h
    split at h
    · rename_i hpost
      cases h
      exact .inr (.inr (.inr (.inl ⟨hpost, rfl⟩)))
    · cases h
  | exit =>
    rw [step] at h
    split at h
    · rename_i hwoken
      rw [Option.ite_none_right_eq_some, Bool.and_eq_true, Bool.not_eq_true'] at h
      obtain ⟨⟨hstop, hexited⟩, h⟩ := h
      cases h
      exact .inr (.inr (.inr (.inr (.inl ⟨hwoken, hstop, hexited, rfl⟩))))
    · cases h
  | join =>
    rw [step] at h
    split at h
    · rename_i hjoin
      rw [Option.ite_none_right_eq_some] at h
      obtain ⟨hexited, h⟩ := h
      cases h
      exact .inr (.inr (.inr (.inr (.inr ⟨hjoin, hexited, rfl⟩))))
    · cases h

/-! ### The invariant -/

/-- **The accounting of the shutdown.** -/
structure Down (s : Shutdown Info) : Prop where
  accounts : Inv s.cache
  waited : s.cache.Waited
  flag : s.workerThreadShouldStop = true ↔ s.destructor ≠ .alive
  returned : s.destructor ≠ .alive → ∀ c ∈ s.cache.callers, c = .returned
  /-- One count more than the requests need is there or comes with the post of the destructor. -/
  credit : s.workerThreadShouldStop = true → s.exited = false →
    s.cache.queued + s.cache.worker.takes + 1 ≤
      s.cache.sem_ + s.cache.worker.inHand + if s.destructor = .post then 1 else 0
  exited : s.exited = true → s.workerThreadShouldStop = true ∧ s.cache.worker = .woken
  destroyed : s.destructor = .destroyed → s.exited = true
  checked : s.checkFailed = false

theorem down_init : Down (init : Shutdown Info) where
  accounts := inv_init
  waited := fun p hp => by cases hp
  flag := by simp [init]
  returned := fun h => absurd rfl h
  credit := fun h => by cases h
  exited := fun h => by cases h
  destroyed := fun h => by cases h
  checked := rfl

theorem owed_of_returned {cache : Sys Info} (h : ∀ c ∈ cache.callers, c = .returned) : cache.owed = 0 := by
  rw [Sys.owed, List.countP_eq_zero]
  intro c hc
  rw [h c hc]
  exact Bool.false_ne_true

/-- A step of the worker before it stops keeps the credit. -/
theorem WorkerStep.credit {cache cache' : Sys Info} {extra : ℕ} (h : WorkerStep cache cache')
    (hwoken : cache.worker ≠ .woken)
    (hcredit : cache.queued + cache.worker.takes + 1 ≤ cache.sem_ + cache.worker.inHand + extra) :
    cache'.queued + cache'.worker.takes + 1 ≤ cache'.sem_ + cache'.worker.inHand + extra := by
  cases h with
  | wait hw hsem h =>
    subst h
    rw [hw] at hcredit
    simp only [Worker.takes, Worker.inHand, Sys.queued] at hcredit ⊢
    omega
  | swap n hw h => exact absurd hw hwoken
  | tryWait lookups gets n taken hw htaken hsem h =>
    subst h
    rw [hw] at hcredit
    simp only [Worker.takes, Worker.inHand, Sys.queued] at hcredit ⊢
    omega
  | readInfo pid p todo size gets n result hw h =>
    subst h
    rw [hw] at hcredit
    exact hcredit
  | expire size gets n now infos water hw h =>
    subst h
    rw [hw] at hcredit
    by_cases hg : gets = []
    · subst hg
      exact hcredit
    · simp only [if_neg hg]
      exact hcredit
  | collect now gets infos all hw h =>
    subst h
    rw [hw] at hcredit
    exact hcredit
  | answer all p todo hw h =>
    subst h
    rw [hw] at hcredit
    exact hcredit
  | finish all hw h =>
    subst h
    rw [hw] at hcredit
    exact hcredit

theorem Down.step {op : Op Info} (hdown : Down s) (h : step expiry s op = some s') : Down s' := by
  obtain ⟨c, cache, rfl, hc, halive, hs⟩ | ⟨cache, rfl, hexited, hwoken, hs⟩ | ⟨halive, hreturned, rfl⟩ |
    ⟨hpost, rfl⟩ | ⟨hwoken, hstop, hexited, rfl⟩ | ⟨hjoin, hexited, rfl⟩ := step_cases h
  · -- a call moves: the destructor has not begun
    have hstop : s.workerThreadShouldStop ≠ true := fun hstop => hdown.flag.1 hstop halive
    exact ⟨hdown.accounts.caller hc hs, hdown.waited.caller hc hs, hdown.flag, fun hne => absurd halive hne,
      fun hs => absurd hs hstop, fun he => absurd (hdown.exited he).1 hstop, hdown.destroyed, hdown.checked⟩
  · refine ⟨hdown.accounts.worker hs, hdown.waited.worker hs, hdown.flag, fun hne => ?_, fun hstop he => ?_,
      fun he => ?_, hdown.destroyed, hdown.checked⟩
    · rw [hs.calls.1]
      exact hdown.returned hne
    · exact WorkerStep.credit hs (hwoken hstop) (hdown.credit hstop he)
    · exact absurd (hexited.symm.trans he) Bool.false_ne_true
  · have hstop : s.workerThreadShouldStop = false := by
      cases hstop : s.workerThreadShouldStop with
      | false => rfl
      | true => exact absurd halive (hdown.flag.1 hstop)
    refine ⟨hdown.accounts, hdown.waited, by simp, fun _ => hreturned, fun _ _ => ?_, fun he => ?_,
      (fun hd => by cases hd), hdown.checked⟩
    · have := hdown.accounts.credit
      rw [owed_of_returned hreturned] at this
      simp only [if_true]
      omega
    · have := (hdown.exited he).1
      rw [hstop] at this
      cases this
  · have hne : s.destructor ≠ .alive := by rw [hpost]; simp
    have hsame : SameRequests s.cache { s.cache with sem_ := s.cache.sem_ + 1 } :=
      .of_infos s.cache s.cache.state_.infos _ s.cache.callers
    refine ⟨?_, hdown.waited, ?_, fun _ => hdown.returned hne, fun hstop he => ?_, hdown.exited,
      (fun hd => by cases hd), hdown.checked⟩
    · obtain ⟨h1, h2, h3, h4, h5, h6, h7, h8⟩ := hdown.accounts
      refine ⟨?_, h2, h3, h4, h5, h6, h7, h8⟩
      simp only [Sys.queued, Sys.owed] at h1 ⊢
      omega
    · exact iff_of_true (hdown.flag.2 hne) (by simp)
    · have := hdown.credit hstop he
      rw [if_pos hpost] at this
      simp only [Sys.queued, reduceCtorEq, if_false] at this ⊢
      omega
  · have hne := hdown.flag.1 hstop
    refine ⟨hdown.accounts, hdown.waited, hdown.flag, hdown.returned, (fun _ he => by cases he),
      fun _ => ⟨hstop, hwoken⟩, fun _ => rfl, ?_⟩
    rw [hdown.checked, hdown.waited.getAllQueue hdown.accounts (hdown.returned hne)]
    rfl
  · have hne : s.destructor ≠ .alive := by rw [hjoin]; simp
    exact ⟨hdown.accounts, hdown.waited, iff_of_true (hdown.flag.2 hne) (by simp), fun _ => hdown.returned hne,
      fun _ he => absurd (he.symm.trans hexited) Bool.false_ne_true, hdown.exited, fun _ => hexited, hdown.checked⟩

theorem run_down (ops : List (Op Info)) (h : run (Shutdown.step expiry) init ops = some s) : Down s :=
  run_invariant down_init (fun _ _ _ hdown hs => hdown.step hs) ops h

/-! ### The end -/

/-- The steps that are left for the worker before it stops. -/
def workerRemaining : Worker Info → ℕ
  | .woken => 1
  | worker => worker.rank + 2

/-- The steps that are left when the destructor has begun. -/
def remaining (s : Shutdown Info) : ℕ :=
  (match s.destructor with
    | .alive => 3
    | .post => 2
    | .join => 1
    | .destroyed => 0) + if s.exited then 0 else workerRemaining s.cache.worker

theorem workerRemaining_eq {worker : Worker Info} (h : worker ≠ .woken) : workerRemaining worker = worker.rank + 2 := by
  cases worker with
  | woken => exact absurd rfl h
  | wait | swapped | reading | collecting | answering => rfl

theorem workerRemaining_lt {cache cache' : Sys Info} (h : WorkerStep cache cache') (hwoken : cache.worker ≠ .woken) :
    workerRemaining cache'.worker < workerRemaining cache.worker := by
  by_cases hrank : 0 < cache.worker.rank
  · obtain ⟨hlt, hne, -⟩ := h.busy (r := .lookup 0) hrank
    rw [workerRemaining_eq hwoken, workerRemaining_eq hne]
    omega
  · have hwait : cache.worker = .wait := by
      cases hw : cache.worker with
      | wait => rfl
      | woken => exact absurd hw hwoken
      | swapped | reading | collecting | answering => simp [hw, Worker.rank] at hrank
    cases h with
    | wait hw hsem h =>
      subst h
      rw [hw]
      exact Nat.one_lt_two
    | swap _ hw _ | tryWait _ _ _ _ hw _ _ _ | readInfo _ _ _ _ _ _ _ hw _ | expire _ _ _ _ _ _ hw _
    | collect _ _ _ _ hw _ | answer _ _ _ hw _ | finish _ hw _ => rw [hw] at hwait; cases hwait

/-- Behind the beginning of the destructor, every step brings its end closer. -/
theorem Down.remaining_lt {op : Op Info} (hdown : Down s) (hstop : s.workerThreadShouldStop = true)
    (h : Shutdown.step expiry s op = some s') : s'.workerThreadShouldStop = true ∧ s'.remaining < s.remaining := by
  have hne := hdown.flag.1 hstop
  obtain ⟨c, cache, rfl, hc, halive, hs⟩ | ⟨cache, rfl, hexited, hwoken, hs⟩ | ⟨halive, hreturned, rfl⟩ |
    ⟨hpost, rfl⟩ | ⟨hwoken, -, hexited, rfl⟩ | ⟨hjoin, hexited, rfl⟩ := step_cases h
  · exact absurd halive hne
  · refine ⟨hstop, ?_⟩
    have := workerRemaining_lt hs (hwoken hstop)
    simp only [remaining, hexited, Bool.false_eq_true, if_false]
    omega
  · exact absurd halive hne
  · refine ⟨hstop, ?_⟩
    simp only [remaining, hpost]
    omega
  · refine ⟨hstop, ?_⟩
    simp [remaining, hexited, hwoken, workerRemaining]
  · refine ⟨hstop, ?_⟩
    simp [remaining, hjoin, hexited]

/-- Behind the beginning of the destructor there is a step until it has returned. -/
theorem Down.can_step (expiry : Time) (hdown : Down s) (hstop : s.workerThreadShouldStop = true)
    (hend : s.destructor ≠ .destroyed) : ∃ op, Shutdown.step expiry s op ≠ none := by
  have hne := hdown.flag.1 hstop
  cases hd : s.destructor with
  | alive => exact absurd hd hne
  | destroyed => exact absurd hd hend
  | post => exact ⟨.post, by simp [Shutdown.step, hd]⟩
  | join =>
    cases hexited : s.exited with
    | true => exact ⟨.join, by simp [Shutdown.step, hd, hexited]⟩
    | false =>
      by_cases hwoken : s.cache.worker = .woken
      · exact ⟨.exit, by simp [Shutdown.step, hwoken, hstop, hexited]⟩
      · have hcredit := hdown.credit hstop hexited
        rw [hd] at hcredit
        have henabled : WorkerEnabled expiry s.cache := workerEnabled fun hw => by
          simp only [hw, Worker.inHand, reduceCtorEq, if_false] at hcredit
          omega
        obtain ⟨op, hop, hs⟩ := henabled
        refine ⟨.cache op, ?_⟩
        have hmay : s.mayStep op = true := by
          cases op with
          | swap =>
            exfalso
            apply hwoken
            cases hw : s.cache.worker with
            | woken => rfl
            | wait | swapped | reading | collecting | answering => simp [ProcessInfoCache.step, hw] at hs
          | wait | tryWait | readInfo | expire | collect | answer =>
            simp [mayStep, ProcessInfoCache.Op.isWorker, hexited]
          | lookup | add | getAllProcessInfos | proceed => cases hop
        rw [Shutdown.step, if_pos hmay]
        intro hnone
        rw [Option.map_eq_none_iff] at hnone
        rw [hnone] at hs
        cases hs

/-- **The destructor returns.** Whatever calls have come before and wherever the worker is, from the
beginning of the destructor on there is a step until it has returned, and no more than a fixed
number of them. The worker never finds a request of `getAllProcessInfos` when it stops, and in the
end every lookup has been read or is still in the queue. -/
theorem destructor_returns (expiry : Time) (ops ops' : List (Op Info)) (s s' : Shutdown Info)
    (h : run (Shutdown.step expiry) init ops = some s) (hstop : s.workerThreadShouldStop = true)
    (h' : run (Shutdown.step expiry) s ops' = some s') :
    ops'.length ≤ s.remaining ∧
      ((∀ op, Shutdown.step expiry s' op = none) → s'.destructor = .destroyed) ∧
      s'.checkFailed = false ∧
      (s'.destructor = .destroyed → s'.cache.lookupsQueued =
        s'.cache.lookupResults.map Prod.fst ++ s'.cache.state_.lookupQueue.map Prod.snd) := by
  have hdown := run_down ops h
  have hrest : ∀ (ops' : List (Op Info)) {s : Shutdown Info}, Down s → s.workerThreadShouldStop = true →
      run (Shutdown.step expiry) s ops' = some s' →
        ops'.length + s'.remaining ≤ s.remaining ∧ s'.workerThreadShouldStop = true ∧ Down s' := by
    intro ops'
    induction ops' with
    | nil =>
      intro s hdown hstop h
      obtain rfl : s = s' := by simpa using h
      exact ⟨by simp, hstop, hdown⟩
    | cons op ops' ih =>
      intro s hdown hstop h
      obtain ⟨s₁, hs, hrun⟩ := run_cons_eq_some.1 h
      obtain ⟨hstop₁, hlt⟩ := hdown.remaining_lt hstop hs
      obtain ⟨hle, hend⟩ := ih (hdown.step hs) hstop₁ hrun
      rw [List.length_cons]
      exact ⟨by omega, hend⟩
  obtain ⟨hle, hstop', hdown'⟩ := hrest ops' hdown hstop h'
  refine ⟨by omega, fun hstuck => ?_, hdown'.checked, fun hd => ?_⟩
  · by_contra hend
    obtain ⟨op, hop⟩ := hdown'.can_step expiry hstop' hend
    exact hop (hstuck op)
  · have hwoken := (hdown'.exited (hdown'.destroyed hd)).2
    have hlookups := hdown'.accounts.lookups
    rw [hdown'.accounts.swappedLookups, hwoken] at hlookups
    simpa [Worker.pendingLookups] using hlookups

/-- A lookup is queued, and the destructor begins before the worker has woken up for it. -/
theorem destructor_returns_lookup : ∃ s s' : Shutdown ℕ,
    run (Shutdown.step 0) init [.cache (.lookup 7 0 none), .cache (.proceed 0), .cache (.proceed 0), .stop] = some s ∧
      run (Shutdown.step 0) s [.cache .wait, .post, .exit, .join] = some s' ∧ s'.checkFailed = false :=
  ⟨_, _, rfl, rfl, (destructor_returns 0
    [.cache (.lookup 7 0 none), .cache (.proceed 0), .cache (.proceed 0), .stop]
    [.cache .wait, .post, .exit, .join] _ _ rfl rfl rfl).2.2.1⟩

end Shutdown

end ProcessInfoCache

end EdenCommon
