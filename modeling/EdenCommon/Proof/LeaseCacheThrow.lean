import EdenCommon.Proof.LeaseCache

/-!
# A fetch that does not start

When `fetcher_` throws out of `get`, the entry stays where `get` has published it. No step
ever fulfils an entry whose `get` threw (`Threw.step`), and every other entry is fulfilled or
has a `get` that may still do it, so a cache is poisoned by the throws that find their entry
still in it and by nothing else (`unpoisoned_iff`).

* `Inv.completes`, `Inv.poisoned_iff`: a call whose fetch has started fulfils its entry when
  that completes, so the entries that are never fulfilled are those whose `get` threw.
* `get_refetches`: a `get` of a key that is not cached makes an entry and goes on to fetch for it, so
  an erased key is not stuck.
* `Inv.unpoisoned_step`: a step poisons the cache exactly if it throws while its entry is
  cached. `unpoisoned_iff` says the same of a run.
-/

namespace EdenCommon

namespace LeaseCache

open Lib

variable {K V E : Type} [DecidableEq K] {s s' t : Sys K V E} {i e : ℕ} {call : Call K} {entry : Entry K V E}
  {op : Op K V E}

/-- No run of the cache from here on fulfils the entry. -/
def Poisoned (s : Sys K V E) (e : ℕ) : Prop :=
  ∀ ops t, run step s ops = some t → ∀ entry, t.entries e = some entry → entry.promise = none

/-- What is wanted: no key is stuck, and what a fetch results in reaches all who wait for it. -/
structure Unpoisoned (s : Sys K V E) : Prop where
  cached : ∀ key e, s.cache key = some e → ¬ Poisoned s e
  /-- The next `get` of a key that is not resident goes on to call `fetcher_`. -/
  refetches : ∀ key, s.cache key = none →
    ∃ s', step s (.get key) = some s' ∧ s'.calls s.nextCall = some ⟨key, s.nextEntry, .inserted⟩
  /-- The future of every `get` has the result of the fetch for its entry. -/
  completes : ∀ i call r, s.calls i = some call → s.resultsOf call.entry = [r] →
    ∃ entry, s.entries call.entry = some entry ∧ entry.promise = some r

/-- When `fetcher_` throws, the entry of its `get` is not in the cache any more. -/
def ThrowsUncached (s : Sys K V E) (op : Op K V E) : Prop :=
  ∀ i call, op = .fetchThrows i → s.calls i = some call → s.cache call.key ≠ some call.entry

/-- `fetcher_` threw out of the `get` that made the entry. -/
def Threw (s : Sys K V E) (e : ℕ) : Prop := ∃ i call, s.calls i = some call ∧ call.entry = e ∧ call.pc = .threw

/-! ### What becomes of an entry -/

omit [DecidableEq K] in
theorem Inv.promise_of_threw (hinv : Inv s) (h : Threw s e) : ∃ entry, s.entries e = some entry ∧ entry.promise = none := by
  obtain ⟨i, call, hi, rfl, hpc⟩ := h
  obtain ⟨entry, he, -, -, -, -, hfetched⟩ := hinv.maker hi (by rw [hpc]; exact fun h => by cases h)
  refine ⟨entry, he, ?_⟩
  rw [← Option.not_isSome_iff_eq_none, hfetched, hpc]
  exact fun h => by cases h

/-- A call that is not at a place where it has a step stays as it is. -/
theorem Inv.calls_step (hinv : Inv s) (h : LeaseCache.step s op = some s') (hi : s.calls i = some call)
    (hpc : call.pc ≠ .inserted ∧ call.pc ≠ .fetching) : s'.calls i = some call := by
  have hne : ∀ {j call'}, s.calls j = some call' → (call'.pc = .inserted ∨ call'.pc = .fetching) → i ≠ j := by
    rintro j call' hj hpc' rfl
    obtain rfl := Option.some.inj (hi.symm.trans hj)
    exact hpc'.elim hpc.1 hpc.2
  obtain ⟨key, val, rfl⟩ | ⟨key, rfl⟩ | ⟨key, e', hc, rfl⟩ | ⟨key, hc, rfl⟩ | ⟨j, call', pc, hj, hpc', -, rfl⟩ |
    ⟨j, call', r, hj, hpc', rfl⟩ := step_cases h
  · exact hi
  · exact hi
  · exact hinv.calls_addCall hi _
  · exact hinv.calls_addCall hi _
  · exact (Function.update_of_ne (hne hj (.inl hpc')) ..).trans hi
  · exact (Function.update_of_ne (hne hj (.inr hpc')) ..).trans hi

theorem Threw.step (h : Threw s e) (hinv : Inv s) (hs : LeaseCache.step s op = some s') : Threw s' e := by
  obtain ⟨i, call, hi, he, hpc⟩ := h
  refine ⟨i, call, hinv.calls_step hs hi ⟨?_, ?_⟩, he, hpc⟩
  · rw [hpc]
    exact fun h => by cases h
  · rw [hpc]
    exact fun h => by cases h

/-- The steps that throw. -/
theorem threw_of_step (hs : step s op = some s') (h : Threw s' e) :
    Threw s e ∨ ∃ i call, op = .fetchThrows i ∧ s.calls i = some call ∧ call.entry = e ∧ s'.cache = s.cache := by
  obtain ⟨i, call, hi, he, hpc⟩ := h
  have hadd : ∀ {s : Sys K V E} {call' : Call K}, call'.pc ≠ .threw → (s.addCall call').calls i = some call →
      s.calls i = some call := by
    intro s call' hne hi
    rcases LeaseCache.calls_addCall hi with ⟨-, rfl⟩ | hi
    · exact absurd hpc hne
    · exact hi
  cases op with
  | set key val =>
    obtain rfl := Option.some.inj hs
    exact .inl ⟨i, call, hi, he, hpc⟩
  | erase key =>
    obtain rfl := Option.some.inj hs
    exact .inl ⟨i, call, hi, he, hpc⟩
  | evict key =>
    obtain rfl := Option.some.inj hs
    exact .inl ⟨i, call, hi, he, hpc⟩
  | get key =>
    obtain rfl := Option.some.inj hs
    unfold Sys.lookup at hi
    split at hi
    · exact .inl ⟨i, call, hadd (fun h => by cases h) hi, he, hpc⟩
    · exact .inl ⟨i, call, hadd (s := s.publish _) (fun h => by cases h) hi, he, hpc⟩
  | fetch j =>
    simp only [LeaseCache.step] at hs
    split at hs
    · obtain rfl := Option.some.inj hs
      simp only [Sys.callFetcher, Function.update_apply] at hi
      split at hi
      · obtain rfl := Option.some.inj hi
        cases hpc
      · exact .inl ⟨i, call, hi, he, hpc⟩
    · cases hs
  | fetchThrows j =>
    simp only [LeaseCache.step] at hs
    split at hs
    · rename_i hj
      obtain rfl := Option.some.inj hs
      simp only [Sys.callFetcher, Function.update_apply] at hi
      split at hi
      · obtain rfl := Option.some.inj hi
        exact .inr ⟨j, _, rfl, hj, he, rfl⟩
      · exact .inl ⟨i, call, hi, he, hpc⟩
    · cases hs
  | complete j r =>
    simp only [LeaseCache.step] at hs
    split at hs
    · obtain rfl := Option.some.inj hs
      simp only [Sys.continuation, Function.update_apply] at hi
      split at hi
      · obtain rfl := Option.some.inj hi
        cases hpc
      · exact .inl ⟨i, call, hi, he, hpc⟩
    · cases hs

/-- A call whose fetch has started fulfils its entry when that completes. -/
theorem Inv.completes (hinv : Inv s) (hi : s.calls i = some call) (hpc : call.pc = .fetching) (r : Except E V) :
    ∃ t entry, LeaseCache.step s (.complete i r) = some t ∧ t.entries call.entry = some entry ∧ entry.promise ≠ none := by
  obtain ⟨entry, he, -⟩ := hinv.calls i call hi
  obtain ⟨key, e, pc⟩ := call
  obtain rfl : pc = .fetching := hpc
  refine ⟨s.continuation i ⟨key, e, .fetching⟩ r, entry.setTry r, ?_, ?_, ?_⟩
  · simp only [LeaseCache.step, hi]
  · simp only [Sys.continuation, Function.update_self, he, Option.map_some]
  · unfold Entry.setTry
    cases entry.promise <;> simp

/-- **The entries that are never fulfilled** are those whose `get` threw. -/
theorem Inv.poisoned_iff [Inhabited V] (hinv : Inv s) (he : s.entries e = some entry) : Poisoned s e ↔ Threw s e := by
  constructor
  · intro hpoisoned
    have hnone : entry.promise = none := hpoisoned [] s rfl entry he
    have hacc := hinv.entries e entry he
    unfold Accounted at hacc
    split at hacc
    · rw [hacc.1] at hnone
      cases hnone
    · obtain ⟨call, hi, rfl, hfound, -, -, hfetched⟩ := hacc
      cases hpc : call.pc with
      | found => exact absurd hpc hfound
      | threw => exact ⟨_, call, hi, rfl, hpc⟩
      | fetched =>
        rw [hnone] at hfetched
        exact absurd (hfetched.2 hpc) (fun h => by cases h)
      | fetching =>
        obtain ⟨t, entry', hcomplete, hentry', hsome⟩ := hinv.completes hi hpc (.ok default)
        exact absurd (hpoisoned [_] t (by rw [run_cons hcomplete, run_nil]) entry' hentry') hsome
      | inserted =>
        -- the fetch starts, and completes
        rename_i i _
        have hfetch : LeaseCache.step s (.fetch i) = some (s.callFetcher i call .fetching) := by
          obtain ⟨key, e, pc⟩ := call
          obtain rfl : pc = .inserted := hpc
          simp only [LeaseCache.step, hi]
        have hself : (s.callFetcher i call .fetching).calls i = some { call with pc := .fetching } :=
          Function.update_self ..
        obtain ⟨t, entry', hcomplete, hentry', hsome⟩ := (hinv.step hfetch).completes hself rfl (.ok default)
        exact absurd (hpoisoned [_, _] t (by rw [run_cons hfetch, run_cons hcomplete, run_nil]) entry' hentry') hsome
  · intro hthrew ops t hrun entry' hentry'
    obtain ⟨hinv', hthrew'⟩ : Inv t ∧ Threw t e :=
      run_invariant (I := fun s => Inv s ∧ Threw s e) ⟨hinv, hthrew⟩
        (fun s op s' hi hs => ⟨hi.1.step hs, hi.2.step hi.1 hs⟩) ops hrun
    obtain ⟨entry'', hentry'', hnone⟩ := hinv'.promise_of_threw hthrew'
    obtain rfl := Option.some.inj (hentry'.symm.trans hentry'')
    exact hnone

theorem get_refetches {key : K} (hc : s.cache key = none) :
    ∃ s', step s (.get key) = some s' ∧ s'.calls s.nextCall = some ⟨key, s.nextEntry, .inserted⟩ := by
  refine ⟨s.lookup key, rfl, ?_⟩
  unfold Sys.lookup
  rw [hc]
  exact Function.update_self ..

omit [DecidableEq K] in
theorem Inv.promise_of_results (hinv : Inv s) (hi : s.calls i = some call) {r : Except E V}
    (hr : s.resultsOf call.entry = [r]) : ∃ entry, s.entries call.entry = some entry ∧ entry.promise = some r := by
  obtain ⟨entry, he, -⟩ := hinv.calls i call hi
  refine ⟨entry, he, ?_⟩
  have hacc := hinv.entries _ entry he
  unfold Accounted at hacc
  split at hacc
  · rw [hacc.2.2] at hr
    cases hr
  · obtain ⟨-, -, -, -, -, hresults, -⟩ := hacc
    rw [hresults] at hr
    cases hp : entry.promise with
    | none =>
      rw [hp] at hr
      cases hr
    | some x =>
      rw [hp] at hr
      obtain rfl := (List.cons.inj hr).1
      rfl

theorem Inv.unpoisoned_iff_threw [Inhabited V] (hinv : Inv s) :
    Unpoisoned s ↔ ∀ key e, s.cache key = some e → ¬ Threw s e := by
  constructor
  · intro h key e hc hthrew
    obtain ⟨entry, he, -⟩ := hinv.cache key e hc
    exact h.cached key e hc ((hinv.poisoned_iff he).2 hthrew)
  · intro h
    refine ⟨fun key e hc hpoisoned => ?_, fun key hc => get_refetches hc,
      fun i call r hi hr => hinv.promise_of_results hi hr⟩
    obtain ⟨entry, he, -⟩ := hinv.cache key e hc
    exact h key e hc ((hinv.poisoned_iff he).1 hpoisoned)

/-- What is in the cache behind a step was in it, or is new. -/
theorem cache_of_step (hs : step s op = some s') {key : K} (hc : s'.cache key = some e) :
    s.cache key = some e ∨ e = s.nextEntry := by
  obtain ⟨key', val, rfl⟩ | ⟨key', rfl⟩ | ⟨key', e', -, rfl⟩ | ⟨key', -, rfl⟩ | ⟨j, call', pc, -, -, -, rfl⟩ |
    ⟨j, call', r, -, -, rfl⟩ := step_cases hs
  · rcases cache_publish hc with ⟨-, he⟩ | hc
    · exact .inr he
    · exact .inl hc
  · unfold Sys.drop at hc
    simp only [Function.update_apply] at hc
    split at hc
    · cases hc
    · exact .inl hc
  · exact .inl hc
  · rcases cache_publish hc with ⟨-, he⟩ | hc
    · exact .inr he
    · exact .inl hc
  · exact .inl hc
  · exact .inl hc

/-- A step poisons the cache exactly if it throws while its entry is cached. -/
theorem Inv.unpoisoned_step [Inhabited V] (hinv : Inv s) (h : Unpoisoned s) (hs : LeaseCache.step s op = some s') :
    Unpoisoned s' ↔ ThrowsUncached s op := by
  have hinv' := hinv.step hs
  rw [hinv'.unpoisoned_iff_threw]
  constructor
  · rintro hclean i call rfl hi hc
    simp only [LeaseCache.step] at hs
    split at hs
    · rename_i key e hi'
      obtain rfl := Option.some.inj hs
      obtain rfl := Option.some.inj (hi.symm.trans hi')
      exact hclean key e hc ⟨i, _, Function.update_self .., rfl, rfl⟩
    · cases hs
  · intro hguard key e hc hthrew
    rcases threw_of_step hs hthrew with hold | ⟨i, call, hop, hi, rfl, hcache⟩
    · -- it had thrown before, and was not cached
      rcases cache_of_step hs hc with hc | rfl
      · exact hinv.unpoisoned_iff_threw.1 h key e hc hold
      · obtain ⟨entry, he, -⟩ := hinv.promise_of_threw hold
        exact absurd (hinv.entries_lt _ entry he) (Nat.lt_irrefl _)
    · rw [hcache] at hc
      obtain ⟨entry, he, hkey⟩ := hinv.cache key _ hc
      obtain ⟨entry', he', hkey', -⟩ := hinv.calls i call hi
      obtain rfl := Option.some.inj (he.symm.trans he')
      rw [← hkey, hkey'] at hc
      exact hguard i call hop hi hc

/-- **Failed fetch starts.** In every state of a run no key of the cache is stuck with an entry
that is never fulfilled, exactly if whenever `fetcher_` throws, the entry of its `get` has left
the cache before. -/
theorem unpoisoned_iff [Inhabited V] (ops : List (Op K V E)) (s : Sys K V E) (hrun : run step start ops = some s) :
    AllSteps step ThrowsUncached (start : Sys K V E) ops ↔
      ∀ pre, pre <+: ops → ∀ s', run step start pre = some s' → Unpoisoned s' := by
  have hstart : Inv (start : Sys K V E) ∧ Unpoisoned (start : Sys K V E) :=
    ⟨inv_start, inv_start.unpoisoned_iff_threw.2 fun key e hc => by cases hc⟩
  rw [allSteps_iff (I := fun s => Inv s ∧ Unpoisoned s)
    (fun s op s' hi hs => ⟨fun h => (hi.1.unpoisoned_step hi.2 hs).1 h.2,
      fun h => ⟨hi.1.step hs, (hi.1.unpoisoned_step hi.2 hs).2 h⟩⟩) ops hstart hrun]
  constructor
  · intro h pre hpre s' hs'
    exact (h pre hpre s' hs').2
  · intro h pre hpre s' hs'
    exact ⟨run_invariant inv_start (fun _ _ _ hi hs => hi.step hs) pre hs', h pre hpre s' hs'⟩

/-- The entry is erased before `fetcher_` throws. -/
def throwsErased : List (Op ℕ ℕ Unit) := [.get 7, .erase 7, .fetchThrows 0]

theorem unpoisoned_iff_erased :
    ∃ s, run step start throwsErased = some s ∧
      (AllSteps step ThrowsUncached start throwsErased ↔
        ∀ pre, pre <+: throwsErased → ∀ s', run step start pre = some s' → Unpoisoned s') :=
  ⟨_, rfl, unpoisoned_iff throwsErased _ rfl⟩

/-- **A stuck key.** `fetcher_(7)` throws, and the next `get(7)` waits for an entry that is
never fulfilled. -/
theorem get_poisons : ∃ s : Sys ℕ ℕ Unit, run step start [.get 7, .fetchThrows 0] = some s ∧ ¬ Unpoisoned s ∧
    ∀ s', step s (.get 7) = some s' → s'.calls 1 = some ⟨7, 0, .found⟩ := by
  refine ⟨_, rfl, fun h => ?_, fun s' hs' => ?_⟩
  · have hinv := run_invariant (I := Inv) inv_start (fun _ _ _ hi hs => hi.step hs) [.get 7, .fetchThrows 0]
      (show run step (start : Sys ℕ ℕ Unit) _ = some _ from rfl)
    exact hinv.unpoisoned_iff_threw.1 h 7 0 rfl ⟨0, ⟨7, 0, .threw⟩, rfl, rfl, rfl⟩
  · obtain rfl := Option.some.inj hs'
    rfl

end LeaseCache

end EdenCommon
