import EdenCommon.Lib.Run
import EdenCommon.Lib.Threads
import EdenCommon.Spec.LeaseCache

/-!
# One fetch for each entry

An entry keeps its maker (`Entry.origin`) whatever happens to its key in the cache. The
`get` that made it is the only call that fetches for it, and where that call stands tells
what the promise holds and which calls of `fetcher_` were made (`Accounted`). Every other
`get` that has the entry found it and only waits.

* `Inv.find`, `Inv.insert`, `Inv.maker`: a `get` finds an entry or makes one, and an entry
  that a call fetches for has no other maker.
* `Inv.step`: every step keeps the invariant, erasures, `set` and evictions included.
* `get_single_flight`: `fetcher_` is called exactly once for each entry that a `get` made,
  and for no entry that `set` made.
-/

namespace EdenCommon

namespace LeaseCache

open Lib

variable {K V E : Type} {s s' t : Sys K V E} {i e : ℕ} {call : Call K} {entry : Entry K V E}

/-- What is known of the entry `e`. -/
def Accounted (s : Sys K V E) (e : ℕ) (entry : Entry K V E) : Prop :=
  match entry.origin with
  | .set val => entry.promise = some (.ok val) ∧ s.fetchesOf e = [] ∧ s.resultsOf e = []
  | .get i => ∃ call, s.calls i = some call ∧ call.entry = e ∧ call.pc ≠ .found ∧
      s.fetchesOf e = (if call.pc = .inserted then [] else [entry.key]) ∧
      s.resultsOf e = entry.promise.toList ∧ (entry.promise.isSome ↔ call.pc = .fetched)

structure Inv (s : Sys K V E) : Prop where
  entries_lt : ∀ e entry, s.entries e = some entry → e < s.nextEntry
  calls_lt : ∀ i call, s.calls i = some call → i < s.nextCall
  cache : ∀ key e, s.cache key = some e → ∃ entry, s.entries e = some entry ∧ entry.key = key
  calls : ∀ i call, s.calls i = some call → ∃ entry, s.entries call.entry = some entry ∧ entry.key = call.key ∧
    (call.pc ≠ .found → entry.origin = .get i)
  entries : ∀ e entry, s.entries e = some entry → Accounted s e entry
  fresh : ∀ e, s.nextEntry ≤ e → s.fetchesOf e = [] ∧ s.resultsOf e = []

theorem inv_start : Inv (start : Sys K V E) where
  entries_lt := nofun
  calls_lt := nofun
  cache := nofun
  calls := nofun
  entries := nofun
  fresh := fun _ _ => ⟨rfl, rfl⟩

variable [DecidableEq K]

/-- The steps, with what they require of the call that steps. -/
theorem step_cases {op : Op K V E} (h : step s op = some s') :
    (∃ key val, s' = s.publish ⟨key, .set val, some (.ok val)⟩) ∨
    (∃ key, s' = s.drop key) ∨
    (∃ key e, s.cache key = some e ∧ s' = s.addCall ⟨key, e, .found⟩) ∨
    (∃ key, s.cache key = none ∧
      s' = (s.publish ⟨key, .get s.nextCall, none⟩).addCall ⟨key, s.nextEntry, .inserted⟩) ∨
    (∃ i call pc, s.calls i = some call ∧ call.pc = .inserted ∧ (pc = .fetching ∨ pc = .threw) ∧
      s' = s.callFetcher i call pc) ∨
    (∃ i call t, s.calls i = some call ∧ call.pc = .fetching ∧ s' = s.continuation i call t) := by
  cases op with
  | set key val => exact .inl ⟨key, val, (Option.some.inj h).symm⟩
  | erase key => exact .inr (.inl ⟨key, (Option.some.inj h).symm⟩)
  | evict key => exact .inr (.inl ⟨key, (Option.some.inj h).symm⟩)
  | get key =>
    obtain rfl := Option.some.inj h
    unfold Sys.lookup
    cases hc : s.cache key with
    | some e => exact .inr (.inr (.inl ⟨key, e, hc, rfl⟩))
    | none => exact .inr (.inr (.inr (.inl ⟨key, hc, rfl⟩)))
  | fetch i =>
    simp only [step] at h
    split at h
    · rename_i hi
      exact .inr (.inr (.inr (.inr (.inl ⟨i, _, .fetching, hi, rfl, .inl rfl, (Option.some.inj h).symm⟩))))
    · cases h
  | fetchThrows i =>
    simp only [step] at h
    split at h
    · rename_i hi
      exact .inr (.inr (.inr (.inr (.inl ⟨i, _, .threw, hi, rfl, .inr rfl, (Option.some.inj h).symm⟩))))
    · cases h
  | complete i t =>
    simp only [step] at h
    split at h
    · rename_i hi
      exact .inr (.inr (.inr (.inr (.inr ⟨i, _, t, hi, rfl, (Option.some.inj h).symm⟩))))
    · cases h

/-! ### What each step leaves alone -/

omit [DecidableEq K] in
theorem fetchesOf_callFetcher (call : Call K) (pc : Pc) (e : ℕ) :
    (s.callFetcher i call pc).fetchesOf e = s.fetchesOf e ++ if call.entry = e then [call.key] else [] := by
  unfold Sys.callFetcher Sys.fetchesOf
  by_cases h : call.entry = e <;> simp [h, List.filter_append]

omit [DecidableEq K] in
theorem resultsOf_continuation (call : Call K) (r : Except E V) (e : ℕ) :
    (s.continuation i call r).resultsOf e = s.resultsOf e ++ if call.entry = e then [r] else [] := by
  unfold Sys.continuation Sys.resultsOf
  by_cases h : call.entry = e <;> simp [h, List.filter_append]

omit [DecidableEq K] in
/-- An account only reads the call that made the entry and the records of the entry. -/
theorem Accounted.congr (h : Accounted s e entry) (hcalls : ∀ i, entry.origin = .get i → s'.calls i = s.calls i)
    (hf : s'.fetchesOf e = s.fetchesOf e) (hr : s'.resultsOf e = s.resultsOf e) : Accounted s' e entry := by
  unfold Accounted at h ⊢
  split at h <;> rename_i ho
  · rw [hf, hr]
    exact h
  -- only here is a call read, and it is the entry's maker
  · rw [hf, hr, hcalls _ ho]
    exact h

omit [DecidableEq K] in
theorem Inv.calls_ne (hinv : Inv s) (h : s.calls i = some call) : i ≠ s.nextCall :=
  (hinv.calls_lt i call h).ne

omit [DecidableEq K] in
theorem calls_addCall {call' : Call K} (h : (s.addCall call').calls i = some call) :
    (i = s.nextCall ∧ call = call') ∨ s.calls i = some call := by
  simp only [Sys.addCall, Function.update_apply] at h
  split at h
  · exact .inl ⟨‹_›, (Option.some.inj h).symm⟩
  · exact .inr h

omit [DecidableEq K] in
theorem Inv.calls_addCall (hinv : Inv s) (h : s.calls i = some call) (call' : Call K) :
    (s.addCall call').calls i = some call := by
  simp only [Sys.addCall, Function.update_of_ne (hinv.calls_ne h), h]

theorem entries_publish {entry' : Entry K V E} (h : (s.publish entry').entries e = some entry) :
    (e = s.nextEntry ∧ entry = entry') ∨ s.entries e = some entry := by
  simp only [Sys.publish, Function.update_apply] at h
  split at h
  · exact .inl ⟨‹_›, (Option.some.inj h).symm⟩
  · exact .inr h

theorem Inv.entries_publish (hinv : Inv s) (h : s.entries e = some entry) (entry' : Entry K V E) :
    (s.publish entry').entries e = some entry := by
  simp only [Sys.publish, Function.update_of_ne (hinv.entries_lt e entry h).ne, h]

theorem entries_publish_self (entry : Entry K V E) : (s.publish entry).entries s.nextEntry = some entry := by
  simp only [Sys.publish, Function.update_self]

theorem cache_publish {key : K} (h : (s.publish entry).cache key = some e) :
    (key = entry.key ∧ e = s.nextEntry) ∨ s.cache key = some e := by
  simp only [Sys.publish, Function.update_apply] at h
  split at h
  · exact .inl ⟨‹_›, (Option.some.inj h).symm⟩
  · exact .inr h

/-- Whose promise it is, and for which key, is settled when it is made. -/
def SameMaker (entry entry' : Entry K V E) : Prop := entry'.key = entry.key ∧ entry'.origin = entry.origin

omit [DecidableEq K] in
/-- The entry of a call behind a step that keeps the makers of the entries. -/
theorem Inv.calls_of (hinv : Inv s) (h : s.calls i = some call)
    (hkeep : ∀ e entry, s.entries e = some entry → ∃ entry', s'.entries e = some entry' ∧ SameMaker entry entry') :
    ∃ entry, s'.entries call.entry = some entry ∧ entry.key = call.key ∧
      (call.pc ≠ .found → entry.origin = .get i) := by
  obtain ⟨entry, he, hkey, horigin⟩ := hinv.calls i call h
  obtain ⟨entry', he', hk, ho⟩ := hkeep _ entry he
  exact ⟨entry', he', hk.trans hkey, fun hpc => ho.trans (horigin hpc)⟩

theorem Inv.keep_publish (hinv : Inv s) (entry' : Entry K V E) (e : ℕ) (entry : Entry K V E)
    (h : s.entries e = some entry) : ∃ x, (s.publish entry').entries e = some x ∧ SameMaker entry x :=
  ⟨entry, hinv.entries_publish h entry', rfl, rfl⟩

omit [DecidableEq K] in
/-- A call makes no other entry than its own. -/
theorem Accounted.origin_ne (h : Accounted s e entry) (hi : s.calls i = some call) (hne : call.entry ≠ e) :
    entry.origin ≠ .get i := by
  intro ho
  unfold Accounted at h
  rw [ho] at h
  obtain ⟨call', hi', he, -⟩ := h
  obtain rfl := Option.some.inj (hi.symm.trans hi')
  exact hne he

/-! ### The steps -/

/-- `set` stores an entry that is fulfilled. -/
theorem Inv.set (hinv : Inv s) (key : K) (val : V) : Inv (s.publish ⟨key, .set val, some (.ok val)⟩) where
  entries_lt := by
    intro e entry he
    obtain ⟨rfl, -⟩ | he := LeaseCache.entries_publish he
    · exact Nat.lt_succ_self _
    · exact Nat.lt_succ_of_lt (hinv.entries_lt e entry he)
  calls_lt := hinv.calls_lt
  cache := by
    intro key' e hc
    obtain ⟨rfl, rfl⟩ | hc := cache_publish hc
    · exact ⟨_, entries_publish_self _, rfl⟩
    · obtain ⟨entry, he, hkey⟩ := hinv.cache key' e hc
      exact ⟨entry, hinv.entries_publish he _, hkey⟩
  calls := fun i call hi => hinv.calls_of hi (hinv.keep_publish _)
  entries := by
    intro e entry he
    obtain ⟨rfl, rfl⟩ | he := LeaseCache.entries_publish he
    · exact ⟨rfl, hinv.fresh _ le_rfl⟩
    · exact (hinv.entries e entry he).congr (fun _ _ => rfl) rfl rfl
  fresh := fun e he => hinv.fresh e (Nat.le_of_succ_le he)

theorem Inv.drop (hinv : Inv s) (key : K) : Inv (s.drop key) where
  entries_lt := hinv.entries_lt
  calls_lt := hinv.calls_lt
  cache := by
    intro key' e hc
    simp only [Sys.drop, Function.update_apply] at hc
    split at hc
    · cases hc
    · exact hinv.cache key' e hc
  calls := hinv.calls
  entries := fun e entry he => (hinv.entries e entry he).congr (fun _ _ => rfl) rfl rfl
  fresh := hinv.fresh

omit [DecidableEq K] in
/-- The call that made an entry is there. -/
theorem Inv.addCall_account (hinv : Inv s) (h : Accounted s e entry) (call : Call K) :
    Accounted (s.addCall call) e entry := by
  refine h.congr (fun i ho => ?_) rfl rfl
  unfold Accounted at h
  rw [ho] at h
  obtain ⟨maker, hi, -⟩ := h
  rw [hinv.calls_addCall hi call, hi]

omit [DecidableEq K] in
/-- A `get` that finds the entry `e`. -/
theorem Inv.find (hinv : Inv s) {key : K} (hc : s.cache key = some e) : Inv (s.addCall ⟨key, e, .found⟩) where
  entries_lt := hinv.entries_lt
  calls_lt := by
    intro i call hi
    obtain ⟨rfl, -⟩ | hi := LeaseCache.calls_addCall hi
    · exact Nat.lt_succ_self _
    · exact Nat.lt_succ_of_lt (hinv.calls_lt i call hi)
  cache := hinv.cache
  calls := by
    intro i call hi
    obtain ⟨rfl, rfl⟩ | hi := LeaseCache.calls_addCall hi
    · obtain ⟨entry, he, hkey⟩ := hinv.cache key e hc
      -- the call has the entry of the cache, but did not make it
      exact ⟨entry, he, hkey, fun hpc => absurd rfl hpc⟩
    · exact hinv.calls i call hi
  entries := fun e entry he => hinv.addCall_account (hinv.entries e entry he) _
  fresh := hinv.fresh

/-- A `get` that finds nothing. -/
theorem Inv.insert (hinv : Inv s) (key : K) :
    Inv ((s.publish ⟨key, .get s.nextCall, none⟩).addCall ⟨key, s.nextEntry, .inserted⟩) where
  entries_lt := by
    intro e entry he
    obtain ⟨rfl, -⟩ | he := LeaseCache.entries_publish he
    · exact Nat.lt_succ_self _
    · exact Nat.lt_succ_of_lt (hinv.entries_lt e entry he)
  calls_lt := by
    intro i call hi
    obtain ⟨rfl, -⟩ | hi := LeaseCache.calls_addCall hi
    · exact Nat.lt_succ_self _
    · exact Nat.lt_succ_of_lt (hinv.calls_lt i call hi)
  cache := by
    intro key' e hc
    obtain ⟨rfl, rfl⟩ | hc := cache_publish hc
    · exact ⟨_, entries_publish_self _, rfl⟩
    · obtain ⟨entry, he, hkey⟩ := hinv.cache key' e hc
      exact ⟨entry, hinv.entries_publish he _, hkey⟩
  calls := by
    intro i call hi
    obtain ⟨rfl, rfl⟩ | hi := LeaseCache.calls_addCall hi
    · exact ⟨_, entries_publish_self _, rfl, fun _ => rfl⟩
    · exact hinv.calls_of hi (hinv.keep_publish _)
  entries := by
    intro e entry he
    obtain ⟨rfl, rfl⟩ | he := LeaseCache.entries_publish he
    -- nothing has been recorded for the number of the new entry
    · obtain ⟨hf, hr⟩ := hinv.fresh s.nextEntry le_rfl
      exact ⟨⟨key, s.nextEntry, .inserted⟩, Function.update_self .., rfl, nofun, hf, hr, nofun, nofun⟩
    · exact (hinv.addCall_account (hinv.entries e entry he) _).congr (fun _ _ => rfl) rfl rfl
  fresh := fun e he => hinv.fresh e (Nat.le_of_succ_le he)

omit [DecidableEq K] in
/-- The entry that a call fetches for has no other maker. -/
theorem Inv.maker (hinv : Inv s) (hi : s.calls i = some call) (hpc : call.pc ≠ .found) :
    ∃ entry, s.entries call.entry = some entry ∧ entry.key = call.key ∧ entry.origin = .get i ∧
      s.fetchesOf call.entry = (if call.pc = .inserted then [] else [entry.key]) ∧
      s.resultsOf call.entry = entry.promise.toList ∧ (entry.promise.isSome ↔ call.pc = .fetched) := by
  obtain ⟨entry, he, hkey, ho⟩ := hinv.calls i call hi
  refine ⟨entry, he, hkey, ho hpc, ?_⟩
  have hacc := hinv.entries _ entry he
  unfold Accounted at hacc
  rw [ho hpc] at hacc
  obtain ⟨call', hi', -, -, hrest⟩ := hacc
  obtain rfl := Option.some.inj (hi.symm.trans hi')
  exact hrest

omit [DecidableEq K] in
/-- `fetcher_` is called for the first time. -/
theorem Inv.callFetcher (hinv : Inv s) (hi : s.calls i = some call) (hpc : call.pc = .inserted) {pc : Pc}
    (hnext : pc = .fetching ∨ pc = .threw) : Inv (s.callFetcher i call pc) := by
  have hfound : call.pc ≠ .found := by rw [hpc]; nofun
  obtain ⟨entry₀, he₀, hkey₀, ho₀, hf₀, hr₀, hp₀⟩ := hinv.maker hi hfound
  have hself : (s.callFetcher i call pc).calls i = some { call with pc := pc } := Function.update_self ..
  have hother : ∀ j, j ≠ i → (s.callFetcher i call pc).calls j = s.calls j := fun j hj => Function.update_of_ne hj ..
  exact {
    entries_lt := hinv.entries_lt
    calls_lt := by
      intro j call' hj
      rcases eq_or_ne j i with rfl | hne
      · exact hinv.calls_lt j call hi
      · exact hinv.calls_lt j call' (hother j hne ▸ hj)
    cache := hinv.cache
    calls := by
      intro j call' hj
      rcases eq_or_ne j i with rfl | hne
      · obtain rfl := Option.some.inj (hself.symm.trans hj)
        exact ⟨entry₀, he₀, hkey₀, fun _ => ho₀⟩
      · exact hinv.calls j call' (hother j hne ▸ hj)
    entries := by
      intro e entry he
      rcases eq_or_ne call.entry e with rfl | hne
      · obtain rfl := Option.some.inj (he₀.symm.trans he)
        unfold Accounted
        rw [ho₀, fetchesOf_callFetcher, if_pos rfl, hf₀, if_pos hpc, hkey₀]
        -- no fetch before this one, and the promise is empty
        rw [hpc] at hp₀
        refine ⟨_, hself, rfl, ?_⟩
        obtain rfl | rfl := hnext
        · exact ⟨nofun, rfl, hr₀, fun h => absurd (hp₀.1 h) nofun, nofun⟩
        · exact ⟨nofun, rfl, hr₀, fun h => absurd (hp₀.1 h) nofun, nofun⟩
      · have hacc := hinv.entries e entry he
        refine hacc.congr (fun j hj => hother j ?_) (by rw [fetchesOf_callFetcher, if_neg hne, List.append_nil]) rfl
        rintro rfl
        exact hacc.origin_ne hi hne hj
    fresh := by
      intro e he
      have hlt : call.entry < s.nextEntry := hinv.entries_lt _ entry₀ he₀
      rw [fetchesOf_callFetcher, if_neg (by have : s.nextEntry ≤ e := he; omega), List.append_nil]
      exact hinv.fresh e he }

omit [DecidableEq K] in
/-- The one fetch completes. -/
theorem Inv.continuation (hinv : Inv s) (hi : s.calls i = some call) (hpc : call.pc = .fetching) (r : Except E V) :
    Inv (s.continuation i call r) := by
  have hfound : call.pc ≠ .found := by rw [hpc]; nofun
  obtain ⟨entry₀, he₀, hkey₀, ho₀, hf₀, hr₀, hp₀⟩ := hinv.maker hi hfound
  have hnone : entry₀.promise = none := by
    rw [← Option.not_isSome_iff_eq_none, hp₀, hpc]
    nofun
  have hself : (s.continuation i call r).calls i = some { call with pc := .fetched } := Function.update_self ..
  have hother : ∀ j, j ≠ i → (s.continuation i call r).calls j = s.calls j := fun j hj => Function.update_of_ne hj ..
  have hentry : (s.continuation i call r).entries call.entry = some (entry₀.setTry r) := by
    simp only [Sys.continuation, Function.update_self, he₀, Option.map_some]
  have hrest : ∀ e, e ≠ call.entry → (s.continuation i call r).entries e = s.entries e :=
    fun e he => Function.update_of_ne he ..
  have hkeep : ∀ e entry, s.entries e = some entry →
      ∃ entry', (s.continuation i call r).entries e = some entry' ∧ SameMaker entry entry' := by
    intro e entry he
    rcases eq_or_ne e call.entry with rfl | hne
    · obtain rfl := Option.some.inj (he₀.symm.trans he)
      exact ⟨_, hentry, rfl, rfl⟩
    · exact ⟨entry, (hrest e hne).trans he, rfl, rfl⟩
  exact {
    entries_lt := by
      intro e entry he
      rcases eq_or_ne e call.entry with rfl | hne
      · exact hinv.entries_lt _ entry₀ he₀
      · exact hinv.entries_lt e entry (hrest e hne ▸ he)
    calls_lt := by
      intro j call' hj
      rcases eq_or_ne j i with rfl | hne
      · exact hinv.calls_lt j call hi
      · exact hinv.calls_lt j call' (hother j hne ▸ hj)
    cache := by
      intro key e hc
      obtain ⟨entry, he, hkey⟩ := hinv.cache key e hc
      obtain ⟨entry', he', hk, -⟩ := hkeep e entry he
      exact ⟨entry', he', hk.trans hkey⟩
    calls := by
      intro j call' hj
      rcases eq_or_ne j i with rfl | hne
      · obtain rfl := Option.some.inj (hself.symm.trans hj)
        exact ⟨_, hentry, hkey₀, fun _ => ho₀⟩
      · exact hinv.calls_of (hother j hne ▸ hj) hkeep
    entries := by
      intro e entry he
      rcases eq_or_ne e call.entry with rfl | hne
      · obtain rfl := Option.some.inj (hentry.symm.trans he)
        unfold Accounted
        -- the promise was empty, so `setTry` fulfils it and the result is the first
        rw [show (entry₀.setTry r).origin = .get i from ho₀, resultsOf_continuation, if_pos rfl, hr₀, hnone]
        refine ⟨_, hself, rfl, nofun, ?_, ?_, ?_⟩
        · rw [if_neg nofun]
          rw [hpc] at hf₀
          exact hf₀
        · simp [Entry.setTry, hnone]
        · simp [Entry.setTry, hnone]
      · rw [hrest e hne] at he
        have hacc := hinv.entries e entry he
        refine hacc.congr (fun j hj => hother j ?_) rfl
          (by rw [resultsOf_continuation, if_neg (Ne.symm hne), List.append_nil])
        rintro rfl
        exact hacc.origin_ne hi (Ne.symm hne) hj
    fresh := by
      intro e he
      have hlt : call.entry < s.nextEntry := hinv.entries_lt _ entry₀ he₀
      rw [resultsOf_continuation, if_neg (by have : s.nextEntry ≤ e := he; omega), List.append_nil]
      exact hinv.fresh e he }

theorem Inv.step (hinv : Inv s) {op : Op K V E} (h : step s op = some s') : Inv s' := by
  obtain ⟨key, val, rfl⟩ | ⟨key, rfl⟩ | ⟨key, e, hc, rfl⟩ | ⟨key, hc, rfl⟩ | ⟨i, call, pc, hi, hpc, hnext, rfl⟩ |
    ⟨i, call, r, hi, hpc, rfl⟩ := step_cases h
  · exact hinv.set key val
  · exact hinv.drop key
  · exact hinv.find hc
  · exact hinv.insert key
  · exact hinv.callFetcher hi hpc hnext
  · exact hinv.continuation hi hpc r

/-! ### Runs -/

/-- What a later step leaves of a `get` that found its entry: it waits for that entry, which
has its maker. -/
theorem Inv.waits (hinv : Inv s) {op : Op K V E} (h : LeaseCache.step s op = some s')
    (hi : s.calls i = some call) (hpc : call.pc = .found) (he : s.entries e = some entry) :
    s'.calls i = some call ∧ ∃ entry', s'.entries e = some entry' ∧ SameMaker entry entry' := by
  -- the calls that make steps of their own have not found their entries
  have hne : ∀ {j call'}, s.calls j = some call' → call'.pc ≠ .found → i ≠ j := by
    rintro j call' hj hpc' rfl
    obtain rfl := Option.some.inj (hi.symm.trans hj)
    exact hpc' hpc
  obtain ⟨key, val, rfl⟩ | ⟨key, rfl⟩ | ⟨key, e', hc, rfl⟩ | ⟨key, hc, rfl⟩ | ⟨j, call', pc, hj, hpc', -, rfl⟩ |
    ⟨j, call', r, hj, hpc', rfl⟩ := step_cases h
  · exact ⟨hi, hinv.keep_publish _ e entry he⟩
  · exact ⟨hi, entry, he, rfl, rfl⟩
  · exact ⟨hinv.calls_addCall hi _, entry, he, rfl, rfl⟩
  · exact ⟨hinv.calls_addCall hi _, hinv.keep_publish _ e entry he⟩
  · have hij := hne hj (by rw [hpc']; nofun)
    exact ⟨(Function.update_of_ne hij ..).trans hi, entry, he, rfl, rfl⟩
  · have hij := hne hj (by rw [hpc']; nofun)
    refine ⟨(Function.update_of_ne hij ..).trans hi, ?_⟩
    simp only [Sys.continuation, Function.update_apply]
    split
    · rename_i hself
      rw [← hself, he]
      exact ⟨entry.setTry r, rfl, rfl, rfl⟩
    · exact ⟨entry, he, rfl, rfl⟩

/-- **Single flight.** `fetcher_` is called exactly once for each entry that a `get` made,
as soon as that `get` has come to the call, and for no entry that `set` made. A `get` that
finds an entry under its key waits for that entry ever after: its future has received what
the fetches for the entry have resulted in, or has the value given to `set`. -/
theorem get_single_flight (ops : List (Op K V E)) (s : Sys K V E) (hrun : run LeaseCache.step start ops = some s) :
    (∀ e entry, s.entries e = some entry →
      match entry.origin with
      | .set _ => s.fetchesOf e = []
      | .get i => ∃ call, s.calls i = some call ∧ call.entry = e ∧
          s.fetchesOf e = if call.pc = .inserted then [] else [entry.key]) ∧
    (∀ key e, s.cache key = some e → ∃ entry, s.entries e = some entry ∧ entry.key = key ∧
      ∀ s' later t, LeaseCache.step s (.get key) = some s' → run LeaseCache.step s' later = some t →
        t.calls s.nextCall = some ⟨key, e, .found⟩ ∧ ∃ entry', t.entries e = some entry' ∧
          entry'.origin = entry.origin ∧
          match entry.origin with
          | .set val => entry'.promise = some (.ok val)
          | .get _ => t.resultsOf e = entry'.promise.toList) := by
  have hinv : Inv s := run_invariant inv_start (fun _ _ _ hi hs => hi.step hs) ops hrun
  refine ⟨fun e entry he => ?_, fun key e hc => ?_⟩
  · have hacc := hinv.entries e entry he
    unfold Accounted at hacc
    split <;> rename_i ho <;> rw [ho] at hacc
    · exact hacc.2.1
    · obtain ⟨call, hi, hce, -, hf, -⟩ := hacc
      exact ⟨call, hi, hce, hf⟩
  · obtain ⟨entry, he, hkey⟩ := hinv.cache key e hc
    refine ⟨entry, he, hkey, fun s' later t hget hlater => ?_⟩
    have hs' : s' = s.addCall ⟨key, e, .found⟩ := by
      rw [← Option.some.inj hget]
      unfold Sys.lookup
      rw [hc]
    have h0 : Inv s' ∧ s'.calls s.nextCall = some ⟨key, e, .found⟩ ∧
        ∃ entry', s'.entries e = some entry' ∧ SameMaker entry entry' := by
      refine ⟨hinv.step hget, ?_, entry, ?_, rfl, rfl⟩
      · rw [hs']
        exact Function.update_self ..
      · rw [hs']
        exact he
    obtain ⟨hinv', hi, entry', he', -, ho⟩ := run_invariant (I := fun t => Inv t ∧
        t.calls s.nextCall = some ⟨key, e, .found⟩ ∧ ∃ entry', t.entries e = some entry' ∧ SameMaker entry entry')
      h0 (by
        rintro t₁ op t₂ ⟨h1, h2, entry₁, h3, h4⟩ hstep
        obtain ⟨h5, entry₂, h6, h7⟩ := h1.waits hstep h2 rfl h3
        exact ⟨h1.step hstep, h5, entry₂, h6, h7.1.trans h4.1, h7.2.trans h4.2⟩)
      later hlater
    refine ⟨hi, entry', he', ho, ?_⟩
    have hacc := hinv'.entries e entry' he'
    unfold Accounted at hacc
    rw [ho] at hacc
    split <;> rename_i horigin <;> rw [horigin] at hacc
    · exact hacc.1
    · obtain ⟨call, -, -, -, -, hr, -⟩ := hacc
      exact hr

/-- A second `get` finds the entry of the first, which is erased before its fetch completes. -/
theorem get_single_flight_erased :
    ∃ s t : Sys ℕ ℕ Unit, run LeaseCache.step start [.get 7] = some s ∧
      run LeaseCache.step s [.get 7, .erase 7, .fetch 0, .complete 0 (.ok 3)] = some t ∧
      t.calls 1 = some ⟨7, 0, .found⟩ ∧ ∃ entry, t.entries 0 = some entry ∧ t.resultsOf 0 = entry.promise.toList ∧
        entry.promise = some (.ok 3) := by
  refine ⟨_, _, rfl, rfl, ?_⟩
  obtain ⟨-, h⟩ := get_single_flight (K := ℕ) (V := ℕ) (E := Unit) [.get 7] _ rfl
  obtain ⟨entry, he, -, hlater⟩ := h 7 0 rfl
  obtain rfl := Option.some.inj he
  obtain ⟨hi, entry', he', -, hr⟩ := hlater _ [.erase 7, .fetch 0, .complete 0 (.ok 3)] _ rfl rfl
  obtain rfl := Option.some.inj he'
  exact ⟨hi, _, rfl, hr, rfl⟩

end LeaseCache

end EdenCommon
