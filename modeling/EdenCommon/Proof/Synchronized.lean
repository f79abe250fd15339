import EdenCommon.Lib.Linearize
import EdenCommon.Lib.Threads
import EdenCommon.Spec.Synchronized
import Mathlib.Algebra.GroupWithZero.Nat

/-!
# Check, then lock and check again

* `step_cases`: all that a step of a thread can do (`Moves`), to the locks, to the state and to the
  order of the results.
* `Inv`: the locks are held by those who stand behind them, a writer is alone, and the state is that of
  the calls made in one piece. `tryRlockCheckBeforeUpdate_linearizable` reads it at the end of a run: each
  call acts as if it had checked and updated at one point between its beginning and its end.
* `never_stuck`: no threads wait for each other for ever, since a thread with a lock can always go on.
* `add_queues_once`: calls of `add` that the thread-local cache does not answer queue one lookup for
  every new pid, however many threads ask for it at the same time.
* `add_simulated`: what the threads in `add` do to the cache is what its callers do in `ProcessInfoCache.step`,
  where each critical section is one step.
-/

namespace EdenCommon

namespace Synchronized

open Lib

variable {State Return : Type} {calls : ℕ → Call State Return} {s s' : Synchronized State Return} {i : ℕ}
  {c d : Thread Return}

/-! ### What a step can do -/

/-- Thread `i` goes from `c` to `d`. -/
structure Moves (calls : ℕ → Call State Return) (s s' : Synchronized State Return) (i : ℕ) (c d : Thread Return) :
    Prop where
  thread : s.threads[i]? = some c
  threads : s'.threads = s.threads.set i d
  readers : s'.readers = s.readers + d.holdsRead.toNat - c.holdsRead.toNat
  writer : s'.writer = if c.holdsWrite = d.holdsWrite then s.writer else d.holdsWrite
  readLock : d.holdsRead = true → c.holdsRead = true ∨ s.writer = false
  writeLock : d.holdsWrite = true → c.holdsWrite = true ∨ (s.writer = false ∧ s.readers = 0)
  checked : d = .update → (calls i).check s'.state = none
  remaining : d.remaining < c.remaining
  /-- No one sees the step, or the call comes to its result. -/
  effect : (s'.state = s.state ∧ s'.order = s.order ∧ d.result? = c.result?) ∨
    ((c.holdsRead = true ∨ c.holdsWrite = true) ∧ c.result? = none ∧ s'.order = s.order ++ [i] ∧
      ∃ r, d.result? = some r ∧ ((calls i).check s.state = some (s'.state, r) ∨
        (c = .update ∧ (calls i).update s.state = (s'.state, r))))

theorem step_cases (h : step calls s i = some s') : ∃ c d, Moves calls s s' i c d := by
  obtain ⟨c, hi, h⟩ := Option.bind_eq_some_iff.1 h
  cases c with
  | idle =>
    cases h
    exact ⟨_, _, hi, rfl, rfl, rfl, by simp [Thread.holdsRead], by simp [Thread.holdsWrite], by simp,
      by simp [Thread.remaining], Or.inl ⟨rfl, rfl, rfl⟩⟩
  | rlock =>
    rw [proceed, Option.ite_none_left_eq_some, Bool.not_eq_true] at h
    obtain ⟨hwriter, h⟩ := h
    cases h
    exact ⟨_, _, hi, rfl, rfl, rfl, fun _ => Or.inr hwriter, by simp [Thread.holdsWrite], by simp,
      by simp [Thread.remaining], Or.inl ⟨rfl, rfl, rfl⟩⟩
  | checkRead =>
    rw [proceed] at h
    split at h
    · rename_i state result hcheck
      cases h
      exact ⟨_, _, hi, rfl, rfl, rfl, fun _ => Or.inl rfl, by simp [Thread.holdsWrite], by simp,
        by simp [Thread.remaining], Or.inr ⟨Or.inl rfl, rfl, rfl, result, rfl, Or.inl hcheck⟩⟩
    · cases h
      exact ⟨_, _, hi, rfl, rfl, rfl, fun _ => Or.inl rfl, by simp [Thread.holdsWrite], by simp,
        by simp [Thread.remaining], Or.inl ⟨rfl, rfl, rfl⟩⟩
  | runlock result =>
    cases result with
    | some result =>
      cases h
      exact ⟨_, _, hi, rfl, rfl, rfl, by simp [Thread.holdsRead], by simp [Thread.holdsWrite], by simp,
        by simp [Thread.remaining], Or.inl ⟨rfl, rfl, rfl⟩⟩
    | none =>
      cases h
      exact ⟨_, _, hi, rfl, rfl, rfl, by simp [Thread.holdsRead], by simp [Thread.holdsWrite], by simp,
        by simp [Thread.remaining], Or.inl ⟨rfl, rfl, rfl⟩⟩
  | wlock =>
    rw [proceed, Option.ite_none_left_eq_some, Bool.or_eq_true, not_or, Bool.not_eq_true, decide_eq_true_eq] at h
    obtain ⟨⟨hwriter, hreaders⟩, h⟩ := h
    cases h
    exact ⟨_, _, hi, rfl, rfl, rfl, by simp [Thread.holdsRead],
      fun _ => Or.inr ⟨hwriter, Nat.eq_zero_of_not_pos hreaders⟩, by simp, by simp [Thread.remaining],
      Or.inl ⟨rfl, rfl, rfl⟩⟩
  | checkWrite =>
    rw [proceed] at h
    split at h
    · rename_i state result hcheck
      cases h
      exact ⟨_, _, hi, rfl, rfl, rfl, by simp [Thread.holdsRead], fun _ => Or.inl rfl, by simp,
        by simp [Thread.remaining], Or.inr ⟨Or.inr rfl, rfl, rfl, result, rfl, Or.inl hcheck⟩⟩
    · rename_i hcheck
      cases h
      exact ⟨_, _, hi, rfl, rfl, rfl, by simp [Thread.holdsRead], fun _ => Or.inl rfl, fun _ => hcheck,
        by simp [Thread.remaining], Or.inl ⟨rfl, rfl, rfl⟩⟩
  | update =>
    cases h
    exact ⟨_, _, hi, rfl, rfl, rfl, by simp [Thread.holdsRead], fun _ => Or.inl rfl, by simp,
      by simp [Thread.remaining], Or.inr ⟨Or.inr rfl, rfl, rfl, _, rfl, Or.inr ⟨rfl, rfl⟩⟩⟩
  | wunlock result =>
    cases h
    exact ⟨_, _, hi, rfl, rfl, rfl, by simp [Thread.holdsRead], by simp [Thread.holdsWrite], by simp,
      by simp [Thread.remaining], Or.inl ⟨rfl, rfl, rfl⟩⟩
  | returned result => cases h

/-- The thread stands where the step has put it. -/
theorem Moves.self (h : Moves calls s s' i c d) : s'.threads[i]? = some d := by
  rw [h.threads, List.getElem?_set_self (List.getElem?_eq_some_iff.1 h.thread).1]

/-- The other threads stand where they did. -/
theorem Moves.other (h : Moves calls s s' i c d) {j : ℕ} (hj : j ≠ i) : s'.threads[j]? = s.threads[j]? := by
  rw [h.threads, List.getElem?_set_ne (Ne.symm hj)]

/-! ### Mutual exclusion and the order of the results -/

structure Inv (calls : ℕ → Call State Return) (s₀ : State) (s : Synchronized State Return) : Prop where
  readers : s.readers = s.threads.countP Thread.holdsRead
  writer : s.writer.toNat = s.threads.countP Thread.holdsWrite
  exclusive : s.writer = true → s.readers = 0
  /-- The check has failed under the write lock, and nothing has changed since. -/
  checked : ∀ i, s.threads[i]? = some .update → (calls i).check s.state = none
  linearizes : Linearizes (fun state i => (calls i).atomic state) s₀ s.state s.order
    fun i => s.threads[i]?.bind Thread.result?

/-- Before the first step no one has a lock and no call has taken place. -/
theorem inv_init (calls : ℕ → Call State Return) (s₀ : State) (n : ℕ) : Inv calls s₀ (init s₀ n) := by
  have hidle : ∀ (i : ℕ) (t : Thread Return), (List.replicate n .idle)[i]? = some t → t = .idle := by
    intro i t ht
    rw [List.getElem?_replicate] at ht
    split at ht
    · cases ht
      rfl
    · cases ht
  refine ⟨?_, ?_, fun h => ?_, fun i hi => ?_, (Linearizes.nil _ s₀).congr fun i => ?_⟩
  · rw [init, List.countP_replicate]
    rfl
  · rw [init, List.countP_replicate]
    rfl
  · cases h
  · cases hidle i _ hi
  · cases ht : (init s₀ n : Synchronized State Return).threads[i]? with
    | none => rfl
    | some t =>
      obtain rfl := hidle i t ht
      rfl

theorem writer_of_reads {t : Thread Return} (h : t.holdsRead = true) : t.holdsWrite = false := by
  cases t <;> simp_all [Thread.holdsRead, Thread.holdsWrite]

/-- A thread with the read lock is one of the readers. -/
theorem Inv.readers_pos {s₀ : State} (hinv : Inv calls s₀ s) (hi : s.threads[i]? = some c)
    (hc : c.holdsRead = true) : 0 < s.readers := by
  rw [hinv.readers]
  exact List.countP_pos_iff.2 ⟨c, List.mem_of_getElem? hi, hc⟩

/-- A thread with the write lock is the writer. -/
theorem Inv.writer_true {s₀ : State} (hinv : Inv calls s₀ s) (hi : s.threads[i]? = some c)
    (hc : c.holdsWrite = true) : s.writer = true := by
  have hpos : 0 < s.threads.countP Thread.holdsWrite := List.countP_pos_iff.2 ⟨c, List.mem_of_getElem? hi, hc⟩
  rw [← hinv.writer] at hpos
  cases hw : s.writer with
  | false => rw [hw] at hpos; exact absurd hpos (Nat.lt_irrefl 0)
  | true => rfl

/-- A thread with a lock is the only one that may be about to update. -/
theorem Inv.no_update {s₀ : State} (hinv : Inv calls s₀ s) (hi : s.threads[i]? = some c)
    (hc : c.holdsRead = true ∨ c.holdsWrite = true) {j : ℕ} (hj : s.threads[j]? = some .update) : j = i := by
  obtain hc | hc := hc
  · have hreaders := hinv.readers_pos hi hc
    have := hinv.exclusive (hinv.writer_true hj rfl)
    omega
  · refine eq_of_countP_le_one Thread.holdsWrite ?_ hj hi rfl hc
    rw [← hinv.writer]
    exact Bool.toNat_le s.writer

/-- A result under the write lock, or with a check that succeeds, is that of the call in one piece. -/
theorem Inv.atomic {s₀ : State} (hinv : Inv calls s₀ s) (h : Moves calls s s' i c d) {r : Return}
    (hr : (calls i).check s.state = some (s'.state, r) ∨ (c = .update ∧ (calls i).update s.state = (s'.state, r))) :
    (calls i).atomic s.state = (s'.state, r) := by
  rw [Call.atomic]
  obtain hcheck | ⟨rfl, hupdate⟩ := hr
  · rw [hcheck]
  · rw [hinv.checked i h.thread]
    exact hupdate

/-- **What a step may do keeps the invariant.** A call comes to its result under a lock, and that is its
point. -/
theorem Inv.moves {s₀ : State} (hinv : Inv calls s₀ s) (h : Moves calls s s' i c d) : Inv calls s₀ s' := by
  have hreaders := hinv.readers_pos h.thread
  have hwriter := hinv.writer_true h.thread
  have hread := countP_set_add (d := d) Thread.holdsRead h.thread
  have hwrite := countP_set_add (d := d) Thread.holdsWrite h.thread
  rw [← h.threads, ← hinv.readers] at hread
  rw [← h.threads, ← hinv.writer] at hwrite
  refine ⟨?_, ?_, fun hw => ?_, fun j hj => ?_, ?_⟩
  · rw [h.readers]
    omega
  · rw [h.writer]
    cases hc : c.holdsWrite <;> cases hd : d.holdsWrite <;> rw [hc, hd] at hwrite
    · exact hwrite.symm
    · have hfalse := (h.writeLock hd).resolve_left (by rw [hc]; exact Bool.false_ne_true)
      rw [hfalse.1] at hwrite
      exact hwrite.symm
    · rw [hwriter hc, Bool.toNat_true, Bool.toNat_false] at hwrite
      exact (Nat.add_right_cancel hwrite).symm
    · exact (Nat.add_right_cancel hwrite).symm
  · have hd : d.holdsRead = false := by
      cases hd : d.holdsRead with
      | false => rfl
      | true =>
        rw [h.writer, writer_of_reads hd] at hw
        split at hw
        · obtain hc | hfalse := h.readLock hd
          · have := hinv.exclusive hw
            have := hreaders hc
            omega
          · rw [hfalse] at hw
            cases hw
        · cases hw
    have hzero : s.readers = 0 := by
      rw [h.writer] at hw
      split at hw
      · exact hinv.exclusive hw
      · rename_i hne
        obtain hc | ⟨-, hzero⟩ := h.writeLock hw
        · exact absurd (hc.trans hw.symm) hne
        · exact hzero
    rw [h.readers, hzero, hd]
    simp
  · by_cases hji : j = i
    · subst hji
      rw [h.self] at hj
      exact h.checked (Option.some.inj hj)
    · rw [h.other hji] at hj
      obtain ⟨hstate, -, -⟩ | ⟨hlock, -⟩ := h.effect
      · rw [hstate]
        exact hinv.checked j hj
      · exact absurd (hinv.no_update h.thread hlock hj) hji
  · obtain ⟨hstate, horder, hresult⟩ | ⟨-, hnone, horder, r, hresult, hr⟩ := h.effect
    · rw [hstate, horder]
      refine hinv.linearizes.congr fun j => ?_
      by_cases hji : j = i
      · rw [hji, h.self, h.thread]
        exact hresult
      · rw [h.other hji]
    · have hatomic := hinv.atomic h hr
      have hbefore : s.threads[i]?.bind Thread.result? = none := by
        rw [h.thread]
        exact hnone
      have hafter : s'.threads[i]?.bind Thread.result? = some ((calls i).atomic s.state).2 := by
        rw [h.self, hatomic]
        exact hresult
      have hpoint : Linearizes (fun state j => (calls j).atomic state) s₀ ((calls i).atomic s.state).1 (s.order ++ [i])
          fun j => s'.threads[j]?.bind Thread.result? :=
        hinv.linearizes.point hbefore hafter fun j hji => by rw [h.other hji]
      rwa [hatomic, ← horder] at hpoint

theorem Inv.step {s₀ : State} (hinv : Inv calls s₀ s) (h : Synchronized.step calls s i = some s') :
    Inv calls s₀ s' := by
  obtain ⟨c, d, hmoves⟩ := step_cases h
  exact hinv.moves hmoves

/-- The invariant holds of every run. -/
theorem run_inv (calls : ℕ → Call State Return) (s₀ : State) (n : ℕ) (ops : List ℕ)
    (h : run (Synchronized.step calls) (init s₀ n) ops = some s) : Inv calls s₀ s :=
  run_invariant (inv_init calls s₀ n) (fun _ _ _ hinv hs => hinv.step hs) ops h

theorem Moves.order (h : Moves calls s s' i c d) : s.order <+: s'.order := by
  obtain ⟨-, horder, -⟩ | ⟨-, -, horder, -⟩ := h.effect
  · rw [horder]
  · rw [horder]
    exact List.prefix_append _ _

/-- The order only grows, so a call that has come to its result stays in front of those that have not
begun. -/
theorem run_order {ops : List ℕ} (h : run (Synchronized.step calls) s ops = some s') : s.order <+: s'.order := by
  refine run_invariant (I := fun t : Synchronized State Return => s.order <+: t.order) (List.prefix_refl s.order)
    (fun _ _ _ hle hs => ?_) ops h
  obtain ⟨c, d, hmoves⟩ := step_cases hs
  exact hle.trans hmoves.order

/-- **One piece.** In every interleaving the state and the results are those of the calls made in
one piece, one after the other in some order. A call that has returned before another
begins comes before it. -/
theorem tryRlockCheckBeforeUpdate_linearizable (calls : ℕ → Call State Return) (s₀ : State) (n : ℕ)
    (ops ops' : List ℕ) (s s' : Synchronized State Return) (h : run (Synchronized.step calls) (init s₀ n) ops = some s)
    (h' : run (Synchronized.step calls) s ops' = some s') :
    Linearizes (fun state i => (calls i).atomic state) s₀ s'.state s'.order
        (fun i => s'.threads[i]?.bind Thread.result?) ∧
      ∀ i j r before after, s.threads[i]? = some (.returned r) → s.threads[j]? = some .idle →
        s'.order = before ++ j :: after → i ∈ before := by
  have hinv := run_inv calls s₀ n ops h
  have hinv' : Inv calls s₀ s' := run_invariant hinv (fun _ _ _ hi hs => hi.step hs) ops' h'
  refine ⟨hinv'.linearizes, fun i j r before after hi hj horder => ?_⟩
  have himem : i ∈ s.order := by
    rw [hinv.linearizes.mem_iff, hi]
    rfl
  have hjmem : j ∉ s.order := by
    rw [hinv.linearizes.mem_iff, hj]
    exact Bool.false_ne_true
  exact mem_before (run_order h') himem hjmem horder

/-- Two calls for one key: both check under the read lock, and then the first one updates. -/
def race : List ℕ := [0, 1, 0, 1, 0, 1, 0, 1, 0, 0, 0, 0, 1, 1, 1]

theorem race_linearizable : ∃ s, run (Synchronized.step fun _ => ProcessInfoCache.addCall 7 0)
      (init ⟨⟨[], [], []⟩, 0⟩ 2) race = some s ∧
    Linearizes (fun state _ => (ProcessInfoCache.addCall 7 0).atomic state) ⟨⟨[], [], []⟩, 0⟩ s.state s.order
      fun i => s.threads[i]?.bind Thread.result? :=
  ⟨_, rfl, (tryRlockCheckBeforeUpdate_linearizable (fun _ => ProcessInfoCache.addCall 7 0) _ 2 race [] _ _ rfl rfl).1⟩

/-! ### No thread waits for ever -/

/-- Every step brings its thread nearer to its end. -/
theorem run_bounded {ops : List ℕ} (h : run (Synchronized.step calls) s ops = some s') :
    ops.length + (s'.threads.map Thread.remaining).sum ≤ (s.threads.map Thread.remaining).sum := by
  induction ops generalizing s with
  | nil =>
    obtain rfl : s = s' := by simpa using h
    simp
  | cons i ops ih =>
    obtain ⟨s₁, hs, hrun⟩ := run_cons_eq_some.1 h
    obtain ⟨c, d, hmoves⟩ := step_cases hs
    have hsum := sum_map_set_add (d := d) Thread.remaining hmoves.thread
    have hlt := hmoves.remaining
    rw [← hmoves.threads] at hsum
    have := ih hrun
    rw [List.length_cons]
    omega

/-- A thread that does not wait for the lock can go on. -/
theorem can_proceed (hi : s.threads[i]? = some c) (hc : c.holdsRead = true ∨ c.holdsWrite = true) :
    Synchronized.step calls s i ≠ none := by
  rw [Synchronized.step, hi, Option.bind_some]
  cases c with
  | checkRead =>
    rw [proceed]
    split <;> simp
  | runlock result => cases result <;> simp [proceed]
  | checkWrite =>
    rw [proceed]
    split <;> simp
  | update => simp [proceed]
  | wunlock result => simp [proceed]
  | idle => simp [Thread.holdsRead, Thread.holdsWrite] at hc
  | rlock => simp [Thread.holdsRead, Thread.holdsWrite] at hc
  | wlock => simp [Thread.holdsRead, Thread.holdsWrite] at hc
  | returned result => simp [Thread.holdsRead, Thread.holdsWrite] at hc

/-- **No deadlock.** A run of `n` threads has at most `8 * n` steps, and when no call that has
begun can go on, all of them have returned. -/
theorem never_stuck (calls : ℕ → Call State Return) (s₀ : State) (n : ℕ) (ops : List ℕ) (s : Synchronized State Return)
    (h : run (Synchronized.step calls) (init s₀ n) ops = some s) :
    ops.length ≤ 8 * n ∧
      ((∀ i, s.threads[i]? ≠ some .idle → Synchronized.step calls s i = none) →
        ∀ t ∈ s.threads, t = .idle ∨ ∃ r, t = .returned r) := by
  have hinv := run_inv calls s₀ n ops h
  refine ⟨?_, fun hstuck t ht => ?_⟩
  · have hbound := run_bounded h
    have hinit : ((init s₀ n : Synchronized State Return).threads.map Thread.remaining).sum = 8 * n := by
      simp [init, Thread.remaining, Nat.mul_comm]
    omega
  · have hfree : ∀ t ∈ s.threads, ¬ (t.holdsRead = true ∨ t.holdsWrite = true) := by
      intro t ht hlock
      obtain ⟨i, hi⟩ := List.mem_iff_getElem?.1 ht
      refine can_proceed hi hlock (hstuck i fun hidle => ?_)
      rw [hi] at hidle
      cases hidle
      simp [Thread.holdsRead, Thread.holdsWrite] at hlock
    have hreaders : s.readers = 0 := by
      rw [hinv.readers, List.countP_eq_zero]
      exact fun t ht hread => hfree t ht (Or.inl hread)
    have hwriter : s.writer = false := by
      have hzero : s.threads.countP Thread.holdsWrite = 0 := by
        rw [List.countP_eq_zero]
        exact fun t ht hwrite => hfree t ht (Or.inr hwrite)
      rw [← hinv.writer] at hzero
      cases hw : s.writer with
      | false => rfl
      | true => rw [hw] at hzero; cases hzero
    obtain ⟨i, hi⟩ := List.mem_iff_getElem?.1 ht
    have hnone := hstuck i
    rw [hi, Synchronized.step, hi, Option.bind_some] at hnone
    cases t with
    | idle => exact Or.inl rfl
    | returned r => exact Or.inr ⟨r, rfl⟩
    | rlock => simp [proceed, hwriter] at hnone
    | wlock => simp [proceed, hwriter, hreaders] at hnone
    | checkRead => exact absurd (Or.inl rfl) (hfree _ ht)
    | runlock result => exact absurd (Or.inl rfl) (hfree _ ht)
    | checkWrite => exact absurd (Or.inr rfl) (hfree _ ht)
    | update => exact absurd (Or.inr rfl) (hfree _ ht)
    | wunlock result => exact absurd (Or.inr rfl) (hfree _ ht)

theorem race_never_stuck : ∃ s, run (Synchronized.step fun _ => ProcessInfoCache.addCall 7 0)
      (init ⟨⟨[], [], []⟩, 0⟩ 2) race = some s ∧ race.length ≤ 8 * 2 ∧
    ((∀ i, s.threads[i]? ≠ some .idle → Synchronized.step (fun _ => ProcessInfoCache.addCall 7 0) s i = none) →
      ∀ t ∈ s.threads, t = .idle ∨ ∃ r, t = .returned r) :=
  ⟨_, rfl, never_stuck (fun _ => ProcessInfoCache.addCall 7 0) ⟨⟨[], [], []⟩, 0⟩ 2 race _ rfl⟩

end Synchronized

/-! ### `add` -/

namespace ProcessInfoCache

open Lib Synchronized

variable {pids : ℕ → Pid} {now : ℕ → Time} {has : ℕ → Bool} {st₀ : AddState} {s s' : Synchronized AddState Unit}

/-- An access makes no pid known and none unknown. -/
theorem find_recordAccess (st : State) (info : PromiseId) (now : Time) (pid : Pid) :
    ((st.recordAccess info now).find pid).isSome = (st.find pid).isSome := by
  unfold State.recordAccess State.find
  induction st.infos with
  | nil => rfl
  | cons e infos ih =>
    rw [List.map_cons, List.lookup_cons, List.lookup_cons]
    have hfst : (if e.2.info_ = info then (e.1, { e.2 with lastAccess_ := now }) else e).1 = e.1 := by
      split <;> rfl
    rw [hfst]
    cases pid == e.1 with
    | true => rfl
    | false => exact ih

/-- The lookups queued since the start: one for each pid that was not known and is now. -/
structure Added (pids : ℕ → Pid) (has : ℕ → Bool) (st₀ : AddState) (s : Synchronized AddState Unit) (new : List (Pid × PromiseId)) :
    Prop where
  queue : s.state.state_.lookupQueue = st₀.state_.lookupQueue ++ new
  promises : new.map Prod.snd = List.range' st₀.nextPromise new.length
  nextPromise : s.state.nextPromise = st₀.nextPromise + new.length
  nodup : (new.map Prod.fst).Nodup
  unknown : ∀ pid ∈ new.map Prod.fst, st₀.state_.find pid = none ∧ ∃ i, has i = false ∧ pids i = pid
  known : ∀ pid, (s.state.state_.find pid).isSome ↔ (st₀.state_.find pid).isSome ∨ pid ∈ new.map Prod.fst
  results : ∀ i : ℕ, ((s.threads[i]?.bind Thread.result?).isSome) → (s.state.state_.find (pids i)).isSome

/-- An update makes its pid known, and no other. -/
theorem find_append (st : State) (pid : Pid) (node : Node) (queue : List (Pid × PromiseId)) (pid' : Pid) :
    (State.find { st with infos := st.infos ++ [(pid, node)], lookupQueue := queue } pid').isSome ↔
      (st.find pid').isSome ∨ pid' = pid := by
  unfold State.find
  rw [List.lookup_append, Option.isSome_or, Bool.or_eq_true]
  refine or_congr Iff.rfl ?_
  rw [List.lookup_cons]
  by_cases h : pid' = pid
  · simp [h]
  · simp [h, beq_false_of_ne h]

/-- What a thread has returned behind a step of another one, it has returned before. -/
theorem Added.results_step {new : List (Pid × PromiseId)} {i : ℕ} {c d : Thread Unit} (hadded : Added pids has st₀ s new)
    (h : Moves (addCalls pids now) s s' i c d)
    (hmono : ∀ pid, (s.state.state_.find pid).isSome → (s'.state.state_.find pid).isSome)
    (hself : d.result?.isSome → (s'.state.state_.find (pids i)).isSome) :
    ∀ j : ℕ, (s'.threads[j]?.bind Thread.result?).isSome → (s'.state.state_.find (pids j)).isSome := by
  intro j hj
  by_cases hji : j = i
  · rw [hji, h.self] at hj
    rw [hji]
    exact hself hj
  · rw [h.other hji] at hj
    exact hmono _ (hadded.results j hj)

/-- A step that queues nothing and makes no pid known. -/
theorem Added.keep {new : List (Pid × PromiseId)} {i : ℕ} {c d : Thread Unit} (hadded : Added pids has st₀ s new)
    (h : Moves (addCalls pids now) s s' i c d)
    (hqueue : s'.state.state_.lookupQueue = s.state.state_.lookupQueue)
    (hpromise : s'.state.nextPromise = s.state.nextPromise)
    (hfind : ∀ pid, (s'.state.state_.find pid).isSome = (s.state.state_.find pid).isSome)
    (hself : d.result?.isSome → (s.state.state_.find (pids i)).isSome) : Added pids has st₀ s' new where
  queue := by rw [hqueue]; exact hadded.queue
  promises := hadded.promises
  nextPromise := by rw [hpromise]; exact hadded.nextPromise
  nodup := hadded.nodup
  unknown := hadded.unknown
  known := fun pid => by rw [hfind]; exact hadded.known pid
  results := hadded.results_step h (fun pid hpid => by rw [hfind]; exact hpid) fun hd => by rw [hfind]; exact hself hd

/-- **An update** queues the lookup for its pid, if that is not known. -/
theorem Added.enqueue {new : List (Pid × PromiseId)} {i : ℕ} {c d : Thread Unit} (hhas : has i = false)
    (hadded : Added pids has st₀ s new) (h : Moves (addCalls pids now) s s' i c d)
    (hnone : s.state.state_.find (pids i) = none)
    (hstate : s'.state = ((addCalls pids now i).update s.state).1) :
    Added pids has st₀ s' (new ++ [(pids i, s.state.nextPromise)]) := by
  have hnew : st₀.state_.find (pids i) = none ∧ pids i ∉ new.map Prod.fst := by
    have hknown := mt (hadded.known (pids i)).2 (by rw [hnone]; exact Bool.false_ne_true)
    rw [not_or] at hknown
    exact ⟨by simpa using hknown.1, hknown.2⟩
  have hfind : ∀ pid, (s'.state.state_.find pid).isSome ↔ (s.state.state_.find pid).isSome ∨ pid = pids i := by
    intro pid
    rw [hstate]
    exact find_append _ _ _ _ pid
  refine ⟨?_, ?_, ?_, ?_, fun pid hpid => ?_, fun pid => ?_, ?_⟩
  · rw [hstate, ← List.append_assoc, ← hadded.queue]
    rfl
  · rw [List.map_append, hadded.promises, List.length_append, List.length_singleton, List.range'_concat,
      hadded.nextPromise, Nat.one_mul]
    rfl
  · rw [hstate, List.length_append, List.length_singleton, ← Nat.add_assoc, ← hadded.nextPromise]
    rfl
  · rw [List.map_append, List.nodup_append]
    refine ⟨hadded.nodup, by simp, fun x hx y hy => ?_⟩
    have hy : y = pids i := by simpa using hy
    rw [hy]
    rintro rfl
    exact hnew.2 hx
  · rw [List.map_append, List.mem_append] at hpid
    obtain hpid | hpid := hpid
    · exact hadded.unknown pid hpid
    · have hpid : pid = pids i := by simpa using hpid
      rw [hpid]
      exact ⟨hnew.1, i, hhas, rfl⟩
  · rw [hfind, hadded.known, List.map_append, List.mem_append, or_assoc]
    simp
  · exact hadded.results_step h (fun pid hpid => (hfind pid).2 (Or.inl hpid)) fun _ => (hfind _).2 (Or.inr rfl)

/-- **A step behind the first check** leaves the queue alone, or appends the lookup for a pid that has
stayed unknown until the thread had the lock for itself. -/
theorem Added.moves {new : List (Pid × PromiseId)} {i : ℕ} {c d : Thread Unit} (hhas : has i = false)
    (hinv : Synchronized.Inv (addCalls pids now) st₀ s) (hadded : Added pids has st₀ s new)
    (h : Moves (addCalls pids now) s s' i c d) : ∃ new', Added pids has st₀ s' new' := by
  obtain ⟨hstate, -, hresult⟩ | ⟨-, -, -, r, -, hcheck | ⟨rfl, hupdate⟩⟩ := h.effect
  · refine ⟨new, hadded.keep h (by rw [hstate]) (by rw [hstate]) (fun pid => by rw [hstate]) fun hd => ?_⟩
    apply hadded.results i
    rw [h.thread, Option.bind_some, ← hresult]
    exact hd
  · -- the pid is known
    obtain ⟨node, hnode, hs'⟩ := Option.map_eq_some_iff.1 hcheck
    have hstate : s'.state = { s.state with state_ := s.state.state_.recordAccess node.info_ (now i) } :=
      (congrArg Prod.fst hs').symm
    refine ⟨new, hadded.keep h (by rw [hstate]; rfl) (by rw [hstate]) (fun pid => ?_) fun _ => ?_⟩
    · rw [hstate]
      exact find_recordAccess s.state.state_ node.info_ (now i) pid
    · rw [hnode]
      rfl
  · have hnone : s.state.state_.find (pids i) = none := Option.map_eq_none_iff.1 (hinv.checked i h.thread)
    exact ⟨_, hadded.enqueue hhas h hnone (congrArg Prod.fst hupdate).symm⟩

/-- The locks and the queue behind any run. -/
theorem run_added {n : ℕ} {ops : List ℕ} {s : Adding} (h : run (addStep pids now has) (Adding.init st₀ n) ops = some s) :
    Synchronized.Inv (addCalls pids now) st₀ s.locked ∧ ∃ new, Added pids has st₀ s.locked new := by
  have hinit : Added pids has st₀ (Synchronized.init st₀ n) [] := by
    refine ⟨(List.append_nil _).symm, rfl, rfl, List.nodup_nil, by simp, fun pid => ?_, fun i hi => ?_⟩
    · simp [Synchronized.init]
    · exfalso
      rw [← (Synchronized.inv_init (addCalls pids now) st₀ n).linearizes.mem_iff] at hi
      cases hi
  refine run_invariant (I := fun s : Adding => Synchronized.Inv (addCalls pids now) st₀ s.locked ∧
    ∃ new, Added pids has st₀ s.locked new) ⟨Synchronized.inv_init (addCalls pids now) st₀ n, [], hinit⟩ ?_ ops h
  rintro s i s' ⟨hinv, new, hadded⟩ hs
  unfold addStep at hs
  split at hs
  · -- the cache answers, and the call returns in front of the lock
    rw [Option.ite_none_left_eq_some] at hs
    obtain rfl := Option.some.inj hs.2
    exact ⟨hinv, new, hadded⟩
  · rename_i hhas
    obtain ⟨locked, hlocked, rfl⟩ := Option.map_eq_some_iff.1 hs
    obtain ⟨c, d, hmoves⟩ := Synchronized.step_cases hlocked
    exact ⟨hinv.moves hmoves, hadded.moves (by simpa using hhas) hinv hmoves⟩

/-- **One lookup for a new pid.** Any number of threads call `add`, for any pids, in any interleaving,
and the thread-local cache answers some of them. The lookups that the others queue are for different
pids, with promises of their own, and only for pids that were not known and that one of them is for.
When one of them for such a pid has returned, its lookup is queued. -/
theorem add_queues_once (pids : ℕ → Pid) (now : ℕ → Time) (has : ℕ → Bool) (st₀ : AddState) (n : ℕ) (ops : List ℕ)
    (s : Adding) (h : run (addStep pids now has) (Adding.init st₀ n) ops = some s) :
    ∃ new : List (Pid × PromiseId), s.locked.state.state_.lookupQueue = st₀.state_.lookupQueue ++ new ∧
      (new.map Prod.fst).Nodup ∧ new.map Prod.snd = List.range' st₀.nextPromise new.length ∧
      (∀ pid ∈ new.map Prod.fst, st₀.state_.find pid = none ∧ ∃ i, has i = false ∧ pids i = pid) ∧
      ∀ i, has i = false → s.locked.threads[i]? = some (.returned ()) → st₀.state_.find (pids i) = none →
        pids i ∈ new.map Prod.fst := by
  obtain ⟨-, new, hadded⟩ := run_added h
  refine ⟨new, hadded.queue, hadded.nodup, hadded.promises, hadded.unknown, fun i _ hi hnone => ?_⟩
  have hresult := hadded.results i (by rw [hi]; rfl)
  obtain hknown | hmem := (hadded.known (pids i)).1 hresult
  · rw [hnone] at hknown
    cases hknown
  · exact hmem

/-- Two calls for one pid race, and a third one is answered by the cache of its thread. -/
theorem add_race_queues_once : ∃ s : Adding,
    run (addStep (fun _ => 7) (fun _ => 0) fun i => i == 2) (Adding.init ⟨⟨[], [], []⟩, 0⟩ 3) (2 :: race) = some s ∧
      s.cached = [2] ∧
      ∃ new : List (Pid × PromiseId), s.locked.state.state_.lookupQueue = new ∧ (new.map Prod.fst).Nodup := by
  have hrun : run (addStep (fun _ => 7) (fun _ => 0) fun i => i == 2) (Adding.init ⟨⟨[], [], []⟩, 0⟩ 3) (2 :: race) =
      some ⟨⟨⟨⟨[(7, ⟨0, 0⟩)], [(7, 0)], []⟩, 1⟩, 0, false, [.returned (), .returned (), .idle], [0, 1], [0]⟩, [2]⟩ := rfl
  obtain ⟨new, hqueue, hnodup, -⟩ :=
    add_queues_once (fun _ => 7) (fun _ => 0) (fun i => i == 2) ⟨⟨[], [], []⟩, 0⟩ 3 (2 :: race) _ hrun
  exact ⟨_, hrun, rfl, new, hqueue, hnodup⟩

/-! ### The callers of `ProcessInfoCache.step` -/

section Callers

variable {Info : Type}

/-- What the callers share with the threads in `add`. -/
def Sys.addState (sys : Sys Info) : AddState := ⟨sys.state_, sys.nextPromise⟩

/-- `add` under the read lock, when the pid is known: the call returns, and the state is that of its check. -/
theorem proceed_add_known (sys : Sys Info) (i : ℕ) (pid : Pid) (now : Time) {checked : AddState × Unit}
    (hcheck : (addCall pid now).check sys.addState = some checked) :
    ∃ sys', sys.proceed i (.add pid now) = some sys' ∧ sys'.addState = checked.1 := by
  obtain ⟨node, hnode, rfl⟩ := Option.map_eq_some_iff.1 hcheck
  have hfind : sys.state_.find pid = some node := hnode
  refine ⟨{ sys with state_ := sys.state_.recordAccess node.info_ now, callers := sys.callers.set i .returned }, ?_, rfl⟩
  simp [Sys.proceed, hfind]

/-- `add` under the read lock, when the pid is not known: the caller goes on to the write lock. -/
theorem proceed_add_unknown (sys : Sys Info) (i : ℕ) (pid : Pid) (now : Time)
    (hcheck : (addCall pid now).check sys.addState = none) :
    sys.proceed i (.add pid now) = some { sys with callers := sys.callers.set i (.addUpdate pid now) } := by
  have hfind : sys.state_.find pid = none := Option.map_eq_none_iff.1 hcheck
  simp [Sys.proceed, hfind]

/-- `add` under the write lock is the whole call in one piece. -/
theorem proceed_addUpdate (sys : Sys Info) (i : ℕ) (pid : Pid) (now : Time) :
    ∃ sys', sys.proceed i (.addUpdate pid now) = some sys' ∧
      sys'.addState = ((addCall pid now).atomic sys.addState).1 := by
  cases hfind : sys.state_.find pid with
  | none =>
    refine ⟨sys.enqueueLookup i pid now, by simp [Sys.proceed, hfind], ?_⟩
    simp [Call.atomic, addCall, Sys.addState, Sys.enqueueLookup, hfind]
  | some node =>
    refine ⟨{ sys with state_ := sys.state_.recordAccess node.info_ now, callers := sys.callers.set i .returned },
      by simp [Sys.proceed, hfind], ?_⟩
    simp [Call.atomic, addCall, Sys.addState, hfind]

/-- A call of `add` from its beginning to its last critical section acts as the call in one piece. -/
theorem run_add (expiry : Time) (sys : Sys Info) (pid : Pid) (now : Time) : ∃ ops sys',
    run (ProcessInfoCache.step expiry) sys ops = some sys' ∧
      sys'.addState = ((addCall pid now).atomic sys.addState).1 := by
  set k := sys.callers.length with hk
  set begun : Sys Info := { sys with callers := sys.callers ++ [.add pid now] } with hbegun
  have hbegin : ProcessInfoCache.step expiry sys (.add pid now false) = some begun := rfl
  have hcaller : begun.callers[k]? = some (.add pid now) := List.getElem?_concat_length
  have hproceed : ProcessInfoCache.step expiry begun (.proceed k) = begun.proceed k (.add pid now) := by
    rw [ProcessInfoCache.step, hcaller, Option.bind_some]
  cases hcheck : (addCall pid now).check sys.addState with
  | some checked =>
    obtain ⟨sys', hsys', hstate⟩ := proceed_add_known begun k pid now hcheck
    refine ⟨[.add pid now false, .proceed k], sys', ?_, ?_⟩
    · rw [run_cons hbegin, run_cons (hproceed.trans hsys'), run_nil]
    · rw [hstate, Call.atomic, hcheck]
  | none =>
    -- the caller looks again under the write lock, where nothing has come between
    have hread := hproceed.trans (proceed_add_unknown begun k pid now hcheck)
    set locked : Sys Info := { begun with callers := begun.callers.set k (.addUpdate pid now) } with hlocked
    have hk' : k < begun.callers.length := by simp [hbegun, hk]
    have hcaller' : locked.callers[k]? = some (.addUpdate pid now) := List.getElem?_set_self hk'
    obtain ⟨sys', hsys', hstate⟩ := proceed_addUpdate locked k pid now
    have hwrite : ProcessInfoCache.step expiry locked (.proceed k) = some sys' := by
      rw [ProcessInfoCache.step, hcaller', Option.bind_some, hsys']
    refine ⟨[.add pid now false, .proceed k, .proceed k], sys', ?_, hstate⟩
    rw [run_cons hbegin, run_cons hread, run_cons hwrite, run_nil]

/-- **The two models of `add` agree.** Whatever the threads in `add` do to the cache, its callers can do
to it in `ProcessInfoCache.step`. -/
theorem add_simulated (expiry : Time) (sys : Sys Info) (n : ℕ) (ops : List ℕ) (s : Adding)
    (h : run (addStep pids now has) (Adding.init sys.addState n) ops = some s) :
    ∃ ops' sys', run (ProcessInfoCache.step expiry) sys ops' = some sys' ∧ sys'.addState = s.locked.state := by
  have hstate := (run_added h).1.linearizes.state
  rw [← hstate]
  clear h hstate
  generalize s.locked.order = order
  -- one call after the other, in the order in which they came to their results
  induction order generalizing sys with
  | nil => exact ⟨[], sys, rfl, rfl⟩
  | cons i order ih =>
    obtain ⟨ops₁, sys₁, hrun₁, hstate₁⟩ := run_add expiry sys (pids i) (now i)
    obtain ⟨ops₂, sys₂, hrun₂, hstate₂⟩ := ih sys₁
    refine ⟨ops₁ ++ ops₂, sys₂, ?_, ?_⟩
    · rw [run_append, hrun₁, Option.bind_some, hrun₂]
    · rw [hstate₂, hstate₁]
      rfl

end Callers

end ProcessInfoCache

end EdenCommon
