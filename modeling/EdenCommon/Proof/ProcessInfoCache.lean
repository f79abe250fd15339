import EdenCommon.Lib.Fair
import EdenCommon.Lib.Run
import EdenCommon.Lib.Threads
import EdenCommon.Spec.ProcessInfoCache
import Mathlib.Data.List.GetD

/-!
# `ProcessInfoCache` loses no work

Every request is one count of the semaphore, posted or still owed. The worker takes one
count to wake and, behind the swap, at most one less than the batch it holds, so the
counts that are left cover the queue (`Inv.credit`). A count it takes may belong to a
newer request; then the count of an older one is still to come.

* `run_inv`: the accounting holds in every reachable state.
* `eventually_fulfilled`: along a fair run every request is answered.
-/

namespace EdenCommon

namespace ProcessInfoCache

variable {Info : Type} {expiry : Time} {s s' : Sys Info} {i : ℕ} {c d : Caller}

/-! ### What the accounting reads -/

/-- Everything the accounting reads, apart from the counts, is the same. -/
structure SameRequests (s s' : Sys Info) : Prop where
  lookupQueue : s'.state_.lookupQueue = s.state_.lookupQueue
  getAllQueue : s'.state_.getAllQueue = s.state_.getAllQueue
  worker : s'.worker = s.worker
  lookupResults : s'.lookupResults = s.lookupResults
  getAllResults : s'.getAllResults = s.getAllResults
  nextPromise : s'.nextPromise = s.nextPromise
  lookupsQueued : s'.lookupsQueued = s.lookupsQueued
  getAllsQueued : s'.getAllsQueued = s.getAllsQueued
  lookupsSwapped : s'.lookupsSwapped = s.lookupsSwapped
  getAllsSwapped : s'.getAllsSwapped = s.getAllsSwapped

/-- Only the infos, the count and the callers have changed. -/
theorem SameRequests.of_infos (s : Sys Info) (infos : List (Pid × Node)) (sem : ℕ) (callers : List Caller) :
    SameRequests s { s with state_ := { s.state_ with infos := infos }, sem_ := sem, callers := callers } :=
  ⟨rfl, rfl, rfl, rfl, rfl, rfl, rfl, rfl, rfl, rfl⟩

/-- **What a call does in its next step**: nothing to the accounts, queue a request, or
make the post it owes. -/
theorem proceed_cases (hi : s.callers[i]? = some c) (h : s.proceed i c = some s') :
    (SameRequests s s' ∧ s'.sem_ = s.sem_ ∧ s'.owed = s.owed) ∨
    (∃ pid now, s' = s.enqueueLookup i pid now ∧ s'.owed = s.owed + 1) ∨
    (s' = s.enqueueGetAll i ∧ s'.owed = s.owed + 1) ∨
    (c.owesPost = true ∧ SameRequests s s' ∧ s'.sem_ = s.sem_ + 1 ∧ s'.owed + 1 = s.owed) := by
  -- `hset` settles what is owed: the call is at `c` before the step and at `d` after it
  have hset := fun d : Caller => Lib.countP_set_add Caller.owesPost (d := d) hi
  cases c with
  | lookup pid now =>
    simp only [Sys.proceed] at h
    split at h
    · cases h
      exact .inl ⟨.of_infos s _ _ _, rfl, hset .returned⟩
    · cases h
      exact .inr (.inl ⟨pid, now, rfl, hset (.post none)⟩)
  | add pid now =>
    simp only [Sys.proceed] at h
    split at h
    · cases h
      exact .inl ⟨.of_infos s _ _ _, rfl, hset .returned⟩
    · cases h
      exact .inl ⟨.of_infos s _ _ _, rfl, hset (.addUpdate pid now)⟩
  | addUpdate pid now =>
    simp only [Sys.proceed] at h
    split at h
    · cases h
      exact .inl ⟨.of_infos s _ _ _, rfl, hset .returned⟩
    · cases h
      exact .inr (.inl ⟨pid, now, rfl, hset (.post none)⟩)
  | getAll =>
    simp only [Sys.proceed] at h
    cases h
    exact .inr (.inr (.inl ⟨rfl, hset (.post (some s.nextPromise))⟩))
  | post promise =>
    refine .inr (.inr (.inr ⟨rfl, ?_⟩))
    cases promise with
    | none =>
      cases h
      exact ⟨.of_infos s _ _ _, rfl, hset .returned⟩
    | some p =>
      cases h
      exact ⟨.of_infos s _ _ _, rfl, hset (.waiting p)⟩
  | waiting p =>
    simp only [Sys.proceed] at h
    split at h
    · cases h
      exact .inl ⟨.of_infos s _ _ _, rfl, hset .returned⟩
    · cases h
  | returned => cases h

/-- A new call owes no post. -/
theorem owed_append {callers : List Caller} (hc : c.owesPost = false) :
    (callers ++ [c]).countP Caller.owesPost = callers.countP Caller.owesPost := by
  simp [hc]

/-- **What a step outside the worker does.** -/
theorem caller_cases {op : Op Info} (hop : op.isWorker = false) (h : step expiry s op = some s') :
    (SameRequests s s' ∧ s'.sem_ = s.sem_ ∧ s'.owed = s.owed) ∨
    (∃ i pid now, s' = s.enqueueLookup i pid now ∧ s'.owed = s.owed + 1) ∨
    (∃ i, s' = s.enqueueGetAll i ∧ s'.owed = s.owed + 1) ∨
    (SameRequests s s' ∧ s'.sem_ = s.sem_ + 1 ∧ s'.owed + 1 = s.owed) := by
  cases op with
  | lookup pid now cached =>
    left
    cases cached with
    | some node => cases h; exact ⟨.of_infos s _ _ _, rfl, rfl⟩
    | none => cases h; exact ⟨.of_infos s _ _ _, rfl, owed_append rfl⟩
  | add pid now cached =>
    left
    cases cached with
    | true => cases h; exact ⟨.of_infos s _ _ _, rfl, rfl⟩
    | false => cases h; exact ⟨.of_infos s _ _ _, rfl, owed_append rfl⟩
  | getAllProcessInfos =>
    cases h
    exact .inl ⟨.of_infos s _ _ _, rfl, owed_append rfl⟩
  | proceed i =>
    obtain ⟨c, hi, hc⟩ := Option.bind_eq_some_iff.1 h
    rcases proceed_cases hi hc with h1 | ⟨pid, now, h2⟩ | h3 | ⟨-, h4⟩
    · exact .inl h1
    · exact .inr (.inl ⟨i, pid, now, h2⟩)
    · exact .inr (.inr (.inl ⟨i, h3⟩))
    · exact .inr (.inr (.inr h4))
  | _ => cases hop

/-! ### The accounting -/

/-- The count the worker has taken for a batch it has not swapped out yet. -/
def Worker.inHand : Worker Info → ℕ
  | .woken => 1
  | _ => 0

/-- The counts of the batch in hand that `tryWait` may still take. -/
def Worker.takes : Worker Info → ℕ
  | .swapped lookups gets _ => lookups.length + gets.length - 1
  | _ => 0

/-- **The accounting.** The counts that are there or owed cover the queue and what
`tryWait` may take; and every request is in one place only: the queue, the worker's
batch, or the results. -/
structure Inv (s : Sys Info) : Prop where
  credit : s.queued + s.worker.takes ≤ s.sem_ + s.owed + s.worker.inHand
  lookups : s.lookupsQueued = s.lookupsSwapped ++ s.state_.lookupQueue.map Prod.snd
  swappedLookups : s.lookupsSwapped = s.lookupResults.map Prod.fst ++ s.worker.pendingLookups
  getAlls : s.getAllsQueued = s.getAllsSwapped ++ s.state_.getAllQueue
  swappedGetAlls : s.getAllsSwapped = s.getAllResults.map Prod.fst ++ s.worker.pendingGetAlls
  nodupLookups : s.lookupsQueued.Nodup
  nodupGetAlls : s.getAllsQueued.Nodup
  fresh : ∀ p, p ∈ s.lookupsQueued ∨ p ∈ s.getAllsQueued → p < s.nextPromise

theorem inv_init : Inv (init : Sys Info) where
  credit := Nat.le_refl _
  lookups := rfl
  swappedLookups := rfl
  getAlls := rfl
  swappedGetAlls := rfl
  nodupLookups := List.nodup_nil
  nodupGetAlls := List.nodup_nil
  fresh := by simp [init]

theorem Inv.of_same (hinv : Inv s) (h : SameRequests s s') (hsem : s'.sem_ + s'.owed = s.sem_ + s.owed) :
    Inv s' := by
  obtain ⟨h1, h2, h3, h4, h5, h6, h7, h8⟩ := hinv
  refine ⟨?_, ?_, ?_, ?_, ?_, ?_, ?_, ?_⟩
  · rw [Sys.queued, h.lookupQueue, h.getAllQueue, h.worker, hsem]; exact h1
  · rw [h.lookupsQueued, h.lookupsSwapped, h.lookupQueue]; exact h2
  · rw [h.lookupsSwapped, h.lookupResults, h.worker]; exact h3
  · rw [h.getAllsQueued, h.getAllsSwapped, h.getAllQueue]; exact h4
  · rw [h.getAllsSwapped, h.getAllResults, h.worker]; exact h5
  · rw [h.lookupsQueued]; exact h6
  · rw [h.getAllsQueued]; exact h7
  · rw [h.lookupsQueued, h.getAllsQueued, h.nextPromise]; exact h8

theorem nodup_concat_fresh {ps : List PromiseId} {n : PromiseId} (h : ps.Nodup) (hlt : ∀ p ∈ ps, p < n) :
    (ps ++ [n]).Nodup := by
  refine List.nodup_append.2 ⟨h, List.nodup_cons.2 ⟨List.not_mem_nil, List.nodup_nil⟩, fun p hp q hq => ?_⟩
  rw [List.mem_singleton.1 hq]
  exact Nat.ne_of_lt (hlt p hp)

/-- A queued lookup brings the post its caller owes. -/
theorem Inv.enqueueLookup (hinv : Inv s) {pid : Pid} {now : Time}
    (howed : (s.enqueueLookup i pid now).owed = s.owed + 1) : Inv (s.enqueueLookup i pid now) := by
  obtain ⟨h1, h2, h3, h4, h5, h6, h7, h8⟩ := hinv
  refine ⟨?_, ?_, h3, h4, h5, ?_, h7, ?_⟩
  · rw [howed]
    simp only [Sys.queued, Sys.enqueueLookup, List.length_append, List.length_singleton] at h1 ⊢
    omega
  · simp only [Sys.enqueueLookup, h2, List.map_append, List.map_singleton, List.append_assoc]
  · exact nodup_concat_fresh h6 fun p hp => h8 p (.inl hp)
  · intro p hp
    simp only [Sys.enqueueLookup, List.mem_append, List.mem_singleton] at hp ⊢
    rcases hp with (hp | rfl) | hp
    · exact Nat.lt_succ_of_lt (h8 p (.inl hp))
    · exact Nat.lt_succ_self _
    · exact Nat.lt_succ_of_lt (h8 p (.inr hp))

theorem Inv.enqueueGetAll (hinv : Inv s) (howed : (s.enqueueGetAll i).owed = s.owed + 1) :
    Inv (s.enqueueGetAll i) := by
  obtain ⟨h1, h2, h3, h4, h5, h6, h7, h8⟩ := hinv
  refine ⟨?_, h2, h3, ?_, h5, h6, ?_, ?_⟩
  · rw [howed]
    simp only [Sys.queued, Sys.enqueueGetAll, List.length_append, List.length_singleton] at h1 ⊢
    omega
  · simp only [Sys.enqueueGetAll, h4, List.append_assoc]
  · exact nodup_concat_fresh h7 fun p hp => h8 p (.inr hp)
  · intro p hp
    simp only [Sys.enqueueGetAll, List.mem_append, List.mem_singleton] at hp ⊢
    rcases hp with hp | hp | rfl
    · exact Nat.lt_succ_of_lt (h8 p (.inl hp))
    · exact Nat.lt_succ_of_lt (h8 p (.inr hp))
    · exact Nat.lt_succ_self _

theorem Inv.caller (hinv : Inv s) {op : Op Info} (hop : op.isWorker = false)
    (h : step expiry s op = some s') : Inv s' := by
  rcases caller_cases hop h with ⟨h1, h2, h3⟩ | ⟨i, pid, now, rfl, h2⟩ | ⟨i, rfl, h2⟩ | ⟨h1, h2, h3⟩
  · exact hinv.of_same h1 (by rw [h2, h3])
  · exact hinv.enqueueLookup h2
  · exact hinv.enqueueGetAll h2
  · exact hinv.of_same h1 (by omega)

/-! ### The worker -/

/-- **What a step of the worker does**, phase by phase. The infos and `waterLevel` do not
count. -/
inductive WorkerStep (s s' : Sys Info) : Prop
  | wait (hw : s.worker = .wait) (hsem : 0 < s.sem_) (h : s' = { s with sem_ := s.sem_ - 1, worker := .woken })
  | swap (n : ℕ) (hw : s.worker = .woken)
      (h : s' = { s with
        state_ := { s.state_ with lookupQueue := [], getAllQueue := [] }
        worker := .swapped s.state_.lookupQueue s.state_.getAllQueue n
        lookupsSwapped := s.lookupsSwapped ++ s.state_.lookupQueue.map Prod.snd
        getAllsSwapped := s.getAllsSwapped ++ s.state_.getAllQueue })
  | tryWait (lookups : List (Pid × PromiseId)) (gets : List PromiseId) (n taken : ℕ)
      (hw : s.worker = .swapped lookups gets n) (htaken : taken ≤ lookups.length + gets.length - 1)
      (hsem : taken ≤ s.sem_)
      (h : s' = { s with sem_ := s.sem_ - taken, worker := .reading lookups lookups.length gets n })
  | readInfo (pid : Pid) (p : PromiseId) (todo : List (Pid × PromiseId)) (size : ℕ) (gets : List PromiseId) (n : ℕ)
      (result : Option Info) (hw : s.worker = .reading ((pid, p) :: todo) size gets n)
      (h : s' = { s with
        lookupResults := s.lookupResults ++ [(p, result)], worker := .reading todo size gets n })
  | expire (size : ℕ) (gets : List PromiseId) (n : ℕ) (now : Time) (infos : List (Pid × Node)) (water : ℕ)
      (hw : s.worker = .reading [] size gets n)
      (h : s' = { s with
        state_ := { s.state_ with infos := infos }, waterLevel := water
        worker := if gets = [] then .wait else .collecting now gets })
  | collect (now : Time) (gets : List PromiseId) (infos : List (Pid × Node)) (all : List (Pid × Info))
      (hw : s.worker = .collecting now gets)
      (h : s' = { s with state_ := { s.state_ with infos := infos }, worker := .answering all gets })
  | answer (all : List (Pid × Info)) (p : PromiseId) (todo : List PromiseId)
      (hw : s.worker = .answering all (p :: todo))
      (h : s' = { s with getAllResults := s.getAllResults ++ [(p, all)], worker := .answering all todo })
  | finish (all : List (Pid × Info)) (hw : s.worker = .answering all []) (h : s' = { s with worker := .wait })

theorem worker_cases {op : Op Info} (hop : op.isWorker = true) (h : step expiry s op = some s') :
    WorkerStep s s' := by
  cases op with
  | wait =>
    simp only [step] at h
    split at h
    · rename_i hw
      split at h
      · cases h; exact .wait hw (by assumption) rfl
      · cases h
    · cases h
  | swap =>
    simp only [step] at h
    split at h
    · rename_i hw; cases h; exact .swap _ hw rfl
    · cases h
  | tryWait taken =>
    simp only [step] at h
    split at h
    · rename_i hw
      split at h
      · rename_i hle; cases h; exact .tryWait _ _ _ taken hw hle.1 hle.2 rfl
      · cases h
    · cases h
  | readInfo result =>
    simp only [step] at h
    split at h
    · rename_i hw; cases h; exact .readInfo _ _ _ _ _ _ result hw rfl
    · cases h
  | expire now =>
    simp only [step] at h
    split at h
    · rename_i hw
      cases h
      unfold Sys.expire
      split
      · exact .expire _ _ _ now _ _ hw rfl
      · exact .expire _ _ _ now s.state_.infos _ hw rfl
    · cases h
  | collect =>
    simp only [step] at h
    split at h
    · rename_i hw; cases h; exact .collect _ _ _ _ hw rfl
    · cases h
  | answer =>
    simp only [step] at h
    split at h
    · rename_i hw; cases h; exact .answer _ _ _ hw rfl
    · rename_i hw; cases h; exact .finish _ hw rfl
    · cases h
  | _ => cases hop

theorem Inv.worker (hinv : Inv s) (h : WorkerStep s s') : Inv s' := by
  obtain ⟨h1, h2, h3, h4, h5, h6, h7, h8⟩ := hinv
  cases h with
  | wait hw hsem h =>
    -- the count taken is in hand
    subst h
    rw [hw] at h1 h3 h5
    refine ⟨?_, h2, h3, h4, h5, h6, h7, h8⟩
    simp only [Worker.takes, Worker.inHand, Sys.queued, Sys.owed] at h1 ⊢
    omega
  | swap n hw h =>
    -- the count in hand pays for one request of the batch
    subst h
    rw [hw] at h1 h3 h5
    simp only [Worker.pendingLookups, Worker.pendingGetAlls, List.append_nil] at h3 h5
    refine ⟨?_, ?_, ?_, ?_, ?_, h6, h7, h8⟩
    · simp only [Worker.takes, Worker.inHand, Sys.queued, Sys.owed, List.length_nil] at h1 ⊢
      omega
    · simp only [h2, List.map_nil, List.append_nil]
    · simp only [h3, Worker.pendingLookups]
    · simp only [h4, List.append_nil]
    · simp only [h5, Worker.pendingGetAlls]
  | tryWait lookups gets n taken hw htaken hsem h =>
    -- what is taken was set aside for the rest of the batch
    subst h
    rw [hw] at h1 h3 h5
    refine ⟨?_, h2, h3, h4, h5, h6, h7, h8⟩
    simp only [Worker.takes, Worker.inHand, Sys.queued, Sys.owed] at h1 ⊢
    omega
  | readInfo pid p todo size gets n result hw h =>
    subst h
    rw [hw] at h1 h3 h5
    refine ⟨h1, h2, ?_, h4, h5, h6, h7, h8⟩
    simp only [h3, Worker.pendingLookups, List.map_append, List.map_cons, List.map_nil, List.append_assoc,
      List.singleton_append]
  | expire size gets n now infos water hw h =>
    subst h
    rw [hw] at h1 h3 h5
    by_cases hg : gets = []
    · subst hg
      exact ⟨h1, h2, h3, h4, h5, h6, h7, h8⟩
    · simp only [if_neg hg]
      exact ⟨h1, h2, h3, h4, h5, h6, h7, h8⟩
  | collect now gets infos all hw h =>
    subst h
    rw [hw] at h1 h3 h5
    exact ⟨h1, h2, h3, h4, h5, h6, h7, h8⟩
  | answer all p todo hw h =>
    subst h
    rw [hw] at h1 h3 h5
    refine ⟨h1, h2, h3, h4, ?_, h6, h7, h8⟩
    simp only [h5, Worker.pendingGetAlls, List.map_append, List.map_cons, List.map_nil, List.append_assoc,
      List.singleton_append]
  | finish all hw h =>
    subst h
    rw [hw] at h1 h3 h5
    exact ⟨h1, h2, h3, h4, h5, h6, h7, h8⟩

theorem Inv.step (hinv : Inv s) {op : Op Info} (h : step expiry s op = some s') : Inv s' := by
  cases hop : op.isWorker with
  | false => exact hinv.caller hop h
  | true => exact hinv.worker (worker_cases hop h)

/-- **The accounting holds in every reachable state.** -/
theorem run_inv (ops : List (Op Info)) (h : Lib.run (ProcessInfoCache.step expiry) init ops = some s) : Inv s :=
  Lib.run_invariant inv_init (fun _ _ _ hinv hstep => hinv.step hstep) ops h

/-! ### Where a request is -/

/-- A queued lookup or a queued `getAllProcessInfos`, by its promise. -/
inductive Request
  | lookup (p : PromiseId)
  | getAll (p : PromiseId)

def Sys.Requested (s : Sys Info) : Request → Prop
  | .lookup p => p ∈ s.lookupsQueued
  | .getAll p => p ∈ s.getAllsQueued

def Sys.InQueue (s : Sys Info) : Request → Prop
  | .lookup p => p ∈ s.state_.lookupQueue.map Prod.snd
  | .getAll p => p ∈ s.state_.getAllQueue

def Sys.InBatch (s : Sys Info) : Request → Prop
  | .lookup p => p ∈ s.worker.pendingLookups
  | .getAll p => p ∈ s.worker.pendingGetAlls

def Sys.Fulfilled (s : Sys Info) : Request → Prop
  | .lookup p => p ∈ s.lookupResults.map Prod.fst
  | .getAll p => p ∈ s.getAllResults.map Prod.fst

variable {r : Request}

theorem Inv.place (hinv : Inv s) (h : s.Requested r) : s.Fulfilled r ∨ s.InBatch r ∨ s.InQueue r := by
  cases r with
  | lookup p =>
    simp only [Sys.Requested, hinv.lookups, hinv.swappedLookups, List.mem_append, or_assoc] at h
    exact h
  | getAll p =>
    simp only [Sys.Requested, hinv.getAlls, hinv.swappedGetAlls, List.mem_append, or_assoc] at h
    exact h

theorem inQueue_congr (hlookups : s'.state_.lookupQueue = s.state_.lookupQueue)
    (hgets : s'.state_.getAllQueue = s.state_.getAllQueue) (h : s.InQueue r) : s'.InQueue r := by
  cases r with
  | lookup p => unfold Sys.InQueue; rw [hlookups]; exact h
  | getAll p => unfold Sys.InQueue; rw [hgets]; exact h

theorem queued_pos (h : s.InQueue r) : 0 < s.queued := by
  unfold Sys.queued
  cases r with
  | lookup p =>
    have := List.length_pos_of_mem h
    rw [List.length_map] at this
    omega
  | getAll p =>
    have := List.length_pos_of_mem h
    omega

/-- A caller leaves the worker alone and takes nothing out of the queue. -/
theorem caller_keeps {op : Op Info} (hop : op.isWorker = false) (h : step expiry s op = some s') :
    s'.worker = s.worker ∧ s.sem_ ≤ s'.sem_ ∧ (s.InQueue r → s'.InQueue r) := by
  rcases caller_cases hop h with ⟨h1, h2, -⟩ | ⟨i, pid, now, rfl, -⟩ | ⟨i, rfl, -⟩ | ⟨h1, h2, -⟩
  · exact ⟨h1.worker, Nat.le_of_eq h2.symm, inQueue_congr h1.lookupQueue h1.getAllQueue⟩
  · refine ⟨rfl, Nat.le_refl _, fun hq => ?_⟩
    cases r with
    | lookup p => simp only [Sys.InQueue, Sys.enqueueLookup, List.map_append, List.mem_append]; exact .inl hq
    | getAll p => exact hq
  · refine ⟨rfl, Nat.le_refl _, fun hq => ?_⟩
    cases r with
    | lookup p => exact hq
    | getAll p => simp only [Sys.InQueue, Sys.enqueueGetAll, List.mem_append]; exact .inl hq
  · exact ⟨h1.worker, by omega, inQueue_congr h1.lookupQueue h1.getAllQueue⟩

/-- The steps the worker has left before it waits again. -/
def Worker.rank : Worker Info → ℕ
  | .wait | .woken => 0
  | .swapped lookups gets _ => lookups.length + gets.length + 4
  | .reading todo _ gets _ => todo.length + gets.length + 3
  | .collecting _ gets => gets.length + 2
  | .answering _ todo => todo.length + 1

/-- A step of a busy worker brings it closer to the end of its turn and takes nothing
out of the queue. -/
theorem WorkerStep.busy (h : WorkerStep s s') (hw : 0 < s.worker.rank) :
    s'.worker.rank < s.worker.rank ∧ s'.worker ≠ .woken ∧ (s.InQueue r → s'.InQueue r) := by
  cases h with
  | wait hw' hsem h => rw [hw'] at hw; exact absurd hw (Nat.lt_irrefl 0)
  | swap n hw' h => rw [hw'] at hw; exact absurd hw (Nat.lt_irrefl 0)
  | tryWait lookups gets n taken hw' htaken hsem h =>
    subst h; rw [hw']
    exact ⟨Nat.lt_succ_self _, nofun, inQueue_congr rfl rfl⟩
  | readInfo pid p todo size gets n result hw' h =>
    subst h; rw [hw']
    refine ⟨?_, nofun, inQueue_congr rfl rfl⟩
    simp only [Worker.rank, List.length_cons]
    omega
  | expire size gets n now infos water hw' h =>
    subst h; rw [hw']
    by_cases hg : gets = []
    · -- no `getAllProcessInfos` in the batch: the turn is over
      subst hg
      exact ⟨by simp [Worker.rank], by simp, inQueue_congr rfl rfl⟩
    · simp only [if_neg hg]
      exact ⟨by simp [Worker.rank], nofun, inQueue_congr rfl rfl⟩
  | collect now gets infos all hw' h =>
    subst h; rw [hw']
    exact ⟨Nat.lt_succ_self _, nofun, inQueue_congr rfl rfl⟩
  | answer all p todo hw' h =>
    subst h; rw [hw']
    exact ⟨Nat.lt_succ_self _, nofun, inQueue_congr rfl rfl⟩
  | finish all hw' h =>
    subst h; rw [hw']
    exact ⟨Nat.lt_succ_self _, nofun, inQueue_congr rfl rfl⟩

/-- A step of the worker answers a request of its batch or keeps it. -/
theorem WorkerStep.batch (h : WorkerStep s s') (hr : s.InBatch r) : s'.Fulfilled r ∨ s'.InBatch r := by
  cases h with
  | wait hw hsem h => cases r <;> simp [Sys.InBatch, hw, Worker.pendingLookups, Worker.pendingGetAlls] at hr
  | swap n hw h => cases r <;> simp [Sys.InBatch, hw, Worker.pendingLookups, Worker.pendingGetAlls] at hr
  | tryWait lookups gets n taken hw htaken hsem h =>
    subst h
    right
    cases r <;> simp only [Sys.InBatch, hw] at hr <;> exact hr
  | readInfo pid p todo size gets n result hw h =>
    subst h
    cases r with
    | lookup q =>
      simp only [Sys.InBatch, hw, Worker.pendingLookups, List.map_cons, List.mem_cons] at hr
      rcases hr with rfl | hr
      · left; simp [Sys.Fulfilled]
      · exact .inr hr
    | getAll q =>
      simp only [Sys.InBatch, hw] at hr
      exact .inr hr
  | expire size gets n now infos water hw h =>
    subst h
    right
    cases r with
    | lookup q => simp [Sys.InBatch, hw, Worker.pendingLookups] at hr
    | getAll q =>
      simp only [Sys.InBatch, hw, Worker.pendingGetAlls] at hr
      simp only [Sys.InBatch, if_neg (List.ne_nil_of_mem hr)]
      exact hr
  | collect now gets infos all hw h =>
    subst h
    right
    cases r <;> simp only [Sys.InBatch, hw] at hr <;> exact hr
  | answer all p todo hw h =>
    subst h
    cases r with
    | lookup q => simp [Sys.InBatch, hw, Worker.pendingLookups] at hr
    | getAll q =>
      simp only [Sys.InBatch, hw, Worker.pendingGetAlls, List.mem_cons] at hr
      rcases hr with rfl | hr
      · left; simp [Sys.Fulfilled]
      · exact .inr hr
  | finish all hw h => cases r <;> simp [Sys.InBatch, hw, Worker.pendingLookups, Worker.pendingGetAlls] at hr

theorem rank_pos_of_inBatch (h : s.InBatch r) : 0 < s.worker.rank := by
  cases r <;> cases hw : s.worker <;>
    simp_all [Sys.InBatch, Worker.pendingLookups, Worker.pendingGetAlls, Worker.rank]

/-- The swap takes the whole queue. -/
theorem WorkerStep.swap_takes (h : WorkerStep s s') (hw : s.worker = .woken) (hr : s.InQueue r) : s'.InBatch r := by
  cases h with
  | swap n _ h => subst h; cases r <;> exact hr
  | _ => simp_all

theorem WorkerStep.wakes (h : WorkerStep s s') (hw : s.worker = .wait) (hr : s.InQueue r) :
    s'.worker = .woken ∧ s'.InQueue r := by
  cases h with
  | wait _ _ h => subst h; exact ⟨rfl, inQueue_congr rfl rfl hr⟩
  | _ => simp_all

/-! ### Fair runs -/

theorem proceed_callers (h : s.proceed i c = some s') : ∃ d, s'.callers = s.callers.set i d := by
  unfold Sys.proceed at h
  repeat' split at h
  all_goals cases h <;> exact ⟨_, rfl⟩

theorem proceed_post {p : Option PromiseId} (h : s.proceed i (.post p) = some s') : s'.sem_ = s.sem_ + 1 := by
  cases p <;> (cases h; rfl)

/-- Nobody moves a call but its own thread. -/
theorem callers_keep {op : Op Info} (h : step expiry s op = some s') (hi : s.callers[i]? = some c)
    (hop : op ≠ .proceed i) : s'.callers[i]? = some c := by
  have happend : ∀ d, (s.callers ++ [d])[i]? = some c := fun d => by
    rw [List.getElem?_append_left (List.getElem?_eq_some_iff.1 hi).1]; exact hi
  cases hw : op.isWorker with
  | true =>
    cases worker_cases hw h with
    | wait _ _ h | swap _ _ h | tryWait _ _ _ _ _ _ _ h | readInfo _ _ _ _ _ _ _ _ h | expire _ _ _ _ _ _ _ h
    | collect _ _ _ _ _ h | answer _ _ _ _ h | finish _ _ h => subst h; exact hi
  | false =>
    cases op with
    | lookup pid now cached =>
      cases cached with
      | some node => cases h; exact hi
      | none => cases h; exact happend _
    | add pid now cached =>
      cases cached with
      | true => cases h; exact hi
      | false => cases h; exact happend _
    | getAllProcessInfos => cases h; exact happend _
    | proceed j =>
      obtain ⟨d, hj, hd⟩ := Option.bind_eq_some_iff.1 h
      obtain ⟨d', hset⟩ := proceed_callers hd
      rw [hset, List.getElem?_set_ne (fun he => hop (by rw [he]))]
      exact hi
    | _ => cases hw

/-- The worker can take a step. -/
def WorkerEnabled (expiry : Time) (s : Sys Info) : Prop :=
  ∃ op : Op Info, op.isWorker = true ∧ (step expiry s op).isSome

theorem workerEnabled (h : s.worker = .wait → 0 < s.sem_) : WorkerEnabled expiry s := by
  cases hw : s.worker with
  | wait => exact ⟨.wait, rfl, by simp [step, hw, h hw]⟩
  | woken => exact ⟨.swap, rfl, by simp [step, hw]⟩
  | swapped lookups gets n => exact ⟨.tryWait 0, rfl, by simp [step, hw]⟩
  | reading todo size gets n =>
    cases todo with
    | nil => exact ⟨.expire 0, rfl, by simp [step, hw]⟩
    | cons e todo => exact ⟨.readInfo none, rfl, by simp [step, hw]⟩
  | collecting now gets => exact ⟨.collect, rfl, by simp [step, hw]⟩
  | answering all todo => cases todo <;> exact ⟨.answer, rfl, by simp [step, hw]⟩

/-- **An infinite run that is fair** to the worker and to every thread that owes a post. -/
structure FairRun (expiry : Time) (σ : ℕ → Sys Info) (op : ℕ → Op Info) : Prop where
  start : σ 0 = init
  next : ∀ t, step expiry (σ t) (op t) = some (σ (t + 1))
  posts : ∀ i, Lib.WeaklyFair (fun t => ∃ p, (σ t).callers[i]? = some (.post p)) fun t => op t = .proceed i
  worker : Lib.WeaklyFair (fun t => WorkerEnabled expiry (σ t)) fun t => (op t).isWorker = true

variable {σ : ℕ → Sys Info} {op : ℕ → Op Info}

theorem FairRun.inv (h : FairRun expiry σ op) (t : ℕ) : Inv (σ t) := by
  induction t with
  | zero => rw [h.start]; exact inv_init
  | succ t ih => exact ih.step (h.next t)

/-- A busy worker takes its next step; till then nothing leaves the queue. -/
theorem FairRun.busy_step (h : FairRun expiry σ op) {t : ℕ} {w : Worker Info} (hw : (σ t).worker = w)
    (hrank : w = .wait → 0 < (σ t).sem_) :
    ∃ t', t ≤ t' ∧ (σ t').worker = w ∧ ((σ t).InQueue r → (σ t').InQueue r) ∧ WorkerStep (σ t') (σ (t' + 1)) := by
  obtain ⟨t', h1, ⟨h2, -, h3⟩, h4⟩ := h.worker.first
    (P := fun u => (σ u).worker = w ∧ (w = .wait → 0 < (σ u).sem_) ∧ ((σ t).InQueue r → (σ u).InQueue r))
    (fun u hu => workerEnabled fun he => hu.2.1 (hu.1 ▸ he))
    (fun u hu hno => by
      obtain ⟨k1, k2, k3⟩ := caller_keeps (r := r) (by simpa using hno) (h.next u)
      exact ⟨k1.trans hu.1, fun he => Nat.lt_of_lt_of_le (hu.2.1 he) k2, fun hq => k3 (hu.2.2 hq)⟩)
    (t := t) ⟨hw, hrank, id⟩
  exact ⟨t', h1, h2, h3, worker_cases h4 (h.next t')⟩

/-- What the worker has swapped out it answers. -/
theorem FairRun.batch_fulfilled (h : FairRun expiry σ op) :
    ∀ t, (σ t).InBatch r → ∃ t', t ≤ t' ∧ (σ t').Fulfilled r := by
  refine Lib.eventually_of_measure (fun t => (σ t).worker.rank) fun t ht => ?_
  have hpos := rank_pos_of_inBatch ht
  have hne : (σ t).worker ≠ .wait := fun he => by rw [he] at hpos; exact absurd hpos (Nat.lt_irrefl 0)
  obtain ⟨t', h1, h2, -, h3⟩ := h.busy_step (r := r) rfl fun he => absurd he hne
  have ht' : (σ t').InBatch r := by cases r <;> simpa only [Sys.InBatch, h2] using ht
  rcases h3.batch ht' with hf | hb
  · exact .inl ⟨t' + 1, by omega, hf⟩
  · refine .inr ⟨t' + 1, by omega, hb, ?_⟩
    have := (h3.busy (r := r) (by rw [h2]; exact hpos)).1
    rwa [h2] at this

/-- A worker that has been woken takes the queue. -/
theorem FairRun.woken_fulfilled (h : FairRun expiry σ op) {t : ℕ} (hw : (σ t).worker = .woken)
    (hr : (σ t).InQueue r) : ∃ t', t ≤ t' ∧ (σ t').Fulfilled r := by
  obtain ⟨t', h1, h2, h3, h4⟩ := h.busy_step (r := r) hw nofun
  obtain ⟨t'', h5, h6⟩ := h.batch_fulfilled (t' + 1) (h4.swap_takes h2 (h3 hr))
  exact ⟨t'', by omega, h6⟩

/-- A worker that waits with a count to take wakes. -/
theorem FairRun.counted_fulfilled (h : FairRun expiry σ op) {t : ℕ} (hw : (σ t).worker = .wait)
    (hsem : 0 < (σ t).sem_) (hr : (σ t).InQueue r) : ∃ t', t ≤ t' ∧ (σ t').Fulfilled r := by
  obtain ⟨t', h1, h2, h3, h4⟩ := h.busy_step (r := r) hw fun _ => hsem
  obtain ⟨h5, h6⟩ := h4.wakes h2 (h3 hr)
  obtain ⟨t'', h7, h8⟩ := h.woken_fulfilled h5 h6
  exact ⟨t'', by omega, h8⟩

/-- **A worker that waits while work is queued does not sleep forever**: a count is
there, or a thread is about to post one. -/
theorem FairRun.waiting_fulfilled (h : FairRun expiry σ op) {t : ℕ} (hw : (σ t).worker = .wait)
    (hr : (σ t).InQueue r) : ∃ t', t ≤ t' ∧ (σ t').Fulfilled r := by
  have hcredit := (h.inv t).credit
  have hq := queued_pos hr
  rw [hw] at hcredit
  simp only [Worker.takes, Worker.inHand] at hcredit
  by_cases hsem : 0 < (σ t).sem_
  · exact h.counted_fulfilled hw hsem hr
  -- no count is there, so a thread owes one
  have howed : 0 < (σ t).owed := by omega
  obtain ⟨c, hc, hpost⟩ := List.countP_pos_iff.1 howed
  obtain ⟨i, hi⟩ := List.mem_iff_getElem?.1 hc
  obtain ⟨p, rfl⟩ : ∃ p, c = .post p := by
    cases c with
    | post p => exact ⟨p, rfl⟩
    | _ => cases hpost
  -- till the thread posts, or the worker wakes by another post, nothing changes for it
  have hfair : Lib.WeaklyFair _ fun u => op u = .proceed i ∨ (op u).isWorker = true :=
    (h.posts i).mono fun u => .inl
  obtain ⟨t', h1, ⟨h2, h3, h4⟩, h5⟩ := hfair.first
    (P := fun u => (σ u).worker = .wait ∧ (σ u).InQueue r ∧ (σ u).callers[i]? = some (.post p))
    (fun u hu => ⟨p, hu.2.2⟩)
    (fun u hu hno => by
      obtain ⟨hno1, hno2⟩ := not_or.1 hno
      obtain ⟨k1, -, k3⟩ := caller_keeps (r := r) (by simpa using hno2) (h.next u)
      exact ⟨k1.trans hu.1, k3 hu.2.1, callers_keep (h.next u) hu.2.2 hno1⟩)
    (t := t) ⟨hw, hr, hi⟩
  rcases h5 with hop | hop
  · have hnext := h.next t'
    rw [hop] at hnext
    obtain ⟨k1, -, k3⟩ := caller_keeps (r := r) rfl hnext
    obtain ⟨c, hc, hstep⟩ := Option.bind_eq_some_iff.1 hnext
    obtain rfl : Caller.post p = c := Option.some.inj (h4.symm.trans hc)
    have hsem' : 0 < (σ (t' + 1)).sem_ := by
      rw [proceed_post hstep]; exact Nat.succ_pos _
    obtain ⟨t'', h7, h8⟩ := h.counted_fulfilled (k1.trans h2) hsem' (k3 h3)
    exact ⟨t'', by omega, h8⟩
  · obtain ⟨h6, h7⟩ := (worker_cases hop (h.next t')).wakes h2 h3
    obtain ⟨t'', h8, h9⟩ := h.woken_fulfilled h6 h7
    exact ⟨t'', by omega, h9⟩

/-- A request that the worker is too busy to take is taken in its next turn. -/
theorem FairRun.queue_fulfilled (h : FairRun expiry σ op) :
    ∀ t, (σ t).InQueue r → ∃ t', t ≤ t' ∧ (σ t').Fulfilled r := by
  refine Lib.eventually_of_measure (fun t => (σ t).worker.rank) fun t ht => ?_
  by_cases hwait : (σ t).worker = .wait
  · exact .inl (h.waiting_fulfilled hwait ht)
  by_cases hwoken : (σ t).worker = .woken
  · exact .inl (h.woken_fulfilled hwoken ht)
  have hpos : 0 < (σ t).worker.rank := by
    cases hw : (σ t).worker <;> simp_all [Worker.rank]
  obtain ⟨t', h1, h2, h3, h4⟩ := h.busy_step (r := r) rfl fun he => absurd he hwait
  obtain ⟨h5, -, h6⟩ := h4.busy (r := r) (by rw [h2]; exact hpos)
  exact .inr ⟨t' + 1, by omega, h6 (h3 ht), by rwa [h2] at h5⟩

/-- **Along a fair run every request is answered.** -/
theorem eventually_fulfilled (h : FairRun expiry σ op) (t : ℕ) (hr : (σ t).Requested r) :
    ∃ t', t ≤ t' ∧ (σ t').Fulfilled r := by
  rcases (h.inv t).place hr with hf | hb | hq
  · exact ⟨t, Nat.le_refl _, hf⟩
  · exact h.batch_fulfilled t hb
  · exact h.queue_fulfilled t hq

/-- A run that ends with nobody about to post and the worker asleep is fair: from then on
threads whose pid is cached may call `add` forever. -/
theorem FairRun.of_run {ops : List (Op Info)} (hrun : Lib.run (step expiry) init ops = some s)
    (hposts : ∀ (i : ℕ) (p : Option PromiseId), s.callers[i]? ≠ some (.post p)) (hw : s.worker = .wait) (hsem : s.sem_ = 0) :
    ∃ σ op, FairRun expiry σ op ∧ σ ops.length = s := by
  -- `σ t` is the state after `t` steps of the run, and `s` from its end on
  have hpre : ∀ t, ∃ s', Lib.run (step expiry) init (ops.take t) = some s' := by
    intro t
    have := hrun
    rw [← List.take_append_drop t ops, Lib.run_append] at this
    obtain ⟨s', h1, -⟩ := Option.bind_eq_some_iff.1 this
    exact ⟨s', h1⟩
  choose σ hσ using hpre
  have hend : ∀ t, ops.length ≤ t → σ t = s := by
    intro t ht
    have := hσ t
    rw [List.take_of_length_le ht, hrun] at this
    exact (Option.some.inj this).symm
  -- after the end neither fairness condition asks for anything
  have hasleep : ¬ WorkerEnabled expiry s := by
    rintro ⟨op, hop, henabled⟩
    obtain ⟨s', hs'⟩ := Option.isSome_iff_exists.1 henabled
    cases worker_cases hop hs' with
    | wait _ hpos _ => omega
    | _ => simp_all
  refine ⟨σ, fun t => ops.getD t (.add 0 0 true), ⟨?_, fun t => ?_, fun i t he => ?_, fun t he => ?_⟩, hend _ (Nat.le_refl _)⟩
  · have := hσ 0
    rw [List.take_zero] at this
    exact (Option.some.inj this).symm
  · by_cases ht : t < ops.length
    · have h1 := hσ (t + 1)
      rw [List.take_succ_eq_append_getElem ht, Lib.run_concat, hσ t] at h1
      rw [List.getD_eq_getElem _ _ ht]
      exact h1
    · have hle : ops.length ≤ t := Nat.le_of_not_lt ht
      rw [hend t hle, hend (t + 1) (Nat.le_succ_of_le hle), List.getD_eq_default _ _ hle]
      rfl
  · obtain ⟨p, hp⟩ := he (max t ops.length) (Nat.le_max_left _ _)
    rw [hend _ (Nat.le_max_right _ _)] at hp
    exact absurd hp (hposts i p)
  · have henabled : WorkerEnabled expiry (σ (max t ops.length)) := he _ (Nat.le_max_left _ _)
    rw [hend _ (Nat.le_max_right _ _)] at henabled
    exact absurd henabled hasleep

/-- **`ProcessInfoCache` loses no work.** In every reachable state the counts there and
owed cover the queue whenever the worker waits; every request is swapped out and
answered at most once, in the order of its queue; and along a fair run it is answered. -/
theorem no_lost_work (expiry : Time) :
    (∀ (ops : List (Op Info)) (s : Sys Info), Lib.run (step expiry) init ops = some s →
      (s.worker = .wait → s.queued ≤ s.sem_ + s.owed) ∧
      (s.lookupsQueued.Nodup ∧ s.lookupsQueued = s.lookupsSwapped ++ s.state_.lookupQueue.map Prod.snd ∧
        s.lookupsSwapped = s.lookupResults.map Prod.fst ++ s.worker.pendingLookups) ∧
      (s.getAllsQueued.Nodup ∧ s.getAllsQueued = s.getAllsSwapped ++ s.state_.getAllQueue ∧
        s.getAllsSwapped = s.getAllResults.map Prod.fst ++ s.worker.pendingGetAlls)) ∧
    ∀ (σ : ℕ → Sys Info) (op : ℕ → Op Info), FairRun expiry σ op → ∀ t,
      (∀ p ∈ (σ t).lookupsQueued, ∃ t', t ≤ t' ∧ p ∈ (σ t').lookupResults.map Prod.fst) ∧
      ∀ p ∈ (σ t).getAllsQueued, ∃ t', t ≤ t' ∧ p ∈ (σ t').getAllResults.map Prod.fst := by
  refine ⟨fun ops s hrun => ?_, fun σ op h t => ?_⟩
  · have hinv := run_inv ops hrun
    refine ⟨fun hw => ?_, ⟨hinv.nodupLookups, hinv.lookups, hinv.swappedLookups⟩,
      hinv.nodupGetAlls, hinv.getAlls, hinv.swappedGetAlls⟩
    have := hinv.credit
    rw [hw] at this
    simp only [Worker.takes, Worker.inHand] at this
    omega
  · exact ⟨fun p hp => eventually_fulfilled (r := .lookup p) h t hp,
      fun p hp => eventually_fulfilled (r := .getAll p) h t hp⟩

/-- One call of `getAllProcessInfos`, answered. -/
def oneGetAll : List (Op ℕ) :=
  [.getAllProcessInfos, .proceed 0, .proceed 0, .wait, .swap, .tryWait 0, .expire 5, .collect, .answer, .answer,
    .proceed 0]

theorem no_lost_work_getAll :
    ∃ (σ : ℕ → Sys ℕ) (op : ℕ → Op ℕ) (t : ℕ), FairRun 10 σ op ∧ 0 ∈ (σ t).getAllsQueued ∧
      ∃ t', t ≤ t' ∧ 0 ∈ (σ t').getAllResults.map Prod.fst := by
  have hrun : ∃ s : Sys ℕ, Lib.run (step 10) init oneGetAll = some s ∧ s.callers = [.returned] ∧ s.worker = .wait ∧
      s.sem_ = 0 ∧ s.getAllsQueued = [0] := ⟨_, rfl, rfl, rfl, rfl, rfl⟩
  obtain ⟨s, h1, h2, h3, h4, h5⟩ := hrun
  obtain ⟨σ, op, hfair, hs⟩ := FairRun.of_run h1 (fun i p => by cases i <;> simp [h2]) h3 h4
  have hq : 0 ∈ (σ oneGetAll.length).getAllsQueued := by rw [hs, h5]; exact List.mem_cons_self
  exact ⟨σ, op, _, hfair, hq, ((no_lost_work 10).2 σ op hfair _).2 0 hq⟩

end ProcessInfoCache

end EdenCommon
