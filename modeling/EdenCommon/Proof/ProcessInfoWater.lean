import EdenCommon.Spec.ProcessInfoHistory

/-!
# The water level keeps up

`waterLevel` is twice the number of lookups answered since the last prune. An entry of `infos`
that is not of those the last prune retained has its lookup in the queue, in the worker's
batch or among the answered ones (`Inv.grown`), and at the end of an iteration the batch that
was swapped out when `infos` was measured is answered. So an iteration that does not prune has
measured at most what was retained and half of what it measured.
-/

namespace EdenCommon

namespace ProcessInfoCache

namespace Measured

open Lib

variable {Info : Type} {expiry : Time} {s s' : Sys Info} {w : Water} {op : Op Info}

/-! ### What callers do -/

/-- A caller adds as many entries as it queues lookups. -/
structure Grows (s s' : Sys Info) : Prop where
  worker : s'.worker = s.worker
  waterLevel : s'.waterLevel = s.waterLevel
  grown : s'.state_.infos.length + s.state_.lookupQueue.length =
    s.state_.infos.length + s'.state_.lookupQueue.length

/-- A step that leaves the number of entries and the queue alone adds as many of both: none. -/
theorem Grows.of_eq (hworker : s'.worker = s.worker) (hwater : s'.waterLevel = s.waterLevel)
    (hinfos : s'.state_.infos.length = s.state_.infos.length) (hqueue : s'.state_.lookupQueue = s.state_.lookupQueue) :
    Grows s s' := ⟨hworker, hwater, by rw [hinfos, hqueue]⟩

/-- An access changes no entry but its time. -/
theorem length_recordAccess (st : State) (info : PromiseId) (now : Time) :
    (st.recordAccess info now).infos.length = st.infos.length := by
  unfold State.recordAccess
  exact List.length_map _

/-- A lookup that is queued has its entry added with it. -/
theorem grows_enqueueLookup (i : ℕ) (pid : Pid) (now : Time) : Grows s (s.enqueueLookup i pid now) := by
  refine ⟨rfl, rfl, ?_⟩
  unfold Sys.enqueueLookup
  simp only [List.length_append, List.length_singleton]
  omega

/-- **A critical section of a caller** adds an entry exactly if it queues a lookup. -/
theorem grows_proceed {i : ℕ} {c : Caller} (h : s.proceed i c = some s') : Grows s s' := by
  cases c with
  | lookup pid now =>
    simp only [Sys.proceed] at h
    split at h
    · cases h
      exact .of_eq rfl rfl rfl rfl
    · cases h
      exact grows_enqueueLookup i pid now
  | add pid now =>
    simp only [Sys.proceed] at h
    split at h
    · cases h
      exact .of_eq rfl rfl (length_recordAccess _ _ _) rfl
    · cases h
      exact .of_eq rfl rfl rfl rfl
  | addUpdate pid now =>
    simp only [Sys.proceed] at h
    split at h
    · cases h
      exact .of_eq rfl rfl (length_recordAccess _ _ _) rfl
    · cases h
      exact grows_enqueueLookup i pid now
  | getAll =>
    cases h
    exact .of_eq rfl rfl rfl rfl
  | post promise =>
    cases promise <;> cases h <;> exact .of_eq rfl rfl rfl rfl
  | waiting p =>
    simp only [Sys.proceed] at h
    split at h
    · cases h
      exact .of_eq rfl rfl rfl rfl
    · cases h
  | returned => cases h

/-- So does every step that is not the worker's. -/
theorem grows_caller (hop : op.isWorker = false) (h : step expiry s op = some s') : Grows s s' := by
  cases op with
  | lookup pid now cached =>
    cases cached <;> cases h
    · exact .of_eq rfl rfl rfl rfl
    · exact .of_eq rfl rfl (length_recordAccess _ _ _) rfl
  | add pid now cached => cases cached <;> cases h <;> exact .of_eq rfl rfl rfl rfl
  | getAllProcessInfos =>
    cases h
    exact .of_eq rfl rfl rfl rfl
  | proceed i =>
    obtain ⟨c, -, hc⟩ := Option.bind_eq_some_iff.1 h
    exact grows_proceed hc
  | _ => cases hop

/-- Only the worker's steps are recorded. -/
theorem record_caller (hop : op.isWorker = false) : w.record expiry s op = w := by
  cases op <;> first | rfl | cases hop

/-! ### The invariant -/

/-- What holds after an iteration: `waterLevel` has not passed what was measured. -/
structure Ended (waterLevel : ℕ) (w : Water) : Prop where
  eq : waterLevel = 2 * w.processed
  le : waterLevel ≤ w.sampled
  retained : w.pruned = false → w.sampled ≤ 2 * w.retained

/-- What holds while the worker is in an iteration, with `todo` of its batch not answered. -/
structure Iterating (w : Water) (todo currentNamesSize : ℕ) : Prop where
  sampled : w.sampled = currentNamesSize
  grown : w.sampled ≤ w.retained + w.processed + todo

def AtWorker (waterLevel : ℕ) (w : Water) : Worker Info → Prop
  | .swapped lookups _ n => waterLevel = 2 * w.processed ∧ Iterating w lookups.length n
  | .reading todo size _ n => waterLevel + 2 * size = 2 * (w.processed + todo.length) ∧ Iterating w todo.length n
  | _ => Ended waterLevel w

structure Inv (s : Sys Info) (w : Water) : Prop where
  worker : AtWorker s.waterLevel w s.worker
  grown : s.state_.infos.length ≤
    w.retained + w.processed + s.worker.pendingLookups.length + s.state_.lookupQueue.length

theorem inv_init : Inv (init : Sys Info) ⟨0, 0, 0, false⟩ where
  worker := ⟨rfl, Nat.le_refl 0, fun _ => Nat.le_refl 0⟩
  grown := Nat.le_refl 0

/-- What a caller does keeps the invariant: entries and queued lookups grow alike. -/
theorem Inv.caller (hinv : Inv s w) (h : Grows s s') : Inv s' w where
  worker := by
    rw [h.worker, h.waterLevel]
    exact hinv.worker
  grown := by
    have hgrown := hinv.grown
    have hsame := h.grown
    rw [h.worker]
    omega

/-- Clearing adds no entry. -/
theorem length_clearExpired_le (st : State) (now : Time) :
    (st.clearExpired expiry now).infos.length ≤ st.infos.length := by
  unfold State.clearExpired
  exact List.length_filter_le _ _

/-- The lookups are done: `infos` is pruned if `waterLevel` passes what was measured. -/
theorem Inv.expire (hinv : Inv s w) {size n : ℕ} {gets : List PromiseId} (hw : s.worker = .reading [] size gets n)
    (now : Time) {worker : Worker Info} (hworker : ∀ waterLevel w, AtWorker waterLevel w worker ↔ Ended waterLevel w)
    (hpending : worker.pendingLookups = []) :
    Inv { s.expire expiry now size n with worker := worker } (w.record expiry s (.expire now)) := by
  have hiter := hinv.worker
  have hgrown := hinv.grown
  rw [hw] at hiter hgrown
  obtain ⟨hwater, hsampled, hle⟩ := hiter
  simp only [Worker.pendingLookups, List.map_nil, List.length_nil, Nat.add_zero] at hgrown hwater hle
  unfold Sys.expire Water.record
  by_cases hlt : n < s.waterLevel + 2 * size
  · have hclears : (Op.expire now).clears s = some now := by simp [Op.clears, hw, hlt]
    simp only [hclears, if_pos hlt]
    constructor
    · rw [hworker]
      exact ⟨rfl, Nat.zero_le _, fun h => by cases h⟩
    · simp only [hpending, List.length_nil]
      omega
  · have hclears : (Op.expire now).clears s = (none : Option Time) := by simp [Op.clears, hw, hlt]
    simp only [hclears, if_neg hlt]
    constructor
    · rw [hworker]
      refine ⟨hwater, ?_, fun _ => ?_⟩
      · simp only
        omega
      · simp only
        omega
    · simp only [hpending, List.length_nil]
      omega

/-- **A step of the worker** keeps the invariant. The level falls to zero only where the infos were
cleared. -/
theorem Inv.worker_step (hinv : Inv s w) (hop : op.isWorker = true) (h : step expiry s op = some s') :
    Inv s' (w.record expiry s op) := by
  have hworker := hinv.worker
  have hgrown := hinv.grown
  cases op with
  | wait =>
    simp only [step] at h
    split at h
    · rename_i hw
      split at h
      · cases h
        rw [hw] at hworker hgrown
        exact ⟨hworker, hgrown⟩
      · cases h
    · cases h
  | swap =>
    simp only [step] at h
    split at h
    · rename_i hw
      cases h
      rw [hw] at hworker hgrown
      simp only [Worker.pendingLookups, List.length_nil, Nat.add_zero] at hgrown
      refine ⟨⟨hworker.eq, rfl, hgrown⟩, ?_⟩
      simpa [Worker.pendingLookups, Water.record] using hgrown
    · cases h
  | tryWait taken =>
    simp only [step] at h
    split at h
    · rename_i lookups gets n hw
      split at h
      · cases h
        rw [hw] at hworker hgrown
        obtain ⟨hwater, hiter⟩ := hworker
        refine ⟨⟨?_, hiter⟩, hgrown⟩
        simp only [Water.record]
        omega
      · cases h
    · cases h
  | readInfo result =>
    simp only [step] at h
    split at h
    · rename_i pid p todo size gets n hw
      cases h
      rw [hw] at hworker hgrown
      obtain ⟨hwater, hsampled, hle⟩ := hworker
      simp only [Worker.pendingLookups, List.map_cons, List.length_cons, List.length_map] at hgrown hwater hle
      refine ⟨⟨?_, hsampled, ?_⟩, ?_⟩
      · simp only [Water.record]
        omega
      · simp only [Water.record]
        omega
      · simp only [Water.record, Worker.pendingLookups, List.length_map]
        omega
    · cases h
  | expire now =>
    simp only [step] at h
    split at h
    · rename_i size gets n hw
      cases h
      by_cases hgets : gets = []
      · rw [if_pos hgets]
        exact hinv.expire hw now (fun _ _ => Iff.rfl) rfl
      · rw [if_neg hgets]
        exact hinv.expire hw now (fun _ _ => Iff.rfl) rfl
    · cases h
  | collect =>
    simp only [step] at h
    split at h
    · rename_i now gets hw
      cases h
      rw [hw] at hworker hgrown
      exact ⟨hworker, Nat.le_trans (length_clearExpired_le _ now) hgrown⟩
    · cases h
  | answer =>
    simp only [step] at h
    split at h
    · rename_i hw
      cases h
      rw [hw] at hworker hgrown
      exact ⟨hworker, hgrown⟩
    · rename_i hw
      cases h
      rw [hw] at hworker hgrown
      exact ⟨hworker, hgrown⟩
    · cases h
  | _ => cases hop

/-- Every step keeps the invariant. -/
theorem Inv.step (hinv : Inv s w) (h : ProcessInfoCache.step expiry s op = some s') :
    Inv s' (w.record expiry s op) := by
  cases hop : op.isWorker with
  | false =>
    rw [record_caller hop]
    exact hinv.caller (grows_caller hop h)
  | true => exact hinv.worker_step hop h

/-- **Pruning keeps up.** However callers come and the worker's batches fall: after every
iteration `waterLevel` is at most the `currentNamesSize` of the iteration, the lookups answered
since the last prune by the water level are at most half of it, and if the iteration made no
such prune, it is at most twice what the last one retained. -/
theorem waterLevel_keeps_up (expiry : Time) (ops : List (Op Info)) (s : Sys Info) (w : Water)
    (hrun : run (measured expiry) initMeasured ops = some (s, w)) (hended : s.worker = .wait) :
    s.waterLevel ≤ w.sampled ∧ 2 * w.processed ≤ w.sampled ∧
      (w.pruned = false → w.sampled ≤ 2 * w.retained) := by
  have hinv : Inv (s, w).1 (s, w).2 := by
    refine run_invariant (I := fun x => Inv x.1 x.2) inv_init (fun x op x' hi hs => ?_) ops hrun
    obtain ⟨hstep, hrecord⟩ := recorded_eq_some.1 hs
    rw [← hrecord]
    exact hi.step hstep
  have hworker := hinv.worker
  rw [hended] at hworker
  obtain ⟨hwater, hle, hretained⟩ := hworker
  exact ⟨hle, hwater ▸ hle, hretained⟩

/-- Two lookups in one iteration, which prunes none of the two. -/
def twoLookups : Sys ℕ where
  state_ := ⟨[(1, ⟨0, 0⟩), (2, ⟨1, 0⟩)], [], []⟩
  sem_ := 0
  callers := [.returned, .returned]
  worker := .wait
  waterLevel := 0
  lookupResults := [(0, some 5), (1, some 6)]
  getAllResults := []
  nextPromise := 2
  lookupsQueued := [0, 1]
  getAllsQueued := []
  lookupsSwapped := [0, 1]
  getAllsSwapped := []

theorem waterLevel_keeps_up_two :
    run (measured 10) initMeasured
      [.lookup 1 0 none, .lookup 2 0 none, .proceed 0, .proceed 1, .proceed 0, .proceed 1, .wait, .swap, .tryWait 1,
        .readInfo (some 5), .readInfo (some 6), .expire 1] = some (twoLookups, ⟨0, 2, 2, true⟩) ∧
      twoLookups.waterLevel ≤ 2 ∧ 2 * 0 ≤ 2 ∧ (true = false → 2 ≤ 2 * 2) :=
  let ops : List (Op ℕ) := [.lookup 1 0 none, .lookup 2 0 none, .proceed 0, .proceed 1, .proceed 0, .proceed 1,
    .wait, .swap, .tryWait 1, .readInfo (some 5), .readInfo (some 6), .expire 1]
  have hrun : run (measured 10) initMeasured ops = some (twoLookups, ⟨0, 2, 2, true⟩) := rfl
  ⟨hrun, waterLevel_keeps_up 10 ops twoLookups ⟨0, 2, 2, true⟩ hrun rfl⟩

end Measured

end ProcessInfoCache

end EdenCommon
