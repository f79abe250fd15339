import EdenCommon.Proof.ProcessInfoCache
import EdenCommon.Proof.ProcessInfoExpiry

/-!
# What `getAllProcessInfos` returns

The worker swaps both queues at once, so a call is in the batch of the lookups that were
queued before it or in a later one, and the lookups of a batch are done before its calls are
answered (`Asked.swapped`). When the worker collects the answer, the entry of such a lookup is
still in `infos`, or was cleared (`Asked.entries`).

`getAll_complete`: the answer has every pid whose entry was created before the call, apart
from those whose `readInfo` has thrown and those whose entry was cleared.
-/

namespace EdenCommon

namespace ProcessInfoCache

variable {Info : Type} {expiry : Time} {s s' : Sys Info} {h h' : History} {op : Op Info}

/-! ### Which requests a step queues -/

theorem requests_of_proceed {i : ℕ} {c : Caller} (hi : s.callers[i]? = some c) (h : s.proceed i c = some s') :
    ((Op.proceed i).creates s = none ∧ (Op.proceed i).asks s = none ∧ s'.lookupsQueued = s.lookupsQueued ∧
      s'.getAllsQueued = s.getAllsQueued) ∨
    (∃ pid now, (Op.proceed i).creates s = some (pid, s.nextPromise, now) ∧ (Op.proceed i).asks s = none ∧
      s' = s.enqueueLookup i pid now) ∨
    ((Op.proceed i).creates s = none ∧ (Op.proceed i).asks s = some s.nextPromise ∧ s' = s.enqueueGetAll i) := by
  cases c with
  | lookup pid now =>
    simp only [Sys.proceed] at h
    cases hf : s.state_.find pid with
    | some node =>
      rw [hf] at h
      cases h
      exact .inl ⟨by simp [Op.creates, hi, hf], by simp [Op.asks, hi], rfl, rfl⟩
    | none =>
      rw [hf] at h
      cases h
      exact .inr (.inl ⟨pid, now, by simp [Op.creates, hi, hf], by simp [Op.asks, hi], rfl⟩)
  | add pid now =>
    simp only [Sys.proceed] at h
    split at h <;> cases h <;> exact .inl ⟨by simp [Op.creates, hi], by simp [Op.asks, hi], rfl, rfl⟩
  | addUpdate pid now =>
    simp only [Sys.proceed] at h
    cases hf : s.state_.find pid with
    | some node =>
      rw [hf] at h
      cases h
      exact .inl ⟨by simp [Op.creates, hi, hf], by simp [Op.asks, hi], rfl, rfl⟩
    | none =>
      rw [hf] at h
      cases h
      exact .inr (.inl ⟨pid, now, by simp [Op.creates, hi, hf], by simp [Op.asks, hi], rfl⟩)
  | getAll =>
    cases h
    exact .inr (.inr ⟨by simp [Op.creates, hi], by simp [Op.asks, hi], rfl⟩)
  | post promise =>
    cases promise <;> cases h <;> exact .inl ⟨by simp [Op.creates, hi], by simp [Op.asks, hi], rfl, rfl⟩
  | waiting p =>
    simp only [Sys.proceed] at h
    split at h
    · cases h
      exact .inl ⟨by simp [Op.creates, hi], by simp [Op.asks, hi], rfl, rfl⟩
    · cases h
  | returned => cases h

theorem queued_of_worker (hw : WorkerStep s s') :
    s'.lookupsQueued = s.lookupsQueued ∧ s'.getAllsQueued = s.getAllsQueued := by
  cases hw <;> (rename_i h; subst h; exact ⟨rfl, rfl⟩)

/-- **Which requests a step queues.** -/
theorem requests_cases (h : step expiry s op = some s') :
    (op.creates s = none ∧ op.asks s = none ∧ s'.lookupsQueued = s.lookupsQueued ∧
      s'.getAllsQueued = s.getAllsQueued) ∨
    (∃ i pid now, op.creates s = some (pid, s.nextPromise, now) ∧ op.asks s = none ∧ s' = s.enqueueLookup i pid now) ∨
    (∃ i, op.creates s = none ∧ op.asks s = some s.nextPromise ∧ s' = s.enqueueGetAll i) := by
  cases op with
  | lookup pid now cached => cases cached <;> cases h <;> exact .inl ⟨rfl, rfl, rfl, rfl⟩
  | add pid now cached => cases cached <;> cases h <;> exact .inl ⟨rfl, rfl, rfl, rfl⟩
  | getAllProcessInfos =>
    cases h
    exact .inl ⟨rfl, rfl, rfl, rfl⟩
  | proceed i =>
    obtain ⟨c, hi, hc⟩ := Option.bind_eq_some_iff.1 h
    obtain h | ⟨pid, now, h⟩ | h := requests_of_proceed hi hc
    · exact .inl h
    · exact .inr (.inl ⟨i, pid, now, h⟩)
    · exact .inr (.inr ⟨i, h⟩)
  | wait | swap | tryWait taken | readInfo result | expire now | collect | answer =>
    exact .inl ⟨rfl, rfl, queued_of_worker (worker_cases rfl h)⟩

/-! ### The invariant -/

/-- A prune has found the last access to the node at least `expiry` before its reading of the
clock. -/
def History.WasCleared (expiry : Time) (h : History) (p : PromiseId) : Prop :=
  ∃ x ∈ h.cleared, x.info_ = p ∧ expiry ≤ x.now - x.lastAccess_

/-- The answer `all` has the first `n` entries, apart from those that were cleared or whose
`readInfo` has thrown. -/
def Complete (expiry : Time) (s : Sys Info) (h : History) (n : ℕ) (all : List (Pid × Info)) : Prop :=
  ∀ c ∈ h.created.take n,
    h.WasCleared expiry c.2 ∨ s.lookupResults.lookup c.2 = some none ∨
      ∃ info, s.lookupResults.lookup c.2 = some (some info) ∧ all.lookup c.1 = some info

structure Asked (expiry : Time) (s : Sys Info) (h : History) : Prop where
  created : h.created.map Prod.snd = s.lookupsQueued
  asked : h.asked.map Prod.fst = s.getAllsQueued
  before : ∀ a ∈ h.asked, a.2 ≤ h.created.length
  swapped : ∀ a ∈ h.asked, a.1 ∈ s.getAllsSwapped → a.2 ≤ s.lookupsSwapped.length
  keys : (s.state_.infos.map Prod.fst).Nodup
  entries : ∀ c ∈ h.created, h.WasCleared expiry c.2 ∨ ∃ e ∈ s.state_.infos, e.1 = c.1 ∧ e.2.info_ = c.2

/-- What the worker is about to answer is complete. -/
def Answering (expiry : Time) (s : Sys Info) (h : History) : Prop :=
  ∀ all todo, s.worker = .answering all todo → ∀ a ∈ h.asked, a.1 ∈ todo → Complete expiry s h a.2 all

theorem asked_init : Asked expiry (init : Sys Info) ⟨[], [], [], []⟩ :=
  ⟨rfl, rfl, nofun, nofun, List.nodup_nil, nofun⟩

theorem created_record : (h.record expiry s op).created =
    h.created ++ (op.creates s).toList.map fun x => (x.1, x.2.1) := rfl

theorem asked_record : (h.record expiry s op).asked =
    h.asked ++ (op.asks s).toList.map fun p => (p, h.created.length) := rfl

theorem History.WasCleared.record {p : PromiseId} (hp : h.WasCleared expiry p) :
    (h.record expiry s op).WasCleared expiry p := by
  obtain ⟨x, hx, hxp⟩ := hp
  exact ⟨x, mem_cleared.2 (.inl hx), hxp⟩

/-- What is in the history is not lost. -/
theorem Complete.mono {n : ℕ} {all : List (Pid × Info)} (hc : Complete expiry s h n all) (hn : n ≤ h.created.length)
    (hresults : s'.lookupResults = s.lookupResults) : Complete expiry s' (h.record expiry s op) n all := by
  intro c hmem
  rw [created_record, List.take_append_of_le_length hn] at hmem
  rw [hresults]
  obtain hcl | hrest := hc c hmem
  · exact .inl hcl.record
  · exact .inr hrest

/-! ### Steps -/

theorem mem_asked_record (hstep : step expiry s op = some s') {a : PromiseId × ℕ}
    (ha : a ∈ (h.record expiry s op).asked) : a ∈ h.asked ∨ a = (s.nextPromise, h.created.length) := by
  rw [asked_record] at ha
  obtain ha | ha := List.mem_append.1 ha
  · exact .inl ha
  · obtain ⟨-, hn, -⟩ | ⟨-, -, -, -, hn, -⟩ | ⟨-, -, hp, -⟩ := requests_cases hstep
    · simp [hn] at ha
    · simp [hn] at ha
    · right
      simpa [hp] using ha

/-- A request that is queued is not in a batch before. -/
theorem Inv.not_mem_swapped (hinv : Inv s) : s.nextPromise ∉ s.getAllsSwapped := by
  intro hmem
  have hlt := hinv.fresh s.nextPromise (.inr (by rw [hinv.getAlls]; exact List.mem_append_left _ hmem))
  exact Nat.lt_irrefl _ hlt

/-- Batches are taken whole. -/
theorem swapped_cases (hstep : step expiry s op = some s') :
    (s'.lookupsSwapped = s.lookupsSwapped ∧ s'.getAllsSwapped = s.getAllsSwapped) ∨
      s'.lookupsSwapped = s.lookupsSwapped ++ s.state_.lookupQueue.map Prod.snd := by
  cases hop : op.isWorker with
  | false =>
    obtain ⟨h1, -⟩ | ⟨i, pid, now, rfl, -⟩ | ⟨i, rfl, -⟩ | ⟨h1, -⟩ := caller_cases hop hstep
    · exact .inl ⟨h1.lookupsSwapped, h1.getAllsSwapped⟩
    · exact .inl ⟨rfl, rfl⟩
    · exact .inl ⟨rfl, rfl⟩
    · exact .inl ⟨h1.lookupsSwapped, h1.getAllsSwapped⟩
  | true =>
    cases worker_cases hop hstep with
    | swap n hw h =>
      subst h
      exact .inr rfl
    | _ => rename_i h; subst h; exact .inl ⟨rfl, rfl⟩

theorem Asked.entries_step (hi : Asked expiry s h) (hstep : ProcessInfoCache.step expiry s op = some s') :
    ∀ c ∈ (h.record expiry s op).created, (h.record expiry s op).WasCleared expiry c.2 ∨
      ∃ e ∈ s'.state_.infos, e.1 = c.1 ∧ e.2.info_ = c.2 := by
  intro c hc
  rw [created_record] at hc
  have hold : c ∈ h.created → (h.record expiry s op).WasCleared expiry c.2 ∨
      ∃ e ∈ s.state_.infos, e.1 = c.1 ∧ e.2.info_ = c.2 := by
    intro hc
    obtain hcl | he := hi.entries c hc
    · exact .inl hcl.record
    · exact .inr he
  cases infosStep hstep with
  | same ha hcr hx hinfos hp =>
    rw [hinfos]
    exact hold (by simpa [hcr] using hc)
  | access p now ha hf hcr hx hinfos hp =>
    obtain hcl | ⟨e, he, h1, h2⟩ := hold (by simpa [hcr] using hc)
    · exact .inl hcl
    · rw [hinfos]
      refine .inr ⟨_, mem_recordAccess.2 ⟨e, he, rfl⟩, ?_, ?_⟩
      · split <;> exact h1
      · split <;> exact h2
  | create pid now ha hf hcr hx hpid hinfos hp =>
    rw [hinfos]
    obtain hc | hc := List.mem_append.1 hc
    · obtain hcl | ⟨e, he, h1, h2⟩ := hold hc
      · exact .inl hcl
      · exact .inr ⟨e, List.mem_append_left _ he, h1, h2⟩
    · rw [hcr] at hc
      have hceq := List.mem_singleton.1 hc
      rw [hceq]
      exact .inr ⟨_, List.mem_append_right _ (List.mem_singleton_self _), rfl, rfl⟩
  | clear now ha hf hcr hx hinfos hp =>
    obtain hcl | ⟨e, he, h1, h2⟩ := hold (by simpa [hcr] using hc)
    · exact .inl hcl
    · by_cases hle : expiry ≤ now - e.2.lastAccess_
      · exact .inl ⟨_, mem_cleared.2 (.inr ⟨now, hx, mem_expired.2 ⟨e, he, hle, rfl⟩⟩), h2, hle⟩
      · rw [hinfos]
        exact .inr ⟨e, mem_clearExpired.2 ⟨he, hle⟩, h1, h2⟩

theorem Asked.keys_step (hi : Asked expiry s h) (hstep : ProcessInfoCache.step expiry s op = some s') :
    (s'.state_.infos.map Prod.fst).Nodup := by
  cases infosStep hstep with
  | same ha hcr hx hinfos hp =>
    rw [hinfos]
    exact hi.keys
  | access p now ha hf hcr hx hinfos hp =>
    have hkeys : (s.state_.recordAccess p now).infos.map Prod.fst = s.state_.infos.map Prod.fst := by
      rw [State.recordAccess, List.map_map]
      refine List.map_congr_left fun e _ => ?_
      rw [Function.comp_apply]
      split <;> rfl
    rw [hinfos, hkeys]
    exact hi.keys
  | create pid now ha hf hcr hx hpid hinfos hp =>
    rw [hinfos, List.map_append, List.nodup_append]
    refine ⟨hi.keys, List.nodup_singleton _, fun p hp' q hq => ?_⟩
    rw [List.map_singleton, List.mem_singleton] at hq
    obtain ⟨e, he, rfl⟩ := List.mem_map.1 hp'
    rw [State.find, List.lookup_eq_none_iff] at hpid
    rintro rfl
    simpa [hq] using hpid e he
  | clear now ha hf hcr hx hinfos hp =>
    rw [hinfos]
    exact (List.filter_sublist.map Prod.fst).nodup hi.keys

theorem Asked.step (hi : Asked expiry s h) (hinv : Inv s) (hstep : ProcessInfoCache.step expiry s op = some s') :
    Asked expiry s' (h.record expiry s op) := by
  have hlength : h.created.length = s.lookupsQueued.length := by rw [← hi.created, List.length_map]
  refine ⟨?_, ?_, fun a ha => ?_, fun a ha hmem => ?_, hi.keys_step hstep, hi.entries_step hstep⟩
  · rw [created_record, List.map_append, hi.created]
    obtain ⟨hcr, -, hq, -⟩ | ⟨i, pid, now, hcr, -, rfl⟩ | ⟨i, hcr, -, rfl⟩ := requests_cases hstep
    · simp [hcr, hq]
    · rw [hcr]
      rfl
    · rw [hcr]
      exact List.append_nil _
  · rw [asked_record, List.map_append, hi.asked]
    obtain ⟨-, ha, -, hq⟩ | ⟨i, pid, now, -, ha, rfl⟩ | ⟨i, -, ha, rfl⟩ := requests_cases hstep
    · simp [ha, hq]
    · rw [ha]
      exact List.append_nil _
    · rw [ha]
      rfl
  · have hle : a.2 ≤ h.created.length := by
      obtain ha | rfl := mem_asked_record hstep ha
      · exact hi.before a ha
      · exact Nat.le_refl _
    rw [created_record, List.length_append]
    exact Nat.le_add_right_of_le hle
  · obtain ⟨hl, hg⟩ | hl := swapped_cases hstep
    · rw [hg] at hmem
      rw [hl]
      obtain ha | rfl := mem_asked_record hstep ha
      · exact hi.swapped a ha hmem
      · exact absurd hmem hinv.not_mem_swapped
    · rw [hl, ← hinv.lookups, ← hlength]
      obtain ha | rfl := mem_asked_record hstep ha
      · exact hi.before a ha
      · exact Nat.le_refl _

/-! ### Answers -/

theorem lookup_of_mem {all : List (Pid × Info)} (hnd : (all.map Prod.fst).Nodup) {pid : Pid} {info : Info}
    (hmem : (pid, info) ∈ all) : all.lookup pid = some info := by
  obtain ⟨l₁, l₂, rfl⟩ := List.append_of_mem hmem
  refine List.lookup_eq_some_iff.2 ⟨l₁, l₂, rfl, fun e he => ?_⟩
  rw [List.map_append, List.nodup_append] at hnd
  have hne := hnd.2.2 e.1 (List.mem_map_of_mem he) pid (by simp)
  simpa using hne.symm

/-- The answer has one value for a pid. -/
theorem lookup_allProcessInfos (hkeys : (s.state_.infos.map Prod.fst).Nodup) {e : Pid × Node}
    (he : e ∈ s.state_.infos) {info : Info} (hinfo : s.lookupResults.lookup e.2.info_ = some (some info)) :
    s.allProcessInfos.lookup e.1 = some info := by
  refine lookup_of_mem (List.Nodup.sublist ?_ hkeys) ?_
  · unfold Sys.allProcessInfos
    generalize s.state_.infos = infos
    induction infos with
    | nil => exact List.Sublist.refl _
    | cons e infos ih =>
      rw [List.filterMap_cons]
      cases hv : (s.lookupResults.lookup e.2.info_).bind id with
      | none => exact ih.cons e.1
      | some info => exact ih.cons_cons e.1
  · exact List.mem_filterMap.2 ⟨e, he, by rw [hinfo]; rfl⟩

/-- What the worker collects is complete: the lookups queued before a call of its batch are
done. -/
theorem Asked.collect (hi : Asked expiry s h) (hinv : Inv s) {now : Time} {gets : List PromiseId}
    (hw : s.worker = .collecting now gets) (hi' : Asked expiry s' (h.record expiry s op))
    (hcreated : (h.record expiry s op).created = h.created) (hresults : s'.lookupResults = s.lookupResults)
    {a : PromiseId × ℕ} (ha : a ∈ h.asked) (hmem : a.1 ∈ gets) :
    Complete expiry s' (h.record expiry s op) a.2 s'.allProcessInfos := by
  intro c hc
  rw [hcreated] at hc
  have hget : a.1 ∈ s.getAllsSwapped := by
    rw [hinv.swappedGetAlls, hw]
    exact List.mem_append_right _ hmem
  have hdone : s.lookupsSwapped = s.lookupResults.map Prod.fst := by
    rw [hinv.swappedLookups, hw]
    exact List.append_nil _
  have hresult : c.2 ∈ s.lookupResults.map Prod.fst := by
    have hle := hi.swapped a ha hget
    have htake : c.2 ∈ s.lookupsQueued.take a.2 := by
      rw [← hi.created, ← List.map_take]
      exact List.mem_map_of_mem hc
    rw [hinv.lookups, List.take_append_of_le_length hle] at htake
    rw [← hdone]
    exact List.mem_of_mem_take htake
  have hmemc : c ∈ (h.record expiry s op).created := by
    rw [hcreated]
    exact List.mem_of_mem_take hc
  obtain hcl | ⟨e, he, h1, h2⟩ := hi'.entries c hmemc
  · exact .inl hcl
  obtain ⟨r, hr⟩ : ∃ r, s'.lookupResults.lookup c.2 = some r := by
    rw [hresults, ← Option.isSome_iff_exists, List.lookup_isSome_iff]
    obtain ⟨x, hx, hxc⟩ := List.mem_map.1 hresult
    exact ⟨x, hx, by simp [hxc]⟩
  cases r with
  | none => exact .inr (.inl hr)
  | some info =>
    refine .inr (.inr ⟨info, hr, ?_⟩)
    rw [← h1]
    exact lookup_allProcessInfos hi'.keys he (by rw [h2]; exact hr)

/-- A step of a caller changes no result. -/
theorem results_of_caller (hop : op.isWorker = false) (hstep : step expiry s op = some s') :
    s'.lookupResults = s.lookupResults := by
  obtain ⟨h1, -⟩ | ⟨i, pid, now, rfl, -⟩ | ⟨i, rfl, -⟩ | ⟨h1, -⟩ := caller_cases hop hstep
  · exact h1.lookupResults
  · rfl
  · rfl
  · exact h1.lookupResults

/-- The worker goes on answering. -/
theorem Answering.of_keeps (han : Answering expiry s h) (hi : Asked expiry s h) (hinv : Inv s)
    (hstep : ProcessInfoCache.step expiry s op = some s') {all : List (Pid × Info)} {todo todo' : List PromiseId}
    (hw : s.worker = .answering all todo') (hsub : todo ⊆ todo') (hresults : s'.lookupResults = s.lookupResults) :
    ∀ a ∈ (h.record expiry s op).asked, a.1 ∈ todo → Complete expiry s' (h.record expiry s op) a.2 all := by
  intro a ha hmem
  obtain ha | rfl := mem_asked_record hstep ha
  · exact (han all todo' hw a ha (hsub hmem)).mono (hi.before a ha) hresults
  · -- a call that is just being queued is in no batch
    refine absurd ?_ hinv.not_mem_swapped
    rw [hinv.swappedGetAlls, hw]
    exact List.mem_append_right _ (hsub hmem)

/-- The worker comes to answer by collecting, or has answered already. -/
theorem not_answering (hop : op.isWorker = true) (hc : op ≠ .collect) (ha : op ≠ .answer)
    (hstep : step expiry s op = some s') (all : List (Pid × Info)) (todo : List PromiseId) :
    s'.worker ≠ .answering all todo := by
  cases op with
  | wait | tryWait taken =>
    simp only [step] at hstep
    split at hstep
    · split at hstep <;> cases hstep
      intro h
      cases h
    · cases hstep
  | swap | readInfo result =>
    simp only [step] at hstep
    split at hstep <;> cases hstep
    intro h
    cases h
  | expire now =>
    simp only [step] at hstep
    split at hstep <;> cases hstep
    rename_i gets _ _
    by_cases hg : gets = [] <;> simp [hg]
  | collect => exact absurd rfl hc
  | answer => exact absurd rfl ha
  | _ => cases hop

theorem Answering.step (han : Answering expiry s h) (hi : Asked expiry s h) (hinv : Inv s)
    (hstep : ProcessInfoCache.step expiry s op = some s') : Answering expiry s' (h.record expiry s op) := by
  intro all todo hw'
  cases hop : op.isWorker with
  | false =>
    have hworker := (caller_keeps (r := .lookup 0) hop hstep).1
    rw [hworker] at hw'
    exact han.of_keeps hi hinv hstep hw' (List.Subset.refl _) (results_of_caller hop hstep)
  | true =>
    have hi' := hi.step hinv hstep
    cases op with
    | collect =>
      have hcollect := hstep
      simp only [ProcessInfoCache.step] at hcollect
      split at hcollect
      · rename_i now gets hw
        cases hcollect
        cases hw'
        intro a ha hmem
        have ha' : a ∈ h.asked := by simpa [asked_record, Op.asks] using ha
        exact hi.collect hinv hw hi' (by simp [created_record, Op.creates]) rfl ha' hmem
      · cases hcollect
    | answer =>
      have hanswer := hstep
      simp only [ProcessInfoCache.step] at hanswer
      split at hanswer
      · rename_i all' p todo' hw
        cases hanswer
        cases hw'
        exact han.of_keeps hi hinv hstep hw (List.subset_cons_self _ _) rfl
      · cases hanswer
        cases hw'
      · cases hanswer
    -- behind the other steps, the worker does not answer
    | _ => exact absurd hw' (not_answering hop (by simp) (by simp) hstep all todo)

/-- What holds in every state of a recorded run. -/
structure Holds (expiry : Time) (x : Sys Info × History) : Prop where
  inv : Inv x.1
  asked : Asked expiry x.1 x.2
  answering : Answering expiry x.1 x.2

theorem run_holds {ops : List (Op Info)} {x : Sys Info × History}
    (hrun : Lib.run (recorded expiry) initRecorded ops = some x) : Holds expiry x := by
  refine Lib.run_invariant ⟨inv_init, asked_init, nofun⟩ (fun x op x' hx hstep => ?_) ops hrun
  obtain ⟨h1, h2⟩ := Lib.recorded_eq_some.1 hstep
  refine ⟨hx.inv.step h1, ?_, ?_⟩
  · rw [← h2]
    exact hx.asked.step hx.inv h1
  · rw [← h2]
    exact hx.answering.step hx.asked hx.inv h1

/-- The worker answers a call. -/
theorem mem_getAllResults (hstep : step expiry s op = some s') {r : PromiseId × List (Pid × Info)}
    (hr : r ∈ s'.getAllResults) : r ∈ s.getAllResults ∨ ∃ todo, s.worker = .answering r.2 (r.1 :: todo) := by
  cases hop : op.isWorker with
  | false =>
    left
    obtain ⟨h1, -⟩ | ⟨i, pid, now, rfl, -⟩ | ⟨i, rfl, -⟩ | ⟨h1, -⟩ := caller_cases hop hstep
    · rwa [h1.getAllResults] at hr
    · exact hr
    · exact hr
    · rwa [h1.getAllResults] at hr
  | true =>
    cases worker_cases hop hstep with
    | answer all p todo hw h =>
      subst h
      obtain hr | hr := List.mem_append.1 hr
      · exact .inl hr
      · rw [List.mem_singleton.1 hr]
        exact .inr ⟨todo, hw⟩
    | _ => rename_i h; subst h; exact .inl hr

/-- **`getAllProcessInfos` misses no pid.** Every call that was answered in a run was answered
in a state `y` of it with an answer that has, for every entry that was created before the
call was queued, the value that `readInfo` has returned, unless `readInfo` has thrown or a
prune before `y` has found the entry expired. -/
theorem getAll_complete {ops : List (Op Info)} {x : Sys Info × History}
    (hrun : Lib.run (recorded expiry) initRecorded ops = some x) :
    ∀ r ∈ x.1.getAllResults, ∃ pre y, pre <+: ops ∧ Lib.run (recorded expiry) initRecorded pre = some y ∧
      (∃ todo, y.1.worker = .answering r.2 (r.1 :: todo)) ∧
      (∃ n, (r.1, n) ∈ y.2.asked) ∧ ∀ n, (r.1, n) ∈ y.2.asked → ∀ c ∈ y.2.created.take n,
        y.2.WasCleared expiry c.2 ∨ y.1.lookupResults.lookup c.2 = some none ∨
          ∃ info, y.1.lookupResults.lookup c.2 = some (some info) ∧ r.2.lookup c.1 = some info := by
  induction ops using List.reverseRecOn generalizing x with
  | nil =>
    obtain rfl : initRecorded = x := by simpa using hrun
    exact nofun
  | append_singleton ops op ih =>
    intro r hr
    rw [Lib.run_concat] at hrun
    obtain ⟨y, hy, hstep⟩ := Option.bind_eq_some_iff.1 hrun
    obtain hr | ⟨todo, hw⟩ := mem_getAllResults (Lib.recorded_eq_some.1 hstep).1 hr
    · obtain ⟨pre, z, hpre, hz⟩ := ih hy r hr
      exact ⟨pre, z, hpre.trans (List.prefix_append _ _), hz⟩
    · obtain ⟨hinv, hasked, hanswering⟩ := run_holds hy
      refine ⟨ops, y, List.prefix_append _ _, hy, ⟨todo, hw⟩, ?_, fun n hn => ?_⟩
      · have hmem : r.1 ∈ y.1.getAllsQueued := by
          rw [hinv.getAlls, hinv.swappedGetAlls, hw]
          exact List.mem_append_left _ (List.mem_append_right _ List.mem_cons_self)
        rw [← hasked.asked] at hmem
        obtain ⟨a, ha, hfst⟩ := List.mem_map.1 hmem
        exact ⟨a.2, by rw [← hfst]; exact ha⟩
      · exact hanswering r.2 (r.1 :: todo) hw (r.1, n) hn List.mem_cons_self

/-- A lookup, and then a call that returns its value. -/
theorem getAll_complete_one : ∃ x : Sys ℕ × History,
    Lib.run (recorded 10) initRecorded [.lookup 1 0 none, .proceed 0, .proceed 0, .getAllProcessInfos, .proceed 1,
      .proceed 1, .wait, .swap, .tryWait 1, .readInfo (some 7), .expire 5, .collect, .answer] = some x ∧
        x.1.getAllResults = [(1, [(1, 7)])] ∧
        ∃ y : Sys ℕ × History, (∃ n, (1, n) ∈ y.2.asked) ∧ ∀ n, (1, n) ∈ y.2.asked → ∀ c ∈ y.2.created.take n,
          y.2.WasCleared 10 c.2 ∨ y.1.lookupResults.lookup c.2 = some none ∨
            ∃ info, y.1.lookupResults.lookup c.2 = some (some info) ∧ [(1, 7)].lookup c.1 = some info := by
  have hrun : ∃ x : Sys ℕ × History, Lib.run (recorded 10) initRecorded [.lookup 1 0 none, .proceed 0, .proceed 0,
      .getAllProcessInfos, .proceed 1, .proceed 1, .wait, .swap, .tryWait 1, .readInfo (some 7), .expire 5, .collect,
      .answer] = some x ∧ x.1.getAllResults = [(1, [(1, 7)])] := ⟨_, rfl, rfl⟩
  obtain ⟨x, hx, hr⟩ := hrun
  obtain ⟨-, y, -, -, -, hy⟩ := getAll_complete hx (1, [(1, 7)]) (by rw [hr]; exact List.mem_cons_self)
  exact ⟨x, hx, hr, y, hy⟩

end ProcessInfoCache

end EdenCommon
