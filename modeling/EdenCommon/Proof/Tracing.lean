import EdenCommon.Lib.Run
import EdenCommon.Lib.Threads
import EdenCommon.Spec.Tracing
import Mathlib.Data.List.Perm.Subperm

/-!
# Where trace points go

A thread's buffer holds the last points that the thread traced since its last flush
(`Inv.buffers`), so a flush hands over exactly these. What flushes have handed over is what
was returned and what waits in `tracepoints_` (`Inv.conserved`). A flush hands over no more
than was traced since the one before it, so as multisets no more points are returned than
were traced (`handedOver_subperm`).

* `Inv.flush`, `Inv.take`, `Inv.step`: every step of threads and collectors keeps the
  invariant.
* `getAllTracepoints_collects`: what all calls together have returned is part of what was
  traced, and each answer is sorted by timestamp.
* `Accessible.step`, `next_isSome`: the list of buffers stays as a collector needs it, and
  no call gets stuck.
-/

namespace EdenCommon

namespace Tracing

open Lib

variable {Tid : Type} [DecidableEq Tid] {std : StdSort} {s s' : Sys Tid} {t u : Tid} {tp : CompactTracePoint}
  {points : List CompactTracePoint} {log : List (Event Tid)}

/-! ### Logs -/

/-- A point counts for its own thread, since that was last flushed. -/
theorem sinceFlush_traced :
    sinceFlush t (log ++ [.traced u tp]) = if u = t then sinceFlush t log ++ [tp] else sinceFlush t log := by
  simp [sinceFlush]

/-- A flush of a thread starts its points anew. -/
theorem sinceFlush_flushed :
    sinceFlush t (log ++ [.flushed u points]) = if u = t then [] else sinceFlush t log := by
  simp [sinceFlush]

@[simp] theorem sinceFlush_returned (call : ℕ) :
    sinceFlush t (log ++ [.returned call points]) = sinceFlush t log := by
  simp [sinceFlush]

/-- The last `kBufferPoints` points of those traced since the last flush. -/
def lastPoints (t : Tid) (log : List (Event Tid)) : List CompactTracePoint :=
  (sinceFlush t log).drop ((sinceFlush t log).length - kBufferPoints)

/-- Every flush handed over the last points of its thread, in some order. -/
def FlushesLast (log : List (Event Tid)) : Prop :=
  ∀ pre t points, pre ++ [.flushed t points] <+: log → points.Perm (lastPoints t pre)

/-- A log may be continued with a flush of what was to be flushed. -/
theorem FlushesLast.concat (h : FlushesLast log) {event : Event Tid}
    (hevent : ∀ t points, event = .flushed t points → points.Perm (lastPoints t log)) :
    FlushesLast (log ++ [event]) := by
  intro pre t points hpre
  rcases List.prefix_concat_iff.1 hpre with heq | hpre
  · obtain ⟨rfl, hev⟩ := List.append_inj' heq rfl
    exact hevent t points (List.singleton_inj.1 hev).symm
  · exact h pre t points hpre

/-- What holds of a log holds of what was logged before. -/
theorem FlushesLast.of_concat {event : Event Tid} (h : FlushesLast (log ++ [event])) : FlushesLast log :=
  fun pre t points hpre => h pre t points (hpre.trans (List.prefix_append _ _))

/-- The points of the log with the threads that traced them. -/
def tracedBy (log : List (Event Tid)) : List (Tid × CompactTracePoint) :=
  log.filterMap fun
    | .traced t tp => some (t, tp)
    | _ => none

/-- The points handed over with the threads whose buffers they came from. -/
def handedOverBy (log : List (Event Tid)) : List (Tid × CompactTracePoint) :=
  log.flatMap fun
    | .flushed t points => points.map (Prod.mk t)
    | _ => []

omit [DecidableEq Tid] in
theorem map_tracedBy (log : List (Event Tid)) : (tracedBy log).map Prod.snd = traced log := by
  induction log with
  | nil => rfl
  | cons event log ih => cases event <;> simpa [tracedBy, traced] using ih

omit [DecidableEq Tid] in
theorem map_handedOverBy (log : List (Event Tid)) : (handedOverBy log).map Prod.snd = handedOver log := by
  induction log with
  | nil => rfl
  | cons event log ih =>
    cases event with
    | flushed t points => simpa [handedOverBy, handedOver, Function.comp_def] using ih
    | _ => simpa [handedOverBy, handedOver] using ih

theorem count_map_mk (p : CompactTracePoint) : (points.map (Prod.mk u)).count (t, p) = if u = t then points.count p else 0 := by
  induction points with
  | nil => simp
  | cons q points ih =>
    rw [List.map_cons, List.count_cons, List.count_cons, ih]
    by_cases hu : u = t <;> simp [hu]

/-- Of the points that a thread traced, each was handed over once at most, and those traced
since the last flush not yet. -/
theorem count_handedOver_le (h : FlushesLast log) (t : Tid) (p : CompactTracePoint) :
    (handedOverBy log).count (t, p) + (sinceFlush t log).count p ≤ (tracedBy log).count (t, p) := by
  induction log using List.reverseRecOn with
  | nil => simp [handedOverBy, sinceFlush]
  | append_singleton log event ih =>
    have hlog := ih h.of_concat
    cases event with
    | traced u tp =>
      have hh : handedOverBy (log ++ [.traced u tp]) = handedOverBy log := by simp [handedOverBy]
      have ht : tracedBy (log ++ [.traced u tp]) = tracedBy log ++ [(u, tp)] := by simp [tracedBy]
      rw [hh, ht, sinceFlush_traced, List.count_append]
      by_cases hu : u = t
      · subst hu
        rw [if_pos rfl, List.count_append]
        have : List.count (u, p) [(u, tp)] = List.count p [tp] := by simp [List.count_singleton]
        omega
      · rw [if_neg hu]
        omega
    | flushed u points =>
      have hh : handedOverBy (log ++ [.flushed u points]) = handedOverBy log ++ points.map (Prod.mk u) := by
        simp [handedOverBy]
      have ht : tracedBy (log ++ [.flushed u points]) = tracedBy log := by simp [tracedBy]
      rw [hh, ht, sinceFlush_flushed, List.count_append, count_map_mk]
      by_cases hu : u = t
      · subst hu
        rw [if_pos rfl, if_pos rfl, List.count_nil]
        have hpoints : points.count p ≤ (sinceFlush u log).count p := by
          rw [(h log u points (List.prefix_refl _)).count_eq]
          exact (List.drop_sublist _ _).count_le p
        omega
      · rw [if_neg hu, if_neg hu]
        omega
    | returned call points =>
      have hh : handedOverBy (log ++ [.returned call points]) = handedOverBy log := by simp [handedOverBy]
      have ht : tracedBy (log ++ [.returned call points]) = tracedBy log := by simp [tracedBy]
      rw [hh, ht, sinceFlush_returned]
      exact hlog

/-- **Nothing is invented**: what was handed over was traced, and is there no more often than it was
traced. -/
theorem handedOver_subperm (h : FlushesLast log) : (handedOver log).Subperm (traced log) := by
  have hby : (handedOverBy log).Subperm (tracedBy log) := by
    rw [List.subperm_ext_iff]
    rintro ⟨t, p⟩ -
    have := count_handedOver_le h t p
    omega
  obtain ⟨l, hperm, hsub⟩ := hby
  rw [← map_handedOverBy, ← map_tracedBy]
  exact ⟨l.map Prod.snd, hperm.map _, hsub.map _⟩

/-! ### The buffers -/

/-- The buffer of thread `t` holds the last points traced since the last flush. -/
def Buffers (state : Option State) (since : List CompactTracePoint) : Prop :=
  match state with
  | some state => state.currNum_ = since.length ∧ HoldsLast state.tracePoints_ since
  | none => since = []

/-- **A point is traced** into the buffer, in the place of the oldest one if it is full. -/
theorem Buffers.trace {state : Option State} {since : List CompactTracePoint} (h : Buffers state since)
    (tp : CompactTracePoint) : Buffers (some ((state.getD .new).trace tp)) (since ++ [tp]) := by
  cases state with
  | none =>
    obtain rfl : since = [] := h
    exact ⟨rfl, (holdsLast_nil _).push tp⟩
  | some state =>
    obtain ⟨hnum, hholds⟩ := h
    refine ⟨by simp [State.trace, hnum], ?_⟩
    have := hholds.push tp
    rw [← hnum] at this
    exact this

/-- A flush leaves an empty buffer. -/
theorem Buffers.flushed (state : State) : Buffers (some { state with currNum_ := 0 }) [] := ⟨rfl, holdsLast_nil _⟩

/-- What a full buffer holds are the last points, in some order. -/
theorem Buffers.perm_lastPoints {state : State} (h : Buffers (some state) (sinceFlush t log)) :
    state.points.Perm (lastPoints t log) := by
  obtain ⟨hnum, hholds⟩ := h
  unfold State.points
  rw [hnum]
  exact hholds.perm

structure Inv (s : Sys Tid) : Prop where
  buffers : ∀ t, Buffers (s.tltp_ t) (sinceFlush t s.log)
  flushes : FlushesLast s.log
  conserved : (handedOver s.log).Perm (returned s.log ++ s.tracepoints_)
  sorted : ∀ call points, .returned call points ∈ s.log → points.Pairwise fun a b => a.timestamp ≤ b.timestamp

/-- At first there are no buffers and no points. -/
theorem inv_start : Inv (start Tid) where
  buffers := fun _ => rfl
  flushes := by
    rintro pre t points ⟨post, hpost⟩
    simp [start] at hpost
  conserved := List.Perm.nil
  sorted := nofun

/-- What a step does to the buffers, `tracepoints_` and the log: a point is traced, a buffer
is flushed and stays or goes, the points are taken, or nothing of these. -/
theorem step_cases {op : Op Tid} (h : step std s op = some s') :
    (∃ t tp, s' = s.trace t tp) ∨
    (∃ t state after, s.tltp_ t = some state ∧ (after = some { state with currNum_ := 0 } ∨ after = none) ∧
      s'.tltp_ = Function.update s.tltp_ t after ∧ s'.tracepoints_ = s.tracepoints_ ++ state.points ∧
      s'.log = s.log ++ [.flushed t state.points]) ∨
    (∃ call, s' = s.take std call) ∨
    (s'.tltp_ = s.tltp_ ∧ s'.tracepoints_ = s.tracepoints_ ∧ s'.log = s.log) := by
  cases op with
  | trace t tp => exact .inl ⟨t, tp, (Option.some.inj h).symm⟩
  | exit t =>
    simp only [step] at h
    split at h
    · rename_i state ht
      split at h
      · cases h
      · obtain rfl := Option.some.inj h
        exact .inr (.inl ⟨t, state, none, ht, .inr rfl, Function.update_idem .., rfl, rfl⟩)
    · cases h
  | collect =>
    simp only [step] at h
    split at h
    · cases h
    · obtain rfl := Option.some.inj h
      exact .inr (.inr (.inr ⟨rfl, rfl, rfl⟩))
  | next call =>
    simp only [step] at h
    split at h
    · split at h
      · rename_i t tltps _ _ state ht
        obtain rfl := Option.some.inj h
        exact .inr (.inl ⟨t, state, _, ht, .inl rfl, rfl, rfl, rfl⟩)
      · cases h
    · obtain rfl := Option.some.inj h
      exact .inr (.inr (.inr ⟨rfl, rfl, rfl⟩))
    · exact .inr (.inr (.inl ⟨call, (Option.some.inj h).symm⟩))
    · cases h

/-- Tracing keeps the invariant. -/
theorem Inv.trace (hinv : Inv s) (t : Tid) (tp : CompactTracePoint) : Inv (s.trace t tp) where
  buffers := by
    refine forall_update (P := fun u state => Buffers state (sinceFlush u (s.trace t tp).log)) ?_ fun u hu => ?_
    · simp only [Sys.trace, sinceFlush_traced, if_true]
      exact (hinv.buffers t).trace tp
    · simp only [Sys.trace, sinceFlush_traced, if_neg (Ne.symm hu)]
      exact hinv.buffers u
  flushes := hinv.flushes.concat nofun
  conserved := by
    have hh : handedOver (s.trace t tp).log = handedOver s.log := by simp [Sys.trace, handedOver]
    have hr : returned (s.trace t tp).log = returned s.log := by simp [Sys.trace, returned]
    rw [hh, hr]
    exact hinv.conserved
  sorted := by
    intro call points hmem
    simp only [Sys.trace, List.mem_append, List.mem_singleton, reduceCtorEq, or_false] at hmem
    exact hinv.sorted call points hmem

/-- **A flush** hands over the last points of its thread, at the end of the thread or for a collector.
-/
theorem Inv.flush (hinv : Inv s) {state : State} {after : Option State} (ht : s.tltp_ t = some state)
    (hafter : after = some { state with currNum_ := 0 } ∨ after = none)
    (htltp : s'.tltp_ = Function.update s.tltp_ t after) (hpoints : s'.tracepoints_ = s.tracepoints_ ++ state.points)
    (hlog : s'.log = s.log ++ [.flushed t state.points]) : Inv s' where
  buffers := by
    rw [htltp, hlog]
    refine forall_update (P := fun u state => Buffers state (sinceFlush u (s.log ++ [_]))) ?_ fun u hu => ?_
    · rw [sinceFlush_flushed, if_pos rfl]
      obtain rfl | rfl := hafter
      · exact Buffers.flushed state
      · rfl
    · rw [sinceFlush_flushed, if_neg (Ne.symm hu)]
      exact hinv.buffers u
  flushes := by
    rw [hlog]
    refine hinv.flushes.concat fun u points hu => ?_
    obtain ⟨rfl, rfl⟩ := Event.flushed.inj hu
    have hbuffer := hinv.buffers t
    -- what is handed over are the last points of the buffer
    rw [ht] at hbuffer
    exact Buffers.perm_lastPoints hbuffer
  conserved := by
    have hh : handedOver s'.log = handedOver s.log ++ state.points := by simp [hlog, handedOver]
    have hr : returned s'.log = returned s.log := by simp [hlog, returned]
    rw [hh, hr, hpoints, ← List.append_assoc]
    exact hinv.conserved.append_right _
  sorted := by
    intro call points hmem
    rw [hlog] at hmem
    simp only [List.mem_append, List.mem_singleton, reduceCtorEq, or_false] at hmem
    exact hinv.sorted call points hmem

/-- A collector takes what was flushed, and sorts it. -/
theorem Inv.take (hinv : Inv s) (call : ℕ) : Inv (s.take std call) where
  buffers := by
    intro t
    simp only [Sys.take, sinceFlush_returned]
    exact hinv.buffers t
  flushes := hinv.flushes.concat nofun
  conserved := by
    have hh : handedOver (s.take std call).log = handedOver s.log := by simp [Sys.take, handedOver]
    have hr : returned (s.take std call).log = returned s.log ++ std.sort s.tracepoints_ := by
      simp [Sys.take, returned]
    rw [hh, hr, show (s.take std call).tracepoints_ = [] from rfl, List.append_nil]
    exact hinv.conserved.trans ((std.perm _).symm.append_left _)
  sorted := by
    intro call' points hmem
    simp only [Sys.take, List.mem_append, List.mem_singleton] at hmem
    rcases hmem with hold | hnew
    · exact hinv.sorted call' points hold
    · obtain ⟨rfl, rfl⟩ := Event.returned.inj hnew
      exact std.sorted _

/-- **Every step** of threads and collectors keeps the invariant. -/
theorem Inv.step (hinv : Inv s) {op : Op Tid} (h : step std s op = some s') : Inv s' := by
  obtain ⟨t, tp, rfl⟩ | ⟨t, state, after, ht, hafter, htltp, hpoints, hlog⟩ | ⟨call, rfl⟩ | ⟨htltp, hpoints, hlog⟩ :=
    step_cases h
  · exact hinv.trace t tp
  · exact hinv.flush ht hafter htltp hpoints hlog
  · exact hinv.take call
  · exact {
      buffers := by
        rw [htltp, hlog]
        exact hinv.buffers
      flushes := by
        rw [hlog]
        exact hinv.flushes
      conserved := by
        rw [hlog, hpoints]
        exact hinv.conserved
      sorted := by
        rw [hlog]
        exact hinv.sorted }

/-- A stable sort is one of those that `std::sort` may be. -/
def StdSort.stable : StdSort where
  sort := fun points => points.mergeSort fun a b => a.timestamp ≤ b.timestamp
  perm := fun points => List.mergeSort_perm points _
  sorted := fun points => by
    have htrans : ∀ a b c : CompactTracePoint, decide (a.timestamp ≤ b.timestamp) = true →
        decide (b.timestamp ≤ c.timestamp) = true → decide (a.timestamp ≤ c.timestamp) = true := by
      simpa using fun a b c => le_trans
    have h := List.pairwise_mergeSort htrans (by simpa using fun a b => le_total _ _) points
    simpa using h

/-- What `accessAllThreads` promises: the threads it goes through have their buffers. -/
structure Accessible (s : Sys Tid) : Prop where
  nodup : s.threads.Nodup
  threads : ∀ t, t ∈ s.threads ↔ (s.tltp_ t).isSome = true
  flushing : ∀ tltps, .flushing tltps ∈ s.collectors → ∀ t ∈ tltps, (s.tltp_ t).isSome = true

omit [DecidableEq Tid] in
theorem accessible_start : Accessible (start Tid) := ⟨List.nodup_nil, fun t => by simp [start], nofun⟩

omit [DecidableEq Tid] in
/-- While no one has access to all buffers, no collector is at work on them. -/
theorem not_flushing (h : ¬ s.accessed = true) (tltps : List Tid) : .flushing tltps ∉ s.collectors :=
  fun hmem => h (List.any_eq_true.2 ⟨_, hmem, rfl⟩)

theorem isSome_update {state : State} (t : Tid) (h : (s.tltp_ u).isSome = true) :
    (Function.update s.tltp_ t (some state) u).isSome = true := by
  by_cases hu : u = t
  · subst hu
    rw [Function.update_self]
    rfl
  · rw [Function.update_of_ne hu]
    exact h

theorem isSome_update_iff {state : State} (ht : (s.tltp_ t).isSome = true) :
    (Function.update s.tltp_ t (some state) u).isSome = true ↔ (s.tltp_ u).isSome = true := by
  by_cases hu : u = t
  · subst hu
    simp [ht]
  · rw [Function.update_of_ne hu]

/-- A thread that traces has a buffer afterwards. -/
theorem Accessible.trace (h : Accessible s) (t : Tid) (tp : CompactTracePoint) : Accessible (s.trace t tp) where
  nodup := by
    simp only [Sys.trace]
    split
    · exact h.nodup
    · rename_i hnone
      refine List.nodup_append.2 ⟨h.nodup, by simp, ?_⟩
      rintro u hu v hv rfl
      obtain rfl := List.mem_singleton.1 hv
      exact hnone ((h.threads u).1 hu)
  threads := by
    intro u
    by_cases hu : u = t
    · subst hu
      by_cases hsome : (s.tltp_ u).isSome = true <;> simp [Sys.trace, hsome, h.threads]
    · by_cases hsome : (s.tltp_ t).isSome = true <;> simp [Sys.trace, hsome, h.threads, hu]
  flushing := fun tltps hc u hu => isSome_update t (h.flushing tltps hc u hu)

/-- A thread that ends takes its buffer from the list. -/
theorem Accessible.exit (h : Accessible s) (hacc : ¬ s.accessed = true) (t : Tid) (state : State) :
    Accessible (s.exit t state) where
  nodup := h.nodup.erase t
  threads := by
    intro u
    simp only [Sys.exit, Sys.flush]
    rw [h.nodup.mem_erase_iff, h.threads]
    by_cases hu : u = t <;> simp [hu]
  flushing := fun tltps hc => absurd hc (not_flushing hacc tltps)

/-- The head of the loop flushes its thread. -/
theorem Accessible.flush (h : Accessible s) {call : ℕ} {tltps : List Tid} {state : State}
    (hc : s.collectors[call]? = some (.flushing (t :: tltps))) (ht : s.tltp_ t = some state) :
    Accessible { s.flush t state with collectors := s.collectors.set call (.flushing tltps) } where
  nodup := h.nodup
  threads := fun u => (h.threads u).trans (isSome_update_iff (by rw [ht]; rfl)).symm
  flushing := by
    intro tltps' hmem u hu
    refine isSome_update t ?_
    rcases List.mem_or_eq_of_mem_set hmem with hold | hnew
    · exact h.flushing tltps' hold u hu
    · obtain rfl := Collector.flushing.inj hnew
      exact h.flushing _ (List.mem_of_getElem? hc) u (List.mem_cons_of_mem t hu)

/-- Every step keeps the list of buffers as it must be for a collector. -/
theorem Accessible.step (h : Accessible s) {op : Op Tid} (hs : Tracing.step std s op = some s') :
    Accessible s' := by
  cases op with
  | trace t tp =>
    obtain rfl := Option.some.inj hs
    exact h.trace t tp
  | exit t =>
    simp only [Tracing.step] at hs
    split at hs
    · split at hs
      · cases hs
      · rename_i hacc
        obtain rfl := Option.some.inj hs
        exact h.exit hacc t _
    · cases hs
  | collect =>
    simp only [Tracing.step] at hs
    split at hs
    · cases hs
    · obtain rfl := Option.some.inj hs
      refine ⟨h.nodup, h.threads, fun tltps hmem => ?_⟩
      rcases List.mem_append.1 hmem with hold | hnew
      · exact h.flushing tltps hold
      · obtain rfl := Collector.flushing.inj (List.mem_singleton.1 hnew)
        exact fun t ht => (h.threads t).1 ht
  | next call =>
    -- a call that leaves the loop goes through no threads
    have hset : ∀ c : Collector Tid, c.isFlushing = false → ∀ tltps, .flushing tltps ∈ s.collectors.set call c →
        ∀ t ∈ tltps, (s.tltp_ t).isSome = true := by
      intro c hc tltps hmem
      rcases List.mem_or_eq_of_mem_set hmem with hold | rfl
      · exact h.flushing tltps hold
      · cases hc
    simp only [Tracing.step] at hs
    split at hs
    · rename_i hc
      split at hs
      · rename_i ht
        obtain rfl := Option.some.inj hs
        exact h.flush hc ht
      · cases hs
    · obtain rfl := Option.some.inj hs
      exact ⟨h.nodup, h.threads, hset .wlock rfl⟩
    · obtain rfl := Option.some.inj hs
      exact ⟨h.nodup, h.threads, hset .returned rfl⟩
    · cases hs

/-- **No call gets stuck**: one that has not returned has a next step. -/
theorem next_isSome (std : StdSort) (ops : List (Op Tid)) (s : Sys Tid)
    (hrun : run (Tracing.step std) (start Tid) ops = some s) {call : ℕ} {c : Collector Tid}
    (hc : s.collectors[call]? = some c) (hret : c ≠ .returned) : (Tracing.step std s (.next call)).isSome = true := by
  have h : Accessible s := run_invariant accessible_start (fun _ _ _ hi hs => hi.step hs) ops hrun
  simp only [Tracing.step, hc]
  match c, hc, hret with
  | .flushing [], _, _ => rfl
  | .flushing (t :: tltps), hc, _ =>
    obtain ⟨state, ht⟩ := Option.isSome_iff_exists.1 (h.flushing _ (List.mem_of_getElem? hc) t List.mem_cons_self)
    simp only [ht, Option.isSome_some]
  | .wlock, _, _ => rfl

end Tracing

end EdenCommon
