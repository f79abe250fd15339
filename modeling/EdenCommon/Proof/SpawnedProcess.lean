import EdenCommon.Spec.SpawnedProcess

/-!
# No reaped pid is touched

An object that has not been waited for owns a child that the kernel still knows under its
pid, and every other object with the same process has handed it over (`Inv`). Every
`waitpid` and `kill` is a call of such an object, and the call that reaps the child ends
its ownership in the same step. What an object that has not handed its process over knows
of it is then the status with which it was reaped.
-/

namespace EdenCommon

namespace SpawnedProcess

open Lib Sys

variable {Obj : Type} [DecidableEq Obj] {s s' : Sys Obj} {a b that : Obj} {x x' y z : SpawnedProcess}
  {e : Event} {c n rawStatus : ℕ} {result : WaitResult} {status : ProcessStatus}

structure Inv (s : Sys Obj) : Prop where
  child_lt : ∀ n c, s.children n = some c → c < s.nextProc
  child_inj : ∀ n m c, s.children n = some c → s.children m = some c → n = m
  proc_lt : ∀ a x c, s.objects a = some x → x.proc = some c → c < s.nextProc
  owner : ∀ a x, s.objects a = some x → x.waited_ = false → ∃ c, x.proc = some c ∧ s.children x.pid_ = some c
  others : ∀ a b x y c, s.objects a = some x → s.objects b = some y → x.waited_ = false → x.proc = some c →
    y.proc = some c → b ≠ a → y.handedOver = true
  handed : ∀ a x, s.objects a = some x → x.handedOver = true → x.waited_ = true
  busy : ∀ a x, s.objects a = some x → x.activity ≠ .idle → x.waited_ = false
  reaped : ∀ e ∈ s.events, ∀ c rawStatus, e.Reaps c rawStatus → c < s.nextProc ∧ (∀ n, s.children n ≠ some c) ∧
    ∀ a x, s.objects a = some x → x.proc = some c → x.handedOver = false → x.status_ = .fromWaitStatus rawStatus
  own : ∀ e ∈ s.events, e.Own
  silent : s.events.Pairwise fun e e' => ∀ c rawStatus, e.Reaps c rawStatus → ¬ e'.Touches c
  recorded : s.events.Pairwise fun e e' => ∀ c rawStatus, e.Reaps c rawStatus → e'.Answers c rawStatus

omit [DecidableEq Obj] in
/-- The invariant of the start. -/
theorem inv_start : Inv (start : Sys Obj) := by
  constructor <;> simp [start]

omit [DecidableEq Obj] in
/-- Two objects that have not been waited for have different pids. -/
theorem Inv.one_owner (hinv : Inv s) (hx : s.objects a = some x) (hy : s.objects b = some y)
    (hxw : x.waited_ = false) (hyw : y.waited_ = false) (hpid : x.pid_ = y.pid_) : a = b := by
  obtain ⟨c, hxc, hc⟩ := hinv.owner a x hx hxw
  obtain ⟨d, hyd, hd⟩ := hinv.owner b y hy hyw
  -- the pid names one child, so both objects have its process
  obtain rfl : c = d := by rwa [hpid, hd, Option.some.injEq, eq_comm] at hc
  by_contra hne
  have hh := hinv.others a b x y c hx hy hxw hxc hyd (Ne.symm hne)
  rw [hinv.handed b y hy hh] at hyw
  cases hyw

omit [DecidableEq Obj] in
/-- The invariant gives what is claimed. -/
theorem Inv.safe (hinv : Inv s) : Safe s where
  own := hinv.own
  silent := hinv.silent
  recorded := hinv.recorded
  one_owner := fun _ _ _ _ hx hy => hinv.one_owner hx hy

omit [DecidableEq Obj] in
/-- A child that is still there has not been reaped. -/
theorem Inv.not_reaped (hinv : Inv s) (hc : s.children n = some c) (he : e ∈ s.events) : ¬ e.Reaps c rawStatus :=
  fun h => (hinv.reaped e he c rawStatus h).2.1 n hc

/-! ### The parts of a step -/

theorem set_objects_eq_some : (s.set a x).objects b = some y ↔ (b = a ∧ x = y) ∨ (b ≠ a ∧ s.objects b = some y) := by
  by_cases hb : b = a
  · subst hb
    simp [Sys.set]
  · simp [Sys.set, hb]

theorem set_objects_self : (s.set a x).objects a = some x := Function.update_self ..

omit [DecidableEq Obj] in
theorem forget_children_eq_some {m : ℕ} :
    (s.forget n).children m = some c ↔ m ≠ n ∧ s.children m = some c := by
  by_cases hm : m = n
  · subst hm
    simp [Sys.forget]
  · simp [Sys.forget, hm]

omit [DecidableEq Obj] in
/-- **An event** may be noted that reaps no child of another object. -/
theorem Inv.note (hinv : Inv s) (hown : e.Own)
    (hreaps : ∀ c rawStatus, e.Reaps c rawStatus → c < s.nextProc ∧ (∀ n, s.children n ≠ some c) ∧
      ∀ a x, s.objects a = some x → x.proc = some c → x.handedOver = false → x.status_ = .fromWaitStatus rawStatus)
    (hlate : ∀ e' ∈ s.events, ∀ c rawStatus, e'.Reaps c rawStatus → ¬ e.Touches c ∧ e.Answers c rawStatus) :
    Inv (s.note e) where
  child_lt := hinv.child_lt
  child_inj := hinv.child_inj
  proc_lt := hinv.proc_lt
  owner := hinv.owner
  others := hinv.others
  handed := hinv.handed
  busy := hinv.busy
  reaped := by
    intro e' he'
    rcases List.mem_append.1 he' with he' | he'
    · exact hinv.reaped e' he'
    · rw [List.mem_singleton.1 he']
      exact hreaps
  own := by
    intro e' he'
    rcases List.mem_append.1 he' with he' | he'
    · exact hinv.own e' he'
    · rw [List.mem_singleton.1 he']
      exact hown
  silent := by
    refine List.pairwise_append.2 ⟨hinv.silent, List.pairwise_singleton _ _, fun e' he' f hf c rawStatus hr => ?_⟩
    rw [List.mem_singleton.1 hf]
    exact (hlate e' he' c rawStatus hr).1
  recorded := by
    refine List.pairwise_append.2 ⟨hinv.recorded, List.pairwise_singleton _ _, fun e' he' f hf c rawStatus hr => ?_⟩
    rw [List.mem_singleton.1 hf]
    exact (hlate e' he' c rawStatus hr).2

/-- An object that fits in with what the others have. -/
theorem Inv.put (hinv : Inv s) (hproc : ∀ c, x'.proc = some c → c < s.nextProc)
    (howner : x'.waited_ = false → ∃ c, x'.proc = some c ∧ s.children x'.pid_ = some c)
    (hothers : ∀ b y c, b ≠ a → s.objects b = some y → x'.proc = some c → y.proc = some c →
      (x'.waited_ = false → y.handedOver = true) ∧ (y.waited_ = false → x'.handedOver = true))
    (hhanded : x'.handedOver = true → x'.waited_ = true) (hbusy : x'.activity ≠ .idle → x'.waited_ = false)
    (hreaped : ∀ e ∈ s.events, ∀ c rawStatus, e.Reaps c rawStatus → x'.proc = some c → x'.handedOver = false →
      x'.status_ = .fromWaitStatus rawStatus) : Inv (s.set a x') := by
  refine ⟨hinv.child_lt, hinv.child_inj, fun b y c hy hc => ?_, fun b y hy hw => ?_,
    fun b b' y z c hy hz hw hyc hzc hne => ?_, fun b y hy hh => ?_, fun b y hy hb => ?_,
    fun e he c rawStatus hr => ?_, hinv.own, hinv.silent, hinv.recorded⟩
  · obtain ⟨-, rfl⟩ | ⟨-, hy⟩ := set_objects_eq_some.1 hy
    · exact hproc c hc
    · exact hinv.proc_lt b y c hy hc
  · obtain ⟨-, rfl⟩ | ⟨-, hy⟩ := set_objects_eq_some.1 hy
    · exact howner hw
    · exact hinv.owner b y hy hw
  · rcases set_objects_eq_some.1 hy with ⟨rfl, rfl⟩ | ⟨hb, hy'⟩ <;>
      rcases set_objects_eq_some.1 hz with ⟨rfl, rfl⟩ | ⟨hb', hz'⟩
    · exact absurd rfl hne
    · exact (hothers b' z c hb' hz' hyc hzc).1 hw
    · exact (hothers b y c hb hy' hzc hyc).2 hw
    · exact hinv.others b b' y z c hy' hz' hw hyc hzc hne
  · obtain ⟨-, rfl⟩ | ⟨-, hy⟩ := set_objects_eq_some.1 hy
    · exact hhanded hh
    · exact hinv.handed b y hy hh
  · obtain ⟨-, rfl⟩ | ⟨-, hy⟩ := set_objects_eq_some.1 hy
    · exact hbusy hb
    · exact hinv.busy b y hy hb
  · obtain ⟨hlt, hgone, hst⟩ := hinv.reaped e he c rawStatus hr
    refine ⟨hlt, hgone, fun b y hy hc hh => ?_⟩
    obtain ⟨-, rfl⟩ | ⟨-, hy⟩ := set_objects_eq_some.1 hy
    · exact hreaped e he c rawStatus hr hc hh
    · exact hst b y hy hc hh

/-- An object goes on with its method, or is not waited for any more. -/
theorem Inv.set (hinv : Inv s) (hx : s.objects a = some x) (hpid : x'.pid_ = x.pid_) (hproc : x'.proc = x.proc)
    (hhanded : x'.handedOver = x.handedOver) (hwaited : x'.waited_ = false → x.waited_ = false)
    (hstatus : x.waited_ = true → x'.status_ = x.status_) (hbusy : x'.activity ≠ .idle → x'.waited_ = false) :
    Inv (s.set a x') := by
  refine hinv.put (fun c hc => hinv.proc_lt a x c hx (hproc ▸ hc)) (fun hw => ?_)
    (fun b y c hb hy hc hyc => ⟨fun hw => ?_, fun hw => ?_⟩) (fun hh => ?_) hbusy fun e he c rawStatus hr hc hh => ?_
  · rw [hproc, hpid]
    exact hinv.owner a x hx (hwaited hw)
  · exact hinv.others a b x y c hx hy (hwaited hw) (hproc ▸ hc) hyc hb
  · rw [hhanded]
    exact hinv.others b a y x c hy hx hw hyc (hproc ▸ hc) (Ne.symm hb)
  · have hxw := hinv.handed a x hx (hhanded ▸ hh)
    by_contra hw
    rw [hwaited (Bool.eq_false_iff.2 hw)] at hxw
    cases hxw
  · obtain ⟨-, hgone, hst⟩ := hinv.reaped e he c rawStatus hr
    rw [hproc] at hc
    cases hxw : x.waited_ with
    | true => rw [hstatus hxw, hst a x hx hc (hhanded ▸ hh)]
    | false =>
      -- the process of an object that has not been waited for is a child
      obtain ⟨d, hd, hchild⟩ := hinv.owner a x hx hxw
      rw [hd] at hc
      exact absurd (hchild.trans hc) (hgone _)

omit [DecidableEq Obj] in
/-- A child may be forgotten that no object waits for. -/
theorem Inv.forget (hinv : Inv s) (hfree : ∀ b y, s.objects b = some y → y.waited_ = false → y.pid_ ≠ n) :
    Inv (s.forget n) := by
  have hchild : ∀ m c, (s.forget n).children m = some c → s.children m = some c :=
    fun m c h => (forget_children_eq_some.1 h).2
  refine ⟨fun m c h => hinv.child_lt m c (hchild m c h),
    fun m m' c h h' => hinv.child_inj m m' c (hchild m c h) (hchild m' c h'), hinv.proc_lt, fun b y hy hw => ?_,
    hinv.others, hinv.handed, hinv.busy, fun e he c rawStatus hr => ?_, hinv.own, hinv.silent, hinv.recorded⟩
  · obtain ⟨c, hc, hp⟩ := hinv.owner b y hy hw
    exact ⟨c, hc, forget_children_eq_some.2 ⟨hfree b y hy hw, hp⟩⟩
  · obtain ⟨hlt, hgone, hst⟩ := hinv.reaped e he c rawStatus hr
    exact ⟨hlt, fun m h => hgone m (hchild m c h), hst⟩

/-! ### Signals and answers -/

omit [DecidableEq Obj] in
/-- A call on the own child, which has not been reaped. -/
theorem Inv.not_touches (hinv : Inv s) (hx : s.objects a = some x) (hw : x.waited_ = false) (he : e ∈ s.events)
    (hr : e.Reaps c rawStatus) : ¬ (x.proc = some c ∨ s.children x.pid_ = some c) := by
  obtain ⟨d, hd, hchild⟩ := hinv.owner a x hx hw
  rw [hd, hchild, or_self]
  rintro h
  exact hinv.not_reaped (hchild.trans h) he hr

omit [DecidableEq Obj] in
/-- An object that has not waited has its child. -/
theorem Inv.own_child (hinv : Inv s) (hx : s.objects a = some x) (hw : x.waited_ = false) :
    (s.children x.pid_).isSome ∧ s.children x.pid_ = x.proc := by
  obtain ⟨c, hc, hchild⟩ := hinv.owner a x hx hw
  rw [hchild, hc]
  exact ⟨rfl, rfl⟩

omit [DecidableEq Obj] in
theorem sendSignal_objects (signo : ℕ) : (sendSignal s x signo).objects = s.objects := by
  unfold sendSignal
  split <;> rfl

omit [DecidableEq Obj] in
/-- A signal goes to a child that is there. -/
theorem Inv.sendSignal (hinv : Inv s) (hx : s.objects a = some x) (signo : ℕ) : Inv (sendSignal s x signo) := by
  unfold SpawnedProcess.sendSignal
  split
  · exact hinv
  · rename_i hw
    rw [Bool.not_eq_true] at hw
    exact hinv.note (hinv.own_child hx hw) nofun fun e he c rawStatus hr => ⟨hinv.not_touches hx hw he hr, trivial⟩

/-- An object goes into a call. -/
theorem Inv.enter (hinv : Inv s) (hx : s.objects a = some x) (hw : x.waited_ = false) (activity : Activity) :
    Inv (enter s a x activity) :=
  hinv.set hx rfl rfl rfl id (fun _ => rfl) fun _ => hw

/-- **A call returns** with the status that was reaped. -/
theorem Inv.answer (hinv : Inv s) (hx : s.objects a = some x) {ans : Answer}
    (hans : ∀ e ∈ s.events, ∀ c rawStatus, e.Reaps c rawStatus → x.proc = some c → x.handedOver = false →
      ans = .status (.fromWaitStatus rawStatus) ∨ ans = .bool true) : Inv (answer s a x ans) := by
  unfold SpawnedProcess.answer
  refine Inv.note ?_ trivial nofun fun e he c rawStatus hr => ⟨id, hans e he c rawStatus hr⟩
  exact hinv.set hx rfl rfl rfl id (fun _ => rfl) fun h => absurd rfl h

/-- An object that has been waited for answers with its status. -/
theorem Inv.answer_status (hinv : Inv s) (hx : s.objects a = some x) :
    Inv (SpawnedProcess.answer s a x (.status x.status_)) :=
  hinv.answer hx fun e he c rawStatus hr hc hh =>
    .inl (congrArg Answer.status ((hinv.reaped e he c rawStatus hr).2.2 a x hx hc hh))

theorem Inv.answer_true (hinv : Inv s) (hx : s.objects a = some x) :
    Inv (SpawnedProcess.answer s a x (.bool true)) :=
  hinv.answer hx fun _ _ _ _ _ _ _ => .inr rfl

/-- The process of an object that has not been waited for has not been reaped. -/
theorem Inv.answer_any (hinv : Inv s) (hx : s.objects a = some x) (hw : x.waited_ = false) (ans : Answer) :
    Inv (SpawnedProcess.answer s a x ans) :=
  hinv.answer hx fun _ he _ _ hr hc _ => absurd (.inl hc) (hinv.not_touches hx hw he hr)

/-! ### The methods -/

theorem Inv.terminated (hinv : Inv s) (hx : s.objects a = some x) : Inv (terminated s a x) := by
  unfold SpawnedProcess.terminated
  split
  · exact hinv.answer_true hx
  · exact hinv.enter hx (Bool.not_eq_true _ ▸ ‹_›) _

/-- The check at the top of the methods that wait. -/
theorem Inv.unless_waited (hinv : Inv s) (hx : s.objects a = some x) (h : x.waited_ = false → Inv s') :
    Inv (if x.waited_ then SpawnedProcess.answer s a x (.status x.status_) else s') := by
  split
  · exact hinv.answer_status hx
  · exact h (Bool.not_eq_true _ ▸ ‹_›)

/-- `wait` asks the kernel unless it has the status already. -/
theorem Inv.wait (hinv : Inv s) (hx : s.objects a = some x) : Inv (wait s a x) :=
  hinv.unless_waited hx fun hw => hinv.enter hx hw _

/-- `waitTimeout` polls. -/
theorem Inv.waitTimeout (hinv : Inv s) (hx : s.objects a = some x) : Inv (waitTimeout s a x) :=
  hinv.unless_waited hx fun hw => hinv.enter hx hw _

theorem Inv.waitOrTerminateOrKill (hinv : Inv s) (hx : s.objects a = some x) :
    Inv (waitOrTerminateOrKill s a x) :=
  hinv.unless_waited hx fun hw => hinv.enter hx hw _

theorem Inv.terminateOrKill (hinv : Inv s) (hx : s.objects a = some x) : Inv (terminateOrKill s a x) := by
  refine hinv.unless_waited hx fun hw => ?_
  have hx' : (terminate s x).objects a = some x := by
    rw [terminate, sendSignal_objects]
    exact hx
  exact (hinv.sendSignal hx SIGTERM).enter hx' hw _

/-- What a poll gives is handed to its caller. -/
theorem Inv.waitTimeoutReturned (hinv : Inv s) (hx : s.objects a = some x)
    (hstatus : x.waited_ = true → status = x.status_) (caller : Caller) :
    Inv (waitTimeoutReturned s a x status caller) := by
  cases caller with
  | user =>
    cases hw : x.waited_ with
    | true =>
      rw [SpawnedProcess.waitTimeoutReturned, hstatus hw]
      exact hinv.answer_status hx
    | false => exact hinv.answer_any hx hw _
  | waitOrTerminateOrKill => exact hinv.unless_waited hx fun _ => hinv.terminateOrKill hx
  | terminateOrKill =>
    refine hinv.unless_waited hx fun _ => ?_
    have hx' : (SpawnedProcess.kill s x).objects a = some x := by
      rw [SpawnedProcess.kill, sendSignal_objects]
      exact hx
    exact (hinv.sendSignal hx SIGKILL).wait hx'

/-! ### `waitpid` -/

/-- **The child is gone.** The kernel forgets it, and the object is waited for in the same step. -/
theorem Inv.gone (hinv : Inv s) (hx : s.objects a = some x) (hw : x.waited_ = false)
    (hstatus : ∀ rawStatus, result = .pid rawStatus → status = .fromWaitStatus rawStatus) :
    Inv (((s.note (.waitpid x.proc x.pid_ (s.children x.pid_) result)).forget x.pid_).set a
      (recordStatus x status)) := by
  obtain ⟨c, hc, hchild⟩ := hinv.owner a x hx hw
  have hset : Inv (s.set a (recordStatus x status)) := by
    refine hinv.set hx rfl rfl rfl (fun h => nomatch h) (fun h => ?_) fun h => absurd rfl h
    rw [hw] at h
    cases h
  -- no other object that has not been waited for has this pid
  have hforget : Inv ((s.set a (recordStatus x status)).forget x.pid_) := by
    refine hset.forget fun b y hy hyw hpid => ?_
    obtain ⟨rfl, rfl⟩ | ⟨hb, hy⟩ := set_objects_eq_some.1 hy
    · cases hyw
    · exact hb (hinv.one_owner hy hx hyw hw hpid)
  refine hforget.note (e := .waitpid x.proc x.pid_ (s.children x.pid_) result) (hinv.own_child hx hw) ?_ ?_
  · rintro d rawStatus ⟨hd, hr⟩
    obtain rfl : c = d := Option.some.inj (hchild.symm.trans hd)
    refine ⟨hinv.child_lt _ c hchild, fun n hn => ?_, fun b y hy hyc hyh => ?_⟩
    · obtain ⟨hne, hn⟩ := forget_children_eq_some.1 hn
      exact hne (hinv.child_inj n _ c hn hchild)
    · obtain ⟨rfl, rfl⟩ | ⟨hb, hy⟩ := set_objects_eq_some.1 hy
      · exact hstatus rawStatus hr
      -- another object with the process has handed it over
      · rw [hinv.others a b x y c hx hy hw hc hyc hb] at hyh
        cases hyh
  · exact fun e he d rawStatus hr => ⟨hinv.not_touches hx hw he hr, trivial⟩

omit [DecidableEq Obj] in
/-- The child stays. -/
theorem Inv.still (hinv : Inv s) (hx : s.objects a = some x) (hw : x.waited_ = false)
    (hr : ∀ rawStatus, result ≠ .pid rawStatus) :
    Inv (s.note (.waitpid x.proc x.pid_ (s.children x.pid_) result)) :=
  hinv.note (hinv.own_child hx hw) (fun _ rawStatus h => absurd h.2 (hr rawStatus))
    fun _ he _ _ hr' => ⟨hinv.not_touches hx hw he hr', trivial⟩

/-- What the methods find behind a `waitpid`. -/
structure Waited (s' : Sys Obj) (a : Obj) (x : SpawnedProcess) (result : WaitResult) : Prop where
  pid : ∀ rawStatus, result = .pid rawStatus → Inv (s'.set a (recordStatus x (.fromWaitStatus rawStatus)))
  noChild : result = .failed .ECHILD → Inv (s'.set a (recordStatus x successfullyFinished))
  still : (∀ rawStatus, result ≠ .pid rawStatus) → result ≠ .failed .ECHILD → Inv s'
  objects : s'.objects a = some x

/-- **`waitpid`** reaps the own child, or finds it running. -/
theorem Inv.waitpid (hinv : Inv s) (hx : s.objects a = some x) (hw : x.waited_ = false) {blocking : Bool}
    (h : waitpid s x blocking result = some s') : Waited s' a x result := by
  unfold SpawnedProcess.waitpid at h
  split at h
  · split at h
    · obtain rfl := Option.some.inj h
      exact ⟨fun rawStatus hr => hinv.gone hx hw fun _ hr' => by cases hr; cases hr'; rfl, nofun,
        fun hr => absurd rfl (hr _), hx⟩
    · cases h
  · split at h
    · obtain rfl := Option.some.inj h
      exact ⟨nofun, nofun, fun hr _ => hinv.still hx hw hr, hx⟩
    · cases h
  · obtain rfl := Option.some.inj h
    exact ⟨nofun, fun _ => hinv.gone hx hw nofun, fun _ hr => absurd rfl hr, hx⟩
  · rename_i hne
    obtain rfl := Option.some.inj h
    exact ⟨nofun, fun hr => absurd (WaitResult.failed.inj hr) hne, fun hr _ => hinv.still hx hw hr, hx⟩

/-- The answer of `terminated`. -/
theorem Waited.terminatedReturned (h : Waited s a x result) (hw : x.waited_ = false) :
    Inv (terminatedReturned s a x result) := by
  unfold SpawnedProcess.terminatedReturned
  split
  · exact (h.pid _ rfl).answer_true set_objects_self
  · exact (h.noChild rfl).answer_true set_objects_self
  · exact (h.still nofun nofun).answer_any h.objects hw _
  · rename_i hne
    exact (h.still nofun fun he => hne (WaitResult.failed.inj he)).answer_any h.objects hw _

/-- The answer of a poll. -/
theorem Waited.waitTimeoutWaited (h : Waited s a x result) (hw : x.waited_ = false) (caller : Caller)
    (deadlinePassed : Bool) : Inv (waitTimeoutWaited s a x caller deadlinePassed result) := by
  have hrunning : Inv s →
      Inv (if deadlinePassed then SpawnedProcess.waitTimeoutReturned s a x ⟨.Running, 0⟩ caller else s) := by
    intro hinv
    split
    · refine hinv.waitTimeoutReturned h.objects (fun ht => ?_) caller
      rw [hw] at ht
      cases ht
    · exact hinv
  unfold SpawnedProcess.waitTimeoutWaited
  split
  · exact (h.pid _ rfl).waitTimeoutReturned set_objects_self (fun _ => rfl) caller
  · exact (h.noChild rfl).waitTimeoutReturned set_objects_self (fun _ => rfl) caller
  · exact hrunning (h.still nofun nofun)
  · rename_i hne
    exact hrunning (h.still nofun fun he => hne (WaitResult.failed.inj he))

/-- The answer of `wait`. -/
theorem Waited.waitWaited (h : Waited s a x result) (hw : x.waited_ = false) : Inv (waitWaited s a x result) := by
  unfold SpawnedProcess.waitWaited
  split
  · exact (h.pid _ rfl).answer_status set_objects_self
  · exact (h.noChild rfl).answer_status set_objects_self
  · exact h.still nofun nofun
  · rename_i errno hne _
    have hinv := h.still nofun fun he => hne (WaitResult.failed.inj he)
    -- the child is still there, but no one waits for it any more
    have hset : Inv (s.set a { x with waited_ := true, activity := .idle }) := by
      exact hinv.set h.objects rfl rfl rfl (fun ht => nomatch ht) (fun _ => rfl) fun ht => absurd rfl ht
    exact hset.answer set_objects_self fun e he c rawStatus hr hc _ =>
      absurd (.inl hc) (hinv.not_touches h.objects hw he hr)
  · exact h.still nofun nofun

theorem Inv.waitpidReturned (hinv : Inv s) {deadlinePassed : Bool}
    (h : waitpidReturned s a result deadlinePassed = some s') : Inv s' := by
  unfold SpawnedProcess.waitpidReturned at h
  split at h
  · cases h
  rename_i x hx
  split at h
  · cases h
  · rename_i hact
    obtain ⟨s₁, h1, rfl⟩ := Option.map_eq_some_iff.1 h
    have hw := hinv.busy a x hx (by rw [hact]; nofun)
    exact (hinv.waitpid hx hw h1).terminatedReturned hw
  · rename_i caller hact
    obtain ⟨s₁, h1, rfl⟩ := Option.map_eq_some_iff.1 h
    have hw := hinv.busy a x hx (by rw [hact]; nofun)
    exact (hinv.waitpid hx hw h1).waitTimeoutWaited hw caller deadlinePassed
  · rename_i hact
    obtain ⟨s₁, h1, rfl⟩ := Option.map_eq_some_iff.1 h
    have hw := hinv.busy a x hx (by rw [hact]; nofun)
    exact (hinv.waitpid hx hw h1).waitWaited hw

/-! ### New objects and moves -/

omit [DecidableEq Obj] in
theorem idle_eq_some (h : s.idle a = some x) : s.objects a = some x ∧ x.activity = .idle := by
  obtain ⟨hx, hi⟩ := Option.filter_eq_some_iff.1 h
  exact ⟨hx, of_decide_eq_true hi⟩

/-- An object without a process. -/
theorem Inv.default (hinv : Inv s) : Inv (s.set a {}) :=
  hinv.put nofun nofun nofun nofun (fun h => absurd rfl h) nofun

omit [DecidableEq Obj] in
/-- The kernel has a new child. -/
theorem Inv.grow (hinv : Inv s) {pid : ℕ} (hpid : s.children pid = none) :
    Inv { s with children := Function.update s.children pid (some s.nextProc), nextProc := s.nextProc + 1 } := by
  have hchild : ∀ n c, Function.update s.children pid (some s.nextProc) n = some c →
      (n = pid ∧ c = s.nextProc) ∨ (n ≠ pid ∧ s.children n = some c) := by
    intro n c hn
    by_cases hne : n = pid
    · rw [hne, Function.update_self] at hn
      exact .inl ⟨hne, (Option.some.inj hn).symm⟩
    · rw [Function.update_of_ne hne] at hn
      exact .inr ⟨hne, hn⟩
  refine ⟨fun n c hn => ?_, fun n m c hn hm => ?_, fun b y c hy hc => Nat.lt_succ_of_lt (hinv.proc_lt b y c hy hc),
    fun b y hy hw => ?_, hinv.others, hinv.handed, hinv.busy, fun e he c rawStatus hr => ?_, hinv.own, hinv.silent,
    hinv.recorded⟩
  · obtain ⟨-, rfl⟩ | ⟨-, hn⟩ := hchild n c hn
    · exact Nat.lt_succ_self _
    · exact Nat.lt_succ_of_lt (hinv.child_lt n c hn)
  · rcases hchild n c hn with ⟨rfl, hc⟩ | ⟨-, hn'⟩ <;> rcases hchild m c hm with ⟨rfl, hc'⟩ | ⟨-, hm'⟩
    · rfl
    · have := hinv.child_lt m c hm'
      omega
    · have := hinv.child_lt n c hn'
      omega
    · exact hinv.child_inj n m c hn' hm'
  · obtain ⟨c, hc, hp⟩ := hinv.owner b y hy hw
    refine ⟨c, hc, (Function.update_of_ne (fun e => ?_) _ _).trans hp⟩
    rw [e, hpid] at hp
    cases hp
  · obtain ⟨hlt, hgone, hst⟩ := hinv.reaped e he c rawStatus hr
    refine ⟨Nat.lt_succ_of_lt hlt, fun n hn => ?_, hst⟩
    obtain ⟨-, rfl⟩ | ⟨-, hn⟩ := hchild n c hn
    · exact absurd hlt (Nat.lt_irrefl _)
    · exact hgone n hn

/-- A spawned process is nobody else's. -/
theorem Inv.spawn (hinv : Inv s) {pid : ℕ} (h : spawn s a pid = some s') : Inv s' := by
  unfold SpawnedProcess.spawn at h
  split at h
  · cases h
  rename_i hfree
  obtain rfl := Option.some.inj h
  rw [not_or, not_or] at hfree
  refine (hinv.grow (Option.not_isSome_iff_eq_none.1 hfree.2.2)).put (fun c hc => ?_) (fun _ => ?_)
    (fun b y c _ hy hc hyc => ?_) nofun (fun h => absurd rfl h) fun e he c rawStatus hr hc _ => ?_
  · rw [← Option.some.inj hc]
    exact Nat.lt_succ_self _
  · exact ⟨s.nextProc, rfl, Function.update_self ..⟩
  · rw [← Option.some.inj hc] at hyc
    exact absurd (hinv.proc_lt b y _ hy hyc) (Nat.lt_irrefl _)
  · have hlt := (hinv.reaped e he c rawStatus hr).1
    rw [← Option.some.inj hc] at hlt
    exact absurd hlt (Nat.lt_irrefl _)

/-- **A move** transfers the obligation to wait. -/
theorem Inv.moveFrom (hinv : Inv s) (hy : s.objects that = some y) (hx : x.activity = .idle)
    (hyi : y.activity = .idle) (hne : that ≠ a) (h : moveFrom s a that x y = some s') : Inv s' := by
  unfold SpawnedProcess.moveFrom at h
  split at h
  · cases h
  obtain rfl := Option.some.inj h
  set y' : SpawnedProcess := { y with waited_ := true, handedOver := y.handedOver || !y.waited_ }
  -- `that` gives its process up before the other object has it
  have hthat : Inv (s.set that y') := by
    refine hinv.put (fun c hc => hinv.proc_lt that y c hy hc) nofun
      (fun b z c hb hz hc hzc => ⟨nofun, fun hw => ?_⟩) (fun _ => rfl) (fun h => absurd hyi h)
      fun e he c rawStatus hr hc hh => ?_
    · simp [y', hinv.others b that z y c hz hy hw hzc hc (Ne.symm hb)]
    · exact (hinv.reaped e he c rawStatus hr).2.2 that y hy hc (Bool.or_eq_false_iff.1 hh).1
  have hcomm : ∀ z, (s.set a z).set that y' = (s.set that y').set a z := by
    intro z
    unfold Sys.set
    rw [Function.update_comm hne]
  rw [hcomm]
  refine hthat.put (fun c hc => hinv.proc_lt that y c hy hc) (fun hw => hinv.owner that y hy hw)
    (fun b z c hb hz hc hzc => ?_) (fun hh => hinv.handed that y hy hh) (fun h => absurd hx h)
    fun e he c rawStatus hr hc hh => (hinv.reaped e he c rawStatus hr).2.2 that y hy hc hh
  obtain ⟨rfl, rfl⟩ | ⟨hbt, hz⟩ := set_objects_eq_some.1 hz
  · refine ⟨fun hw => ?_, nofun⟩
    have hyw : y.waited_ = false := hw
    simp [y', hyw]
  · exact ⟨fun hw => hinv.others that b y z c hy hz hw hc hzc hbt,
      fun hw => hinv.others b that z y c hz hy hw hzc hc (Ne.symm hbt)⟩

/-- A moved-from object has no child. -/
theorem Inv.moveConstruct (hinv : Inv s) (h : moveConstruct s a that = some s') : Inv s' := by
  unfold SpawnedProcess.moveConstruct at h
  split at h
  · rename_i y ha hthat
    obtain ⟨hy, hyi⟩ := idle_eq_some hthat
    refine hinv.moveFrom hy rfl hyi ?_ h
    rintro rfl
    rw [ha] at hy
    cases hy
  · cases h

/-- **A move assignment** hands over the child. -/
theorem Inv.moveAssign (hinv : Inv s) (h : moveAssign s a that = some s') : Inv s' := by
  unfold SpawnedProcess.moveAssign at h
  split at h
  · rename_i x y ha hthat
    split at h
    · exact Option.some.inj h ▸ hinv
    · obtain ⟨hy, hyi⟩ := idle_eq_some hthat
      exact hinv.moveFrom hy (idle_eq_some ha).2 hyi ‹_› h
  · cases h

/-- The destructor looks at an object that has waited. -/
theorem Inv.destroy (hinv : Inv s) (h : destroy s a = some s') : Inv s' := by
  unfold SpawnedProcess.destroy at h
  split at h
  · split at h
    · obtain rfl := Option.some.inj h
      have hobj : ∀ b y, Function.update s.objects a none b = some y → s.objects b = some y := by
        intro b y hy
        by_cases hb : b = a
        · rw [hb, Function.update_self] at hy
          cases hy
        · rwa [Function.update_of_ne hb] at hy
      exact
        { hinv with
          proc_lt := fun b y c hy => hinv.proc_lt b y c (hobj b y hy)
          owner := fun b y hy => hinv.owner b y (hobj b y hy)
          others := fun b b' y z c hy hz => hinv.others b b' y z c (hobj b y hy) (hobj b' z hz)
          handed := fun b y hy => hinv.handed b y (hobj b y hy)
          busy := fun b y hy => hinv.busy b y (hobj b y hy)
          reaped := by
            intro e he c rawStatus hr
            obtain ⟨hlt, hgone, hst⟩ := hinv.reaped e he c rawStatus hr
            exact ⟨hlt, hgone, fun b y hy => hst b y (hobj b y hy)⟩ }
    · cases h
  · cases h

/-! ### Whole runs -/

/-- **Every step** keeps the invariant. -/
theorem Inv.step (hinv : Inv s) {op : Op Obj} (h : step s op = some s') : Inv s' := by
  have hidle : ∀ {f : SpawnedProcess → Sys Obj} {a : Obj}, (s.idle a).map f = some s' →
      (∀ x, s.objects a = some x → Inv (f x)) → Inv s' := by
    intro f a hf hinv'
    obtain ⟨x, hx, rfl⟩ := Option.map_eq_some_iff.1 hf
    exact hinv' x (idle_eq_some hx).1
  cases op with
  | default a =>
    rw [SpawnedProcess.step] at h
    split at h
    · cases h
    · exact Option.some.inj h ▸ hinv.default
  | spawn a pid => exact hinv.spawn h
  | moveConstruct a that => exact hinv.moveConstruct h
  | moveAssign a that => exact hinv.moveAssign h
  | destroy a => exact hinv.destroy h
  | sendSignal a signo => exact hidle h fun x hx => hinv.sendSignal hx signo
  | kill a => exact hidle h fun x hx => hinv.sendSignal hx SIGKILL
  | terminate a => exact hidle h fun x hx => hinv.sendSignal hx SIGTERM
  | terminated a => exact hidle h fun x hx => hinv.terminated hx
  | wait a => exact hidle h fun x hx => hinv.wait hx
  | waitTimeout a => exact hidle h fun x hx => hinv.waitTimeout hx
  | waitOrTerminateOrKill a => exact hidle h fun x hx => hinv.waitOrTerminateOrKill hx
  | terminateOrKill a => exact hidle h fun x hx => hinv.terminateOrKill hx
  | waitpid a result deadlinePassed => exact hinv.waitpidReturned h

/-- **No reaped pid is touched**, in any run. -/
theorem reaped_untouched (ops : List (Op Obj)) {s : Sys Obj} (hrun : run step start ops = some s) : Safe s :=
  (run_invariant inv_start (fun _ _ _ hinv h => hinv.step h) ops hrun).safe

/-- A child that is terminated and then killed, and whose pid is given out again. -/
theorem reaped_untouched_killed : ∃ s, run step start [.spawn 0 7, .moveConstruct 1 0, .terminateOrKill 1,
    .waitpid 1 .zero true, .waitpid 1 (.failed .EINTR) false, .waitpid 1 (.pid 9) false, .spawn 2 7, .kill 1,
    .wait 1] = some (s : Sys ℕ) ∧ Safe s :=
  ⟨_, rfl, reaped_untouched [.spawn 0 7, .moveConstruct 1 0, .terminateOrKill 1, .waitpid 1 .zero true,
    .waitpid 1 (.failed .EINTR) false, .waitpid 1 (.pid 9) false, .spawn 2 7, .kill 1, .wait 1] rfl⟩

/-- An object that was moved from before its process was reaped answers with the status it
had then. -/
theorem stale_status : ∃ s, run step start [.spawn 0 7, .moveConstruct 1 0, .wait 1, .waitpid 1 (.pid 0) false,
    .wait 0] = some (s : Sys ℕ) ∧ ¬ s.events.Pairwise fun e e' => ∀ c rawStatus, e.Reaps c rawStatus →
      ∀ handedOver status, e' = .returns (some c) handedOver (.status status) → status = .fromWaitStatus rawStatus := by
  refine ⟨_, rfl, fun h => ?_⟩
  have hlast := (List.pairwise_cons.1 h).1 (.returns (some 0) true (.status {})) (by decide) 0 0 ⟨rfl, rfl⟩
    true {} rfl
  exact absurd hlast (by decide)

end SpawnedProcess

end EdenCommon
