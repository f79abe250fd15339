import Mathlib.Data.Int.Notation
import Mathlib.Data.Nat.Notation

/-!
# `ProcessInfoCache`

The callers and the worker thread of `ProcessInfoCache.cpp`, up to the destructor. Each
critical section is one step, and so is each call of the semaphore: a caller enqueues
under the lock and posts in a later step, so anything can happen in between.

The thread-local cache, the clock, `readInfo_` and the number of counts `tryWait` takes
are answers of the environment and stand in the operations. A promise is a number; it is
fulfilled when it stands in the results. The last fields of `Sys` record what happened
and are read by nothing.
-/

namespace EdenCommon

namespace ProcessInfoCache

abbrev Pid := ℤ

/-- `std::chrono::steady_clock` nanoseconds. -/
abbrev Time := ℤ

abbrev PromiseId := ℕ

/-- `detail::ProcessInfoNode`; the future for quick access is the promise's. -/
structure Node where
  info_ : PromiseId
  lastAccess_ : Time
  deriving DecidableEq, Repr

/-- What `state_` guards. -/
structure State where
  infos : List (Pid × Node)
  lookupQueue : List (Pid × PromiseId)
  getAllQueue : List PromiseId
  deriving DecidableEq, Repr

/-- Where a thread stands in a call. -/
inductive Caller
  /-- `lookup`, in front of the lock. -/
  | lookup (pid : Pid) (now : Time)
  /-- `add`, in front of the read lock. -/
  | add (pid : Pid) (now : Time)
  /-- `add` has not found the pid and is in front of the write lock. -/
  | addUpdate (pid : Pid) (now : Time)
  /-- `getAllProcessInfos`, in front of the lock. -/
  | getAll
  /-- The request is queued and the lock released; `sem_.post()` is next, and then
  `getAllProcessInfos` waits for its promise. -/
  | post (promise : Option PromiseId)
  | waiting (promise : PromiseId)
  | returned
  deriving DecidableEq, Repr

def Caller.owesPost : Caller → Bool
  | .post _ => true
  | _ => false

/-- Where the worker stands in its loop, with its half of the double-buffered queues. -/
inductive Worker (Info : Type)
  /-- In front of `sem_.wait()`. -/
  | wait
  /-- In front of the lock. -/
  | woken
  /-- The queues are swapped; `tryWait` is next. -/
  | swapped (lookupQueue : List (Pid × PromiseId)) (getAllQueue : List PromiseId) (currentNamesSize : ℕ)
  /-- In the loop over `lookupQueue`, of which `todo` is left. -/
  | reading (todo : List (Pid × PromiseId)) (size : ℕ) (getAllQueue : List PromiseId) (currentNamesSize : ℕ)
  /-- In front of the lock under which the answer to `getAllQueue` is collected. -/
  | collecting (now : Time) (getAllQueue : List PromiseId)
  /-- In the loop over `getAllQueue`, of which `todo` is left. -/
  | answering (allProcessInfos : List (Pid × Info)) (todo : List PromiseId)

/-- The cache, its callers and its worker. `lookupResults` holds the promises set by
`setWith`, `none` for an exception of `readInfo_`, and `getAllResults` those of
`getAllProcessInfos`, in the order in which they were set. -/
structure Sys (Info : Type) where
  state_ : State
  sem_ : ℕ
  callers : List Caller
  worker : Worker Info
  waterLevel : ℕ
  lookupResults : List (PromiseId × Option Info)
  getAllResults : List (PromiseId × List (Pid × Info))
  nextPromise : PromiseId
  lookupsQueued : List PromiseId
  getAllsQueued : List PromiseId
  lookupsSwapped : List PromiseId
  getAllsSwapped : List PromiseId

/-- One step of one thread. -/
inductive Op (Info : Type)
  /-- A thread calls `lookup(pid)`; `cached` is the node its thread-local cache has. -/
  | lookup (pid : Pid) (now : Time) (cached : Option PromiseId)
  /-- A thread calls `add(pid)`; `cached` is what its thread-local cache says. -/
  | add (pid : Pid) (now : Time) (cached : Bool)
  | getAllProcessInfos
  /-- The `i`-th call goes on to its next step. -/
  | proceed (i : ℕ)
  /-- `sem_.wait()` returns. -/
  | wait
  | swap
  /-- `sem_.tryWait(n)` takes this many counts. -/
  | tryWait (taken : ℕ)
  /-- The next lookup is answered with what `readInfo_` returns or throws. -/
  | readInfo (result : Option Info)
  /-- The lookups are done: the expired infos are cleared if it is time. -/
  | expire (now : Time)
  | collect
  /-- The next `getAllProcessInfos` is answered, or the turn of the worker ends. -/
  | answer

def Op.isWorker {Info : Type} : Op Info → Bool
  | .lookup .. | .add .. | .getAllProcessInfos | .proceed _ => false
  | _ => true

def State.find (st : State) (pid : Pid) : Option Node := st.infos.lookup pid

/-- `recordAccess` on the node with the given promise. -/
def State.recordAccess (st : State) (info : PromiseId) (now : Time) : State :=
  { st with infos := st.infos.map fun e => if e.2.info_ = info then (e.1, { e.2 with lastAccess_ := now }) else e }

def State.clearExpired (st : State) (expiry : Time) (now : Time) : State :=
  { st with infos := st.infos.filter fun e => !(expiry ≤ now - e.2.lastAccess_) }

variable {Info : Type}

/-- The body shared by `lookup` and `add` when the pid is not known: queue a promise and
remember a node for it. -/
def Sys.enqueueLookup (s : Sys Info) (i : ℕ) (pid : Pid) (now : Time) : Sys Info :=
  { s with
    state_ := { s.state_ with
      infos := s.state_.infos ++ [(pid, ⟨s.nextPromise, now⟩)]
      lookupQueue := s.state_.lookupQueue ++ [(pid, s.nextPromise)] }
    callers := s.callers.set i (.post none)
    nextPromise := s.nextPromise + 1
    lookupsQueued := s.lookupsQueued ++ [s.nextPromise] }

/-- `getAllProcessInfos` under the lock. -/
def Sys.enqueueGetAll (s : Sys Info) (i : ℕ) : Sys Info :=
  { s with
    state_ := { s.state_ with getAllQueue := s.state_.getAllQueue ++ [s.nextPromise] }
    callers := s.callers.set i (.post (some s.nextPromise))
    nextPromise := s.nextPromise + 1
    getAllsQueued := s.getAllsQueued ++ [s.nextPromise] }

/-- The next step of the `i`-th call, which stands at `c`. -/
def Sys.proceed (s : Sys Info) (i : ℕ) : Caller → Option (Sys Info)
  | .lookup pid now =>
    match s.state_.find pid with
    | some _ => some { s with callers := s.callers.set i .returned }
    | none => some (s.enqueueLookup i pid now)
  | .add pid now =>
    match s.state_.find pid with
    | some node =>
      some { s with state_ := s.state_.recordAccess node.info_ now, callers := s.callers.set i .returned }
    | none => some { s with callers := s.callers.set i (.addUpdate pid now) }
  | .addUpdate pid now =>
    match s.state_.find pid with
    | some node =>
      some { s with state_ := s.state_.recordAccess node.info_ now, callers := s.callers.set i .returned }
    | none => some (s.enqueueLookup i pid now)
  | .getAll => some (s.enqueueGetAll i)
  | .post none => some { s with sem_ := s.sem_ + 1, callers := s.callers.set i .returned }
  | .post (some p) => some { s with sem_ := s.sem_ + 1, callers := s.callers.set i (.waiting p) }
  | .waiting p =>
    if (s.getAllResults.lookup p).isSome then some { s with callers := s.callers.set i .returned } else none
  | .returned => none

/-- The infos whose future is ready and holds a value. -/
def Sys.allProcessInfos (s : Sys Info) : List (Pid × Info) :=
  s.state_.infos.filterMap fun e => ((s.lookupResults.lookup e.2.info_).bind id).map fun info => (e.1, info)

/-- What `waterLevel` and the infos become when the lookups are done. -/
def Sys.expire (s : Sys Info) (expiry now : Time) (size currentNamesSize : ℕ) : Sys Info :=
  if currentNamesSize < s.waterLevel + 2 * size then
    { s with state_ := s.state_.clearExpired expiry now, waterLevel := 0 }
  else { s with waterLevel := s.waterLevel + 2 * size }

/-- The step function; `none` if the step is not possible. -/
def step (expiry : Time) (s : Sys Info) : Op Info → Option (Sys Info)
  | .lookup pid now cached =>
    match cached with
    | some node => some { s with state_ := s.state_.recordAccess node now }
    | none => some { s with callers := s.callers ++ [.lookup pid now] }
  | .add pid now cached =>
    if cached then some s else some { s with callers := s.callers ++ [.add pid now] }
  | .getAllProcessInfos => some { s with callers := s.callers ++ [.getAll] }
  | .proceed i => s.callers[i]?.bind (s.proceed i)
  | .wait =>
    match s.worker with
    | .wait => if 0 < s.sem_ then some { s with sem_ := s.sem_ - 1, worker := .woken } else none
    | _ => none
  | .swap =>
    match s.worker with
    | .woken =>
      some { s with
        state_ := { s.state_ with lookupQueue := [], getAllQueue := [] }
        worker := .swapped s.state_.lookupQueue s.state_.getAllQueue s.state_.infos.length
        lookupsSwapped := s.lookupsSwapped ++ s.state_.lookupQueue.map Prod.snd
        getAllsSwapped := s.getAllsSwapped ++ s.state_.getAllQueue }
    | _ => none
  | .tryWait taken =>
    match s.worker with
    | .swapped lookups gets currentNamesSize =>
      -- an empty batch makes no call
      if taken ≤ lookups.length + gets.length - 1 ∧ taken ≤ s.sem_ then
        some { s with sem_ := s.sem_ - taken, worker := .reading lookups lookups.length gets currentNamesSize }
      else none
    | _ => none
  | .readInfo result =>
    match s.worker with
    | .reading ((_, p) :: todo) size gets currentNamesSize =>
      some { s with
        lookupResults := s.lookupResults ++ [(p, result)]
        worker := .reading todo size gets currentNamesSize }
    | _ => none
  | .expire now =>
    match s.worker with
    | .reading [] size gets currentNamesSize =>
      some { s.expire expiry now size currentNamesSize with
        worker := if gets = [] then .wait else .collecting now gets }
    | _ => none
  | .collect =>
    match s.worker with
    | .collecting now gets =>
      let cleared := { s with state_ := s.state_.clearExpired expiry now }
      some { cleared with worker := .answering cleared.allProcessInfos gets }
    | _ => none
  | .answer =>
    match s.worker with
    | .answering all (p :: todo) =>
      some { s with getAllResults := s.getAllResults ++ [(p, all)], worker := .answering all todo }
    | .answering _ [] => some { s with worker := .wait }
    | _ => none

/-- The cache as constructed, with the worker started. -/
def init : Sys Info where
  state_ := ⟨[], [], []⟩
  sem_ := 0
  callers := []
  worker := .wait
  waterLevel := 0
  lookupResults := []
  getAllResults := []
  nextPromise := 0
  lookupsQueued := []
  getAllsQueued := []
  lookupsSwapped := []
  getAllsSwapped := []

/-- The queued requests. -/
def Sys.queued (s : Sys Info) : ℕ := s.state_.lookupQueue.length + s.state_.getAllQueue.length

/-- The posts owed by callers that have enqueued but not yet posted. -/
def Sys.owed (s : Sys Info) : ℕ := s.callers.countP Caller.owesPost

/-- The lookups the worker has swapped out and not yet answered. -/
def Worker.pendingLookups : Worker Info → List PromiseId
  | .swapped lookups _ _ => lookups.map Prod.snd
  | .reading todo _ _ _ => todo.map Prod.snd
  | _ => []

/-- The `getAllProcessInfos` requests the worker has swapped out and not yet answered. -/
def Worker.pendingGetAlls : Worker Info → List PromiseId
  | .swapped _ gets _ => gets
  | .reading _ _ gets _ => gets
  | .collecting _ gets => gets
  | .answering _ todo => todo
  | _ => []

end ProcessInfoCache

end EdenCommon
