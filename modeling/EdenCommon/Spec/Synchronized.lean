import EdenCommon.Lib.Run
import EdenCommon.Spec.ProcessInfoCache

/-!
# `tryRlockCheckBeforeUpdate`

The function of `Synchronized.h` in any number of threads on one `folly::Synchronized`, which
has one lock for many readers or one writer. Taking the lock, a callback and giving the lock
back are steps of their own, and the threads step in any order.

The last two fields of `Synchronized` record which calls have come to their result, and in
which the update ran, and are read by nothing.

`addStep` is `ProcessInfoCache::add` in any number of threads: its look into the thread-local
cache, the answer of which is given, and then the function with the callbacks of `add`. The post
of the semaphore behind an update is that of `Caller.post` and no part of it.
-/

namespace EdenCommon

namespace Synchronized

variable {State Return : Type}

/-- The callbacks of a call. The check gets a constant state and still may change what that
points to, so it gives a state too. -/
structure Call (State Return : Type) where
  check : State → Option (State × Return)
  update : State → State × Return

/-- The call as it would be in one piece. -/
def Call.atomic (call : Call State Return) (state : State) : State × Return :=
  match call.check state with
  | some checked => checked
  | none => call.update state

/-- Where a thread stands. -/
inductive Thread (Return : Type)
  /-- Before the call. -/
  | idle
  /-- In front of `state.rlock()`. -/
  | rlock
  | checkRead
  /-- The check is done and the read lock is given back next. -/
  | runlock (result : Option Return)
  /-- In front of `state.wlock()`. -/
  | wlock
  | checkWrite
  | update
  /-- The write lock is given back next. -/
  | wunlock (result : Return)
  | returned (result : Return)
  deriving DecidableEq, Repr

namespace Thread

def holdsRead : Thread Return → Bool
  | .checkRead | .runlock _ => true
  | _ => false

def holdsWrite : Thread Return → Bool
  | .checkWrite | .update | .wunlock _ => true
  | _ => false

/-- The result that the call has come to. -/
def result? : Thread Return → Option Return
  | .runlock result => result
  | .wunlock result => some result
  | .returned result => some result
  | _ => none

/-- The steps a thread has still to take, at most. -/
def remaining : Thread Return → ℕ
  | .idle => 8
  | .rlock => 7
  | .checkRead => 6
  | .runlock _ => 5
  | .wlock => 4
  | .checkWrite => 3
  | .update => 2
  | .wunlock _ => 1
  | .returned _ => 0

end Thread

end Synchronized

open Synchronized

/-- `folly::Synchronized<State>` and the threads that use it. -/
structure Synchronized (State Return : Type) where
  state : State
  readers : ℕ
  writer : Bool
  threads : List (Thread Return)
  order : List ℕ
  updated : List ℕ

namespace Synchronized

variable {State Return : Type}

def init (state : State) (threads : ℕ) : Synchronized State Return :=
  ⟨state, 0, false, List.replicate threads .idle, [], []⟩

def setThread (s : Synchronized State Return) (i : ℕ) (t : Thread Return) : Synchronized State Return :=
  { s with threads := s.threads.set i t }

/-- The next step of thread `i`, which stands at the third argument. -/
def proceed (call : Call State Return) (s : Synchronized State Return) (i : ℕ) :
    Thread Return → Option (Synchronized State Return)
  | .idle => some (s.setThread i .rlock)
  | .rlock => if s.writer then none else some { s.setThread i .checkRead with readers := s.readers + 1 }
  | .checkRead =>
    match call.check s.state with
    | some (state, result) =>
      some { s.setThread i (.runlock (some result)) with state := state, order := s.order ++ [i] }
    | none => some (s.setThread i (.runlock none))
  | .runlock (some result) => some { s.setThread i (.returned result) with readers := s.readers - 1 }
  | .runlock none => some { s.setThread i .wlock with readers := s.readers - 1 }
  | .wlock =>
    if s.writer || decide (0 < s.readers) then none else some { s.setThread i .checkWrite with writer := true }
  | .checkWrite =>
    -- something may have raced between the locks
    match call.check s.state with
    | some (state, result) =>
      some { s.setThread i (.wunlock result) with state := state, order := s.order ++ [i] }
    | none => some (s.setThread i .update)
  | .update =>
    some { s.setThread i (.wunlock (call.update s.state).2) with
      state := (call.update s.state).1, order := s.order ++ [i], updated := s.updated ++ [i] }
  | .wunlock result => some { s.setThread i (.returned result) with writer := false }
  | .returned _ => none

/-- One step of thread `i`. -/
def step (calls : ℕ → Call State Return) (s : Synchronized State Return) (i : ℕ) :
    Option (Synchronized State Return) := s.threads[i]?.bind (s.proceed (calls i) i)

end Synchronized

/-! ### `ProcessInfoCache::add` -/

namespace ProcessInfoCache

/-- What `add` locks, and the promises that have been made. -/
structure AddState where
  state_ : State
  nextPromise : PromiseId
  deriving DecidableEq, Repr

/-- The callbacks of `add(pid)` at time `now`. -/
def addCall (pid : Pid) (now : Time) : Synchronized.Call AddState Unit where
  check s := (s.state_.find pid).map fun node => ({ s with state_ := s.state_.recordAccess node.info_ now }, ())
  update s :=
    ({ state_ := { s.state_ with
        infos := s.state_.infos ++ [(pid, ⟨s.nextPromise, now⟩)]
        lookupQueue := s.state_.lookupQueue ++ [(pid, s.nextPromise)] }
       nextPromise := s.nextPromise + 1 }, ())

/-- Those of the call that thread `i` makes. -/
def addCalls (pids : ℕ → Pid) (now : ℕ → Time) (i : ℕ) : Synchronized.Call AddState Unit := addCall (pids i) (now i)

/-- The threads in `add`. -/
structure Adding where
  locked : Synchronized AddState Unit
  /-- The calls that have returned in front of the lock. -/
  cached : List ℕ

def Adding.init (state : AddState) (threads : ℕ) : Adding := ⟨Synchronized.init state threads, []⟩

/-- One step of thread `i` in `add`. `has i` is what `threadLocalCache_.has` answers it. -/
def addStep (pids : ℕ → Pid) (now : ℕ → Time) (has : ℕ → Bool) (s : Adding) (i : ℕ) : Option Adding :=
  if has i then
    if i ∈ s.cached ∨ s.locked.threads.length ≤ i then none else some { s with cached := i :: s.cached }
  else (Synchronized.step (addCalls pids now) s.locked i).map fun locked => { s with locked := locked }

end ProcessInfoCache

end EdenCommon
