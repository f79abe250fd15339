import EdenCommon.Spec.ProcessInfoCache

/-!
# The destructor of `ProcessInfoCache`

The cache with its destructor, which sets `workerThreadShouldStop` under the lock, posts and
joins the worker. No call may run on an object whose destructor has begun, so the destructor
starts when all calls have returned, and no call starts after it. `checkFailed` says that the
worker has found a request of `getAllProcessInfos` when it should stop.
-/

namespace EdenCommon

namespace ProcessInfoCache

inductive Destructor
  /-- It has not been called. -/
  | alive
  /-- The flag is set and `sem_.post()` is next. -/
  | post
  /-- In `workerThread_.join()`. -/
  | join
  | destroyed
  deriving DecidableEq, Repr

structure Shutdown (Info : Type) where
  cache : Sys Info
  workerThreadShouldStop : Bool
  destructor : Destructor
  /-- The worker has returned. -/
  exited : Bool
  checkFailed : Bool

namespace Shutdown

variable {Info : Type}

inductive Op (Info : Type)
  | cache (op : ProcessInfoCache.Op Info)
  /-- The destructor sets `workerThreadShouldStop`. -/
  | stop
  | post
  /-- The worker has the lock and finds that it should stop. -/
  | exit
  | join

/-- The worker looks at the flag when it has the lock, before it swaps the queues. -/
def mayStep (s : Shutdown Info) : ProcessInfoCache.Op Info → Bool
  | .swap => !s.exited && !s.workerThreadShouldStop
  | op => if op.isWorker then !s.exited else s.destructor = .alive

def step (expiry : Time) (s : Shutdown Info) : Op Info → Option (Shutdown Info)
  | .cache op =>
    if s.mayStep op then (ProcessInfoCache.step expiry s.cache op).map fun cache => { s with cache := cache } else none
  | .stop =>
    if s.destructor = .alive ∧ ∀ c ∈ s.cache.callers, c = .returned then
      some { s with workerThreadShouldStop := true, destructor := .post }
    else none
  | .post =>
    match s.destructor with
    | .post => some { s with cache := { s.cache with sem_ := s.cache.sem_ + 1 }, destructor := .join }
    | _ => none
  | .exit =>
    match s.cache.worker with
    | .woken =>
      if s.workerThreadShouldStop && !s.exited then
        some { s with exited := true, checkFailed := s.checkFailed || decide (s.cache.state_.getAllQueue ≠ []) }
      else none
    | _ => none
  | .join =>
    match s.destructor with
    | .join => if s.exited then some { s with destructor := .destroyed } else none
    | _ => none

def init : Shutdown Info := ⟨ProcessInfoCache.init, false, .alive, false, false⟩

end Shutdown

end ProcessInfoCache

end EdenCommon
