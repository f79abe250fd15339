import EdenCommon.Lib.Run
import Mathlib.Algebra.Group.Int.Defs
import Mathlib.Algebra.GroupWithZero.Nat
import Mathlib.Data.Int.Notation

/-!
# `ProcessTimeout`

The timer behind `SpawnedProcess::future_wait`. Durations are counts of milliseconds, which
are signed and 64 bits wide: a multiplication that leaves that range is undefined. A timer
that fires polls the process once, with or without finding it terminated, and the object
deletes itself in the latter case.
-/

namespace EdenCommon

open Lib

structure ProcessTimeout where
  pollEveryMs_ : ℤ
  maxPollMs_ : ℤ
  /-- `returnCode_` is set, and the object is gone. -/
  deleted : Bool := false
  /-- record: what `scheduleTimeout` was called with, the first call first. -/
  scheduled : List ℤ := []
  deriving DecidableEq, Repr

namespace ProcessTimeout

def scheduleTimeout (t : ProcessTimeout) (milliseconds : ℤ) : ProcessTimeout :=
  { t with scheduled := t.scheduled ++ [milliseconds] }

/-- `milliseconds::operator*=(2)`, with a result as long as it is defined. -/
def twice (d : ℤ) : Option ℤ :=
  if -2 ^ 63 ≤ d * 2 ∧ d * 2 < 2 ^ 63 then some (d * 2) else none

/-- `ProcessTimeout::initialize`. -/
def initializeTimeout (t : ProcessTimeout) : Option ProcessTimeout :=
  let t := t.scheduleTimeout t.pollEveryMs_
  (twice t.pollEveryMs_).map fun doubled =>
    { t with pollEveryMs_ := if doubled > t.maxPollMs_ then t.maxPollMs_ else doubled }

/-- `terminated` is what the poll of the process answers. -/
def timeoutExpired (t : ProcessTimeout) (terminated : Bool) : Option ProcessTimeout :=
  if t.deleted then none
  else if terminated then some { t with deleted := true }
  else some (t.scheduleTimeout t.pollEveryMs_)

end ProcessTimeout

/-- `SpawnedProcess::future_wait`, on the executor's thread. -/
def SpawnedProcess.future_wait (poll_interval max_poll_interval : ℤ) : Option ProcessTimeout :=
  ProcessTimeout.initializeTimeout ⟨poll_interval, max_poll_interval, false, []⟩

/-- The timer after the polls `terminated`. -/
def SpawnedProcess.future_wait_polls (poll_interval max_poll_interval : ℤ) (terminated : List Bool) :
    Option ProcessTimeout :=
  (future_wait poll_interval max_poll_interval).bind fun t => run ProcessTimeout.timeoutExpired t terminated

end EdenCommon
