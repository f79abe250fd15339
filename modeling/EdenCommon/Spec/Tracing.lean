import EdenCommon.Lib.Ring
import Mathlib.Data.List.Sort

/-!
# Trace points

`ThreadLocalTracePoints` and `Tracer::getAllTracepoints` of `Tracing.h` and `Tracing.cpp`.
`trace` runs under the lock of its thread's buffer, `flush` under that lock and the one of
`tracepoints_`, and the section of `getAllTracepoints` that sorts and moves out under the
latter: each is one step. While a call of `getAllTracepoints` goes through the threads, its
accessor keeps other calls from doing so and threads from ending.

The state records what happened in `log`, which no step reads.
-/

namespace EdenCommon

namespace Tracing

/-- 16 * 1024 -/
def kBufferPoints : ℕ := 16384

instance : NeZero kBufferPoints := ⟨by decide⟩

structure CompactTracePoint where
  /-- In nanoseconds. -/
  timestamp : ℤ
  traceId : ℕ
  blockId : ℕ
  parentBlockId : ℕ
  /-- `nullptr` unless the point starts its block. -/
  name : Option String
  start : Bool
  stop : Bool
  deriving DecidableEq, Repr, Inhabited

/-- `ThreadLocalTracePoints::State` -/
structure State where
  currNum_ : ℕ
  tracePoints_ : Fin kBufferPoints → CompactTracePoint

/-- A buffer as constructed; its points are not read before they are written. -/
def State.new : State := ⟨0, fun _ => default⟩

/-- `tracePoints_[currNum_++ % kBufferPoints]` is written. -/
def State.trace (state : State) (tp : CompactTracePoint) : State where
  currNum_ := state.currNum_ + 1
  tracePoints_ := Function.update state.tracePoints_ (Lib.slot kBufferPoints state.currNum_) tp

/-- `[tracePoints_.begin(), tracePoints_.begin() + npoints)` -/
def State.points (state : State) : List CompactTracePoint :=
  let npoints := min kBufferPoints state.currNum_
  (List.range npoints).map fun i => state.tracePoints_ (Lib.slot kBufferPoints i)

/-- Where a call of `getAllTracepoints` stands. -/
inductive Collector (Tid : Type)
  /-- In the loop over the threads, of which `tltps` are left. -/
  | flushing (tltps : List Tid)
  /-- In front of `tracepoints_.wlock()`. -/
  | wlock
  | returned
  deriving DecidableEq, Repr

inductive Event (Tid : Type)
  /-- The thread traced a point. -/
  | traced (t : Tid) (tp : CompactTracePoint)
  /-- The thread's buffer was flushed, which handed over `points`. -/
  | flushed (t : Tid) (points : List CompactTracePoint)
  /-- The call of `getAllTracepoints` with this number returned `points`. -/
  | returned (call : ℕ) (points : List CompactTracePoint)
  deriving DecidableEq, Repr

structure Sys (Tid : Type) where
  /-- The buffers of the threads that have one. -/
  tltp_ : Tid → Option State
  /-- These threads in the order of `accessAllThreads`. -/
  threads : List Tid
  tracepoints_ : List CompactTracePoint
  /-- The calls of `getAllTracepoints`. -/
  collectors : List (Collector Tid)
  /-- record: what happened, oldest first. -/
  log : List (Event Tid)

inductive Op (Tid : Type)
  | trace (t : Tid) (tp : CompactTracePoint)
  | exit (t : Tid)
  /-- A call of `getAllTracepoints` begins. -/
  | collect
  /-- The next step of the call with this number. -/
  | next (call : ℕ)
  deriving DecidableEq, Repr

def start (Tid : Type) : Sys Tid := ⟨fun _ => none, [], [], [], []⟩

/-- What `std::sort` may do: it arranges the points by timestamp, in any order where these
are the same. -/
structure StdSort where
  sort : List CompactTracePoint → List CompactTracePoint
  perm : ∀ points, (sort points).Perm points
  sorted : ∀ points, (sort points).Pairwise fun a b => a.timestamp ≤ b.timestamp

def Collector.isFlushing {Tid : Type} : Collector Tid → Bool
  | .flushing _ => true
  | _ => false

variable {Tid : Type}

/-- A call of `getAllTracepoints` goes through the threads. -/
def Sys.accessed (s : Sys Tid) : Bool := s.collectors.any Collector.isFlushing

variable [DecidableEq Tid]

/-- `trace` of thread `t`, whose first use of `tltp_` makes its buffer. -/
def Sys.trace (s : Sys Tid) (t : Tid) (tp : CompactTracePoint) : Sys Tid :=
  { s with
    tltp_ := Function.update s.tltp_ t (some (((s.tltp_ t).getD .new).trace tp))
    threads := if (s.tltp_ t).isSome then s.threads else s.threads ++ [t]
    log := s.log ++ [.traced t tp] }

/-- `flush` of the buffer of thread `t`. -/
def Sys.flush (s : Sys Tid) (t : Tid) (state : State) : Sys Tid :=
  { s with
    tltp_ := Function.update s.tltp_ t (some { state with currNum_ := 0 })
    tracepoints_ := s.tracepoints_ ++ state.points
    log := s.log ++ [.flushed t state.points] }

/-- `~ThreadLocalTracePoints` at the end of thread `t`. -/
def Sys.exit (s : Sys Tid) (t : Tid) (state : State) : Sys Tid :=
  let s := s.flush t state
  { s with
    tltp_ := Function.update s.tltp_ t none
    threads := s.threads.erase t }

omit [DecidableEq Tid] in
/-- `std::sort` and `return std::move(*points)`, which leaves the vector empty. -/
def Sys.take (s : Sys Tid) (std : StdSort) (call : ℕ) : Sys Tid :=
  { s with
    tracepoints_ := []
    collectors := s.collectors.set call .returned
    log := s.log ++ [.returned call (std.sort s.tracepoints_)] }

/-- One step; `none` if it has to wait or there is none. -/
def step (std : StdSort) (s : Sys Tid) : Op Tid → Option (Sys Tid)
  | .trace t tp => some (s.trace t tp)
  | .exit t =>
    match s.tltp_ t with
    | some state => if s.accessed then none else some (s.exit t state)
    | none => none
  | .collect =>
    if s.accessed then none
    else some { s with collectors := s.collectors ++ [.flushing s.threads] }
  | .next call =>
    match s.collectors[call]? with
    | some (.flushing (t :: tltps)) =>
      match s.tltp_ t with
      | some state =>
        let s := s.flush t state
        some { s with collectors := s.collectors.set call (.flushing tltps) }
      | none => none
    | some (.flushing []) => some { s with collectors := s.collectors.set call .wlock }
    | some .wlock => some (s.take std call)
    | _ => none

/-! ### What a log says -/

/-- The points that thread `t` traced since its last flush. -/
def sinceFlush (t : Tid) (log : List (Event Tid)) : List CompactTracePoint :=
  log.foldl (fun since event =>
    match event with
    | .traced u tp => if u = t then since ++ [tp] else since
    | .flushed u _ => if u = t then [] else since
    | .returned .. => since) []

omit [DecidableEq Tid]

/-- All points traced. -/
def traced (log : List (Event Tid)) : List CompactTracePoint :=
  log.filterMap fun
    | .traced _ tp => some tp
    | _ => none

/-- All points that flushes handed over. -/
def handedOver (log : List (Event Tid)) : List CompactTracePoint :=
  log.flatMap fun
    | .flushed _ points => points
    | _ => []

/-- All points that calls of `getAllTracepoints` returned. -/
def returned (log : List (Event Tid)) : List CompactTracePoint :=
  log.flatMap fun
    | .returned _ points => points
    | _ => []

end Tracing

end EdenCommon
