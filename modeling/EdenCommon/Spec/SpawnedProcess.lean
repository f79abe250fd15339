import EdenCommon.Lib.Run
import Mathlib.Data.Nat.Notation
import Mathlib.Logic.Function.Basic

/-!
# `SpawnedProcess`

The POSIX branches of the methods of `SpawnedProcess.cpp` that wait for a process, signal
it or move it. A method stands in front of its next `waitpid` between two steps, so the
methods of different objects interleave; on one object they follow each other. Deadlines
are said to have passed or not by the step.

The kernel knows the children that have not been reaped by their pids. It gives out no pid
that is one of theirs, and it may answer `ECHILD` at any time, after which it does not know
the child any more. A spawn has a number of its own (`proc`), which no other one gets, to
tell processes apart that have had the same pid. The fields behind `record` and the list of
events say what happened and are read by nothing.
-/

namespace EdenCommon

inductive ProcessStatus.State
  | NotStarted
  | Running
  | Exited
  | Killed
  deriving DecidableEq, Repr

structure ProcessStatus where
  state : ProcessStatus.State := .NotStarted
  status : ℕ := 0
  deriving DecidableEq, Repr

/-- `WIFEXITED` and `WIFSIGNALED`: the low seven bits are 0, or the number of a signal. -/
def ProcessStatus.fromWaitStatus (rawStatus : ℕ) : ProcessStatus :=
  if rawStatus % 128 = 0 then ⟨.Exited, rawStatus⟩
  else if rawStatus % 128 ≠ 127 then ⟨.Killed, rawStatus⟩
  else ⟨.Exited, rawStatus⟩

namespace SpawnedProcess

/-- What called `waitTimeout`. -/
inductive Caller
  | user
  | waitOrTerminateOrKill
  | terminateOrKill
  deriving DecidableEq, Repr

/-- Where the method stands that runs on an object. -/
inductive Activity
  | idle
  /-- In front of the `waitpid` of `terminated`. -/
  | terminated
  | waitTimeout (caller : Caller)
  | wait
  deriving DecidableEq, Repr

end SpawnedProcess

structure SpawnedProcess where
  pid_ : ℕ := 0
  waited_ : Bool := true
  status_ : ProcessStatus := {}
  activity : SpawnedProcess.Activity := .idle
  /-- record: the process that the object has been spawned or moved with. -/
  proc : Option ℕ := none
  /-- record: the object, or one that it got its process from by a move, was moved from
  before the process was waited for. -/
  handedOver : Bool := false
  deriving DecidableEq, Repr

namespace SpawnedProcess

variable {Obj : Type} [DecidableEq Obj]

inductive Errno
  | ECHILD
  | EINTR
  | other (errno : ℕ)
  deriving DecidableEq, Repr

/-- What `waitpid` returns. -/
inductive WaitResult
  /-- The pid. -/
  | pid (rawStatus : ℕ)
  /-- 0: the child has not exited. -/
  | zero
  /-- -1 -/
  | failed (errno : Errno)
  deriving DecidableEq, Repr

/-- What a method answers. -/
inductive Answer
  | status (status : ProcessStatus)
  | bool (terminated : Bool)
  | throws (errno : Errno)
  deriving DecidableEq, Repr

/-- `proc` is the process of the object, `child` the one that the pid names in the kernel. -/
inductive Event
  | waitpid (proc : Option ℕ) (pid : ℕ) (child : Option ℕ) (result : WaitResult)
  | kill (proc : Option ℕ) (pid : ℕ) (child : Option ℕ) (signo : ℕ)
  | returns (proc : Option ℕ) (handedOver : Bool) (answer : Answer)
  deriving DecidableEq, Repr

structure Sys (Obj : Type) where
  objects : Obj → Option SpawnedProcess
  /-- The kernel's children that have not been reaped, by pid. -/
  children : ℕ → Option ℕ
  /-- The number of the next spawn. -/
  nextProc : ℕ
  /-- record -/
  events : List Event

def start : Sys Obj := ⟨fun _ => none, fun _ => none, 0, []⟩

namespace Sys

def set (s : Sys Obj) (a : Obj) (x : SpawnedProcess) : Sys Obj :=
  { s with objects := Function.update s.objects a (some x) }

def note (s : Sys Obj) (e : Event) : Sys Obj := { s with events := s.events ++ [e] }

/-- The kernel does not know the child any more. -/
def forget (s : Sys Obj) (pid : ℕ) : Sys Obj := { s with children := Function.update s.children pid none }

/-- The object, if no method runs on it. -/
def idle (s : Sys Obj) (a : Obj) : Option SpawnedProcess :=
  (s.objects a).filter fun x => x.activity = .idle

end Sys

open Sys

/-! ### Construction and moves -/

/-- A successful spawn: the constructor up to `waited_ = false`. -/
def spawn (s : Sys Obj) (a : Obj) (pid : ℕ) : Option (Sys Obj) :=
  if (s.objects a).isSome ∨ pid = 0 ∨ (s.children pid).isSome then none
  else
    some { (s.set a { pid_ := pid, waited_ := false, proc := some s.nextProc }) with
      children := Function.update s.children pid (some s.nextProc)
      nextProc := s.nextProc + 1 }

/-- `*this = std::move(other)` for another object: `x` is `*this` and `y` is `other`.
`XCHECK_EQ(pid_, 0)` ends the program. -/
def moveFrom (s : Sys Obj) (a that : Obj) (x y : SpawnedProcess) : Option (Sys Obj) :=
  if x.pid_ ≠ 0 then none
  else
    some ((s.set a { x with pid_ := y.pid_, waited_ := y.waited_, status_ := y.status_,
                            proc := y.proc, handedOver := y.handedOver }).set that
      { y with waited_ := true, handedOver := y.handedOver || !y.waited_ })

def moveConstruct (s : Sys Obj) (a that : Obj) : Option (Sys Obj) :=
  match s.objects a, s.idle that with
  | none, some y => moveFrom s a that {} y
  | _, _ => none

def moveAssign (s : Sys Obj) (a that : Obj) : Option (Sys Obj) :=
  match s.idle a, s.idle that with
  | some x, some y => if that = a then some s else moveFrom s a that x y
  | _, _ => none

/-- `waited_` is checked; otherwise the program ends. -/
def destroy (s : Sys Obj) (a : Obj) : Option (Sys Obj) :=
  match s.idle a with
  | some x => if x.waited_ then some { s with objects := Function.update s.objects a none } else none
  | none => none

/-! ### Signals and the methods up to their first `waitpid` -/

def SIGKILL : ℕ := 9
def SIGTERM : ℕ := 15

def sendSignal (s : Sys Obj) (x : SpawnedProcess) (signo : ℕ) : Sys Obj :=
  if x.waited_ then s else s.note (.kill x.proc x.pid_ (s.children x.pid_) signo)

def kill (s : Sys Obj) (x : SpawnedProcess) : Sys Obj := sendSignal s x SIGKILL

def terminate (s : Sys Obj) (x : SpawnedProcess) : Sys Obj := sendSignal s x SIGTERM

/-- The method that runs on the object answers its caller. -/
def answer (s : Sys Obj) (a : Obj) (x : SpawnedProcess) (answer : Answer) : Sys Obj :=
  (s.set a { x with activity := .idle }).note (.returns x.proc x.handedOver answer)

/-- The method goes on to a `waitpid`. -/
def enter (s : Sys Obj) (a : Obj) (x : SpawnedProcess) (activity : Activity) : Sys Obj :=
  s.set a { x with activity := activity }

def terminated (s : Sys Obj) (a : Obj) (x : SpawnedProcess) : Sys Obj :=
  if x.waited_ then answer s a x (.bool true) else enter s a x .terminated

def wait (s : Sys Obj) (a : Obj) (x : SpawnedProcess) : Sys Obj :=
  if x.waited_ then answer s a x (.status x.status_) else enter s a x .wait

def waitTimeout (s : Sys Obj) (a : Obj) (x : SpawnedProcess) : Sys Obj :=
  if x.waited_ then answer s a x (.status x.status_) else enter s a x (.waitTimeout .user)

def waitOrTerminateOrKill (s : Sys Obj) (a : Obj) (x : SpawnedProcess) : Sys Obj :=
  if x.waited_ then answer s a x (.status x.status_) else enter s a x (.waitTimeout .waitOrTerminateOrKill)

def terminateOrKill (s : Sys Obj) (a : Obj) (x : SpawnedProcess) : Sys Obj :=
  if x.waited_ then answer s a x (.status x.status_)
  else enter (terminate s x) a x (.waitTimeout .terminateOrKill)

/-- `waitTimeout` has returned `result` to its caller. -/
def waitTimeoutReturned (s : Sys Obj) (a : Obj) (x : SpawnedProcess) (result : ProcessStatus) :
    Caller → Sys Obj
  | .user => answer s a x (.status result)
  | .waitOrTerminateOrKill => if x.waited_ then answer s a x (.status x.status_) else terminateOrKill s a x
  | .terminateOrKill => if x.waited_ then answer s a x (.status x.status_) else wait (kill s x) a x

/-! ### Behind a `waitpid` -/

/-- `status_` and `waited_` are set. -/
def recordStatus (x : SpawnedProcess) (status : ProcessStatus) : SpawnedProcess :=
  { x with status_ := status, waited_ := true, activity := .idle }

/-- "This can happen if we are a forked child." -/
def successfullyFinished : ProcessStatus := ⟨.Exited, 0⟩

/-- The kernel's part of a `waitpid`. Only a child that it knows can be reaped or be
running, and a call that blocks does not return 0. -/
def waitpid (s : Sys Obj) (x : SpawnedProcess) (blocking : Bool) (result : WaitResult) : Option (Sys Obj) :=
  let s' := s.note (.waitpid x.proc x.pid_ (s.children x.pid_) result)
  match result with
  | .pid _ => if (s.children x.pid_).isSome then some (s'.forget x.pid_) else none
  | .zero => if (s.children x.pid_).isSome && !blocking then some s' else none
  | .failed .ECHILD => some (s'.forget x.pid_)
  | .failed _ => some s'

def terminatedReturned (s : Sys Obj) (a : Obj) (x : SpawnedProcess) : WaitResult → Sys Obj
  | .pid rawStatus =>
    let x := recordStatus x (.fromWaitStatus rawStatus)
    answer (s.set a x) a x (.bool true)
  | .failed .ECHILD =>
    let x := recordStatus x successfullyFinished
    answer (s.set a x) a x (.bool true)
  | .zero => answer s a x (.bool false)
  | .failed _ => answer s a x (.bool false)

def waitTimeoutWaited (s : Sys Obj) (a : Obj) (x : SpawnedProcess) (caller : Caller) (deadlinePassed : Bool) :
    WaitResult → Sys Obj
  | .pid rawStatus =>
    let x := recordStatus x (.fromWaitStatus rawStatus)
    waitTimeoutReturned (s.set a x) a x x.status_ caller
  | .failed .ECHILD =>
    let x := recordStatus x successfullyFinished
    waitTimeoutReturned (s.set a x) a x x.status_ caller
  | .zero => if deadlinePassed then waitTimeoutReturned s a x ⟨.Running, 0⟩ caller else s
  | .failed _ => if deadlinePassed then waitTimeoutReturned s a x ⟨.Running, 0⟩ caller else s

/-- After an unexpected error `wait` pretends that the process has been waited for. -/
def waitWaited (s : Sys Obj) (a : Obj) (x : SpawnedProcess) : WaitResult → Sys Obj
  | .pid rawStatus =>
    let x := recordStatus x (.fromWaitStatus rawStatus)
    answer (s.set a x) a x (.status x.status_)
  | .failed .ECHILD =>
    let x := recordStatus x successfullyFinished
    answer (s.set a x) a x (.status x.status_)
  | .failed .EINTR => s
  | .failed errno =>
    let x := { x with waited_ := true, activity := .idle }
    answer (s.set a x) a x (.throws errno)
  | .zero => s

/-- The `waitpid` that a method stands in front of returns. -/
def waitpidReturned (s : Sys Obj) (a : Obj) (result : WaitResult) (deadlinePassed : Bool) : Option (Sys Obj) :=
  match s.objects a with
  | none => none
  | some x =>
    match x.activity with
    | .idle => none
    | .terminated => (waitpid s x false result).map fun s => terminatedReturned s a x result
    | .waitTimeout caller =>
      (waitpid s x false result).map fun s => waitTimeoutWaited s a x caller deadlinePassed result
    | .wait => (waitpid s x true result).map fun s => waitWaited s a x result

inductive Op (Obj : Type)
  | default (a : Obj)
  | spawn (a : Obj) (pid : ℕ)
  | moveConstruct (a that : Obj)
  | moveAssign (a that : Obj)
  | destroy (a : Obj)
  | sendSignal (a : Obj) (signo : ℕ)
  | kill (a : Obj)
  | terminate (a : Obj)
  | terminated (a : Obj)
  | wait (a : Obj)
  | waitTimeout (a : Obj)
  | waitOrTerminateOrKill (a : Obj)
  | terminateOrKill (a : Obj)
  /-- The `waitpid` returns that the method on `a` stands in front of. -/
  | waitpid (a : Obj) (result : WaitResult) (deadlinePassed : Bool)
  deriving DecidableEq, Repr

def step (s : Sys Obj) : Op Obj → Option (Sys Obj)
  | .default a => if (s.objects a).isSome then none else some (s.set a {})
  | .spawn a pid => spawn s a pid
  | .moveConstruct a that => moveConstruct s a that
  | .moveAssign a that => moveAssign s a that
  | .destroy a => destroy s a
  | .sendSignal a signo => (s.idle a).map fun x => sendSignal s x signo
  | .kill a => (s.idle a).map fun x => kill s x
  | .terminate a => (s.idle a).map fun x => terminate s x
  | .terminated a => (s.idle a).map fun x => terminated s a x
  | .wait a => (s.idle a).map fun x => wait s a x
  | .waitTimeout a => (s.idle a).map fun x => waitTimeout s a x
  | .waitOrTerminateOrKill a => (s.idle a).map fun x => waitOrTerminateOrKill s a x
  | .terminateOrKill a => (s.idle a).map fun x => terminateOrKill s a x
  | .waitpid a result deadlinePassed => waitpidReturned s a result deadlinePassed

/-! ### What is wanted -/

/-- A `waitpid` has returned the pid of the process `c`. -/
def Event.Reaps (c rawStatus : ℕ) : Event → Prop
  | .waitpid _ _ child result => child = some c ∧ result = .pid rawStatus
  | .kill .. => False
  | .returns .. => False

/-- An object that has the process `c`, or a pid that names it, calls `waitpid` or `kill`. -/
def Event.Touches (c : ℕ) : Event → Prop
  | .waitpid proc _ child _ => proc = some c ∨ child = some c
  | .kill proc _ child _ => proc = some c ∨ child = some c
  | .returns .. => False

/-- The pid of a `waitpid` or `kill` names a child in the kernel, the object's own process. -/
def Event.Own : Event → Prop
  | .waitpid proc _ child _ => child.isSome ∧ child = proc
  | .kill proc _ child _ => child.isSome ∧ child = proc
  | .returns .. => True

/-- An answer of an object that has the process `c` is the status with which it was reaped;
`terminated` answers true. -/
def Event.Answers (c rawStatus : ℕ) : Event → Prop
  | .waitpid .. => True
  | .kill .. => True
  | .returns proc handedOver answer =>
    proc = some c → handedOver = false → answer = .status (.fromWaitStatus rawStatus) ∨ answer = .bool true

structure Safe (s : Sys Obj) : Prop where
  own : ∀ e ∈ s.events, e.Own
  silent : s.events.Pairwise fun e e' => ∀ c rawStatus, e.Reaps c rawStatus → ¬ e'.Touches c
  recorded : s.events.Pairwise fun e e' => ∀ c rawStatus, e.Reaps c rawStatus → e'.Answers c rawStatus
  one_owner : ∀ a b x y, s.objects a = some x → s.objects b = some y → x.waited_ = false → y.waited_ = false →
    x.pid_ = y.pid_ → a = b

end SpawnedProcess

end EdenCommon
