import EdenCommon.Lib.Run
import Mathlib.Data.List.Chain

/-!
# `IoFuture`

The members of `IoFuture.cpp` as steps on the promise, the timer and the event handler of one
object. `folly`'s event base delivers `handlerReady` while the handler is registered and
`timeoutExpired` while the timer is scheduled; neither is repeated without another registration.
A registration that fails may leave an earlier one of its kind as it was, or remove it.

Setting a promise that is not pending throws, and both callbacks are `noexcept`. The futures that
`wait` returns are numbered; the fields behind `record` are read by nothing.
-/

namespace EdenCommon

open Lib

namespace IoFuture

/-- `ECANCELED`, `EIO` and `ETIMEDOUT`. -/
inductive Errno
  | ecanceled
  | eio
  | etimedout
  deriving DecidableEq, Repr

inductive Completion
  | value (events : ℕ)
  | systemError (errcode : Errno) (what : String)
  deriving DecidableEq, Repr

inductive Promise
  | empty
  /-- `future` is the one that `getFuture` gives or has given. -/
  | pending (future : ℕ)
  | fulfilled
  deriving DecidableEq, Repr

/-- What `scheduleTimeout` and `registerHandler` do. -/
inductive Registration
  | succeeds
  /-- `stays`: an earlier registration outlasts the error. -/
  | fails (stays : Bool)
  deriving DecidableEq, Repr

end IoFuture

structure IoFuture where
  promise_ : IoFuture.Promise := .empty
  handlerRegistered : Bool := false
  timeoutScheduled : Bool := false
  /-- A `noexcept` callback has thrown. -/
  terminated : Bool := false
  /-- record: how many futures `wait` has returned. -/
  futures : ℕ := 0
  /-- record: each completion of a future, the first one first. -/
  completions : List (ℕ × IoFuture.Completion) := []
  deriving DecidableEq, Repr

namespace IoFuture

/-- `Promise::isFulfilled`, which is true of an empty promise. -/
def Promise.isFulfilled : Promise → Bool
  | .pending _ => false
  | _ => true

/-- `promise_.setValue` and `promise_.setException`, unless they throw. -/
def complete (s : IoFuture) (c : Completion) : Option IoFuture :=
  match s.promise_ with
  | .pending future =>
    some { s with promise_ := .fulfilled, completions := s.completions ++ [(future, c)] }
  | _ => none

/-- The first statement of `wait`. -/
def cancelPrevious (s : IoFuture) : Option IoFuture :=
  if s.promise_.isFulfilled then some s else s.complete (.systemError .ecanceled "I/O wait canceled")

def registrationError : Completion := .systemError .eio "error registering for socket I/O"

/-- `persist` is whether `eventFlags` has `PERSIST`, which `XCHECK` does not let pass. -/
def wait (s : IoFuture) (persist : Bool) (timeout handler : Registration) : Option IoFuture :=
  s.cancelPrevious.bind fun s =>
    if persist then none
    else
      let s := { s with promise_ := .pending s.futures, futures := s.futures + 1 }
      match timeout with
      | .fails stays => { s with timeoutScheduled := s.timeoutScheduled && stays }.complete registrationError
      | .succeeds =>
        let s := { s with timeoutScheduled := true }
        match handler with
        | .fails stays => { s with handlerRegistered := s.handlerRegistered && stays }.complete registrationError
        | .succeeds => some { s with handlerRegistered := true }

/-- What throws in a callback ends the program. -/
def orTerminate (s : IoFuture) (c : Completion) : IoFuture := (s.complete c).getD { s with terminated := true }

/-- The handler is registered for one event, and the timer is cancelled. -/
def handlerReady (s : IoFuture) (events : ℕ) : Option IoFuture :=
  if s.handlerRegistered then
    some ({ s with handlerRegistered := false, timeoutScheduled := false }.orTerminate (.value events))
  else none

/-- The timer has fired, and the handler is unregistered. -/
def timeoutExpired (s : IoFuture) : Option IoFuture :=
  if s.timeoutScheduled then
    some ({ s with handlerRegistered := false, timeoutScheduled := false }.orTerminate
      (.systemError .etimedout "timed out waiting for socket I/O"))
  else none

inductive Op
  | wait (persist : Bool) (timeout handler : Registration)
  | handlerReady (events : ℕ)
  | timeoutExpired
  deriving DecidableEq, Repr

def step (s : IoFuture) (op : Op) : Option IoFuture :=
  if s.terminated then none
  else
    match op with
    | .wait persist timeout handler => s.wait persist timeout handler
    | .handlerReady events => s.handlerReady events
    | .timeoutExpired => s.timeoutExpired

/-- A call of `wait` that reports `EIO`. -/
def Op.failsToRegister : Op → Bool
  | .wait _ (.fails _) _ => true
  | .wait _ .succeeds (.fails _) => true
  | _ => false

def Op.isEvent : Op → Bool
  | .wait _ _ _ => false
  | _ => true

/-- Every future but the one that is waited for is completed exactly once; that one has not been
completed, and both the event and the timeout can complete it. No callback has thrown. -/
structure ExactlyOnce (s : IoFuture) : Prop where
  alive : s.terminated = false
  once : ∀ future < s.futures,
    s.completions.countP (fun c => c.1 = future) = if s.promise_ = .pending future then 0 else 1
  armed : ∀ future, s.promise_ = .pending future → s.handlerRegistered = true ∧ s.timeoutScheduled = true

end IoFuture

end EdenCommon
