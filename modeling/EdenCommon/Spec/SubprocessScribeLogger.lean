import Mathlib.Data.Nat.Notation
import Mathlib.Algebra.Order.BigOperators.Group.List
import Mathlib.Algebra.GroupWithZero.Nat

/-!
# The queue of `SubprocessScribeLogger`

`log`, `writerThread` and the destructor of `SubprocessScribeLogger.cpp`, one step per
critical section and per `writevFull`. The waits only go on when what they wait for holds
under the lock (or the destructor's has timed out), so notifications have no steps. A write
may fail at any time, with some of its bytes written.

The fields behind `record` say what happened and are read by nothing. The check of `log`
that the logger is not being destroyed ends the program, so there is no step then; the two
checks of the writer's accounting are a place where the writer stands.
-/

namespace EdenCommon

namespace SubprocessScribeLogger

/-- 128 * 1024 -/
def kQueueLimitBytes : ℕ := 131072

abbrev Message := List UInt8

def newline : UInt8 := 10

/-- What a message looks like to the child: its bytes and a newline. -/
def frame (message : Message) : List UInt8 := message ++ [newline]

structure State where
  shouldStop : Bool
  didStop : Bool
  /-- Sum of sizes of queued messages. -/
  totalBytes : ℕ
  /-- Invariant: empty if `didStop` is true -/
  messages : List Message
  deriving DecidableEq, Repr

/-- Where the writer thread stands. -/
inductive Writer
  /-- At the top of the loop, in front of the wait for a message or for `shouldStop`. -/
  | wait
  /-- In front of `writevFull`. -/
  | write (message : Message)
  /-- Behind a `writevFull` that failed. -/
  | giveUp
  | returned
  /-- One of the checks of `totalBytes` failed. -/
  | checkFailed
  deriving DecidableEq, Repr

/-- Where the destructor stands. -/
inductive Destructor
  /-- Not called. -/
  | idle
  /-- `shouldStop` is set; it waits for `didStop` or for the timeout. -/
  | waiting
  /-- `closeProcess` and `writerThread_.join()` -/
  | joining
  | destroyed
  deriving DecidableEq, Repr

structure Logger where
  state : State
  writer : Writer
  destructor : Destructor
  /-- record: the messages that `log` queued, in this order. -/
  accepted : List Message
  /-- record: the bytes written to the child. -/
  written : List UInt8
  /-- record: a `writevFull` has failed. -/
  failed : Bool
  deriving DecidableEq, Repr

inductive Op
  | log (message : Message)
  /-- The writer's section under the lock, its wait included. -/
  | dequeue
  | writeSucceeds
  /-- `writevFull` fails when it has written this many of the bytes. -/
  | writeFails (count : ℕ)
  /-- The writer gives up. -/
  | giveUp
  /-- The destructor sets `shouldStop`. -/
  | stop
  /-- The destructor's wait ends. -/
  | waited (timeout : Bool)
  | join
  deriving DecidableEq, Repr

def start : Logger where
  state := ⟨false, false, 0, []⟩
  writer := .wait
  destructor := .idle
  accepted := []
  written := []
  failed := false

/-- The section of `log` under the lock. -/
def Logger.log (l : Logger) (message : Message) : Logger :=
  if l.state.didStop then l
  else if l.state.totalBytes + message.length > kQueueLimitBytes then l
  else
    { l with
      state := { l.state with
        messages := l.state.messages ++ [message]
        totalBytes := l.state.totalBytes + message.length }
      accepted := l.accepted ++ [message] }

/-- The section of the writer behind its wait. -/
def Logger.dequeue (l : Logger) : Logger :=
  match l.state.messages with
  | message :: messages =>
    if message.length ≤ l.state.totalBytes then
      { l with
        state := { l.state with messages := messages, totalBytes := l.state.totalBytes - message.length }
        writer := .write message }
    else { l with writer := .checkFailed }
  | [] =>
    if 0 = l.state.totalBytes then { l with state := { l.state with didStop := true }, writer := .returned }
    else { l with writer := .checkFailed }

/-- `didStop` is set and the queue given up. -/
def Logger.giveUp (l : Logger) : Logger :=
  { l with
    state := { l.state with didStop := true, messages := [], totalBytes := 0 }
    writer := .returned }

/-- One step; `none` if it has to wait or there is none. -/
def step (l : Logger) : Op → Option Logger
  | .log message => if l.state.shouldStop then none else some (l.log message)
  | .dequeue =>
    if l.writer = .wait ∧ (l.state.shouldStop = true ∨ l.state.messages ≠ []) then some l.dequeue else none
  | .writeSucceeds =>
    match l.writer with
    | .write message => some { l with writer := .wait, written := l.written ++ frame message }
    | _ => none
  | .writeFails count =>
    match l.writer with
    | .write message =>
      some { l with writer := .giveUp, written := l.written ++ (frame message).take count, failed := true }
    | _ => none
  | .giveUp => if l.writer = .giveUp then some l.giveUp else none
  | .stop =>
    if l.destructor = .idle then
      some { l with state := { l.state with shouldStop := true }, destructor := .waiting }
    else none
  | .waited timeout =>
    if l.destructor = .waiting ∧ (l.state.didStop = true ∨ timeout = true) then
      some { l with destructor := .joining }
    else none
  | .join =>
    if l.destructor = .joining ∧ l.writer = .returned then some { l with destructor := .destroyed } else none

/-- The message that the writer has taken and not written. -/
def Writer.current : Writer → List Message
  | .write message => [message]
  | _ => []

end SubprocessScribeLogger

end EdenCommon
