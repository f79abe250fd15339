import EdenCommon.Lib.Run
import EdenCommon.Spec.Utf8
import Mathlib.Data.Int.Notation
import Mathlib.Logic.Function.Basic

/-!
# `SpawnedProcess::pollingCommunicate`

The loop that writes to the child and reads what it writes. `pipes_` maps the child's number of a pipe
to the descriptor on this side; its entries are in the order of an iteration. What the child writes
to a pipe, from here to the end, is one list of bytes (`unread`): `read` takes it from the front,
and it is at the end of the file when there is nothing left.

An `Answer` is what one call of `poll` and the calls that follow it are answered. `poll` answers for
the child's number of a pipe, `read` for a descriptor. How many bytes `read` gives is
up to the answer, except that it gives at least one if there is one; a pipe that is empty for now
is not reported, or `read` fails with `EAGAIN`. A descriptor that the callback puts in place of its own is
not one of the other pipes'.
-/

namespace EdenCommon

open Lib

namespace PollingCommunicate

def STDIN_FILENO : ℤ := 0
def STDOUT_FILENO : ℤ := 1
def STDERR_FILENO : ℤ := 2

/-- glibc's. -/
def BUFSIZ : ℕ := 8192

inductive Errno
  | eintr
  | eagain
  | other (code : ℕ)
  deriving DecidableEq, Repr

/-- The bits of `events` and `revents` that are used. -/
structure Events where
  pollin : Bool := false
  pollout : Bool := false
  pollhup : Bool := false
  pollerr : Bool := false
  deriving DecidableEq, Repr

structure Pollfd where
  fd : ℤ
  events : Events
  revents : Events
  deriving DecidableEq, Repr

inductive ReadAnswer
  /-- Up to `l + 1` bytes. -/
  | bytes (l : ℕ)
  | error (errno : Errno)
  deriving DecidableEq, Repr

inductive CallbackAnswer
  | throws
  /-- The result, and the number that its `FileDescriptor` is left with; `-1` when it was closed. -/
  | returns (done : Bool) (fd : ℤ)
  deriving DecidableEq, Repr

/-- `read` does not fail. -/
def ReadAnswer.isBytes : ReadAnswer → Bool
  | .bytes _ => true
  | .error _ => false

/-- The callback returns `true`. -/
def CallbackAnswer.isDone : CallbackAnswer → Bool
  | .returns true _ => true
  | _ => false

structure Answer where
  poll : Except Errno (ℤ → Events)
  read : ℤ → ReadAnswer
  callback : CallbackAnswer

/-- What is thrown. -/
inductive Failure
  | poll (errno : Errno)
  | read (errno : Errno)
  | outOfRange
  | callback
  deriving DecidableEq, Repr

/-- The pipes of a process that was started: open descriptors, no two the same. -/
structure Pipes where
  list : List (ℤ × ℤ)
  targets_nodup : (list.map Prod.fst).Nodup
  fds_nodup : (list.map Prod.snd).Nodup
  fds_open : ∀ it ∈ list, 0 ≤ it.2

structure Comm where
  pipes : List (ℤ × ℤ)
  outputs : ℤ → Option Bytes
  unread : ℤ → Bytes

namespace Comm

def targets (s : Comm) : List ℤ := s.pipes.map Prod.fst

/-- `pipes_.erase(target)`. -/
def erase (s : Comm) (target : ℤ) : Comm := { s with pipes := s.pipes.filter fun it => it.1 ≠ target }

/-- `outputs[target].append(buf, l)`, and the bytes have been read from `fd`. -/
def append (s : Comm) (target fd : ℤ) (buf : Bytes) : Comm :=
  { s with
    outputs := Function.update s.outputs target (some ((s.outputs target).getD [] ++ buf))
    unread := Function.update s.unread fd ((s.unread fd).drop buf.length) }

/-- What the callback leaves in the `FileDescriptor` of a pipe. -/
def leave (s : Comm) (target fd : ℤ) : Comm :=
  { s with
    pipes := s.pipes.map fun it =>
      if it.1 = target ∧ fd ∉ (s.pipes.filter fun it => it.1 ≠ target).map Prod.snd then (it.1, fd) else it }

/-- `optBuffer`. -/
def optBuffer (s : Comm) (target : ℤ) : Bytes := (s.outputs target).getD []

def result (s : Comm) : Bytes × Bytes := (s.optBuffer STDOUT_FILENO, s.optBuffer STDERR_FILENO)

end Comm

/-- The state in front of the loop. The source skips the pipes that are not the child's stdin. -/
def start (p : Pipes) (unread : ℤ → Bytes) : Comm where
  pipes := p.list
  outputs := p.list.foldl
    (fun outputs it => if it.1 ≠ STDIN_FILENO then outputs else Function.update outputs it.1 (some []))
    fun _ => none
  unread := unread

/-! ### One round -/

/-- What `poll` reports: nothing for a negative descriptor, and no `POLLIN` or `POLLOUT` that was not asked for. -/
def report (fd : ℤ) (events r : Events) : Events :=
  if fd < 0 then {} else { r with pollin := r.pollin && events.pollin, pollout := r.pollout && events.pollout }

/-- An entry of the array, filled in by `poll`. -/
def pollfd (revents : ℤ → Events) (it : ℤ × ℤ) : Pollfd :=
  let events : Events := if it.1 = STDIN_FILENO then { pollout := true } else { pollin := true }
  ⟨it.2, events, report it.2 events (revents it.1)⟩

/-- The reverse map; an entry that is missing is made, with zero. -/
def revmap (pipes : List (ℤ × ℤ)) : ℤ → ℤ :=
  pipes.foldl (fun revmap it => Function.update revmap it.2 it.1) fun _ => 0

/-- The tests behind the one that reads. -/
def handleRest (x : Answer) (target : ℤ) (revents : Events) (s : Comm) : Except Failure Comm :=
  if revents.pollhup ∧ target = STDIN_FILENO then .ok (s.erase target)
  else if revents.pollout ∧ target = STDIN_FILENO then
    match s.pipes.lookup target with
    | none => .error .outOfRange
    | some _ =>
      match x.callback with
      | .throws => .error .callback
      | .returns true fd => .ok ((s.leave target fd).erase target)
      | .returns false fd =>
        .ok (if revents.pollerr then (s.leave target fd).erase target else s.leave target fd)
  else .ok (if revents.pollerr then s.erase target else s)

/-- The body of the loop over `pfds`. -/
def handle (x : Answer) (revmap : ℤ → ℤ) (pfd : Pollfd) (s : Comm) : Except Failure Comm :=
  let target := revmap pfd.fd
  if (pfd.revents.pollhup ∨ pfd.revents.pollin) ∧ target ≠ STDIN_FILENO then
    match x.read pfd.fd with
    | .error e => if e = .eagain ∨ e = .eintr then .ok s else .error (.read e)
    | .bytes l =>
      let buf := (s.unread pfd.fd).take (min (l + 1) BUFSIZ)
      if buf = [] then .ok (s.erase target)
      else handleRest x target pfd.revents (s.append target pfd.fd buf)
  else handleRest x target pfd.revents s

def scan (x : Answer) (revmap : ℤ → ℤ) : List Pollfd → Comm → Except Failure Comm
  | [], s => .ok s
  | pfd :: pfds, s => do
    let s ← handle x revmap pfd s
    scan x revmap pfds s

/-- One call of `poll` and the loop over its array. A call that is interrupted is made again, with the same
array. -/
def round (s : Comm) (x : Answer) : Except Failure Comm :=
  match x.poll with
  | .error e => if e = .eintr then .ok s else .error (.poll e)
  | .ok revents => scan x (revmap s.pipes) (s.pipes.map (pollfd revents)) s

/-- The result, if these answers are enough for it. -/
def loop : List Answer → Comm → Option (Except Failure (Bytes × Bytes))
  | xs, s =>
    if s.pipes = [] then some (.ok s.result)
    else
      match xs with
      | [] => none
      | x :: xs =>
        match round s x with
        | .error e => some (.error e)
        | .ok s => loop xs s

def pollingCommunicate (xs : List Answer) (p : Pipes) (unread : ℤ → Bytes) :
    Option (Except Failure (Bytes × Bytes)) :=
  loop xs (start p unread)

/-! ### What the child sees -/

/-- What the child writes to a pipe of its own number. -/
def written (p : Pipes) (unread : ℤ → Bytes) (target : ℤ) : Bytes :=
  match p.list.lookup target with
  | none => []
  | some fd => unread fd

/-- No `POLLERR` for a pipe that is read. -/
def NoErr (x : Answer) : Prop :=
  ∀ revents, x.poll = .ok revents → ∀ target, target ≠ STDIN_FILENO → (revents target).pollerr = false

/-- The rounds that do not throw. -/
def step (s : Comm) (x : Answer) : Option Comm := (round s x).toOption

/-- The answer has an event for the pipe: `read` gives bytes or the end of the file; the child's stdin hangs up
or fails, or the callback says that it has nothing more to write. -/
def serves (x : Answer) (it : ℤ × ℤ) : Bool :=
  match x.poll with
  | .error _ => false
  | .ok revents =>
    let r := (pollfd revents it).revents
    if it.1 = STDIN_FILENO then r.pollhup || r.pollerr || (r.pollout && x.callback.isDone)
    else (r.pollhup || r.pollin) && (x.read it.2).isBytes

/-- The pipe is closed in this round: the child's stdin on its event, another one at the end of the file. -/
def Closes (s : Comm) (x : Answer) (target : ℤ) : Prop :=
  ∃ fd, (target, fd) ∈ s.pipes ∧ serves x (target, fd) ∧ (target ≠ STDIN_FILENO → s.unread fd = [])

/-- Over the rounds of `xs`, every pipe of `s` is closed. -/
def AllClosed (s : Comm) (xs : List Answer) : Prop :=
  ∃ s', run step s xs = some s' ∧ ∀ target ∈ s.targets, ∃ pre x, pre ++ [x] <+: xs ∧
    ∃ s'', run step s pre = some s'' ∧ Closes s'' x target

/-- No call fails but for a moment, and the callback keeps to its contract: it closes its descriptor only if it
has nothing more to write. -/
structure Regular (x : Answer) : Prop where
  poll : ∀ e, x.poll = .error e → e = .eintr
  read : ∀ fd e, x.read fd = .error e → e = .eagain ∨ e = .eintr
  callback : ∃ done fd, x.callback = .returns done fd ∧ (done = false → 0 ≤ fd)

/-- Among the answers are more with an event for a pipe than it has bytes; for the child's stdin there is one. -/
def Served (unread : ℤ → Bytes) (xs : List Answer) (it : ℤ × ℤ) : Prop :=
  (if it.1 = STDIN_FILENO then 0 else (unread it.2).length) < xs.countP (serves · it)

instance (unread : ℤ → Bytes) (xs : List Answer) (it : ℤ × ℤ) : Decidable (Served unread xs it) :=
  inferInstanceAs (Decidable (_ < _))

end PollingCommunicate

end EdenCommon
