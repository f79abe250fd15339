import EdenCommon.Spec.SocketLifecycle

/-!
# `UnixSocket::connect`

`connect` and the `Connector` of `UnixSocket.cpp`. The state is that of one `connect`, from
its return on. A step is an event of the `EventBase` or the return of the callback that the
`Connector` has called: the callback may run the loop itself, so events are possible
before it returns as far as the handler and the timer are registered for them.

The results of the system calls are arguments; a call that fails gives `errno`. What
`socket` returns is the state `κ` of the kernel behind the descriptor. Registering with the
`EventBase` does not fail. The field behind `record` says what happened and is read by
nothing.
-/

namespace EdenCommon

def EAGAIN : ℕ := 11

def ETIMEDOUT : ℕ := 110

def ECONNREFUSED : ℕ := 111

/-- The exceptions that `connectError` is called with. -/
inductive ConnectError
  /-- `makeSystemError`. -/
  | system (errno : ℕ) (what : String)
  | runtime (what : String)
  | badAlloc
  deriving DecidableEq

/-- What the constructor of `UnixSocket` meets. -/
inductive Construction
  | made
  /-- `fcntl(F_SETFL)` fails. -/
  | fcntlFails
  | noMemory
  deriving DecidableEq

/-- The results of the calls that `connect` makes. -/
structure ConnectCalls (κ : Type) where
  socket : Except ℕ κ
  /-- `fcntl(F_SETFD, FD_CLOEXEC)`. -/
  setCloexec : Except ℕ Unit
  /-- `fcntl(F_SETFL, O_NONBLOCK)`. -/
  setNonblock : Except ℕ Unit
  connect : Except ℕ Unit
  makeUnique : Construction
  /-- There is memory for a `Connector`. -/
  newConnector : Bool

/-- A call of the `ConnectCallback`. -/
inductive ConnectReport (κ F : Type)
  | connectSuccess (socket : UnixSocket κ F)
  | connectError (e : ConnectError)

structure Connector (κ : Type) where
  socket_ : κ
  /-- The `EventHandler` is registered for `WRITE`. -/
  handler : Bool
  /-- The `AsyncTimeout` is scheduled. -/
  isScheduled : Bool

structure Connecting (κ F : Type) where
  /-- `none` if there was none or it is deleted. -/
  connector : Option (Connector κ)
  /-- The `Connector` is in a call of the callback. -/
  reporting : Bool
  /-- `std::terminate` was called. -/
  terminated : Bool
  /-- The calls of the `ConnectCallback`. -/
  reports : List (ConnectReport κ F)
  /-- record: the `SO_ERROR` that `getsockopt` has given. -/
  soError : Option ℤ

inductive ConnectEvent
  /-- The socket is writable; the results of `getsockopt` and of the constructor. -/
  | writable (getsockopt : Except ℕ ℤ) (makeUnique : Construction)
  | timeout
  | callbackReturns

variable {κ F : Type}

/-- `makeUnique`, as far as it can throw. -/
def UnixSocket.makeUnique (socket : κ) : Construction → Except ConnectError (UnixSocket κ F)
  | .made => .ok (.new socket)
  | .fcntlFails => .error (.runtime "failed to set O_NONBLOCK on unix socket")
  | .noMemory => .error .badAlloc

namespace Connector

def new (socket : κ) : Connector κ := ⟨socket, false, false⟩

def start (c : Connector κ) : Connector κ := { c with isScheduled := true, handler := true }

/-- Up to the return of the callback. The event is not persistent, so the handler is not
registered any more. -/
def handlerReady (c : Connector κ) (getsockopt : Except ℕ ℤ) (makeUnique : Construction)
    (s : Connecting κ F) : Connecting κ F :=
  let c := { c with handler := false, isScheduled := false }
  match getsockopt with
  | .ok error =>
    match UnixSocket.makeUnique c.socket_ makeUnique with
    | .ok socket =>
      { s with
        connector := some c, reporting := true, reports := s.reports ++ [.connectSuccess socket],
        soError := some error }
    -- thrown in a `noexcept` function
    | .error _ => { s with connector := some c, terminated := true, soError := some error }
  | .error errno =>
    { s with
      connector := some c, reporting := true,
      reports := s.reports ++ [.connectError (.system errno "connect failed on unix socket")] }

/-- Up to the return of the callback. -/
def timeoutExpired (c : Connector κ) (s : Connecting κ F) : Connecting κ F :=
  { s with
    connector := some { c with isScheduled := false, handler := false }, reporting := true,
    reports := s.reports ++ [.connectError (.system ETIMEDOUT "connect timeout on unix socket")] }

end Connector

namespace Connecting

/-- `connect` has called the callback itself. -/
def reported (r : ConnectReport κ F) : Connecting κ F := ⟨none, false, false, [r], none⟩

def waiting (c : Connector κ) : Connecting κ F := ⟨some c, false, false, [], none⟩

def step (s : Connecting κ F) (e : ConnectEvent) : Option (Connecting κ F) :=
  if s.terminated then none
  else
    match s.connector with
    | none => none
    | some c =>
      match e with
      | .writable getsockopt makeUnique =>
        if c.handler then some (c.handlerReady getsockopt makeUnique s) else none
      | .timeout => if c.isScheduled then some (c.timeoutExpired s) else none
      -- `delete this`
      | .callbackReturns => if s.reporting then some { s with connector := none, reporting := false } else none

end Connecting

namespace UnixSocket

open Connecting

/-- `connect` to an address with the given description. -/
def connect (calls : ConnectCalls κ) (address : String) : Connecting κ F :=
  match calls.socket with
  | .error errno => reported (.connectError (.system errno "failed to create unix socket"))
  | .ok socketFile =>
    match calls.setCloexec with
    | .error errno => reported (.connectError (.system errno "failed to set FD_CLOEXEC on unix socket"))
    | .ok () =>
      match calls.setNonblock with
      | .error errno => reported (.connectError (.system errno "failed to set O_NONBLOCK on unix socket"))
      | .ok () =>
        match calls.connect with
        | .ok () =>
          match makeUnique socketFile calls.makeUnique with
          | .ok socket => reported (.connectSuccess socket)
          | .error e => reported (.connectError e)
        | .error errno =>
          if errno ≠ EAGAIN then
            reported (.connectError (.system errno ("unable to connect to unix socket at " ++ address)))
          else if calls.newConnector then waiting (Connector.new socketFile).start
          else reported (.connectError .badAlloc)

end UnixSocket

end EdenCommon
