import EdenCommon.Lib.Run
import EdenCommon.Spec.UnixSocket

/-!
# `UnixSocket`: the life of a socket

`send`, `close`, `closeNow`, `destroy`, the receive callback, I/O events, the send timeout
and I/O errors of `UnixSocket.cpp`.

A callback may call the socket again, so a socket in use is a socket and a stack, the
innermost call first. A frame is what a call has left to do when the calls above it have
returned. A step is a call made by the user (from the event loop or from the callback on
top of the stack), a ready event, a timeout, the return of a callback, or the next part of
the call on top. What a caller does on a `catch` belongs to the frame of the callee.

A `DestructorGuard` is a frame that guards. A failed debug check is recorded and the call
goes on; a failed `XCHECK`, a call through a null pointer and a use of a freed socket are
faults and end the run. The fields behind `record` say what happened and are read by
nothing. Closing a descriptor and registering with the `EventBase` do not fail.
-/

namespace EdenCommon

open Lib

/-- The settings of a socket and its system calls. -/
structure Kernel (F κ : Type) where
  cfg : SocketConfig
  sendmsg : κ → Bytes → List F → SendOutcome × κ
  recvmsg : κ → ℕ → RecvOutcome F × κ
  /-- `shutdown(fd, SHUT_RD)`, and whether it succeeds. -/
  shutdown : κ → Bool × κ

/-- `EventHandler::READ` and `EventHandler::WRITE`. -/
structure IOEvents where
  read : Bool
  write : Bool
  deriving DecidableEq, Repr

def IOEvents.none : IOEvents := ⟨false, false⟩

/-- The exceptions that callbacks are called with. -/
inductive SocketError
  | closed
  | notConnected
  | sendTimeout
  | sendmsgFailed
  | receive (e : RecvError)

def SocketError.what : SocketError → List (String ⊕ ℕ)
  | .closed => [.inl "cannot send a message on a closed UnixSocket"]
  | .notConnected => [.inl "unix socket closed"]
  | .sendTimeout => [.inl "send timeout on unix socket"]
  | .sendmsgFailed => [.inl "sendmsg() failed on UnixSocket"]
  | .receive e => e.what

/-- The exceptions that methods throw. -/
inductive MethodError
  | alreadyInstalled
  | setOnClosed
  | notInstalled
  | shutdownFailed

def MethodError.what : MethodError → String
  | .alreadyInstalled => "a receive callback is already installed on this UnixSocket"
  | .setOnClosed => "cannot set a receive callback on a closed UnixSocket"
  | .notInstalled => "no receive callback currently installed on this UnixSocket"
  | .shutdownFailed => "error performing receive shutdown on UnixSocket"

/-- A call of a `SendCallback`, that of the send with number `id`, or of the
`ReceiveCallback`. -/
inductive Callback (F : Type)
  | sendSuccess (id : ℕ)
  | sendError (id : ℕ) (e : SocketError)
  | messageReceived (data : Bytes) (files : List F)
  | eofReceived
  | socketClosed
  | receiveError (e : SocketError)

/-- The callers of `failAllSends`. -/
inductive Closer
  | closeNow
  | socketError
  deriving DecidableEq

/-- What is left to do of a call. -/
inductive Frame (F : Type)
  /-- User code. -/
  | callback (c : Callback F)
  /-- `trySend` from turn `n` on; a throw ends in `socketError`. -/
  | trySend (n : ℕ)
  /-- `handlerReady` in turn `n` of `tryReceive`; `write` if `trySend` is next. -/
  | tryReceive (n : ℕ) (write : Bool)
  /-- `handlerReady` behind `tryReceive`. -/
  | handlerWrite (write : Bool)
  /-- `failAllSends`, and the end of its caller. -/
  | failAllSends (e : SocketError) (caller : Closer)
  /-- `close` behind its callback. -/
  | closeShutdown
  /-- `destroy` behind `closeNow`. -/
  | destroyEnd

/-- The call holds a `DestructorGuard`. -/
def Frame.guards {F : Type} : Frame F → Bool
  | .trySend _ => true
  | .tryReceive _ _ => true
  | .handlerWrite _ => true
  | .failAllSends _ _ => true
  | _ => false

inductive Fault
  | nullPointer
  | checkFailed
  | useAfterFree
  deriving DecidableEq

/-- An entry of the send queue: its number and whether its `callback` is not null. -/
structure QueuedSend (F : Type) where
  id : ℕ
  callback : Bool
  entry : SendQueueEntry F

structure UnixSocket (κ F : Type) where
  /-- The descriptor is open. -/
  socket_ : Bool
  registeredIOEvents_ : IOEvents
  closeStarted_ : Bool
  /-- A callback is installed. -/
  receiveCallback_ : Bool
  receiver : Receiver F
  sendQueue_ : List (QueuedSend F)
  /-- The entry the pointer points to. -/
  sendQueueTail_ : Option ℕ
  /-- The events that the `EventHandler` is registered for. -/
  handler : IOEvents
  /-- The `AsyncTimeout` is scheduled. -/
  isScheduled : Bool
  destroyPending_ : Bool
  kernel : κ
  /-- record: the calls of `send`, which are numbered in their order. -/
  sends : ℕ
  /-- record: the sends with a callback. -/
  submitted : List ℕ
  /-- record: the sends whose message was handed to the kernel. -/
  sent : List ℕ
  /-- record: the calls of a `SendCallback`; `none` is `sendSuccess`. -/
  outcomes : List (ℕ × Option SocketError)
  /-- record: the messages the `ReceiveCallback` was called with. -/
  delivered : List (Bytes × List F)
  /-- record: the exceptions thrown by methods. -/
  thrown : List MethodError
  /-- record: a debug check of `closeNow` or `socketError` has failed. -/
  failedCheck : Bool
  fault : Option Fault

variable {F κ : Type}

/-- `sendQueueTail_->next = e`. What was behind the tail is dropped. -/
def linkBehind : List (QueuedSend F) → ℕ → QueuedSend F → List (QueuedSend F)
  | [], _, _ => []
  | p :: rest, tail, e => if p.id = tail then [p, e] else p :: linkBehind rest tail e

/-- The end of the stream was met. -/
def Rx.atEof (s : Rx κ F) : Bool :=
  match s.trace.getLast? with
  | some .eofReceived => true
  | _ => false

def Callback.ofSend (id : ℕ) : Option SocketError → Callback F
  | none => .sendSuccess id
  | some e => .sendError id e

namespace UnixSocket

/-- The `UnixSocket` made from an open descriptor. -/
def new (kernel : κ) : UnixSocket κ F where
  socket_ := true
  registeredIOEvents_ := .none
  closeStarted_ := false
  receiveCallback_ := false
  receiver := .new
  sendQueue_ := []
  sendQueueTail_ := none
  handler := .none
  isScheduled := false
  destroyPending_ := false
  kernel := kernel
  sends := 0
  submitted := []
  sent := []
  outcomes := []
  delivered := []
  thrown := []
  failedCheck := false
  fault := none

/-! ### Registration -/

def updateIORegistration (s : UnixSocket κ F) (newEvents : IOEvents) : UnixSocket κ F :=
  if s.registeredIOEvents_ = newEvents then s
  else { s with handler := newEvents, registeredIOEvents_ := newEvents }

def registerForReads (s : UnixSocket κ F) : UnixSocket κ F :=
  s.updateIORegistration { s.registeredIOEvents_ with read := true }

def unregisterForReads (s : UnixSocket κ F) : UnixSocket κ F :=
  s.updateIORegistration { s.registeredIOEvents_ with read := false }

def registerForWrites (s : UnixSocket κ F) : UnixSocket κ F :=
  s.updateIORegistration { s.registeredIOEvents_ with write := true }

def unregisterForWrites (s : UnixSocket κ F) : UnixSocket κ F :=
  s.updateIORegistration { s.registeredIOEvents_ with write := false }

def unregisterIO (s : UnixSocket κ F) : UnixSocket κ F :=
  { s with registeredIOEvents_ := .none, handler := .none }

def scheduleTimeout (s : UnixSocket κ F) : UnixSocket κ F := { s with isScheduled := true }

def cancelTimeout (s : UnixSocket κ F) : UnixSocket κ F := { s with isScheduled := false }

/-! ### Closing -/

/-- What `closeNow` and `socketError` check of a closed socket. -/
def isQuiet (s : UnixSocket κ F) : Bool :=
  s.registeredIOEvents_ = .none && !s.isScheduled && !s.receiveCallback_ && s.sendQueue_.isEmpty &&
    s.sendQueueTail_.isNone

def xdcheck (s : UnixSocket κ F) (b : Bool) : UnixSocket κ F := { s with failedCheck := s.failedCheck || !b }

def raise (s : UnixSocket κ F) (f : Fault) : UnixSocket κ F := { s with fault := some f }

def throwing (s : UnixSocket κ F) (e : MethodError) : UnixSocket κ F := { s with thrown := s.thrown ++ [e] }

/-- The receive callback, if there is one, is uninstalled and called. -/
def takeReceiveCallback (s : UnixSocket κ F) (c : Callback F) : UnixSocket κ F × List (Frame F) :=
  if s.receiveCallback_ then ({ s with receiveCallback_ := false }, [.callback c]) else (s, [])

def closeNow (s : UnixSocket κ F) : UnixSocket κ F × List (Frame F) :=
  if s.socket_ then
    let s := cancelTimeout <| unregisterIO { s with closeStarted_ := true }
    let r := s.takeReceiveCallback .socketClosed
    (r.1, r.2 ++ [.failAllSends .notConnected .closeNow])
  else (s.xdcheck (s.closeStarted_ && s.isQuiet), [])

def socketError (s : UnixSocket κ F) (e : SocketError) : UnixSocket κ F × List (Frame F) :=
  if s.socket_ then
    let s := { (cancelTimeout <| unregisterIO { s with closeStarted_ := true }) with socket_ := false }
    let r := s.takeReceiveCallback (.receiveError e)
    (r.1, r.2 ++ [.failAllSends e .socketError])
  else (s.xdcheck s.isQuiet, [])

/-- The first entry `p` leaves the send queue, and its callback is called. -/
def takeSend (s : UnixSocket κ F) (p : QueuedSend F) (rest : List (QueuedSend F)) (result : Option SocketError) :
    UnixSocket κ F × List (Frame F) :=
  let s := { s with sendQueue_ := rest, sendQueueTail_ := if rest.isEmpty then none else s.sendQueueTail_ }
  if p.callback then ({ s with outcomes := s.outcomes ++ [(p.id, result)] }, [.callback (.ofSend p.id result)])
  else (s, [])

/-- A turn of `failAllSends`. Behind its loop `closeNow` closes the descriptor. -/
def failAllSends (s : UnixSocket κ F) (e : SocketError) (caller : Closer) : UnixSocket κ F × List (Frame F) :=
  match s.sendQueue_ with
  | p :: rest =>
    let r := s.takeSend p rest (some e)
    (r.1, r.2 ++ [.failAllSends e caller])
  | [] => (match caller with
    | .closeNow => { s with socket_ := false }
    | .socketError => s, [])

def close (s : UnixSocket κ F) : UnixSocket κ F × List (Frame F) :=
  if s.closeStarted_ then (s, [])
  else if s.sendQueue_.isEmpty then s.closeNow
  else
    let s := { s with closeStarted_ := true }
    let r := if s.receiveCallback_ then s.unregisterForReads.takeReceiveCallback .socketClosed else (s, [])
    (r.1, r.2 ++ [.closeShutdown])

def destroy (s : UnixSocket κ F) : UnixSocket κ F × List (Frame F) :=
  let r := s.closeNow
  (r.1, r.2 ++ [.destroyEnd])

/-! ### Sending -/

/-- `callback->sendError(..)`, without a look at the pointer. -/
def refuse (s : UnixSocket κ F) (id : ℕ) (callback : Bool) : UnixSocket κ F × List (Frame F) :=
  if callback then
    ({ s with outcomes := s.outcomes ++ [(id, some .closed)] }, [.callback (.sendError id .closed)])
  else (s.raise .nullPointer, [])

/-- `send`; `allocated` if there is memory for the entry. -/
def send (s : UnixSocket κ F) (message : Message F) (callback allocated : Bool) :
    UnixSocket κ F × List (Frame F) :=
  let id := s.sends
  let s := { s with sends := id + 1, submitted := if callback then s.submitted ++ [id] else s.submitted }
  if s.closeStarted_ then s.refuse id callback
  else if !allocated then s.refuse id callback
  else
    let queueEntry : QueuedSend F := ⟨id, callback, createSendQueueEntry message⟩
    match s.sendQueueTail_ with
    | none => ({ s with sendQueue_ := [queueEntry], sendQueueTail_ := some id }, [.trySend 0])
    | some tail =>
      ({ s with sendQueue_ := linkBehind s.sendQueue_ tail queueEntry, sendQueueTail_ := some id }, [])

/-- `trySend` behind its loop. -/
def finishTrySend (s : UnixSocket κ F) : UnixSocket κ F × List (Frame F) :=
  if s.sendQueue_.isEmpty then
    let s := s.cancelTimeout.unregisterForWrites
    if s.closeStarted_ then s.closeNow else (s, [])
  else (s.scheduleTimeout.registerForWrites, [])

/-- A system call on a closed descriptor fails. -/
def sendmsg (K : Kernel F κ) (s : UnixSocket κ F) : κ → Bytes → List F → SendOutcome × κ :=
  if s.socket_ then K.sendmsg else fun k _ _ => (.failed, k)

/-- Turn `n` of `trySend`. -/
def trySend (K : Kernel F κ) (s : UnixSocket κ F) (n : ℕ) : UnixSocket κ F × List (Frame F) :=
  if n < MAX_MSGS_AT_ONCE then
    match s.sendQueue_ with
    | [] => s.finishTrySend
    | p :: rest =>
      match trySendMessage K.cfg (s.sendmsg K) s.kernel p.entry with
      | .error .checkFailed => (s.raise .checkFailed, [.trySend n])
      | .error .sendmsgFailed => s.socketError .sendmsgFailed
      | .ok (false, entry, kernel) => { s with sendQueue_ := { p with entry } :: rest, kernel }.finishTrySend
      | .ok (true, _, kernel) =>
        let r := { s with kernel, sent := s.sent ++ [p.id] }.takeSend p rest none
        (r.1, r.2 ++ [.trySend (n + 1)])
  else s.finishTrySend

/-! ### Receiving -/

def setReceiveCallback (s : UnixSocket κ F) : UnixSocket κ F × List (Frame F) :=
  if s.receiveCallback_ then (s.throwing .alreadyInstalled, [])
  else if s.closeStarted_ then (s.throwing .setOnClosed, [])
  else ({ s with receiveCallback_ := true }.registerForReads, [])

def clearReceiveCallback (s : UnixSocket κ F) : UnixSocket κ F × List (Frame F) :=
  if s.receiveCallback_ then ({ s with receiveCallback_ := false }.unregisterForReads, [])
  else (s.throwing .notInstalled, [])

/-- `EBADF`, which is 9. -/
def recvmsg (K : Kernel F κ) (s : UnixSocket κ F) : κ → ℕ → RecvOutcome F × κ :=
  if s.socket_ then K.recvmsg else fun k _ => (.failed 9, k)

/-- Turn `n` of `tryReceive`, for `handlerReady`. -/
def tryReceive (K : Kernel F κ) (s : UnixSocket κ F) (n : ℕ) (write : Bool) : UnixSocket κ F × List (Frame F) :=
  if n < 10 ∧ s.receiveCallback_ = true then
    match tryReceiveOne K.cfg (s.recvmsg K) ⟨s.receiver, s.kernel, []⟩ with
    | .error e rx => { s with receiver := rx.receiver, kernel := rx.kernel }.socketError (.receive e)
    | .ok false rx =>
      ({ s with receiver := rx.receiver, kernel := rx.kernel },
        (if rx.atEof then [.callback .eofReceived] else []) ++ [.handlerWrite write])
    | .ok true rx =>
      ({ s with
          receiver := (deliver rx).receiver
          kernel := rx.kernel
          delivered := s.delivered ++ [(rx.receiver.data, rx.receiver.files)] },
        [.callback (.messageReceived rx.receiver.data rx.receiver.files), .tryReceive (n + 1) write])
  else (s, [.handlerWrite write])

end UnixSocket

/-! ### Runs -/

/-- A method called by the user. -/
inductive Call (F : Type)
  | send (message : Message F) (callback allocated : Bool)
  | close
  | closeNow
  | destroy
  | setReceiveCallback
  | clearReceiveCallback

namespace UnixSocket

def call (s : UnixSocket κ F) : Call F → UnixSocket κ F × List (Frame F)
  | .send message callback allocated => s.send message callback allocated
  | .close => s.close
  | .closeNow => s.closeNow
  | .destroy => s.destroy
  | .setReceiveCallback => s.setReceiveCallback
  | .clearReceiveCallback => s.clearReceiveCallback

/-- No guard is left after `destroy`: the memory is gone. -/
def freed (s : UnixSocket κ F) (stack : List (Frame F)) : Bool := s.destroyPending_ && !stack.any Frame.guards

/-- The next part of the frame on top of `below`: the new state and the frames in its
place. -/
def exec (K : Kernel F κ) (s : UnixSocket κ F) (below : List (Frame F)) :
    Frame F → UnixSocket κ F × List (Frame F)
  | .callback _ => (s, [])
  | .trySend n => s.trySend K n
  | .tryReceive n write => s.tryReceive K n write
  | .handlerWrite write => (s, if write then [.trySend 0] else [])
  | .failAllSends e caller => s.failAllSends e caller
  | .closeShutdown =>
    if s.freed below then (s.raise .useAfterFree, [.closeShutdown])
    else if s.socket_ then
      let r := K.shutdown s.kernel
      (if r.1 then { s with kernel := r.2 } else { s with kernel := r.2 }.throwing .shutdownFailed, [])
    else (s.throwing .shutdownFailed, [])
  | .destroyEnd =>
    if s.freed below then (s.raise .useAfterFree, [.destroyEnd]) else ({ s with destroyPending_ := true }, [])

def handlerReady (events : IOEvents) : Frame F :=
  if events.read then .tryReceive 0 events.write else .handlerWrite events.write

def timeoutExpired (s : UnixSocket κ F) : UnixSocket κ F × List (Frame F) :=
  { s with isScheduled := false }.socketError .sendTimeout

end UnixSocket

/-- A socket and the calls under way. -/
structure Running (κ F : Type) where
  socket : UnixSocket κ F
  stack : List (Frame F)

inductive Act (F : Type)
  | call (c : Call F)
  | ready (events : IOEvents)
  | timeout
  /-- The callback on top returns. -/
  | ret
  /-- The call on top goes on. -/
  | run

namespace Running

def new (kernel : κ) : Running κ F := ⟨.new kernel, []⟩

/-- Control is with the event loop or with a callback. -/
def userCode (r : Running κ F) : Bool :=
  match r.stack with
  | [] => true
  | .callback _ :: _ => true
  | _ => false

/-- The step function; `none` if the step is not possible. A freed socket is not called,
and the event loop reports only what is registered. -/
def step (K : Kernel F κ) (r : Running κ F) (a : Act F) : Option (Running κ F) :=
  if r.socket.fault.isSome then none
  else match a with
  | .call c =>
    if r.userCode && !r.socket.freed r.stack then
      some ⟨(r.socket.call c).1, (r.socket.call c).2 ++ r.stack⟩
    else none
  | .ready events =>
    if r.stack.isEmpty && (!events.read || r.socket.handler.read) && (!events.write || r.socket.handler.write) then
      some ⟨r.socket, [UnixSocket.handlerReady events]⟩
    else none
  | .timeout =>
    if r.stack.isEmpty && r.socket.isScheduled then some ⟨r.socket.timeoutExpired.1, r.socket.timeoutExpired.2⟩
    else none
  | .ret =>
    match r.stack with
    | .callback _ :: below => some ⟨r.socket, below⟩
    | _ => none
  | .run =>
    match r.stack with
    | [] => none
    | .callback _ :: _ => none
    | f :: below => some ⟨(r.socket.exec K below f).1, (r.socket.exec K below f).2 ++ below⟩

end Running

end EdenCommon
