import EdenCommon.Spec.SocketLifecycle

/-!
# `FutureUnixSocket`

`receive`, `send`, `closeNow`, the receive timeout and the callbacks of
`FutureUnixSocket.cpp`, over the `UnixSocket` that it owns. Futures are numbered by the
calls of `receive`. Completing a promise runs the continuation of its future, which may
call the `FutureUnixSocket` again, but does not destroy or move it.

The stack holds the frames of the `UnixSocket` and between them those of its callbacks,
which are methods of the `FutureUnixSocket`.
-/

namespace EdenCommon

open Lib

/-- The exceptions of receive futures. -/
inductive FutureError
  | cannotReceive
  | remoteClosed
  | closedLocally
  | timeout
  | socket (e : SocketError)

def FutureError.what : FutureError → List (String ⊕ ℕ)
  | .cannotReceive => [.inl "cannot receive on a closed socket"]
  | .remoteClosed => [.inl "remote endpoint closed connection"]
  | .closedLocally => [.inl "socket closed locally"]
  | .timeout => [.inl "receive timeout on unix socket"]
  | .socket e => e.what

/-- What is left to do of a call. -/
inductive FutureFrame (F : Type)
  /-- A frame of the `UnixSocket`. -/
  | socket (f : Frame F)
  /-- A callback of the `UnixSocket`, which has just been called. -/
  | handler (c : Callback F)
  /-- The end of a callback of the `UnixSocket`. -/
  | running (c : Callback F)
  | failAllPromises (error : FutureError)
  | failReceiveQueue (callback : List ℕ) (ew : FutureError)
  /-- The continuation of a future. -/
  | user

/-- `socket_` is not null; `socket` is the object it points to, or what the calls under way
have of it. -/
structure FutureUnixSocket (κ F : Type) where
  socket_ : Bool
  socket : UnixSocket κ F
  recvQueue_ : List ℕ
  /-- The entry the pointer points to. -/
  recvQueueTail_ : Option ℕ
  /-- record: the calls of `receive`, which are numbered in their order. -/
  receives : ℕ
  /-- record: the futures completed, in order. -/
  completed : List (ℕ × Except FutureError (Bytes × List F))
  /-- record: the event that ended the socket, and the calls of `receive` before it. -/
  endedBy : Option FutureError
  endedAt : ℕ

variable {F κ : Type}

/-- The frames of the `UnixSocket` on the stack. -/
def FutureFrame.inner : FutureFrame F → List (Frame F)
  | .socket f => [f]
  | .handler c => [.callback c]
  | .running c => [.callback c]
  | _ => []

def innerStack (st : List (FutureFrame F)) : List (Frame F) := st.flatMap FutureFrame.inner

/-- A callback of the `UnixSocket` is a method. -/
def FutureFrame.ofFrame : Frame F → FutureFrame F
  | .callback c => .handler c
  | f => .socket f

namespace FutureUnixSocket

/-- Made from an open descriptor. -/
def new (kernel : κ) : FutureUnixSocket κ F where
  socket_ := true
  socket := .new kernel
  recvQueue_ := []
  recvQueueTail_ := none
  receives := 0
  completed := []
  endedBy := none
  endedAt := 0

def complete (s : FutureUnixSocket κ F) (id : ℕ) (result : Except FutureError (Bytes × List F)) :
    FutureUnixSocket κ F := { s with completed := s.completed ++ [(id, result)] }

/-- A failed `XCHECK`, or a throw out of a method that does not throw. -/
def abort (s : FutureUnixSocket κ F) : FutureUnixSocket κ F := { s with socket := s.socket.raise .checkFailed }

/-- `socket_.reset()`: the pointer is null when `destroy` is called. -/
def reset (s : FutureUnixSocket κ F) (event : FutureError) : FutureUnixSocket κ F × List (FutureFrame F) :=
  if s.socket_ then
    let r := s.socket.destroy
    ({ s with socket_ := false, socket := r.1, endedBy := some event, endedAt := s.receives },
      r.2.map .ofFrame)
  else (s, [])

def closeNow (s : FutureUnixSocket κ F) : FutureUnixSocket κ F × List (FutureFrame F) := s.reset .closedLocally

/-- The callback of a send is never null. -/
def send (s : FutureUnixSocket κ F) (msg : Message F) (allocated : Bool) :
    FutureUnixSocket κ F × List (FutureFrame F) :=
  if s.socket_ then
    let r := s.socket.send msg true allocated
    ({ s with socket := r.1 }, r.2.map .ofFrame)
  else (s, [])

/-- `receive`. An exception of `setReceiveCallback` leaves the entry in the queue. -/
def receive (s : FutureUnixSocket κ F) : FutureUnixSocket κ F × List (FutureFrame F) :=
  let id := s.receives
  if s.socket_ then
    match s.recvQueueTail_ with
    | some previousTail =>
      if s.recvQueue_.getLast? = some previousTail then
        ({ s with receives := id + 1, recvQueueTail_ := some id, recvQueue_ := s.recvQueue_ ++ [id] }, [])
      else (s.abort, [])
    | none =>
      let r := s.socket.setReceiveCallback
      ({ s with receives := id + 1, recvQueueTail_ := some id, recvQueue_ := [id], socket := r.1 },
        r.2.map .ofFrame)
  else ({ s with receives := id + 1 }.complete id (.error .cannotReceive), [])

def receiveTimeout (s : FutureUnixSocket κ F) : FutureUnixSocket κ F × List (FutureFrame F) :=
  let r := { s with recvQueue_ := [], recvQueueTail_ := none }.reset .timeout
  (r.1, r.2 ++ [.failReceiveQueue s.recvQueue_ .timeout])

def messageReceived (s : FutureUnixSocket κ F) (data : Bytes) (files : List F) :
    FutureUnixSocket κ F × List (FutureFrame F) :=
  let c := .messageReceived data files
  match s.recvQueue_ with
  | [] => (s.abort, [.handler c])
  | id :: next :: rest =>
    ({ s with recvQueue_ := next :: rest }.complete id (.ok (data, files)), [.user, .running c])
  | [id] =>
    if s.socket_ && s.socket.receiveCallback_ then
      let s := { s with recvQueue_ := [], recvQueueTail_ := none, socket := s.socket.clearReceiveCallback.1 }
      (s.complete id (.ok (data, files)), [.user, .running c])
    else (s.abort, [.handler c])

/-- `eofReceived`, `socketClosed` and `receiveError`. -/
def terminate (s : FutureUnixSocket κ F) (c : Callback F) (error : FutureError) :
    FutureUnixSocket κ F × List (FutureFrame F) :=
  let r := s.reset error
  (r.1, r.2 ++ [.failAllPromises error, .running c])

/-- The methods that the `UnixSocket` calls. Those of a `SendCallback` complete the future
of a send. -/
def handle (s : FutureUnixSocket κ F) : Callback F → FutureUnixSocket κ F × List (FutureFrame F)
  | .sendSuccess id => (s, [.user, .running (.sendSuccess id)])
  | .sendError id e => (s, [.user, .running (.sendError id e)])
  | .messageReceived data files => s.messageReceived data files
  | .eofReceived => s.terminate .eofReceived .remoteClosed
  | .socketClosed => s.terminate .socketClosed .closedLocally
  | .receiveError e => s.terminate (.receiveError e) (.socket e)

/-- The next part of the frame on top of `below`. -/
def exec (K : Kernel F κ) (s : FutureUnixSocket κ F) (below : List (FutureFrame F)) :
    FutureFrame F → FutureUnixSocket κ F × List (FutureFrame F)
  | .socket f =>
    let r := s.socket.exec K (innerStack below) f
    ({ s with socket := r.1 }, r.2.map .ofFrame)
  | .handler c => s.handle c
  | .running _ => (s, [])
  | .failAllPromises error =>
    ({ s with recvQueue_ := [], recvQueueTail_ := none }, [.failReceiveQueue s.recvQueue_ error])
  | .failReceiveQueue [] _ => (s, [])
  | .failReceiveQueue (id :: next) ew => (s.complete id (.error ew), [.user, .failReceiveQueue next ew])
  | .user => (s, [])

end FutureUnixSocket

/-- A `FutureUnixSocket` and the calls under way. -/
structure FutureRunning (κ F : Type) where
  future : FutureUnixSocket κ F
  stack : List (FutureFrame F)

inductive FutureAct (F : Type)
  | receive
  | send (msg : Message F) (allocated : Bool)
  | closeNow
  /-- The `UnixSocket` is ready for I/O. -/
  | ready (events : IOEvents)
  /-- The timeout of the `UnixSocket`. -/
  | sendTimeout
  /-- The timeout of an entry of the queue. -/
  | receiveTimeout
  /-- The continuation on top returns. -/
  | ret
  /-- The call on top goes on. -/
  | run

namespace FutureRunning

def new (kernel : κ) : FutureRunning κ F := ⟨.new kernel, []⟩

/-- Control is with the event loop or with a continuation. -/
def userCode (r : FutureRunning κ F) : Bool :=
  match r.stack with
  | [] => true
  | .user :: _ => true
  | _ => false

/-- The result of a call, on top of the stack. -/
def push (t : FutureUnixSocket κ F × List (FutureFrame F)) (below : List (FutureFrame F)) : FutureRunning κ F :=
  ⟨t.1, t.2 ++ below⟩

/-- The step function; `none` if the step is not possible. -/
def step (K : Kernel F κ) (r : FutureRunning κ F) (a : FutureAct F) : Option (FutureRunning κ F) :=
  if r.future.socket.fault.isSome then none
  else match a with
  | .receive => if r.userCode then some (push r.future.receive r.stack) else none
  | .send msg allocated => if r.userCode then some (push (r.future.send msg allocated) r.stack) else none
  | .closeNow => if r.userCode then some (push r.future.closeNow r.stack) else none
  | .ready events =>
    if r.stack.isEmpty && (!events.read || r.future.socket.handler.read) &&
        (!events.write || r.future.socket.handler.write) then
      some ⟨r.future, [.socket (UnixSocket.handlerReady events)]⟩
    else none
  | .sendTimeout =>
    if r.stack.isEmpty && r.future.socket.isScheduled then
      let t := r.future.socket.timeoutExpired
      some ⟨{ r.future with socket := t.1 }, t.2.map .ofFrame⟩
    else none
  | .receiveTimeout =>
    if r.stack.isEmpty && !r.future.recvQueue_.isEmpty then some (push r.future.receiveTimeout [])
    else none
  | .ret =>
    match r.stack with
    | .user :: below => some ⟨r.future, below⟩
    | _ => none
  | .run =>
    match r.stack with
    | [] => none
    | .user :: _ => none
    | f :: below => some (push (r.future.exec K below f) below)

end FutureRunning

end EdenCommon
