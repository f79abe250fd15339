import EdenCommon.Spec.FutureUnixSocket
import Mathlib.Logic.Function.Basic

/-!
# `FutureUnixSocket`: objects and pointers

`FutureUnixSocket`s that are connected, moved and destroyed, with the pointers between them
and their `UnixSocket`s. Objects, sockets and futures are numbered in the order in which
they are made. A `UnixSocket` points to the object that it calls, and so does an entry of a
receive queue, for its timeout.

The methods are those of `EdenCommon.FutureUnixSocket`, here with all pointers. User code,
which is the event loop or a continuation, may call any object that it has not destroyed.
The object a callback calls may be gone, which is a fault.
-/

namespace EdenCommon

open Lib Function

/-- A `FutureUnixSocket::ReceiveCallback`, with the number of its future. -/
structure ReceiveEntry where
  socket_ : ℕ
  promise_ : ℕ
  deriving DecidableEq, Repr

inductive Lifetime
  /-- User code may call the object. -/
  | usable
  /-- Its destructor has been called. -/
  | closing
  /-- There is no such object, or no more. -/
  | gone
  deriving DecidableEq, Repr

structure FutureObject where
  socket_ : Option ℕ
  recvQueue_ : List ReceiveEntry
  /-- The future of the entry the pointer points to. -/
  recvQueueTail_ : Option ℕ
  lifetime : Lifetime
  deriving DecidableEq, Repr

/-- A `UnixSocket`, and what its `receiveCallback_` points to while it is not null. -/
structure HeapSocket (κ F : Type) where
  socket : UnixSocket κ F
  receiveCallback_ : ℕ

/-- The exceptions of receive futures; that of a promise destroyed is the second. -/
inductive ReceiveFailure
  | error (e : FutureError)
  | brokenPromise

/-- What is left to do of a call. Numbers `i` are of sockets, `o` and `other` of objects. -/
inductive HeapFrame (F : Type)
  /-- A frame of a `UnixSocket`. -/
  | socket (i : ℕ) (f : Frame F)
  /-- A callback of a `UnixSocket`, which has just been called. -/
  | handler (i o : ℕ) (c : Callback F)
  /-- The end of a callback of a `UnixSocket`. -/
  | running (i : ℕ) (c : Callback F)
  | failAllPromises (o : ℕ) (error : FutureError)
  | failReceiveQueue (callback : List ReceiveEntry) (ew : ReceiveFailure)
  /-- The move assignment behind `socket_`. Without `other` it is that of `connectSuccess`,
  from a temporary that has no receives. -/
  | moveQueue (o : ℕ) (other : Option ℕ)
  /-- The move assignment in the destructor of the queue that was overwritten. -/
  | dropQueue (queue : List ReceiveEntry) (o : ℕ) (other : Option ℕ)
  /-- The destructor behind `closeNow`. -/
  | destructor (o : ℕ)
  /-- The continuation of a future. -/
  | user

structure FutureHeap (κ F : Type) where
  objects : ℕ → FutureObject
  sockets : ℕ → HeapSocket κ F
  objectCount : ℕ
  socketCount : ℕ
  /-- The objects that `ConnectCallback`s wait for. -/
  connecting : List ℕ
  /-- record: the calls of `receive`, which are numbered in their order. -/
  receives : ℕ
  /-- record: the futures completed, in order. -/
  completed : List (ℕ × Except ReceiveFailure (Bytes × List F))
  fault : Option Fault

variable {F κ : Type}

namespace HeapFrame

/-- The frames of socket `i` on the stack. -/
def inner (i : ℕ) : HeapFrame F → List (Frame F)
  | .socket j f => if j = i then [f] else []
  | .handler j _ c => if j = i then [.callback c] else []
  | .running j c => if j = i then [.callback c] else []
  | _ => []

/-- A frame of socket `i`, whose receive callback is object `o`. -/
def ofFrame (i o : ℕ) : Frame F → HeapFrame F
  | .callback c => .handler i o c
  | f => .socket i f

end HeapFrame

namespace FutureHeap

def innerStack (i : ℕ) (st : List (HeapFrame F)) : List (Frame F) := st.flatMap (HeapFrame.inner i)

/-- No object has been made; the sockets to come start with the given kernel states. -/
def new (kernels : ℕ → κ) : FutureHeap κ F where
  objects := fun _ => ⟨none, [], none, .gone⟩
  sockets := fun i => ⟨.new (kernels i), 0⟩
  objectCount := 0
  socketCount := 0
  connecting := []
  receives := 0
  completed := []
  fault := none

def raise (h : FutureHeap κ F) (f : Fault) : FutureHeap κ F := { h with fault := some f }

def complete (h : FutureHeap κ F) (id : ℕ) (result : Except ReceiveFailure (Bytes × List F)) : FutureHeap κ F :=
  { h with completed := h.completed ++ [(id, result)] }

def setObject (h : FutureHeap κ F) (o : ℕ) (x : FutureObject) : FutureHeap κ F :=
  { h with objects := update h.objects o x }

def setSocket (h : FutureHeap κ F) (i : ℕ) (s : UnixSocket κ F) : FutureHeap κ F :=
  { h with sockets := update h.sockets i { h.sockets i with socket := s }, fault := h.fault.or s.fault }

/-- What a method of socket `i` has done. -/
def onSocket (h : FutureHeap κ F) (i : ℕ) (r : UnixSocket κ F × List (Frame F)) :
    FutureHeap κ F × List (HeapFrame F) :=
  (h.setSocket i r.1, r.2.map (.ofFrame i (h.sockets i).receiveCallback_))

/-- `socket_ = ..`: the socket that the pointer had is destroyed when the pointer is the new one. -/
def assignSocket (h : FutureHeap κ F) (o : ℕ) (socket_ : Option ℕ) : FutureHeap κ F × List (HeapFrame F) :=
  match (h.objects o).socket_ with
  | some i =>
    (h.setObject o { h.objects o with socket_ := socket_ }).onSocket i (h.sockets i).socket.destroy
  | none => (h.setObject o { h.objects o with socket_ := socket_ }, [])

/-! ### Methods -/

/-- `socket_.reset()` -/
def reset (h : FutureHeap κ F) (o : ℕ) : FutureHeap κ F × List (HeapFrame F) := h.assignSocket o none

def closeNow (h : FutureHeap κ F) (o : ℕ) : FutureHeap κ F × List (HeapFrame F) := h.reset o

/-- The callback of a send is never null. -/
def send (h : FutureHeap κ F) (o : ℕ) (msg : Message F) (allocated : Bool) :
    FutureHeap κ F × List (HeapFrame F) :=
  match (h.objects o).socket_ with
  | some i => h.onSocket i ((h.sockets i).socket.send msg true allocated)
  | none => (h, [])

/-- `setReceiveCallback(this)` on socket `i`. -/
def setReceiveCallback (h : FutureHeap κ F) (i o : ℕ) : FutureHeap κ F × List (HeapFrame F) :=
  let s := (h.sockets i).socket
  let r := h.onSocket i s.setReceiveCallback
  if s.receiveCallback_ || s.closeStarted_ then r
  else ({ r.1 with sockets := update r.1.sockets i { r.1.sockets i with receiveCallback_ := o } }, r.2)

/-- The tail points to the last entry. -/
def tailOk (x : FutureObject) : Bool := x.recvQueueTail_ = x.recvQueue_.getLast?.map ReceiveEntry.promise_

/-- `receive`. An exception of `setReceiveCallback` leaves the entry in the queue. -/
def receive (h : FutureHeap κ F) (o : ℕ) : FutureHeap κ F × List (HeapFrame F) :=
  let id := h.receives
  let x := h.objects o
  match x.socket_ with
  | none => ({ h with receives := id + 1 }.complete id (.error (.error .cannotReceive)), [])
  | some i =>
    if tailOk x then
      let x' := { x with recvQueueTail_ := some id, recvQueue_ := x.recvQueue_ ++ [⟨o, id⟩] }
      let h' := { h with receives := id + 1 }.setObject o x'
      if x.recvQueueTail_.isSome then (h', []) else h'.setReceiveCallback i o
    else (h.raise .checkFailed, [])

def receiveTimeout (h : FutureHeap κ F) (o : ℕ) : FutureHeap κ F × List (HeapFrame F) :=
  let x := h.objects o
  let r := (h.setObject o { x with recvQueue_ := [], recvQueueTail_ := none }).reset o
  (r.1, r.2 ++ [.failReceiveQueue x.recvQueue_ (.error .timeout)])

/-- `messageReceived`, called by socket `i`. -/
def messageReceived (h : FutureHeap κ F) (i o : ℕ) (data : Bytes) (files : List F) :
    FutureHeap κ F × List (HeapFrame F) :=
  let c := .messageReceived data files
  let x := h.objects o
  match x.recvQueue_ with
  | [] => (h.raise .checkFailed, [.handler i o c])
  | callback :: next :: rest =>
    ((h.setObject o { x with recvQueue_ := next :: rest }).complete callback.promise_ (.ok (data, files)),
      [.user, .running i c])
  | [callback] =>
    match x.socket_ with
    | none => (h.raise .nullPointer, [.handler i o c])
    | some j =>
      let s := (h.sockets j).socket
      if s.receiveCallback_ then
        let h := (h.setObject o { x with recvQueue_ := [], recvQueueTail_ := none }).setSocket j s.clearReceiveCallback.1
        (h.complete callback.promise_ (.ok (data, files)), [.user, .running i c])
      else (h.raise .checkFailed, [.handler i o c])

/-- `eofReceived`, `socketClosed` and `receiveError`. -/
def terminate (h : FutureHeap κ F) (i o : ℕ) (c : Callback F) (error : FutureError) :
    FutureHeap κ F × List (HeapFrame F) :=
  let r := h.reset o
  (r.1, r.2 ++ [.failAllPromises o error, .running i c])

/-- The call `fs` uses object `o`, which may be gone. -/
def deref (h : FutureHeap κ F) (o : ℕ) (fs : List (HeapFrame F)) (r : FutureHeap κ F × List (HeapFrame F)) :
    FutureHeap κ F × List (HeapFrame F) :=
  if (h.objects o).lifetime = .gone then (h.raise .useAfterFree, fs) else r

/-- The methods that socket `i` calls. Those of a `SendCallback` complete the future of a
send. -/
def handle (h : FutureHeap κ F) (i o : ℕ) : Callback F → FutureHeap κ F × List (HeapFrame F)
  | .sendSuccess id => (h, [.user, .running i (.sendSuccess id)])
  | .sendError id e => (h, [.user, .running i (.sendError id e)])
  | .messageReceived data files =>
    h.deref o [.handler i o (.messageReceived data files)] (h.messageReceived i o data files)
  | .eofReceived => h.deref o [.handler i o .eofReceived] (h.terminate i o .eofReceived .remoteClosed)
  | .socketClosed => h.deref o [.handler i o .socketClosed] (h.terminate i o .socketClosed .closedLocally)
  | .receiveError e =>
    h.deref o [.handler i o (.receiveError e)] (h.terminate i o (.receiveError e) (.socket e))

/-! ### Connecting, moving and destroying -/

/-- A constructor; `connected` if it is that from an open descriptor. -/
def create (h : FutureHeap κ F) (connected : Bool) : FutureHeap κ F :=
  let socket_ := if connected then some h.socketCount else none
  { h.setObject h.objectCount ⟨socket_, [], none, .usable⟩ with
    objectCount := h.objectCount + 1
    socketCount := if connected then h.socketCount + 1 else h.socketCount }

/-- `connectSuccess` with a new socket. -/
def connectSuccess (h : FutureHeap κ F) (o : ℕ) : FutureHeap κ F × List (HeapFrame F) :=
  let r := { h with socketCount := h.socketCount + 1 }.assignSocket o (some h.socketCount)
  (r.1, r.2 ++ [.moveQueue o none])

/-- The move constructor; the new object is the next one. -/
def moveConstruct (h : FutureHeap κ F) (other : ℕ) : FutureHeap κ F :=
  let x := h.objects other
  { (h.setObject h.objectCount { x with lifetime := .usable }).setObject other
      { x with socket_ := none, recvQueue_ := [], recvQueueTail_ := none } with
    objectCount := h.objectCount + 1 }

/-- Move assignment, up to the end of `socket_ = std::move(other.socket_)`. -/
def moveAssign (h : FutureHeap κ F) (o other : ℕ) : FutureHeap κ F × List (HeapFrame F) :=
  let r := (h.setObject other { h.objects other with socket_ := none }).assignSocket o (h.objects other).socket_
  (r.1, r.2 ++ [.moveQueue o (some other)])

/-- The receives of the object that is moved. -/
def queueOf (h : FutureHeap κ F) : Option ℕ → List ReceiveEntry
  | some other => (h.objects other).recvQueue_
  | none => []

def clearQueue (h : FutureHeap κ F) : Option ℕ → FutureHeap κ F
  | some other => h.setObject other { h.objects other with recvQueue_ := [] }
  | none => h

/-- `recvQueue_ = std::move(other.recvQueue_)`, up to the destruction of the old entries. -/
def moveQueue (h : FutureHeap κ F) (o : ℕ) (other : Option ℕ) : FutureHeap κ F × List (HeapFrame F) :=
  let h' := h.clearQueue other
  (h'.setObject o { h'.objects o with recvQueue_ := h.queueOf other },
    [.dropQueue (h'.objects o).recvQueue_ o other])

/-- `recvQueueTail_ = other.recvQueueTail_; other.recvQueueTail_ = nullptr` -/
def moveTail (h : FutureHeap κ F) (o : ℕ) : Option ℕ → FutureHeap κ F
  | some other =>
    let h := h.setObject o { h.objects o with recvQueueTail_ := (h.objects other).recvQueueTail_ }
    h.setObject other { h.objects other with recvQueueTail_ := none }
  | none => h.setObject o { h.objects o with recvQueueTail_ := none }

/-- The destructor, up to the end of `socket_->closeNow()`. -/
def destroy (h : FutureHeap κ F) (o : ℕ) : FutureHeap κ F × List (HeapFrame F) :=
  let x := h.objects o
  let h := h.setObject o { x with lifetime := .closing }
  let r := match x.socket_ with
    | some i => h.onSocket i (h.sockets i).socket.closeNow
    | none => (h, [])
  (r.1, r.2 ++ [.destructor o])

/-- The checks of the destructor, and the destructors of the members. -/
def destructor (h : FutureHeap κ F) (o : ℕ) : FutureHeap κ F × List (HeapFrame F) :=
  let x := h.objects o
  if x.recvQueue_.isEmpty && x.recvQueueTail_.isNone then
    (h.setObject o { x with lifetime := .gone }).assignSocket o none
  else (h.raise .checkFailed, [.destructor o])

/-- The object, and the one that is moved, may be gone. -/
def derefMoved (h : FutureHeap κ F) (o : ℕ) (other : Option ℕ) (fs : List (HeapFrame F))
    (r : FutureHeap κ F × List (HeapFrame F)) : FutureHeap κ F × List (HeapFrame F) :=
  match other with
  | some other => h.deref other fs (h.deref o fs r)
  | none => h.deref o fs r

/-- The next part of the frame on top of `below`. -/
def exec (K : Kernel F κ) (h : FutureHeap κ F) (below : List (HeapFrame F)) :
    HeapFrame F → FutureHeap κ F × List (HeapFrame F)
  | .socket i f => h.onSocket i ((h.sockets i).socket.exec K (innerStack i below) f)
  | .handler i o c => h.handle i o c
  | .running _ _ => (h, [])
  | .failAllPromises o error =>
    let x := h.objects o
    h.deref o [.failAllPromises o error]
      (h.setObject o { x with recvQueue_ := [], recvQueueTail_ := none }, [.failReceiveQueue x.recvQueue_ (.error error)])
  | .failReceiveQueue [] _ => (h, [])
  | .failReceiveQueue (callback :: next) ew =>
    (h.complete callback.promise_ (.error ew), [.user, .failReceiveQueue next ew])
  | .moveQueue o other => h.derefMoved o other [.moveQueue o other] (h.moveQueue o other)
  | .dropQueue [] o other => h.derefMoved o other [.dropQueue [] o other] (h.moveTail o other, [])
  | .dropQueue (callback :: next) o other =>
    (h.complete callback.promise_ (.error .brokenPromise), [.user, .dropQueue next o other])
  | .destructor o => h.destructor o
  | .user => (h, [])

end FutureHeap

/-! ### Runs -/

/-- The objects and the calls under way. -/
structure HeapRunning (κ F : Type) where
  heap : FutureHeap κ F
  stack : List (HeapFrame F)

/-- How `UnixSocket::connect` ends. -/
inductive ConnectOutcome
  | connected
  | failed
  | blocked
  deriving DecidableEq, Repr

inductive HeapAct (F : Type)
  | create (connected : Bool)
  | receive (o : ℕ)
  | send (o : ℕ) (msg : Message F) (allocated : Bool)
  | closeNow (o : ℕ)
  | connect (o : ℕ) (outcome : ConnectOutcome)
  | moveConstruct (other : ℕ)
  | moveAssign (o other : ℕ)
  | destroy (o : ℕ)
  /-- A connect that has blocked ends. -/
  | connectReady (k : ℕ) (connected : Bool)
  /-- Socket `i` is ready for I/O. -/
  | ready (i : ℕ) (events : IOEvents)
  /-- The timeout of socket `i`. -/
  | sendTimeout (i : ℕ)
  /-- The timeout of entry `k` of the queue of an object. -/
  | receiveTimeout (o k : ℕ)
  /-- The continuation on top returns. -/
  | ret
  /-- The call on top goes on. -/
  | run

namespace HeapRunning

def new (kernels : ℕ → κ) : HeapRunning κ F := ⟨.new kernels, []⟩

/-- Control is with the event loop or with a continuation. -/
def userCode (r : HeapRunning κ F) : Bool :=
  match r.stack with
  | [] => true
  | .user :: _ => true
  | _ => false

/-- User code calls object `o`. -/
def mayCall (r : HeapRunning κ F) (o : ℕ) : Bool := r.userCode && (r.heap.objects o).lifetime = .usable

/-- The result of a call, on top of the stack. -/
def push (t : FutureHeap κ F × List (HeapFrame F)) (below : List (HeapFrame F)) : HeapRunning κ F :=
  ⟨t.1, t.2 ++ below⟩

/-- The step function; `none` if the step is not possible. -/
def step (K : Kernel F κ) (r : HeapRunning κ F) (a : HeapAct F) : Option (HeapRunning κ F) :=
  let h := r.heap
  if h.fault.isSome then none
  else match a with
  | .create connected => if r.userCode then some ⟨h.create connected, r.stack⟩ else none
  | .receive o => if r.mayCall o then some (push (h.receive o) r.stack) else none
  | .send o msg allocated => if r.mayCall o then some (push (h.send o msg allocated) r.stack) else none
  | .closeNow o => if r.mayCall o then some (push (h.closeNow o) r.stack) else none
  | .connect o outcome =>
    if r.mayCall o then
      match outcome with
      | .connected => some (push (h.connectSuccess o) r.stack)
      | .failed => some r
      | .blocked => some ⟨{ h with connecting := h.connecting ++ [o] }, r.stack⟩
    else none
  | .moveConstruct other => if r.mayCall other then some ⟨h.moveConstruct other, r.stack⟩ else none
  | .moveAssign o other =>
    if r.mayCall o && r.mayCall other then some (push (h.moveAssign o other) r.stack) else none
  | .destroy o => if r.mayCall o then some (push (h.destroy o) r.stack) else none
  | .connectReady k connected =>
    if r.stack.isEmpty then
      match h.connecting[k]? with
      | none => none
      | some o =>
        let h := { h with connecting := h.connecting.eraseIdx k }
        some (push (if connected then h.deref o [] (h.connectSuccess o) else (h, [])) [.user])
    else none
  | .ready i events =>
    if r.stack.isEmpty && i < h.socketCount && (!events.read || (h.sockets i).socket.handler.read) &&
        (!events.write || (h.sockets i).socket.handler.write) then
      some ⟨h, [.socket i (UnixSocket.handlerReady events)]⟩
    else none
  | .sendTimeout i =>
    if r.stack.isEmpty && i < h.socketCount && (h.sockets i).socket.isScheduled then
      some (push (h.onSocket i (h.sockets i).socket.timeoutExpired) [])
    else none
  | .receiveTimeout o k =>
    if r.stack.isEmpty then
      match (h.objects o).recvQueue_[k]? with
      | none => none
      | some e => some (push (h.deref e.socket_ [] (h.receiveTimeout e.socket_)) [])
    else none
  | .ret =>
    match r.stack with
    | .user :: below => some ⟨h, below⟩
    | _ => none
  | .run =>
    match r.stack with
    | [] => none
    | .user :: _ => none
    | f :: below => some (push (h.exec K below f) below)

end HeapRunning

end EdenCommon
