import Mathlib.Logic.Function.Iterate
import EdenCommon.Spec.UnixSocket

/-!
# A `SOCK_STREAM` connection between two sockets

The stream is a list of bytes in order. The descriptors of a `sendmsg` travel with the
first byte it sends. A `recvmsg` returns at least one byte and at most one lot of
descriptors: it stops in front of a second one. How many bytes a call transfers, and
which calls return `EAGAIN`, is a list of choices, one for each call.

`scriptedRecvmsg` is the other extreme, a peer and a system that are free to return
anything.
-/

namespace EdenCommon

variable {F : Type}

/-- A byte of the stream and the descriptors that arrive with it. -/
abbrev Cell (F : Type) := UInt8 × List F

/-- The bytes of one `sendmsg`, its descriptors on the first of them. -/
def attach (fds : List F) : Bytes → List (Cell F)
  | [] => []
  | b :: bs => (b, fds) :: bs.map (·, [])

/-- The cells up to the second lot of descriptors; `seen` says that there was one. -/
def oneLot : Bool → List (Cell F) → List (Cell F)
  | _, [] => []
  | seen, c :: cells =>
    if c.2.isEmpty then c :: oneLot seen cells
    else if seen then []
    else c :: oneLot true cells

/-- The bytes in flight, and the choices for the calls to come: `none` is `EAGAIN`,
`some n` asks for `n` bytes. -/
structure Stream (F : Type) where
  cells : List (Cell F)
  choices : List (Option ℕ)

/-- `sendmsg`: at least one byte is taken; too many descriptors are refused. -/
def streamSendmsg (s : Stream F) (bytes : Bytes) (fds : List F) : SendOutcome × Stream F :=
  if kMaxFDs < fds.length then (.failed, s)
  else match s.choices with
    | some n :: choices =>
      let bytesSent := min (max 1 n) bytes.length
      (.sent bytesSent, ⟨s.cells ++ attach fds (bytes.take bytesSent), choices⟩)
    | none :: choices => (.wouldBlock, ⟨s.cells, choices⟩)
    | [] => (.wouldBlock, s)

/-- The control data that arrives with some cells. -/
def controlOf (cells : List (Cell F)) : List (ControlMsg F) :=
  let fds := cells.flatMap Prod.snd
  if fds.isEmpty then [] else [.rights fds]

/-- `recvmsg`: nothing is cut off, as the buffer has room for `kMaxFDs` descriptors. -/
def streamRecvmsg (s : Stream F) (len : ℕ) : RecvOutcome F × Stream F :=
  match s.choices with
  | some n :: choices =>
    let got := oneLot false (s.cells.take (min (max 1 n) len))
    if got.isEmpty then (.wouldBlock, ⟨s.cells, choices⟩)
    else (.received (got.map Prod.fst) 0 (controlOf got), ⟨s.cells.drop got.length, choices⟩)
  | none :: choices => (.wouldBlock, ⟨s.cells, choices⟩)
  | [] => (.wouldBlock, s)

/-- The two ends and the bytes in flight between them. -/
structure Connection (F : Type) where
  sendQueue : List (SendQueueEntry F)
  cells : List (Cell F)
  receiver : Receiver F
  trace : List (Event F)

def Connection.new : Connection F := ⟨[], [], .new, []⟩

/-- What can happen: the sending end sends a message, or its socket becomes writable;
the receiving end's socket becomes readable. Each comes with the choices of its calls. -/
inductive ConnectionOp (F : Type)
  | send (message : Message F) (choices : List (Option ℕ))
  | writable (choices : List (Option ℕ))
  | readable (choices : List (Option ℕ))

namespace Connection

def afterSend (c : Connection F) : Except SendError (List (SendQueueEntry F) × Stream F) → Option (Connection F)
  | .ok (sendQueue, stream) => some { c with sendQueue, cells := stream.cells }
  | .error _ => none

/-- One step; `none` if either end throws. -/
def step (cfg : SocketConfig) (c : Connection F) : ConnectionOp F → Option (Connection F)
  | .send message choices =>
    c.afterSend (EdenCommon.send cfg streamSendmsg ⟨c.cells, choices⟩ c.sendQueue message)
  | .writable choices => c.afterSend (trySend cfg streamSendmsg ⟨c.cells, choices⟩ c.sendQueue)
  | .readable choices =>
    match tryReceive cfg streamRecvmsg ⟨c.receiver, ⟨c.cells, choices⟩, c.trace⟩ with
    | .ok _ s => some { c with cells := s.kernel.cells, receiver := s.receiver, trace := s.trace }
    | .error _ _ => none

end Connection

/-! ### A free peer -/

/-- `recvmsg` returns the next result of the script, cut to the bytes asked for. -/
def scriptedRecvmsg (script : List (RecvOutcome F)) (len : ℕ) : RecvOutcome F × List (RecvOutcome F) :=
  match script with
  | [] => (.wouldBlock, [])
  | .received bytes flags control :: script => (.received (bytes.take len) flags control, script)
  | result :: script => (result, script)

/-- A receiving socket, open until an exception has closed it. -/
structure ReceiveSocket (κ F : Type) where
  rx : Rx κ F
  closed : Bool

/-- `handlerReady` with `READ`: an exception closes the socket and is reported. -/
def handlerReadable {κ : Type} (cfg : SocketConfig) (recvmsg : κ → ℕ → RecvOutcome F × κ)
    (s : ReceiveSocket κ F) : ReceiveSocket κ F :=
  if s.closed then s
  else match tryReceive cfg recvmsg s.rx with
    | .ok _ rx => ⟨rx, false⟩
    | .error e rx => ⟨rx.emit (.receiveError e), true⟩

/-- The socket after `n` read events with a peer that follows `script`. -/
def receiveRun (cfg : SocketConfig) (script : List (RecvOutcome F)) (n : ℕ) :
    ReceiveSocket (List (RecvOutcome F)) F :=
  (handlerReadable cfg scriptedRecvmsg)^[n] ⟨⟨.new, script, []⟩, false⟩

end EdenCommon
