import EdenCommon.Spec.UnixStream

/-!
# `UnixSocket`: receiving in a debug build

`tryReceiveOne` and its helpers with their `XDCHECK`s, which `Spec/UnixSocket` leaves out. A
check that fails aborts the program. `CheckedConnection` is a `Connection` with such a
receiving end; it stops at the first failed check, and at the first exception, which closes
the socket.
-/

namespace EdenCommon

variable {F κ : Type}

/-- The checks of the receiving end. -/
inductive RecvCheck
  | noData
  | noFiles
  | wholeDescriptors
  deriving DecidableEq

def RecvCheck.expr : RecvCheck → String
  | .noData => "recvMessage_.data.length() == 0ul"
  | .noFiles => "recvMessage_.files.size() == 0ul"
  | .wholeDescriptors => "dataLength % sizeof(int) == 0ul"

/-- An exception, or a check that fails. -/
inductive RecvStop
  | threw (e : RecvError)
  | aborted (check : RecvCheck)

namespace Checked

/-- Code without checks. -/
def lift {α : Type} : EStateM.Result RecvError (Rx κ F) α → EStateM.Result RecvStop (Rx κ F) α
  | .ok a s => .ok a s
  | .error e s => .error (.threw e) s

/-- The `cmsg_len` of a message with these descriptors. -/
def cmsgLen (fds : List F) : ℕ := CMSG_LEN (4 * fds.length)

def processReceivedFiles (files fds : List F) : Except RecvStop (List F) :=
  if cmsgLen fds < CMSG_LEN 4 then .error (.threw .rightsTruncated)
  else if (cmsgLen fds - CMSG_LEN 0) % 4 ≠ 0 then .error (.aborted .wholeDescriptors)
  else .ok (files ++ fds.take ((cmsgLen fds - CMSG_LEN 0) / 4))

def processReceivedControlData (files : List F) : List (ControlMsg F) → Except RecvStop (List F)
  | [] => .ok files
  | .other _ _ :: rest => processReceivedControlData files rest
  | .rights fds :: rest =>
    match processReceivedFiles files fds with
    | .error e => .error e
    | .ok files => processReceivedControlData files rest

def callRecvMsg (recvmsg : κ → ℕ → RecvOutcome F × κ) (len : ℕ) (s : Rx κ F) :
    EStateM.Result RecvStop (Rx κ F) (Option Bytes) :=
  let r := recvmsg s.kernel len
  let s := { s with kernel := r.2, trace := s.trace ++ [.recvmsg s.receiver r.1] }
  match r.1 with
  | .wouldBlock => .ok none s
  | .failed errno => .error (.threw (.recvmsgFailed errno)) s
  | .received bytes flags control =>
    if flags = MSG_CTRUNC then .error (.threw .controlTruncated) s
    else match processReceivedControlData s.receiver.files control with
      | .error e => .error e s
      | .ok files => .ok (some bytes) { s with receiver := { s.receiver with files } }

def tryReceiveHeader (recvmsg : κ → ℕ → RecvOutcome F × κ) (s : Rx κ F) :
    EStateM.Result RecvStop (Rx κ F) Bool :=
  match callRecvMsg recvmsg (kHeaderLength - s.receiver.headerBuffer.length) s with
  | .error e s => .error e s
  | .ok none s => .ok false s
  | .ok (some bytes) s =>
    if bytes.isEmpty then
      if s.receiver.headerBuffer.isEmpty then .ok false (s.emit .eofReceived) else .error (.threw .closedInHeader) s
    else
      let headerBuffer := s.receiver.headerBuffer ++ bytes
      .ok (decide (headerBuffer.length = kHeaderLength)) { s with receiver := { s.receiver with headerBuffer } }

def tryReceiveData (recvmsg : κ → ℕ → RecvOutcome F × κ) (s : Rx κ F) :
    EStateM.Result RecvStop (Rx κ F) Bool :=
  let dataToRead := s.receiver.header.dataSize - s.receiver.data.length
  match callRecvMsg recvmsg dataToRead s with
  | .error e s => .error e s
  | .ok none s => .ok false s
  | .ok (some bytes) s =>
    if bytes.isEmpty then .error (.threw .closedInMessage) s
    else
      .ok (decide (bytes.length = dataToRead))
        { s with receiver := { s.receiver with data := s.receiver.data ++ bytes } }

def tryReceiveFiles (recvmsg : κ → ℕ → RecvOutcome F × κ) (s : Rx κ F) :
    EStateM.Result RecvStop (Rx κ F) Bool :=
  match callRecvMsg recvmsg 1 s with
  | .error e s => .error e s
  | .ok none s => .ok false s
  | .ok (some bytes) s =>
    let files := s.receiver.files.length
    let numFiles := s.receiver.header.numFiles
    if bytes.isEmpty then .error (.threw .closedInFiles) s
    else if numFiles < files then .error (.threw (.moreFilesThanIndicated files numFiles)) s
    else .ok (decide (files = numFiles)) s

def andThen (r : EStateM.Result RecvStop (Rx κ F) Bool)
    (f : Rx κ F → EStateM.Result RecvStop (Rx κ F) Bool) : EStateM.Result RecvStop (Rx κ F) Bool :=
  match r with
  | .ok true s => f s
  | .ok false s => .ok false s
  | .error e s => .error e s

/-- `tryReceiveOne` while the header is not complete. -/
def receiveHeader (cfg : SocketConfig) (recvmsg : κ → ℕ → RecvOutcome F × κ) (s : Rx κ F) :
    EStateM.Result RecvStop (Rx κ F) Bool :=
  if s.receiver.data.length ≠ 0 then .error (.aborted .noData) s
  else if s.receiver.files.length ≠ 0 then .error (.aborted .noFiles) s
  else andThen (tryReceiveHeader recvmsg s) fun s => lift (checkHeader cfg s)

def tryReceiveOne (cfg : SocketConfig) (recvmsg : κ → ℕ → RecvOutcome F × κ) (s : Rx κ F) :
    EStateM.Result RecvStop (Rx κ F) Bool :=
  andThen
    (if s.receiver.headerBuffer.length < kHeaderLength then receiveHeader cfg recvmsg s else .ok true s) fun s =>
  andThen (if s.receiver.data.length < s.receiver.header.dataSize then tryReceiveData recvmsg s else .ok true s)
    fun s =>
  if s.receiver.files.length < s.receiver.header.numFiles then tryReceiveFiles recvmsg s else .ok true s

def tryReceiveLoop (cfg : SocketConfig) (recvmsg : κ → ℕ → RecvOutcome F × κ) :
    ℕ → Rx κ F → EStateM.Result RecvStop (Rx κ F) Unit
  | 0, s => .ok () s
  | n + 1, s =>
    match tryReceiveOne cfg recvmsg s with
    | .error e s => .error e s
    | .ok false s => .ok () s
    | .ok true s => tryReceiveLoop cfg recvmsg n (deliver s)

def tryReceive (cfg : SocketConfig) (recvmsg : κ → ℕ → RecvOutcome F × κ) (s : Rx κ F) :
    EStateM.Result RecvStop (Rx κ F) Unit := tryReceiveLoop cfg recvmsg 10 s

end Checked

structure CheckedConnection (F : Type) where
  connection : Connection F
  /-- What the receiving end has stopped at. -/
  stopped : Option RecvStop

namespace CheckedConnection

def new : CheckedConnection F := ⟨.new, none⟩

/-- One step; `none` if the receiving end has stopped or the sending end throws. -/
def step (cfg : SocketConfig) (s : CheckedConnection F) (op : ConnectionOp F) : Option (CheckedConnection F) :=
  if s.stopped.isSome then none
  else
    let c := s.connection
    match op with
    | .send message choices => (c.step cfg (.send message choices)).map (⟨·, none⟩)
    | .writable choices => (c.step cfg (.writable choices)).map (⟨·, none⟩)
    | .readable choices =>
      match Checked.tryReceive cfg streamRecvmsg ⟨c.receiver, ⟨c.cells, choices⟩, c.trace⟩ with
      | .ok _ r => some ⟨{ c with cells := r.kernel.cells, receiver := r.receiver, trace := r.trace }, none⟩
      | .error e r => some ⟨{ c with cells := r.kernel.cells, receiver := r.receiver, trace := r.trace }, some e⟩

end CheckedConnection

end EdenCommon
