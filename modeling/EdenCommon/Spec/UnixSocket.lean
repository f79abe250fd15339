import EdenCommon.Lib.BigEndian
import EdenCommon.Spec.Utf8

/-!
# `UnixSocket`: framing messages on a stream

The send queue and the receive state machine of `UnixSocket.cpp`, over any operating
system: `sendmsg` and `recvmsg` are functions on a state `κ` that the caller gives. A
descriptor is an element of an arbitrary type `F`, the open file it refers to.

An exception is an `Except` or an `EStateM.Result` error. Debug checks are compiled
out; those of the receiving end are in `Spec/UnixChecked.lean`. Timeouts, closing and
callbacks are in `Spec/SocketLifecycle.lean`.
-/

namespace EdenCommon

open Lib

/-- `Message`: the buffers of the `IOBuf` chain, and the files. -/
structure Message (F : Type) where
  data : List Bytes
  files : List F

structure Header where
  protocolID : ℕ
  dataSize : ℕ
  numFiles : ℕ
  deriving DecidableEq, Repr

def kHeaderLength : ℕ := 16
def kProtocolID : ℕ := 0xfaceb00c12345678

/-- The most descriptors that fit into one `SCM_RIGHTS` control message. -/
def kMaxFDs : ℕ := 253

/-- The settings of a socket. The limits of the receiver are `uint32_t`. -/
structure SocketConfig where
  maxDataLength : ℕ
  maxFiles : ℕ
  /-- `folly::kIovMax` -/
  kIovMax : ℕ
  maxDataLength_lt : maxDataLength < 2 ^ 32
  maxFiles_lt : maxFiles < 2 ^ 32
  kIovMax_pos : 0 < kIovMax

/-- `serializeHeader`; both sizes are converted to `uint32_t`. -/
def serializeHeader (dataSize numFiles : ℕ) : Bytes :=
  toBytesBE 8 kProtocolID ++ toBytesBE 4 (dataSize % 2 ^ 32) ++ toBytesBE 4 (numFiles % 2 ^ 32)

def deserializeHeader (buffer : Bytes) : Header :=
  ⟨ofBytesBE (buffer.take 8), ofBytesBE ((buffer.drop 8).take 4), ofBytesBE ((buffer.drop 12).take 4)⟩

variable {F κ : Type}

/-! ### Sending -/

/-- An `iovec`: how far `iov_base` is behind the start of its buffer, and the
`iov_len` bytes it points to. -/
structure Iovec where
  base : ℕ
  bytes : Bytes

/-- `SendQueueEntry`. `iov` are the entries from `iovIndex` on; those in front of it are
not read again. -/
structure SendQueueEntry (F : Type) where
  message : Message F
  iov : List Iovec
  iovIndex : ℕ
  iovCount : ℕ
  filesSent : ℕ

/-- `createSendQueueEntry`: one `iovec` for the header and one for each non-empty buffer. -/
def createSendQueueEntry (message : Message F) : SendQueueEntry F :=
  let buffers := message.data.filter (· ≠ [])
  let bodySize := (buffers.map List.length).sum
  { message
    iov := ⟨0, serializeHeader bodySize message.files.length⟩ :: buffers.map (⟨0, ·⟩)
    iovIndex := 0
    iovCount := 1 + buffers.length
    filesSent := 0 }

inductive SendOutcome
  | wouldBlock
  | failed
  | sent (bytesSent : ℕ)

inductive SendError
  | sendmsgFailed
  | checkFailed

/-- The loop that accounts for the bytes that were sent: the `iovec`s that are left and
the new `iovIndex`. -/
def advanceIov : List Iovec → ℕ → ℕ → List Iovec × ℕ
  | [], iovIndex, _ => ([], iovIndex)
  | v :: rest, iovIndex, bytesSent =>
    if bytesSent = 0 then (v :: rest, iovIndex)
    else if v.bytes.length ≤ bytesSent then advanceIov rest (iovIndex + 1) (bytesSent - v.bytes.length)
    else (⟨v.base + bytesSent, v.bytes.drop bytesSent⟩ :: rest, iovIndex)

namespace SendQueueEntry

/-- Nothing of the message has been sent: `iov[0]` still points to the header. -/
def isFirstSend (e : SendQueueEntry F) : Bool :=
  e.iovIndex == 0 && (e.iov.head?.map Iovec.base) == some 0

/-- Everything has been sent. -/
def isSent (e : SendQueueEntry F) : Bool := e.iovIndex == e.iovCount && e.filesSent == e.message.files.length

end SendQueueEntry

/-- The descriptors of `initializeFirstControlMsg` and `initializeAdditionalControlMsg`:
the next ones that fit. -/
def controlFiles (e : SendQueueEntry F) (filesSent : ℕ) : List F := (e.message.files.drop filesSent).take kMaxFDs

/-- `trySendMessage`: whether the message has been sent. -/
def trySendMessage (cfg : SocketConfig) (sendmsg : κ → Bytes → List F → SendOutcome × κ) (k : κ)
    (e : SendQueueEntry F) : Except SendError (Bool × SendQueueEntry F × κ) :=
  if e.iovIndex < e.iovCount then
    let filesToSend := if e.isFirstSend then controlFiles e 0 else []
    match sendmsg k ((e.iov.take cfg.kIovMax).map Iovec.bytes).flatten filesToSend with
    | (.wouldBlock, k) => .ok (false, e, k)
    | (.failed, _) => .error .sendmsgFailed
    | (.sent bytesSent, k) =>
      let adv := advanceIov e.iov e.iovIndex bytesSent
      let e := { e with iov := adv.1, iovIndex := adv.2, filesSent := e.filesSent + filesToSend.length }
      .ok (e.isSent, e, k)
  else if e.filesSent < e.message.files.length then
    -- the rest of the descriptors, each lot with one byte of data
    let filesToSend := controlFiles e e.filesSent
    match sendmsg k [0] filesToSend with
    | (.wouldBlock, k) => .ok (false, e, k)
    | (.failed, _) => .error .sendmsgFailed
    | (.sent _, k) =>
      let e := { e with filesSent := e.filesSent + filesToSend.length }
      .ok (e.isSent, e, k)
  else .error .checkFailed

/-- The loop of `trySend`, for at most `n` messages. -/
def trySendLoop (cfg : SocketConfig) (sendmsg : κ → Bytes → List F → SendOutcome × κ) :
    ℕ → κ → List (SendQueueEntry F) → Except SendError (List (SendQueueEntry F) × κ)
  | 0, k, sendQueue => .ok (sendQueue, k)
  | _ + 1, k, [] => .ok ([], k)
  | n + 1, k, e :: rest =>
    match trySendMessage cfg sendmsg k e with
    | .error err => .error err
    | .ok (true, _, k) => trySendLoop cfg sendmsg n k rest
    | .ok (false, e, k) => .ok (e :: rest, k)

def MAX_MSGS_AT_ONCE : ℕ := 10

def trySend (cfg : SocketConfig) (sendmsg : κ → Bytes → List F → SendOutcome × κ) (k : κ)
    (sendQueue : List (SendQueueEntry F)) : Except SendError (List (SendQueueEntry F) × κ) :=
  trySendLoop cfg sendmsg MAX_MSGS_AT_ONCE k sendQueue

/-- `send`: the message is queued, and sent at once if the queue was empty. -/
def send (cfg : SocketConfig) (sendmsg : κ → Bytes → List F → SendOutcome × κ) (k : κ)
    (sendQueue : List (SendQueueEntry F)) (message : Message F) :
    Except SendError (List (SendQueueEntry F) × κ) :=
  if sendQueue.isEmpty then trySend cfg sendmsg k [createSendQueueEntry message]
  else .ok (sendQueue ++ [createSendQueueEntry message], k)

/-! ### Receiving -/

/-- A control message: descriptors, or one of another level or type. -/
inductive ControlMsg (F : Type)
  | rights (fds : List F)
  | other (level type : ℕ)

/-- A result of `recvmsg`. No bytes at all is the end of the stream. -/
inductive RecvOutcome (F : Type)
  | wouldBlock
  | failed (errno : ℕ)
  | received (bytes : Bytes) (flags : ℕ) (control : List (ControlMsg F))

def MSG_CTRUNC : ℕ := 0x8

/-- The length of a control message with `n` bytes of data, on a 64-bit system. -/
def CMSG_LEN (n : ℕ) : ℕ := 16 + n

inductive RecvError
  | recvmsgFailed (errno : ℕ)
  | controlTruncated
  | rightsTruncated
  | unknownProtocolID (protocolID : ℕ)
  | dataTooLarge (dataSize : ℕ)
  | tooManyFiles (numFiles : ℕ)
  | closedInHeader
  | closedInMessage
  | closedInFiles
  | moreFilesThanIndicated (files numFiles : ℕ)

/-- The text of an exception: literal text and the numbers it quotes. -/
def RecvError.what : RecvError → List (String ⊕ ℕ)
  | .recvmsgFailed errno => [.inl "recvmsg() failed on unix socket", .inr errno]
  | .controlTruncated => [.inl "truncated control message data when receiving on unix socket"]
  | .rightsTruncated => [.inl "received truncated SCM_RIGHTS message data: length=", .inr (CMSG_LEN 0)]
  | .unknownProtocolID protocolID =>
    [.inl "unknown protocol ID received from remote unix socket endpoint: ", .inr protocolID, .inl " != ",
      .inr kProtocolID]
  | .dataTooLarge dataSize =>
    [.inl "remote endpoint sent unreasonably large message: length=", .inr dataSize]
  | .tooManyFiles numFiles =>
    [.inl "remote endpoint sent unreasonably large number of files: numFDs=", .inr numFiles]
  | .closedInHeader => [.inl "remote endpoint closed connection partway through a unix socket message header"]
  | .closedInMessage => [.inl "remote endpoint closed connection partway through a unix socket message"]
  | .closedInFiles => [.inl "remote endpoint closed connection partway through a unix socket FD message"]
  | .moreFilesThanIndicated files numFiles =>
    [.inl "remote endpoint sent more file descriptors than indicated in the unix socket message header: ",
      .inr files, .inl " > ", .inr numFiles]

/-- The receive state: the first `headerBytesReceived_` bytes of `recvHeaderBuffer_`,
`recvHeader_`, and the data and files of `recvMessage_`. -/
structure Receiver (F : Type) where
  headerBuffer : Bytes
  header : Header
  data : Bytes
  files : List F

def Receiver.new : Receiver F := ⟨[], ⟨0, 0, 0⟩, [], []⟩

/-- What happens on the receiving end: calls of `recvmsg` with the receive state in
front of them, and calls of the `ReceiveCallback`. The header of a message is not
handed over and only recorded. -/
inductive Event (F : Type)
  | recvmsg (before : Receiver F) (result : RecvOutcome F)
  | messageReceived (header : Header) (data : Bytes) (files : List F)
  | eofReceived
  | receiveError (e : RecvError)

/-- The receiving end in its surroundings. -/
structure Rx (κ F : Type) where
  receiver : Receiver F
  kernel : κ
  trace : List (Event F)

def Rx.emit (s : Rx κ F) (ev : Event F) : Rx κ F := { s with trace := s.trace ++ [ev] }

/-- `processReceivedControlData`: the files after those that are there. A message of
another level or type is ignored. -/
def processReceivedControlData (files : List F) : List (ControlMsg F) → Except RecvError (List F)
  | [] => .ok files
  | .other _ _ :: rest => processReceivedControlData files rest
  | .rights fds :: rest =>
    if fds.isEmpty then .error .rightsTruncated else processReceivedControlData (files ++ fds) rest

/-- `callRecvMsg` for `len` bytes; `none` is `EAGAIN`. -/
def callRecvMsg (recvmsg : κ → ℕ → RecvOutcome F × κ) (len : ℕ) (s : Rx κ F) :
    EStateM.Result RecvError (Rx κ F) (Option Bytes) :=
  let r := recvmsg s.kernel len
  let s := { s with kernel := r.2, trace := s.trace ++ [.recvmsg s.receiver r.1] }
  match r.1 with
  | .wouldBlock => .ok none s
  | .failed errno => .error (.recvmsgFailed errno) s
  | .received bytes flags control =>
    if flags = MSG_CTRUNC then .error .controlTruncated s
    else match processReceivedControlData s.receiver.files control with
      | .error e => .error e s
      | .ok files => .ok (some bytes) { s with receiver := { s.receiver with files } }

def tryReceiveHeader (recvmsg : κ → ℕ → RecvOutcome F × κ) (s : Rx κ F) :
    EStateM.Result RecvError (Rx κ F) Bool :=
  match callRecvMsg recvmsg (kHeaderLength - s.receiver.headerBuffer.length) s with
  | .error e s => .error e s
  | .ok none s => .ok false s
  | .ok (some bytes) s =>
    if bytes.isEmpty then
      if s.receiver.headerBuffer.isEmpty then .ok false (s.emit .eofReceived) else .error .closedInHeader s
    else
      let headerBuffer := s.receiver.headerBuffer ++ bytes
      .ok (decide (headerBuffer.length = kHeaderLength)) { s with receiver := { s.receiver with headerBuffer } }

/-- The part of `tryReceiveOne` that deserializes and checks the header, and makes room
for the data. -/
def checkHeader (cfg : SocketConfig) (s : Rx κ F) : EStateM.Result RecvError (Rx κ F) Bool :=
  let header := deserializeHeader s.receiver.headerBuffer
  let s := { s with receiver := { s.receiver with header } }
  if header.protocolID ≠ kProtocolID then .error (.unknownProtocolID header.protocolID) s
  else if cfg.maxDataLength < header.dataSize then .error (.dataTooLarge header.dataSize) s
  else if cfg.maxFiles < header.numFiles then .error (.tooManyFiles header.numFiles) s
  else if 0 < header.dataSize then .ok true { s with receiver := { s.receiver with data := [] } }
  else .ok true s

def tryReceiveData (recvmsg : κ → ℕ → RecvOutcome F × κ) (s : Rx κ F) :
    EStateM.Result RecvError (Rx κ F) Bool :=
  let dataToRead := s.receiver.header.dataSize - s.receiver.data.length
  match callRecvMsg recvmsg dataToRead s with
  | .error e s => .error e s
  | .ok none s => .ok false s
  | .ok (some bytes) s =>
    if bytes.isEmpty then .error .closedInMessage s
    else
      .ok (decide (bytes.length = dataToRead))
        { s with receiver := { s.receiver with data := s.receiver.data ++ bytes } }

def tryReceiveFiles (recvmsg : κ → ℕ → RecvOutcome F × κ) (s : Rx κ F) :
    EStateM.Result RecvError (Rx κ F) Bool :=
  match callRecvMsg recvmsg 1 s with
  | .error e s => .error e s
  | .ok none s => .ok false s
  | .ok (some bytes) s =>
    let files := s.receiver.files.length
    let numFiles := s.receiver.header.numFiles
    if bytes.isEmpty then .error .closedInFiles s
    else if numFiles < files then .error (.moreFilesThanIndicated files numFiles) s
    else .ok (decide (files = numFiles)) s

/-- `if (!f()) return false;` in front of the rest. -/
def andThen (r : EStateM.Result RecvError (Rx κ F) Bool)
    (f : Rx κ F → EStateM.Result RecvError (Rx κ F) Bool) : EStateM.Result RecvError (Rx κ F) Bool :=
  match r with
  | .ok true s => f s
  | .ok false s => .ok false s
  | .error e s => .error e s

/-- `tryReceiveOne`: whether a message is complete. -/
def tryReceiveOne (cfg : SocketConfig) (recvmsg : κ → ℕ → RecvOutcome F × κ) (s : Rx κ F) :
    EStateM.Result RecvError (Rx κ F) Bool :=
  andThen
    (if s.receiver.headerBuffer.length < kHeaderLength then andThen (tryReceiveHeader recvmsg s) (checkHeader cfg)
      else .ok true s) fun s =>
  andThen (if s.receiver.data.length < s.receiver.header.dataSize then tryReceiveData recvmsg s else .ok true s)
    fun s =>
  if s.receiver.files.length < s.receiver.header.numFiles then tryReceiveFiles recvmsg s else .ok true s

/-- The message is handed over, and the receive state made ready for the next one. -/
def deliver (s : Rx κ F) : Rx κ F :=
  { s with
    receiver := { s.receiver with headerBuffer := [], data := [], files := [] }
    trace := s.trace ++ [.messageReceived s.receiver.header s.receiver.data s.receiver.files] }

/-- The loop of `tryReceive`, for at most `n` messages. -/
def tryReceiveLoop (cfg : SocketConfig) (recvmsg : κ → ℕ → RecvOutcome F × κ) :
    ℕ → Rx κ F → EStateM.Result RecvError (Rx κ F) Unit
  | 0, s => .ok () s
  | n + 1, s =>
    match tryReceiveOne cfg recvmsg s with
    | .error e s => .error e s
    | .ok false s => .ok () s
    | .ok true s => tryReceiveLoop cfg recvmsg n (deliver s)

def tryReceive (cfg : SocketConfig) (recvmsg : κ → ℕ → RecvOutcome F × κ) (s : Rx κ F) :
    EStateM.Result RecvError (Rx κ F) Unit := tryReceiveLoop cfg recvmsg 10 s

end EdenCommon
