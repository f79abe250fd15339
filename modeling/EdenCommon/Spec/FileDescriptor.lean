import EdenCommon.Lib.Drive
import EdenCommon.Lib.Memory
import EdenCommon.Spec.Utf8

/-!
# `FileDescriptor`: transfers in full

`wrapFull` and `wrapvFull` of `FileDescriptor.cpp` over the system calls of a blocking
descriptor. What a peer has yet to deliver before the end of the stream is `incoming`. How each
call ends is given in advance: it fails, or moves no more bytes than the outcome says, and at
least one where there is one to move. Each loop is its body, driven by the outcomes: it goes on
with a new cursor, or leaves with what the function returns.
-/

namespace EdenCommon

open Lib

namespace FileDescriptor

inductive Errno
  | EINTR
  | other (errcode : ℕ)
  deriving DecidableEq, Repr

inductive Outcome
  | failed (e : Errno)
  /-- Up to `most + 1` bytes are moved. -/
  | moves (most : ℕ)
  deriving DecidableEq, Repr

/-- `struct iovec`. -/
structure Iovec where
  iov_base : ℕ
  iov_len : ℕ
  deriving DecidableEq, Repr

/-- The addresses of the buffer, in order. -/
def Iovec.addresses (v : Iovec) : List ℕ := List.range' v.iov_base v.iov_len

structure Io where
  memory : Memory
  incoming : Bytes
  written : Bytes

/-- `::read` and `::readv` into the addresses `buf`. -/
def Io.readv (io : Io) (buf : List ℕ) : Outcome → Except Errno ℕ × Io
  | .failed e => (.error e, io)
  | .moves most =>
    let n := min (most + 1) (min buf.length io.incoming.length)
    (.ok n, { io with memory := io.memory.storeAt (buf.take n) (io.incoming.take n), incoming := io.incoming.drop n })

/-- `::write` and `::writev` from the addresses `buf`. -/
def Io.writev (io : Io) (buf : List ℕ) : Outcome → Except Errno ℕ × Io
  | .failed e => (.error e, io)
  | .moves most =>
    let n := min (most + 1) buf.length
    (.ok n, { io with written := io.written ++ io.memory.loadAt (buf.take n) })

/-- What a function returns, and what its calls have done. -/
abbrev Returned := Except Errno ℕ × Io

/-! ### `wrapFull` -/

/-- The variables of `wrapFull`. -/
structure Cursor where
  b : ℕ
  count : ℕ
  totalBytes : ℕ
  io : Io

/-- The body of the loop. `continue` goes to the condition of the loop. -/
def wrapFullBody (isRead onlyOnce : Bool) (s : Cursor) (outcome : Outcome) : Cursor ⊕ Returned :=
  let buf := List.range' s.b s.count
  match if isRead then s.io.readv buf outcome else s.io.writev buf outcome with
  | (.error .EINTR, io) => if s.count ≠ 0 then .inl { s with io } else .inr (.ok s.totalBytes, io)
  | (.error e, io) => .inr (.error e, io)
  | (.ok r, io) =>
    if isRead ∧ r = 0 then .inr (.ok s.totalBytes, io)
    else if onlyOnce ∨ s.count - r = 0 then .inr (.ok (s.totalBytes + r), io)
    else .inl ⟨s.b + r, s.count - r, s.totalBytes + r, io⟩

def wrapFull (outcomes : List Outcome) (io : Io) (buf count : ℕ) (isRead onlyOnce : Bool) :
    Option (Returned × List Outcome) :=
  drive (wrapFullBody isRead onlyOnce) outcomes ⟨buf, count, 0, io⟩

def readFull (outcomes : List Outcome) (io : Io) (buf size : ℕ) : Option (Returned × List Outcome) :=
  wrapFull outcomes io buf size true false

def readNoInt (outcomes : List Outcome) (io : Io) (buf size : ℕ) : Option (Returned × List Outcome) :=
  wrapFull outcomes io buf size true true

def writeFull (outcomes : List Outcome) (io : Io) (buf size : ℕ) : Option (Returned × List Outcome) :=
  wrapFull outcomes io buf size false false

def writeNoInt (outcomes : List Outcome) (io : Io) (buf size : ℕ) : Option (Returned × List Outcome) :=
  wrapFull outcomes io buf size false true

/-! ### `wrapvFull` -/

/-- The inner loop of `wrapvFull`: `r` bytes further in the array, which is as long as `count`. -/
def advance : ℕ → List Iovec → List Iovec
  | _, [] => []
  | r, v :: iov =>
    if r = 0 then v :: iov
    else if v.iov_len ≤ r then advance (r - v.iov_len) iov
    else ⟨v.iov_base + r, v.iov_len - r⟩ :: iov

/-- The variables of `wrapvFull`. -/
structure VecCursor where
  iov : List Iovec
  totalBytes : ℕ
  io : Io

/-- The addresses of all buffers, in order. -/
def addresses (iov : List Iovec) : List ℕ := iov.flatMap Iovec.addresses

/-- The body of the loop. -/
def wrapvFullBody (kIovMax : ℕ) (isRead : Bool) (s : VecCursor) (outcome : Outcome) : VecCursor ⊕ Returned :=
  let buf := addresses (s.iov.take kIovMax)
  match if isRead then s.io.readv buf outcome else s.io.writev buf outcome with
  | (.error .EINTR, io) => if s.iov ≠ [] then .inl { s with io } else .inr (.ok s.totalBytes, io)
  | (.error e, io) => .inr (.error e, io)
  | (.ok r, io) =>
    if r = 0 then .inr (.ok s.totalBytes, io)
    else if advance r s.iov = [] then .inr (.ok (s.totalBytes + r), io)
    else .inl ⟨advance r s.iov, s.totalBytes + r, io⟩

/-- `kIovMax` is `folly::kIovMax`. -/
def wrapvFull (kIovMax : ℕ) (outcomes : List Outcome) (io : Io) (iov : List Iovec) (isRead : Bool) :
    Option (Returned × List Outcome) :=
  drive (wrapvFullBody kIovMax isRead) outcomes ⟨iov, 0, io⟩

def readvFull (kIovMax : ℕ) (outcomes : List Outcome) (io : Io) (iov : List Iovec) :
    Option (Returned × List Outcome) :=
  wrapvFull kIovMax outcomes io iov true

def writevFull (kIovMax : ℕ) (outcomes : List Outcome) (io : Io) (iov : List Iovec) :
    Option (Returned × List Outcome) :=
  wrapvFull kIovMax outcomes io iov false

/-! ### What is asked of them -/

/-- No error but `EINTR` occurs. -/
def OnlyEINTR (outcomes : List Outcome) : Prop := ∀ o ∈ outcomes, ∀ errcode, o ≠ .failed (.other errcode)

def Outcome.succeeds : Outcome → Bool
  | .failed _ => false
  | .moves _ => true

/-- The number of calls that succeed. -/
def transfers (outcomes : List Outcome) : ℕ := outcomes.countP Outcome.succeeds

/-- Once more than `n` system calls have succeeded the function has returned, and it returns
only what `P` says. -/
def Returns (n : ℕ) (outcomes : List Outcome) (result : Option (Returned × List Outcome))
    (P : Returned → List Outcome → Prop) : Prop :=
  (n < transfers outcomes → result.isSome) ∧ ∀ r rest, result = some (r, rest) → P r rest

/-- All bytes at the addresses `buf` are written, in order, and their number is returned. -/
def Io.WritesAll (io : Io) (buf : List ℕ) (r : Returned) : Prop :=
  r = (.ok buf.length, { io with written := io.written ++ io.memory.loadAt buf })

/-- The next bytes of the stream are stored at the addresses `buf`, in order, until one of the
two ends, and their number is returned. -/
def Io.ReadsAll (io : Io) (buf : List ℕ) (r : Returned) : Prop :=
  r = (.ok (min buf.length io.incoming.length),
    { io with memory := io.memory.storeAt buf io.incoming, incoming := io.incoming.drop buf.length })

/-- `r` is the result of one system call, and no other has succeeded. -/
def OneOperation (call : Outcome → Returned) (outcomes : List Outcome) (r : Returned) (rest : List Outcome) : Prop :=
  ∃ most, .moves most ∈ outcomes ∧ r = call (.moves most) ∧ transfers outcomes = transfers rest + 1

/-- Behind `front` come `kIovMax` empty buffers, and behind these one that is not empty. -/
def GapBehind (kIovMax : ℕ) (iov front : List Iovec) : Prop :=
  ∃ gap back, iov = front ++ gap ++ back ∧ gap.length = kIovMax ∧ (∀ v ∈ gap, v.iov_len = 0) ∧
    ∃ v ∈ back, v.iov_len ≠ 0

end FileDescriptor

end EdenCommon
