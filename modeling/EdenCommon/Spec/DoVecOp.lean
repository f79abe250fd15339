import EdenCommon.Spec.DescriptorOwners
import EdenCommon.Spec.FileDescriptor

/-!
# `FileDescriptor::doVecOp`

What `readv` and `writev` are on Windows for all but sockets: the buffers one by one, with `ReadFile` or
`WriteFile`. These take the number of bytes as 32 bits, and `read` and `write` as an `int`, so a
`size_t` is cut on its way to them. The locks of a regular file keep other processes out
and have no effect of their own here; `lockFile` is the error of `LockFile`, if it fails.
-/

namespace EdenCommon

open Lib

namespace FileDescriptor

/-- The number of values of a `DWORD`. -/
def dwordValues : ℕ := 4294967296

/-- The number of values of an `ssize_t` that are not negative. -/
def ssizeValues : ℕ := 9223372036854775808

def ERROR_BROKEN_PIPE : ℕ := 109

inductive VecError
  | EINVAL
  | lockFile (err : ℕ)
  | transfer (e : Errno)
  deriving DecidableEq, Repr

/-- `read` and `write`. A broken pipe is the end of the file for a read. -/
def transferFile (isRead : Bool) (io : Io) (buf size : ℕ) (outcome : Outcome) : Except Errno ℕ × Io :=
  let buf := List.range' buf (size % dwordValues)
  if isRead then
    match io.readv buf outcome with
    | (.error (.other err), io) => (if err = ERROR_BROKEN_PIPE then .ok 0 else .error (.other err), io)
    | r => r
  else io.writev buf outcome

/-- The variables of the loop. What `curIov` has not reached is `iov`. -/
structure VecOp where
  curBase : ℕ
  curLen : ℕ
  iov : List Iovec
  bytesProcessed : ℕ
  io : Io

/-- Behind a whole buffer the loop goes on with the next one, if there is one. -/
def nextBuffer (iov : List Iovec) (bytesProcessed : ℕ) (io : Io) : VecOp ⊕ (Except VecError ℕ × Io) :=
  match iov with
  | [] => .inr (.ok bytesProcessed, io)
  | v :: iov => .inl ⟨v.iov_base, v.iov_len, iov, bytesProcessed, io⟩

/-- The body of the loop. -/
def doVecOpBody (isRead : Bool) (s : VecOp) (outcome : Outcome) : VecOp ⊕ (Except VecError ℕ × Io) :=
  match transferFile isRead s.io s.curBase s.curLen outcome with
  | (.error e, io) => .inr (.error (.transfer e), io)
  | (.ok res, io) =>
    -- End of File
    if isRead ∧ res = 0 ∧ s.curLen ≠ 0 then .inr (.ok s.bytesProcessed, io)
    else if ssizeValues ≤ s.bytesProcessed + res then .inr (.error .EINVAL, io)
    else if res = s.curLen then nextBuffer s.iov (s.bytesProcessed + res) io
    else .inl ⟨s.curBase + res, s.curLen - res, s.iov, s.bytesProcessed + res, io⟩

def doVecOp (kIovMax : ℕ) (fdType : FDType) (lockFile : Option ℕ) (outcomes : List Outcome) (io : Io)
    (iov : List Iovec) (isRead : Bool) : Option ((Except VecError ℕ × Io) × List Outcome) :=
  match iov with
  | [] => some ((.ok 0, io), outcomes)
  | v :: iov =>
    if kIovMax < (v :: iov).length then some ((.error .EINVAL, io), outcomes)
    else
      match if fdType = .Generic then lockFile else none with
      | some err => some ((.error (.lockFile err), io), outcomes)
      | none => drive (doVecOpBody isRead) outcomes ⟨v.iov_base, v.iov_len, iov, 0, io⟩

/-- The addresses that the loop gets to: of the first buffer that does not fit 32 bits it takes what
is left of its length in 32 bits, and nothing behind. -/
def reached : List Iovec → List ℕ
  | [] => []
  | v :: iov =>
    if v.iov_len < dwordValues then v.addresses ++ reached iov else v.addresses.take (v.iov_len % dwordValues)

/-- No call fails. -/
def NoFailure (outcomes : List Outcome) : Prop := ∀ o ∈ outcomes, o.succeeds = true

end FileDescriptor

end EdenCommon
