import EdenCommon.Lib.Drive
import EdenCommon.Lib.Split
import EdenCommon.Spec.Utf8

/-!
# `listxattr` and `fgetxattr`

The retry loops of `XAttr.cpp`. Each system call finds the names, or the value, that the file has at
that time, so they may change between any two calls; or it fails. `folly::split` on NUL is a parameter.
A `string_view` that goes past the end of `buf` has no bytes: reading it is undefined.
-/

namespace EdenCommon

open Lib

namespace XAttr

inductive Errno
  | ERANGE
  | other (errcode : ℕ)
  deriving DecidableEq, Repr

/-- What a call of `::listxattr` meets. -/
inductive Reply
  | reports (names : List Bytes)
  | fails (errcode : ℕ)
  deriving DecidableEq, Repr

/-- The names as the system call reports them. -/
def concatenation (names : List Bytes) : Bytes := terminate 0 names

/-- What a successful call returns. -/
structure Listed where
  size : ℕ
  buf : Bytes
  /-- record: how many bytes of `buf` the call has filled in. -/
  filled : ℕ

/-- `::listxattr`. With no buffer it says how long a buffer has to be. -/
def sysListxattr (buf : Bytes) : Reply → Except Errno Listed
  | .fails errcode => .error (.other errcode)
  | .reports names =>
    let list := concatenation names
    if buf.length = 0 then .ok ⟨list.length, buf, 0⟩
    else if list.length ≤ buf.length then .ok ⟨list.length, list ++ buf.drop list.length, list.length⟩
    else .error .ERANGE

inductive Result
  /-- record: how many bytes were split, and how many of them the last call had filled in. -/
  | names (result : List Bytes) (read filled : ℕ)
  | systemError (errcode : Errno) (what : String)
  | outOfBounds
  deriving DecidableEq, Repr

/-- `std::string_view(buf.data(), size - 1)`. The length is unsigned: one below 0 is longer than
any string. -/
def viewOf (buf : Bytes) : ℕ → Option Bytes
  | 0 => none
  | n + 1 => if n ≤ buf.length then some (buf.take n) else none

/-- The loop stands in front of its first call, or of the one that asks for the size. -/
structure State where
  buf : Bytes
  querying : Bool

def resize (buf : Bytes) (size : ℕ) : Bytes := buf.take size ++ List.replicate (size - buf.length) 0

/-- One system call of the loop. -/
def listxattrBody (split : Bytes → List Bytes) (s : State) (reply : Reply) : State ⊕ Result :=
  if s.querying then
    match sysListxattr [] reply with
    | .error errcode => .inr (.systemError errcode "listxattr")
    | .ok listed => .inl ⟨resize s.buf listed.size, false⟩
  else
    match sysListxattr s.buf reply with
    | .error .ERANGE => .inl ⟨s.buf, true⟩
    | .error errcode => .inr (.systemError errcode "listxattr")
    | .ok listed =>
      match viewOf listed.buf listed.size with
      | none => .inr .outOfBounds
      | some view => .inr (.names (split view) view.length listed.filled)

/-- The result, and the replies that it has not come to. -/
def listxattr (split : Bytes → List Bytes) (replies : List Reply) : Option (Result × List Reply) :=
  drive (listxattrBody split) replies ⟨List.replicate 128 0, false⟩

/-- The names are not empty and hold no NUL. -/
def Reply.Valid : Reply → Prop
  | .reports names => ∀ name ∈ names, name ≠ [] ∧ 0 ∉ name
  | .fails _ => True

/-- The result of a loop whose last call met `last`: all names and no others, from bytes that
were filled in, or the error. -/
def RightFor (last : Reply) (r : Result) : Prop :=
  match last with
  | .reports names => ∃ read filled, r = .names names read filled ∧ read ≤ filled
  | .fails errcode => r = .systemError (.other errcode) "listxattr"

/-- The room of a read: at first, or what the query in front of it has said. -/
def listRoom (used : List Reply) : ℕ :=
  match used.getLast? with
  | some (.reports names) => (concatenation names).length
  | _ => 128

/-- Reads and queries take turns. -/
def IsRead {α : Type} (used : List α) : Prop := used.length % 2 = 0

/-- No call has failed, and no read has had room for the names, or none at all: without a buffer the
call succeeds. -/
def ListRetried (used : List Reply) : Prop :=
  ∀ pre reply post, used = pre ++ reply :: post →
    ∃ names, reply = .reports names ∧ (IsRead pre → 0 < listRoom pre ∧ listRoom pre < (concatenation names).length)

/-- The call behind `used` ends the loop: it fails, or it is a read that succeeds. -/
def EndsList (used : List Reply) : Reply → Prop
  | .reports names => IsRead used ∧ (listRoom used = 0 ∨ (concatenation names).length ≤ listRoom used)
  | .fails _ => True

/-! ### `fgetxattr` -/

/-- What a call of `::fgetxattr` meets. -/
inductive ValueReply
  | holds (value : Bytes)
  | fails (errcode : ℕ)
  deriving DecidableEq, Repr

/-- `::fgetxattr`: the size, and the buffer behind the call. -/
def sysFgetxattr (buf : Bytes) : ValueReply → Except Errno (ℕ × Bytes)
  | .fails errcode => .error (.other errcode)
  | .holds value =>
    if buf.length = 0 then .ok (value.length, buf)
    else if value.length ≤ buf.length then .ok (value.length, value ++ buf.drop value.length)
    else .error .ERANGE

inductive ValueResult
  | value (result : Bytes)
  | systemError (errcode : Errno) (what : String)
  deriving DecidableEq, Repr

/-- One system call of the loop. -/
def fgetxattrBody (s : State) (reply : ValueReply) : State ⊕ ValueResult :=
  if s.querying then
    match sysFgetxattr [] reply with
    | .error errcode => .inr (.systemError errcode "fgetxattr to query the size failed")
    | .ok (size, _) => .inl ⟨resize s.buf (size + 1), false⟩
  else
    match sysFgetxattr s.buf reply with
    | .ok (size, buf) => .inr (.value (resize buf size))
    | .error .ERANGE => .inl ⟨s.buf, true⟩
    | .error errcode => .inr (.systemError errcode "fgetxattr")

/-- The result, and the replies that it has not come to. -/
def fgetxattr (replies : List ValueReply) : Option (ValueResult × List ValueReply) :=
  drive fgetxattrBody replies ⟨List.replicate 64 0, false⟩

/-- The room of a read: at first, or behind a query. -/
def room (used : List ValueReply) : ℕ :=
  match used.getLast? with
  | some (.holds value) => value.length + 1
  | _ => 64

/-- No call has failed, and no read has had room for the value. -/
def Retried (used : List ValueReply) : Prop :=
  ∀ pre reply post, used = pre ++ reply :: post → ∃ value, reply = .holds value ∧ (IsRead pre → room pre < value.length)

/-- How the loop ends with the call behind `used`. -/
def EndsWith (used : List ValueReply) (last : ValueReply) (r : ValueResult) : Prop :=
  (∃ value, last = .holds value ∧ IsRead used ∧ value.length ≤ room used ∧ r = .value value) ∨
    ∃ errcode, last = .fails errcode ∧
      (IsRead used → r = .systemError (.other errcode) "fgetxattr") ∧
      (¬ IsRead used → r = .systemError (.other errcode) "fgetxattr to query the size failed")

end XAttr

end EdenCommon
