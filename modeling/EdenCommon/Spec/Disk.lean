import EdenCommon.Lib.Wp
import EdenCommon.Lib.Memory
import Mathlib.Logic.Function.Basic
import Mathlib.Data.Nat.Notation

/-!
# Files and the calls on them

What the kernel does for `MappedDiskVector.h`: regular files under their paths, and the
calls that create, read, resize, map and rename them. Every call may fail: `outcomes`
says how the next calls end, and a call that finds it empty succeeds. `failures` counts
the calls that failed, other than by not being supported.

A shared mapping has no state of its own: it reads and writes the bytes of its file. A
descriptor is the path its file has, since nobody else renames or unlinks it.
-/

namespace EdenCommon

open Lib

/-- A regular file; `off_t` bounds its size. The bytes of the file are those below `size`. -/
structure File where
  size : ℕ
  byte : Memory
  size_lt : size < 2 ^ 63

namespace File

def empty : File := ⟨0, fun _ => 0, by decide⟩

/-- A new size; what is added reads as zero. -/
def resize (f : File) (n : ℕ) (h : n < 2 ^ 63) : File := ⟨n, fun a => if a < f.size then f.byte a else 0, h⟩

/-- The bytes of `m` over the first `n`; a gap reads as zero. -/
def write (f : File) (m : Memory) (n : ℕ) (h : n < 2 ^ 63) : File :=
  ⟨max f.size n, fun a => if a < n then m a else if a < f.size then f.byte a else 0,
    Nat.max_lt.2 ⟨f.size_lt, h⟩⟩

end File

inductive Disk.Errno
  | notSupported  -- `EOPNOTSUPP`
  | invalid       -- `EINVAL`
  | other
deriving DecidableEq

/-- How one call ends. A short transfer is one of at most `n` bytes, and of fewer than
asked for. User code that is called may throw, an `std::exception` or something else,
and may have left bytes in the memory it was to fill. -/
inductive Outcome
  | ok
  | fail (e : Disk.Errno)
  | short (n : ℕ)
  | throws (std : Bool) (scratch : Memory)

structure Disk where
  files : String → Option File
  outcomes : List Outcome
  failures : ℕ

namespace Disk

variable {ε α : Type}

/-- The file of an open descriptor. -/
def file (d : Disk) (path : String) : File := (d.files path).getD .empty

def put (d : Disk) (path : String) (f : Option File) : Disk :=
  { d with files := Function.update d.files path f }

/-- How the next call ends. -/
def next : EStateM ε Disk Outcome := fun d =>
  match d.outcomes with
  | [] => .ok .ok d
  | o :: rest => .ok o { d with outcomes := rest }

def count : EStateM ε Disk Unit := modify fun d => { d with failures := d.failures + 1 }

/-- Report a failure. -/
def failed (e : Errno) : EStateM ε Disk (Except Errno α) := do
  count
  pure (.error e)

/-- A call that changes no file: `flock`, `mmap` and `mremap`. -/
def call : EStateM ε Disk (Except Errno Unit) := do
  match ← next with
  | .ok => pure (.ok ())
  | _ => failed .other

/-- `open` with `O_RDWR | O_CREAT`, and `O_TRUNC` if `truncate`. -/
def openFile (path : String) (truncate : Bool) : EStateM ε Disk (Except Errno Unit) := do
  match ← next with
  | .ok =>
    modify fun d => d.put path (some (if truncate then .empty else d.file path))
    pure (.ok ())
  | _ => failed .other

/-- `fstat`, of which only `st_size` is used. -/
def fstat (path : String) : EStateM ε Disk (Except Errno ℕ) := do
  match ← next with
  | .ok => return .ok ((← get).file path).size
  | _ => failed .other

/-- `pread` of `n` bytes at offset 0: how many were read. -/
def pread (path : String) (n : ℕ) : EStateM ε Disk (Except Errno ℕ) := do
  let available := min n ((← get).file path).size
  match ← next with
  | .ok => return .ok available
  | .short k =>
    count
    return .ok (min k (available - 1))
  | _ => failed .other

/-- `pwrite` of the first `n` bytes of `m` at offset 0: how many were written. -/
def pwrite (path : String) (m : Memory) (n : ℕ) (h : n < 2 ^ 63) : EStateM ε Disk (Except Errno ℕ) := do
  match ← next with
  | .ok =>
    modify fun d => d.put path (some ((d.file path).write m n h))
    return .ok n
  | .short k =>
    count
    modify fun d => d.put path (some ((d.file path).write m (min k (n - 1)) (by omega)))
    return .ok (min k (n - 1))
  | _ => failed .other

/-- `fallocate(fd, 0, 0, n)` with `n` as an `off_t`: it never shrinks the file. -/
def fallocate (path : String) (n : ℕ) : EStateM ε Disk (Except Errno Unit) := do
  match ← next with
  | .ok =>
    if h : 0 < n ∧ n < 2 ^ 63 then
      modify fun d => d.put path (some ((d.file path).resize (max (d.file path).size n)
        (Nat.max_lt.2 ⟨(d.file path).size_lt, h.2⟩)))
      return .ok ()
    else failed .invalid
  | .fail .notSupported => return .error .notSupported
  | _ => failed .other

/-- `ftruncate(fd, n)` with `n` as an `off_t`. -/
def ftruncate (path : String) (n : ℕ) : EStateM ε Disk (Except Errno Unit) := do
  match ← next with
  | .ok =>
    if h : n < 2 ^ 63 then
      modify fun d => d.put path (some ((d.file path).resize n h))
      return .ok ()
    else failed .invalid
  | _ => failed .other

/-- `madvise(addr, length, MADV_POPULATE_WRITE)`; `EINVAL` is a kernel without it. -/
def madvise : EStateM ε Disk (Except Errno Unit) := do
  match ← next with
  | .ok => return .ok ()
  | .fail .invalid => return .error .invalid
  | _ => failed .other

def rename (source target : String) : EStateM ε Disk (Except Errno Unit) := do
  match ← next with
  | .ok =>
    modify fun d => (d.put target (d.files source)).put source none
    return .ok ()
  | _ => failed .other

def unlink (path : String) : EStateM ε Disk (Except Errno Unit) := do
  match ← next with
  | .ok =>
    modify fun d => d.put path none
    return .ok ()
  | _ => failed .other

/-- A call of user code; what it threw and the bytes it left, if it threw. -/
def userCode : EStateM ε Disk (Option (Bool × Memory)) := do
  match ← next with
  | .throws std scratch =>
    count
    return some (std, scratch)
  | _ => return none

end Disk

end EdenCommon
