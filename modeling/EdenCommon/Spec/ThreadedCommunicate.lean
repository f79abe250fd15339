import EdenCommon.Lib.Pipe
import EdenCommon.Spec.Utf8
import Mathlib.Logic.Function.Basic

/-!
# `SpawnedProcess::threadedCommunicate`

The main thread, the two threads of `readPipe` and the child, which step in any order. Pipes
hold at most `capacity` bytes. The child may do anything with its pipes that ends, whatever it
reads: it is a tree that branches at what a read gives. So is the callback, which branches at
how many bytes a write has taken; `SIGPIPE` is ignored, so no result is `EPIPE`. No call is
interrupted, and the ends of the child are held by the child alone.

`written` records what the child has put into its pipes and is read by nothing.
-/

namespace EdenCommon

open Lib

namespace ThreadedCommunicate

/-- `STDOUT_FILENO` and `STDERR_FILENO`. -/
inductive Out
  | stdout
  | stderr
  deriving DecidableEq, Repr

/-- What the child does next. -/
inductive Child
  | exit
  | read (max : ℕ) (next : Bytes → Child)
  | write (fd : Out) (data : Bytes) (next : Child)
  | closeOut (fd : Out) (next : Child)
  | closeIn (next : Child)

/-- What `writeCallback` does next. -/
inductive Callback
  | returnsFalse (next : Callback)
  | returnsTrue
  | write (data : Bytes) (next : Option ℕ → Callback)

/-- Where the thread of `readPipe` stands, with its `result`. -/
inductive Reader
  | reading (result : Bytes)
  /-- The promise is fulfilled. -/
  | fulfilled (result : Bytes)
  deriving DecidableEq, Repr

/-- Where the main thread stands. -/
inductive Main
  | callback (next : Callback)
  /-- In a `write` that has taken `n` bytes. -/
  | writing (data : Bytes) (n : ℕ) (next : Option ℕ → Callback)
  | close
  /-- In front of `outFuture.get()` and of `errFuture.get()`. -/
  | getOut
  | getErr (out : Bytes)
  | returned (out err : Bytes)

structure Sys where
  stdin : Option (Pipe UInt8)
  pipes : Out → Option (Pipe UInt8)
  readers : Out → Reader
  main : Main
  /-- `none` when the child has exited. -/
  child : Option Child
  written : Out → Bytes

inductive Op
  | main
  | reader (fd : Out)
  | child
  deriving DecidableEq, Repr

/-- `sizeof(buf)` in `readPipe`. -/
def bufSize : ℕ := 4096

/-- `readPipe(fd)`: without a pipe the future is ready. -/
def startReader (pipe : Option (Pipe UInt8)) : Reader := if pipe.isSome then .reading [] else .fulfilled []

/-- In front of the loop over `writeCallback`, with the readers started. -/
def start (stdin : Bool) (pipes : Out → Bool) (callback : Callback) (child : Child) : Sys :=
  let pipe (fd : Out) : Option (Pipe UInt8) := if pipes fd then some .fresh else none
  { stdin := if stdin then some .fresh else none
    pipes := pipe
    readers := fun fd => startReader (pipe fd)
    main := if stdin then .callback callback else .getOut
    child := some child
    written := fun _ => [] }

/-- One round of the loop of `readPipe`. -/
def stepReader (s : Sys) (fd : Out) : Option Sys :=
  match s.readers fd, s.pipes fd with
  | .reading result, some pipe =>
    match pipe.read bufSize with
    | none => none
    | some ([], _) => some { s with readers := Function.update s.readers fd (.fulfilled result) }
    | some (x, pipe') =>
      some { s with
        readers := Function.update s.readers fd (.reading (result ++ x))
        pipes := Function.update s.pipes fd (some pipe') }
  | _, _ => none

def stepMain (capacity : ℕ) (s : Sys) : Option Sys :=
  match s.main with
  | .callback .returnsTrue => some { s with main := .close }
  | .callback (.returnsFalse next) => some { s with main := .callback next }
  | .callback (.write data next) => some { s with main := .writing data 0 next }
  | .writing [] n next => some { s with main := .callback (next (some n)) }
  | .writing (c :: data) n next =>
    match s.stdin with
    | none => none
    | some pipe =>
      if pipe.readEnd then
        (pipe.push capacity (c :: data)).map fun r =>
          { s with stdin := some r.2, main := .writing r.1 (n + ((c :: data).length - r.1.length)) next }
      else some { s with main := .callback (next (if n = 0 then none else some n)) }
  | .close => some { s with stdin := s.stdin.map fun pipe => { pipe with writeEnd := false }, main := .getOut }
  | .getOut =>
    match s.readers .stdout with
    | .fulfilled out => some { s with main := .getErr out }
    | .reading _ => none
  | .getErr out =>
    match s.readers .stderr with
    | .fulfilled err => some { s with main := .returned out err }
    | .reading _ => none
  | .returned _ _ => none

/-- The child no longer writes to `fd`. -/
def Sys.closeOut (s : Sys) (fd : Out) : Sys :=
  { s with pipes := Function.update s.pipes fd ((s.pipes fd).map fun pipe => { pipe with writeEnd := false }) }

def Sys.closeIn (s : Sys) : Sys := { s with stdin := s.stdin.map fun pipe => { pipe with readEnd := false } }

def stepChild (capacity : ℕ) (s : Sys) : Option Sys :=
  match s.child with
  | none => none
  | some .exit => some { ((s.closeOut .stdout).closeOut .stderr).closeIn with child := none }
  | some (.closeOut fd next) => some { s.closeOut fd with child := some next }
  | some (.closeIn next) => some { s.closeIn with child := some next }
  | some (.read max next) =>
    match s.stdin with
    | none => some { s with child := some (next []) }
    | some pipe =>
      if pipe.readEnd then
        (pipe.read max).map fun r => { s with stdin := some r.2, child := some (next r.1) }
      else some { s with child := some (next []) }
  | some (.write _ [] next) => some { s with child := some next }
  | some (.write fd (c :: data) next) =>
    match s.pipes fd with
    | none => some { s with child := some next }
    | some pipe =>
      if pipe.writeEnd then
        (pipe.push capacity (c :: data)).map fun r =>
          { s with
            pipes := Function.update s.pipes fd (some r.2)
            child := some (.write fd r.1 next)
            written := Function.update s.written fd
              (s.written fd ++ (c :: data).take ((c :: data).length - r.1.length)) }
      else some { s with child := some next }

def step (capacity : ℕ) (s : Sys) : Op → Option Sys
  | .main => stepMain capacity s
  | .reader fd => stepReader s fd
  | .child => stepChild capacity s

end ThreadedCommunicate

end EdenCommon
