import EdenCommon.Lib.BigEndian
import EdenCommon.Lib.Split
import EdenCommon.Spec.Utf8
import Mathlib.Algebra.Group.Int.Defs
import Mathlib.Data.Int.Notation

/-!
# `extractCommandLineFromProcArgs`

The parser of `ProcessInfo.cpp` for what `KERN_PROCARGS2` gives. A pointer is an offset into the
buffer; reading at one that is not inside the buffer has no result. A `while` loop runs over
the bytes in front of `end`, whose number is its first argument.

`ProcArgs` is a buffer that is laid out as the source's comment says. An `int` has its low byte
first.
-/

namespace EdenCommon

open Lib

namespace ProcArgs

inductive Piece
  | literal (text : String)
  /-- `StringPiece{procargs + start, procargs + stop}`. -/
  | range (start stop : ℕ)
  deriving DecidableEq, Repr

/-- `memcpy` of an `int`. -/
def readInt (procargs : Bytes) : Option ℤ :=
  if 4 ≤ procargs.length then
    let v := ofBytesBE (procargs.take 4).reverse
    some (if v < 2 ^ 31 then v else v - 2 ^ 32)
  else none

/-- The loop that looks for a byte with `stop`. -/
def lookFor (stop : UInt8 → Bool) (procargs : Bytes) : ℕ → ℕ → Option ℕ
  | 0, cmdline => some cmdline
  | n + 1, cmdline => do
    let c ← procargs[cmdline]?
    if stop c then some cmdline else lookFor stop procargs n (cmdline + 1)

/-- The loop that counts the arguments. It gives the end of the piece. -/
def countArgs (procargs : Bytes) : ℕ → ℕ → ℕ → Option ℕ
  | 0, _, ptr => some ptr
  | n + 1, argCount, ptr => do
    let c ← procargs[ptr]?
    if c = 0 then
      if argCount - 1 = 0 then some ptr else countArgs procargs n (argCount - 1) (ptr + 1)
    else countArgs procargs n argCount (ptr + 1)

def extractCommandLineFromProcArgs (procargs : Bytes) : Option Piece :=
  let len := procargs.length
  if len < 4 then some (.literal "<err:EUNDERFLOW>")
  else do
    let argCount ← readInt procargs
    if argCount < 1 then some (.literal "<err:BOGUS_ARGC>")
    else
      let nul ← lookFor (· == 0) procargs (len - 4) 4
      let cmdline ← lookFor (· != 0) procargs (len - nul) nul
      let stop ← countArgs procargs (len - cmdline) argCount.toNat cmdline
      some (.range cmdline stop)

end ProcArgs

/-- What a buffer is made of: the executable path with its terminator and more NUL bytes behind
it, the arguments and the environment strings. -/
structure ProcArgs where
  path : Bytes
  padding : ℕ
  args : List Bytes
  env : List Bytes
  path_nul : 0 ∉ path
  args_nul : ∀ arg ∈ args, 0 ∉ arg
  env_nul : ∀ var ∈ env, 0 ∉ var
  argc_pos : 0 < args.length
  argc_int : args.length < 2 ^ 31

namespace ProcArgs

def header (l : ProcArgs) : Bytes :=
  (toBytesBE 4 l.args.length).reverse ++ l.path ++ List.replicate (l.padding + 1) 0

def bytes (l : ProcArgs) : Bytes := l.header ++ terminate 0 l.args ++ terminate 0 l.env

/-- The offset of the environment. -/
def envStart (l : ProcArgs) : ℕ := l.header.length + (terminate 0 l.args).length

/-- The result is the arguments with NUL in between, without a byte of the environment. -/
def ExtractsArgs (l : ProcArgs) : Prop :=
  ∃ start stop, extractCommandLineFromProcArgs l.bytes = some (.range start stop) ∧
    (l.bytes.drop start).take (stop - start) = [0].intercalate l.args ∧
    ∀ i, start ≤ i → i < stop → i < l.envStart

/-- No byte outside the buffer is read, and the result is inside it or one of two fixed texts. -/
def StaysInside (procargs : Bytes) : Prop :=
  ∃ piece, extractCommandLineFromProcArgs procargs = some piece ∧
    (piece = .literal "<err:EUNDERFLOW>" ∨ piece = .literal "<err:BOGUS_ARGC>" ∨
      ∃ start stop, piece = .range start stop ∧ start ≤ stop ∧ stop ≤ procargs.length)

end ProcArgs

end EdenCommon
