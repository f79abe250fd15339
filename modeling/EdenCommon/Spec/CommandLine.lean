import EdenCommon.Lib.CommandLine
import EdenCommon.Spec.Utf8
import Mathlib.Algebra.GroupWithZero.Nat
import Mathlib.Algebra.Group.Int.Defs
import Mathlib.Data.Int.Notation

/-!
# `build_command_line`

The command line that `SpawnedProcess.cpp` gives to `CreateProcessW`. The arguments are
UTF-8; `MultiByteToWideChar`, with that code page, is a parameter. It gets the bytes and
their number as an `int`, and it answers with no characters if it fails.
-/

namespace EdenCommon

namespace SpawnedProcess

open Lib

/-- A `std::wstring` on Windows. -/
abbrev WString := List UInt16

/-- The characters that the Windows rules give a meaning. -/
def windowsMarks : Marks UInt16 where
  quote := 0x22
  backslash := 0x5C
  blank c := c == 0x20 || c == 0x09
  backslash_ne := by decide
  blank_quote := by decide
  blank_backslash := by decide

def quoteByte : UInt8 := 0x22

variable (multiByteToWideChar : Bytes → ℤ → WString)

def multibyteToWideString (multiBytePiece : Bytes) : Except String WString :=
  if multiBytePiece.isEmpty then .ok []
  else
    let inputSize := (multiBytePiece.length : ℤ).bmod (2 ^ 32)
    let wideString := multiByteToWideChar multiBytePiece inputSize
    if wideString.length > 0 then .ok wideString else .error "Failed to convert char to wide char"

/-- What is appended for a character. -/
def pushChar (c : UInt16) : WString := if c = 0x22 then [0x22, 0x22, 0x22] else [c]

def pushArg (result warg : WString) : WString :=
  let result := if !result.isEmpty then result ++ [0x20] else result
  result ++ [0x22] ++ warg.flatMap pushChar ++ [0x22]

/-- "Surely not complete here by any means" -/
def buildCommandLine (args : List Bytes) : Except String WString :=
  args.foldlM (fun result arg => (multibyteToWideString multiByteToWideChar arg).map (pushArg result)) []

/-- No argument behind the first one ends in a backslash, and the first one, if its
backslashes have a meaning and another one follows, in an even number of them. -/
def ClosesEach (programName : Bool) : List WString → Prop
  | [] => True
  | first :: args => (∀ arg ∈ args, windowsMarks.trailing arg = 0) ∧
      (args = [] ∨ programName = true ∨ windowsMarks.trailing first % 2 = 0)

end SpawnedProcess

end EdenCommon
