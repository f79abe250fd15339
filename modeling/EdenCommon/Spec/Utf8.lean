import Mathlib.Data.Int.Notation
import Mathlib.Data.Nat.Notation

/-!
# `isValidUtf8`

The scanner of `Utf8.h`. A `StringPiece` is two pointers into memory, and the
bounds check of `isValidContinuation` compares `begin + num - 1` with `end`, so the
scanner can read the byte at `end` and run on from there. The memory is therefore
part of the model: `str` is the range, `after` the mapped bytes that follow it, and
`room` the difference `end - begin`, negative once `begin` has passed `end`. A read
beyond the mapped bytes is `none`.
-/

namespace EdenCommon

/-- A byte string. -/
abbrev Bytes := List UInt8

/-- `detail::isBitSet`, for `bit < 8`. -/
def isBitSet (c bit : UInt8) : Bool := c &&& (1 <<< bit) == 1 <<< bit

/-- `detail::isValidContinuation(char)`: a byte of the form `10xxxxxx`. -/
def isValidContinuation (c : UInt8) : Bool := isBitSet c 7 && !isBitSet c 6

def clearContinuationBit (c : UInt8) : UInt8 := c &&& ~~~((1 : UInt8) <<< 7)

/-- The loop of `isValidContinuation(begin, end, num, codepoint)` over the memory at
`begin`: `some none` is the answer `false`; on success the memory after the `num`
bytes and the new code point. -/
def readContinuations : ℕ → Bytes → UInt32 → Option (Option (Bytes × UInt32))
  | 0, mem, codepoint => some (some (mem, codepoint))
  | _ + 1, [], _ => none
  | num + 1, c :: mem, codepoint =>
    if isValidContinuation c then
      readContinuations num mem ((codepoint <<< 6) ||| (clearContinuationBit c).toUInt32)
    else some none

/-- `isValidContinuation(begin, end, num, codepoint)`. -/
def isValidContinuations (mem : Bytes) (room : ℤ) (num : ℕ) (codepoint : UInt32) :
    Option (Option (Bytes × UInt32)) :=
  if room < (num : ℤ) - 1 then some none else readContinuations num mem codepoint

/-- The multi-byte lead bytes: how many continuation bytes follow, the bits the lead
contributes, and the least code point that is not an overlong encoding. -/
def leadByte (first : UInt8) : Option (ℕ × UInt32 × UInt32) :=
  if !isBitSet first 6 then none
  else if !isBitSet first 5 then some (1, first.toUInt32 &&& 0x1F, 0x80)
  else if !isBitSet first 4 then some (2, first.toUInt32 &&& 0xF, 0x800)
  else if !isBitSet first 3 then some (3, first.toUInt32 &&& 0x7, 0x10000)
  else none

/-- The `while` loop of `isValidUtf8`. Each turn reads at least one byte, so the
number of mapped bytes bounds the turns. -/
def isValidUtf8Loop : ℕ → Bytes → ℤ → Option Bool
  | 0, _, _ => none
  | fuel + 1, mem, room =>
    if room = 0 then some true
    else
      match mem with
      | [] => none
      | first :: mem =>
        if !isBitSet first 7 then isValidUtf8Loop fuel mem (room - 1)
        else
          match leadByte first with
          | none => some false
          | some (num, bits, least) =>
            match isValidContinuations mem (room - 1) num bits with
            | none => none
            | some none => some false
            | some (some (mem', codepoint)) =>
              if codepoint < least then some false
              else isValidUtf8Loop fuel mem' (room - 1 - num)

/-- `isValidUtf8(str)` with `after` the mapped memory behind `str`. -/
def isValidUtf8 (str after : Bytes) : Option Bool :=
  isValidUtf8Loop (str.length + after.length + 1) (str ++ after) str.length

/-- The memory behind the bytes of a `std::string`: its terminating NUL. -/
def nulTerminator : Bytes := [0]

/-- `str` is accepted when it is the content of a `std::string`. -/
def AcceptedUtf8 (str : Bytes) : Prop := isValidUtf8 str nulTerminator = some true

instance (str : Bytes) : Decidable (AcceptedUtf8 str) :=
  inferInstanceAs (Decidable (isValidUtf8 str nulTerminator = some true))

end EdenCommon
