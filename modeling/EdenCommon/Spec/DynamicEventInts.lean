import EdenCommon.Lib.HighBits
import EdenCommon.Spec.EnsureValidUtf8

/-!
# `DynamicEvent::addInt` and `DynamicEvent::addTruncatedInt`

Both touch no member but `ints_`. An `int64_t` is its two's-complement pattern, and so is what
`value & mask` is converted to. Where the language leaves an operation undefined, the
function has no result at all (`IntFailure.undefined`).
-/

namespace EdenCommon

open Lib

/-- `DynamicEvent::IntMap`. -/
abbrev IntMap := Bytes → Option (BitVec 64)

inductive IntFailure
  | checkFailed
  | undefined
  | logicError (e : LogicError)

/-- `DynamicEvent::addInt`. -/
def IntMap.addInt (ints_ : IntMap) (name : Bytes) (value : BitVec 64) : Except IntFailure IntMap :=
  if (ints_ name).isSome then .error (.logicError ⟨"Attempted to insert duplicate int: ", name⟩)
  else .ok fun k => if k = name then some value else ints_ k

/-- `DynamicEvent::addBool`. -/
def IntMap.addBool (ints_ : IntMap) (name : Bytes) (value : Bool) : Except IntFailure IntMap :=
  ints_.addInt name (if value then 1#64 else 0#64)

/-- `__builtin_clzll`, which is undefined for 0. -/
def builtinClzll (x : BitVec 64) : Except IntFailure ℕ :=
  if x = 0#64 then .error .undefined else .ok x.clz.toNat

/-- `<<` on an `unsigned long long`, which is undefined from its width on. -/
def shiftLeft64 (x : BitVec 64) (n : ℕ) : Except IntFailure (BitVec 64) :=
  if n < 64 then .ok (x <<< n) else .error .undefined

/-- `DynamicEvent::addTruncatedInt`. -/
def IntMap.addTruncatedInt (ints_ : IntMap) (name : Bytes) (value : BitVec 64) (bits_to_keep : ℕ) :
    Except IntFailure IntMap :=
  if 64 < bits_to_keep then .error .checkFailed
  else do
    let highest := 64 - (← builtinClzll value)
    if highest ≤ bits_to_keep then ints_.addInt name value
    else
      let one ← shiftLeft64 1#64 bits_to_keep
      let mask ← shiftLeft64 (one - 1#64) (highest - bits_to_keep)
      ints_.addInt name (value &&& mask)

end EdenCommon
