import EdenCommon.Lib.Utf8Encoding
import EdenCommon.Spec.Utf8

/-!
# `ensureValidUtf8`

The overloads of `Utf8.h` and `Utf8.cpp`, and the two members of `DynamicEvent` that
clean their texts with different ones of them. The decoder and the encoder are those of
`folly/Unicode.h`, which are not part of this repository: `Unicode` stands for them and
`Unicode.Lawful` says what is documented of them.
-/

namespace EdenCommon

open Lib

/-! ### `folly/Unicode.h` -/

structure Unicode where
  /-- `utf8ToCodePoint(begin, end, true)`: the code point, and the bytes that are left. -/
  utf8ToCodePoint : Bytes → ℕ × Bytes
  appendCodePointToUtf8 : ℕ → Bytes → Bytes

/-- A scalar value is read and written in its shortest form. What does not start with such a
form is skipped by at least one byte, and U+FFFD stands for it. -/
structure Unicode.Lawful (folly : Unicode) : Prop where
  scalar : ∀ (v : ℕ) (s : Bytes), IsScalar v → folly.utf8ToCodePoint (encodeUtf8 v ++ s) = (v, s)
  invalid : ∀ s : Bytes, s ≠ [] → (∀ v t, IsScalar v → s ≠ encodeUtf8 v ++ t) →
    ∃ n, 0 < n ∧ n ≤ s.length ∧ folly.utf8ToCodePoint s = (0xFFFD, s.drop n)
  append : ∀ (v : ℕ) (out : Bytes), IsScalar v → folly.appendCodePointToUtf8 v out = out ++ encodeUtf8 v

/-! ### The overloads -/

/-- The `while` loop of `ensureValidUtf8(ByteRange)`. -/
def ensureValidUtf8Loop (folly : Unicode) : ℕ → Bytes → Bytes → Option Bytes
  | 0, _, _ => none
  | _ + 1, [], output => some output
  | fuel + 1, first :: str, output =>
    let decoded := folly.utf8ToCodePoint (first :: str)
    ensureValidUtf8Loop folly fuel decoded.2 (folly.appendCodePointToUtf8 decoded.1 output)

/-- `ensureValidUtf8(ByteRange)`. -/
def ensureValidUtf8Range (folly : Unicode) (str : Bytes) : Option Bytes :=
  ensureValidUtf8Loop folly (str.length + 1) str []

/-- `ensureValidUtf8(StringPiece)`. -/
def ensureValidUtf8Piece (folly : Unicode) (str : Bytes) : Option Bytes := ensureValidUtf8Range folly str

/-- `ensureValidUtf8(std::string&&)`. The lvalue of the second branch is a `StringPiece`. -/
def ensureValidUtf8String (folly : Unicode) (str : Bytes) : Option Bytes :=
  (isValidUtf8 str nulTerminator).bind fun valid =>
    if valid then some str else ensureValidUtf8Piece folly str

/-! ### `DynamicEvent` -/

structure DynamicEvent where
  strings_ : Bytes → Option Bytes
  stringVecs_ : Bytes → Option (List Bytes)

/-- A `std::logic_error`, its text cut in front of the name. -/
structure LogicError where
  text : String
  name : Bytes

/-- `DynamicEvent::addString`. -/
def DynamicEvent.addString (folly : Unicode) (ev : DynamicEvent) (name value : Bytes) :
    Option (Except LogicError DynamicEvent) :=
  (ensureValidUtf8String folly value).map fun validatedValue =>
    if (ev.strings_ name).isSome then .error ⟨"Attempted to insert duplicate string: ", name⟩
    else .ok { ev with strings_ := fun k => if k = name then some validatedValue else ev.strings_ k }

/-- `DynamicEvent::addStringVec`. The elements are lvalues. -/
def DynamicEvent.addStringVec (folly : Unicode) (ev : DynamicEvent) (name : Bytes) (value : List Bytes) :
    Option (Except LogicError DynamicEvent) :=
  (value.mapM (ensureValidUtf8Piece folly)).map fun validatedValue =>
    if (ev.stringVecs_ name).isSome then .error ⟨"Attempted to insert duplicate string vector: ", name⟩
    else .ok { ev with stringVecs_ := fun k => if k = name then some validatedValue else ev.stringVecs_ k }

/-- Both members store `r` for `s`, under any name that is not taken and at any place. -/
def StoredAs (folly : Unicode) (s r : Bytes) : Prop :=
  (∀ (ev : DynamicEvent) (name : Bytes), ev.strings_ name = none →
    ∃ ev', ev.addString folly name s = some (.ok ev') ∧ ev'.strings_ name = some r) ∧
  ∀ (ev : DynamicEvent) (name : Bytes) (value : List Bytes) (i : ℕ), ev.stringVecs_ name = none → value[i]? = some s →
    ∃ ev' stored, ev.addStringVec folly name value = some (.ok ev') ∧ ev'.stringVecs_ name = some stored ∧
      stored[i]? = some r

/-- A row of shortest forms, one of them of a surrogate or of a value above `0x10FFFF`. -/
def HidesNonScalar (s : Bytes) : Prop :=
  ∃ vs : List ℕ, (∀ v ∈ vs, v < 0x200000) ∧ s = vs.flatMap encodeUtf8 ∧ ∃ v ∈ vs, ¬ IsScalar v

end EdenCommon
