import EdenCommon.Spec.PathMap

/-!
# Equality, comparison and hash of paths

The rest of `PathOperators` in `PathFuncs.h`, beside `isPathPieceLess`, and `hash_value`.
`folly::AsciiCaseInsensitive` and `folly::hash::SpookyHashV2` are parameters.
-/

namespace EdenCommon

/-- `std::equal` of two ranges. -/
def rangeEqual {α : Type} (equal : α → α → Bool) : List α → List α → Bool
  | [], [] => true
  | a :: as, b :: bs => equal a b && rangeEqual equal as bs
  | _, _ => false

def stringEqual (asciiCaseInsensitive : UInt8 → UInt8 → Bool) : CaseSensitivity → Bytes → Bytes → Bool
  | .sensitive => fun left right => left == right
  | .insensitive => rangeEqual asciiCaseInsensitive

variable {K : Type} [PathPiece K]

/-- `isPathPieceEqual`: composed paths are compared by components on Windows. -/
def isPathPieceEqual (asciiCaseInsensitive : UInt8 → UInt8 → Bool) (P : Platform) (cs : CaseSensitivity)
    (left right : K) : Bool :=
  match (PathPiece.components : Option (Platform → K → List Bytes)), P.kIsWindows with
  | some components, true =>
    rangeEqual (stringEqual asciiCaseInsensitive cs) (components P left) (components P right)
  | _, _ => stringEqual asciiCaseInsensitive cs (PathPiece.view left) (PathPiece.view right)

inductive CompareResult
  | equal
  | before
  | after
  deriving DecidableEq, Repr

/-- The answer when the arguments change places. -/
def CompareResult.swap : CompareResult → CompareResult
  | .equal => .equal
  | .before => .after
  | .after => .before

def comparePathPiece (asciiCaseInsensitive : UInt8 → UInt8 → Bool) (P : Platform) (cs : CaseSensitivity)
    (left right : K) : CompareResult :=
  if isPathPieceEqual asciiCaseInsensitive P cs left right then .equal
  else if isPathPieceLess P cs left right then .before
  else .after

/-- `folly::hash::SpookyHashV2`: the hash of a buffer under a seed, and the incremental
hash with its state. -/
structure SpookyHashV2 where
  Hash64 : Bytes → UInt64 → UInt64
  State : Type
  init : State
  Update : State → Bytes → State
  Final : State → UInt64 × UInt64

/-- `hash_value`: composed paths are hashed by components on Windows. -/
def hashValue (H : SpookyHashV2) (P : Platform) (path : K) : UInt64 :=
  match (PathPiece.components : Option (Platform → K → List Bytes)), P.kIsWindows with
  | some components, true => (H.Final ((components P path).foldl H.Update H.init)).1
  | _, _ => H.Hash64 (PathPiece.view path) 0

/-- The same ASCII letter, once upper case and once lower case. -/
def SameLetter (x y : UInt8) : Prop :=
  (0x41 ≤ x ∧ x ≤ 0x5A ∧ y = x + 0x20) ∨ (0x41 ≤ y ∧ y ≤ 0x5A ∧ x = y + 0x20)

instance (x y : UInt8) : Decidable (SameLetter x y) := inferInstanceAs (Decidable (_ ∨ _))

end EdenCommon
