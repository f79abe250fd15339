import EdenCommon.Lib.SortedVector
import EdenCommon.Spec.Path

/-!
# `PathMap`

The sorted vector of `PathMap.h` and the comparison of `PathFuncs.h` it is sorted by.
A map carries the proof of its order. `char` is signed, as on x86-64.

`foldKey` is what a comparison sees of a key: two keys are equivalent for a map iff
they fold alike. `Contents` is what a map is for, a partial function of the folded key.
-/

namespace EdenCommon

inductive CaseSensitivity
  | insensitive
  | sensitive
  deriving DecidableEq, Repr

/-! ### The order of keys -/

/-- `AsciiLessThanCaseInsensitive::toLower`. -/
def toLower (c : UInt8) : UInt8 := if 0x41 ≤ c ∧ c ≤ 0x5A then c + 0x20 else c

def asciiLessThanCaseInsensitive (lhs rhs : UInt8) : Bool :=
  (toLower lhs).toInt8.toInt < (toLower rhs).toInt8.toInt

/-- `std::lexicographical_compare`. -/
def lexicographicalCompare {α : Type} (less : α → α → Bool) : List α → List α → Bool
  | _, [] => false
  | [], _ :: _ => true
  | a :: as, b :: bs => if less a b then true else if less b a then false else lexicographicalCompare less as bs

/-- The comparison of two strings; `operator<` of `std::string_view` compares bytes
without sign. -/
def stringLess : CaseSensitivity → Bytes → Bytes → Bool
  | .sensitive => lexicographicalCompare fun a b => a < b
  | .insensitive => lexicographicalCompare asciiLessThanCaseInsensitive

/-- A path type: its string and, if it is composed, its components. -/
class PathPiece (K : Type) where
  view : K → Bytes
  components : Option (Platform → K → List Bytes)

instance : PathPiece PathComponent := ⟨PathComponent.path_, none⟩
instance : PathPiece RelativePath := ⟨RelativePath.path_, some RelativePath.components⟩
instance : PathPiece AbsolutePath := ⟨AbsolutePath.path_, some AbsolutePath.components⟩

variable {K V : Type} [PathPiece K] {P : Platform} {cs : CaseSensitivity}

/-- `isPathPieceLess`: composed paths are compared by components on Windows. -/
def isPathPieceLess (P : Platform) (cs : CaseSensitivity) (left right : K) : Bool :=
  match (PathPiece.components : Option (Platform → K → List Bytes)), P.kIsWindows with
  | some components, true => lexicographicalCompare (stringLess cs) (components P left) (components P right)
  | _, _ => stringLess cs (PathPiece.view left) (PathPiece.view right)

/-- What a comparison sees of a character. -/
def foldChar : CaseSensitivity → UInt8 → ℤ
  | .sensitive, c => c.toNat
  | .insensitive, c => (toLower c).toInt8.toInt

/-- What a comparison sees of a key. -/
def foldKey (P : Platform) (cs : CaseSensitivity) (k : K) : List (List ℤ) :=
  match (PathPiece.components : Option (Platform → K → List Bytes)), P.kIsWindows with
  | some components, true => (components P k).map (·.map (foldChar cs))
  | _, _ => [(PathPiece.view k).map (foldChar cs)]

/-! ### The map -/

/-- The entries in strictly ascending key order. -/
structure PathMap (P : Platform) (cs : CaseSensitivity) (K V : Type) [PathPiece K] where
  entries : List (K × V)
  sorted : entries.Pairwise fun a b => isPathPieceLess P cs a.1 b.1

/-- An operation on a map. -/
inductive MapOp (K V : Type)
  | find (key : K)
  | erase (key : K)
  | emplace (key : K) (value : V)
  | insertOrAssign (key : K) (value : V)

/-- The answer to an operation: the entry found, the number of entries erased, or the
entry the returned iterator points to and whether it was inserted. -/
inductive MapResult (K V : Type)
  | found (entry : Option (K × V))
  | erased (count : ℕ)
  | placed (entry : Option (K × V)) (inserted : Bool)

/-- `std::lower_bound` in a sorted range. -/
def lowerBound (P : Platform) (cs : CaseSensitivity) (entries : List (K × V)) (key : K) : ℕ :=
  entries.findIdx fun e => !isPathPieceLess P cs e.1 key

/-- `find` in a sorted range: `none` is the end of the range. -/
def findIn (P : Platform) (cs : CaseSensitivity) (entries : List (K × V)) (key : K) : Option ℕ :=
  match entries[lowerBound P cs entries key]? with
  | some e => if isPathPieceLess P cs key e.1 then none else some (lowerBound P cs entries key)
  | none => none

/-- The entries after an operation. `PathMap` has no `insert_or_assign` of its own: it
is an `emplace` that writes the value through the iterator if the key is there. -/
def entriesAfter (P : Platform) (cs : CaseSensitivity) (entries : List (K × V)) : MapOp K V → List (K × V)
  | .find _ => entries
  | .erase key =>
    match findIn P cs entries key with
    | some i => entries.eraseIdx i
    | none => entries
  | .emplace key value =>
    match findIn P cs entries key with
    | some _ => entries
    | none => entries.insertIdx (lowerBound P cs entries key) (key, value)
  | .insertOrAssign key value =>
    match findIn P cs entries key with
    | some i => (entries[i]?).elim entries fun e => entries.set i (e.1, value)
    | none => entries.insertIdx (lowerBound P cs entries key) (key, value)

/-- The answer of the map with these entries to an operation. -/
def answer (P : Platform) (cs : CaseSensitivity) (entries : List (K × V)) : MapOp K V → MapResult K V
  | .find key => .found ((findIn P cs entries key).bind (entries[·]?))
  | .erase key => .erased (if (findIn P cs entries key).isSome then 1 else 0)
  | .emplace key value =>
    match findIn P cs entries key with
    | some i => .placed entries[i]? false
    | none => .placed (some (key, value)) true
  | .insertOrAssign key value =>
    match findIn P cs entries key with
    | some i => .placed ((entries[i]?).map fun e => (e.1, value)) false
    | none => .placed (some (key, value)) true

/-! ### What a map is for -/

/-- For each folded key the entry stored under it, with the spelling of its key. -/
abbrev Contents (K V : Type) := List (List ℤ) → Option (K × V)

/-- **The meaning of the operations.** A live key keeps its spelling; a key that is not
live takes the spelling of the call that adds it. -/
def Contents.step (P : Platform) (cs : CaseSensitivity) (c : Contents K V) :
    MapOp K V → Contents K V × MapResult K V
  | .find key => (c, .found (c (foldKey P cs key)))
  | .erase key =>
    match c (foldKey P cs key) with
    | some _ => (Function.update c (foldKey P cs key) none, .erased 1)
    | none => (c, .erased 0)
  | .emplace key value =>
    match c (foldKey P cs key) with
    | some e => (c, .placed (some e) false)
    | none => (Function.update c (foldKey P cs key) (some (key, value)), .placed (some (key, value)) true)
  | .insertOrAssign key value =>
    match c (foldKey P cs key) with
    | some e => (Function.update c (foldKey P cs key) (some (e.1, value)), .placed (some (e.1, value)) false)
    | none => (Function.update c (foldKey P cs key) (some (key, value)), .placed (some (key, value)) true)

end EdenCommon
