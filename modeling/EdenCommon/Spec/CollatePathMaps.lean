import EdenCommon.Lib.OuterJoin
import EdenCommon.Spec.RawPathMap

/-!
# `collatePathMaps`

The function of `PathMap.h` that collates the entries of two maps by key. An iterator is
the part of its vector from it on.
-/

namespace EdenCommon

variable {K A B : Type} [PathPiece K] (asciiCaseInsensitive : UInt8 → UInt8 → Bool) (P : Platform)
  (caseSensitivity : CaseSensitivity)

namespace RawPathMap

/-- The loop `while (aIt != a.end())`. -/
def collateLeft (result : RawPathMap K (Option A × Option B)) : List (K × A) → RawPathMap K (Option A × Option B)
  | [] => result
  | a :: aIt => collateLeft (result.emplace P a.1 (some a.2, none)).1 aIt

/-- The loop `while (bIt != b.end())`. -/
def collateRight (result : RawPathMap K (Option A × Option B)) : List (K × B) → RawPathMap K (Option A × Option B)
  | [] => result
  | b :: bIt => collateRight (result.emplace P b.1 (none, some b.2)).1 bIt

/-- The loop `while (aIt != a.end() && bIt != b.end())` and the two behind it. -/
def collateBoth (result : RawPathMap K (Option A × Option B)) (aIt : List (K × A)) (bIt : List (K × B)) :
    RawPathMap K (Option A × Option B) :=
  match aIt, bIt with
  | a :: aRest, b :: bRest =>
    if isPathPieceEqual asciiCaseInsensitive P caseSensitivity a.1 b.1 then
      collateBoth (result.emplace P a.1 (some a.2, some b.2)).1 aRest bRest
    else if isPathPieceLess P caseSensitivity a.1 b.1 then
      collateBoth (result.emplace P a.1 (some a.2, none)).1 aRest (b :: bRest)
    else collateBoth (result.emplace P b.1 (none, some b.2)).1 (a :: aRest) bRest
  | aIt, bIt => collateRight P (collateLeft P result aIt) bIt
  termination_by aIt.length + bIt.length

/-- Maps that do not agree are collated without regard to case. -/
def collatePathMaps (a : RawPathMap K A) (b : RawPathMap K B) : RawPathMap K (Option A × Option B) :=
  let caseSensitivity := if a.compare_ = b.compare_ then a.compare_ else .insensitive
  collateBoth asciiCaseInsensitive P caseSensitivity (.new caseSensitivity) a.vec b.vec

end RawPathMap

/-- The vector of a map and its comparator. -/
def PathMap.raw {P : Platform} {cs : CaseSensitivity} {V : Type} (m : PathMap P cs K V) : RawPathMap K V :=
  ⟨m.entries, cs⟩

/-- **What the entry of a class is made of**: the values that the two maps have for it, and
the spelling of the first if it has one. -/
def collatedEntry : Option (K × A) → Option (K × B) → Option (K × (Option A × Option B))
  | none, none => none
  | some a, none => some (a.1, some a.2, none)
  | none, some b => some (b.1, none, some b.2)
  | some a, some b => some (a.1, some a.2, some b.2)

/-- **No key loses its side**: for each key of the two maps the result has an entry equal
to it, whose optional for that map is engaged. -/
def KeepsSides (a : List (K × A)) (b : List (K × B)) (result : List (K × (Option A × Option B))) : Prop :=
  (∀ x ∈ a, ∃ e ∈ result, isPathPieceEqual asciiCaseInsensitive P caseSensitivity e.1 x.1 ∧ e.2.1.isSome) ∧
    ∀ y ∈ b, ∃ e ∈ result, isPathPieceEqual asciiCaseInsensitive P caseSensitivity e.1 y.1 ∧ e.2.2.isSome

/-- The keys in front of the first one equal to `key` are less than it. -/
def LessInFront {V : Type} (entries : List (K × V)) (key : K) : Prop :=
  ∀ w ∈ entries.takeWhile (fun w => !isPathPieceEqual asciiCaseInsensitive P caseSensitivity w.1 key),
    isPathPieceLess P caseSensitivity w.1 key

end EdenCommon
