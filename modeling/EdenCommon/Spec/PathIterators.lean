import EdenCommon.Lib.IteratorRange
import EdenCommon.Spec.Path

/-!
# The iterators over prefixes, components and suffixes of a path

`ComposedPathIterator`, `PathComponentIterator` and `PathSuffixIterator` of `PathFuncs.h`
with the ranges made of them, and the members of the path types that use them.

A path piece is a `std::string_view`, and `ComposedPathIterator` uses the null pointer for
one end of a path, so a view knows whether its data pointer is null. A pointer into a path
is its offset, and `nullptr` is `none`; for `PathSuffixIterator`, whose position is a
`size_t`, `none` is `npos`. `folly::kIsDebug` says whether `XDCHECK` checks.
-/

namespace EdenCommon

/-! ### Views -/

/-- A `std::string_view`. Only an empty view has a null data pointer. -/
structure StringView where
  bytes : Bytes
  isNull : Bool
  null_nil : isNull = true → bytes = []
  deriving DecidableEq

namespace StringView

/-- A view of bytes in memory. -/
def of (s : Bytes) : StringView := ⟨s, false, nofun⟩

/-- `std::string_view{}`. -/
def null : StringView := ⟨[], true, fun _ => rfl⟩

/-- `data()`. -/
def data (v : StringView) : Option ℕ := if v.isNull then none else some 0

/-- `data() + size()`. -/
def dataEnd (v : StringView) : Option ℕ := if v.isNull then none else some v.bytes.length

end StringView

structure RelativePathPiece where
  view : StringView
  deriving DecidableEq

structure AbsolutePathPiece where
  view : StringView
  deriving DecidableEq

/-- `piece()`: the content of a `std::string` is never at the null pointer. -/
def RelativePath.piece (p : RelativePath) : RelativePathPiece := ⟨.of p.path_⟩
def AbsolutePath.piece (p : AbsolutePath) : AbsolutePathPiece := ⟨.of p.path_⟩

/-- `copy()`. -/
def RelativePathPiece.copy (p : RelativePathPiece) : RelativePath := ⟨p.view.bytes⟩
def AbsolutePathPiece.copy (p : AbsolutePathPiece) : AbsolutePath := ⟨p.view.bytes⟩

/-- `RelativePathPiece()`. -/
def RelativePathPiece.default : RelativePathPiece := ⟨.null⟩

/-- The types that `ComposedPathIterator` is instantiated with. -/
class ComposedPiece (Piece : Type) where
  view : Piece → StringView
  /-- The constructor with `SkipPathSanityCheck`. -/
  ofView : StringView → Piece
  /-- `std::is_same_v<Piece, AbsolutePathPiece>`. -/
  isAbsolute : Bool

instance : ComposedPiece RelativePathPiece := ⟨RelativePathPiece.view, RelativePathPiece.mk, false⟩
instance : ComposedPiece AbsolutePathPiece := ⟨AbsolutePathPiece.view, AbsolutePathPiece.mk, true⟩

/-! ### Checks -/

/-- `XCHECK`. -/
def PathError.xcheck (condition : Bool) : Except PathError Unit := if condition then .ok () else .error .checkFailed

/-- `XDCHECK`, which is there in debug builds only. -/
def PathError.xdcheck (kIsDebug condition : Bool) : Except PathError Unit :=
  if kIsDebug && !condition then .error .checkFailed else .ok ()

/-! ### `ComposedPathIterator` -/

section Composed

variable {Piece : Type} [ComposedPiece Piece]

/-- `ComposedPathIterator::pos_`. -/
abbrev ComposedPosition := Option ℕ

namespace ComposedPathIterator

/-- `pathBegin()`: behind the root of an absolute path. Without its check, the pointer
would be beyond the path. -/
def pathBegin (P : Platform) (path : Piece) : Except PathError ComposedPosition :=
  if ComposedPiece.isAbsolute Piece then do
    PathError.xcheck ((kRootStr P).length ≤ (ComposedPiece.view path).bytes.length)
    pure ((ComposedPiece.view path).data.map (· + (kRootStr P).length))
  else pure (ComposedPiece.view path).data

/-- The loop of `retreat`: from the byte in front of `pos` back to a separator, or to
`stopPos`. -/
def scanBackTo (P : Platform) (view : Bytes) (stopPos pos : ℕ) : ℕ :=
  ComponentIterator.scanBack P view (stopPos + 1) pos - 1

/-- `advance()`. -/
def advance (P : Platform) (isReverse : Bool) (path : Piece) (pos_ : ComposedPosition) :
    Except PathError ComposedPosition :=
  let view := ComposedPiece.view path
  match isReverse, pos_ with
  | true, none => pathBegin P path
  | true, some pos => do
    PathError.xcheck (some pos ≠ view.dataEnd)
    pure (some (scanSeparator P view.bytes (pos + 1)))
  | false, none => .error .checkFailed
  | false, some pos =>
    if some pos = view.dataEnd then pure none else pure (some (scanSeparator P view.bytes (pos + 1)))

/-- `retreat()`. -/
def retreat (P : Platform) (isReverse : Bool) (path : Piece) (pos_ : ComposedPosition) :
    Except PathError ComposedPosition := do
  let view := ComposedPiece.view path
  let stopPos ← pathBegin P path
  match isReverse, pos_ with
  | true, none => .error .checkFailed
  | true, some pos =>
    if pos ≤ stopPos.getD 0 then pure none
    else pure (some (scanBackTo P view.bytes (stopPos.getD 0) pos))
  | false, none => pure view.dataEnd
  | false, some pos => do
    PathError.xcheck (some pos ≠ stopPos)
    pure (some (scanBackTo P view.bytes (stopPos.getD 0) pos))

def piece (path : Piece) (pos_ : ComposedPosition) : Except PathError Piece :=
  match pos_ with
  | none => .error .checkFailed
  | some pos => .ok (ComposedPiece.ofView (.of ((ComposedPiece.view path).bytes.take pos)))

def remainder (path : Piece) (pos_ : ComposedPosition) : Except PathError RelativePathPiece :=
  match pos_ with
  | none => .error .checkFailed
  | some pos =>
    if pos < (ComposedPiece.view path).bytes.length then
      .ok ⟨.of ((ComposedPiece.view path).bytes.drop (pos + 1))⟩
    else .ok .default

/-- A range of `ComposedPathIterator<Piece, IsReverse>`. -/
def range (P : Platform) (isReverse : Bool) (path : Piece) (begin_ end_ : ComposedPosition) :
    Lib.IteratorRange PathError ComposedPosition Piece where
  begin_ := begin_
  end_ := end_
  next := if isReverse then retreat P isReverse path else advance P isReverse path
  prev := if isReverse then advance P isReverse path else retreat P isReverse path
  deref := piece path

end ComposedPathIterator

end Composed

/-- A range of prefixes. -/
abbrev PrefixRange (Piece : Type) := Lib.IteratorRange PathError ComposedPosition Piece

open ComposedPathIterator

namespace RelativePathPiece

def allPaths (P : Platform) (p : RelativePathPiece) : Except PathError (PrefixRange RelativePathPiece) := do
  let first ← pathBegin P p
  pure (range P false p first none)

/-- The first iterator is moved on once when the range is made. -/
def paths (P : Platform) (p : RelativePathPiece) : Except PathError (PrefixRange RelativePathPiece) := do
  let first ← pathBegin P p
  let first ← advance P false p first
  pure (range P false p first none)

def rpaths (P : Platform) (p : RelativePathPiece) : PrefixRange RelativePathPiece :=
  range P true p p.view.dataEnd p.view.data

def rallPaths (P : Platform) (p : RelativePathPiece) : PrefixRange RelativePathPiece :=
  range P true p p.view.dataEnd none

end RelativePathPiece

namespace AbsolutePathPiece

def paths (P : Platform) (p : AbsolutePathPiece) : Except PathError (PrefixRange AbsolutePathPiece) := do
  let first ← pathBegin P p
  pure (range P false p first none)

def rpaths (P : Platform) (p : AbsolutePathPiece) : PrefixRange AbsolutePathPiece :=
  range P true p p.view.dataEnd none

end AbsolutePathPiece

/-! ### `PathComponentIterator` -/

namespace ComponentIterator

/-- `advance()` with its check. -/
def advanceChecked (P : Platform) (kIsDebug : Bool) (view : Bytes) (it : ComponentIterator) :
    Except PathError ComponentIterator := do
  PathError.xdcheck kIsDebug (it.start_ ≠ view.length)
  pure (it.advance P view)

/-- `retreat()` with its check. -/
def retreatChecked (P : Platform) (kIsDebug : Bool) (view : Bytes) (pathBegin : ℕ) (it : ComponentIterator) :
    Except PathError ComponentIterator := do
  PathError.xdcheck kIsDebug (it.end_ ≠ pathBegin)
  pure (it.retreat P view pathBegin)

/-- `components()` of a view whose first component begins at `pathBegin`. -/
def components (P : Platform) (kIsDebug : Bool) (view : Bytes) (pathBegin : ℕ) :
    Lib.IteratorRange PathError ComponentIterator Bytes where
  begin_ := .begin_ P view pathBegin
  end_ := .atEnd view
  next := advanceChecked P kIsDebug view
  prev := retreatChecked P kIsDebug view pathBegin
  deref it := .ok (it.piece view)

/-- `rcomponents()` of a view whose first component begins at `pathBegin`. -/
def rcomponents (P : Platform) (kIsDebug : Bool) (view : Bytes) (pathBegin : ℕ) :
    Lib.IteratorRange PathError ComponentIterator Bytes where
  begin_ := .rbegin P view pathBegin
  end_ := .rend pathBegin
  next := retreatChecked P kIsDebug view pathBegin
  prev := advanceChecked P kIsDebug view
  deref it := .ok (it.piece view)

end ComponentIterator

/-- Where `PathComponentIterator` begins. -/
def componentsBegin (P : Platform) (Piece : Type) [ComposedPiece Piece] : ℕ :=
  if ComposedPiece.isAbsolute Piece then (kRootStr P).length else 0

/-! ### `PathSuffixIterator` -/

/-- `std::string_view::find` of one character from `start` on. -/
def findFrom (c : UInt8) (str : Bytes) (start : ℕ) : Option ℕ := (find c (str.drop start)).map (start + ·)

/-- `findPathSeparator(str, start)`. -/
def findPathSeparatorFrom (P : Platform) (str : Bytes) (start : ℕ) : Option ℕ :=
  let index := findFrom kDirSeparator str start
  if P.kIsWindows then
    match findFrom kWinDirSeparator str start, index with
    | some winIndex, none => some winIndex
    | some winIndex, some index => some (min index winIndex)
    | none, index => index
  else index

/-- `PathSuffixIterator::start_`, with `none` for `npos`. -/
abbrev SuffixPosition := Option ℕ

namespace PathSuffixIterator

/-- `advance()`. `npos` is the largest `size_t`, so the check refuses it. -/
def advance (P : Platform) (kIsDebug : Bool) (path : Bytes) (start_ : SuffixPosition) :
    Except PathError SuffixPosition := do
  PathError.xdcheck kIsDebug (start_.any (· < path.length))
  match start_ with
  | none => pure (some 0)
  | some start =>
    match findPathSeparatorFrom P path (start + 1) with
    | none => pure (some path.length)
    | some next => pure (some (next + 1))

/-- `retreat()`. -/
def retreat (P : Platform) (kIsDebug : Bool) (path : Bytes) (start_ : SuffixPosition) :
    Except PathError SuffixPosition := do
  PathError.xdcheck kIsDebug start_.isSome
  match start_ with
  | none => .error .outOfBounds
  | some 0 => pure none
  | some (start + 1) =>
    match rfindPathSeparator P (path.take start) with
    | none => pure (some 0)
    | some next => pure (some (next + 1))

/-- `piece()`; `substr` throws if it starts beyond the end. -/
def piece (path : Bytes) (start_ : SuffixPosition) : Except PathError RelativePathPiece :=
  match start_ with
  | none => .error .outOfBounds
  | some start => if start ≤ path.length then .ok ⟨.of (path.drop start)⟩ else .error .outOfBounds

/-- `createRange` without `IsReverse`. -/
def suffixes (P : Platform) (kIsDebug : Bool) (path : Bytes) :
    Lib.IteratorRange PathError SuffixPosition RelativePathPiece where
  begin_ := some 0
  end_ := some path.length
  next := advance P kIsDebug path
  prev := retreat P kIsDebug path
  deref := piece path

/-- `createRange` with `IsReverse`; the first iterator is moved on once. -/
def rsuffixes (P : Platform) (kIsDebug : Bool) (path : Bytes) :
    Except PathError (Lib.IteratorRange PathError SuffixPosition RelativePathPiece) := do
  let first ← retreat P kIsDebug path (some path.length)
  pure { begin_ := first, end_ := none, next := retreat P kIsDebug path, prev := advance P kIsDebug path,
         deref := piece path }

end PathSuffixIterator

/-- The bytes that the suffixes of a path are suffixes of: an absolute path is stripped of
its root. -/
def suffixView (P : Platform) {Piece : Type} [ComposedPiece Piece] (p : Piece) : Bytes :=
  (ComposedPiece.view p).bytes.drop (componentsBegin P Piece)

/-! ### Members that use the iterators -/

namespace RelativePathPiece

/-- `findParent`: an iterator of `allPaths()`. -/
def findParent (P : Platform) (this parent : RelativePathPiece) : Except PathError ComposedPosition := do
  let path := this.view.bytes
  let parentPiece := parent.view.bytes
  let all ← this.allPaths P
  if path.length ≤ parentPiece.length then pure all.end_
  else if parentPiece = [] then pure all.begin_
  else
    match path[parentPiece.length]? with
    | none => .error .outOfBounds
    | some c =>
      if !isDirSeparator P c then pure all.end_
      else if path.take parentPiece.length ≠ parentPiece then pure all.end_
      else pure (this.view.data.map (· + parentPiece.length))

def isSubDirOf (P : Platform) (this other : RelativePathPiece) : Except PathError Bool := do
  let it ← this.findParent P other
  let all ← this.allPaths P
  pure (it ≠ all.end_)

def isParentDirOf (P : Platform) (this other : RelativePathPiece) : Except PathError Bool := do
  let it ← other.findParent P this
  let all ← other.allPaths P
  pure (it ≠ all.end_)

def filename (P : Platform) (kIsDebug : Bool) (this : RelativePathPiece) : Except PathError RelativePathPiece :=
  if this.view.bytes = [] then .ok this
  else do
    let rIterator ← PathSuffixIterator.rsuffixes P kIsDebug this.view.bytes
    rIterator.deref rIterator.begin_

/-- `RelativePathPiece(std::string_view)`, which checks; `after` is the mapped memory
behind the view. -/
def checked (P : Platform) (view : StringView) (after : Bytes) : Except PathError RelativePathPiece := do
  relativePathSanityCheck P view.bytes after
  pure ⟨view⟩

/-- `stem`, with `after` the mapped memory behind the path. -/
def stem (P : Platform) (kIsDebug : Bool) (this : RelativePathPiece) (after : Bytes) :
    Except PathError RelativePathPiece := do
  let filename := (← this.filename P kIsDebug).view
  match rfind 0x2E filename.bytes with
  | some 0 => checked P filename after
  | some lastPeriod => checked P (.of (filename.bytes.take lastPeriod)) (filename.bytes.drop lastPeriod ++ after)
  | none => checked P filename after

end RelativePathPiece

/-- `splitFirst`, with the views it returns. -/
def splitFirstPiece (P : Platform) (path : RelativePathPiece) (after : Bytes) :
    Except PathError (PathComponent × RelativePathPiece) :=
  let piece := path.view.bytes
  match findPathSeparator P piece with
  | some dirSeparator => do
    pathComponentSanityCheck P (piece.take dirSeparator) (piece.drop dirSeparator ++ after)
    let rest ← RelativePathPiece.checked P (.of (piece.drop (dirSeparator + 1))) after
    pure (⟨piece.take dirSeparator⟩, rest)
  | none => do
    pathComponentSanityCheck P piece after
    pure (⟨piece⟩, .default)

end EdenCommon
