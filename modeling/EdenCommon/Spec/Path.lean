import EdenCommon.Spec.Utf8

/-!
# Path types

The path types of `PathFuncs.h`: their sanity checks, component iterators, prefix
iterators and the `+` operators. A path is its bytes. The constructors that take
`SkipPathSanityCheck` build a value from any bytes, so the types carry no invariant
of their own; `Valid` says that the sanity check of the type accepts the bytes.

A pointer into a path is its offset, and `nullptr` is `none`. `folly::kIsWindows` is
the argument `P`. An exception is a `PathError`; so are a failed `XCHECK`, which
aborts, and a read beyond the mapped memory.
-/

namespace EdenCommon

/-- The platform constant `folly::kIsWindows`. -/
inductive Platform
  | posix
  | windows
  deriving DecidableEq, Repr

def Platform.kIsWindows : Platform → Bool
  | .posix => false
  | .windows => true

def kDirSeparator : UInt8 := 0x2F
def kWinDirSeparator : UInt8 := 0x5C
def kUNCPrefix : Bytes := [0x5C, 0x5C, 0x3F, 0x5C]

/-- The components `.` and `..`. -/
def dot : Bytes := [0x2E]
def dotDot : Bytes := [0x2E, 0x2E]

def kAbsDirSeparator (P : Platform) : UInt8 := if P.kIsWindows then kWinDirSeparator else kDirSeparator

def kRootStr (P : Platform) : Bytes := if P.kIsWindows then kUNCPrefix else [kDirSeparator]

def isDirSeparator (P : Platform) (c : UInt8) : Bool :=
  c == kDirSeparator || (P.kIsWindows && c == kWinDirSeparator)

/-- The ways a path operation fails. -/
inductive PathError
  | componentContainsDirectorySeparator (val : Bytes)
  | componentContainsNul (val : Bytes)
  | componentEmpty
  | componentDot
  | componentDotDot
  | componentNotUtf8 (val : Bytes)
  | relativeFromAbsolute (val : Bytes)
  | relativeTrailingSlash (val : Bytes)
  | absoluteFromNonAbsolute (val : Bytes)
  | absoluteTrailingSlash (val : Bytes)
  | shouldBeUnder (child base : Bytes)
  | notPrefix (base child : Bytes)
  | getcwdFailed
  | checkFailed
  | outOfBounds
  deriving DecidableEq, Repr

/-- The text of an exception: literal text and the paths it quotes. -/
def PathError.what : PathError → List (String ⊕ Bytes)
  | .componentContainsDirectorySeparator val =>
    [.inl "attempt to construct a PathComponent from a string containing a directory separator: ", .inr val]
  | .componentContainsNul val =>
    [.inl "attempt to construct a PathComponent from a string containing a nul byte: ", .inr val]
  | .componentEmpty => [.inl "cannot have an empty PathComponent"]
  | .componentDot => [.inl "PathComponent must not be ."]
  | .componentDotDot => [.inl "PathComponent must not be .."]
  | .componentNotUtf8 val => [.inl "attempt to construct a PathComponent from non valid UTF8 data: ", .inr val]
  | .relativeFromAbsolute val =>
    [.inl "attempt to construct a RelativePath from an absolute path string: ", .inr val]
  | .relativeTrailingSlash val => [.inl "RelativePath must not end with a slash: ", .inr val]
  | .absoluteFromNonAbsolute val =>
    [.inl "attempt to construct an AbsolutePath from a non-absolute string: \"", .inr val, .inl "\""]
  | .absoluteTrailingSlash val => [.inl "AbsolutePath must not end with a slash: ", .inr val]
  | .shouldBeUnder child base => [.inr child, .inl " should be under ", .inr base]
  | .notPrefix base child => [.inr base, .inl " does not seem to be a prefix of ", .inr child]
  | .getcwdFailed => [.inl "getcwd() failed"]
  | .checkFailed => []
  | .outOfBounds => []

/-- The error is an exception, and no crash. -/
def PathError.Thrown (e : PathError) : Prop := e ≠ .checkFailed ∧ e ≠ .outOfBounds

/-! ### Sanity checks

Each check takes the string and the mapped memory behind it, which `isValidUtf8` may
read. -/

/-- The loop of `PathComponentSanityCheck` over the characters. -/
def checkComponentChars (P : Platform) (val : Bytes) : Bytes → Except PathError Unit
  | [] => .ok ()
  | c :: cs =>
    if isDirSeparator P c then .error (.componentContainsDirectorySeparator val)
    else if c = 0 then .error (.componentContainsNul val)
    else checkComponentChars P val cs

def pathComponentSanityCheck (P : Platform) (val after : Bytes) : Except PathError Unit := do
  checkComponentChars P val val
  if val = [] then throw .componentEmpty
  if val = dot then throw .componentDot
  if val = dotDot then throw .componentDotDot
  match isValidUtf8 val after with
  | some true => pure ()
  | some false => throw (.componentNotUtf8 val)
  | none => throw .outOfBounds

/-- `ComposedPathSanityCheck::nextSeparator`. -/
def nextSeparator (P : Platform) (val : Bytes) (start : ℕ) (pathSeparator : Option UInt8) : Option ℕ :=
  ((val.drop start).findIdx? fun c =>
    match pathSeparator with
    | some sep => c == sep
    | none => isDirSeparator P c).map (start + ·)

/-- The loop of `ComposedPathSanityCheck` from `start` on. `start` grows in every
turn, so the length of `val` bounds the turns. -/
def composedPathLoop (P : Platform) (val after : Bytes) (pathSeparator : Option UInt8) :
    ℕ → ℕ → Except PathError Unit
  | 0, _ => .error .checkFailed
  | fuel + 1, start =>
    match nextSeparator P val start pathSeparator with
    | none => pathComponentSanityCheck P (val.drop start) after
    | some next => do
      pathComponentSanityCheck P ((val.drop start).take (next - start)) (val.drop next ++ after)
      composedPathLoop P val after pathSeparator fuel (next + 1)

def composedPathSanityCheck (P : Platform) (val after : Bytes) (pathSeparator : Option UInt8) :
    Except PathError Unit :=
  composedPathLoop P val after pathSeparator (val.length + 1) 0

def relativePathSanityCheck (P : Platform) (val after : Bytes) : Except PathError Unit :=
  match val.head?, val.getLast? with
  | some first, some last =>
    if isDirSeparator P first then .error (.relativeFromAbsolute val)
    else if isDirSeparator P last then .error (.relativeTrailingSlash val)
    else composedPathSanityCheck P val after none
  | _, _ => .ok ()

def absolutePathSanityCheck (P : Platform) (val after : Bytes) : Except PathError Unit :=
  let offset := (kRootStr P).length
  if !(kRootStr P).isPrefixOf val then .error (.absoluteFromNonAbsolute val)
  else if 1 < val.length ∧ val.getLast? = some kDirSeparator then .error (.absoluteTrailingSlash val)
  else if offset < val.length then
    composedPathSanityCheck P (val.drop offset) after (some (kAbsDirSeparator P))
  else .ok ()

/-! ### The types -/

/-- A name within a directory. -/
structure PathComponent where
  path_ : Bytes
  deriving DecidableEq, Repr

/-- Any number of components, separated. -/
structure RelativePath where
  path_ : Bytes
  deriving DecidableEq, Repr

/-- An absolute path. -/
structure AbsolutePath where
  path_ : Bytes
  deriving DecidableEq, Repr

/-- The value passes the sanity check of its type. -/
def PathComponent.Valid (P : Platform) (c : PathComponent) : Prop :=
  pathComponentSanityCheck P c.path_ nulTerminator = .ok ()

def RelativePath.Valid (P : Platform) (r : RelativePath) : Prop :=
  relativePathSanityCheck P r.path_ nulTerminator = .ok ()

def AbsolutePath.Valid (P : Platform) (a : AbsolutePath) : Prop :=
  absolutePathSanityCheck P a.path_ nulTerminator = .ok ()

instance decidableOk {ε : Type} : (r : Except ε Unit) → Decidable (r = .ok ())
  | .ok () => isTrue rfl
  | .error _ => isFalse fun h => nomatch h

instance (P : Platform) (c : PathComponent) : Decidable (c.Valid P) := decidableOk _

instance (P : Platform) (r : RelativePath) : Decidable (r.Valid P) := decidableOk _

instance (P : Platform) (a : AbsolutePath) : Decidable (a.Valid P) := decidableOk _

/-- `AbsolutePath{}`, the root. -/
def AbsolutePath.root (P : Platform) : AbsolutePath := ⟨kRootStr P⟩

/-! ### Component iterators -/

/-- The first position at or after `pos` that holds a separator, or the end. -/
def scanSeparator (P : Platform) (view : Bytes) (pos : ℕ) : ℕ :=
  pos + ((view.drop pos).takeWhile fun c => !isDirSeparator P c).length

/-- `PathComponentIterator<false>`: the component `[start, end)` of the view. -/
structure ComponentIterator where
  start_ : ℕ
  end_ : ℕ
  deriving DecidableEq, Repr

namespace ComponentIterator

def begin_ (P : Platform) (view : Bytes) (pathBegin : ℕ) : ComponentIterator :=
  ⟨pathBegin, scanSeparator P view pathBegin⟩

/-- The constructor with `END`. -/
def atEnd (view : Bytes) : ComponentIterator := ⟨view.length, view.length⟩

def advance (P : Platform) (view : Bytes) (it : ComponentIterator) : ComponentIterator :=
  if it.end_ = view.length then ⟨it.end_, it.end_⟩
  else ⟨it.end_ + 1, scanSeparator P view (it.end_ + 1)⟩

def piece (view : Bytes) (it : ComponentIterator) : Bytes := (view.drop it.start_).take (it.end_ - it.start_)

/-- The pieces visited from `it` to the end; each `++` moves `start_` right. -/
def collect (P : Platform) (view : Bytes) : ℕ → ComponentIterator → List Bytes
  | 0, _ => []
  | fuel + 1, it => if it = atEnd view then [] else it.piece view :: collect P view fuel (it.advance P view)

/-! `PathComponentIterator<true>` has the same fields and walks from the back. -/

/-- Back up from `pos` to just after the last separator in front of it, or to `pathBegin`. -/
def scanBack (P : Platform) (view : Bytes) (pathBegin pos : ℕ) : ℕ :=
  pos - (((view.take pos).drop pathBegin).reverse.takeWhile fun c => !isDirSeparator P c).length

def rbegin (P : Platform) (view : Bytes) (pathBegin : ℕ) : ComponentIterator :=
  ⟨scanBack P view pathBegin view.length, view.length⟩

/-- The reverse constructor with `END`. -/
def rend (pathBegin : ℕ) : ComponentIterator := ⟨pathBegin, pathBegin⟩

def retreat (P : Platform) (view : Bytes) (pathBegin : ℕ) (it : ComponentIterator) : ComponentIterator :=
  if it.start_ = pathBegin then ⟨it.start_, pathBegin⟩
  else ⟨scanBack P view pathBegin (it.start_ - 1), it.start_ - 1⟩

/-- The pieces visited from `it` to `rend`; each `++` moves `end_` left. -/
def rcollect (P : Platform) (view : Bytes) (pathBegin : ℕ) : ℕ → ComponentIterator → List Bytes
  | 0, _ => []
  | fuel + 1, it =>
    if it = rend pathBegin then []
    else it.piece view :: rcollect P view pathBegin fuel (it.retreat P view pathBegin)

end ComponentIterator

/-- `components()` of a view whose first component begins at `pathBegin`. -/
def componentsOf (P : Platform) (view : Bytes) (pathBegin : ℕ) : List Bytes :=
  ComponentIterator.collect P view (view.length + 1) (.begin_ P view pathBegin)

def RelativePath.components (P : Platform) (r : RelativePath) : List Bytes := componentsOf P r.path_ 0

def AbsolutePath.components (P : Platform) (a : AbsolutePath) : List Bytes :=
  componentsOf P a.path_ (kRootStr P).length

/-- `rcomponents()` of a view whose first component begins at `pathBegin`. -/
def rcomponentsOf (P : Platform) (view : Bytes) (pathBegin : ℕ) : List Bytes :=
  ComponentIterator.rcollect P view pathBegin (view.length + 1) (.rbegin P view pathBegin)

def RelativePath.rcomponents (P : Platform) (r : RelativePath) : List Bytes := rcomponentsOf P r.path_ 0

def AbsolutePath.rcomponents (P : Platform) (a : AbsolutePath) : List Bytes :=
  rcomponentsOf P a.path_ (kRootStr P).length

/-! ### `dirname` and `basename` -/

/-- `std::string_view::rfind` of one character. -/
def rfind (c : UInt8) : Bytes → Option ℕ
  | [] => none
  | x :: xs =>
    match rfind c xs with
    | some i => some (i + 1)
    | none => if x = c then some 0 else none

def rfindPathSeparator (P : Platform) (str : Bytes) : Option ℕ :=
  let index := rfind kDirSeparator str
  if P.kIsWindows then
    match rfind kWinDirSeparator str, index with
    | some winIndex, none => some winIndex
    | some winIndex, some index => some (max index winIndex)
    | none, index => index
  else index

/-- `dirname(std::string_view)`. -/
def dirnameOf (P : Platform) (path : Bytes) : Bytes :=
  match rfindPathSeparator P path with
  | some dirSeparator => path.take dirSeparator
  | none => []

/-- `basename(std::string_view)`. -/
def basenameOf (P : Platform) (path : Bytes) : Bytes :=
  match rfindPathSeparator P path with
  | some dirSeparator => path.drop (dirSeparator + 1)
  | none => path

def AbsolutePath.basename (P : Platform) (a : AbsolutePath) : PathComponent := ⟨basenameOf P a.path_⟩
def AbsolutePath.dirname (P : Platform) (a : AbsolutePath) : AbsolutePath := ⟨dirnameOf P a.path_⟩
def RelativePath.basename (P : Platform) (r : RelativePath) : PathComponent := ⟨basenameOf P r.path_⟩
def RelativePath.dirname (P : Platform) (r : RelativePath) : RelativePath := ⟨dirnameOf P r.path_⟩

/-! ### Composition -/

/-- `fmt::join(parts, sep)` with a one-character separator. -/
def joinWith (sep : UInt8) (parts : List Bytes) : Bytes := [sep].intercalate parts

def RelativePath.ofComponent (c : PathComponent) : RelativePath := ⟨c.path_⟩

/-- `RelativePath(begin, end)` over a range of `PathComponent`s, which are not checked
again; the separator is the slash on every platform. -/
def RelativePath.ofRange (components : List PathComponent) : RelativePath :=
  ⟨joinWith kDirSeparator (components.map PathComponent.path_)⟩

/-- `AbsolutePath + RelativePath`. -/
def AbsolutePath.add (P : Platform) (a : AbsolutePath) (b : RelativePath) : AbsolutePath :=
  if b.path_ = [] then a
  else if a.path_ = kRootStr P then ⟨a.path_ ++ b.path_⟩
  else ⟨a.path_ ++ kAbsDirSeparator P :: joinWith (kAbsDirSeparator P) (b.components P)⟩

/-- `AbsolutePath + PathComponent`. -/
def AbsolutePath.addComponent (P : Platform) (a : AbsolutePath) (c : PathComponent) : AbsolutePath :=
  a.add P (.ofComponent c)

/-- `RelativePath + RelativePath`. -/
def RelativePath.add (a b : RelativePath) : RelativePath :=
  if a.path_ = [] then b else if b.path_ = [] then a else ⟨a.path_ ++ kDirSeparator :: b.path_⟩

/-- `RelativePath + PathComponent`. -/
def RelativePath.addComponent (a : RelativePath) (c : PathComponent) : RelativePath := a.add (.ofComponent c)

/-! ### Prefix iterators and `relativize` -/

/-- `operator==` of absolute paths, by components on Windows. -/
def AbsolutePath.eq (P : Platform) (a b : AbsolutePath) : Bool :=
  if P.kIsWindows then a.components P == b.components P else a.path_ == b.path_

/-- `operator==` of relative paths. -/
def RelativePath.eq (P : Platform) (a b : RelativePath) : Bool :=
  if P.kIsWindows then a.components P == b.components P else a.path_ == b.path_

/-- `ComposedPathIterator<AbsolutePathPiece, false>`: a position in the path, `none`
for `nullptr`, which is also the end of `paths()`. -/
abbrev PrefixIterator := Option ℕ

namespace PrefixIterator

/-- `paths().begin()`: behind the root. -/
def begin_ (P : Platform) : PrefixIterator := some (kRootStr P).length

/-- `operator++`. -/
def advance (P : Platform) (path : Bytes) : PrefixIterator → Except PathError PrefixIterator
  | none => .error .checkFailed
  | some pos => .ok (if pos = path.length then none else some (scanSeparator P path (pos + 1)))

def piece (path : Bytes) : PrefixIterator → Except PathError AbsolutePath
  | none => .error .checkFailed
  | some pos => .ok ⟨path.take pos⟩

def remainder (path : Bytes) : PrefixIterator → Except PathError RelativePath
  | none => .error .checkFailed
  | some pos => .ok (if pos < path.length then ⟨path.drop (pos + 1)⟩ else ⟨[]⟩)

end PrefixIterator

/-- The loop of `relativize`. `myIter` moves right in every turn, so the length of
the path bounds the turns. -/
def relativizeLoop (P : Platform) (this child : AbsolutePath) :
    ℕ → PrefixIterator → PrefixIterator → Except PathError RelativePath
  | 0, _, _ => .error .checkFailed
  | fuel + 1, myIter, childIter => do
    if childIter = none then throw (.shouldBeUnder child.path_ this.path_)
    let mine ← PrefixIterator.piece this.path_ myIter
    let its ← PrefixIterator.piece child.path_ childIter
    if !mine.eq P its then throw (.notPrefix this.path_ child.path_)
    let myIter ← PrefixIterator.advance P this.path_ myIter
    if myIter = none then PrefixIterator.remainder child.path_ childIter
    else
      let childIter ← PrefixIterator.advance P child.path_ childIter
      relativizeLoop P this child fuel myIter childIter

def AbsolutePath.relativize (P : Platform) (this child : AbsolutePath) : Except PathError RelativePath :=
  relativizeLoop P this child (this.path_.length + 1) (.begin_ P) (.begin_ P)

/-! ### `splitFirst` -/

/-- `std::string_view::find` of one character. -/
def find (c : UInt8) (str : Bytes) : Option ℕ := str.findIdx? (· == c)

def findPathSeparator (P : Platform) (str : Bytes) : Option ℕ :=
  let index := find kDirSeparator str
  if P.kIsWindows then
    match find kWinDirSeparator str, index with
    | some winIndex, none => some winIndex
    | some winIndex, some index => some (min index winIndex)
    | none, index => index
  else index

/-- `splitFirst`, with `after` the mapped memory behind the path. Both pieces are
constructed with their sanity checks. -/
def splitFirst (P : Platform) (path : RelativePath) (after : Bytes) :
    Except PathError (PathComponent × RelativePath) :=
  match findPathSeparator P path.path_ with
  | some dirSeparator => do
    pathComponentSanityCheck P (path.path_.take dirSeparator) (path.path_.drop dirSeparator ++ after)
    relativePathSanityCheck P (path.path_.drop (dirSeparator + 1)) after
    pure (⟨path.path_.take dirSeparator⟩, ⟨path.path_.drop (dirSeparator + 1)⟩)
  | none => do
    pathComponentSanityCheck P path.path_ after
    pure (⟨path.path_⟩, ⟨[]⟩)

end EdenCommon
