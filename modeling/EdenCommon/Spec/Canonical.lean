import EdenCommon.Spec.Path

/-!
# `canonicalPath` and `joinAndNormalize`

The scanner and the stack of `canonicalPathData` in `PathFuncs.cpp`, and the three
functions built on it. A `std::string_view` into the scanned path is its bytes; the
one place where the code compares pointers, `component.begin() == path.begin()`, is
the offset test `componentStart = 0`.
-/

namespace EdenCommon

structure CanonicalData where
  components : List Bytes
  isAbsolute : Bool
  deriving DecidableEq, Repr

def startsWithUNC (P : Platform) (path : Bytes) : Bool := P.kIsWindows && kUNCPrefix.isPrefixOf path

/-- `std::isalpha` in the C locale. -/
def isAlpha (c : UInt8) : Bool := (0x41 ≤ c && c ≤ 0x5A) || (0x61 ≤ c && c ≤ 0x7A)

/-- What `processSlash` does with the component it has cut out; `atStart` says that
the component begins where the path begins. -/
def pushComponent (P : Platform) (atStart : Bool) (data : CanonicalData) (component : Bytes) : CanonicalData :=
  if component = [] then
    if atStart then { data with isAbsolute := true } else data
  else if component = dot then data
  else if component = dotDot then
    match data.components.getLast? with
    | none => if data.isAbsolute then data else { data with components := [component] }
    | some back =>
      if back ≠ dotDot then { data with components := data.components.dropLast } else data
  else
    -- drive letter paths are absolute on Windows
    let isDrive := match component with
      | [letter, colon] => isAlpha letter && colon == 0x3A
      | _ => false
    { components := data.components ++ [component]
      isAbsolute := data.isAbsolute || (P.kIsWindows && atStart && isDrive) }

/-- The variables of the scan. -/
structure ScanState where
  data : CanonicalData
  componentStart : ℕ

/-- The lambda `processSlash`. -/
def processSlash (P : Platform) (path : Bytes) (s : ScanState) (stop : ℕ) : ScanState :=
  let component := (path.drop s.componentStart).take (stop - s.componentStart)
  { data := pushComponent P (s.componentStart = 0) s.data component, componentStart := stop + 1 }

/-- The `for` loop over the characters from position `p` on. -/
def scanPath (P : Platform) (path : Bytes) : Bytes → ℕ → ScanState → ScanState
  | [], _, s => s
  | c :: rest, p, s => scanPath P path rest (p + 1) (if isDirSeparator P c then processSlash P path s p else s)

/-- `canonicalPathData` after the UNC prefix has been taken off. -/
def scanData (P : Platform) (path : Bytes) (isAbsolute : Bool) : CanonicalData :=
  let s := scanPath P path path 0 ⟨⟨[], isAbsolute⟩, 0⟩
  if s.componentStart ≠ path.length then (processSlash P path s path.length).data else s.data

def canonicalPathData (P : Platform) (path : Bytes) : CanonicalData :=
  if startsWithUNC P path then scanData P (path.drop kUNCPrefix.length) true else scanData P path false

/-- The lambda `makeAbsolutePath`. -/
def makeAbsolutePath (P : Platform) (parts : List Bytes) : Except PathError AbsolutePath :=
  if parts = [] then .ok (.root P)
  else do
    let value := kRootStr P ++ joinWith (kAbsDirSeparator P) parts
    absolutePathSanityCheck P value nulTerminator
    pure ⟨value⟩

/-- The loop of `canonicalPathImpl` over the components of a relative path. -/
def resolveOnto (base : List Bytes) : List Bytes → List Bytes
  | [] => base
  | c :: rest => if c = dotDot then resolveOnto base.dropLast rest else base ++ c :: rest

/-- `canonicalPathImpl`. The result of `getcwd()`, consulted only for a relative path
without a base, is a parameter. -/
def canonicalPathImpl (P : Platform) (getcwd : Except PathError AbsolutePath) (path : Bytes)
    (base : Option AbsolutePath) : Except PathError AbsolutePath := do
  let canon := canonicalPathData P path
  if canon.isAbsolute then makeAbsolutePath P canon.components
  else
    let baseCanon ← match base with
      | none => do
        let cwd ← getcwd
        pure (canonicalPathData P cwd.path_)
      | some b => pure (canonicalPathData P b.path_)
    makeAbsolutePath P (resolveOnto baseCanon.components canon.components)

/-- `canonicalPath(path)`. -/
def canonicalPath (P : Platform) (getcwd : Except PathError AbsolutePath) (path : Bytes) :
    Except PathError AbsolutePath := canonicalPathImpl P getcwd path none

/-- `canonicalPath(path, base)`. -/
def canonicalPathFrom (P : Platform) (getcwd : Except PathError AbsolutePath) (path : Bytes)
    (base : AbsolutePath) : Except PathError AbsolutePath := canonicalPathImpl P getcwd path (some base)

/-! ### Paths in Thrift -/

def AbsolutePath.viewWithoutUNC (P : Platform) (a : AbsolutePath) : Bytes :=
  if P.kIsWindows then a.path_.drop kUNCPrefix.length else a.path_

def absolutePathToThrift (P : Platform) (path : AbsolutePath) : Bytes := path.viewWithoutUNC P

def absolutePathFromThrift (P : Platform) (getcwd : Except PathError AbsolutePath) (path : Bytes) :
    Except PathError AbsolutePath := canonicalPath P getcwd path

/-- A drive letter and its colon. -/
def isDriveLetter : Bytes → Bool
  | [letter, colon] => isAlpha letter && colon == 0x3A
  | _ => false

/-! ### Joining -/

/-- The error numbers of `joinAndNormalize`. -/
inductive Errno
  | EPERM
  | EXDEV
  deriving DecidableEq, Repr

/-- `PathComponentPiece{*begin}` for each component in turn; a component is a view
into a `std::string` and is followed there by a separator or by the NUL. -/
def checkComponents (P : Platform) : List Bytes → Except PathError Unit
  | [] => .ok ()
  | c :: rest => do
    pathComponentSanityCheck P c nulTerminator
    checkComponents P rest

/-- `RelativePath{begin, end}`. -/
def RelativePath.ofComponents (P : Platform) (parts : List Bytes) : Except PathError RelativePath := do
  checkComponents P parts
  pure ⟨joinWith kDirSeparator parts⟩

/-- The string `joined` of `joinAndNormalize`. -/
def joinedPath (base : RelativePath) (path : Bytes) : Bytes :=
  if base.path_ = [] then path
  else if path = [] then base.path_
  else base.path_ ++ kDirSeparator :: path

/-- `joinAndNormalize`, its `XDCHECK` included. -/
def joinAndNormalize (P : Platform) (base : RelativePath) (path : Bytes) :
    Except PathError (Except Errno RelativePath) :=
  if path.head? = some kDirSeparator then .ok (.error .EPERM)
  else
    let cdata := canonicalPathData P (joinedPath base path)
    if cdata.isAbsolute then .error .checkFailed
    else if cdata.components.head? = some dotDot then .ok (.error .EXDEV)
    else do
      let r ← RelativePath.ofComponents P cdata.components
      pure (.ok r)

end EdenCommon
