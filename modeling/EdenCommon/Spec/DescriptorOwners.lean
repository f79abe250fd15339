import EdenCommon.Lib.Run
import EdenCommon.Spec.Path
import Mathlib.Logic.Function.Basic

/-!
# `FileDescriptor` as an owner

The class of `FileDescriptor.h` in a program that makes, moves, duplicates and
destroys any number of objects in any order. The kernel gives out the numbers and gives out again
what was closed. `outside` says which numbers the program has as plain integers: those it has
opened or released, and not closed or put into an object. An object takes a number over from
there, with its type or `Unknown`.
-/

namespace EdenCommon

inductive FDType
  | Unknown
  | Generic
  | Pipe
  | Socket
  deriving DecidableEq, Repr

/-- What is open, by number. -/
structure HandleTable where
  table : ℤ → Option FDType
  /-- record: how often a number was closed that was not open, or with the call for another type. -/
  badCloses : ℕ

namespace HandleTable

def isOpen (k : HandleTable) (h : ℤ) : Bool := (k.table h).isSome

/-- `close`, and on Windows `closesocket` for a socket and else `CloseHandle`. -/
def close (P : Platform) (k : HandleTable) (h : ℤ) (fdType : FDType) : HandleTable :=
  match k.table h with
  | none => { k with badCloses := k.badCloses + 1 }
  | some kind =>
    if P.kIsWindows && (fdType == .Socket) != (kind == .Socket) then { k with badCloses := k.badCloses + 1 }
    else { k with table := Function.update k.table h none }

end HandleTable

structure FileDescriptor where
  fd_ : ℤ
  fdType_ : FDType
  deriving DecidableEq, Repr

namespace FileDescriptor

def kInvalid : ℤ := -1

def normalizeHandleValue (P : Platform) (h : ℤ) : ℤ :=
  if P.kIsWindows then if h = kInvalid ∨ h = 0 then kInvalid else h
  else if h < 0 then kInvalid
  else h

/-- On Windows an unknown type is that of what is open. -/
def resolveFDType (P : Platform) (k : HandleTable) (fd : ℤ) (fdType : FDType) : FDType :=
  if normalizeHandleValue P fd = kInvalid then .Unknown
  else if fdType ≠ .Unknown then fdType
  else if P.kIsWindows then (k.table fd).getD .Generic
  else .Generic

/-- `FileDescriptor()`. -/
def empty : FileDescriptor := ⟨kInvalid, .Unknown⟩

/-- `FileDescriptor(fd, fdType)`. -/
def ofHandle (P : Platform) (k : HandleTable) (fd : ℤ) (fdType : FDType) : FileDescriptor :=
  ⟨normalizeHandleValue P fd, resolveFDType P k fd fdType⟩

/-- The objects of a program. -/
structure Program where
  objects : ℕ → Option FileDescriptor
  kernel : HandleTable
  outside : ℤ → Bool

namespace Program

def set (s : Program) (o : ℕ) (d : Option FileDescriptor) : Program :=
  { s with objects := Function.update s.objects o d }

/-- `close()` of the object `o`. -/
def close (P : Platform) (s : Program) (o : ℕ) : Program :=
  match s.objects o with
  | none => s
  | some d =>
    if d.fd_ = kInvalid then s
    else { s.set o (some { d with fd_ := kInvalid }) with kernel := s.kernel.close P d.fd_ d.fdType_ }

/-- `fd_ = other.fd_; fdType_ = other.fdType_; other.fd_ = kInvalid`. -/
def moveFrom (s : Program) (o other : ℕ) : Program :=
  match s.objects other with
  | none => s
  | some d => (s.set o (some d)).set other (some { d with fd_ := kInvalid })

end Program

inductive Op
  /-- The kernel opens a number for the program. -/
  | opens (h : ℤ) (kind : FDType)
  /-- The program closes a number itself. -/
  | closes (h : ℤ)
  | default (o : ℕ)
  | construct (o : ℕ) (fd : ℤ) (fdType : FDType)
  | moveConstruct (o other : ℕ)
  | moveAssign (o other : ℕ)
  | close (o : ℕ)
  | release (o : ℕ)
  /-- With the number that the kernel gives, if any. -/
  | duplicate (o other : ℕ) (newHandle : Option ℤ)
  | destroy (o : ℕ)
  deriving DecidableEq, Repr

/-- One operation, if the program can do it. -/
def step (P : Platform) (s : Program) : Op → Option Program
  | .opens h kind =>
    if normalizeHandleValue P h = h ∧ h ≠ kInvalid ∧ s.kernel.isOpen h = false ∧ kind ≠ .Unknown then
      some { s with
        kernel := { s.kernel with table := Function.update s.kernel.table h (some kind) }
        outside := Function.update s.outside h true }
    else none
  | .closes h =>
    if s.outside h then
      some { s with
        kernel := { s.kernel with table := Function.update s.kernel.table h none }
        outside := Function.update s.outside h false }
    else none
  | .default o => if s.objects o = none then some (s.set o (some empty)) else none
  | .construct o fd fdType =>
    if s.objects o = none then
      if normalizeHandleValue P fd = kInvalid then some (s.set o (some (ofHandle P s.kernel fd fdType)))
      else if s.outside fd ∧ (fdType = .Unknown ∨ s.kernel.table fd = some fdType) then
        some { s.set o (some (ofHandle P s.kernel fd fdType)) with outside := Function.update s.outside fd false }
      else none
    else none
  | .moveConstruct o other =>
    if s.objects o = none ∧ (s.objects other).isSome then some (s.moveFrom o other) else none
  | .moveAssign o other =>
    -- `other` may be `o`
    if (s.objects o).isSome ∧ (s.objects other).isSome then some ((s.close P o).moveFrom o other) else none
  | .close o => if (s.objects o).isSome then some (s.close P o) else none
  | .release o =>
    (s.objects o).map fun d =>
      if d.fd_ = kInvalid then s
      else { s.set o (some { d with fd_ := kInvalid }) with outside := Function.update s.outside d.fd_ true }
  | .duplicate o other newHandle =>
    match s.objects o, s.objects other, newHandle with
    | none, some _, none => some s
    | none, some d, some h =>
      match s.kernel.table d.fd_ with
      | none => none
      | some kind =>
        if normalizeHandleValue P h = h ∧ h ≠ kInvalid ∧ s.kernel.isOpen h = false then
          let kernel := { s.kernel with table := Function.update s.kernel.table h (some kind) }
          some { s.set o (some (ofHandle P kernel h d.fdType_)) with kernel := kernel }
        else none
    | _, _, _ => none
  | .destroy o => if (s.objects o).isSome then some ((s.close P o).set o none) else none

/-- The number that an object owns. -/
def handle? (d : FileDescriptor) : Option ℤ := if d.fd_ = kInvalid then none else some d.fd_

def held (s : Program) (o : ℕ) : Option ℤ := (s.objects o).bind handle?

/-- A program in front of its first object. -/
def Program.start (table : ℤ → Option FDType) : Program := ⟨fun _ => none, ⟨table, 0⟩, fun h => (table h).isSome⟩

end FileDescriptor

end EdenCommon
