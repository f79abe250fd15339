import EdenCommon.Lib.Run
import Mathlib.Data.Nat.Notation
import Mathlib.Logic.Function.Basic

/-!
# `RefPtr`

The operations of `RefPtr.h`, one step per access to `refcnt_` and per `delete`. A release
(in `reset`, the move assignment and the destructor) is an operation under way that makes
its steps among those of the others: of other threads, and of the destructor of the object
that it deletes, which runs in front of its last step. Everything else a thread does to a
`RefPtr` of its own has one step.

RefPtrs are counted from 0 in the order of their construction. The bits of a destroyed
RefPtr stay as they were. The numbers of the objects, `deleted`, `constructed` and
`released` say what happened and are read by nothing but the choice of the RefPtrs an
operation may name; `fault` is set by an access to an object that is gone.
-/

namespace EdenCommon

/-- `uintptr_t` -/
abbrev Bits := BitVec 64

structure RefPtr where
  ptr_ : Bits
  constructed : Bool := true
  /-- record: the reference that `ptr_` still shows has been given back. -/
  released : Bool := false
  deriving DecidableEq, Repr

namespace RefPtr

def kNull : Bits := 0
def kOwnedBit : Bits := 1
def kPtrMask : Bits := (~~~(0 : Bits)) <<< 1

/-- `alignof(RefCounted) >= 2`, and no object is at 0. -/
def Aligned (x : Bits) : Prop := x &&& kOwnedBit = 0 ∧ x ≠ kNull

instance (x : Bits) : Decidable (Aligned x) := inferInstanceAs (Decidable (_ ∧ _))

def get (p : RefPtr) : Bits := p.ptr_ &&& kPtrMask

def hasOwnedBit (p : RefPtr) : Bool := p.ptr_ &&& kOwnedBit != 0

/-- The constructor that takes an existing reference. -/
def ofRefCounted (base : Bits) : RefPtr := { ptr_ := base ||| kOwnedBit }

/-- The two casts between types whose base is at offset zero keep the address. -/
def convert_ptr (that : Bits) : Bits := (that &&& kPtrMask) ||| (that &&& kOwnedBit)

structure RefCounted where
  refcnt_ : ℕ
  /-- record: the number of the `new`; none for an object of static duration. -/
  number : Option ℕ
  deriving DecidableEq, Repr

/-- What follows `decRef`. -/
inductive Rest
  | assign (that : ℕ)
  | reset
  | destroy
  deriving DecidableEq, Repr

/-- Where a release stands in `RefCounted::decRef`. -/
inductive Pc
  /-- `1 == refcnt_.load()` -/
  | load
  /-- `1 == refcnt_.fetch_sub(1)` -/
  | sub
  | delete
  /-- `decRef` has returned. -/
  | rest
  | done
  deriving DecidableEq, Repr

structure Release where
  a : ℕ
  object : Bits
  rest : Rest
  pc : Pc
  deriving DecidableEq, Repr

/-- The RefPtrs that the operation reads or writes. -/
def Rest.operands (a : ℕ) : Rest → List ℕ
  | .assign that => [a, that]
  | .reset => [a]
  | .destroy => [a]

structure Sys where
  ptrs : List RefPtr
  releases : List Release
  heap : Bits → Option RefCounted
  nextNumber : ℕ
  /-- record: the numbers of the deleted objects. -/
  deleted : List ℕ
  /-- record -/
  fault : Bool

/-- `statics` are the objects of static duration. -/
def start (statics : Bits → Bool) : Sys where
  ptrs := []
  releases := []
  heap := fun x => if statics x = true ∧ Aligned x then some ⟨1, none⟩ else none
  nextNumber := 0
  deleted := []
  fault := false

namespace Sys

def live (s : Sys) (a : ℕ) : Option RefPtr := s.ptrs[a]?.filter RefPtr.constructed

def construct (s : Sys) (p : RefPtr) : Sys := { s with ptrs := s.ptrs ++ [p] }

def modify (s : Sys) (a : ℕ) (f : RefPtr → RefPtr) : Sys := { s with ptrs := s.ptrs.modify a f }

end Sys

open Sys

def clear (p : RefPtr) : RefPtr := { p with ptr_ := kNull, released := false }

/-- `new` returns an address that is not in use. -/
def makeRefPtr (s : Sys) (object : Bits) : Option Sys :=
  if Aligned object ∧ s.heap object = none then
    some { (s.construct (ofRefCounted object)) with
      heap := Function.update s.heap object (some ⟨1, some s.nextNumber⟩)
      nextNumber := s.nextNumber + 1 }
  else none

def singleton (s : Sys) (object : Bits) : Option Sys :=
  if (s.heap object).isSome then some (s.construct { ptr_ := object }) else none

/-- `incRef` and the construction of the copy. -/
def copy (s : Sys) (that : ℕ) : Option Sys :=
  (s.live that).map fun p =>
    let s' := s.construct { ptr_ := p.ptr_ }
    -- the bit says whether the object is counted, and the copy has the same bit
    if p.hasOwnedBit then
      match s.heap p.get with
      | some o => { s' with heap := Function.update s.heap p.get (some { o with refcnt_ := o.refcnt_ + 1 }) }
      | none => { s' with fault := true }
    else s'

def move (s : Sys) (that : ℕ) : Option Sys :=
  (s.live that).map fun p =>
    (s.modify that fun p => { p with ptr_ := kNull }).construct { ptr_ := p.ptr_ }

def convert (s : Sys) (that : ℕ) : Option Sys :=
  (s.live that).map fun p =>
    (s.modify that fun p => { p with ptr_ := kNull }).construct { ptr_ := convert_ptr p.ptr_ }

/-- Behind `decRef`. The move assignment reads `that` only now. -/
def finish (s : Sys) (a : ℕ) : Rest → Sys
  | .assign that =>
    match s.ptrs[that]? with
    | some q => (s.modify a fun p => { p with ptr_ := q.ptr_, released := false }).modify that fun p =>
        { p with ptr_ := kNull }
    | none => s
  | .reset => s.modify a clear
  | .destroy => s.modify a fun p => { p with constructed := false, released := false }

/-- `RefPtr::decRef` is called, for an operation that goes on with `rest`. -/
def release (s : Sys) (a : ℕ) (rest : Rest) : Option Sys :=
  (s.live a).map fun p =>
    if p.hasOwnedBit then { s with releases := s.releases ++ [⟨a, p.get, rest, .load⟩] }
    else finish s a rest

def moveAssign (s : Sys) (a that : ℕ) : Option Sys :=
  (s.live that).bind fun _ => release s a (.assign that)

def reset (s : Sys) (a : ℕ) : Option Sys := release s a .reset

def destroy (s : Sys) (a : ℕ) : Option Sys := release s a .destroy

def Sys.advance (s : Sys) (i : ℕ) (r : Release) (pc : Pc) : Sys :=
  { s with releases := s.releases.set i { r with pc := pc } }

/-- The reference of the RefPtr is given back. -/
def Sys.giveBack (s : Sys) (a : ℕ) : Sys := s.modify a fun p => { p with released := true }

/-- `RefCounted::decRef`, on the object that `this` points to. -/
def decRef (s : Sys) (i : ℕ) (r : Release) (o : RefCounted) : Pc → Option Sys
  | .load => some (s.advance i r (if o.refcnt_ = 1 then .delete else .sub))
  | .sub =>
    some (({ s with heap := Function.update s.heap r.object (some { o with refcnt_ := o.refcnt_ - 1 }) }.giveBack
      r.a).advance i r (if o.refcnt_ = 1 then .delete else .rest))
  | .delete =>
    some (({ s with heap := Function.update s.heap r.object none
                    deleted := s.deleted ++ o.number.toList }.giveBack r.a).advance i r .rest)
  | .rest => none
  | .done => none

/-- The next step of the release `i`. -/
def proceed (s : Sys) (i : ℕ) : Option Sys :=
  match s.releases[i]? with
  | none => none
  | some r =>
    match r.pc with
    | .done => none
    | .rest => some (finish (s.advance i r .done) r.a r.rest)
    | pc =>
      match s.heap r.object with
      | some o => decRef s i r o pc
      -- the object has been deleted under the release
      | none => some { s with fault := true }

inductive Op
  /-- The default constructor. -/
  | null
  | makeRefPtr (object : Bits)
  | singleton (object : Bits)
  | copy (that : ℕ)
  | move (that : ℕ)
  | convert (that : ℕ)
  | moveAssign (a that : ℕ)
  | reset (a : ℕ)
  | destroy (a : ℕ)
  | proceed (i : ℕ)
  deriving DecidableEq, Repr

def step (s : Sys) : Op → Option Sys
  | .null => some (s.construct { ptr_ := kNull })
  | .makeRefPtr object => makeRefPtr s object
  | .singleton object => singleton s object
  | .copy that => copy s that
  | .move that => move s that
  | .convert that => convert s that
  | .moveAssign a that => moveAssign s a that
  | .reset a => reset s a
  | .destroy a => destroy s a
  | .proceed i => proceed s i

/-! ### What is wanted -/

/-- The RefPtr owns a reference to the object at `x`. -/
def owns (x : Bits) (p : RefPtr) : Bool := p.constructed && !p.released && p.hasOwnedBit && p.get == x

/-- A RefPtr that has begun to release its reference is counted until the decrement, or
until it deletes the object without one. -/
def Sys.owners (s : Sys) (x : Bits) : ℕ := s.ptrs.countP (owns x)

structure Safe (statics : Bits → Bool) (s : Sys) : Prop where
  counted : ∀ x o, s.heap x = some o → o.number.isSome → o.refcnt_ = s.owners x
  /-- No RefPtr owns an object that has been deleted. -/
  owned : ∀ x, 0 < s.owners x → ∃ o, s.heap x = some o ∧ o.number.isSome
  /-- An object without owners is about to be deleted. -/
  kept : ∀ x o, s.heap x = some o → o.number.isSome →
    0 < s.owners x ∨ ∃ r ∈ s.releases, r.pc = .delete ∧ r.object = x
  /-- It is deleted by its last owner. -/
  last : ∀ r ∈ s.releases, r.pc = .delete → ∀ k p, s.ptrs[k]? = some p → p.owns r.object = true → k = r.a
  once : s.deleted.Nodup
  deleted : ∀ n < s.nextNumber, n ∈ s.deleted ↔ ∀ x o, s.heap x = some o → o.number ≠ some n
  static : ∀ x, statics x = true → Aligned x → s.heap x = some ⟨1, none⟩
  no_fault : s.fault = false

/-! ### What the operations do not provide for -/

def Op.operands : Op → List ℕ
  | .null => []
  | .makeRefPtr _ => []
  | .singleton _ => []
  | .copy that => [that]
  | .move that => [that]
  | .convert that => [that]
  | .moveAssign a that => Rest.operands a (.assign that)
  | .reset a => Rest.operands a .reset
  | .destroy a => Rest.operands a .destroy
  | .proceed _ => []

/-- The RefPtr is no operand of a release that is under way. -/
def Idle (s : Sys) (k : ℕ) : Prop := ∀ r ∈ s.releases, r.pc ≠ .done → k ∉ r.rest.operands r.a

instance (s : Sys) (k : ℕ) : Decidable (Idle s k) := inferInstanceAs (Decidable (∀ _ ∈ _, _))

/-- The operation names no operand of a release that is under way. -/
def Op.Apart (s : Sys) (op : Op) : Prop := ∀ k ∈ op.operands, Idle s k

instance (s : Sys) (op : Op) : Decidable (op.Apart s) := inferInstanceAs (Decidable (∀ _ ∈ _, _))

end RefPtr

end EdenCommon
