import EdenCommon.Spec.RefPtr

/-!
# `RefPtr` and the layout of objects

What `RefPtr.h` does with an address that is not that of the `RefCounted` base: `get`,
`takeOwnership`, `singleton`, `as` and the converting constructor, for classes with their
bases at any offsets. A class is told by the offset of its `RefCounted`, which a derived class
has inside its base.
-/

namespace EdenCommon

namespace RefPtr

/-- A class derived from `RefCounted`, which is at this offset in its objects. -/
structure Class where
  refCounted : Bits
  deriving DecidableEq, Repr

/-- `U` is derived from `T`, which is at `offset` in it and has its `RefCounted`. -/
structure Derives (U T : Class) where
  offset : Bits
  refCounted_eq : U.refCounted = offset + T.refCounted

namespace Class

/-- `RefCounted* base = ptr` -/
def toRefCounted (T : Class) (ptr : Bits) : Bits := if ptr = kNull then kNull else ptr + T.refCounted

/-- `static_cast<T*>(base)` of a `RefCounted*` -/
def ofRefCounted (T : Class) (base : Bits) : Bits := if base = kNull then kNull else base - T.refCounted

def takeOwnership (T : Class) (ptr : Bits) : RefPtr := RefPtr.ofRefCounted (T.toRefCounted ptr)

def singleton (T : Class) (singleton : Bits) : RefPtr := { ptr_ := T.toRefCounted singleton }

/-- `RefPtr<T>::get`; `RefPtr.get` is the `RefCounted*` in it. -/
def get (T : Class) (p : RefPtr) : Bits := T.ofRefCounted p.get

end Class

variable {U T : Class}

namespace Derives

/-- The implicit conversion of a `U*` to `T*`. -/
def upcast (d : Derives U T) (ptr : Bits) : Bits := if ptr = kNull then kNull else ptr + d.offset

/-- `RefPtr<T>::convert_ptr<U>`, which takes the bits of a `RefCounted*` for those of a `U*`. -/
def convert_ptr (d : Derives U T) (that : Bits) : Bits :=
  let owned := that &&& kOwnedBit
  let t := d.upcast (that &&& kPtrMask)
  t ||| owned

/-- `RefPtr<T>(RefPtr<U> that)`: the new pointer and what is left in `that`. -/
def convert (d : Derives U T) (that : RefPtr) : RefPtr × RefPtr :=
  ({ ptr_ := d.convert_ptr that.ptr_ }, { that with ptr_ := kNull })

/-- `as<T>()` of a `RefPtr<U>` is the same bits. -/
def as (_ : Derives U T) (p : RefPtr) : RefPtr := p

/-- Where an object of `U` may be: its bases lie in it and are aligned, as is the object. -/
structure Object (d : Derives U T) (ptr : Bits) : Prop where
  self : Aligned ptr
  base : Aligned (ptr + d.offset)
  refCounted : Aligned (ptr + U.refCounted)

/-- A `RefPtr<U>`: null, or it points to an object that it owns or that is a singleton. -/
def IsRefPtr (d : Derives U T) (p : RefPtr) : Prop :=
  p.ptr_ = kNull ∨ ∃ ptr, d.Object ptr ∧ (p = U.takeOwnership ptr ∨ p = U.singleton ptr)

/-- What a conversion has to keep. -/
structure Identity (d : Derives U T) (p : RefPtr) : Prop where
  get_eq : T.get (d.convert p).1 = d.upcast (U.get p)
  owned_eq : (d.convert p).1.hasOwnedBit = p.hasOwnedBit
  refCounted_eq : (d.convert p).1.get = (d.as p).get
  null : p.ptr_ = kNull → (d.convert p).1.ptr_ = kNull
  left : (d.convert p).2.ptr_ = kNull

end Derives

end RefPtr

end EdenCommon
