import EdenCommon.Proof.RefPtr
import EdenCommon.Spec.RefPtrLayout

/-!
# Conversion to a base

A `RefPtr` holds the address of the `RefCounted` in the object. The converting constructor
takes it for the address of the object itself, so it adds the offset of the base to an address
that lies in the base already; this is right where the offset is zero (`convert_identity_iff`).

* `aligned_add`, `tag_tagged`: addresses and offsets are aligned, so adding an offset leaves
  the owned bit alone and the two can be told apart.
* `convert_tagged`, `convert_null`: what the conversion makes of a pointer to an object and
  of null, which it never moves.
* `convert_derived2`: the pointer to the second base of an object that the conversion makes
  is off by the offset of the base.
-/

namespace EdenCommon

namespace RefPtr

variable {U T : Class} {x y : Bits} {p : RefPtr}

/-! ### Alignment -/

theorem and_kOwnedBit_iff : x &&& kOwnedBit = 0 ↔ x.toNat % 2 = 0 := by
  rw [← BitVec.toNat_inj, BitVec.toNat_and, show (kOwnedBit : Bits).toNat = 1 from rfl, Nat.and_one_is_mod]
  rfl

/-- The address that two aligned addresses reach from a third. -/
theorem aligned_add {ptr offset : Bits} (hptr : ptr &&& kOwnedBit = 0) (hbase : (ptr + offset) &&& kOwnedBit = 0)
    (hx : x &&& kOwnedBit = 0) : (x + offset) &&& kOwnedBit = 0 := by
  rw [and_kOwnedBit_iff, BitVec.toNat_add] at hbase ⊢
  rw [and_kOwnedBit_iff] at hptr hx
  omega

theorem bits_add_zero (x : Bits) : x + 0 = x := by simp

/-! ### The tag of an address -/

/-- The bits of a pointer to `x`, owned or not. -/
def tagged (x : Bits) (owned : Bool) : RefPtr := { ptr_ := x ||| if owned then kOwnedBit else 0 }

theorem get_tagged (hx : x &&& kOwnedBit = 0) (owned : Bool) : (tagged x owned).get = x := by
  cases owned with
  | true => exact get_ofRefCounted hx
  | false =>
    unfold tagged get
    simpa using and_kPtrMask hx

theorem tag_tagged (hx : x &&& kOwnedBit = 0) (owned : Bool) :
    (tagged x owned).ptr_ &&& kOwnedBit = if owned then kOwnedBit else 0 := by
  unfold tagged
  rw [BitVec.and_or_distrib_right, hx]
  cases owned <;> decide

namespace Derives

variable {d : Derives U T}

/-- A pointer to an object is its `RefCounted` with a tag. -/
theorem IsRefPtr.cases (h : d.IsRefPtr p) (hne : p.ptr_ ≠ kNull) :
    ∃ ptr owned, d.Object ptr ∧ p = tagged (ptr + U.refCounted) owned := by
  rcases h with hnull | ⟨ptr, hobject, rfl | rfl⟩
  · exact absurd hnull hne
  · refine ⟨ptr, true, hobject, ?_⟩
    unfold Class.takeOwnership Class.toRefCounted
    rw [if_neg hobject.self.2]
    rfl
  · refine ⟨ptr, false, hobject, ?_⟩
    unfold Class.singleton Class.toRefCounted tagged
    rw [if_neg hobject.self.2]
    simp

/-- What the conversion makes of it: the offset is added to the address of the `RefCounted`. -/
theorem convert_tagged (hx : Aligned x) (owned : Bool) :
    (d.convert (tagged x owned)).1 = tagged (x + d.offset) owned := by
  unfold convert convert_ptr
  simp only [tag_tagged hx.1]
  have hget : (tagged x owned).ptr_ &&& kPtrMask = x := get_tagged hx.1 owned
  rw [hget]
  unfold upcast
  rw [if_neg hx.2]
  rfl

theorem convert_null (hnull : p.ptr_ = kNull) : (d.convert p).1.ptr_ = kNull := by
  have hmask : kNull &&& kPtrMask = kNull := by decide
  unfold convert convert_ptr upcast
  simp only [hnull, hmask, if_true]
  decide

/-- With the base at offset zero the address stays as it is, and null always does. -/
theorem convert_ptr_eq_of_offset (h : d.offset = 0) (that : Bits) : d.convert_ptr that = RefPtr.convert_ptr that := by
  unfold convert_ptr upcast RefPtr.convert_ptr
  rw [h]
  by_cases hnull : that &&& kPtrMask = kNull
  · rw [if_pos hnull, hnull]
  · simp only [if_neg hnull, bits_add_zero]

theorem identity_null (hnull : p.ptr_ = kNull) : d.Identity p where
  get_eq := by
    unfold Class.get RefPtr.get
    rw [convert_null hnull, hnull]
    unfold Class.ofRefCounted upcast
    rfl
  owned_eq := by
    unfold hasOwnedBit
    rw [convert_null hnull, hnull]
  refCounted_eq := by
    unfold RefPtr.get as
    rw [convert_null hnull, hnull]
  null := convert_null
  left := rfl

theorem identity_object {ptr : Bits} (hobject : d.Object ptr) (owned : Bool) (hoffset : d.offset = 0) :
    d.Identity (tagged (ptr + U.refCounted) owned) := by
  have hconvert := convert_tagged (d := d) hobject.refCounted owned
  rw [hoffset, bits_add_zero] at hconvert
  have hget := get_tagged hobject.refCounted.1 owned
  have hT : U.refCounted = T.refCounted := by
    rw [d.refCounted_eq, hoffset]
    simp
  exact {
    get_eq := by
      unfold Class.get
      rw [hconvert, hget]
      unfold Class.ofRefCounted upcast
      rw [if_neg hobject.refCounted.2, if_neg hobject.refCounted.2, ← hT, BitVec.add_sub_cancel, hoffset,
        if_neg hobject.self.2, bits_add_zero]
    owned_eq := by rw [hconvert]
    refCounted_eq := by
      rw [hconvert]
      rfl
    null := convert_null
    left := rfl }

/-- **Conversion.** The converting constructor keeps the identity of a pointer exactly if it is
null or the base is at offset zero. -/
theorem convert_identity_iff (d : Derives U T) (p : RefPtr) (hp : d.IsRefPtr p) :
    d.Identity p ↔ p.ptr_ = kNull ∨ d.offset = 0 := by
  by_cases hnull : p.ptr_ = kNull
  · exact iff_of_true (identity_null hnull) (.inl hnull)
  · obtain ⟨ptr, owned, hobject, rfl⟩ := hp.cases hnull
    rw [or_iff_right hnull]
    constructor
    · intro h
      -- the stored address has moved by the offset
      have hstored := h.refCounted_eq
      have heven := aligned_add hobject.self.1 hobject.base.1 hobject.refCounted.1
      unfold as at hstored
      rw [convert_tagged hobject.refCounted, get_tagged heven, get_tagged hobject.refCounted.1] at hstored
      simpa using hstored
    · exact identity_object hobject owned

/-- `Derived2` of two classes with a vtable pointer, the first with an `int` in it: its second
base, in which the `RefCounted` comes first, is behind the first. -/
def derived2 : Derives ⟨16⟩ ⟨0⟩ := ⟨16, by decide⟩

theorem convert_identity_iff_derived2 :
    derived2.IsRefPtr (Class.takeOwnership ⟨16⟩ 4096) ∧
      (derived2.Identity (Class.takeOwnership ⟨16⟩ 4096) ↔
        (Class.takeOwnership ⟨16⟩ 4096).ptr_ = kNull ∨ derived2.offset = 0) := by
  have hp : derived2.IsRefPtr (Class.takeOwnership ⟨16⟩ 4096) :=
    .inr ⟨4096, ⟨by decide, by decide, by decide⟩, .inl rfl⟩
  exact ⟨hp, convert_identity_iff derived2 _ hp⟩

/-- The pointer to the second base of an object at 4096 that the conversion makes is off by
the offset of the base. -/
theorem convert_derived2 :
    derived2.IsRefPtr (Class.takeOwnership ⟨16⟩ 4096) ∧
      Class.get ⟨0⟩ (derived2.convert (Class.takeOwnership ⟨16⟩ 4096)).1 = 4128 ∧
      derived2.upcast (Class.get ⟨16⟩ (Class.takeOwnership ⟨16⟩ 4096)) = 4112 ∧
      ¬ derived2.Identity (Class.takeOwnership ⟨16⟩ 4096) := by
  refine ⟨.inr ⟨4096, ⟨by decide, by decide, by decide⟩, .inl rfl⟩, by decide, by decide, fun h => ?_⟩
  exact absurd h.get_eq (by decide)

end Derives

end RefPtr

end EdenCommon
