import EdenCommon.Lib.RefCount
import EdenCommon.Lib.Threads
import EdenCommon.Spec.RefPtr

/-!
# Who owns what

What is counted are the RefPtrs that own a reference (`Counted`, with a release in front of
its `delete` as the one that dooms the object). A release that has not returned has its
RefPtr to itself, and one that is about to delete is the last owner (`Releases`). An
operation that names none of their operands moves ownership about, or takes a reference
from an owner that keeps its own; it cannot give a doomed object a new owner.
-/

namespace EdenCommon

namespace RefPtr

open Lib Sys

variable {statics : Bits → Bool} {s s' : Sys} {a k that i : ℕ} {p q : RefPtr} {x y : Bits} {r t : Release}
  {o : RefCounted} {ptrs ptrs' : List RefPtr} {releases releases' : List Release}
  {heap heap' : Bits → Option RefCounted} {nextNumber : ℕ} {deleted : List ℕ}

/-! ### The tag -/

theorem kPtrMask_eq : kPtrMask = ~~~kOwnedBit := by decide

/-- The conversion between pointers to one class changes nothing in them. -/
theorem convert_ptr_eq (x : Bits) : convert_ptr x = x := by
  have hall : ~~~kOwnedBit ||| kOwnedBit = BitVec.allOnes 64 := by decide
  rw [convert_ptr, kPtrMask_eq, ← BitVec.and_or_distrib_left, hall, BitVec.and_allOnes]

/-- The mask gives back a pointer that is aligned. -/
theorem and_kPtrMask (hx : x &&& kOwnedBit = 0) : x &&& kPtrMask = x := by
  have h := convert_ptr_eq x
  rw [convert_ptr, hx] at h
  simpa using h

/-- An aligned pointer is what `get` gives of the RefPtr that was made from it. -/
theorem get_ofRefCounted (hx : x &&& kOwnedBit = 0) : (ofRefCounted x).get = x := by
  have htag : kOwnedBit &&& kPtrMask = 0 := by decide
  rw [get, ofRefCounted, BitVec.and_or_distrib_right, and_kPtrMask hx, htag]
  simp

/-- A RefPtr that is made from a counted object owns it. -/
theorem hasOwnedBit_ofRefCounted (x : Bits) : (ofRefCounted x).hasOwnedBit = true := by
  have hbit : (x ||| kOwnedBit) &&& kOwnedBit ≠ 0 := by
    intro h
    have := congrArg (fun b : Bits => b.getLsbD 0) h
    simp [kOwnedBit] at this
  simpa [hasOwnedBit, ofRefCounted] using hbit

/-- What owning comes down to: the RefPtr is there, is not released, and has the bit and the pointer. -/
theorem owns_iff : p.owns x = true ↔
    p.constructed = true ∧ p.released = false ∧ p.hasOwnedBit = true ∧ p.get = x := by
  unfold owns
  simp [and_assoc]

theorem owns_of_released (h : p.released = true) (x : Bits) : p.owns x = false := by
  simp [owns, h]

/-- A RefPtr without the bit, as for a static object, owns nothing. -/
theorem owns_of_no_bit (h : p.hasOwnedBit = false) (x : Bits) : p.owns x = false := by
  simp [owns, h]

theorem owns_of_null (h : p.ptr_ = kNull) (x : Bits) : p.owns x = false :=
  owns_of_no_bit (by simp [hasOwnedBit, h, kNull]) x

/-- The RefPtr with the same bits owns what an idle one does. -/
theorem owns_copy (hc : p.constructed = true) (hr : p.released = false) (x : Bits) :
    (owns x { ptr_ := p.ptr_ }) = p.owns x := by
  simp [owns, hc, hr, hasOwnedBit, get]

/-! ### What holds of the parts -/

/-- The count of an object that is there and counted. -/
def refcnt (heap : Bits → Option RefCounted) (x : Bits) : Option ℕ :=
  (heap x).bind fun o => if o.number.isSome then some o.refcnt_ else none

/-- A release is about to delete the object. -/
def Doomed (releases : List Release) (x : Bits) : Prop := ∃ r ∈ releases, r.pc = .delete ∧ r.object = x

structure Objects (statics : Bits → Bool) (heap : Bits → Option RefCounted) (nextNumber : ℕ)
    (deleted : List ℕ) : Prop where
  aligned : ∀ x o, heap x = some o → x &&& kOwnedBit = 0
  static : ∀ x, statics x = true → Aligned x → heap x = some ⟨1, none⟩
  number_lt : ∀ x o n, heap x = some o → o.number = some n → n < nextNumber
  number_inj : ∀ x y o o' n, heap x = some o → heap y = some o' → o.number = some n → o'.number = some n → x = y
  once : deleted.Nodup
  deleted_lt : ∀ n ∈ deleted, n < nextNumber
  deleted : ∀ n < nextNumber, n ∈ deleted ↔ ∀ x o, heap x = some o → o.number ≠ some n

/-- Where a release stands, and its RefPtr. -/
def PcOk (x : Bits) (p : RefPtr) : Pc → Prop
  | .load => p.owns x = true
  | .sub => p.owns x = true
  | .delete => p.released = true ∨ p.owns x = true
  | .rest => p.released = true
  | .done => True

structure Releases (ptrs : List RefPtr) (releases : List Release) (heap : Bits → Option RefCounted) : Prop where
  ptr : ∀ r ∈ releases, r.pc ≠ .done → ∃ p, ptrs[r.a]? = some p ∧ p.constructed = true ∧ PcOk r.object p r.pc
  alone : ∀ r ∈ releases, r.pc = .delete →
    (refcnt heap r.object).isSome ∧ ∀ k p, ptrs[k]? = some p → p.owns r.object = true → k = r.a
  that : ∀ r ∈ releases, r.pc ≠ .done → ∀ that, r.rest = .assign that → that ≠ r.a →
    ∃ p, ptrs[that]? = some p ∧ p.constructed = true ∧ p.released = false
  disjoint : ∀ (i j : ℕ) (r t : Release), releases[i]? = some r → releases[j]? = some t → r.pc ≠ .done → t.pc ≠ .done → i ≠ j →
    ∀ k ∈ r.rest.operands r.a, k ∉ t.rest.operands t.a
  one_delete : ∀ (i j : ℕ) (r t : Release), releases[i]? = some r → releases[j]? = some t → r.pc = .delete → t.pc = .delete →
    r.object = t.object → i = j
  released : ∀ k p, ptrs[k]? = some p → p.released = true → ∃ r ∈ releases, r.pc ≠ .done ∧ r.a = k

structure Inv (statics : Bits → Bool) (s : Sys) : Prop where
  objects : Objects statics s.heap s.nextNumber s.deleted
  counted : Counted s.owners (refcnt s.heap) (Doomed s.releases)
  releases : Releases s.ptrs s.releases s.heap
  no_fault : s.fault = false

/-- The count of an object that is on the heap and is no static one. -/
theorem refcnt_eq_some (ho : heap x = some o) (hn : o.number.isSome) : refcnt heap x = some o.refcnt_ := by
  simp [refcnt, ho, hn]

theorem refcnt_isSome : (refcnt heap x).isSome ↔ ∃ o, heap x = some o ∧ o.number.isSome := by
  unfold refcnt
  cases heap x with
  | none => simp
  | some o => simp

/-- To write a count into an object is to write it into the counts. -/
theorem refcnt_update (hn : o.number.isSome) (n : ℕ) :
    refcnt (Function.update heap x (some { o with refcnt_ := n })) = Function.update (refcnt heap) x (some n) := by
  funext y
  by_cases hy : y = x
  · subst hy
    simp [refcnt, hn]
  · simp [refcnt, hy]

theorem refcnt_update_none : refcnt (Function.update heap x none) = Function.update (refcnt heap) x none := by
  funext y
  by_cases hy : y = x
  · subst hy
    simp [refcnt]
  · simp [refcnt, hy]

/-- The invariant gives what is claimed of every state. -/
theorem Inv.safe (hinv : Inv statics s) : Safe statics s where
  counted := fun x _ ho hn => hinv.counted.eq x _ (refcnt_eq_some ho hn)
  owned := fun x hx => refcnt_isSome.1 (hinv.counted.present x hx)
  kept := fun x _ ho hn => hinv.counted.kept x _ (refcnt_eq_some ho hn)
  last := fun r hr hpc => (hinv.releases.alone r hr hpc).2
  once := hinv.objects.once
  deleted := hinv.objects.deleted
  static := hinv.objects.static
  no_fault := hinv.no_fault

theorem inv_start (statics : Bits → Bool) : Inv statics (start statics) where
  objects := by
    have hheap : ∀ x o, (start statics).heap x = some o → Aligned x ∧ o.number = none := by
      intro x o ho
      unfold start at ho
      dsimp only at ho
      split at ho
      · rename_i hx
        obtain rfl := Option.some.inj ho
        exact ⟨hx.2, rfl⟩
      · cases ho
    refine ⟨fun x o ho => (hheap x o ho).1.1, fun x hx hal => if_pos ⟨hx, hal⟩, fun x o n ho hn => ?_,
      fun x y o o' n ho ho' hn => ?_, List.nodup_nil, nofun, nofun⟩
    · rw [(hheap x o ho).2] at hn
      cases hn
    · rw [(hheap x o ho).2] at hn
      cases hn
  counted := by
    have hnone : ∀ x, refcnt (start statics).heap x = none := by
      intro x
      unfold refcnt start
      dsimp only
      split <;> rfl
    refine ⟨fun x n hx => ?_, fun x hx => absurd hx (Nat.lt_irrefl 0), fun x n hx => ?_⟩
    · rw [hnone] at hx
      cases hx
    · rw [hnone] at hx
      cases hx
  releases := ⟨nofun, nofun, nofun, nofun, nofun, nofun⟩
  no_fault := rfl

/-! ### The objects -/

/-- A change of the count leaves the other facts about the object alone. -/
theorem Objects.setRefcnt (h : Objects statics heap nextNumber deleted) (ho : heap x = some o)
    (hn : o.number.isSome) (n : ℕ) :
    Objects statics (Function.update heap x (some { o with refcnt_ := n })) nextNumber deleted := by
  have hback : ∀ y o', Function.update heap x (some { o with refcnt_ := n }) y = some o' →
      ∃ o'', heap y = some o'' ∧ o''.number = o'.number := by
    intro y o' hy
    by_cases hyx : y = x
    · rw [hyx, Function.update_self] at hy
      exact ⟨o, hyx ▸ ho, by rw [← Option.some.inj hy]⟩
    · rw [Function.update_of_ne hyx] at hy
      exact ⟨o', hy, rfl⟩
  refine ⟨fun y o' hy => ?_, fun y hy hal => ?_, fun y o' m hy hm => ?_, fun y z o' o'' m hy hz hm hm' => ?_,
    h.once, h.deleted_lt, fun m hm => ?_⟩
  · obtain ⟨o'', hy', -⟩ := hback y o' hy
    exact h.aligned y o'' hy'
  -- an object of static duration has no number, so it is another one
  · have hyx : y ≠ x := by
      rintro rfl
      rw [h.static y hy hal] at ho
      obtain rfl := Option.some.inj ho
      cases hn
    exact (Function.update_of_ne hyx _ _).trans (h.static y hy hal)
  · obtain ⟨o'', hy', hnum⟩ := hback y o' hy
    exact h.number_lt y o'' m hy' (hnum.trans hm)
  · obtain ⟨u, hu, hnu⟩ := hback y o' hy
    obtain ⟨v, hv, hnv⟩ := hback z o'' hz
    exact h.number_inj y z u v m hu hv (hnu.trans hm) (hnv.trans hm')
  · rw [h.deleted m hm]
    constructor
    · intro hall y o' hy
      obtain ⟨o'', hy', hnum⟩ := hback y o' hy
      exact hnum ▸ hall y o'' hy'
    · intro hall y o' hy
      by_cases hyx : y = x
      · subst hyx
        obtain rfl := Option.some.inj (ho.symm.trans hy)
        exact hall y { o with refcnt_ := n } (Function.update_self ..)
      · exact hall y o' ((Function.update_of_ne hyx _ _).trans hy)

/-- A new object has the next number, which no object has had. -/
theorem Objects.new (h : Objects statics heap nextNumber deleted) (hal : Aligned x) (hx : heap x = none) :
    Objects statics (Function.update heap x (some ⟨1, some nextNumber⟩)) (nextNumber + 1) deleted := by
  have hcases : ∀ y o', Function.update heap x (some ⟨1, some nextNumber⟩) y = some o' →
      (y = x ∧ o'.number = some nextNumber) ∨ heap y = some o' := by
    intro y o' hy
    by_cases hyx : y = x
    · rw [hyx, Function.update_self] at hy
      exact .inl ⟨hyx, congrArg RefCounted.number (Option.some.inj hy).symm⟩
    · rw [Function.update_of_ne hyx] at hy
      exact .inr hy
  have hold : ∀ y o', heap y = some o' → Function.update heap x (some ⟨1, some nextNumber⟩) y = some o' := by
    intro y o' hy
    have hyx : y ≠ x := by
      rintro rfl
      rw [hx] at hy
      cases hy
    exact (Function.update_of_ne hyx _ _).trans hy
  -- the number of the new object is on no object that was there
  have hfresh : ∀ y o' n, heap y = some o' → o'.number = some n → n ≠ nextNumber :=
    fun y o' n hy hn => Nat.ne_of_lt (h.number_lt y o' n hy hn)
  refine ⟨fun y o' hy => ?_, fun y hy hya => hold y _ (h.static y hy hya), fun y o' m hy hm => ?_,
    fun y z o' o'' m hy hz hm hm' => ?_, h.once, fun m hm => Nat.lt_succ_of_lt (h.deleted_lt m hm), fun m hm => ?_⟩
  · obtain ⟨rfl, -⟩ | hy := hcases y o' hy
    · exact hal.1
    · exact h.aligned y o' hy
  · obtain ⟨-, hnum⟩ | hy := hcases y o' hy
    · rw [hnum] at hm
      rw [← Option.some.inj hm]
      exact Nat.lt_succ_self _
    · exact Nat.lt_succ_of_lt (h.number_lt y o' m hy hm)
  · rcases hcases y o' hy with ⟨rfl, hnum⟩ | hy' <;> rcases hcases z o'' hz with ⟨rfl, hnum'⟩ | hz'
    · rfl
    · exact absurd (Option.some.inj (hm.symm.trans hnum)) (hfresh z o'' m hz' hm')
    · exact absurd (Option.some.inj (hm'.symm.trans hnum')) (hfresh y o' m hy' hm)
    · exact h.number_inj y z o' o'' m hy' hz' hm hm'
  · rcases Nat.lt_succ_iff_lt_or_eq.1 hm with hlt | rfl
    · rw [h.deleted m hlt]
      constructor
      · intro hall y o' hy hn
        obtain ⟨-, hnum⟩ | hy := hcases y o' hy
        · exact absurd (Option.some.inj (hn.symm.trans hnum)) (Nat.ne_of_lt hlt)
        · exact hall y o' hy hn
      · exact fun hall y o' hy => hall y o' (hold y o' hy)
    · refine iff_of_false (fun hmem => Nat.lt_irrefl _ (h.deleted_lt m hmem)) fun hall => ?_
      exact hall x _ (Function.update_self ..) rfl

/-- A number that is deleted has not been deleted before. -/
theorem Objects.delete (h : Objects statics heap nextNumber deleted) (ho : heap x = some o) {n : ℕ}
    (hn : o.number = some n) :
    Objects statics (Function.update heap x none) nextNumber (deleted ++ o.number.toList) := by
  have hback : ∀ y o', Function.update heap x none y = some o' → y ≠ x ∧ heap y = some o' := by
    intro y o' hy
    by_cases hyx : y = x
    · rw [hyx, Function.update_self] at hy
      cases hy
    · rw [Function.update_of_ne hyx] at hy
      exact ⟨hyx, hy⟩
  -- an object that is there has not been deleted before
  have hnot : n ∉ deleted := fun hmem =>
    ((h.deleted n (h.number_lt x o n ho hn)).1 hmem) x o ho hn
  rw [hn, Option.toList_some]
  refine ⟨fun y o' hy => h.aligned y o' (hback y o' hy).2, fun y hy hya => ?_,
    fun y o' m hy => h.number_lt y o' m (hback y o' hy).2,
    fun y z o' o'' m hy hz => h.number_inj y z o' o'' m (hback y o' hy).2 (hback z o'' hz).2, ?_, fun m hm => ?_,
    fun m hm => ?_⟩
  · have hyx : y ≠ x := by
      rintro rfl
      rw [h.static y hy hya] at ho
      obtain rfl := Option.some.inj ho
      cases hn
    exact (Function.update_of_ne hyx _ _).trans (h.static y hy hya)
  · refine List.nodup_append.2 ⟨h.once, List.nodup_singleton n, ?_⟩
    rintro m hm m' hm' rfl
    exact hnot (List.mem_singleton.1 hm' ▸ hm)
  · rcases List.mem_append.1 hm with hm | hm
    · exact h.deleted_lt m hm
    · rw [List.mem_singleton.1 hm]
      exact h.number_lt x o n ho hn
  · rw [List.mem_append, List.mem_singleton, h.deleted m hm]
    constructor
    · rintro (hall | rfl) y o' hy hm'
      · exact hall y o' (hback y o' hy).2 hm'
      · exact (hback y o' hy).1 (h.number_inj y x o' o m (hback y o' hy).2 ho hm' hn)
    · intro hall
      by_cases hmn : m = n
      · exact .inr hmn
      · refine .inl fun y o' hy hm' => ?_
        by_cases hyx : y = x
        · subst hyx
          obtain rfl := Option.some.inj (ho.symm.trans hy)
          exact hmn (Option.some.inj (hm'.symm.trans hn))
        · exact hall y o' ((Function.update_of_ne hyx _ _).trans hy) hm'

/-! ### Changes that leave the releases alone -/

theorem mem_operands_self (rest : Rest) (a : ℕ) : a ∈ rest.operands a := by
  cases rest <;> exact List.mem_cons_self

/-- The RefPtrs that a release names are there. -/
theorem Releases.operand_lt (h : Releases ptrs releases heap) (hr : r ∈ releases) (hpc : r.pc ≠ .done)
    (hk : k ∈ r.rest.operands r.a) : k < ptrs.length := by
  obtain ⟨p, hp, -⟩ := h.ptr r hr hpc
  have ha : r.a < ptrs.length := (List.getElem?_eq_some_iff.1 hp).1
  cases hrest : r.rest with
  | reset =>
    rw [hrest] at hk
    exact List.mem_singleton.1 hk ▸ ha
  | destroy =>
    rw [hrest] at hk
    exact List.mem_singleton.1 hk ▸ ha
  | assign that =>
    rw [hrest] at hk
    by_cases hka : k = r.a
    · exact hka ▸ ha
    · have hkt : k = that := by simpa [Rest.operands, hka] using hk
      obtain ⟨q, hq, -⟩ := h.that r hr hpc that hrest (hkt ▸ hka)
      exact hkt ▸ (List.getElem?_eq_some_iff.1 hq).1

/-- No release that has not returned changes or loses its RefPtrs, and an owner of a doomed
object has it from nowhere but an owner. -/
theorem Releases.edit (h : Releases ptrs releases heap)
    (hactive : ∀ (i : ℕ) (r : Release), releases'[i]? = some r → r.pc ≠ .done → releases[i]? = some r)
    (hbusy : ∀ r ∈ releases', r.pc ≠ .done → ∀ k ∈ r.rest.operands r.a, ptrs'[k]? = ptrs[k]?)
    (hlive : ∀ r ∈ releases', r.pc = .delete → (refcnt heap' r.object).isSome)
    (hfrom : ∀ (k : ℕ) (p : RefPtr) x, ptrs'[k]? = some p → p.owns x = true → (refcnt heap x).isSome →
      ∃ j q, ptrs[j]? = some q ∧ q.owns x = true ∧
        (j = k ∨ ∀ r ∈ releases', r.pc ≠ .done → j ∉ r.rest.operands r.a))
    (hreleased : ∀ (k : ℕ) (p : RefPtr), ptrs'[k]? = some p → p.released = true → ∃ r ∈ releases', r.pc ≠ .done ∧ r.a = k) :
    Releases ptrs' releases' heap' := by
  have hmem : ∀ r ∈ releases', r.pc ≠ .done → r ∈ releases := by
    intro r hr hpc
    obtain ⟨i, hi⟩ := List.mem_iff_getElem?.1 hr
    exact List.mem_of_getElem? (hactive i r hi hpc)
  have hdel : ∀ {r : Release}, r.pc = .delete → r.pc ≠ .done := fun e => by rw [e]; nofun
  refine ⟨fun r hr hpc => ?_, fun r hr hpc => ⟨hlive r hr hpc, fun k p hp hown => ?_⟩,
    fun r hr hpc that hrest hne => ?_,
    fun i j r t hi hj hr ht => h.disjoint i j r t (hactive i r hi hr) (hactive j t hj ht) hr ht,
    fun i j r t hi hj hr ht => h.one_delete i j r t (hactive i r hi (hdel hr)) (hactive j t hj (hdel ht)) hr ht,
    hreleased⟩
  · obtain ⟨p, hp, hok⟩ := h.ptr r (hmem r hr hpc) hpc
    exact ⟨p, (hbusy r hr hpc r.a (mem_operands_self _ _)).trans hp, hok⟩
  · obtain ⟨hsome, halone⟩ := h.alone r (hmem r hr (hdel hpc)) hpc
    obtain ⟨j, q, hq, hqo, rfl | hidle⟩ := hfrom k p r.object hp hown hsome
    · exact halone j q hq hqo
    · -- the only owner is an operand of this release
      rw [halone j q hq hqo] at hidle
      exact absurd (mem_operands_self _ _) (hidle r hr (hdel hpc))
  · obtain ⟨q, hq, hok⟩ := h.that r (hmem r hr hpc) hpc that hrest hne
    refine ⟨q, (hbusy r hr hpc that ?_).trans hq, hok⟩
    rw [hrest]
    exact List.mem_cons_of_mem _ List.mem_cons_self

/-- An operand that no release is at work on has not been released. -/
theorem Idle.not_released (h : Idle s a) (hinv : Inv statics s) (hp : s.ptrs[a]? = some p) : p.released = false := by
  by_contra hr
  obtain ⟨r, hmem, hpc, rfl⟩ := hinv.releases.released a p hp (Bool.not_eq_false _ ▸ hr)
  exact h r hmem hpc (mem_operands_self _ _)

theorem live_eq_some : s.live a = some p ↔ s.ptrs[a]? = some p ∧ p.constructed = true :=
  Option.filter_eq_some_iff

/-- A new RefPtr is one more owner, if it owns anything. -/
theorem owners_construct (x : Bits) : (s.construct p).owners x = s.owners x + (p.owns x).toNat := by
  unfold Sys.owners Sys.construct
  rw [List.countP_append, List.countP_singleton]
  cases p.owns x <;> rfl

/-- A change of one RefPtr changes the number of owners by that one. -/
theorem owners_modify (hp : s.ptrs[a]? = some p) (f : RefPtr → RefPtr) (x : Bits) :
    (s.modify a f).owners x + (p.owns x).toNat = s.owners x + ((f p).owns x).toNat :=
  countP_modify_add (owns x) f hp

/-- A new RefPtr, behind the others. -/
theorem getElem?_construct {p' : RefPtr} (h : (s.construct p).ptrs[k]? = some p') :
    s.ptrs[k]? = some p' ∨ (k = s.ptrs.length ∧ p' = p) := by
  unfold Sys.construct at h
  dsimp only at h
  rw [List.getElem?_append] at h
  split at h
  · exact .inl h
  · rename_i hlt
    have hk : k - s.ptrs.length = 0 := by
      by_contra hne
      rw [List.getElem?_eq_none (by simp; omega)] at h
      cases h
    rw [hk] at h
    exact .inr ⟨by omega, (Option.some.inj h).symm⟩

theorem getElem?_construct_of_lt (hk : k < s.ptrs.length) : (s.construct p).ptrs[k]? = s.ptrs[k]? :=
  List.getElem?_append_left hk

/-- A RefPtr that owns nothing, or something that an idle one owns. -/
theorem Releases.construct (h : Releases s.ptrs s.releases s.heap) (hrel : p.released = false)
    (hlive : ∀ r ∈ s.releases, r.pc = .delete → (refcnt heap' r.object).isSome)
    (hfrom : ∀ x, p.owns x = true → (refcnt s.heap x).isSome →
      ∃ j q, s.ptrs[j]? = some q ∧ q.owns x = true ∧ Idle s j) :
    Releases (s.construct p).ptrs s.releases heap' := by
  refine h.edit (fun _ _ hi _ => hi) (fun r hr hpc k hk => getElem?_construct_of_lt (h.operand_lt hr hpc hk)) hlive
    (fun k p' x hp hown hx => ?_) fun k p' hp hr => ?_
  · rcases getElem?_construct hp with hp | ⟨-, rfl⟩
    · exact ⟨k, p', hp, hown, .inl rfl⟩
    · obtain ⟨j, q, hq, hqo, hidle⟩ := hfrom x hown hx
      exact ⟨j, q, hq, hqo, .inr hidle⟩
  · rcases getElem?_construct hp with hp | ⟨-, rfl⟩
    · exact h.released k p' hp hr
    · rw [hrel] at hr
      cases hr

/-- A RefPtr that owns nothing may be added. -/
theorem Inv.construct (hinv : Inv statics s) (hrel : p.released = false) (hown : ∀ x, p.owns x = false) :
    Inv statics (s.construct p) where
  objects := hinv.objects
  counted := by
    refine hinv.counted.congr (fun x => ?_) fun _ h => h
    rw [owners_construct, hown x]
    rfl
  releases := by
    refine hinv.releases.construct hrel (fun r hr hpc => (hinv.releases.alone r hr hpc).1) fun x hx => ?_
    rw [hown x] at hx
    cases hx
  no_fault := hinv.no_fault

/-! ### New objects and copies -/

/-- **`makeRefPtr`**: the new object has a count of one and one owner. -/
theorem Inv.makeRefPtr (hinv : Inv statics s) (h : makeRefPtr s x = some s') : Inv statics s' := by
  unfold RefPtr.makeRefPtr at h
  split at h
  · rename_i hx
    obtain rfl := Option.some.inj h
    obtain ⟨hal, hnone⟩ := hx
    have hget := get_ofRefCounted hal.1
    have hown : ∀ y, (ofRefCounted x).owns y = true ↔ y = x := by
      intro y
      rw [owns_iff, hget]
      exact ⟨fun h => h.2.2.2.symm, fun h => ⟨rfl, rfl, hasOwnedBit_ofRefCounted x, h.symm⟩⟩
    -- the address was free, so nothing owned an object there
    have hgone : refcnt s.heap x = none := by
      unfold refcnt
      rw [hnone]
      rfl
    have hzero : s.owners x = 0 := by
      by_contra hne
      have hsome := hinv.counted.present x (by omega)
      rw [hgone] at hsome
      cases hsome
    have hrefcnt : refcnt (Function.update s.heap x (some ⟨1, some s.nextNumber⟩)) =
        Function.update (refcnt s.heap) x (some 1) :=
      refcnt_update (o := ⟨1, some s.nextNumber⟩) rfl 1
    refine ⟨hinv.objects.new hal hnone, ?_, ?_, hinv.no_fault⟩
    · show Counted (s.construct (ofRefCounted x)).owners (refcnt (Function.update s.heap x _)) (Doomed s.releases)
      rw [hrefcnt]
      refine hinv.counted.change (fun y hy => ?_) ?_ (.inl Nat.one_pos) fun _ _ h => h
      · rw [owners_construct, Bool.eq_false_iff.2 fun h => hy ((hown y).1 h)]
        rfl
      · rw [owners_construct, (hown x).2 rfl, hzero]
        rfl
    · refine hinv.releases.construct rfl (fun r hr hpc => ?_) fun y hy hsome => ?_
      · have hlive := (hinv.releases.alone r hr hpc).1
        have hne : r.object ≠ x := by
          rintro e
          rw [e, hgone] at hlive
          cases hlive
        rw [hrefcnt, Function.update_of_ne hne]
        exact hlive
      · rw [(hown y).1 hy, hgone] at hsome
        cases hsome
  · cases h

/-- **`singleton`** counts nothing, since the object is not counted. -/
theorem Inv.singleton (hinv : Inv statics s) (h : singleton s x = some s') : Inv statics s' := by
  unfold RefPtr.singleton at h
  split at h
  · rename_i hx
    obtain rfl := Option.some.inj h
    obtain ⟨o, ho⟩ := Option.isSome_iff_exists.1 hx
    refine hinv.construct rfl (owns_of_no_bit ?_)
    simp [hasOwnedBit, hinv.objects.aligned x o ho]
  · cases h

/-- **A copy** counts one more, with one more owner. -/
theorem Inv.copy (hinv : Inv statics s) (hidle : Idle s that) (h : copy s that = some s') : Inv statics s' := by
  obtain ⟨p, hlive, rfl⟩ := Option.map_eq_some_iff.1 h
  obtain ⟨hp, hc⟩ := live_eq_some.1 hlive
  have hr := hidle.not_released hinv hp
  have hcopy := owns_copy hc hr
  by_cases hbit : p.hasOwnedBit = true
  · have howns : p.owns p.get = true := owns_iff.2 ⟨hc, hr, hbit, rfl⟩
    -- `that` owns a reference throughout, so the object is there to be counted
    have hpos : 0 < s.owners p.get := List.countP_pos_iff.2 ⟨p, List.mem_of_getElem? hp, howns⟩
    obtain ⟨o, ho, hn⟩ := refcnt_isSome.1 (hinv.counted.present _ hpos)
    have hcount := hinv.counted.eq _ _ (refcnt_eq_some ho hn)
    have hrefcnt : refcnt (Function.update s.heap p.get (some { o with refcnt_ := o.refcnt_ + 1 })) =
        Function.update (refcnt s.heap) p.get (some (o.refcnt_ + 1)) := refcnt_update hn _
    simp only [hbit, if_true, ho]
    refine ⟨hinv.objects.setRefcnt ho hn _, ?_, ?_, hinv.no_fault⟩
    · show Counted (s.construct { ptr_ := p.ptr_ }).owners (refcnt (Function.update s.heap p.get _)) (Doomed s.releases)
      rw [hrefcnt]
      refine hinv.counted.change (fun y hy => ?_) ?_ (.inl (Nat.succ_pos _)) fun _ _ h => h
      · rw [owners_construct, hcopy, Bool.eq_false_iff.2 fun h => hy (owns_iff.1 h).2.2.2.symm]
        rfl
      · rw [owners_construct, hcopy, howns, ← hcount]
        rfl
    · refine hinv.releases.construct rfl (fun r hr' hpc => ?_) fun y hy _ => ?_
      · rw [hrefcnt]
        by_cases hx : r.object = p.get
        · rw [hx, Function.update_self]
          rfl
        · rw [Function.update_of_ne hx]
          exact (hinv.releases.alone r hr' hpc).1
      · rw [hcopy] at hy
        exact ⟨that, p, hp, hy, hidle⟩
  · rw [Bool.not_eq_true] at hbit
    simp only [hbit, Bool.false_eq_true, if_false]
    exact hinv.construct rfl fun x => (hcopy x).trans (owns_of_no_bit hbit x)

end RefPtr

end EdenCommon
