import EdenCommon.Lib.Handles
import EdenCommon.Spec.DescriptorOwners

/-!
# Every number has one owner

`Sound` says that the objects and the program between them own exactly what is open. Closing and
moving keep it, an object moved to itself included, and so does every operation.
`descriptors_owned`: in every run no number is closed twice, by the wrong call or while another
object has it, although the kernel gives numbers out again; and none is lost.

* `Sound.close`, `Sound.moveFrom`, `Sound.give`, `Sound.take`, `Sound.opens`: what becomes
  of the numbers when one is closed, handed over, released, adopted or opened. Each lemma is
  about one object and leaves the others alone.
* `Sound.step`: every operation of the program is a row of these, on both platforms.
-/

namespace EdenCommon

namespace FileDescriptor

open Lib

variable {P : Platform} {s s' : Program} {o other : ℕ} {d : FileDescriptor}

structure Sound (P : Platform) (s : Program) : Prop where
  owned : Owned (held s) s.outside s.kernel.isOpen
  valid : ∀ h, s.kernel.isOpen h = true → normalizeHandleValue P h = h ∧ h ≠ kInvalid
  /-- On Windows the type says with which call to close. -/
  typed : P.kIsWindows = true → ∀ o d h, s.objects o = some d → handle? d = some h → s.kernel.table h = some d.fdType_
  closes : s.kernel.badCloses = 0

theorem handle?_eq_some {d : FileDescriptor} {h : ℤ} : handle? d = some h ↔ d.fd_ ≠ kInvalid ∧ d.fd_ = h := by
  unfold handle?
  split <;> simp_all

@[simp] theorem handle?_invalid (fdType : FDType) : handle? ⟨kInvalid, fdType⟩ = none := rfl

/-- What an object owns is its number, if that is valid. -/
theorem held_of (h : s.objects o = some d) : held s o = handle? d := by
  rw [held, h, Option.bind_some]

theorem objects_set_self (s : Program) (o : ℕ) (d : Option FileDescriptor) : (s.set o d).objects o = d :=
  Function.update_self _ _ _

theorem objects_set_of_ne (s : Program) {o o' : ℕ} (h : o' ≠ o) (d : Option FileDescriptor) :
    (s.set o d).objects o' = s.objects o' :=
  Function.update_of_ne h _ _

/-- A new value of one object changes what that one owns. -/
theorem held_set (s : Program) (o : ℕ) (d : Option FileDescriptor) :
    held (s.set o d) = Function.update (held s) o (d.bind handle?) := by
  funext o'
  by_cases ho : o' = o
  · subst ho
    rw [Function.update_self, held, objects_set_self]
  · rw [Function.update_of_ne ho, held, held, objects_set_of_ne s ho]

/-- The invariant with an object replaced, from the object and what has become of the numbers. -/
theorem Sound.set (hs : Sound P s) {k : HandleTable} {outside : ℤ → Bool} {d' : Option FileDescriptor}
    (howned : Owned (Function.update (held s) o (d'.bind handle?)) outside k.isOpen)
    (hvalid : ∀ h, k.isOpen h = true → s.kernel.isOpen h = false → normalizeHandleValue P h = h ∧ h ≠ kInvalid)
    (hsame : ∀ h kind, k.isOpen h = true → s.kernel.table h = some kind → k.table h = some kind)
    (hself : P.kIsWindows = true → ∀ d h, d' = some d → handle? d = some h → k.table h = some d.fdType_)
    (hcloses : k.badCloses = 0) : Sound P { s.set o d' with kernel := k, outside := outside } := by
  have howned' : Owned (held (s.set o d')) outside k.isOpen := by rwa [held_set]
  refine ⟨howned', fun h hopen => ?_, fun hwin o' d h hd hh => ?_, hcloses⟩
  · cases hold : s.kernel.isOpen h with
    | false => exact hvalid h hopen hold
    | true => exact hs.valid h hold
  · by_cases ho : o' = o
    · subst ho
      exact hself hwin d h (by rwa [← objects_set_self s o' d']) hh
    · have hd' : (s.set o d').objects o' = some d := hd
      refine hsame h d.fdType_ (howned'.is_open (i := o') ?_) (hs.typed hwin o' d h ?_ hh)
      · rw [held_of hd', hh]
      · rwa [← objects_set_of_ne s ho d']

theorem isOpen_update (table : ℤ → Option FDType) (h : ℤ) (kind : Option FDType) (n m : ℕ) :
    HandleTable.isOpen ⟨Function.update table h kind, n⟩ = Function.update (HandleTable.isOpen ⟨table, m⟩) h kind.isSome := by
  funext h'
  by_cases hh : h' = h
  · subst hh
    rw [Function.update_self]
    exact congrArg Option.isSome (Function.update_self _ _ _)
  · rw [Function.update_of_ne hh]
    exact congrArg Option.isSome (Function.update_of_ne hh _ _)

/-- A number that is open and goes is closed with the right call. -/
theorem Sound.kernel_close (hs : Sound P s) (hd : s.objects o = some d) {h : ℤ} (hh : handle? d = some h) :
    s.kernel.close P d.fd_ d.fdType_ = { s.kernel with table := Function.update s.kernel.table h none } := by
  obtain ⟨-, rfl⟩ := handle?_eq_some.1 hh
  have hopen : s.kernel.isOpen d.fd_ = true := hs.owned.is_open (i := o) (by rw [held_of hd, hh])
  obtain ⟨kind, hkind⟩ := Option.isSome_iff_exists.1 hopen
  rw [HandleTable.close, hkind]
  refine if_neg ?_
  cases hwin : P.kIsWindows with
  | false => simp
  | true =>
    obtain rfl : kind = d.fdType_ := Option.some.inj (hkind.symm.trans (hs.typed hwin o d d.fd_ hd hh))
    simp

/-- An object without number closes nothing. -/
theorem Program.close_of_invalid (hd : s.objects o = some d) (hfd : d.fd_ = kInvalid) : s.close P o = s := by
  rw [Program.close, hd]
  exact if_pos hfd

theorem close_objects (P : Platform) (hd : s.objects o = some d) :
    (s.close P o).objects = Function.update s.objects o (some { d with fd_ := kInvalid }) := by
  by_cases hfd : d.fd_ = kInvalid
  · rw [Program.close_of_invalid hd hfd, ← hfd]
    show s.objects = Function.update s.objects o (some d)
    rw [← hd, Function.update_eq_self]
  · rw [Program.close, hd]
    dsimp only
    rw [if_neg hfd]
    rfl

/-- **Closing** gives up the number together with the descriptor. -/
theorem Sound.close (hs : Sound P s) (o : ℕ) : Sound P (s.close P o) := by
  cases hd : s.objects o with
  | none => rwa [Program.close, hd]
  | some d =>
    by_cases hfd : d.fd_ = kInvalid
    · rwa [Program.close_of_invalid hd hfd]
    · have hh : handle? d = some d.fd_ := handle?_eq_some.2 ⟨hfd, rfl⟩
      have hheld : held s o = some d.fd_ := by rw [held_of hd, hh]
      rw [Program.close, hd]
      dsimp only
      rw [if_neg hfd, hs.kernel_close hd hh]
      refine hs.set ?_ (fun h hopen hold => ?_) (fun h kind hopen hkind => ?_) ?_ hs.closes
      · rw [isOpen_update s.kernel.table d.fd_ none _ s.kernel.badCloses]
        exact hs.owned.close hheld
      · rw [isOpen_update s.kernel.table d.fd_ none _ s.kernel.badCloses, Function.update_apply] at hopen
        split at hopen
        · cases hopen
        · rw [hold] at hopen
          cases hopen
      · have hne : h ≠ d.fd_ := by
          rintro rfl
          rw [isOpen_update s.kernel.table d.fd_ none _ s.kernel.badCloses, Function.update_self] at hopen
          cases hopen
        show Function.update s.kernel.table d.fd_ none h = some kind
        rwa [Function.update_of_ne hne]
      · intro _ d' h hd' hh'
        obtain rfl := Option.some.inj hd'
        rw [handle?_invalid] at hh'
        cases hh'

/-- What has nothing to do with numbers keeps the invariant. -/
theorem Sound.set_same (hs : Sound P s) {d' : Option FileDescriptor} (ho : held s o = none)
    (hd' : d'.bind handle? = none) : Sound P (s.set o d') := by
  refine hs.set ?_ (fun h hopen hold => ?_) (fun h kind _ hkind => hkind) (fun _ d h hd hh => ?_) hs.closes
  · rw [hd']
    exact hs.owned.same ho
  · cases hopen.symm.trans hold
  · rw [hd, Option.bind_some, hh] at hd'
    cases hd'

/-- An object gives its number up. -/
theorem Sound.give (hs : Sound P s) (hd : s.objects o = some d) {h : ℤ} (hh : handle? d = some h) :
    Sound P { s.set o (some { d with fd_ := kInvalid }) with outside := Function.update s.outside h true } := by
  refine hs.set ?_ (fun h hopen hold => ?_) (fun h kind _ hkind => hkind) (fun _ d' h hd' hh' => ?_) hs.closes
  · exact hs.owned.give (by rw [held_of hd, hh])
  · cases hopen.symm.trans hold
  · obtain rfl := Option.some.inj hd'
    rw [handle?_invalid] at hh'
    cases hh'

/-- A number from outside gets an owner. -/
theorem Sound.take (hs : Sound P s) (ho : held s o = none) {h : ℤ} (hh : handle? d = some h)
    (hout : s.outside h = true) (htype : P.kIsWindows = true → s.kernel.table h = some d.fdType_) :
    Sound P { s.set o (some d) with outside := Function.update s.outside h false } := by
  refine hs.set ?_ (fun h hopen hold => ?_) (fun h kind _ hkind => hkind) (fun hwin d' h' hd' hh' => ?_) hs.closes
  · rw [Option.bind_some, hh]
    exact hs.owned.take ho hout
  · cases hopen.symm.trans hold
  · obtain rfl := Option.some.inj hd'
    obtain rfl := Option.some.inj (hh.symm.trans hh')
    exact htype hwin

/-- **A move** to an object that owns nothing, which may be the same one. -/
theorem Sound.moveFrom (hs : Sound P s) (ho : held s o = none) : Sound P (s.moveFrom o other) := by
  cases hd : s.objects other with
  | none => rwa [Program.moveFrom, hd]
  | some d =>
    rw [Program.moveFrom, hd]
    show Sound P ((s.set o (some d)).set other (some { d with fd_ := kInvalid }))
    cases hh : handle? d with
    | none =>
      have hset : Sound P (s.set o (some d)) := hs.set_same ho hh
      refine hset.set_same ?_ rfl
      rw [held_set, Function.update_apply]
      split
      · exact hh
      · rw [held_of hd, hh]
    | some h =>
      have hother : held s other = some h := by rw [held_of hd, hh]
      have hne : o ≠ other := by
        rintro rfl
        rw [ho] at hother
        cases hother
      -- in between the number is as if outside
      have hgive := hs.give hd hh
      have hnone : held { s.set other (some { d with fd_ := kInvalid }) with
          outside := Function.update s.outside h true } o = none := by
        show held (s.set other (some { d with fd_ := kInvalid })) o = none
        rwa [held_set, Function.update_of_ne hne]
      have htake := hgive.take hnone hh (Function.update_self _ _ _) fun hwin => hs.typed hwin other d h hd hh
      have houtside : Function.update (Function.update s.outside h true) h false = s.outside := by
        rw [Function.update_idem, ← hs.owned.apart other h hother, Function.update_eq_self]
      have hcomm : (s.set o (some d)).set other (some { d with fd_ := kInvalid }) =
          { (s.set other (some { d with fd_ := kInvalid })).set o (some d) with
            outside := Function.update (Function.update s.outside h true) h false } := by
        rw [houtside]
        simp only [Program.set, Function.update_comm hne]
      rw [hcomm]
      exact htake

theorem held_close (P : Platform) (s : Program) (o : ℕ) : held (s.close P o) o = none := by
  cases hd : s.objects o with
  | none => rw [Program.close, hd, held, hd, Option.bind_none]
  | some d => rw [held, close_objects P hd, Function.update_self, Option.bind_some, handle?_invalid]

/-! ### The operations -/

/-- The kernel opens a number, which is outside of the objects at first. -/
theorem Sound.opens (hs : Sound P s) {h : ℤ} (kind : FDType) (hnorm : normalizeHandleValue P h = h) (hne : h ≠ kInvalid)
    (hfree : s.kernel.isOpen h = false) :
    Sound P { s with
      kernel := { s.kernel with table := Function.update s.kernel.table h (some kind) }
      outside := Function.update s.outside h true } := by
  have hopen := isOpen_update s.kernel.table h (some kind) s.kernel.badCloses s.kernel.badCloses
  refine ⟨?_, fun h' hopen' => ?_, fun hwin o d h' hd hh => ?_, hs.closes⟩
  · show Owned (held s) _ _
    rw [hopen]
    exact hs.owned.fresh hfree
  · by_cases hh : h' = h
    · subst hh
      exact ⟨hnorm, hne⟩
    · refine hs.valid h' ?_
      rw [hopen, Function.update_of_ne hh] at hopen'
      exact hopen'
  · have hne' : h' ≠ h := by
      rintro rfl
      have hheld : held s o = some h' := (held_of (s := s) hd).trans hh
      cases hfree.symm.trans (hs.owned.is_open hheld)
    show Function.update s.kernel.table h (some kind) h' = _
    rw [Function.update_of_ne hne']
    exact hs.typed hwin o d h' hd hh

theorem Sound.closes_outside (hs : Sound P s) {h : ℤ} (hout : s.outside h = true) :
    Sound P { s with
      kernel := { s.kernel with table := Function.update s.kernel.table h none }
      outside := Function.update s.outside h false } := by
  have hopen := isOpen_update s.kernel.table h none s.kernel.badCloses s.kernel.badCloses
  refine ⟨?_, fun h' hopen' => ?_, fun hwin o d h' hd hh => ?_, hs.closes⟩
  · show Owned (held s) _ _
    rw [hopen]
    exact hs.owned.close_outside hout
  · refine hs.valid h' ?_
    rw [hopen, Function.update_apply] at hopen'
    split at hopen'
    · cases hopen'
    · exact hopen'
  · have hne' : h' ≠ h := by
      rintro rfl
      have hheld : held s o = some h' := (held_of (s := s) hd).trans hh
      cases hout.symm.trans (hs.owned.apart o h' hheld)
    show Function.update s.kernel.table h none h' = _
    rw [Function.update_of_ne hne']
    exact hs.typed hwin o d h' hd hh

theorem resolveFDType_eq {k : HandleTable} {h : ℤ} {kind fdType : FDType} (hnorm : normalizeHandleValue P h = h)
    (hne : h ≠ kInvalid) (hkind : k.table h = some kind) (htype : fdType = .Unknown ∨ fdType = kind)
    (hwin : P.kIsWindows = true) : resolveFDType P k h fdType = kind := by
  rw [resolveFDType, hnorm, if_neg hne, hwin, hkind]
  obtain rfl | rfl := htype
  · rfl
  · split
    · rfl
    · rename_i hunknown
      rw [not_not.1 hunknown]
      rfl

theorem Sound.duplicate (hs : Sound P s) (ho : s.objects o = none) (hd : s.objects other = some d) {kind : FDType}
    (hkind : s.kernel.table d.fd_ = some kind) {h : ℤ} (hnorm : normalizeHandleValue P h = h) (hne : h ≠ kInvalid)
    (hfree : s.kernel.isOpen h = false) :
    Sound P { s.set o (some (ofHandle P { s.kernel with table := Function.update s.kernel.table h (some kind) } h d.fdType_))
      with kernel := { s.kernel with table := Function.update s.kernel.table h (some kind) } } := by
  have hopens := hs.opens kind hnorm hne hfree
  have hopen : s.kernel.isOpen d.fd_ = true := by rw [HandleTable.isOpen, hkind, Option.isSome_some]
  have hout : s.outside h = false := by
    cases hout : s.outside h with
    | false => rfl
    | true => cases hfree.symm.trans ((hs.owned.opened_iff h).2 (Or.inl hout))
  have hself : Function.update s.kernel.table h (some kind) h = some kind := Function.update_self _ _ _
  have htake := hopens.take (o := o) (d := ofHandle P { s.kernel with table := Function.update s.kernel.table h (some kind) }
      h d.fdType_) (h := h) ?_ ?_ ?_ fun hwin => ?_
  · have houtside : Function.update (Function.update s.outside h true) h false = s.outside := by
      rw [Function.update_idem, ← hout, Function.update_eq_self]
    dsimp only at htake
    rw [houtside] at htake
    exact htake
  · show held s o = none
    rw [held, ho, Option.bind_none]
  · refine handle?_eq_some.2 ⟨?_, hnorm⟩
    rw [ofHandle, hnorm]
    exact hne
  · exact Function.update_self _ _ _
  · have htype : d.fdType_ = kind :=
      Option.some.inj ((hs.typed hwin other d d.fd_ hd (handle?_eq_some.2 ⟨(hs.valid _ hopen).2, rfl⟩)).symm.trans hkind)
    show Function.update s.kernel.table h (some kind) h = _
    rw [hself, ofHandle, resolveFDType_eq hnorm hne hself (Or.inr htype) hwin]

theorem Sound.step (hs : Sound P s) {op : Op} (h : FileDescriptor.step P s op = some s') : Sound P s' := by
  cases op with
  | opens h' kind =>
    rw [FileDescriptor.step, Option.ite_none_right_eq_some] at h
    obtain ⟨⟨hnorm, hne, hfree, -⟩, h⟩ := h
    obtain rfl := Option.some.inj h
    exact hs.opens kind hnorm hne hfree
  | closes h' =>
    rw [FileDescriptor.step, Option.ite_none_right_eq_some] at h
    obtain ⟨hout, h⟩ := h
    obtain rfl := Option.some.inj h
    exact hs.closes_outside hout
  | default o =>
    rw [FileDescriptor.step, Option.ite_none_right_eq_some] at h
    obtain ⟨ho, h⟩ := h
    obtain rfl := Option.some.inj h
    exact hs.set_same (by rw [held, ho, Option.bind_none]) rfl
  | construct o fd fdType =>
    rw [FileDescriptor.step, Option.ite_none_right_eq_some] at h
    obtain ⟨ho, h⟩ := h
    have hnone : held s o = none := by rw [held, ho, Option.bind_none]
    split at h
    · rename_i hinvalid
      obtain rfl := Option.some.inj h
      refine hs.set_same hnone ?_
      rw [Option.bind_some, ofHandle, hinvalid, handle?_invalid]
    · rw [Option.ite_none_right_eq_some] at h
      obtain ⟨⟨hout, htype⟩, h⟩ := h
      obtain rfl := Option.some.inj h
      obtain ⟨kind, hkind⟩ := Option.isSome_iff_exists.1 ((hs.owned.opened_iff fd).2 (Or.inl hout))
      obtain ⟨hnorm, hne⟩ := hs.valid fd ((hs.owned.opened_iff fd).2 (Or.inl hout))
      refine hs.take hnone (handle?_eq_some.2 ⟨?_, hnorm⟩) hout fun hwin => ?_
      · rw [ofHandle, hnorm]
        exact hne
      · have htype' : fdType = .Unknown ∨ fdType = kind :=
          htype.imp_right fun h => (Option.some.inj (hkind.symm.trans h)).symm
        rw [hkind, ofHandle, resolveFDType_eq hnorm hne hkind htype' hwin]
  | moveConstruct o other =>
    rw [FileDescriptor.step, Option.ite_none_right_eq_some] at h
    obtain ⟨⟨ho, -⟩, h⟩ := h
    obtain rfl := Option.some.inj h
    exact hs.moveFrom (by rw [held, ho, Option.bind_none])
  | moveAssign o other =>
    rw [FileDescriptor.step, Option.ite_none_right_eq_some] at h
    obtain ⟨-, h⟩ := h
    obtain rfl := Option.some.inj h
    exact (hs.close o).moveFrom (held_close P s o)
  | close o =>
    rw [FileDescriptor.step, Option.ite_none_right_eq_some] at h
    obtain ⟨-, h⟩ := h
    obtain rfl := Option.some.inj h
    exact hs.close o
  | release o =>
    obtain ⟨d, hd, h⟩ := Option.map_eq_some_iff.1 h
    split at h
    · rwa [← h]
    · rename_i hne
      subst h
      exact hs.give hd (handle?_eq_some.2 ⟨hne, rfl⟩)
  | duplicate o other newHandle =>
    cases ho : s.objects o with
    | some d => simp [FileDescriptor.step, ho] at h
    | none =>
      cases hd : s.objects other with
      | none => simp [FileDescriptor.step, ho, hd] at h
      | some d =>
        cases newHandle with
        | none =>
          obtain rfl : s = s' := by simpa [FileDescriptor.step, ho, hd] using h
          exact hs
        | some h' =>
          cases hkind : s.kernel.table d.fd_ with
          | none => simp [FileDescriptor.step, ho, hd, hkind] at h
          | some kind =>
            simp only [FileDescriptor.step, ho, hd, hkind, Option.ite_none_right_eq_some] at h
            obtain ⟨⟨hnorm, hne, hfree⟩, h⟩ := h
            obtain rfl := Option.some.inj h
            exact hs.duplicate ho hd hkind hnorm hne hfree
  | destroy o =>
    rw [FileDescriptor.step, Option.ite_none_right_eq_some] at h
    obtain ⟨-, h⟩ := h
    obtain rfl := Option.some.inj h
    exact (hs.close o).set_same (held_close P s o) rfl

end FileDescriptor

end EdenCommon
