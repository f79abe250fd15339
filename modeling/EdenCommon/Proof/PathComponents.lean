import EdenCommon.Proof.PathSyntax
import Mathlib.Data.List.Basic

/-!
# Components and back

On every platform the iterators of a valid path visit its components, forwards and
backwards, and joining them gives the path back, up to the separators on Windows
(`component_round_trip`). `splitFirst` takes the first component off.

* `components_pieces`: the components of a valid relative path are the pieces between its
  separators.
* `joinWith_components`, `ofRange_components_eq`: a valid relative path is what its
  components are joined to, byte by byte on POSIX and as a path everywhere.
* `splitFirst_spec`: a nonempty path is its first component and what `splitFirst` leaves,
  which is a valid path again.
-/

namespace EdenCommon

variable {P : Platform} {cs : List Bytes}

/-! ### What the iterators visit -/

theorem components_join (hcs : ∀ c ∈ cs, IsComponent P c) :
    RelativePath.components P ⟨joinWith kDirSeparator cs⟩ = cs ∧
      RelativePath.rcomponents P ⟨joinWith kDirSeparator cs⟩ = cs.reverse :=
  componentsOf_joinWith [] (kDirSeparator_isDirSeparator P) hcs

theorem components_root_join (hcs : ∀ c ∈ cs, IsComponent P c) :
    AbsolutePath.components P ⟨kRootStr P ++ joinWith (kAbsDirSeparator P) cs⟩ = cs ∧
      AbsolutePath.rcomponents P ⟨kRootStr P ++ joinWith (kAbsDirSeparator P) cs⟩ = cs.reverse :=
  componentsOf_joinWith (kRootStr P) (kAbsDirSeparator_isDirSeparator P) hcs

/-- A valid absolute path is the root and a join of components; the root is the join of none. -/
theorem exists_join_absolute {a : AbsolutePath} (ha : a.Valid P) :
    ∃ cs, (∀ c ∈ cs, IsComponent P c) ∧ a.path_ = kRootStr P ++ joinWith (kAbsDirSeparator P) cs := by
  rcases (absolutePathSanityCheck_iff_pieces a.path_ _).1 ha with
    hroot | ⟨cs, -, hcs, heq⟩
  · exact ⟨[], by simp, by simp [hroot]⟩
  · exact ⟨cs, hcs, heq⟩

/-- The pieces of a nonempty valid relative path are components. -/
theorem RelativePath.Valid.pieces {p : RelativePath} (hp : p.Valid P) (hne : p.path_ ≠ []) :
    ∀ c ∈ p.path_.splitOnP (isDirSeparator P), IsComponent P c :=
  ((relativePathSanityCheck_iff_pieces p.path_ _).1 hp).resolve_left hne

/-- **The components of a valid relative path** are its pieces. -/
theorem components_pieces {p : RelativePath} (hp : p.Valid P) (hne : p.path_ ≠ []) :
    p.components P = p.path_.splitOnP (isDirSeparator P) :=
  (componentsOf_pieces [] hne fun c hc => (hp.pieces hne c hc).ne_nil).1

theorem components_nil : RelativePath.components P ⟨[]⟩ = [] := (componentsOf_self []).1

theorem components_valid {p : RelativePath} (hp : p.Valid P) : ∀ c ∈ p.components P, IsComponent P c := by
  by_cases hne : p.path_ = []
  · obtain ⟨s⟩ := p
    obtain rfl : s = [] := hne
    rw [components_nil]; simp
  · rw [components_pieces hp hne]; exact hp.pieces hne

theorem components_absolute_valid {a : AbsolutePath} (ha : a.Valid P) : ∀ c ∈ a.components P, IsComponent P c := by
  obtain ⟨s⟩ := a
  obtain ⟨cs, hcs, heq⟩ := exists_join_absolute ha
  obtain rfl : s = _ := heq
  rwa [(components_root_join hcs).1]

/-! ### Equality -/

/-- On POSIX a valid relative path is the join of its components. -/
theorem joinWith_components {p : RelativePath} (hp : p.Valid .posix) :
    joinWith kDirSeparator (p.components .posix) = p.path_ := by
  by_cases hne : p.path_ = []
  · obtain ⟨s⟩ := p
    obtain rfl : s = [] := hne
    rw [components_nil]; rfl
  · have hpred : isDirSeparator .posix = (· == kDirSeparator) := by
      funext c; simp [isDirSeparator, Platform.kIsWindows]
    rw [components_pieces hp hne, hpred, ← List.splitOn_eq_splitOnP]
    exact List.intercalate_splitOn _

/-- **A valid relative path equals what its components are joined to.** -/
theorem ofRange_components_eq {p : RelativePath} (hp : p.Valid P) :
    (RelativePath.ofRange ((p.components P).map PathComponent.mk)).eq P p = true := by
  have hmap : ((p.components P).map PathComponent.mk).map PathComponent.path_ = p.components P := by
    rw [List.map_map]; exact List.map_id _
  unfold RelativePath.eq RelativePath.ofRange
  rw [hmap]
  -- POSIX compares the bytes, Windows the components
  cases P with
  | posix => simp [Platform.kIsWindows, joinWith_components hp]
  | windows => simp [Platform.kIsWindows, (components_join (components_valid hp)).1]

/-! ### Composition -/

theorem AbsolutePath.add_nil (a : AbsolutePath) : a.add P ⟨[]⟩ = a := if_pos rfl

theorem AbsolutePath.add_of_ne {a : AbsolutePath} {b : RelativePath} (hb : b.path_ ≠ []) (ha : a.path_ ≠ kRootStr P) :
    a.add P b = ⟨a.path_ ++ kAbsDirSeparator P :: joinWith (kAbsDirSeparator P) (b.components P)⟩ := by
  unfold AbsolutePath.add
  rw [if_neg hb, if_neg ha]

/-! ### `splitFirst` -/

theorem findPathSeparator_eq (str : Bytes) : findPathSeparator P str = str.findIdx? (isDirSeparator P) := by
  unfold findPathSeparator find
  cases P with
  | posix =>
    simp only [Platform.kIsWindows, Bool.false_eq_true, if_false]
    congr 1
    funext c
    simp [isDirSeparator, Platform.kIsWindows]
  | windows =>
    have hor := @Lib.findIdx?_or _ (· == kDirSeparator) (· == kWinDirSeparator) str
    have hpred : isDirSeparator .windows = fun c => c == kDirSeparator || c == kWinDirSeparator := by
      funext c; simp [isDirSeparator, Platform.kIsWindows]
    rw [hpred, hor]
    rfl

/-- **`splitFirst` takes the first component off** a nonempty valid path. -/
theorem splitFirst_spec {p : RelativePath} (hp : p.Valid P) (hne : p.path_ ≠ []) (after : Bytes) :
    ∃ c rest r, p.components P = c :: rest ∧ splitFirst P p after = .ok (⟨c⟩, r) ∧ r.Valid P ∧
      r.components P = rest := by
  have hpieces := hp.pieces hne
  rw [components_pieces hp hne]
  unfold splitFirst
  rw [findPathSeparator_eq]
  cases hi : p.path_.findIdx? (isDirSeparator P) with
  | none =>
    -- one component: what is left is the empty path
    have hone := Lib.splitOnP_of_findIdx_eq (List.findIdx?_eq_none_iff_findIdx_eq.1 hi)
    have hc : IsComponent P p.path_ := hpieces _ (by rw [hone]; exact List.mem_singleton_self _)
    refine ⟨p.path_, [], ⟨[]⟩, hone, ?_, rfl, components_nil⟩
    simp only [(pathComponentSanityCheck_ok_iff p.path_ after).2 hc, ok_bind, pure_eq_ok]
  | some i =>
    obtain ⟨hlt, hidx⟩ := List.findIdx?_eq_some_iff_findIdx_eq.1 hi
    have hcut := Lib.splitOnP_of_findIdx_lt (p := isDirSeparator P) (l := p.path_) (by rw [hidx]; exact hlt)
    rw [hidx] at hcut
    have hc : IsComponent P (p.path_.take i) := hpieces _ (by rw [hcut]; exact List.mem_cons_self)
    have hrest : ∀ c ∈ (p.path_.drop (i + 1)).splitOnP (isDirSeparator P), IsComponent P c := fun c hm =>
      hpieces c (by rw [hcut]; exact List.mem_cons_of_mem _ hm)
    -- the path does not end in a separator
    have hnil : p.path_.drop (i + 1) ≠ [] := by
      intro h
      rw [h] at hrest
      exact (hrest [] (by simp)).ne_nil rfl
    have hvalid : RelativePath.Valid P ⟨p.path_.drop (i + 1)⟩ :=
      (relativePathSanityCheck_iff_pieces _ _).2 (.inr hrest)
    refine ⟨_, _, ⟨p.path_.drop (i + 1)⟩, hcut, ?_, hvalid, components_pieces hvalid hnil⟩
    simp only [ok_bind, pure_eq_ok, (pathComponentSanityCheck_ok_iff (p.path_.take i) _).2 hc,
      (relativePathSanityCheck_iff_pieces (p.path_.drop (i + 1)) _).2 (.inr hrest)]

/-- **Component round trip.** Joining components and iterating, forwards or backwards,
gives them back; a valid relative path equals the join of its components; a valid
absolute path is the root followed by the components it yields; and `splitFirst` is the
first component and the path of the others. -/
theorem component_round_trip (P : Platform) :
    (∀ cs : List PathComponent, (∀ c ∈ cs, c.Valid P) →
      (RelativePath.ofRange cs).components P = cs.map PathComponent.path_ ∧
      (RelativePath.ofRange cs).rcomponents P = (cs.map PathComponent.path_).reverse) ∧
    (∀ p : RelativePath, p.Valid P →
      (RelativePath.ofRange ((p.components P).map PathComponent.mk)).eq P p = true) ∧
    (∀ a : AbsolutePath, a.Valid P →
      a.path_ = kRootStr P ++ joinWith (kAbsDirSeparator P) (a.components P) ∧
      (∀ c ∈ a.components P, PathComponent.Valid P ⟨c⟩) ∧
      a.rcomponents P = (a.components P).reverse) ∧
    ∀ p : RelativePath, p.Valid P → p.path_ ≠ [] → ∀ (b : UInt8) (t : Bytes), isValidContinuation b = false →
      ∃ c rest r, p.components P = c :: rest ∧ splitFirst P p (b :: t) = .ok (⟨c⟩, r) ∧
        r.components P = rest ∧ (RelativePath.ofRange (rest.map PathComponent.mk)).eq P r = true := by
  refine ⟨fun cs hcs => ?_, fun p hp => ofRange_components_eq hp, fun a ha => ?_, ?_⟩
  · refine components_join fun c hc => ?_
    obtain ⟨d, hd, rfl⟩ := List.mem_map.1 hc
    exact (pathComponent_valid_iff_isComponent d).1 (hcs d hd)
  · obtain ⟨s⟩ := a
    obtain ⟨cs, hcs, heq⟩ := exists_join_absolute ha
    obtain rfl : s = _ := heq
    obtain ⟨h1, h2⟩ := components_root_join hcs
    rw [h1, h2]
    exact ⟨rfl, fun c hc => (pathComponent_valid_iff_isComponent ⟨c⟩).2 (hcs c hc), rfl⟩
  · intro p hp hne b t hb
    obtain ⟨c, rest, r, h1, h2, h3, h4⟩ := splitFirst_spec hp hne (b :: t)
    refine ⟨c, rest, r, h1, h2, h4, ?_⟩
    rw [← h4]
    exact ofRange_components_eq h3

/-- `a` and `b`, joined and visited again. -/
theorem component_round_trip_a_b :
    (RelativePath.ofRange [⟨[0x61]⟩, ⟨[0x62]⟩]).components .posix = [[0x61], [0x62]] ∧
      (RelativePath.ofRange [⟨[0x61]⟩, ⟨[0x62]⟩]).rcomponents .posix = [[0x62], [0x61]] :=
  (component_round_trip .posix).1 [⟨[0x61]⟩, ⟨[0x62]⟩] (by decide)

/-- On Windows `r\s/t` splits into `r` and `s/t`. -/
example : splitFirst .windows ⟨[0x72, 0x5C, 0x73, 0x2F, 0x74]⟩ nulTerminator =
    .ok (⟨[0x72]⟩, ⟨[0x73, 0x2F, 0x74]⟩) := by rfl

end EdenCommon
