import EdenCommon.Proof.PathComponents

/-!
# `operator+` on Windows

A relative path may be written with either separator on Windows, an absolute path with
`\` only. Below the root `operator+` keeps the bytes of the relative path, elsewhere it
joins its components with `\` (`add_windows_iff`).

The two cases are `root_add` and `add_below_root`. They part ways only in the separators of
the relative path: read as components the sum is right in both (`components_add`). Whether
it is valid is then a question about one byte, since an absolute path of valid components is
valid if and only if it is their join (`absolute_valid_iff`).
-/

namespace EdenCommon

variable {P : Platform}

/-- Behind the root the bytes of the relative path stay as they are. -/
theorem root_add {a : AbsolutePath} (r : RelativePath) (hroot : a.path_ = kRootStr P) :
    a.add P r = ⟨kRootStr P ++ r.path_⟩ := by
  obtain ⟨t⟩ := a
  obtain rfl : t = kRootStr P := hroot
  unfold AbsolutePath.add
  by_cases hnil : r.path_ = []
  · rw [if_pos hnil, hnil, List.append_nil]
  · rw [if_neg hnil, if_pos rfl]

theorem components_root_add {r : RelativePath} (hr : r.Valid P) :
    AbsolutePath.components P ⟨kRootStr P ++ r.path_⟩ = r.components P := by
  obtain ⟨s⟩ := r
  by_cases hnil : s = []
  · subst hnil
    rw [components_nil, List.append_nil]
    exact (componentsOf_self (kRootStr P)).1
  · rw [components_pieces hr hnil]
    exact (componentsOf_pieces (kRootStr P) hnil fun c hc => (hr.pieces hnil c hc).ne_nil).1

/-- Elsewhere the sum is the join of all components. -/
theorem add_below_root {a : AbsolutePath} {r : RelativePath} (ha : a.Valid P) (hr : r.Valid P)
    (hroot : a.path_ ≠ kRootStr P) :
    a.add P r = ⟨kRootStr P ++ joinWith (kAbsDirSeparator P) (a.components P ++ r.components P)⟩ := by
  obtain ⟨s⟩ := r
  obtain ⟨t⟩ := a
  obtain ⟨ds, hds, heq⟩ := exists_join_absolute ha
  obtain rfl : t = _ := heq
  rw [(components_root_join hds).1]
  by_cases hnil : s = []
  · subst hnil
    rw [AbsolutePath.add_nil, components_nil, List.append_nil]
  · have hdsne : ds ≠ [] := by
      rintro rfl
      exact hroot (List.append_nil _)
    have hcsne : RelativePath.components P ⟨s⟩ ≠ [] := by
      rw [components_pieces hr hnil]
      exact List.splitOnP_ne_nil _ s
    rw [AbsolutePath.add_of_ne hnil hroot, joinWith_append _ hdsne hcsne, List.append_assoc]

/-- The components of two valid paths, in a row. -/
theorem components_append_valid {a : AbsolutePath} {r : RelativePath} (ha : a.Valid P) (hr : r.Valid P) :
    ∀ c ∈ a.components P ++ r.components P, IsComponent P c := by
  intro c hc
  rcases List.mem_append.1 hc with hc | hc
  · exact components_absolute_valid ha c hc
  · exact components_valid hr c hc

/-- **Whatever the separators**, the components of the sum are those of the two paths. -/
theorem components_add {a : AbsolutePath} {r : RelativePath} (ha : a.Valid P) (hr : r.Valid P) :
    (a.add P r).components P = a.components P ++ r.components P := by
  by_cases hroot : a.path_ = kRootStr P
  · have hnone : a.components P = [] := by
      obtain ⟨t⟩ := a
      obtain rfl : t = kRootStr P := hroot
      exact (componentsOf_self (kRootStr P)).1
    rw [root_add r hroot, components_root_add hr, hnone, List.nil_append]
  · rw [add_below_root ha hr hroot]
    exact (components_root_join (components_append_valid ha hr)).1

/-- An absolute path whose components are valid is valid iff it is their join. -/
theorem absolute_valid_iff {a : AbsolutePath} (hcs : ∀ c ∈ a.components P, IsComponent P c) :
    a.Valid P ↔ a.path_ = kRootStr P ++ joinWith (kAbsDirSeparator P) (a.components P) := by
  constructor
  · intro ha
    obtain ⟨s⟩ := a
    obtain ⟨ds, hds, heq⟩ := exists_join_absolute ha
    obtain rfl : s = _ := heq
    rw [(components_root_join hds).1]
  · intro heq
    refine (absolutePathSanityCheck_iff_pieces a.path_ _).2 ?_
    by_cases hnil : a.components P = []
    · rw [hnil, joinWith_nil, List.append_nil] at heq
      exact .inl heq
    · exact .inr ⟨_, hnil, hcs, heq⟩

/-- On Windows a relative path is the `\`-join of its components iff it has no slash. -/
theorem slash_not_mem_iff {r : RelativePath} (hr : r.Valid .windows) :
    kDirSeparator ∉ r.path_ ↔ r.path_ = joinWith kWinDirSeparator (r.components .windows) := by
  constructor
  · intro hslash
    by_cases hnil : r.path_ = []
    · obtain ⟨s⟩ := r
      obtain rfl : s = [] := hnil
      rw [components_nil]
      rfl
    · have hpred : ∀ x ∈ r.path_, isDirSeparator .windows x = (x == kWinDirSeparator) := by
        intro x hx
        have hne : (x == kDirSeparator) = false := beq_false_of_ne fun h => hslash (h ▸ hx)
        simp [isDirSeparator, Platform.kIsWindows, hne]
      rw [components_pieces hr hnil, Lib.splitOnP_congr hpred, ← List.splitOn_eq_splitOnP]
      exact (List.intercalate_splitOn _).symm
  · intro heq hslash
    rw [heq] at hslash
    rcases Lib.mem_intercalate hslash with h | ⟨c, hc, hmem⟩
    · cases h
    · have := (components_valid hr c hc).no_sep _ hmem
      rw [kDirSeparator_isDirSeparator] at this
      cases this

/-- **`operator+` on Windows** gives a valid path with the components of both, unless a
path with a slash is added to the root. -/
theorem add_windows_iff (a : AbsolutePath) (r : RelativePath) (ha : a.Valid .windows) (hr : r.Valid .windows) :
    ((a.add .windows r).Valid .windows ∧
        (a.add .windows r).components .windows = a.components .windows ++ r.components .windows) ↔
      a.path_ ≠ kRootStr .windows ∨ kDirSeparator ∉ r.path_ := by
  have hcomponents := components_add ha hr
  rw [and_iff_left hcomponents]
  have hall := components_append_valid ha hr
  rw [← hcomponents] at hall
  rw [absolute_valid_iff hall]
  by_cases hroot : a.path_ = kRootStr .windows
  · rw [root_add r hroot, components_root_add hr, slash_not_mem_iff hr, List.append_cancel_left_eq]
    exact (or_iff_right (not_not.2 hroot)).symm
  · refine iff_of_true ?_ (.inl hroot)
    rw [hcomponents, add_below_root ha hr hroot]

/-- `\\?\a` and `b/c` make up a valid path. -/
theorem add_windows_a_b_c : AbsolutePath.Valid .windows
    (AbsolutePath.add .windows ⟨kUNCPrefix ++ [0x61]⟩ ⟨[0x62, 0x2F, 0x63]⟩) :=
  ((add_windows_iff ⟨kUNCPrefix ++ [0x61]⟩ ⟨[0x62, 0x2F, 0x63]⟩ (by decide) (by decide)).2 (.inl (by decide))).1

/-- The root and `a/b` do not: the slash is kept, and no absolute path may have one. -/
theorem add_windows_keeps_slash :
    AbsolutePath.Valid .windows (.root .windows) ∧ RelativePath.Valid .windows ⟨[0x61, 0x2F, 0x62]⟩ ∧
      AbsolutePath.add .windows (.root .windows) ⟨[0x61, 0x2F, 0x62]⟩ = ⟨kUNCPrefix ++ [0x61, 0x2F, 0x62]⟩ ∧
      ¬ AbsolutePath.Valid .windows (AbsolutePath.add .windows (.root .windows) ⟨[0x61, 0x2F, 0x62]⟩) := by
  decide

end EdenCommon
