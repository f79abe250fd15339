import EdenCommon.Proof.PathSyntax

/-!
# The grammar of POSIX paths

On POSIX a valid path is a list of valid components joined by single slashes, behind
a slash if it is absolute. The sanity checks accept exactly these
(`sanityCheck_grammar`, `relativePath_valid_iff`, `absolutePath_valid_iff`), and the
component iterator gives the list back (`components_relOf`, `components_absOf`). So
results about valid paths are results about lists of components.

* `splitOn_joinWith`, `joinWith_inj`: valid components are the pieces of their join, so the
  join determines the list and the other way round.
* `no_outer_slash`: a path none of whose pieces is empty neither starts nor ends with a
  slash, which is what the checks look at first.
-/

namespace EdenCommon

@[simp] theorem isDirSeparator_posix (c : UInt8) : isDirSeparator .posix c = (c == kDirSeparator) := by
  simp [isDirSeparator, Platform.kIsWindows]

@[simp] theorem kRootStr_posix : kRootStr .posix = [kDirSeparator] := rfl

@[simp] theorem kAbsDirSeparator_posix : kAbsDirSeparator .posix = kDirSeparator := rfl

/-- **A valid component on POSIX.** -/
structure ValidComponent (c : Bytes) : Prop where
  ne_nil : c ≠ []
  no_sep : kDirSeparator ∉ c
  no_nul : 0 ∉ c
  ne_dot : c ≠ dot
  ne_dotDot : c ≠ dotDot
  utf8 : AcceptedUtf8 c

/-- The path with the given components. -/
def relOf (cs : List Bytes) : RelativePath := ⟨joinWith kDirSeparator cs⟩
def absOf (cs : List Bytes) : AbsolutePath := ⟨kDirSeparator :: joinWith kDirSeparator cs⟩

/-- On POSIX the only separator is the slash. -/
theorem isComponent_posix {c : Bytes} : IsComponent .posix c ↔ ValidComponent c := by
  have hsep : (∀ x ∈ c, isDirSeparator .posix x = false) ↔ kDirSeparator ∉ c := by
    simp only [isDirSeparator_posix, beq_eq_false_iff_ne]
    exact ⟨fun h hm => h _ hm rfl, fun h x hx he => h (he ▸ hx)⟩
  constructor
  · rintro ⟨h1, h2, h3, h4, h5, h6⟩
    exact ⟨h1, hsep.1 h2, h3, h4, h5, h6⟩
  · rintro ⟨h1, h2, h3, h4, h5, h6⟩
    exact ⟨h1, hsep.2 h2, h3, h4, h5, h6⟩

theorem splitOnP_posix (s : Bytes) : s.splitOnP (isDirSeparator .posix) = s.splitOn kDirSeparator := by
  rw [List.splitOn_eq_splitOnP]
  congr 1
  funext c
  exact isDirSeparator_posix c

/-! ### Joining -/

/-- Valid components are the pieces of their join. -/
theorem splitOn_joinWith {cs : List Bytes} (h : ∀ c ∈ cs, kDirSeparator ∉ c) (hne : cs ≠ []) :
    (joinWith kDirSeparator cs).splitOn kDirSeparator = cs :=
  List.splitOn_intercalate _ h hne

theorem joinWith_splitOn (s : Bytes) : joinWith kDirSeparator (s.splitOn kDirSeparator) = s :=
  List.intercalate_splitOn _

/-- The list of pieces determines the join, and the other way round. -/
theorem joinWith_inj {cs ds : List Bytes} (hc : ∀ c ∈ cs, ValidComponent c) (hd : ∀ d ∈ ds, ValidComponent d)
    (h : joinWith kDirSeparator cs = joinWith kDirSeparator ds) : cs = ds := by
  by_cases hcn : cs = []
  · subst hcn
    exact ((joinWith_eq_nil fun d hd' => (hd d hd').ne_nil).1 h.symm).symm
  · have hdn : ds ≠ [] := by
      rintro rfl
      exact hcn ((joinWith_eq_nil fun c hc' => (hc c hc').ne_nil).1 h)
    rw [← splitOn_joinWith (fun c h => (hc c h).no_sep) hcn, h,
      splitOn_joinWith (fun d h => (hd d h).no_sep) hdn]

/-- The pieces of a path none of which is empty neither start nor end with a slash. -/
theorem no_outer_slash {s : Bytes} (h : ∀ c ∈ s.splitOn kDirSeparator, c ≠ []) :
    s.head? ≠ some kDirSeparator ∧ s.getLast? ≠ some kDirSeparator := by
  rw [← splitOnP_posix] at h
  obtain ⟨h1, h2⟩ := Lib.no_outer_separator h
  exact ⟨fun hh => by simpa using h1 _ hh, fun hl => by simpa using h2 _ hl⟩

/-! ### The checks -/

theorem pathComponentSanityCheck_iff (c after : Bytes) :
    pathComponentSanityCheck .posix c after = .ok () ↔ ValidComponent c :=
  (pathComponentSanityCheck_ok_iff c after).trans isComponent_posix

theorem pathComponent_valid_iff {c : Bytes} : PathComponent.Valid .posix ⟨c⟩ ↔ ValidComponent c :=
  pathComponentSanityCheck_iff c _

instance (c : Bytes) : Decidable (ValidComponent c) := decidable_of_iff _ pathComponent_valid_iff

theorem absolutePathSanityCheck_thrown {val : Bytes} {e : PathError}
    (h : absolutePathSanityCheck .posix val nulTerminator = .error e) : e.Thrown := by
  unfold absolutePathSanityCheck at h
  split at h
  · cases h; exact ⟨nofun, nofun⟩
  split at h
  · cases h; exact ⟨nofun, nofun⟩
  simp only at h
  split at h
  · exact composedPathLoop_thrown not_continuation_of_absolute (show isValidContinuation 0 = false by decide)
      _ 0 (by simp) h
  · cases h

theorem relativePathSanityCheck_iff (s after : Bytes) :
    relativePathSanityCheck .posix s after = .ok () ↔
      s = [] ∨ ∃ cs, cs ≠ [] ∧ (∀ c ∈ cs, ValidComponent c) ∧ s = joinWith kDirSeparator cs := by
  rw [relativePathSanityCheck_iff_pieces, splitOnP_posix]
  simp only [isComponent_posix]
  refine or_congr_right ⟨fun h => ⟨_, List.splitOnP_ne_nil _ s, h, (joinWith_splitOn s).symm⟩, ?_⟩
  rintro ⟨cs, hne, hcs, rfl⟩
  rwa [splitOn_joinWith (fun c hc => (hcs c hc).no_sep) hne]

theorem absolutePathSanityCheck_iff (s after : Bytes) :
    absolutePathSanityCheck .posix s after = .ok () ↔
      s = [kDirSeparator] ∨
        ∃ cs, cs ≠ [] ∧ (∀ c ∈ cs, ValidComponent c) ∧ s = kDirSeparator :: joinWith kDirSeparator cs := by
  rw [absolutePathSanityCheck_iff_pieces]
  simp only [isComponent_posix, kRootStr_posix, kAbsDirSeparator_posix, List.singleton_append]

/-- **The sanity checks accept the grammar of POSIX paths**: joins of valid components
by single slashes, whatever stands behind the string in memory, unless it is a
continuation byte. -/
theorem sanityCheck_grammar (s t : Bytes) (b : UInt8) (hb : isValidContinuation b = false) :
    (relativePathSanityCheck .posix s (b :: t) = .ok () ↔
      s = [] ∨ ∃ cs, cs ≠ [] ∧ (∀ c ∈ cs, ValidComponent c) ∧ s = joinWith kDirSeparator cs) ∧
    (absolutePathSanityCheck .posix s (b :: t) = .ok () ↔
      s = [kDirSeparator] ∨
        ∃ cs, cs ≠ [] ∧ (∀ c ∈ cs, ValidComponent c) ∧ s = kDirSeparator :: joinWith kDirSeparator cs) ∧
    ∀ c, ValidComponent c ↔ c ≠ [] ∧ kDirSeparator ∉ c ∧ 0 ∉ c ∧ c ≠ dot ∧ c ≠ dotDot ∧
      isValidUtf8 c (b :: t) = some true := by
  refine ⟨relativePathSanityCheck_iff s _, absolutePathSanityCheck_iff s _, fun c => ?_⟩
  rw [isValidUtf8_iff hb]
  exact ⟨fun ⟨h1, h2, h3, h4, h5, h6⟩ => ⟨h1, h2, h3, h4, h5, h6⟩,
    fun ⟨h1, h2, h3, h4, h5, h6⟩ => ⟨h1, h2, h3, h4, h5, h6⟩⟩

/-- `a/b`, in front of a NUL. -/
theorem sanityCheck_grammar_a_b : relativePathSanityCheck .posix [0x61, 0x2F, 0x62] [0] = .ok () :=
  (sanityCheck_grammar [0x61, 0x2F, 0x62] [] 0 (by decide)).1.2
    (.inr ⟨[[0x61], [0x62]], by decide, by decide, by decide⟩)

/-! ### Valid paths are joins of valid components -/

/-- **The valid relative paths** are the joins of valid components. -/
theorem relativePath_valid_iff {r : RelativePath} :
    r.Valid .posix ↔ ∃ cs, (∀ c ∈ cs, ValidComponent c) ∧ r = relOf cs := by
  obtain ⟨s⟩ := r
  refine (relativePathSanityCheck_iff s _).trans ⟨?_, ?_⟩
  · rintro (rfl | ⟨cs, -, hcs, rfl⟩)
    · exact ⟨[], by simp, rfl⟩
    · exact ⟨cs, hcs, rfl⟩
  · rintro ⟨cs, hcs, hr⟩
    obtain rfl : s = joinWith kDirSeparator cs := congrArg RelativePath.path_ hr
    by_cases hn : cs = []
    · subst hn; exact .inl rfl
    · exact .inr ⟨cs, hn, hcs, rfl⟩

/-- **The valid absolute paths** are a slash and a join of valid components. -/
theorem absolutePath_valid_iff {a : AbsolutePath} :
    a.Valid .posix ↔ ∃ cs, (∀ c ∈ cs, ValidComponent c) ∧ a = absOf cs := by
  obtain ⟨s⟩ := a
  refine (absolutePathSanityCheck_iff s _).trans ⟨?_, ?_⟩
  · rintro (rfl | ⟨cs, -, hcs, rfl⟩)
    · exact ⟨[], by simp, rfl⟩
    · exact ⟨cs, hcs, rfl⟩
  · rintro ⟨cs, hcs, ha⟩
    obtain rfl : s = kDirSeparator :: joinWith kDirSeparator cs := congrArg AbsolutePath.path_ ha
    by_cases hn : cs = []
    · subst hn; exact .inl rfl
    · exact .inr ⟨cs, hn, hcs, rfl⟩

/-! ### The component iterator -/

theorem componentsOf_append {cs : List Bytes} (hcs : ∀ c ∈ cs, ValidComponent c) (front : Bytes) :
    componentsOf .posix (front ++ joinWith kDirSeparator cs) front.length = cs :=
  (componentsOf_joinWith front (kDirSeparator_isDirSeparator _) fun c hc => isComponent_posix.2 (hcs c hc)).1

/-- **The components of a valid relative path** are the ones it was joined from. -/
theorem components_relOf {cs : List Bytes} (hcs : ∀ c ∈ cs, ValidComponent c) :
    (relOf cs).components .posix = cs := componentsOf_append hcs []

/-- **The components of a valid absolute path** are the ones it was joined from. -/
theorem components_absOf {cs : List Bytes} (hcs : ∀ c ∈ cs, ValidComponent c) :
    (absOf cs).components .posix = cs := componentsOf_append hcs [kDirSeparator]

end EdenCommon
