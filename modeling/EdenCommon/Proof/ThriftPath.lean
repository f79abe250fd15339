import EdenCommon.Proof.Canonical
import EdenCommon.Proof.PathComponents

/-!
# Absolute paths through Thrift

`absolutePathToThrift` takes the root off a Windows path and `absolutePathFromThrift` is
`canonicalPath`, which takes what is left for absolute only if it begins with a drive
letter. So the way back ends at the same path on POSIX, below a drive letter, and if the
current directory is the root; any other Windows path is resolved against the current
directory (`thrift_round_trip_iff`).

The scan of a join of components is followed here on both platforms: it skips over the
bytes of a component, cuts at a separator, and cuts once more at the end.
-/

namespace EdenCommon

variable {P : Platform} {cs : List Bytes} {c : Bytes}

/-- The absolute path with the given components. -/
def joinAbs (P : Platform) (cs : List Bytes) : AbsolutePath := ⟨kRootStr P ++ joinWith (kAbsDirSeparator P) cs⟩

theorem valid_iff_joinAbs {p : AbsolutePath} :
    p.Valid P ↔ ∃ cs, (∀ c ∈ cs, IsComponent P c) ∧ p = joinAbs P cs := by
  have h := @absolutePathSanityCheck_iff_pieces P p.path_ nulTerminator
  constructor
  · intro hv
    rcases h.1 hv with hr | ⟨cs, -, hcs, hp⟩
    · refine ⟨[], by simp, ?_⟩
      unfold joinAbs
      rw [joinWith_nil, List.append_nil, ← hr]
    · refine ⟨cs, hcs, ?_⟩
      unfold joinAbs
      rw [← hp]
  · intro hex
    obtain ⟨cs, hcs, rfl⟩ := hex
    refine h.2 ?_
    by_cases hn : cs = []
    · left; subst hn; exact List.append_nil _
    · right; exact ⟨cs, hn, hcs, rfl⟩

theorem joinAbs_inj {cs cs' : List Bytes} (hcs : ∀ c ∈ cs, IsComponent P c) (hcs' : ∀ c ∈ cs', IsComponent P c)
    (h : joinAbs P cs = joinAbs P cs') : cs = cs' := by
  calc cs = (joinAbs P cs).components P := (components_root_join hcs).1.symm
    _ = (joinAbs P cs').components P := by rw [h]
    _ = cs' := (components_root_join hcs').1

theorem makeAbsolutePath_joinAbs (hcs : ∀ c ∈ cs, IsComponent P c) : makeAbsolutePath P cs = .ok (joinAbs P cs) := by
  have hv : (joinAbs P cs).Valid P := valid_iff_joinAbs.2 ⟨cs, hcs, rfl⟩
  unfold makeAbsolutePath
  by_cases hn : cs = []
  · subst hn
    rw [if_pos rfl]
    unfold joinAbs AbsolutePath.root
    rw [joinWith_nil, List.append_nil]
  · rw [if_neg hn]
    unfold AbsolutePath.Valid joinAbs at hv
    simp only [hv]
    rfl

/-! ### Scanning a join -/

/-- A component is pushed; the first one also tells whether it is a drive letter. -/
theorem pushComponent_component (hc : IsComponent P c) (atStart : Bool) (data : CanonicalData) :
    pushComponent P atStart data c =
      ⟨data.components ++ [c], data.isAbsolute || (P.kIsWindows && atStart && isDriveLetter c)⟩ := by
  unfold pushComponent
  rw [if_neg hc.ne_nil, if_neg hc.ne_dot, if_neg hc.ne_dotDot]
  rfl

/-- The scan passes over the bytes of a component. -/
theorem scanPath_component (path : Bytes) (s : ScanState) :
    ∀ (c rest : Bytes) (p : ℕ), (∀ x ∈ c, isDirSeparator P x = false) →
      scanPath P path (c ++ rest) p s = scanPath P path rest (p + c.length) s := by
  intro c
  induction c with
  | nil => intro rest p _; rfl
  | cons x c ih =>
    intro rest p hc
    rw [List.cons_append, scanPath, if_neg (by simp [hc x]), ih rest (p + 1) fun y hy => hc y (by simp [hy])]
    congr 1
    rw [List.length_cons]
    omega

/-- The end of `canonicalPathData`. -/
def closeScan (P : Platform) (path : Bytes) (s : ScanState) : CanonicalData :=
  if s.componentStart ≠ path.length then (processSlash P path s path.length).data else s.data

/-- The scan of a join, from the start of one of its components on. -/
theorem closeScan_join {sep : UInt8} (hsep : isDirSeparator P sep = true) :
    ∀ (cs : List Bytes) (c pre : Bytes) (data : CanonicalData), (∀ d ∈ c :: cs, IsComponent P d) →
      closeScan P (pre ++ joinWith sep (c :: cs))
          (scanPath P (pre ++ joinWith sep (c :: cs)) (joinWith sep (c :: cs)) pre.length ⟨data, pre.length⟩) =
        ⟨data.components ++ c :: cs,
          data.isAbsolute || (P.kIsWindows && decide (pre.length = 0) && isDriveLetter c)⟩ := by
  intro cs
  induction cs with
  | nil =>
    intro c pre data h
    have hc := h c (by simp)
    have hskip := scanPath_component (P := P) (pre ++ c) ⟨data, pre.length⟩ c [] pre.length hc.no_sep
    rw [List.append_nil] at hskip
    rw [joinWith_singleton, hskip]
    have hcut := processSlash_eq P pre c [] data
    rw [List.append_nil] at hcut
    unfold closeScan scanPath
    rw [if_pos (by simpa using hc.ne_nil), List.length_append, hcut, pushComponent_component hc]
  | cons d cs ih =>
    intro c pre data h
    have hc := h c (by simp)
    have hj : joinWith sep (c :: d :: cs) = c ++ sep :: joinWith sep (d :: cs) := by
      rw [joinWith_cons sep c (List.cons_ne_nil d cs)]
    have hpath : pre ++ joinWith sep (c :: d :: cs) = (pre ++ c ++ [sep]) ++ joinWith sep (d :: cs) := by
      rw [hj]; simp
    have hlen : (pre ++ c ++ [sep]).length = pre.length + c.length + 1 := by simp [Nat.add_assoc]
    have hcut := processSlash_eq P pre c (sep :: joinWith sep (d :: cs)) data
    have hwhole : pre ++ c ++ sep :: joinWith sep (d :: cs) = pre ++ joinWith sep (c :: d :: cs) := by rw [hj]; simp
    rw [hwhole] at hcut
    have hrest := ih d (pre ++ c ++ [sep]) (pushComponent P (pre.length = 0) data c) fun e he => h e (by simp_all)
    rw [← hpath, hlen] at hrest
    have hscan : ∀ path, scanPath P path (joinWith sep (c :: d :: cs)) pre.length ⟨data, pre.length⟩ =
        scanPath P path (joinWith sep (d :: cs)) (pre.length + c.length + 1)
          (processSlash P path ⟨data, pre.length⟩ (pre.length + c.length)) := by
      intro path
      rw [hj, scanPath_component _ _ _ _ _ hc.no_sep, scanPath, if_pos hsep]
    rw [hscan, hcut, hrest, pushComponent_component hc]
    simp

theorem scanData_join (hcs : ∀ c ∈ cs, IsComponent P c) (isAbsolute : Bool) :
    scanData P (joinWith (kAbsDirSeparator P) cs) isAbsolute =
      ⟨cs, isAbsolute || (P.kIsWindows && cs.head?.any isDriveLetter)⟩ := by
  cases cs with
  | nil => simp [scanData, scanPath]
  | cons c cs =>
    have h := closeScan_join (kAbsDirSeparator_isDirSeparator P) cs c [] ⟨[], isAbsolute⟩ hcs
    simpa [closeScan, scanData] using h

/-- A join of components does not begin with a separator, so not with the UNC prefix. -/
theorem not_startsWithUNC_join (hcs : ∀ c ∈ cs, IsComponent .windows c) :
    startsWithUNC .windows (joinWith (kAbsDirSeparator .windows) cs) = false := by
  rw [← Bool.not_eq_true]
  intro h
  unfold startsWithUNC at h
  rw [Bool.and_eq_true, List.isPrefixOf_iff_prefix] at h
  obtain ⟨rest, hrest⟩ := h.2
  have hne : cs ≠ [] := by
    intro hn
    rw [hn, joinWith_nil] at hrest
    exact absurd hrest (by simp [kUNCPrefix])
  have hout := Lib.no_outer_separator (p := isDirSeparator .windows)
    (l := joinWith (kAbsDirSeparator .windows) cs) fun d hd => by
      rw [splitOnP_joinWith (kAbsDirSeparator_isDirSeparator .windows) hne hcs] at hd
      exact (hcs d hd).ne_nil
  have hsep := hout.1 kWinDirSeparator (by rw [← hrest]; rfl)
  exact absurd hsep (by decide)

theorem canonicalPathData_joinAbs (hcs : ∀ c ∈ cs, IsComponent .windows c) :
    (canonicalPathData .windows (joinAbs .windows cs).path_).components = cs := by
  have hunc : startsWithUNC .windows (joinAbs .windows cs).path_ = true := by
    unfold startsWithUNC joinAbs
    rw [Bool.and_eq_true, List.isPrefixOf_iff_prefix]
    exact ⟨rfl, List.prefix_append _ _⟩
  have hdrop : (joinAbs .windows cs).path_.drop kUNCPrefix.length = joinWith (kAbsDirSeparator .windows) cs :=
    List.drop_left
  unfold canonicalPathData
  rw [if_pos hunc, hdrop, scanData_join hcs]

/-- Components without a `..` are appended to the base. -/
theorem resolveOnto_components (base : List Bytes) (hcs : ∀ c ∈ cs, IsComponent P c) :
    resolveOnto base cs = base ++ cs := by
  cases cs with
  | nil => rw [resolveOnto, List.append_nil]
  | cons c cs => rw [resolveOnto, if_neg (hcs c (by simp)).ne_dotDot]

/-- **What comes back from Thrift on Windows.** -/
theorem fromThrift_windows (getcwd : Except PathError AbsolutePath) (hcs : ∀ c ∈ cs, IsComponent .windows c) :
    absolutePathFromThrift .windows getcwd (absolutePathToThrift .windows (joinAbs .windows cs)) =
      if cs.head?.any isDriveLetter then .ok (joinAbs .windows cs)
      else getcwd.bind fun cwd =>
        makeAbsolutePath .windows ((canonicalPathData .windows cwd.path_).components ++ cs) := by
  have hthrift : absolutePathToThrift .windows (joinAbs .windows cs) = joinWith (kAbsDirSeparator .windows) cs :=
    List.drop_left
  have hdata : canonicalPathData .windows (joinWith (kAbsDirSeparator .windows) cs) =
      ⟨cs, cs.head?.any isDriveLetter⟩ := by
    unfold canonicalPathData
    rw [not_startsWithUNC_join hcs, if_neg (by simp), scanData_join hcs]
    rfl
  unfold absolutePathFromThrift canonicalPath canonicalPathImpl
  rw [hthrift, hdata]
  simp only
  split_ifs with hdrive
  · exact makeAbsolutePath_joinAbs hcs
  · cases getcwd with
    | error e => rfl
    | ok cwd =>
      simp only [ok_bind, pure_eq_ok, resolveOnto_components _ hcs]
      rfl

/-- **Through Thrift and back.** The way back ends at an equal path exactly on POSIX, for
a path whose first component is a drive letter, and where the current directory is the
root. -/
theorem thrift_round_trip_iff (P : Platform) (getcwd : Except PathError AbsolutePath)
    (hcwd : ∀ cwd, getcwd = .ok cwd → cwd.Valid P) (p : AbsolutePath) (hp : p.Valid P) :
    (∃ q, absolutePathFromThrift P getcwd (absolutePathToThrift P p) = .ok q ∧ q.eq P p = true) ↔
      P = .posix ∨ (p.components P).head?.any isDriveLetter = true ∨ getcwd = .ok (.root P) := by
  obtain ⟨cs, hcs, rfl⟩ := valid_iff_joinAbs.1 hp
  have hcomp : (joinAbs P cs).components P = cs := (components_root_join hcs).1
  cases P with
  | posix =>
    refine iff_of_true ⟨joinAbs .posix cs, ?_, by simp [AbsolutePath.eq, Platform.kIsWindows]⟩ (Or.inl rfl)
    exact canonicalPath_absOf getcwd fun c hc => isComponent_posix.1 (hcs c hc)
  | windows =>
    rw [hcomp, fromThrift_windows getcwd hcs]
    have heq : ∀ q : AbsolutePath, q.eq .windows (joinAbs .windows cs) = true ↔ q.components .windows = cs := by
      intro q
      unfold AbsolutePath.eq
      rw [if_pos (show Platform.windows.kIsWindows = true from rfl), hcomp, beq_iff_eq]
    by_cases hdrive : cs.head?.any isDriveLetter = true
    · rw [if_pos hdrive]
      exact iff_of_true ⟨_, rfl, (heq _).2 hcomp⟩ (Or.inr (Or.inl hdrive))
    · rw [if_neg hdrive]
      have hroot : (AbsolutePath.root .windows) = joinAbs .windows [] := by
        unfold AbsolutePath.root joinAbs; rw [joinWith_nil, List.append_nil]
      cases getcwd with
      | error e => simp [Except.bind, hdrive]
      | ok cwd =>
        -- the components of the current directory come in front
        obtain ⟨base, hbase, rfl⟩ := valid_iff_joinAbs.1 (hcwd cwd rfl)
        have hboth : ∀ c ∈ base ++ cs, IsComponent .windows c := by
          intro c hc
          rcases List.mem_append.1 hc with h | h
          · exact hbase c h
          · exact hcs c h
        have hres : (Except.ok (joinAbs .windows base)).bind (fun cwd =>
            makeAbsolutePath .windows ((canonicalPathData .windows cwd.path_).components ++ cs)) =
            .ok (joinAbs .windows (base ++ cs)) := by
          change makeAbsolutePath _ _ = _
          rw [canonicalPathData_joinAbs hbase, makeAbsolutePath_joinAbs hboth]
        rw [hres]
        constructor
        · intro h
          obtain ⟨q, hq, he⟩ := h
          obtain rfl := Except.ok.inj hq
          have hb : base ++ cs = cs := (components_root_join hboth).1.symm.trans ((heq _).1 he)
          right; right
          rw [hroot, List.append_left_eq_self.1 hb]
        · intro h
          rcases h with h | h | h
          · exact absurd h (by simp)
          · exact absurd h hdrive
          · have hb : base = [] := by
              rw [hroot] at h
              exact joinAbs_inj hbase (by simp) (Except.ok.inj h)
            exact ⟨_, rfl, by rw [hb, List.nil_append]; exact (heq _).2 hcomp⟩

/-- `\\?\C:` and, from there, `\\?\C:\a`. -/
theorem thrift_round_trip_drive :
    ∃ q, absolutePathFromThrift .windows (.ok ⟨kUNCPrefix ++ [0x43, 0x3A]⟩)
        (absolutePathToThrift .windows ⟨kUNCPrefix ++ [0x43, 0x3A, 0x5C, 0x61]⟩) = .ok q ∧
      q.eq .windows ⟨kUNCPrefix ++ [0x43, 0x3A, 0x5C, 0x61]⟩ = true := by
  refine (thrift_round_trip_iff .windows _ ?_ _ (by decide)).2 (Or.inr (Or.inl (by decide)))
  intro cwd h
  obtain rfl := Except.ok.inj h
  decide

/-- The network path `\\?\UNC\srv`, with the current directory `\\?\C:`, comes back as
`\\?\C:\UNC\srv`. -/
theorem thrift_loses_network_root :
    let p : AbsolutePath := ⟨kUNCPrefix ++ [0x55, 0x4E, 0x43, 0x5C, 0x73, 0x72, 0x76]⟩
    let cwd : AbsolutePath := ⟨kUNCPrefix ++ [0x43, 0x3A]⟩
    p.Valid .windows ∧ cwd.Valid .windows ∧
      absolutePathFromThrift .windows (.ok cwd) (absolutePathToThrift .windows p) =
        .ok ⟨kUNCPrefix ++ [0x43, 0x3A, 0x5C, 0x55, 0x4E, 0x43, 0x5C, 0x73, 0x72, 0x76]⟩ ∧
      ¬ ∃ q, absolutePathFromThrift .windows (.ok cwd) (absolutePathToThrift .windows p) = .ok q ∧
        q.eq .windows p = true := by
  have hres : absolutePathFromThrift .windows (.ok ⟨kUNCPrefix ++ [0x43, 0x3A]⟩)
      (absolutePathToThrift .windows ⟨kUNCPrefix ++ [0x55, 0x4E, 0x43, 0x5C, 0x73, 0x72, 0x76]⟩) =
      .ok ⟨kUNCPrefix ++ [0x43, 0x3A, 0x5C, 0x55, 0x4E, 0x43, 0x5C, 0x73, 0x72, 0x76]⟩ := by rfl
  refine ⟨by decide, by decide, hres, fun h => ?_⟩
  obtain ⟨q, hq, he⟩ := h
  rw [hres] at hq
  obtain rfl := Except.ok.inj hq
  exact absurd he (by decide)

end EdenCommon
