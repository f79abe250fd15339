import EdenCommon.Lib.Walk
import EdenCommon.Proof.PathOps
import EdenCommon.Spec.Canonical

/-!
# Canonical paths as walks

The scanner of `canonicalPathData` follows the pieces of the path: an empty piece and
`.` stay, `..` goes up, anything else goes down. On an absolute path it computes the
position the walk reaches from the root; on a relative one it keeps the names the walk
ends with and *one* `..` for all the moves up that are left (`canonicalPathData_eq`).

* `canonicalPath_absolute`: for an absolute path the result is the walk's position.
* `joinAndNormalize_spec`: one kept `..` is enough to see that a path leaves its root.
* `canonicalPathFrom_iff`: it is not enough to resolve the path against a base.
-/

namespace EdenCommon

open Lib

/-- The move a piece stands for. -/
def moveOf (piece : Bytes) : Move Bytes :=
  if piece = [] ∨ piece = dot then .stay else if piece = dotDot then .up else .down piece

/-- The walk a path stands for. -/
def movesOf (path : Bytes) : List (Move Bytes) := (path.splitOn kDirSeparator).map moveOf

/-! ### The scanner visits the pieces -/

/-- The end of `canonicalPathData`: the last component, if the path does not end with
a separator. -/
def finishScan (path : Bytes) (s : ScanState) : CanonicalData :=
  if s.componentStart ≠ path.length then (processSlash .posix path s path.length).data else s.data

/-- The pieces in turn; `atStart` is about the first one. -/
def pushPieces (atStart : Bool) (data : CanonicalData) : List Bytes → CanonicalData
  | [] => data
  | c :: cs => cs.foldl (pushComponent .posix false) (pushComponent .posix atStart data c)

theorem pushComponent_nil (data : CanonicalData) : pushComponent .posix false data [] = data := by
  simp [pushComponent]

/-- Only an empty piece can tell whether it is the first one. -/
theorem pushComponent_atStart (b : Bool) (data : CanonicalData) {c : Bytes} (hc : c ≠ []) :
    pushComponent .posix b data c = pushComponent .posix false data c := by
  simp [pushComponent, hc, Platform.kIsWindows]

theorem pushPieces_false (data : CanonicalData) (cs : List Bytes) :
    pushPieces false data cs = cs.foldl (pushComponent .posix false) data := by cases cs <;> rfl

theorem processSlash_eq (P : Platform) (pre cur rest : Bytes) (data : CanonicalData) :
    processSlash P (pre ++ cur ++ rest) ⟨data, pre.length⟩ (pre.length + cur.length) =
      ⟨pushComponent P (pre.length = 0) data cur, pre.length + cur.length + 1⟩ := by
  unfold processSlash
  have : ((pre ++ cur ++ rest).drop pre.length).take (pre.length + cur.length - pre.length) = cur := by
    rw [List.append_assoc, List.drop_left, Nat.add_sub_cancel_left, List.take_left]
  simp only [this]

/-- The scan with the component `cur` open and `rest` to come. -/
theorem scanPath_eq (rest : Bytes) : ∀ (pre cur : Bytes) (data : CanonicalData), kDirSeparator ∉ cur →
    pre ++ cur ++ rest ≠ [] →
    finishScan (pre ++ cur ++ rest)
        (scanPath .posix (pre ++ cur ++ rest) rest (pre.length + cur.length) ⟨data, pre.length⟩) =
      pushPieces (pre.length = 0) data ((cur ++ rest).splitOn kDirSeparator) := by
  induction rest with
  | nil =>
    intro pre cur data hcur hne
    rw [List.append_nil cur, List.splitOn_eq_singleton hcur]
    unfold scanPath finishScan pushPieces
    by_cases hc : cur = []
    · -- the path ends with a separator
      subst hc
      have hp : pre.length ≠ 0 := by simpa using hne
      simp [hp, pushComponent_nil]
    · have hlen := List.length_pos_iff.2 hc
      have hstart : pre.length ≠ (pre ++ cur ++ []).length := by simp; omega
      have hstop : (pre ++ cur ++ []).length = pre.length + cur.length := by simp
      rw [if_pos hstart, hstop, processSlash_eq]
      rfl
  | cons x rest ih =>
    intro pre cur data hcur hne
    unfold scanPath
    rw [isDirSeparator_posix]
    by_cases hx : x = kDirSeparator
    · subst hx
      rw [if_pos (by simp), processSlash_eq, List.splitOn_append_cons_self_of_not_mem hcur]
      have := ih (pre ++ cur ++ [kDirSeparator]) [] (pushComponent .posix (pre.length = 0) data cur)
        (by simp) (by simp)
      simp only [List.append_assoc, List.length_append, List.length_singleton, List.nil_append,
        List.length_nil, Nat.add_zero, List.singleton_append, Nat.add_assoc] at this ⊢
      rw [this]
      simp only [Nat.add_eq_zero_iff, Nat.one_ne_zero, and_false, decide_false, pushPieces_false]
      rfl
    · rw [if_neg (by simpa using hx)]
      have := ih pre (cur ++ [x]) data (by simp [hcur, Ne.symm hx]) (by simp)
      simpa [Nat.add_assoc] using this

/-- **The scan is a fold over the pieces.** -/
theorem scanData_eq (path : Bytes) : scanData .posix path false =
    (path.splitOn kDirSeparator).foldl (pushComponent .posix false)
      ⟨[], path.head? = some kDirSeparator⟩ := by
  by_cases hp : path = []
  · subst hp; rfl
  have hscan := scanPath_eq path [] [] ⟨[], false⟩ (by simp) (by simpa using hp)
  have : scanData .posix path false = pushPieces true ⟨[], false⟩ (path.splitOn kDirSeparator) := by
    simpa [scanData, finishScan] using hscan
  rw [this]
  obtain ⟨x, t, rfl⟩ := List.exists_cons_of_ne_nil hp
  by_cases hx : x = kDirSeparator
  · subst hx
    have := List.splitOn_append_cons_self_of_not_mem (show kDirSeparator ∉ ([] : Bytes) by simp) t
    rw [List.nil_append] at this
    rw [this]
    simp [pushPieces, pushComponent]
  · have := List.splitOn_cons_eq_if_modifyHead (a := kDirSeparator) x t
    rw [if_neg (by simpa using hx)] at this
    obtain ⟨c, cs, hc⟩ := List.exists_cons_of_ne_nil (List.splitOn_ne_nil kDirSeparator t)
    rw [this, hc]
    simp [pushPieces, hx, pushComponent_atStart true ⟨[], false⟩ (List.cons_ne_nil x c)]

/-! ### The stack of an absolute and of a relative path -/

/-- A name that the scanner pushes. -/
structure PieceName (c : Bytes) : Prop where
  ne_nil : c ≠ []
  no_sep : kDirSeparator ∉ c
  ne_dot : c ≠ dot
  ne_dotDot : c ≠ dotDot

theorem moveOf_down {c a : Bytes} (h : moveOf c = .down a) : c = a ∧ c ≠ [] ∧ c ≠ dot ∧ c ≠ dotDot := by
  unfold moveOf at h
  split at h
  · simp at h
  · rename_i h1
    split at h
    · simp at h
    · rename_i h2
      exact ⟨by simpa using h, fun h => h1 (Or.inl h), fun h => h1 (Or.inr h), h2⟩

theorem pieceName_of_mem {path a : Bytes} (h : a ∈ (net (movesOf path)).2) : PieceName a := by
  obtain ⟨c, hc, hm⟩ := List.mem_map.1 (mem_net h)
  obtain ⟨rfl, h1, h2, h3⟩ := moveOf_down hm
  refine ⟨h1, ?_, h2, h3⟩
  intro hsep
  rw [List.splitOn_eq_splitOnP] at hc
  simpa using not_of_mem_splitOnP hc hsep

theorem ne_dotDot_of_mem {pieces : List Bytes} {a : Bytes} (h : a ∈ (net (pieces.map moveOf)).2) :
    a ≠ dotDot := by
  obtain ⟨c, -, hm⟩ := List.mem_map.1 (mem_net h)
  obtain ⟨rfl, -, -, hne⟩ := moveOf_down hm
  exact hne

/-- A piece that goes down is pushed. -/
theorem pushComponent_down (data : CanonicalData) {c a : Bytes} (h : moveOf c = .down a) :
    pushComponent .posix false data c = { data with components := data.components ++ [a] } := by
  obtain ⟨rfl, h1, h2, h3⟩ := moveOf_down h
  simp [pushComponent, h1, h2, h3, Platform.kIsWindows]

theorem pushComponent_stay (data : CanonicalData) {c : Bytes} (h : moveOf c = .stay) :
    pushComponent .posix false data c = data := by
  have hc : c = [] ∨ c = dot := by
    unfold moveOf at h
    split at h
    · assumption
    · split at h <;> simp at h
  rcases hc with rfl | rfl
  · exact pushComponent_nil data
  · simp [pushComponent, dot]

theorem moveOf_up {c : Bytes} (h : moveOf c = .up) : c = dotDot := by
  unfold moveOf at h
  split at h
  · simp at h
  · split at h
    · assumption
    · simp at h

/-- Going up takes the last name off, keeps a `..` that is there, and at the start of
a relative path leaves one. -/
theorem pushComponent_dotDot (data : CanonicalData) : pushComponent .posix false data dotDot =
    match data.components.getLast? with
    | none => if data.isAbsolute then data else { data with components := [dotDot] }
    | some back => if back ≠ dotDot then { data with components := data.components.dropLast } else data := by
  have hnil : dotDot ≠ [] := by decide
  have hdot : dotDot ≠ dot := by decide
  cases hl : data.components.getLast? <;> simp [pushComponent, hl, hnil, hdot]

/-- The components kept for a relative path with the given net: one `..` stands for
all the moves up. -/
def stackOf (n : ℕ × List Bytes) : List Bytes := (if n.1 = 0 then [] else [dotDot]) ++ n.2

/-- The stack of an absolute path holds the position of the walk. -/
theorem foldl_absolute (pieces : List Bytes) :
    pieces.foldl (pushComponent .posix false) ⟨[], true⟩ = ⟨walk [] (pieces.map moveOf), true⟩ := by
  induction pieces using List.reverseRecOn with
  | nil => rfl
  | append_singleton pieces c ih =>
    rw [List.foldl_concat, ih, List.map_append, List.map_singleton, walk_concat]
    cases hm : moveOf c with
    | stay => rw [pushComponent_stay _ hm]; rfl
    | down a => rw [pushComponent_down _ hm]; rfl
    | up =>
      rw [moveOf_up hm, pushComponent_dotDot, walk_nil_eq]
      cases hl : (net (pieces.map moveOf)).2.getLast? with
      | none => rw [List.getLast?_eq_none_iff.1 hl]; rfl
      | some back =>
        have hb := ne_dotDot_of_mem (List.mem_of_getLast? hl)
        simp only [hb, ne_eq, not_false_eq_true, if_true, move]

/-- The stack of a relative path holds the net of the walk. -/
theorem foldl_relative (pieces : List Bytes) :
    pieces.foldl (pushComponent .posix false) ⟨[], false⟩ = ⟨stackOf (net (pieces.map moveOf)), false⟩ := by
  induction pieces using List.reverseRecOn with
  | nil => rfl
  | append_singleton pieces c ih =>
    rw [List.foldl_concat, ih, List.map_append, List.map_singleton, net_concat]
    cases hm : moveOf c with
    | stay => rw [pushComponent_stay _ hm]; rfl
    | down a =>
      rw [pushComponent_down _ hm]
      simp only [stackOf, netMove, List.append_assoc]
      rfl
    | up =>
      rw [moveOf_up hm, pushComponent_dotDot, netMove_up]
      by_cases hn : (net (pieces.map moveOf)).2 = []
      · -- nothing left to cancel: the first `..` is kept, the later ones are dropped
        simp only [stackOf, hn, List.append_nil, if_true]
        by_cases hk : (net (pieces.map moveOf)).1 = 0
        · simp [hk]
        · simp [hk]
      · obtain ⟨names, back, hnames⟩ := List.eq_nil_or_concat' _ |>.resolve_left hn
        have hb : back ≠ dotDot := @ne_dotDot_of_mem pieces back (by rw [hnames]; simp)
        rw [if_neg hn]
        simp only [stackOf, hnames, ← List.append_assoc, List.getLast?_concat, List.dropLast_concat,
          if_pos hb]

/-- **What the scanner computes.** -/
theorem canonicalPathData_eq (path : Bytes) : canonicalPathData .posix path =
    if path.head? = some kDirSeparator then ⟨walk [] (movesOf path), true⟩
    else ⟨stackOf (net (movesOf path)), false⟩ := by
  have hunc : startsWithUNC .posix path = false := rfl
  unfold canonicalPathData
  rw [hunc, if_neg (by simp), scanData_eq]
  split
  · rename_i h; simp only [h, decide_true]; exact foldl_absolute _
  · rename_i h; simp only [h, decide_false]; exact foldl_relative _

/-! ### Building the path -/

theorem ValidComponent.pieceName {c : Bytes} (h : ValidComponent c) : PieceName c :=
  ⟨h.ne_nil, h.no_sep, h.ne_dot, h.ne_dotDot⟩

theorem validComponent_iff {c : Bytes} (h : PieceName c) : ValidComponent c ↔ 0 ∉ c ∧ AcceptedUtf8 c :=
  ⟨fun hv => ⟨hv.no_nul, hv.utf8⟩, fun hv => ⟨h.ne_nil, h.no_sep, hv.1, h.ne_dot, h.ne_dotDot, hv.2⟩⟩

/-- **`makeAbsolutePath`** returns the path with the given components, or throws. -/
theorem makeAbsolutePath_cases {parts : List Bytes} (hp : ∀ c ∈ parts, PieceName c) :
    ((∀ c ∈ parts, ValidComponent c) ∧ makeAbsolutePath .posix parts = .ok (absOf parts)) ∨
      ((∃ c ∈ parts, ¬ ValidComponent c) ∧ ∃ e, e.Thrown ∧ makeAbsolutePath .posix parts = .error e) := by
  unfold makeAbsolutePath
  by_cases hn : parts = []
  · subst hn; left; exact ⟨by simp, rfl⟩
  rw [if_neg hn]
  have hval : kRootStr .posix ++ joinWith (kAbsDirSeparator .posix) parts = (absOf parts).path_ := rfl
  simp only [hval]
  cases hc : absolutePathSanityCheck .posix (absOf parts).path_ nulTerminator with
  | ok u =>
    left
    refine ⟨?_, rfl⟩
    -- the accepted path has some valid components, and its pieces are the parts
    obtain ⟨cs, hcs, heq⟩ := absolutePath_valid_iff.1 (show (absOf parts).Valid .posix from hc)
    have hj : joinWith kDirSeparator parts = joinWith kDirSeparator cs :=
      (List.cons.inj (congrArg AbsolutePath.path_ heq)).2
    have hcn : cs ≠ [] := by
      rintro rfl
      exact hn ((joinWith_eq_nil fun c h => (hp c h).ne_nil).1 hj)
    rw [← splitOn_joinWith (fun c h => (hp c h).no_sep) hn, hj,
      splitOn_joinWith (fun c h => (hcs c h).no_sep) hcn]
    exact hcs
  | error e =>
    right
    refine ⟨?_, e, absolutePathSanityCheck_thrown hc, rfl⟩
    by_contra hall
    push Not at hall
    have hv : (absOf parts).Valid .posix := absOf_valid hall
    unfold AbsolutePath.Valid at hv
    rw [hv] at hc
    cases hc

theorem makeAbsolutePath_ok {parts : List Bytes} (hp : ∀ c ∈ parts, ValidComponent c) :
    makeAbsolutePath .posix parts = .ok (absOf parts) := by
  rcases makeAbsolutePath_cases fun c h => (hp c h).pieceName with ⟨-, h⟩ | ⟨⟨c, hc, hv⟩, -⟩
  · exact h
  · exact absurd (hp c hc) hv

theorem makeAbsolutePath_throws {parts : List Bytes} (hp : ∀ c ∈ parts, PieceName c)
    (hex : ∃ c ∈ parts, ¬ ValidComponent c) : ∃ e, e.Thrown ∧ makeAbsolutePath .posix parts = .error e := by
  obtain ⟨c, hc, hv⟩ := hex
  rcases makeAbsolutePath_cases hp with ⟨hall, -⟩ | ⟨-, h⟩
  · exact absurd (hall c hc) hv
  · exact h

/-! ### Absolute paths -/

/-- The pieces of valid components go down to them. -/
theorem map_moveOf {cs : List Bytes} (hcs : ∀ c ∈ cs, ValidComponent c) : cs.map moveOf = cs.map .down := by
  apply List.map_congr_left
  intro c hc
  have h := hcs c hc
  simp [moveOf, h.ne_nil, h.ne_dot, h.ne_dotDot]

theorem walk_down (pos cs : List Bytes) : walk pos (cs.map .down) = pos ++ cs := by
  induction cs generalizing pos with
  | nil => simp [walk]
  | cons c cs ih =>
    have := ih (pos ++ [c])
    simpa [walk, move] using this

theorem movesOf_append (s t : Bytes) : movesOf (s ++ kDirSeparator :: t) = movesOf s ++ movesOf t := by
  unfold movesOf
  rw [List.splitOn_append_cons_self, List.map_append]

/-- A valid absolute path leads from the root to its components. -/
theorem walk_movesOf_absOf {cs : List Bytes} (hcs : ∀ c ∈ cs, ValidComponent c) :
    walk [] (movesOf (absOf cs).path_) = cs := by
  have hcut : movesOf (absOf cs).path_ = movesOf [] ++ movesOf (joinWith kDirSeparator cs) :=
    movesOf_append [] _
  have hstay : walk [] (movesOf []) = ([] : List Bytes) := rfl
  rw [hcut, walk_append, hstay]
  by_cases hn : cs = []
  · subst hn; rfl
  · unfold movesOf
    rw [splitOn_joinWith (fun c h => (hcs c h).no_sep) hn, map_moveOf hcs, walk_down, List.nil_append]

theorem pieceName_of_mem_walk {path a : Bytes} (h : a ∈ walk [] (movesOf path)) : PieceName a := by
  rw [walk_nil_eq] at h
  exact pieceName_of_mem h

theorem canonicalPath_eq (getcwd : Except PathError AbsolutePath) {s : Bytes}
    (hs : s.head? = some kDirSeparator) :
    canonicalPath .posix getcwd s = makeAbsolutePath .posix (walk [] (movesOf s)) := by
  unfold canonicalPath canonicalPathImpl
  rw [canonicalPathData_eq, if_pos hs]
  rfl

theorem canonicalPath_absOf (getcwd : Except PathError AbsolutePath) {cs : List Bytes}
    (hcs : ∀ c ∈ cs, ValidComponent c) : canonicalPath .posix getcwd (absOf cs).path_ = .ok (absOf cs) := by
  rw [canonicalPath_eq getcwd rfl, walk_movesOf_absOf hcs]
  exact makeAbsolutePath_ok hcs

/-- A name is invalid for a NUL or for bytes that are not UTF-8. -/
theorem not_validComponent_iff {c : Bytes} (h : PieceName c) :
    ¬ ValidComponent c ↔ 0 ∈ c ∨ ¬ AcceptedUtf8 c := by
  rw [validComponent_iff h, not_and_or, not_not]

/-- **`canonicalPath` of an absolute path** is the stack machine over its pieces. -/
theorem canonicalPath_absolute (getcwd : Except PathError AbsolutePath) (s : Bytes)
    (hs : s.head? = some kDirSeparator) :
    let stack := walk [] (movesOf s)
    ((∃ e, e.Thrown ∧ canonicalPath .posix getcwd s = .error e) ↔ ∃ c ∈ stack, 0 ∈ c ∨ ¬ AcceptedUtf8 c) ∧
    ((∀ c ∈ stack, 0 ∉ c ∧ AcceptedUtf8 c) → canonicalPath .posix getcwd s =
      .ok ⟨kDirSeparator :: joinWith kDirSeparator stack⟩) ∧
    (∀ p, canonicalPath .posix getcwd s = .ok p → p.Valid .posix ∧ p.components .posix = stack) ∧
    (canonicalPath .posix getcwd s >>= fun p => canonicalPath .posix getcwd p.path_) =
      canonicalPath .posix getcwd s := by
  intro stack
  have hname : ∀ c ∈ stack, PieceName c := fun c h => pieceName_of_mem_walk h
  rw [canonicalPath_eq getcwd hs]
  by_cases hall : ∀ c ∈ stack, ValidComponent c
  · rw [makeAbsolutePath_ok hall]
    refine ⟨⟨?_, ?_⟩, fun _ => rfl, ?_, canonicalPath_absOf getcwd hall⟩
    · rintro ⟨e, -, h⟩; cases h
    · rintro ⟨c, hc, h⟩
      exact absurd (hall c hc) ((not_validComponent_iff (hname c hc)).2 h)
    · intro p hp
      cases hp
      exact ⟨absOf_valid hall, components_absOf hall⟩
  · push Not at hall
    obtain ⟨e, he, herr⟩ := makeAbsolutePath_throws hname hall
    obtain ⟨c, hc, hv⟩ := hall
    rw [herr]
    refine ⟨⟨fun _ => ⟨c, hc, (not_validComponent_iff (hname c hc)).1 hv⟩, fun _ => ⟨e, he, rfl⟩⟩, ?_, ?_, rfl⟩
    · intro h; exact absurd ((validComponent_iff (hname c hc)).2 (h c hc)) hv
    · intro p hp; cases hp

/-- `/a/..//./b`. -/
theorem canonicalPath_absolute_b :
    canonicalPath .posix (.error .getcwdFailed)
        [0x2F, 0x61, 0x2F, 0x2E, 0x2E, 0x2F, 0x2F, 0x2E, 0x2F, 0x62] = .ok ⟨[0x2F, 0x62]⟩ :=
  (canonicalPath_absolute (.error .getcwdFailed)
    [0x2F, 0x61, 0x2F, 0x2E, 0x2E, 0x2F, 0x2F, 0x2E, 0x2F, 0x62] rfl).2.1 (by decide)

/-! ### Joining below a root -/

theorem checkComponents_cases (parts : List Bytes) :
    ((∀ c ∈ parts, ValidComponent c) ∧ checkComponents .posix parts = .ok ()) ∨
      ((∃ c ∈ parts, ¬ ValidComponent c) ∧ ∃ e, e.Thrown ∧ checkComponents .posix parts = .error e) := by
  induction parts with
  | nil => left; exact ⟨by simp, rfl⟩
  | cons c parts ih =>
    unfold checkComponents
    have hiff := pathComponentSanityCheck_iff c [0]
    unfold nulTerminator
    cases hc : pathComponentSanityCheck .posix c [0] with
    | error e =>
      right
      refine ⟨⟨c, by simp, fun hv => ?_⟩, e, pathComponentSanityCheck_thrown (by decide) hc, rfl⟩
      rw [hiff.2 hv] at hc
      cases hc
    | ok u =>
      have hv := hiff.1 hc
      rcases ih with ⟨hall, hok⟩ | ⟨⟨d, hd, hnv⟩, e, he, herr⟩
      · left
        exact ⟨by simpa using ⟨hv, hall⟩, hok⟩
      · right
        exact ⟨⟨d, List.mem_cons_of_mem _ hd, hnv⟩, e, he, herr⟩

theorem net_append (ms ms' : List (Move Bytes)) : net (ms ++ ms') = ms'.foldl netMove (net ms) := List.foldl_append

/-- The joined string stands for the walk of the base and then of the path: where one
of them is empty, its only piece stays. -/
theorem net_joinedPath (base : RelativePath) (path : Bytes) :
    net (movesOf (joinedPath base path)) = net (movesOf base.path_ ++ movesOf path) := by
  unfold joinedPath
  split
  · rename_i hb; rw [hb]; rfl
  · split
    · rename_i hp; rw [hp, net_append]; rfl
    · rw [movesOf_append]

theorem joinedPath_head {base : RelativePath} (hb : base.Valid .posix) {path : Bytes}
    (hp : path.head? ≠ some kDirSeparator) : (joinedPath base path).head? ≠ some kDirSeparator := by
  obtain ⟨cs, hcs, rfl⟩ := relativePath_valid_iff.1 hb
  unfold joinedPath
  split
  · exact hp
  · rename_i hne
    have hhead : (relOf cs).path_.head? ≠ some kDirSeparator := by
      refine (no_outer_slash ?_).1
      have hn : cs ≠ [] := fun h => hne (by rw [h]; rfl)
      intro c hc
      unfold relOf at hc
      rw [splitOn_joinWith (fun c h => (hcs c h).no_sep) hn] at hc
      exact (hcs c hc).ne_nil
    split
    · exact hhead
    · rw [List.head?_append_of_ne_nil _ hne]; exact hhead

/-- A kept `..` stands at the head of the stack. -/
theorem head_stackOf (path : Bytes) :
    (stackOf (net (movesOf path))).head? = some dotDot ↔ (net (movesOf path)).1 ≠ 0 := by
  unfold stackOf
  by_cases hk : (net (movesOf path)).1 = 0
  · rw [if_pos hk, List.nil_append]
    simp only [hk, ne_eq, not_true_eq_false, iff_false]
    intro h
    exact (pieceName_of_mem (List.mem_of_head? h)).ne_dotDot rfl
  · rw [if_neg hk]; simpa using hk

/-- The four outcomes of `joinAndNormalize`. -/
theorem joinAndNormalize_cases {base : RelativePath} (hb : base.Valid .posix) (path : Bytes) :
    let ms := movesOf base.path_ ++ movesOf path
    let r := joinAndNormalize .posix base path
    (path.head? = some kDirSeparator ∧ r = .ok (.error .EPERM)) ∨
    (path.head? ≠ some kDirSeparator ∧ (net ms).1 ≠ 0 ∧ r = .ok (.error .EXDEV)) ∨
    (path.head? ≠ some kDirSeparator ∧ (net ms).1 = 0 ∧ (∀ c ∈ walk [] ms, ValidComponent c) ∧
      r = .ok (.ok (relOf (walk [] ms)))) ∨
    (path.head? ≠ some kDirSeparator ∧ (net ms).1 = 0 ∧ (∃ c ∈ walk [] ms, ¬ ValidComponent c) ∧
      ∃ e, e.Thrown ∧ r = .error e) := by
  intro ms r
  have hr : r = joinAndNormalize .posix base path := rfl
  unfold joinAndNormalize at hr
  by_cases hp : path.head? = some kDirSeparator
  · left; exact ⟨hp, by rw [hr, if_pos hp]⟩
  right
  rw [if_neg hp, canonicalPathData_eq, if_neg (joinedPath_head hb hp)] at hr
  have hnet : net (movesOf (joinedPath base path)) = net ms := net_joinedPath base path
  have hhead := head_stackOf (joinedPath base path)
  rw [hnet] at hhead
  simp only [Bool.false_eq_true, if_false, hnet] at hr
  by_cases hk : (net ms).1 = 0
  · right
    -- no `..` is kept, and the stack is the position reached from the root
    have hstack : stackOf (net ms) = walk [] ms := by
      rw [walk_nil_eq, stackOf, if_pos hk, List.nil_append]
    rw [if_neg (fun h => hhead.1 h hk), hstack] at hr
    unfold RelativePath.ofComponents at hr
    rcases checkComponents_cases (walk [] ms) with ⟨hall, hok⟩ | ⟨hex, e, he, herr⟩
    · left; exact ⟨hp, hk, hall, by rw [hr, hok]; rfl⟩
    · right; exact ⟨hp, hk, hex, e, he, by rw [hr, herr]; rfl⟩
  · left; exact ⟨hp, hk, by rw [hr, if_pos (hhead.2 hk)]⟩

/-- A walk leaves the root iff its net goes up. -/
theorem net_ne_zero_iff (ms : List (Move Bytes)) :
    (net ms).1 ≠ 0 ↔ ∃ pre, pre <+: ms ∧ downs pre < ups pre := by
  have h := net_up_le_iff ms 0
  simp only [Nat.le_zero, Nat.add_zero] at h
  rw [ne_eq, h]
  push Not
  rfl

/-- **`joinAndNormalize`**: the walk of `base` and then of `path` from the root, unless
it leaves the root. -/
theorem joinAndNormalize_spec (base : RelativePath) (hb : base.Valid .posix) (path : Bytes) :
    let ms := movesOf base.path_ ++ movesOf path
    (joinAndNormalize .posix base path = .ok (.error .EPERM) ↔ path.head? = some kDirSeparator) ∧
    (path.head? ≠ some kDirSeparator →
      (joinAndNormalize .posix base path = .ok (.error .EXDEV) ↔ ∃ pre, pre <+: ms ∧ downs pre < ups pre) ∧
      ((∀ pre, pre <+: ms → ups pre ≤ downs pre) →
        ((∀ c ∈ walk [] ms, ValidComponent c) → joinAndNormalize .posix base path =
          .ok (.ok ⟨joinWith kDirSeparator (walk [] ms)⟩)) ∧
        ((∃ e, e.Thrown ∧ joinAndNormalize .posix base path = .error e) ↔
          ∃ c ∈ walk [] ms, ¬ ValidComponent c))) ∧
    (∀ r, joinAndNormalize .posix base path = .ok (.ok r) →
      r.Valid .posix ∧ dotDot ∉ r.components .posix) ∧
    joinAndNormalize .posix base path ≠ .error .checkFailed := by
  intro ms
  have hleave := net_ne_zero_iff ms
  have hstay : (∀ pre, pre <+: ms → ups pre ≤ downs pre) → (net ms).1 = 0 := by
    intro h
    by_contra hk
    obtain ⟨pre, hpre, hlt⟩ := hleave.1 hk
    have := h pre hpre
    omega
  rcases joinAndNormalize_cases hb path with
    ⟨hp, hr⟩ | ⟨hp, hk, hr⟩ | ⟨hp, hk, hall, hr⟩ | ⟨hp, hk, ⟨c, hc, hv⟩, e, he, hr⟩
  · rw [hr]
    refine ⟨⟨fun _ => hp, fun _ => rfl⟩, fun h => absurd hp h, fun r h => ?_, fun h => ?_⟩
    · cases h
    · cases h
  · rw [hr]
    refine ⟨⟨fun h => ?_, fun h => absurd h hp⟩, fun _ => ⟨⟨fun _ => hleave.1 hk, fun _ => rfl⟩, fun h => ?_⟩,
      fun r h => ?_, fun h => ?_⟩
    · cases h
    · exact absurd (hstay h) hk
    · cases h
    · cases h
  · rw [hr]
    refine ⟨⟨fun h => ?_, fun h => absurd h hp⟩, fun _ => ⟨⟨fun h => ?_, fun h => absurd hk (hleave.2 h)⟩,
      fun _ => ⟨fun _ => rfl, ?_, ?_⟩⟩, fun r h => ?_, fun h => ?_⟩
    · cases h
    · cases h
    · rintro ⟨e, -, h⟩; cases h
    · rintro ⟨c, hc, hv⟩; exact absurd (hall c hc) hv
    · cases h
      refine ⟨relOf_valid hall, ?_⟩
      rw [components_relOf hall]
      exact fun hd => (hall _ hd).ne_dotDot rfl
    · cases h
  · rw [hr]
    refine ⟨⟨fun h => ?_, fun h => absurd h hp⟩, fun _ => ⟨⟨fun h => ?_, fun h => absurd hk (hleave.2 h)⟩,
      fun _ => ⟨fun h => absurd (h c hc) hv, fun _ => ⟨c, hc, hv⟩, fun _ => ⟨e, he, rfl⟩⟩⟩,
      fun r h => ?_, fun h => ?_⟩
    · cases h
    · cases h
    · cases h
    · cases h; exact he.1 rfl

/-- The base `a` and the paths `../b` and `/`. -/
theorem joinAndNormalize_a_b :
    joinAndNormalize .posix ⟨[0x61]⟩ [0x2E, 0x2E, 0x2F, 0x62] = .ok (.ok ⟨[0x62]⟩) ∧
      joinAndNormalize .posix ⟨[0x61]⟩ [0x2F] = .ok (.error .EPERM) :=
  ⟨(((joinAndNormalize_spec ⟨[0x61]⟩ (by decide) [0x2E, 0x2E, 0x2F, 0x62]).2.1 (by decide)).2
      ((net_up_le_iff _ 0).1 (by decide))).1 (by decide),
    (joinAndNormalize_spec ⟨[0x61]⟩ (by decide) [0x2F]).1.2 rfl⟩

/-! ### Resolving against a base -/

/-- Behind at most one `..` the stack of a relative path is put on the base. -/
theorem resolveOnto_stackOf (base : List Bytes) (path : Bytes) :
    resolveOnto base (stackOf (net (movesOf path))) =
      base.take (base.length - min (net (movesOf path)).1 1) ++ (net (movesOf path)).2 := by
  have hnames : ∀ bs, resolveOnto bs (net (movesOf path)).2 = bs ++ (net (movesOf path)).2 := by
    intro bs
    cases hn : (net (movesOf path)).2 with
    | nil => simp [resolveOnto]
    | cons c cs =>
      have hc : c ≠ dotDot := (pieceName_of_mem (show c ∈ (net (movesOf path)).2 by rw [hn]; simp)).ne_dotDot
      unfold resolveOnto
      rw [if_neg hc]
  unfold stackOf
  by_cases hk : (net (movesOf path)).1 = 0
  · rw [if_pos hk, List.nil_append, hnames, hk]; simp
  · rw [if_neg hk, List.singleton_append]
    unfold resolveOnto
    rw [if_pos rfl, hnames, List.dropLast_eq_take, Nat.min_eq_right (by omega)]

/-- Both throw, or both return the same path. -/
def Agree (x y : Except PathError AbsolutePath) : Prop :=
  (∃ p, x = .ok p ∧ y = .ok p) ∨ ((∃ e, e.Thrown ∧ x = .error e) ∧ ∃ e, e.Thrown ∧ y = .error e)

/-- `canonicalPath(path, base)` is `canonicalPath` of the joined string, and each `..`
of the path goes up from what precedes it, the base included. -/
def ResolvesAgainst (getcwd : Except PathError AbsolutePath) (path : Bytes) (base : AbsolutePath) : Prop :=
  Agree (canonicalPathFrom .posix getcwd path base)
    (canonicalPath .posix getcwd (base.path_ ++ kDirSeparator :: path)) ∧
  ∀ p, canonicalPathFrom .posix getcwd path base = .ok p →
    p.components .posix = walk (base.components .posix) (movesOf path)

theorem canonicalPathFrom_eq (getcwd : Except PathError AbsolutePath) {path : Bytes}
    (hp : path.head? ≠ some kDirSeparator) {bs : List Bytes} (hbs : ∀ b ∈ bs, ValidComponent b) :
    canonicalPathFrom .posix getcwd path (absOf bs) =
      makeAbsolutePath .posix (bs.take (bs.length - min (net (movesOf path)).1 1) ++ (net (movesOf path)).2) := by
  unfold canonicalPathFrom canonicalPathImpl
  have hbase : canonicalPathData .posix (absOf bs).path_ = ⟨bs, true⟩ := by
    rw [canonicalPathData_eq, if_pos (show (absOf bs).path_.head? = some kDirSeparator from rfl),
      walk_movesOf_absOf hbs]
  rw [canonicalPathData_eq, if_neg hp, ← resolveOnto_stackOf]
  simp only [Bool.false_eq_true, if_false, hbase]
  rfl

theorem canonicalPath_joined (getcwd : Except PathError AbsolutePath) (path : Bytes) {bs : List Bytes}
    (hbs : ∀ b ∈ bs, ValidComponent b) :
    canonicalPath .posix getcwd ((absOf bs).path_ ++ kDirSeparator :: path) =
      makeAbsolutePath .posix (bs.take (bs.length - (net (movesOf path)).1) ++ (net (movesOf path)).2) := by
  rw [canonicalPath_eq getcwd rfl, movesOf_append, walk_append, walk_movesOf_absOf hbs, walk_eq]

/-- **Where `canonicalPath(path, base)` resolves the path against the base**: where at
most one `..` is left over, or the base has at most one component to take off, or both
calls throw on a name of the path. -/
theorem canonicalPathFrom_iff (getcwd : Except PathError AbsolutePath) (path : Bytes)
    (hp : path.head? ≠ some kDirSeparator) (base : AbsolutePath) (hb : base.Valid .posix) :
    ResolvesAgainst getcwd path base ↔
      (∀ pre, pre <+: movesOf path → ups pre ≤ downs pre + 1) ∨ (base.components .posix).length ≤ 1 ∨
        ∃ c ∈ walk [] (movesOf path), 0 ∈ c ∨ ¬ AcceptedUtf8 c := by
  obtain ⟨bs, hbs, rfl⟩ := absolutePath_valid_iff.1 hb
  unfold ResolvesAgainst
  rw [canonicalPathFrom_eq getcwd hp hbs, canonicalPath_joined getcwd path hbs, components_absOf hbs,
    ← net_up_le_iff, walk_nil_eq, walk_eq]
  set k := (net (movesOf path)).1 with hk
  set names := (net (movesOf path)).2 with hn
  by_cases hall : ∀ c ∈ names, ValidComponent c
  · have hgood : ∀ j, ∀ c ∈ bs.take j ++ names, ValidComponent c := fun j c hc =>
      (List.mem_append.1 hc).elim (fun h => hbs c (List.mem_of_mem_take h)) (hall c)
    have hnot : ¬ ∃ c ∈ names, 0 ∈ c ∨ ¬ AcceptedUtf8 c := by
      rintro ⟨c, hc, h⟩
      exact (not_validComponent_iff (hall c hc).pieceName).2 h (hall c hc)
    rw [makeAbsolutePath_ok (hgood _), makeAbsolutePath_ok (hgood _)]
    constructor
    · rintro ⟨hagree, -⟩
      rcases hagree with ⟨p, h1, h2⟩ | ⟨⟨e, -, h⟩, -⟩
      · have heq := (absOf_inj (hgood _) (hgood _)).1 (Except.ok.inj (h1.trans h2.symm))
        -- the two stacks end alike, so as much of the base is left in both
        have hlen := congrArg List.length (List.append_cancel_right heq)
        simp only [List.length_take] at hlen
        omega
      · cases h
    · intro h
      have hmin : bs.length - min k 1 = bs.length - k := by
        rcases h with h | h | h
        · omega
        · omega
        · exact absurd h hnot
      rw [hmin]
      refine ⟨Or.inl ⟨_, rfl, rfl⟩, ?_⟩
      intro p hp
      cases hp
      exact components_absOf (hgood _)
  · push Not at hall
    obtain ⟨c, hc, hv⟩ := hall
    have hname : ∀ j, ∀ c ∈ bs.take j ++ names, PieceName c := fun j c hc =>
      (List.mem_append.1 hc).elim (fun h => (hbs c (List.mem_of_mem_take h)).pieceName)
        (fun h => pieceName_of_mem h)
    have hthrow := fun j => makeAbsolutePath_throws (hname j) ⟨c, List.mem_append_right _ hc, hv⟩
    refine ⟨fun _ => Or.inr (Or.inr ⟨c, hc, (not_validComponent_iff (pieceName_of_mem hc)).1 hv⟩),
      fun _ => ⟨Or.inr ⟨hthrow _, hthrow _⟩, ?_⟩⟩
    intro p hp
    obtain ⟨e, -, he⟩ := hthrow (bs.length - min k 1)
    rw [he] at hp
    cases hp

/-- The base `/a/b` and the path `../c`. -/
theorem canonicalPathFrom_one_up :
    ResolvesAgainst (.error .getcwdFailed) [0x2E, 0x2E, 0x2F, 0x63] ⟨[0x2F, 0x61, 0x2F, 0x62]⟩ :=
  (canonicalPathFrom_iff _ _ (by decide) _ (by decide)).2 (Or.inl ((net_up_le_iff _ 1).1 (by decide)))

/-- The base `/a/b/c` and the path `../..`: the second `..` is lost. -/
theorem canonicalPathFrom_loses_dotDot :
    canonicalPathFrom .posix (.error .getcwdFailed) [0x2E, 0x2E, 0x2F, 0x2E, 0x2E]
      ⟨[0x2F, 0x61, 0x2F, 0x62, 0x2F, 0x63]⟩ = .ok ⟨[0x2F, 0x61, 0x2F, 0x62]⟩ ∧
    canonicalPath .posix (.error .getcwdFailed)
      [0x2F, 0x61, 0x2F, 0x62, 0x2F, 0x63, 0x2F, 0x2E, 0x2E, 0x2F, 0x2E, 0x2E] = .ok ⟨[0x2F, 0x61]⟩ ∧
    ¬ ∀ (path : Bytes) (base : AbsolutePath), path.head? ≠ some kDirSeparator → base.Valid .posix →
      Agree (canonicalPathFrom .posix (.error .getcwdFailed) path base)
        (canonicalPath .posix (.error .getcwdFailed) (base.path_ ++ kDirSeparator :: path)) := by
  have h1 : canonicalPathFrom .posix (.error .getcwdFailed) [0x2E, 0x2E, 0x2F, 0x2E, 0x2E]
      ⟨[0x2F, 0x61, 0x2F, 0x62, 0x2F, 0x63]⟩ = .ok ⟨[0x2F, 0x61, 0x2F, 0x62]⟩ := rfl
  have h2 : canonicalPath .posix (.error .getcwdFailed)
      [0x2F, 0x61, 0x2F, 0x62, 0x2F, 0x63, 0x2F, 0x2E, 0x2E, 0x2F, 0x2E, 0x2E] = .ok ⟨[0x2F, 0x61]⟩ := rfl
  refine ⟨h1, h2, ?_⟩
  intro h
  rcases h [0x2E, 0x2E, 0x2F, 0x2E, 0x2E] ⟨[0x2F, 0x61, 0x2F, 0x62, 0x2F, 0x63]⟩ (by decide) (by decide) with
    ⟨p, hp, hp'⟩ | ⟨⟨e, -, he⟩, -⟩
  · rw [h1] at hp
    cases hp
    exact absurd (Except.ok.inj (h2.symm.trans hp')) (by decide)
  · rw [h1] at he
    cases he

end EdenCommon
