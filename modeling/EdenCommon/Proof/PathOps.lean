import EdenCommon.Proof.PathGrammar
import Mathlib.Data.List.Basic

/-!
# Composing, splitting and relativizing POSIX paths

On component lists `+` is concatenation, `dirname` drops the last component,
`basename` is the last component, and `relativize` takes the base off the front.

* `add_monoid_action`: composition is associative, the empty path is its identity, and
  what it builds without a check is valid.
* `relativize_iff`: `relativize` inverts `+` except below the root. There the prefix
  iterator stands *behind* the only slash and `remainder()` skips one more byte.
* `dirname_basename_iff`: `dirname` and `basename` split a path, except an absolute
  path with one component, whose `dirname()` is the empty string.
-/

namespace EdenCommon

variable {cs ds : List Bytes} {c : Bytes}

/-! ### Composition -/

theorem root_posix : AbsolutePath.root .posix = absOf [] := rfl

theorem absOf_path (cs : List Bytes) : (absOf cs).path_ = kDirSeparator :: joinWith kDirSeparator cs := rfl

/-- Two parts of a path have a slash between them. -/
theorem absOf_append_path (hc : cs ≠ []) (hd : ds ≠ []) :
    (absOf (cs ++ ds)).path_ = (absOf cs).path_ ++ kDirSeparator :: joinWith kDirSeparator ds := by
  rw [absOf_path, joinWith_append _ hc hd, absOf_path, List.cons_append]

/-- Different components make different paths. -/
theorem absOf_inj (hc : ∀ c ∈ cs, ValidComponent c) (hd : ∀ d ∈ ds, ValidComponent d) :
    absOf cs = absOf ds ↔ cs = ds := by
  refine ⟨fun h => joinWith_inj hc hd ?_, fun h => by rw [h]⟩
  exact (List.cons.inj (congrArg AbsolutePath.path_ h)).2

theorem joinWith_ne_nil (hc : ∀ c ∈ cs, ValidComponent c) (hn : cs ≠ []) :
    joinWith kDirSeparator cs ≠ [] := by
  intro h
  exact hn ((joinWith_eq_nil fun c h => (hc c h).ne_nil).1 h)

/-- Only the root has no components. -/
theorem absOf_eq_root (hc : ∀ c ∈ cs, ValidComponent c) : absOf cs = .root .posix ↔ cs = [] := by
  rw [root_posix, absOf_inj hc (by simp)]

/-- **Composition is concatenation** of the component lists. -/
theorem absOf_add (hc : ∀ c ∈ cs, ValidComponent c) (hd : ∀ d ∈ ds, ValidComponent d) :
    (absOf cs).add .posix (relOf ds) = absOf (cs ++ ds) := by
  unfold AbsolutePath.add
  by_cases hdn : ds = []
  · subst hdn; simp [relOf]
  have hj : (relOf ds).path_ ≠ [] := joinWith_ne_nil hd hdn
  rw [if_neg hj]
  by_cases hcn : cs = []
  · subst hcn; rw [if_pos (show (absOf []).path_ = kRootStr .posix from rfl)]; rfl
  have hr : (absOf cs).path_ ≠ kRootStr .posix := by
    intro h
    exact hcn ((absOf_eq_root hc).1 (by rw [AbsolutePath.root, ← h]))
  rw [if_neg hr, components_relOf hd, kAbsDirSeparator_posix, ← absOf_append_path hcn hdn]

theorem root_add_path (r : RelativePath) : ((absOf []).add .posix r).path_ = kDirSeparator :: r.path_ := by
  unfold AbsolutePath.add
  by_cases hr : r.path_ = []
  · rw [if_pos hr, hr]; rfl
  · rw [if_neg hr, if_pos (show (absOf []).path_ = kRootStr .posix from rfl)]; rfl

/-- Relative paths are put together by their components. -/
theorem relOf_add (hc : ∀ c ∈ cs, ValidComponent c) (hd : ∀ d ∈ ds, ValidComponent d) :
    (relOf cs).add (relOf ds) = relOf (cs ++ ds) := by
  unfold RelativePath.add
  by_cases hcn : cs = []
  · subst hcn; rw [if_pos (show (relOf []).path_ = [] from rfl), List.nil_append]
  rw [if_neg (show (relOf cs).path_ ≠ [] from joinWith_ne_nil hc hcn)]
  by_cases hdn : ds = []
  · subst hdn; rw [if_pos (show (relOf []).path_ = [] from rfl), List.append_nil]
  rw [if_neg (show (relOf ds).path_ ≠ [] from joinWith_ne_nil hd hdn)]
  unfold relOf
  rw [joinWith_append _ hcn hdn]

theorem ofComponent_eq (c : Bytes) : RelativePath.ofComponent ⟨c⟩ = relOf [c] := by
  rw [relOf, joinWith_singleton]; rfl

/-! ### `dirname` and `basename` -/

/-- What is in front of the last slash. -/
theorem dirnameOf_append {s t : Bytes} (h : kDirSeparator ∉ t) :
    dirnameOf .posix (s ++ kDirSeparator :: t) = s := by
  simp [dirnameOf, rfindPathSeparator, Platform.kIsWindows, rfind_append h]

/-- What is behind it. -/
theorem basenameOf_append {s t : Bytes} (h : kDirSeparator ∉ t) :
    basenameOf .posix (s ++ kDirSeparator :: t) = t := by
  simp [basenameOf, rfindPathSeparator, Platform.kIsWindows, rfind_append h]

theorem dirnameOf_of_not_mem {t : Bytes} (h : kDirSeparator ∉ t) : dirnameOf .posix t = [] := by
  simp [dirnameOf, rfindPathSeparator, Platform.kIsWindows, rfind_of_not_mem h]

theorem basenameOf_of_not_mem {t : Bytes} (h : kDirSeparator ∉ t) : basenameOf .posix t = t := by
  simp [basenameOf, rfindPathSeparator, Platform.kIsWindows, rfind_of_not_mem h]

/-- The last component of an absolute path. -/
theorem absOf_basename (hc : ValidComponent c) (cs : List Bytes) :
    (absOf (cs ++ [c])).basename .posix = ⟨c⟩ := by
  unfold AbsolutePath.basename
  by_cases hn : cs = []
  · subst hn
    have := @basenameOf_append [] c hc.no_sep
    rw [absOf_path, List.nil_append, joinWith_singleton]
    exact congrArg _ this
  · rw [absOf_append_path hn (by simp), joinWith_singleton, basenameOf_append hc.no_sep]

/-- The path without it. -/
theorem absOf_dirname (hc : ValidComponent c) (hn : cs ≠ []) :
    (absOf (cs ++ [c])).dirname .posix = absOf cs := by
  unfold AbsolutePath.dirname
  rw [absOf_append_path hn (by simp), joinWith_singleton, dirnameOf_append hc.no_sep]

/-- Below the root the separator found is the root itself and the rest is empty. -/
theorem absOf_dirname_singleton (hc : ValidComponent c) : (absOf [c]).dirname .posix = ⟨[]⟩ := by
  have := @dirnameOf_append [] c hc.no_sep
  unfold AbsolutePath.dirname
  rw [absOf_path, joinWith_singleton]
  exact congrArg _ this

theorem relOf_basename (hc : ValidComponent c) (cs : List Bytes) :
    (relOf (cs ++ [c])).basename .posix = ⟨c⟩ := by
  unfold RelativePath.basename relOf
  by_cases hn : cs = []
  · subst hn; rw [List.nil_append, joinWith_singleton, basenameOf_of_not_mem hc.no_sep]
  · rw [joinWith_append _ hn (by simp), joinWith_singleton, basenameOf_append hc.no_sep]

theorem relOf_dirname (hc : ValidComponent c) (cs : List Bytes) :
    (relOf (cs ++ [c])).dirname .posix = relOf cs := by
  unfold RelativePath.dirname relOf
  by_cases hn : cs = []
  · subst hn; rw [List.nil_append, joinWith_singleton, dirnameOf_of_not_mem hc.no_sep, joinWith_nil]
  · rw [joinWith_append _ hn (by simp), joinWith_singleton, dirnameOf_append hc.no_sep]

theorem absOf_valid (hc : ∀ c ∈ cs, ValidComponent c) : (absOf cs).Valid .posix :=
  absolutePath_valid_iff.2 ⟨cs, hc, rfl⟩

theorem relOf_valid (hc : ∀ c ∈ cs, ValidComponent c) : (relOf cs).Valid .posix :=
  relativePath_valid_iff.2 ⟨cs, hc, rfl⟩

/-- **Composition is a monoid action that keeps paths valid**: the relative paths under
`+` are a monoid with the empty path for its identity, and it acts on the absolute paths,
the root included. -/
theorem add_monoid_action (r₁ r₂ r₃ : RelativePath) (a : AbsolutePath) (h₁ : r₁.Valid .posix)
    (h₂ : r₂.Valid .posix) (h₃ : r₃.Valid .posix) (ha : a.Valid .posix) :
    (r₁.add r₂).components .posix = r₁.components .posix ++ r₂.components .posix ∧
    (a.add .posix r₁).components .posix = a.components .posix ++ r₁.components .posix ∧
    (r₁.add r₂).add r₃ = r₁.add (r₂.add r₃) ∧
    (a.add .posix r₁).add .posix r₂ = a.add .posix (r₁.add r₂) ∧
    r₁.add ⟨[]⟩ = r₁ ∧ RelativePath.add ⟨[]⟩ r₁ = r₁ ∧ a.add .posix ⟨[]⟩ = a ∧
    (r₁.add r₂).Valid .posix ∧ (a.add .posix r₁).Valid .posix := by
  obtain ⟨cs₁, hc₁, rfl⟩ := relativePath_valid_iff.1 h₁
  obtain ⟨cs₂, hc₂, rfl⟩ := relativePath_valid_iff.1 h₂
  obtain ⟨cs₃, hc₃, rfl⟩ := relativePath_valid_iff.1 h₃
  obtain ⟨ds, hd, rfl⟩ := absolutePath_valid_iff.1 ha
  have h12 : ∀ c ∈ cs₁ ++ cs₂, ValidComponent c := List.forall_mem_append.2 ⟨hc₁, hc₂⟩
  have h23 : ∀ c ∈ cs₂ ++ cs₃, ValidComponent c := List.forall_mem_append.2 ⟨hc₂, hc₃⟩
  have hd1 : ∀ c ∈ ds ++ cs₁, ValidComponent c := List.forall_mem_append.2 ⟨hd, hc₁⟩
  have hnil : (⟨[]⟩ : RelativePath) = relOf [] := rfl
  have h0 : ∀ c ∈ ([] : List Bytes), ValidComponent c := by simp
  rw [hnil, relOf_add hc₁ hc₂, relOf_add hc₂ hc₃, relOf_add hc₁ h0, relOf_add h0 hc₁, absOf_add hd hc₁,
    absOf_add hd h0]
  -- each equation is one of `++` on the component lists
  refine ⟨?_, ?_, ?_, ?_, by rw [List.append_nil], rfl, by rw [List.append_nil], relOf_valid h12, absOf_valid hd1⟩
  · rw [components_relOf h12, components_relOf hc₁, components_relOf hc₂]
  · rw [components_absOf hd1, components_absOf hd, components_relOf hc₁]
  · rw [relOf_add h12 hc₃, relOf_add hc₁ h23, List.append_assoc]
  · rw [absOf_add hd1 hc₂, absOf_add hd h12, List.append_assoc]

/-- `/`, `a`, `b/c` and the empty path. -/
theorem add_monoid_action_root :
    ((AbsolutePath.root .posix).add .posix ⟨[0x61]⟩).add .posix ⟨[0x62, 0x2F, 0x63]⟩ =
      (AbsolutePath.root .posix).add .posix (RelativePath.add ⟨[0x61]⟩ ⟨[0x62, 0x2F, 0x63]⟩) :=
  (add_monoid_action ⟨[0x61]⟩ ⟨[0x62, 0x2F, 0x63]⟩ ⟨[]⟩ (.root .posix) (by decide) (by decide) (by decide)
    (by decide)).2.2.2.1

/-- `basename()` and `dirname()` are valid and compose to the path. -/
def AbsolutePath.Splits (P : Platform) (p : AbsolutePath) : Prop :=
  (p.basename P).Valid P ∧ (p.dirname P).Valid P ∧ (p.dirname P).addComponent P (p.basename P) = p

def RelativePath.Splits (P : Platform) (p : RelativePath) : Prop :=
  (p.basename P).Valid P ∧ (p.dirname P).Valid P ∧ (p.dirname P).addComponent (p.basename P) = p

/-- An absolute path is its dirname and its basename. -/
theorem absOf_splits (hcs : ∀ d ∈ cs ++ [c], ValidComponent d) (hn : cs ≠ []) :
    (absOf (cs ++ [c])).Splits .posix := by
  have hc : ValidComponent c := hcs c (by simp)
  have hl : ∀ d ∈ cs, ValidComponent d := fun d h => hcs d (List.mem_append_left _ h)
  unfold AbsolutePath.Splits
  rw [absOf_basename hc, absOf_dirname hc hn]
  refine ⟨pathComponent_valid_iff.2 hc, absOf_valid hl, ?_⟩
  rw [AbsolutePath.addComponent, ofComponent_eq, absOf_add hl (by simpa using hc)]

/-- So is a relative one. -/
theorem relOf_splits (hcs : ∀ d ∈ cs ++ [c], ValidComponent d) : (relOf (cs ++ [c])).Splits .posix := by
  have hc : ValidComponent c := hcs c (by simp)
  have hl : ∀ d ∈ cs, ValidComponent d := fun d h => hcs d (List.mem_append_left _ h)
  unfold RelativePath.Splits
  rw [relOf_basename hc, relOf_dirname hc]
  refine ⟨pathComponent_valid_iff.2 hc, relOf_valid hl, ?_⟩
  rw [RelativePath.addComponent, ofComponent_eq, relOf_add hl (by simpa using hc)]

/-- **Where `dirname` and `basename` split a path**: every nonempty relative path, and
every absolute path with at least two components. -/
theorem dirname_basename_iff (p : AbsolutePath) (r : RelativePath) (hp : p.Valid .posix) (hroot : p ≠ .root .posix)
    (hr : r.Valid .posix) (hne : r.path_ ≠ []) :
    (p.Splits .posix ↔ 2 ≤ (p.components .posix).length) ∧ r.Splits .posix := by
  constructor
  · obtain ⟨cs, hcs, rfl⟩ := absolutePath_valid_iff.1 hp
    have hn : cs ≠ [] := fun h => hroot ((absOf_eq_root hcs).2 h)
    obtain ⟨ds, c, rfl⟩ := List.eq_nil_or_concat' cs |>.resolve_left hn
    rw [components_absOf hcs, List.length_append, List.length_singleton]
    by_cases hd : ds = []
    · -- right below the root `dirname()` is empty
      subst hd
      constructor
      · rintro ⟨-, hv, -⟩
        rw [List.nil_append, absOf_dirname_singleton (hcs c (by simp))] at hv
        exact absurd hv (by decide)
      · intro h; simp at h
    · have := List.length_pos_iff.2 hd
      exact ⟨fun _ => by omega, fun _ => absOf_splits hcs hd⟩
  · obtain ⟨cs, hcs, rfl⟩ := relativePath_valid_iff.1 hr
    have hn : cs ≠ [] := fun h => hne (by rw [h]; rfl)
    obtain ⟨ds, c, rfl⟩ := List.eq_nil_or_concat' cs |>.resolve_left hn
    exact relOf_splits hcs

/-- `/foo/bar` and `foo`. -/
theorem dirname_basename_foo_bar :
    AbsolutePath.Splits .posix ⟨[0x2F, 0x66, 0x6F, 0x6F, 0x2F, 0x62, 0x61, 0x72]⟩ ∧
      RelativePath.Splits .posix ⟨[0x66, 0x6F, 0x6F]⟩ :=
  have h := dirname_basename_iff ⟨[0x2F, 0x66, 0x6F, 0x6F, 0x2F, 0x62, 0x61, 0x72]⟩ ⟨[0x66, 0x6F, 0x6F]⟩ (by decide)
    (by decide) (by decide) (by decide)
  ⟨h.1.2 (by decide), h.2⟩

/-- `/foo` has the empty string for its `dirname()`, which is no absolute path. -/
theorem dirname_below_root_invalid :
    ¬ ∀ p : AbsolutePath, p.Valid .posix → p ≠ .root .posix → p.Splits .posix := by
  intro h
  have hv := (h ⟨[0x2F, 0x66, 0x6F, 0x6F]⟩ (by decide) (by decide)).2.1
  exact absurd hv (by decide)

/-! ### `relativize` -/

theorem length_le_joinWith (hc : ∀ c ∈ cs, c ≠ []) : cs.length ≤ (joinWith kDirSeparator cs).length := by
  induction cs with
  | nil => simp
  | cons c cs ih =>
    have h1 := List.length_pos_iff.2 (hc c List.mem_cons_self)
    have h2 := ih fun d hd => hc d (List.mem_cons_of_mem _ hd)
    by_cases hn : cs = []
    · subst hn; rw [joinWith_singleton]; exact h1
    · rw [joinWith_cons _ _ hn]
      simp only [List.length_append, List.length_cons]
      omega

/-- The `k`-th position of the prefix iterator: behind the first `k` components. -/
def iterAt (cs : List Bytes) (k : ℕ) : PrefixIterator :=
  if k ≤ cs.length then some (absOf (cs.take k)).path_.length else none

/-- What is left of a path behind its first components, with the slash in front of it
if there are any. -/
theorem drop_length_absOf (cs ds : List Bytes) (hd : ds ≠ []) :
    (absOf (cs ++ ds)).path_.drop (absOf cs).path_.length =
      if cs = [] then joinWith kDirSeparator ds else kDirSeparator :: joinWith kDirSeparator ds := by
  by_cases hc : cs = []
  · subst hc; simp [absOf]
  · rw [if_neg hc, absOf_append_path hc hd, List.drop_left]

/-- The first components are a prefix of the text. -/
theorem take_length_absOf (cs ds : List Bytes) :
    (absOf (cs ++ ds)).path_.take (absOf cs).path_.length = (absOf cs).path_ := by
  by_cases hd : ds = []
  · subst hd; rw [List.append_nil, List.take_length]
  by_cases hc : cs = []
  · subst hc; simp [absOf]
  · rw [absOf_append_path hc hd, List.take_left]

/-- The piece at a position is the path of the first components. -/
theorem piece_iterAt {k : ℕ} (hk : k ≤ cs.length) :
    PrefixIterator.piece (absOf cs).path_ (iterAt cs k) = .ok (absOf (cs.take k)) := by
  unfold iterAt PrefixIterator.piece
  rw [if_pos hk]
  have := take_length_absOf (cs.take k) (cs.drop k)
  rw [List.take_append_drop] at this
  simp only [this]

/-- A join of several components is the first one and what starts with a slash. -/
theorem exists_joinWith_cons (c : Bytes) (cs : List Bytes) : ∃ post : Bytes,
    joinWith kDirSeparator (c :: cs) = c ++ post ∧
      ∀ x, post.head? = some x → isDirSeparator .posix x = true := by
  by_cases hn : cs = []
  · subst hn; exact ⟨[], by simp, by simp⟩
  · refine ⟨_, joinWith_cons _ _ hn, ?_⟩
    intro x hx
    simpa using hx.symm

/-- The step of the iterator onto the next component. From the root, the scan starts
one byte into the component, which is no separator. -/
theorem scanSeparator_absOf (hc : ValidComponent c) (cs ds : List Bytes) :
    scanSeparator .posix (absOf (cs ++ c :: ds)).path_ ((absOf cs).path_.length + 1) =
      (absOf (cs ++ [c])).path_.length := by
  obtain ⟨post, hj, hpost⟩ := exists_joinWith_cons c ds
  by_cases hn : cs = []
  · subst hn
    obtain ⟨x, t, rfl⟩ := List.exists_cons_of_ne_nil hc.ne_nil
    have ht : ∀ y ∈ t, isDirSeparator .posix y = false := fun y hy =>
      (isComponent_posix.2 hc).no_sep y (List.mem_cons_of_mem _ hy)
    have := scanSeparator_append [kDirSeparator, x] t post ht hpost
    simp only [List.nil_append, absOf_path, hj, joinWith_nil, joinWith_singleton]
    simpa [Nat.add_comm, Nat.add_left_comm, Nat.add_assoc] using this
  · have := scanSeparator_append ((absOf cs).path_ ++ [kDirSeparator]) c post (isComponent_posix.2 hc).no_sep hpost
    rw [absOf_append_path hn (by simp), absOf_append_path hn (by simp), hj, joinWith_singleton]
    simpa [Nat.add_comm, Nat.add_left_comm, Nat.add_assoc] using this

/-- Fewer components make a shorter text. -/
theorem length_absOf_take_lt {k : ℕ} (hcs : ∀ c ∈ cs, ValidComponent c) (hk : k < cs.length) :
    (absOf (cs.take k)).path_.length < (absOf cs).path_.length := by
  have hd : cs.drop k ≠ [] := by simpa using hk
  have hj : joinWith kDirSeparator (cs.drop k) ≠ [] :=
    joinWith_ne_nil (fun d h => hcs d (List.mem_of_mem_drop h)) hd
  have hrest := drop_length_absOf (cs.take k) (cs.drop k) hd
  rw [List.take_append_drop] at hrest
  by_contra hge
  rw [List.drop_eq_nil_of_le (by omega)] at hrest
  split at hrest
  · exact hj hrest.symm
  · simp at hrest

/-- `operator++` moves to the next position. -/
theorem advance_iterAt {k : ℕ} (hcs : ∀ c ∈ cs, ValidComponent c) (hk : k ≤ cs.length) :
    PrefixIterator.advance .posix (absOf cs).path_ (iterAt cs k) = .ok (iterAt cs (k + 1)) := by
  unfold iterAt PrefixIterator.advance
  rw [if_pos hk]
  rcases Nat.lt_or_eq_of_le hk with hlt | heq
  · obtain ⟨c, ds, hd⟩ := List.exists_cons_of_ne_nil (show cs.drop k ≠ [] by simpa using hlt)
    have hcut : cs = cs.take k ++ c :: ds := by rw [← hd, List.take_append_drop]
    have htake : cs.take (k + 1) = cs.take k ++ [c] := by
      rw [List.take_add, hd]; rfl
    have hscan := scanSeparator_absOf (hcs c (by rw [hcut]; simp)) (cs.take k) ds
    rw [← hcut, ← htake] at hscan
    have hne := Nat.ne_of_lt (length_absOf_take_lt hcs hlt)
    simp only [hne, if_false, hscan, Nat.succ_le_of_lt hlt, if_true]
  · simp [heq]

/-- `remainder()` skips one byte: the slash behind the first components, but behind
the root the first byte of the next one. -/
theorem remainder_iterAt {k : ℕ} (hcs : ∀ c ∈ cs, ValidComponent c) (hk : k ≤ cs.length) :
    PrefixIterator.remainder (absOf cs).path_ (iterAt cs k) =
      .ok (if k = 0 then ⟨(relOf cs).path_.drop 1⟩ else relOf (cs.drop k)) := by
  unfold iterAt PrefixIterator.remainder
  rw [if_pos hk]
  rcases Nat.lt_or_eq_of_le hk with hlt | heq
  · have hd : cs.drop k ≠ [] := by simpa using hlt
    have hrest := drop_length_absOf (cs.take k) (cs.drop k) hd
    rw [List.take_append_drop] at hrest
    simp only [length_absOf_take_lt hcs hlt, if_true]
    rw [← List.drop_drop, hrest]
    by_cases h0 : k = 0
    · subst h0; simp [relOf]
    · have hne : cs.take k ≠ [] := by
        intro h
        rcases List.take_eq_nil_iff.1 h with h | h
        · exact h0 h
        · rw [h] at hlt; simp at hlt
      rw [if_neg hne, if_neg h0]; rfl
  · subst heq
    simp only [List.take_length, Nat.lt_irrefl, if_false, List.drop_length]
    by_cases h0 : cs.length = 0
    · rw [if_pos h0, List.length_eq_zero_iff.1 h0]; rfl
    · rw [if_neg h0]; rfl

/-- Two prefixes are equal if their components are. -/
theorem eq_absOf_take_iff {bs : List Bytes} (hbs : ∀ b ∈ bs, ValidComponent b)
    (hcs : ∀ c ∈ cs, ValidComponent c) (k : ℕ) :
    (absOf (bs.take k)).eq .posix (absOf (cs.take k)) = true ↔ bs.take k = cs.take k := by
  rw [← absOf_inj (fun b h => hbs b (List.mem_of_mem_take h)) (fun c h => hcs c (List.mem_of_mem_take h))]
  unfold AbsolutePath.eq
  simp only [Platform.kIsWindows, Bool.false_eq_true, if_false, beq_iff_eq]
  exact ⟨fun h => congrArg AbsolutePath.mk h, fun h => congrArg _ h⟩

/-- **One turn of the loop of `relativize`**, with both iterators on the `k`-th
position. -/
theorem relativizeLoop_step {bs : List Bytes} {k : ℕ} (hbs : ∀ b ∈ bs, ValidComponent b)
    (hcs : ∀ c ∈ cs, ValidComponent c) (hk : k ≤ bs.length) (fuel : ℕ) :
    relativizeLoop .posix (absOf bs) (absOf cs) (fuel + 1) (iterAt bs k) (iterAt cs k) =
      if cs.length < k then .error (.shouldBeUnder (absOf cs).path_ (absOf bs).path_)
      else if bs.take k ≠ cs.take k then .error (.notPrefix (absOf bs).path_ (absOf cs).path_)
      else if k = bs.length then PrefixIterator.remainder (absOf cs).path_ (iterAt cs k)
      else relativizeLoop .posix (absOf bs) (absOf cs) fuel (iterAt bs (k + 1)) (iterAt cs (k + 1)) := by
  rw [relativizeLoop]
  by_cases hlt : cs.length < k
  · have hnone : iterAt cs k = none := by rw [iterAt, if_neg (by omega)]
    rw [if_pos hlt, if_pos hnone, throw_eq_error, error_bind]
  have hk' : k ≤ cs.length := Nat.le_of_not_lt hlt
  have hsome : iterAt cs k ≠ none := by rw [iterAt, if_pos hk']; simp
  rw [if_neg hlt, if_neg hsome, piece_iterAt hk, piece_iterAt hk']
  simp only [ok_bind, ← eq_absOf_take_iff hbs hcs k, ne_eq, Bool.not_eq_true]
  cases hbeq : (absOf (bs.take k)).eq .posix (absOf (cs.take k)) with
  | false => simp
  | true =>
    rw [advance_iterAt hbs hk, advance_iterAt hcs hk']
    by_cases hend : k = bs.length
    · have hnext : iterAt bs (k + 1) = none := by rw [iterAt, if_neg (by omega)]
      subst hend
      simp [hnext]
    · have hnext : iterAt bs (k + 1) ≠ none := by rw [iterAt, if_pos (by omega)]; simp
      simp [hend, hnext]

/-- The two exceptions of `relativize`. -/
def RelativizeThrows (base child : AbsolutePath) (r : Except PathError RelativePath) : Prop :=
  r = .error (.shouldBeUnder child.path_ base.path_) ∨ r = .error (.notPrefix base.path_ child.path_)

/-- The loop reaches the last position of the base iff the base is a prefix. -/
theorem relativizeLoop_run {bs : List Bytes} (hbs : ∀ b ∈ bs, ValidComponent b)
    (hcs : ∀ c ∈ cs, ValidComponent c) : ∀ (fuel k : ℕ), k ≤ bs.length → bs.length - k < fuel →
    let r := relativizeLoop .posix (absOf bs) (absOf cs) fuel (iterAt bs k) (iterAt cs k)
    (bs <+: cs → r = PrefixIterator.remainder (absOf cs).path_ (iterAt cs bs.length)) ∧
      (¬ bs <+: cs → RelativizeThrows (absOf bs) (absOf cs) r) := by
  intro fuel
  induction fuel with
  | zero => intro k _ h; omega
  | succ fuel ih =>
    intro k hk hf r
    have hstep : r = _ := relativizeLoop_step hbs hcs hk fuel
    constructor
    · -- a prefix agrees at every position, so the loop goes on to the last one
      intro hp
      have hlen := hp.length_le
      have htake : bs.take k = cs.take k := by
        obtain ⟨ds, rfl⟩ := hp
        rw [List.take_append_of_le_length hk]
      rw [hstep, if_neg (by omega), if_neg (not_not.2 htake)]
      by_cases hend : k = bs.length
      · rw [if_pos hend, hend]
      · rw [if_neg hend]
        exact (ih (k + 1) (by omega) (by omega)).1 hp
    · intro hp
      rw [hstep]
      split
      · exact Or.inl rfl
      · split
        · exact Or.inr rfl
        · rename_i htake
          by_cases hend : k = bs.length
          · -- agreement at the last position makes the base a prefix
            refine absurd ?_ hp
            rw [hend, List.take_length, ne_eq, not_not] at htake
            exact List.prefix_iff_eq_take.2 htake
          · rw [if_neg hend]
            exact (ih (k + 1) (by omega) (by omega)).2 hp

/-- **`relativize` on component lists.** -/
theorem relativize_absOf {bs : List Bytes} (hbs : ∀ b ∈ bs, ValidComponent b)
    (hcs : ∀ c ∈ cs, ValidComponent c) :
    (bs <+: cs → (absOf bs).relativize .posix (absOf cs) =
      .ok (if bs = [] then ⟨(relOf cs).path_.drop 1⟩ else relOf (cs.drop bs.length))) ∧
    (¬ bs <+: cs → RelativizeThrows (absOf bs) (absOf cs) ((absOf bs).relativize .posix (absOf cs))) := by
  have hfuel : bs.length - 0 < (absOf bs).path_.length + 1 := by
    have := length_le_joinWith fun b h => (hbs b h).ne_nil
    rw [absOf_path, List.length_cons]; omega
  have hbegin : ∀ ds : List Bytes, PrefixIterator.begin_ .posix = iterAt ds 0 := by
    intro ds; simp [PrefixIterator.begin_, iterAt, absOf]
  have hrun := relativizeLoop_run hbs hcs _ 0 (Nat.zero_le _) hfuel
  rw [← hbegin, ← hbegin] at hrun
  refine ⟨fun hp => ?_, hrun.2⟩
  unfold AbsolutePath.relativize
  rw [hrun.1 hp, remainder_iterAt hcs hp.length_le]
  simp only [List.length_eq_zero_iff]

/-- `relativize` of the root drops the first byte of the child's first component. -/
theorem relativize_root_ne (hcs : ∀ c ∈ cs, ValidComponent c) (hn : cs ≠ []) :
    (absOf []).relativize .posix (absOf cs) = .ok ⟨(relOf cs).path_.drop 1⟩ ∧
      (relOf cs).path_.drop 1 ≠ (relOf cs).path_ := by
  refine ⟨?_, ?_⟩
  · rw [(relativize_absOf (by simp) hcs).1 (List.nil_prefix), if_pos rfl]
  · intro h
    have hj := List.length_pos_iff.2 (joinWith_ne_nil hcs hn)
    have hlen := congrArg List.length h
    rw [List.length_drop] at hlen
    have : (relOf cs).path_.length = (joinWith kDirSeparator cs).length := rfl
    omega

/-- `relativize` returns iff the base is a prefix of the child, and then inverts `+`;
else it throws. -/
def AbsolutePath.Relativizes (P : Platform) (base child : AbsolutePath) : Prop :=
  ((∃ r, base.relativize P child = .ok r) ↔ base.components P <+: child.components P) ∧
  (∀ r, base.relativize P child = .ok r → base.add P r = child) ∧
  (¬ base.components P <+: child.components P → RelativizeThrows base child (base.relativize P child))

/-- **`relativize`**, by components. -/
theorem relativizes_absOf {bs : List Bytes} (hbs : ∀ b ∈ bs, ValidComponent b)
    (hcs : ∀ c ∈ cs, ValidComponent c) (h : bs ≠ [] ∨ cs = []) :
    (absOf bs).Relativizes .posix (absOf cs) := by
  have hr := relativize_absOf hbs hcs
  have hthrow : ∀ e, RelativizeThrows (absOf bs) (absOf cs) e → ∀ r, e ≠ .ok r := by
    intro e he r
    rcases he with he | he <;> rw [he] <;> simp
  unfold AbsolutePath.Relativizes
  rw [components_absOf hbs, components_absOf hcs]
  refine ⟨⟨?_, fun hp => ⟨_, hr.1 hp⟩⟩, ?_, hr.2⟩
  · rintro ⟨r, hok⟩
    by_contra hp
    exact hthrow _ (hr.2 hp) r hok
  · intro r hok
    by_cases hp : bs <+: cs
    · obtain ⟨ds, rfl⟩ := hp
      have hds : ∀ d ∈ ds, ValidComponent d := fun d hd => hcs d (List.mem_append_right _ hd)
      rw [hr.1 (List.prefix_append _ _), Except.ok.injEq] at hok
      by_cases hb : bs = []
      · -- the root relativizes the root alone
        obtain rfl : ds = [] := by simpa [hb] using h
        subst hb; subst hok; rfl
      · rw [if_neg hb, List.drop_left] at hok
        rw [← hok, absOf_add hbs hds]
    · exact absurd hok (hthrow _ (hr.2 hp) r)

/-- **Where `relativize` inverts `+`**: for every base but the root, and for the root
only at the root. -/
theorem relativize_iff (base child : AbsolutePath) (r : RelativePath) (hb : base.Valid .posix)
    (hc : child.Valid .posix) (hr : r.Valid .posix) :
    (base.relativize .posix (base.add .posix r) = .ok r ↔ base ≠ .root .posix ∨ r = ⟨[]⟩) ∧
      (base.Relativizes .posix child ↔ base ≠ .root .posix ∨ child = .root .posix) := by
  obtain ⟨bs, hbs, rfl⟩ := absolutePath_valid_iff.1 hb
  constructor
  · obtain ⟨ds, hds, rfl⟩ := relativePath_valid_iff.1 hr
    have hcs : ∀ c ∈ bs ++ ds, ValidComponent c := fun c h => (List.mem_append.1 h).elim (hbs c) (hds c)
    rw [absOf_add hbs hds, ne_eq, absOf_eq_root hbs]
    by_cases hbn : bs = []
    · subst hbn
      by_cases hdn : ds = []
      · subst hdn
        exact ⟨fun _ => Or.inr rfl, fun _ => by rw [(relativize_absOf hbs hcs).1 (List.prefix_append _ _)]; rfl⟩
      · obtain ⟨h1, h2⟩ := relativize_root_ne hds hdn
        have hne : relOf ds ≠ ⟨[]⟩ := fun h => joinWith_ne_nil hds hdn (congrArg RelativePath.path_ h)
        rw [List.nil_append, h1]
        simp only [Except.ok.injEq, not_true_eq_false, false_or, hne, iff_false]
        exact fun h => h2 (congrArg RelativePath.path_ h)
    · rw [(relativize_absOf hbs hcs).1 (List.prefix_append _ _), if_neg hbn, List.drop_left]
      exact ⟨fun _ => Or.inl hbn, fun _ => rfl⟩
  · obtain ⟨cs, hcs, rfl⟩ := absolutePath_valid_iff.1 hc
    rw [ne_eq, absOf_eq_root hbs, absOf_eq_root hcs]
    refine ⟨?_, relativizes_absOf hbs hcs⟩
    rintro ⟨-, hadd, -⟩
    -- under the root a byte is lost, and `+` does not bring it back
    by_contra hcon
    obtain ⟨hbn, hcn⟩ := not_or.1 hcon
    obtain rfl : bs = [] := not_not.1 hbn
    obtain ⟨h1, h2⟩ := relativize_root_ne hcs hcn
    have := congrArg AbsolutePath.path_ (hadd _ h1)
    rw [root_add_path] at this
    exact h2 (List.cons.inj this).2

/-- Base `/foo`, with `bar` and with the child `/foo/bar`. -/
theorem relativize_foo_bar :
    AbsolutePath.relativize .posix ⟨[0x2F, 0x66, 0x6F, 0x6F]⟩
        (AbsolutePath.add .posix ⟨[0x2F, 0x66, 0x6F, 0x6F]⟩ ⟨[0x62, 0x61, 0x72]⟩) =
      .ok ⟨[0x62, 0x61, 0x72]⟩ ∧
    AbsolutePath.Relativizes .posix ⟨[0x2F, 0x66, 0x6F, 0x6F]⟩
      ⟨[0x2F, 0x66, 0x6F, 0x6F, 0x2F, 0x62, 0x61, 0x72]⟩ :=
  have h := relativize_iff ⟨[0x2F, 0x66, 0x6F, 0x6F]⟩ ⟨[0x2F, 0x66, 0x6F, 0x6F, 0x2F, 0x62, 0x61, 0x72]⟩
    ⟨[0x62, 0x61, 0x72]⟩ (by decide) (by decide) (by decide)
  ⟨h.1.2 (Or.inl (by decide)), h.2.2 (Or.inl (by decide))⟩

/-- From the root, `foo` comes back as `oo`. -/
theorem relativize_root_drops_byte :
    AbsolutePath.relativize .posix (.root .posix)
        (AbsolutePath.add .posix (.root .posix) ⟨[0x66, 0x6F, 0x6F]⟩) = .ok ⟨[0x6F, 0x6F]⟩ ∧
    (¬ ∀ (base : AbsolutePath) (r : RelativePath), base.Valid .posix → r.Valid .posix →
      base.relativize .posix (base.add .posix r) = .ok r) ∧
    ¬ ∀ base child : AbsolutePath, base.Valid .posix → child.Valid .posix → base.Relativizes .posix child := by
  have hoo : AbsolutePath.relativize .posix (.root .posix)
      (AbsolutePath.add .posix (.root .posix) ⟨[0x66, 0x6F, 0x6F]⟩) = .ok ⟨[0x6F, 0x6F]⟩ := rfl
  refine ⟨hoo, ?_, ?_⟩
  · intro h
    have := h (.root .posix) ⟨[0x66, 0x6F, 0x6F]⟩ (by decide) (by decide)
    rw [hoo] at this
    exact absurd this (by simp)
  · intro h
    have := (h (.root .posix) ⟨[0x2F, 0x66, 0x6F, 0x6F]⟩ (by decide) (by decide)).2.1 _ hoo
    exact absurd this (by decide)

end EdenCommon
