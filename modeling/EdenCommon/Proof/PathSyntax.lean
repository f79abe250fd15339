import EdenCommon.Lib.Split
import EdenCommon.Proof.Utf8Reads
import EdenCommon.Spec.Path

/-!
# The syntax of paths on every platform

A path is cut into components at its separators. The sanity checks accept a path iff
every piece is a component (`composedPathSanityCheck_iff_pieces`), and the iterators
visit the pieces, forwards (`collect_eq_pieces`) and backwards (`rcollect_eq_pieces`).
Windows has two separators, so a relative path is not the join of its components there;
an absolute path is, since only `\` is accepted in it.

* `scanSeparator_eq`, `scanBack_eq`: the two scans of the source are searches, from the
  front and from the end of what they are given.
* `componentsOf_joinWith`: the components of a join are the components joined.
-/

namespace EdenCommon

/-- **A valid component** of the platform. -/
structure IsComponent (P : Platform) (c : Bytes) : Prop where
  ne_nil : c ≠ []
  no_sep : ∀ x ∈ c, isDirSeparator P x = false
  no_nul : 0 ∉ c
  ne_dot : c ≠ dot
  ne_dotDot : c ≠ dotDot
  utf8 : AcceptedUtf8 c

/-- The bytes at which `ComposedPathSanityCheck` cuts. -/
def isSeparator (P : Platform) (pathSeparator : Option UInt8) (c : UInt8) : Bool :=
  match pathSeparator with
  | some sep => c == sep
  | none => isDirSeparator P c

variable {P : Platform} {sep : Option UInt8} {b : UInt8} {c t val after : Bytes} {cs : List Bytes} {e : PathError}

theorem kDirSeparator_isDirSeparator (P : Platform) : isDirSeparator P kDirSeparator = true := by
  simp [isDirSeparator]

theorem kAbsDirSeparator_isDirSeparator (P : Platform) : isDirSeparator P (kAbsDirSeparator P) = true := by
  cases P <;> decide

theorem eq_kDirSeparator_of_posix {x : UInt8} (hx : isDirSeparator .posix x = true) : x = kDirSeparator := by
  simpa [isDirSeparator, Platform.kIsWindows] using hx

/-- A separator is no part of a longer UTF-8 sequence. -/
theorem not_continuation_of_isDirSeparator (h : isDirSeparator P b = true) : isValidContinuation b = false := by
  simp only [isDirSeparator, Bool.or_eq_true, Bool.and_eq_true, beq_iff_eq] at h
  rcases h with rfl | ⟨-, rfl⟩ <;> decide

/-! ### Joining -/

@[simp] theorem joinWith_nil (sep : UInt8) : joinWith sep [] = [] := rfl

@[simp] theorem joinWith_singleton (sep : UInt8) (c : Bytes) : joinWith sep [c] = c := by
  simp [joinWith, List.intercalate]

theorem joinWith_cons (sep : UInt8) (c : Bytes) (h : cs ≠ []) :
    joinWith sep (c :: cs) = c ++ sep :: joinWith sep cs := by
  obtain ⟨d, ds, rfl⟩ := List.exists_cons_of_ne_nil h
  simp [joinWith, List.intercalate_cons_cons]

/-- A join of two parts has a separator between them. -/
theorem joinWith_append {cs ds : List Bytes} (sep : UInt8) (hc : cs ≠ []) (hd : ds ≠ []) :
    joinWith sep (cs ++ ds) = joinWith sep cs ++ sep :: joinWith sep ds := by
  induction cs with
  | nil => exact absurd rfl hc
  | cons c cs ih =>
    by_cases h : cs = []
    · subst h; rw [List.singleton_append, joinWith_cons sep c hd, joinWith_singleton]
    · rw [List.cons_append, joinWith_cons sep c (by simp [h]), ih h, joinWith_cons sep c h]
      simp

/-- A join of nonempty components is empty only if there are none. -/
theorem joinWith_eq_nil {sep : UInt8} (h : ∀ c ∈ cs, c ≠ []) : joinWith sep cs = [] ↔ cs = [] := by
  constructor
  · intro hj
    cases cs with
    | nil => rfl
    | cons c cs =>
      have hc := h c List.mem_cons_self
      by_cases hcs : cs = []
      · subst hcs; rw [joinWith_singleton] at hj; exact absurd hj hc
      · rw [joinWith_cons sep c hcs] at hj; simp at hj
  · rintro rfl; rfl

/-- A join of components is cut back into them, whatever separator it was joined with. -/
theorem splitOnP_joinWith {s : UInt8} (hs : isDirSeparator P s = true) (hne : cs ≠ [])
    (h : ∀ c ∈ cs, IsComponent P c) : (joinWith s cs).splitOnP (isDirSeparator P) = cs :=
  Lib.splitOnP_intercalate hs hne fun c hc => (h c hc).no_sep

/-! ### The component check -/

@[simp] theorem throw_eq_error {α : Type} (e : PathError) : (throw e : Except PathError α) = .error e := rfl

@[simp] theorem ok_bind {α β : Type} (a : α) (f : α → Except PathError β) :
    (Except.ok a >>= f) = f a := rfl

@[simp] theorem error_bind {α β : Type} (e : PathError) (f : α → Except PathError β) :
    (Except.error e >>= f) = .error e := rfl

@[simp] theorem pure_eq_ok {α : Type} (a : α) : (pure a : Except PathError α) = .ok a := rfl

/-- The check looks for separators and for NUL. -/
theorem checkComponentChars_ok_iff (val : Bytes) : ∀ cs : Bytes,
    checkComponentChars P val cs = .ok () ↔ (∀ x ∈ cs, isDirSeparator P x = false) ∧ 0 ∉ cs := by
  intro cs
  induction cs with
  | nil => simp [checkComponentChars]
  | cons c cs ih =>
    unfold checkComponentChars
    by_cases hs : isDirSeparator P c = true
    · simp [hs]
    · by_cases h0 : c = 0
      · subst h0; simp [hs]
      · rw [if_neg hs, if_neg h0, ih]
        simp [hs, Ne.symm h0]

/-- The checks of a component, one after the other. -/
theorem pathComponentSanityCheck_eq (P : Platform) (c after : Bytes) :
    pathComponentSanityCheck P c after =
      match checkComponentChars P c c with
      | .error e => .error e
      | .ok _ =>
        if c = [] then .error .componentEmpty
        else if c = dot then .error .componentDot
        else if c = dotDot then .error .componentDotDot
        else match isValidUtf8 c after with
          | some true => .ok ()
          | some false => .error (.componentNotUtf8 c)
          | none => .error .outOfBounds := by
  unfold pathComponentSanityCheck
  cases checkComponentChars P c c with
  | error e => rfl
  | ok u =>
    by_cases hn : c = []
    · simp [hn]
    by_cases hd : c = dot
    · simp [hd, dot]
    by_cases hdd : c = dotDot
    · simp [hdd, dot, dotDot]
    · simp only [hn, hd, hdd, if_false, pure_eq_ok, ok_bind]
      rcases isValidUtf8 c after with _ | _ | _ <;> rfl

/-- **The component check**, wherever the component stands. -/
theorem pathComponentSanityCheck_ok_iff (c after : Bytes) :
    pathComponentSanityCheck P c after = .ok () ↔ IsComponent P c := by
  have hu := isValidUtf8_true_iff c after
  rw [pathComponentSanityCheck_eq]
  cases hch : checkComponentChars P c c with
  | error e =>
    simp only [reduceCtorEq, false_iff]
    intro h
    rw [(checkComponentChars_ok_iff c c).2 ⟨h.no_sep, h.no_nul⟩] at hch
    simp at hch
  | ok u =>
    obtain ⟨h1, h2⟩ := (checkComponentChars_ok_iff c c).1 hch
    constructor
    · intro h
      by_cases hn : c = []
      · simp [hn] at h
      by_cases hd : c = dot
      · simp [hd, dot] at h
      by_cases hdd : c = dotDot
      · simp [hdd, dot, dotDot] at h
      simp only [hn, hd, hdd, if_false] at h
      refine ⟨hn, h1, h2, hd, hdd, hu.1 ?_⟩
      split at h
      · assumption
      · simp at h
      · simp at h
    · intro h
      simp only [h.ne_nil, h.ne_dot, h.ne_dotDot, if_false, hu.2 h.utf8]

/-- A valid component is what the grammar says. -/
theorem pathComponent_valid_iff_isComponent (c : PathComponent) : c.Valid P ↔ IsComponent P c.path_ :=
  pathComponentSanityCheck_ok_iff c.path_ _

/-! ### The check of composed paths -/

/-- The search for the next separator. -/
theorem nextSeparator_eq (val : Bytes) (start : ℕ) (sep : Option UInt8) :
    nextSeparator P val start sep = ((val.drop start).findIdx? (isSeparator P sep)).map (start + ·) := by
  cases sep <;> rfl

/-- A piece is followed by the separator that ends it. -/
theorem drop_of_findIdx? {p : UInt8 → Bool} {start i : ℕ} (h : (val.drop start).findIdx? p = some i) :
    ∃ x, start + i < val.length ∧ p x = true ∧ val.drop (start + i) = x :: val.drop (start + i + 1) := by
  obtain ⟨hlt, hidx⟩ := List.findIdx?_eq_some_iff_findIdx_eq.1 h
  have hlen : (val.drop start).length = val.length - start := List.length_drop
  have hw : (val.drop start).findIdx p < (val.drop start).length := by omega
  have hget := @List.findIdx_getElem _ p (val.drop start) hw
  simp only [hidx, List.getElem_drop] at hget
  exact ⟨_, by omega, hget, List.drop_eq_getElem_cons (by omega)⟩

/-- The pieces of the bytes from `start` on are checked one by one. -/
theorem composedPathLoop_iff_pieces :
    ∀ (fuel start : ℕ), (val.drop start).length < fuel →
      (composedPathLoop P val after sep fuel start = .ok () ↔
        ∀ c ∈ (val.drop start).splitOnP (isSeparator P sep), IsComponent P c) := by
  intro fuel
  induction fuel with
  | zero => intro start h; omega
  | succ fuel ih =>
    intro start hf
    unfold composedPathLoop
    rw [nextSeparator_eq]
    cases hi : (val.drop start).findIdx? (isSeparator P sep) with
    | none =>
      -- the last piece
      rw [Lib.splitOnP_of_findIdx_eq (List.findIdx?_eq_none_iff_findIdx_eq.1 hi)]
      simp only [Option.map_none, List.mem_singleton, forall_eq]
      exact pathComponentSanityCheck_ok_iff _ _
    | some i =>
      obtain ⟨hlt, hidx⟩ := List.findIdx?_eq_some_iff_findIdx_eq.1 hi
      rw [Lib.splitOnP_of_findIdx_lt (by rw [hidx]; exact hlt), hidx]
      simp only [Option.map_some, Nat.add_sub_cancel_left, List.mem_cons, forall_eq_or_imp]
      rw [List.length_drop] at hf
      have hrest := ih (start + i + 1) (by rw [List.length_drop] at hlt ⊢; omega)
      rw [List.drop_drop, ← Nat.add_assoc, ← hrest,
        ← pathComponentSanityCheck_ok_iff _ (val.drop (start + i) ++ after)]
      cases pathComponentSanityCheck P ((val.drop start).take i) (val.drop (start + i) ++ after) with
      | error e => simp
      | ok u => simp

/-- **The check of a path** is that of its pieces. -/
theorem composedPathSanityCheck_iff_pieces (val after : Bytes) :
    composedPathSanityCheck P val after sep = .ok () ↔
      ∀ c ∈ val.splitOnP (isSeparator P sep), IsComponent P c := by
  have h := @composedPathLoop_iff_pieces P sep val after (val.length + 1) 0 (by simp)
  rwa [List.drop_zero] at h

/-! ### Failed checks throw

In front of a byte that is no continuation byte nothing behind the string is read,
and the loop over the components ends. -/

theorem checkComponentChars_thrown (h : checkComponentChars P val c = .error e) : e.Thrown := by
  induction c with
  | nil => simp [checkComponentChars] at h
  | cons c cs ih =>
    unfold checkComponentChars at h
    split at h
    · cases h; exact ⟨nofun, nofun⟩
    · split at h
      · cases h; exact ⟨nofun, nofun⟩
      · exact ih h

/-- What it throws is one of its own errors. -/
theorem pathComponentSanityCheck_thrown (hb : isValidContinuation b = false)
    (h : pathComponentSanityCheck P c (b :: t) = .error e) : e.Thrown := by
  rw [pathComponentSanityCheck_eq, isValidUtf8_eq hb] at h
  cases hch : checkComponentChars P c c with
  | error e' =>
    rw [hch] at h
    cases h
    exact checkComponentChars_thrown hch
  | ok u =>
    rw [hch] at h
    simp only at h
    split at h
    · cases h; exact ⟨nofun, nofun⟩
    split at h
    · cases h; exact ⟨nofun, nofun⟩
    split at h
    · cases h; exact ⟨nofun, nofun⟩
    split at h
    · cases h
    · cases h; exact ⟨nofun, nofun⟩
    · rename_i hn; cases hn

/-- So is what the loop throws. -/
theorem composedPathLoop_thrown (hsep : ∀ x, isSeparator P sep x = true → isValidContinuation x = false)
    (hb : isValidContinuation b = false) :
    ∀ (fuel start : ℕ), (val.drop start).length < fuel →
      composedPathLoop P val (b :: t) sep fuel start = .error e → e.Thrown := by
  intro fuel
  induction fuel with
  | zero => intro start h; omega
  | succ fuel ih =>
    intro start hf h
    unfold composedPathLoop at h
    rw [nextSeparator_eq] at h
    cases hi : (val.drop start).findIdx? (isSeparator P sep) with
    | none =>
      rw [hi] at h
      exact pathComponentSanityCheck_thrown hb h
    | some i =>
      obtain ⟨x, hlt, hx, hcut⟩ := drop_of_findIdx? hi
      simp only [hi, Option.map_some, hcut, List.cons_append] at h
      rw [List.length_drop] at hf
      cases hc : pathComponentSanityCheck P ((val.drop start).take (start + i - start))
        (x :: (val.drop (start + i + 1) ++ b :: t)) with
      | error e' =>
        rw [hc, error_bind] at h
        cases h
        exact pathComponentSanityCheck_thrown (hsep x hx) hc
      | ok u =>
        rw [hc, ok_bind] at h
        exact ih _ (by rw [List.length_drop]; omega) h

/-! ### The checks of the two path types -/

theorem not_continuation_of_absolute (x : UInt8) (h : isSeparator P (some (kAbsDirSeparator P)) x = true) :
    isValidContinuation x = false := by
  obtain rfl : x = kAbsDirSeparator P := by simpa [isSeparator] using h
  exact not_continuation_of_isDirSeparator (kAbsDirSeparator_isDirSeparator P)

/-- **The relative path check** accepts the empty path and the paths whose pieces are
all components. -/
theorem relativePathSanityCheck_iff_pieces (s after : Bytes) :
    relativePathSanityCheck P s after = .ok () ↔
      s = [] ∨ ∀ c ∈ s.splitOnP (isDirSeparator P), IsComponent P c := by
  by_cases hs : s = []
  · subst hs; simp [relativePathSanityCheck]
  obtain ⟨first, u, hf⟩ := List.exists_cons_of_ne_nil hs
  have hl := List.getLast?_eq_some_getLast hs
  have hh : s.head? = some first := by rw [hf]; rfl
  have hcomp := @composedPathSanityCheck_iff_pieces P none s after
  unfold relativePathSanityCheck
  rw [hh, hl]
  simp only [hs, false_or]
  constructor
  · intro h
    split at h
    · simp at h
    · split at h
      · simp at h
      · exact hcomp.1 h
  · -- a separator at either end would leave an empty piece
    intro h
    obtain ⟨h1, h2⟩ := Lib.no_outer_separator fun c hc => (h c hc).ne_nil
    rw [if_neg (by simp [h1 _ hh]), if_neg (by simp [h2 _ hl])]
    exact hcomp.2 h

theorem kRootStr_isPrefixOf (P : Platform) (s : Bytes) : (kRootStr P).isPrefixOf (kRootStr P ++ s) = true := by
  rw [List.isPrefixOf_iff_prefix]
  exact List.prefix_append _ _

/-- The bytes of an absolute path behind the root are cut at the one separator it may
have; the pieces hold neither. -/
theorem absolute_pieces_iff {s : Bytes} (hs : s ≠ []) :
    (∀ c ∈ s.splitOnP (isSeparator P (some (kAbsDirSeparator P))), IsComponent P c) ↔
      ∃ cs, cs ≠ [] ∧ (∀ c ∈ cs, IsComponent P c) ∧ s = joinWith (kAbsDirSeparator P) cs := by
  have hsp : s.splitOnP (isSeparator P (some (kAbsDirSeparator P))) = s.splitOn (kAbsDirSeparator P) := by
    rw [List.splitOn_eq_splitOnP]; rfl
  constructor
  · intro h
    refine ⟨_, List.splitOnP_ne_nil _ s, h, ?_⟩
    rw [hsp]
    exact (List.intercalate_splitOn _).symm
  · rintro ⟨cs, hne, hcs, rfl⟩
    rw [hsp]
    unfold joinWith
    rw [List.splitOn_intercalate _ (fun c hc hm => ?_) hne]
    · exact hcs
    · have := (hcs c hc).no_sep _ hm
      rw [kAbsDirSeparator_isDirSeparator] at this
      cases this

/-- **The absolute path check** accepts the root and the root followed by a join of
components. -/
theorem absolutePathSanityCheck_iff_pieces (s after : Bytes) :
    absolutePathSanityCheck P s after = .ok () ↔
      s = kRootStr P ∨ ∃ cs, cs ≠ [] ∧ (∀ c ∈ cs, IsComponent P c) ∧
        s = kRootStr P ++ joinWith (kAbsDirSeparator P) cs := by
  rcases Decidable.em (kRootStr P <+: s) with hp | hp
  case inr =>
    -- not under the root: refused, and neither form starts otherwise
    have hnp : (kRootStr P).isPrefixOf s = false := by
      rw [← Bool.not_eq_true, List.isPrefixOf_iff_prefix]; exact hp
    constructor
    · intro h; simp [absolutePathSanityCheck, hnp] at h
    · rintro (rfl | ⟨cs, -, -, rfl⟩)
      · exact absurd (List.prefix_refl _) hp
      · exact absurd (List.prefix_append _ _) hp
  obtain ⟨s, rfl⟩ := hp
  have hcomp := @composedPathSanityCheck_iff_pieces P (some (kAbsDirSeparator P)) s after
  unfold absolutePathSanityCheck
  simp only [kRootStr_isPrefixOf, Bool.not_true, Bool.false_eq_true, if_false, List.length_append,
    List.drop_left, List.append_cancel_left_eq]
  by_cases hs : s = []
  · subst hs
    rw [if_neg, if_neg (by simp)]
    · simp
    · cases P <;> decide
  have hlen := List.length_pos_iff.2 hs
  have hlast : (kRootStr P ++ s).getLast? = s.getLast? := by
    rw [List.getLast?_append, List.getLast?_eq_some_getLast hs]; rfl
  have hroot : kRootStr P ≠ kRootStr P ++ s := fun h => hs (List.self_eq_append_right.1 h)
  rw [if_pos (show (kRootStr P).length < (kRootStr P).length + s.length by omega), hlast,
    ← absolute_pieces_iff hs, ← hcomp]
  constructor
  · intro h
    split at h
    · simp at h
    · exact Or.inr h
  · rintro (h | h)
    · exact absurd h.symm hroot
    · -- a trailing slash would leave the last piece empty, or inside a component
      have hcs := hcomp.1 h
      rw [if_neg]
      · exact h
      rintro ⟨-, hl⟩
      obtain ⟨cs, hne, hcs', rfl⟩ := (absolute_pieces_iff hs).1 hcs
      have hout := Lib.no_outer_separator (p := isDirSeparator P) (l := joinWith (kAbsDirSeparator P) cs)
        fun d hd => by
          rw [splitOnP_joinWith (kAbsDirSeparator_isDirSeparator P) hne hcs'] at hd
          exact (hcs' d hd).ne_nil
      have := hout.2 _ hl
      rw [kDirSeparator_isDirSeparator] at this
      cases this

/-! ### Searching from the back -/

theorem rfind_of_not_mem {x : UInt8} {s : Bytes} (h : x ∉ s) : rfind x s = none := by
  induction s with
  | nil => rfl
  | cons y s ih =>
    rw [List.mem_cons, not_or] at h
    unfold rfind
    rw [ih h.2]
    simp [Ne.symm h.1]

/-- The last occurrence of `x` is the one with no `x` behind it. -/
theorem rfind_append {x : UInt8} {s t : Bytes} (h : x ∉ t) : rfind x (s ++ x :: t) = some s.length := by
  induction s with
  | nil => simp [rfind, rfind_of_not_mem h]
  | cons y s ih =>
    rw [List.cons_append]
    unfold rfind
    rw [ih, List.length_cons]

/-- A byte that is not in the end of a text is in its beginning. -/
theorem rfind_append_of_not_mem {x : UInt8} {t : Bytes} (h : x ∉ t) (s : Bytes) : rfind x (s ++ t) = rfind x s := by
  induction s with
  | nil =>
    rw [List.nil_append, rfind_of_not_mem h]
    rfl
  | cons y s ih =>
    rw [List.cons_append]
    unfold rfind
    rw [ih]

theorem rfind_lt {x : UInt8} {s : Bytes} {i : ℕ} (h : rfind x s = some i) : i < s.length := by
  induction s generalizing i with
  | nil => simp [rfind] at h
  | cons y s ih =>
    unfold rfind at h
    rw [List.length_cons]
    split at h
    · rename_i j hj
      obtain rfl := Option.some.inj h
      have := ih hj
      omega
    · split at h
      · obtain rfl := Option.some.inj h
        omega
      · simp at h

/-! ### The component iterators -/

/-- The scan forward, as a search. -/
theorem scanSeparator_eq (view : Bytes) (pos : ℕ) :
    scanSeparator P view pos = pos + (view.drop pos).findIdx (isDirSeparator P) := by
  unfold scanSeparator
  rw [Lib.length_takeWhile_not]

/-- A scan over bytes that are no separators stops at the separator, or the end, behind
them. -/
theorem scanSeparator_append (pre d post : Bytes) (hd : ∀ x ∈ d, isDirSeparator P x = false)
    (hpost : ∀ x, post.head? = some x → isDirSeparator P x = true) :
    scanSeparator P (pre ++ (d ++ post)) pre.length = pre.length + d.length := by
  unfold scanSeparator
  rw [List.drop_left, List.takeWhile_append_of_pos fun x hx => by rw [hd x hx]; rfl, List.length_append]
  have hstop : post.takeWhile (fun c => !isDirSeparator P c) = [] := by
    by_cases hp : post = []
    · rw [hp, List.takeWhile_nil]
    · obtain ⟨x, t, rfl⟩ := List.exists_cons_of_ne_nil hp
      rw [List.takeWhile_cons_of_neg (by simp [hpost x rfl])]
  rw [hstop, List.length_nil, Nat.add_zero]

/-- From the start of a component the iterator visits the pieces that are left, if
none of them is empty. -/
theorem collect_eq_pieces (view : Bytes) : ∀ (fuel pos : ℕ), pos < view.length → (view.drop pos).length < fuel →
    (∀ c ∈ (view.drop pos).splitOnP (isDirSeparator P), c ≠ []) →
    ComponentIterator.collect P view fuel (.begin_ P view pos) = (view.drop pos).splitOnP (isDirSeparator P) := by
  intro fuel
  induction fuel with
  | zero => intro pos _ h; omega
  | succ fuel ih =>
    intro pos hpos hf hne
    have hlen : (view.drop pos).length = view.length - pos := List.length_drop
    have hidx : (view.drop pos).findIdx (isDirSeparator P) ≤ (view.drop pos).length :=
      List.findIdx_le_length
    set i := (view.drop pos).findIdx (isDirSeparator P) with hi
    have hbeg : ComponentIterator.begin_ P view pos = ⟨pos, pos + i⟩ := by
      rw [ComponentIterator.begin_, scanSeparator_eq]
    have hat : (⟨pos, pos + i⟩ : ComponentIterator) ≠ .atEnd view := by
      intro h
      have := congrArg ComponentIterator.start_ h
      simp only [ComponentIterator.atEnd] at this; omega
    rw [hbeg]
    unfold ComponentIterator.collect
    rw [if_neg hat]
    have hpiece : ComponentIterator.piece view ⟨pos, pos + i⟩ = (view.drop pos).take i := by
      unfold ComponentIterator.piece; simp
    rw [hpiece]
    rcases Nat.eq_or_lt_of_le hidx with heq | hlt
    · -- the last component: the iterator steps onto the end
      have hadv : ComponentIterator.advance P view ⟨pos, pos + i⟩ = .atEnd view := by
        unfold ComponentIterator.advance ComponentIterator.atEnd
        rw [if_pos (show pos + i = view.length by omega)]
        simp only [show pos + i = view.length by omega]
      rw [hadv, Lib.splitOnP_of_findIdx_eq (hi ▸ heq), heq, List.take_length]
      cases fuel with
      | zero => rfl
      | succ fuel => simp [ComponentIterator.collect]
    · -- behind the separator the iterator stands as at the start of what is left
      have hadv : ComponentIterator.advance P view ⟨pos, pos + i⟩ = .begin_ P view (pos + i + 1) := by
        unfold ComponentIterator.advance ComponentIterator.begin_
        rw [if_neg (show ¬ pos + i = view.length by omega)]
      have hcut := @Lib.splitOnP_of_findIdx_lt _ (isDirSeparator P) (view.drop pos)
        (by rw [← hi]; exact hlt)
      rw [← hi, List.drop_drop, ← Nat.add_assoc] at hcut
      rw [hcut] at hne ⊢
      rw [hadv]
      have hrest : ∀ c ∈ (view.drop (pos + i + 1)).splitOnP (isDirSeparator P), c ≠ [] := fun c hc =>
        hne c (List.mem_cons_of_mem _ hc)
      -- a separator at the end would make an empty piece
      have hin : pos + i + 1 < view.length := by
        by_contra hge
        have hnil : view.drop (pos + i + 1) = [] := List.drop_eq_nil_of_le (by omega)
        rw [hnil] at hrest
        exact hrest [] (by simp) rfl
      rw [ih (pos + i + 1) hin (by rw [List.length_drop]; omega) hrest]

/-- The scan back, as a search from the end. -/
theorem scanBack_eq (view : Bytes) (pathBegin pos : ℕ) :
    ComponentIterator.scanBack P view pathBegin pos =
      pos - ((view.take pos).drop pathBegin).reverse.findIdx (isDirSeparator P) := by
  unfold ComponentIterator.scanBack
  rw [Lib.length_takeWhile_not]

/-- A scan back over bytes that are no separators stops behind the separator in front of
them, or at the place where it has to stop. -/
theorem scanBack_append (pre d post : Bytes) {lo : ℕ} (hd : ∀ x ∈ d, isDirSeparator P x = false)
    (hpre : lo = pre.length ∨ ∃ u x, pre = u ++ [x] ∧ lo ≤ u.length ∧ isDirSeparator P x = true) :
    ComponentIterator.scanBack P (pre ++ (d ++ post)) lo (pre.length + d.length) = pre.length := by
  have hlo : lo ≤ pre.length := by
    rcases hpre with rfl | ⟨u, x, rfl, hu, -⟩
    · exact le_rfl
    · rw [List.length_append]
      omega
  have htake : (pre ++ (d ++ post)).take (pre.length + d.length) = pre ++ d := by
    rw [← List.append_assoc, ← List.length_append, List.take_left]
  have hstop : (pre.drop lo).reverse.takeWhile (fun c => !isDirSeparator P c) = [] := by
    rcases hpre with rfl | ⟨u, x, rfl, hu, hx⟩
    · rw [List.drop_length, List.reverse_nil, List.takeWhile_nil]
    · rw [List.drop_append_of_le_length hu, List.reverse_append, List.reverse_singleton, List.singleton_append,
        List.takeWhile_cons_of_neg (by simp [hx])]
  unfold ComponentIterator.scanBack
  rw [htake, List.drop_append_of_le_length hlo, List.reverse_append,
    List.takeWhile_append_of_pos fun x hx => by rw [hd x (List.mem_reverse.1 hx)]; rfl, hstop, List.append_nil,
    List.length_reverse, Nat.add_sub_cancel]

/-- The bytes `[lo, hi)` of a view. -/
theorem length_drop_take {view : Bytes} {lo hi : ℕ} (h : hi ≤ view.length) :
    ((view.take hi).drop lo).length = hi - lo := by
  rw [List.length_drop, List.length_take]; omega

/-- From the end of a component the reverse iterator visits the pieces in front of it,
last one first, if none of them is empty. -/
theorem rcollect_eq_pieces (view : Bytes) (lo : ℕ) : ∀ (fuel hi : ℕ), lo < hi → hi ≤ view.length →
    hi - lo < fuel → (∀ c ∈ ((view.take hi).drop lo).splitOnP (isDirSeparator P), c ≠ []) →
    ComponentIterator.rcollect P view lo fuel ⟨ComponentIterator.scanBack P view lo hi, hi⟩ =
      (((view.take hi).drop lo).splitOnP (isDirSeparator P)).reverse := by
  intro fuel
  induction fuel with
  | zero => intro hi _ _ h; omega
  | succ fuel ih =>
    intro hi hlo hhi hf hne
    have hlen := @length_drop_take view lo hi hhi
    have hidx : ((view.take hi).drop lo).reverse.findIdx (isDirSeparator P) ≤ hi - lo := by
      rw [← hlen, ← List.length_reverse]; exact List.findIdx_le_length
    set n := ((view.take hi).drop lo).reverse.findIdx (isDirSeparator P) with hn
    have hat : (⟨hi - n, hi⟩ : ComponentIterator) ≠ .rend lo := by
      intro h
      have := congrArg ComponentIterator.end_ h
      simp only [ComponentIterator.rend] at this; omega
    rw [scanBack_eq, ← hn]
    unfold ComponentIterator.rcollect
    rw [if_neg hat]
    have hpiece : ComponentIterator.piece view ⟨hi - n, hi⟩ = (view.take hi).drop (hi - n) := by
      unfold ComponentIterator.piece
      rw [List.drop_take]
    rw [hpiece]
    rcases Nat.eq_or_lt_of_le hidx with heq | hlt
    · -- the first component: the iterator steps onto the reverse end
      have hret : ComponentIterator.retreat P view lo ⟨hi - n, hi⟩ = .rend lo := by
        unfold ComponentIterator.retreat ComponentIterator.rend
        rw [if_pos (show hi - n = lo by omega)]
        simp only [show hi - n = lo by omega]
      have hone : ((view.take hi).drop lo).splitOnP (isDirSeparator P) = [(view.take hi).drop lo] := by
        refine List.splitOnP_eq_singleton fun x hx => ?_
        refine List.findIdx_eq_length.1 ?_ x (List.mem_reverse.2 hx)
        rw [← hn, heq, List.length_reverse, hlen]
      rw [hret, hone, show hi - n = lo by omega, List.reverse_singleton]
      cases fuel with
      | zero => rfl
      | succ fuel => simp [ComponentIterator.rcollect]
    · -- in front of the separator it stands as at the end of what is left
      have hret : ComponentIterator.retreat P view lo ⟨hi - n, hi⟩ =
          ⟨ComponentIterator.scanBack P view lo (hi - n - 1), hi - n - 1⟩ := by
        unfold ComponentIterator.retreat
        rw [if_neg (show ¬ hi - n = lo by omega)]
      have hcut := @Lib.splitOnP_of_findIdx_reverse_lt _ (isDirSeparator P) ((view.take hi).drop lo)
        (by rw [← hn, hlen]; exact hlt)
      have hfront : ((view.take hi).drop lo).take (hi - lo - n - 1) = (view.take (hi - n - 1)).drop lo := by
        rw [List.take_drop, List.take_take, show min (lo + (hi - lo - n - 1)) hi = hi - n - 1 by omega]
      have hback : ((view.take hi).drop lo).drop (hi - lo - n) = (view.take hi).drop (hi - n) := by
        rw [List.drop_drop, show lo + (hi - lo - n) = hi - n by omega]
      rw [← hn, hlen, hfront, hback] at hcut
      rw [hcut] at hne ⊢
      have hrest : ∀ c ∈ ((view.take (hi - n - 1)).drop lo).splitOnP (isDirSeparator P), c ≠ [] := fun c hc =>
        hne c (List.mem_append_left _ hc)
      -- two separators, or one at the start, would make an empty piece
      have hin : lo < hi - n - 1 := by
        by_contra hge
        have hnil : (view.take (hi - n - 1)).drop lo = [] :=
          List.drop_eq_nil_of_le (by rw [List.length_take]; omega)
        rw [hnil] at hrest
        exact hrest [] (by simp) rfl
      rw [hret, ih (hi - n - 1) hin (by omega) (by omega) hrest, List.reverse_append,
        List.reverse_singleton, List.singleton_append]

/-- **The iterators visit the pieces behind the first `front.length` bytes**, forwards
and backwards. -/
theorem componentsOf_pieces (front : Bytes) {s : Bytes} (hs : s ≠ [])
    (h : ∀ c ∈ s.splitOnP (isDirSeparator P), c ≠ []) :
    componentsOf P (front ++ s) front.length = s.splitOnP (isDirSeparator P) ∧
      rcomponentsOf P (front ++ s) front.length = (s.splitOnP (isDirSeparator P)).reverse := by
  have hlen := List.length_pos_iff.2 hs
  have hdrop : (front ++ s).drop front.length = s := List.drop_left
  have hall : (front ++ s).length = front.length + s.length := List.length_append
  constructor
  · unfold componentsOf
    rw [collect_eq_pieces _ _ _ (by omega) (by rw [hdrop]; omega) (by rw [hdrop]; exact h), hdrop]
  · have htake : ((front ++ s).take (front ++ s).length).drop front.length = s := by
      rw [List.take_length, hdrop]
    unfold rcomponentsOf
    rw [ComponentIterator.rbegin, rcollect_eq_pieces (front ++ s) front.length _ (front ++ s).length
      (by omega) (Nat.le_refl _) (by omega) (by rw [htake]; exact h), htake]

/-- A path that ends where its components begin has none. -/
theorem componentsOf_self (front : Bytes) :
    componentsOf P front front.length = [] ∧ rcomponentsOf P front front.length = [] := by
  constructor
  · have hbeg : ComponentIterator.begin_ P front front.length = .atEnd front := by
      rw [ComponentIterator.begin_, scanSeparator_eq, ComponentIterator.atEnd]; simp
    rw [componentsOf, hbeg, ComponentIterator.collect, if_pos rfl]
  · have hbeg : ComponentIterator.rbegin P front front.length = .rend front.length := by
      rw [ComponentIterator.rbegin, scanBack_eq, ComponentIterator.rend]; simp
    rw [rcomponentsOf, hbeg, ComponentIterator.rcollect, if_pos rfl]

/-- **The components of a join** are the components joined. -/
theorem componentsOf_joinWith (front : Bytes) {s : UInt8} (hs : isDirSeparator P s = true)
    (hcs : ∀ c ∈ cs, IsComponent P c) :
    componentsOf P (front ++ joinWith s cs) front.length = cs ∧
      rcomponentsOf P (front ++ joinWith s cs) front.length = cs.reverse := by
  by_cases hn : cs = []
  · subst hn
    rw [joinWith_nil, List.append_nil]
    exact componentsOf_self front
  have hj : joinWith s cs ≠ [] := fun h => hn ((joinWith_eq_nil fun c hc => (hcs c hc).ne_nil).1 h)
  have hsp := splitOnP_joinWith hs hn hcs
  have h := @componentsOf_pieces P front _ hj fun c hc => (hcs c (by rwa [hsp] at hc)).ne_nil
  rwa [hsp] at h

end EdenCommon
