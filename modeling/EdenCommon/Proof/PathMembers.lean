import EdenCommon.Proof.PathIteration
import EdenCommon.Proof.PathGrammar

/-!
# `findParent` and `stem`

* `isSubDirOf_iff`: `findParent` compares bytes and looks for a separator behind them, and
  this is the comparison of components.
* `stem_iff`: `stem` cuts the last component at its last period and checks the rest as a
  path. The rest is refused if it is `.` or `..`, and only then.

The rest is about strings with a last separator or a last period: `exists_last_split` cuts a
string at the last one and `last_split_unique` says that there is one way to do so. A
component that is cut at a period is a component unless it is `.` or `..`
(`isComponent_cut`), which is the case that the check of `stem` refuses.
-/

namespace EdenCommon

open Lib ComposedPathIterator

variable {P : Platform} {kIsDebug : Bool} {sep : ℕ → UInt8} {cs : List Bytes} {after : Bytes}

/-! ### Parents -/

/-- `q` is a proper parent of `p`, by components. -/
def RelativePath.IsBelow (P : Platform) (p q : RelativePath) : Prop :=
  q.components P <+: p.components P ∧ q.components P ≠ p.components P

instance (P : Platform) (p q : RelativePath) : Decidable (p.IsBelow P q) :=
  inferInstanceAs (Decidable (_ ∧ _))

theorem components_eq_nil_iff {p : RelativePath} (hp : p.Valid P) : p.components P = [] ↔ p.path_ = [] := by
  obtain ⟨sep, hcut⟩ := exists_cut_relative hp
  exact hcut.eq_nil_iff

/-- **A parent, by bytes**: the empty path, or what a separator follows. -/
theorem isBelow_iff {p q : RelativePath} (hp : p.Valid .posix) (hq : q.Valid .posix) :
    p.IsBelow .posix q ↔ (q.path_ = [] ∧ p.path_ ≠ []) ∨ q.path_ ≠ [] ∧ ∃ t, p.path_ = q.path_ ++ kDirSeparator :: t := by
  have hpjoin := joinWith_components hp
  have hqjoin := joinWith_components hq
  constructor
  · rintro ⟨⟨rest, hrest⟩, hne⟩
    have hrestne : rest ≠ [] := by
      rintro rfl
      rw [List.append_nil] at hrest
      exact hne hrest
    by_cases hqnil : q.path_ = []
    · refine .inl ⟨hqnil, fun hpnil => hrestne ?_⟩
      rw [(components_eq_nil_iff hp).2 hpnil] at hrest
      exact (List.append_eq_nil_iff.1 hrest).2
    · refine .inr ⟨hqnil, joinWith kDirSeparator rest, ?_⟩
      rw [← hpjoin, ← hrest, joinWith_append kDirSeparator (fun h => hqnil ((components_eq_nil_iff hq).1 h)) hrestne, hqjoin]
  · rintro (⟨hqnil, hpnil⟩ | ⟨hqne, t, ht⟩)
    · have hqcs := (components_eq_nil_iff hq).2 hqnil
      refine ⟨by rw [hqcs]; exact List.nil_prefix, ?_⟩
      rw [hqcs]
      exact fun h => hpnil ((components_eq_nil_iff hp).1 h.symm)
    · have hpne : p.path_ ≠ [] := by
        rw [ht]
        simp
      have hcut := List.splitOnP_append_cons q.path_ t (kDirSeparator_isDirSeparator .posix)
      rw [← ht, ← components_pieces hp hpne, ← components_pieces hq hqne] at hcut
      refine ⟨⟨_, hcut.symm⟩, fun h => ?_⟩
      rw [← h] at hcut
      exact List.splitOnP_ne_nil _ t (List.self_eq_append_right.1 hcut)

theorem exists_append_iff {s u : Bytes} {x : UInt8} :
    (∃ t, s = u ++ x :: t) ↔ s[u.length]? = some x ∧ s.take u.length = u := by
  constructor
  · rintro ⟨t, rfl⟩
    simp
  · rintro ⟨hget, htake⟩
    obtain ⟨hlt, hx⟩ := List.getElem?_eq_some_iff.1 hget
    refine ⟨s.drop (u.length + 1), ?_⟩
    have hcut := List.take_append_drop u.length s
    rw [htake, List.drop_eq_getElem_cons hlt, hx] at hcut
    exact hcut.symm

theorem allPaths_relative (p : RelativePathPiece) : p.allPaths P = .ok (range P false p p.view.data none) := rfl

/-- **`findParent`** leads behind the parent, or to the end. -/
theorem findParent_eq {p q : RelativePathPiece} (hp : p.copy.Valid .posix) (hq : q.copy.Valid .posix) :
    p.findParent .posix q =
      .ok (if p.copy.IsBelow .posix q.copy then p.view.data.map (· + q.view.bytes.length) else none) := by
  have hbelow := isBelow_iff hp hq
  have hpbytes : p.copy.path_ = p.view.bytes := rfl
  have hqbytes : q.copy.path_ = q.view.bytes := rfl
  rw [hpbytes, hqbytes] at hbelow
  unfold RelativePathPiece.findParent
  rw [allPaths_relative, ok_bind]
  simp only [pure_eq_ok, range]
  by_cases hlen : p.view.bytes.length ≤ q.view.bytes.length
  · -- a parent is shorter
    have hno : ¬ p.copy.IsBelow .posix q.copy := by
      rw [hbelow]
      rintro (⟨hqnil, hpnil⟩ | ⟨-, t, ht⟩)
      · rw [hqnil, List.length_nil, Nat.le_zero] at hlen
        exact hpnil (List.length_eq_zero_iff.1 hlen)
      · rw [ht, List.length_append, List.length_cons] at hlen
        omega
    rw [if_pos hlen, if_neg hno]
  rw [if_neg hlen]
  by_cases hqnil : q.view.bytes = []
  · have hyes : p.copy.IsBelow .posix q.copy := by
      refine hbelow.2 (.inl ⟨hqnil, fun hpnil => hlen ?_⟩)
      rw [hpnil]
      exact Nat.zero_le _
    rw [if_pos hqnil, if_pos hyes, hqnil]
    cases p.view.data <;> rfl
  rw [if_neg hqnil]
  have hiff : p.copy.IsBelow .posix q.copy ↔
      p.view.bytes[q.view.bytes.length]? = some kDirSeparator ∧ p.view.bytes.take q.view.bytes.length = q.view.bytes := by
    rw [hbelow, ← exists_append_iff]
    constructor
    · rintro (⟨h, -⟩ | ⟨-, h⟩)
      · exact absurd h hqnil
      · exact h
    · exact fun h => .inr ⟨hqnil, h⟩
  obtain ⟨c, hget⟩ : ∃ c, p.view.bytes[q.view.bytes.length]? = some c :=
    ⟨_, List.getElem?_eq_getElem (show q.view.bytes.length < p.view.bytes.length by omega)⟩
  rw [hget] at hiff ⊢
  by_cases hsep : isDirSeparator .posix c = true
  · by_cases htake : p.view.bytes.take q.view.bytes.length = q.view.bytes
    · rw [if_pos (hiff.2 ⟨congrArg some (eq_kDirSeparator_of_posix hsep), htake⟩)]
      simp only [hsep, htake, Bool.not_true, Bool.false_eq_true, ne_eq, not_true_eq_false, if_false]
    · rw [if_neg fun h => htake (hiff.1 h).2]
      simp only [hsep, htake, Bool.not_true, Bool.false_eq_true, ne_eq, not_false_eq_true, if_false, if_true]
  · have hno : ¬ p.copy.IsBelow .posix q.copy := by
      intro h
      rw [Option.some.inj (hiff.1 h).1] at hsep
      exact hsep (kDirSeparator_isDirSeparator .posix)
    rw [if_neg hno]
    simp only [hsep, Bool.not_false, if_true]

/-- **`isSubDirOf` and `isParentDirOf`** say whether the components of the one path are a
proper prefix of those of the other; `findParent` is then an iterator of `allPaths()` at
the parent, and otherwise its end. -/
theorem isSubDirOf_iff (p q : RelativePathPiece) (hp : p.copy.Valid .posix) (hq : q.copy.Valid .posix) :
    p.isSubDirOf .posix q = .ok (decide (p.copy.IsBelow .posix q.copy)) ∧
      q.isParentDirOf .posix p = .ok (decide (p.copy.IsBelow .posix q.copy)) ∧
      ∃ all it, p.allPaths .posix = .ok all ∧ p.findParent .posix q = .ok it ∧
        (p.copy.IsBelow .posix q.copy →
          all.Position it ∧ it ≠ all.end_ ∧ ∃ head, all.deref it = .ok head ∧ head.copy = q.copy) ∧
        (¬ p.copy.IsBelow .posix q.copy → it = all.end_) := by
  have hfind := findParent_eq hp hq
  by_cases hbelow : p.copy.IsBelow .posix q.copy
  · have hpne : p.copy.path_ ≠ [] := by
      rcases (isBelow_iff hp hq).1 hbelow with ⟨-, h⟩ | ⟨-, t, ht⟩
      · exact h
      · rw [ht]
        simp
    have hn : p.view.isNull = false := by
      by_contra hnull
      exact hpne (p.view.null_nil (Bool.of_not_eq_false hnull))
    obtain ⟨sep, h⟩ := RelativePathPiece.exists_cutPath hp hn
    have hsep : sep = fun _ => kDirSeparator := funext fun k => eq_kDirSeparator_of_posix (h.cut.isSep k)
    subst hsep
    -- the parent is the prefix with as many components
    have hk : (q.copy.components .posix).length ≤ (p.copy.components .posix).length := hbelow.1.length_le
    have hparent : prefixAt [] (fun _ => kDirSeparator) (p.copy.components .posix) (q.copy.components .posix).length =
        q.view.bytes := by
      unfold prefixAt
      rw [← List.prefix_iff_eq_take.1 hbelow.1, joinBy_const, List.nil_append]
      exact joinWith_components hq
    have hdata : p.view.data = some 0 := h.data_eq
    rw [if_pos hbelow, hdata, Option.map_some, Nat.zero_add] at hfind
    unfold RelativePathPiece.isSubDirOf RelativePathPiece.isParentDirOf
    rw [hfind, RelativePathPiece.allPaths_eq h]
    refine ⟨by simp [hbelow, range], by simp [hbelow, range], _, _, rfl, rfl, fun _ => ⟨?_, ?_, ?_⟩,
      fun hno => absurd hbelow hno⟩
    · refine ((h.indexed_forward (Nat.zero_le _)).position_iff _).2 ⟨(q.copy.components .posix).length, by omega, ?_⟩
      rw [Nat.zero_add, prefixPos_of_le hk, hparent]
    · exact Option.some_ne_none _
    · have hpiece := h.piece_prefixAt hk
      rw [hparent] at hpiece
      exact ⟨_, hpiece, congrArg RelativePath.mk hparent⟩
  · rw [if_neg hbelow] at hfind
    unfold RelativePathPiece.isSubDirOf RelativePathPiece.isParentDirOf
    rw [hfind, allPaths_relative]
    exact ⟨by simp [hbelow, range], by simp [hbelow, range], _, _, rfl, rfl, fun h => absurd h hbelow, fun _ => rfl⟩

/-- `a` is a parent of `a/b`, and not of `ab`. -/
theorem isSubDirOf_a_b :
    RelativePathPiece.isSubDirOf .posix ⟨.of [0x61, 0x2F, 0x62]⟩ ⟨.of [0x61]⟩ = .ok true ∧
      RelativePathPiece.isSubDirOf .posix ⟨.of [0x61, 0x62]⟩ ⟨.of [0x61]⟩ = .ok false :=
  ⟨(isSubDirOf_iff ⟨.of [0x61, 0x2F, 0x62]⟩ ⟨.of [0x61]⟩ (by decide) (by decide)).1,
    (isSubDirOf_iff ⟨.of [0x61, 0x62]⟩ ⟨.of [0x61]⟩ (by decide) (by decide)).1⟩

/-! ### Stems -/

/-- The last component is the last suffix. -/
theorem filename_eq {p : RelativePathPiece} (hp : p.copy.Valid P) (hne : p.view.bytes ≠ []) :
    ∃ c, (p.copy.components P).getLast? = some c ∧ IsComponent P c ∧ p.filename P kIsDebug = .ok ⟨.of c⟩ := by
  obtain ⟨sep, hcut⟩ := exists_cut_relative hp
  have hn : 0 < (p.copy.components P).length := List.length_pos_iff.2 fun h => hne ((components_eq_nil_iff hp).1 h)
  have hlast : (p.copy.components P).length - 1 < (p.copy.components P).length := by omega
  obtain ⟨r, hr, -, -, hindexed⟩ := @Cut.indexed_rsuffixes _ kIsDebug _ _ _ hcut
  have hderef := hindexed.deref 0 hn
  rw [← hindexed.begin_eq, Nat.sub_zero] at hderef
  refine ⟨_, ?_, hcut.getElem_isComponent hlast, ?_⟩
  · rw [List.getLast?_eq_getElem?, List.getElem?_eq_getElem hlast]
  · have hr' : PathSuffixIterator.rsuffixes P kIsDebug p.view.bytes = .ok r := hr
    have hsuffix : suffixAt sep (p.copy.components P) ((p.copy.components P).length - 1) =
        (p.copy.components P)[(p.copy.components P).length - 1] := by
      unfold suffixAt
      rw [List.drop_eq_getElem_cons hlast, show (p.copy.components P).length - 1 + 1 = (p.copy.components P).length by omega,
        List.drop_length, joinBy_singleton]
    unfold RelativePathPiece.filename
    rw [if_neg hne, hr', ok_bind, hderef, hsuffix]

/-- A string with a certain character, cut at the last one. -/
theorem exists_last_split {x : UInt8} {s : Bytes} (h : x ∈ s) : ∃ u t, s = u ++ x :: t ∧ x ∉ t := by
  induction s with
  | nil => cases h
  | cons a s ih =>
    by_cases hx : x ∈ s
    · obtain ⟨u, t, rfl, ht⟩ := ih hx
      exact ⟨a :: u, t, rfl, ht⟩
    · rcases List.mem_cons.1 h with rfl | h
      · exact ⟨[], s, rfl, hx⟩
      · exact absurd h hx

theorem last_split_unique {x : UInt8} {u u' t t' : Bytes} (ht : x ∉ t) (ht' : x ∉ t') (h : u ++ x :: t = u' ++ x :: t') :
    u = u' := by
  have hfind := @rfind_append x u t ht
  rw [h, rfind_append ht'] at hfind
  exact (List.append_inj_left h (Option.some.inj hfind).symm)

theorem relativePathSanityCheck_single {u : Bytes} (hne : u ≠ []) (hsep : ∀ x ∈ u, isDirSeparator P x = false) :
    relativePathSanityCheck P u after = .ok () ↔ IsComponent P u := by
  rw [relativePathSanityCheck_iff_pieces, List.splitOnP_eq_singleton hsep]
  simp [hne]

/-- A component that is cut at a period is a component, unless it is `.` or `..`. -/
theorem isComponent_cut {u ext : Bytes} (h : IsComponent P (u ++ 0x2E :: ext)) (hne : u ≠ []) :
    IsComponent P u ↔ u ≠ dot ∧ u ≠ dotDot := by
  constructor
  · exact fun hu => ⟨hu.ne_dot, hu.ne_dotDot⟩
  · rintro ⟨hdot, hdotDot⟩
    have hutf8 := WellEncoded.of_append_ascii (by decide) (acceptedUtf8_iff_wellEncoded.1 h.utf8)
    exact ⟨hne, fun x hx => h.no_sep x (List.mem_append_left _ hx), fun h0 => h.no_nul (List.mem_append_left _ h0), hdot,
      hdotDot, acceptedUtf8_iff_wellEncoded.2 hutf8⟩

/-- What is promised of `stem`: it returns a valid path, which is the filename up to an
extension without periods, and not empty if the path is not. -/
def RelativePathPiece.HasStem (P : Platform) (kIsDebug : Bool) (p : RelativePathPiece) (after : Bytes) : Prop :=
  ∃ filename stem, p.filename P kIsDebug = .ok filename ∧ p.stem P kIsDebug after = .ok stem ∧ stem.copy.Valid P ∧
    stem.view.bytes <+: filename.view.bytes ∧ (p.view.bytes ≠ [] → stem.view.bytes ≠ []) ∧
    (filename.view.bytes = stem.view.bytes ∨
      ∃ ext, filename.view.bytes = stem.view.bytes ++ 0x2E :: ext ∧ 0x2E ∉ ext)

theorem checked_eq {view : StringView} (h : relativePathSanityCheck P view.bytes after = .ok ()) :
    RelativePathPiece.checked P view after = .ok ⟨view⟩ := by
  unfold RelativePathPiece.checked
  rw [h]
  rfl

theorem checked_ok {view : StringView} {p : RelativePathPiece} (h : RelativePathPiece.checked P view after = .ok p) :
    relativePathSanityCheck P view.bytes after = .ok () := by
  unfold RelativePathPiece.checked at h
  cases hcheck : relativePathSanityCheck P view.bytes after with
  | error e =>
    rw [hcheck] at h
    cases h
  | ok u => rfl

/-- Without a period behind the first character, the stem is the filename. -/
theorem stem_whole {p filename : RelativePathPiece} (hfilename : p.filename P kIsDebug = .ok filename)
    (hperiod : rfind 0x2E filename.view.bytes = none ∨ rfind 0x2E filename.view.bytes = some 0)
    (hvalid : relativePathSanityCheck P filename.view.bytes after = .ok ()) :
    p.stem P kIsDebug after = .ok filename := by
  unfold RelativePathPiece.stem
  rw [hfilename, ok_bind]
  rcases hperiod with h | h <;> simp only [h] <;> exact checked_eq hvalid

/-- With one, it is what stands in front of the last, as far as that is a path. -/
theorem stem_cut {p : RelativePathPiece} {u ext : Bytes} (hfilename : p.filename P kIsDebug = .ok ⟨.of (u ++ 0x2E :: ext)⟩)
    (hu : u ≠ []) (hext : 0x2E ∉ ext) :
    p.stem P kIsDebug after = RelativePathPiece.checked P (.of u) (0x2E :: ext ++ after) := by
  have hfind : rfind 0x2E (u ++ 0x2E :: ext) = some u.length := rfind_append hext
  obtain ⟨i, hi⟩ : ∃ i, u.length = i + 1 := ⟨u.length - 1, by have := List.length_pos_iff.2 hu; omega⟩
  have htake : (u ++ 0x2E :: ext).take (i + 1) = u := by rw [← hi, List.take_left]
  have hdrop : (u ++ 0x2E :: ext).drop (i + 1) = 0x2E :: ext := by rw [← hi, List.drop_left]
  rw [hi] at hfind
  unfold RelativePathPiece.stem
  rw [hfilename, ok_bind]
  simp only [StringView.of, hfind, htake, hdrop]

/-- **`stem`** does what is promised, unless the last component is `..` or `...` followed
by an extension without periods. -/
theorem stem_iff (P : Platform) (kIsDebug : Bool) (p : RelativePathPiece) (hp : p.copy.Valid P) (after : Bytes) :
    p.HasStem P kIsDebug after ↔
      ¬ ∃ c ext, (p.copy.components P).getLast? = some c ∧ 0x2E ∉ ext ∧
        (c = dot ++ 0x2E :: ext ∨ c = dotDot ++ 0x2E :: ext) := by
  by_cases hnil : p.view.bytes = []
  · have hcs := (components_eq_nil_iff hp).2 hnil
    have hfilename : p.filename P kIsDebug = .ok p := if_pos hnil
    have hstem : p.stem P kIsDebug after = .ok p :=
      stem_whole hfilename (.inl (by rw [hnil]; rfl)) (by rw [hnil]; rfl)
    refine iff_of_true ⟨p, p, hfilename, hstem, hp, List.prefix_refl _, fun h => h, .inl rfl⟩ ?_
    rintro ⟨c, ext, hc, -⟩
    rw [hcs] at hc
    cases hc
  obtain ⟨c, hlast, hc, hfilename⟩ := @filename_eq P kIsDebug p hp hnil
  have hwhole : ∀ t, relativePathSanityCheck P c t = .ok () := fun t =>
    (relativePathSanityCheck_single hc.ne_nil hc.no_sep).2 hc
  -- the whole filename is a stem
  have hself : p.stem P kIsDebug after = .ok ⟨.of c⟩ → p.HasStem P kIsDebug after := fun hstem =>
    ⟨_, _, hfilename, hstem, hwhole _, List.prefix_refl _, fun _ => hc.ne_nil, .inl rfl⟩
  by_cases hperiod : 0x2E ∈ c
  swap
  · refine iff_of_true (hself (stem_whole hfilename (.inl (rfind_of_not_mem hperiod)) (hwhole after))) ?_
    rintro ⟨c', ext, hc', -, hcase⟩
    obtain rfl := Option.some.inj (hlast.symm.trans hc')
    rcases hcase with rfl | rfl <;> simp at hperiod
  obtain ⟨u, ext, rfl, hext⟩ := exists_last_split hperiod
  have hfind : rfind 0x2E (u ++ 0x2E :: ext) = some u.length := rfind_append hext
  -- the condition speaks of what stands in front of the last period
  have hcond : (∃ c' ext', (p.copy.components P).getLast? = some c' ∧ 0x2E ∉ ext' ∧
      (c' = dot ++ 0x2E :: ext' ∨ c' = dotDot ++ 0x2E :: ext')) ↔ u = dot ∨ u = dotDot := by
    constructor
    · rintro ⟨c', ext', hc', hext', hcase⟩
      obtain rfl := Option.some.inj (hlast.symm.trans hc')
      exact hcase.imp (last_split_unique hext hext') (last_split_unique hext hext')
    · intro hcase
      refine ⟨_, ext, hlast, hext, ?_⟩
      rcases hcase with rfl | rfl
      · exact .inl rfl
      · exact .inr rfl
  rw [hcond]
  by_cases hu : u = []
  · subst hu
    refine iff_of_true (hself (stem_whole hfilename (.inr hfind) (hwhole after))) ?_
    rintro (h | h) <;> cases h
  have hstem : p.stem P kIsDebug after = _ := stem_cut hfilename hu hext
  have hsep : ∀ x ∈ u, isDirSeparator P x = false := fun x hx => hc.no_sep x (List.mem_append_left _ hx)
  have hcheck : ∀ t, relativePathSanityCheck P u t = .ok () ↔ IsComponent P u := fun t =>
    relativePathSanityCheck_single hu hsep
  rw [not_or, ← isComponent_cut hc hu]
  constructor
  · rintro ⟨filename, stem, -, hs, -⟩
    rw [hstem] at hs
    exact (hcheck _).1 (checked_ok hs)
  · intro hcu
    have hs := hstem.trans (checked_eq ((hcheck _).2 hcu))
    exact ⟨_, _, hfilename, hs, (hcheck _).2 hcu, List.prefix_append _ _, fun _ => hu, .inr ⟨ext, rfl, hext⟩⟩

/-- The stem of `a.b` is as promised. -/
theorem stem_a_b : RelativePathPiece.HasStem .posix true ⟨.of [0x61, 0x2E, 0x62]⟩ nulTerminator := by
  refine (stem_iff .posix true ⟨.of [0x61, 0x2E, 0x62]⟩ (by decide) nulTerminator).2 ?_
  rintro ⟨c, ext, hc, -, hcase⟩
  obtain rfl : c = [0x61, 0x2E, 0x62] := by simpa using hc.symm.trans (show _ = some [0x61, 0x2E, 0x62] by decide)
  rcases hcase with h | h <;> cases h

/-- `stem` of the component `..x` refuses its own stem. -/
theorem stem_refuses_dot :
    PathComponent.Valid .posix ⟨[0x2E, 0x2E, 0x78]⟩ ∧
      RelativePathPiece.stem .posix true ⟨.of [0x2E, 0x2E, 0x78]⟩ nulTerminator = .error .componentDot ∧
      ¬ RelativePathPiece.HasStem .posix true ⟨.of [0x2E, 0x2E, 0x78]⟩ nulTerminator := by
  refine ⟨by decide, by decide, ?_⟩
  rintro ⟨filename, stem, -, hs, -⟩
  have herror : RelativePathPiece.stem .posix true ⟨.of [0x2E, 0x2E, 0x78]⟩ nulTerminator = .error .componentDot := by
    decide
  rw [herror] at hs
  cases hs

end EdenCommon
