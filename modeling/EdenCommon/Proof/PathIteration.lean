import EdenCommon.Proof.PathRanges

/-!
# What the path iterators visit

* `ranges_yield`: the loops over the ranges of a valid path read the joins of the first
  components and of the last components, in order.
* `ranges_bidirectional_iff`: which of the ranges can be walked from the back as well.
  `--` at the end of `components()` or `rcomponents()` treats the end as a component and
  loses a byte, and `--` at the end of `rsuffixes()` fails its check.

The theorem about the loops and the one about the steps back are put together from one lemma
for each range, `suffixes_bidirectional` to `rsuffixes_bidirectional_iff`; the positions and
what is read there come from `Proof/PathRanges`. A null view is told apart, since the range
`paths()` of it fails its check at once (`RelativePathPiece.prefixes_null`).
-/

namespace EdenCommon

open Lib ComposedPathIterator

variable {P : Platform} {kIsDebug : Bool} {front : Bytes} {sep : ℕ → UInt8} {cs : List Bytes}

/-! ### The paths that are cut -/

theorem RelativePathPiece.exists_cutPath {p : RelativePathPiece} (hp : p.copy.Valid P) (hn : p.view.isNull = false) :
    ∃ sep, CutPath P p [] sep (p.copy.components P) := by
  obtain ⟨sep, hcut⟩ := exists_cut_relative hp
  exact ⟨sep, hcut, hn, rfl⟩

/-- A valid absolute path has its root, so it is not at the null pointer. -/
theorem AbsolutePathPiece.cutPath {a : AbsolutePathPiece} (ha : a.copy.Valid P) :
    CutPath P a (kRootStr P) (fun _ => kAbsDirSeparator P) (a.copy.components P) := by
  have hcut := cut_absolute ha
  refine ⟨hcut, ?_, rfl⟩
  by_contra hnull
  have hnil := a.view.null_nil (Bool.of_not_eq_false hnull)
  have heq : a.view.bytes = _ := hcut.eq
  rw [hnil] at heq
  have := congrArg List.length heq
  cases P <;> simp [kRootStr, kUNCPrefix, Platform.kIsWindows] at this

/-! ### The ranges by name -/

section Named

variable {p : RelativePathPiece} {a : AbsolutePathPiece}

theorem RelativePathPiece.allPaths_eq (h : CutPath P p [] sep cs) :
    p.allPaths P = .ok (range P false p (prefixPos [] sep cs 0) none) := by
  unfold RelativePathPiece.allPaths
  rw [h.pathBegin_eq, prefixPos_of_le (Nat.zero_le _), prefixAt_zero]
  rfl

/-- The empty prefix is left out by a step. -/
theorem RelativePathPiece.paths_eq (h : CutPath P p [] sep cs) :
    p.paths P = .ok (range P false p (prefixPos [] sep cs 1) none) := by
  have hstep := h.advance_prefixPos (Nat.zero_le _)
  rw [prefixPos_of_le (Nat.zero_le _), prefixAt_zero, Nat.zero_add] at hstep
  unfold RelativePathPiece.paths
  rw [h.pathBegin_eq, ok_bind, hstep]
  rfl

theorem RelativePathPiece.rpaths_eq (h : CutPath P p [] sep cs) :
    p.rpaths P = range P true p p.view.dataEnd (reversePos [] sep cs cs.length) := by
  have hdata : p.view.data = some 0 := h.data_eq
  unfold RelativePathPiece.rpaths
  rw [hdata, reversePos_of_le (le_refl _), Nat.sub_self, prefixAt_zero]
  rfl

theorem RelativePathPiece.rallPaths_eq : p.rallPaths P = range P true p p.view.dataEnd (reversePos [] sep cs (cs.length + 1)) := by
  unfold RelativePathPiece.rallPaths
  rw [reversePos_of_lt (by omega)]

theorem AbsolutePathPiece.paths_eq (h : CutPath P a front sep cs) :
    a.paths P = .ok (range P false a (prefixPos front sep cs 0) none) := by
  unfold AbsolutePathPiece.paths
  rw [h.pathBegin_eq, prefixPos_of_le (Nat.zero_le _), prefixAt_zero]
  rfl

theorem AbsolutePathPiece.rpaths_eq :
    a.rpaths P = range P true a a.view.dataEnd (reversePos front sep cs (cs.length + 1)) := by
  unfold AbsolutePathPiece.rpaths
  rw [reversePos_of_lt (by omega)]

end Named

/-! ### What the loops read -/

/-- A valid path that equals the join of `cs`. -/
def RelativePathPiece.IsJoin (P : Platform) (p : RelativePathPiece) (cs : List Bytes) : Prop :=
  p.copy.Valid P ∧ (RelativePath.ofRange (cs.map PathComponent.mk)).eq P p.copy = true

theorem RelativePathPiece.isJoin_joinBy (hsep : ∀ k, isDirSeparator P (sep k) = true)
    (hcs : ∀ c ∈ cs, IsComponent P c) : RelativePathPiece.IsJoin P ⟨.of (joinBy sep cs)⟩ cs := by
  obtain ⟨hvalid, hcomponents⟩ := joinBy_valid hsep hcs
  have heq := ofRange_components_eq hvalid
  rw [hcomponents] at heq
  exact ⟨hvalid, heq⟩

/-- The prefixes of a relative path are the joins of its first components. -/
theorem Cut.isJoin_prefix {view : Bytes} (h : Cut P view [] sep cs) (k : ℕ) :
    RelativePathPiece.IsJoin P (prefixPiece RelativePathPiece [] sep cs k) (cs.take k) :=
  RelativePathPiece.isJoin_joinBy h.isSep fun c hc => h.isComponent c (List.mem_of_mem_take hc)

/-- The suffixes of a path are the joins of its last components. -/
theorem Cut.isJoin_suffix {view : Bytes} (h : Cut P view front sep cs) (k : ℕ) :
    RelativePathPiece.IsJoin P ⟨.of (suffixAt sep cs k)⟩ (cs.drop k) :=
  RelativePathPiece.isJoin_joinBy (fun j => h.isSep (j + k)) fun c hc => h.isComponent c (List.mem_of_mem_drop hc)

/-- The prefixes of an absolute path, with its one separator. -/
theorem prefixPiece_absolute (k : ℕ) :
    prefixPiece AbsolutePathPiece (kRootStr P) (fun _ => kAbsDirSeparator P) cs k =
      ⟨.of (kRootStr P ++ joinWith (kAbsDirSeparator P) (cs.take k))⟩ := by
  unfold prefixPiece prefixAt
  rw [joinBy_const]
  rfl

theorem forall₂_map_range {α β : Type*} {R : α → β → Prop} {f : ℕ → α} {g : ℕ → β} (h : ∀ k, R (f k) (g k)) (n : ℕ) :
    List.Forall₂ R ((List.range n).map f) ((List.range n).map g) := by
  rw [List.forall₂_map_left_iff, List.forall₂_map_right_iff, List.forall₂_same]
  exact fun k _ => h k

theorem map_range_reverse {α : Type*} (f : ℕ → α) (n : ℕ) :
    (List.range n).map (fun k => f (n - 1 - k)) = ((List.range n).map f).reverse := by
  have hrev := @List.reverse_range' 0 n
  rw [← List.range_eq_range'] at hrev
  rw [← List.map_reverse, hrev, List.map_map]
  refine List.map_congr_left fun k _ => ?_
  simp only [Function.comp_apply, Nat.zero_add]

namespace Cut

variable {view : Bytes}

/-- The loop over the suffixes, and the one over the suffixes in reverse order. -/
theorem suffixes_yield (h : Cut P view [] sep cs) (kIsDebug : Bool) :
    ∃ es, List.Forall₂ (RelativePathPiece.IsJoin P) es ((List.range cs.length).map fun k => cs.drop k) ∧
      (PathSuffixIterator.suffixes P kIsDebug view).Yields es ∧
      ∃ r, PathSuffixIterator.rsuffixes P kIsDebug view = .ok r ∧ r.Yields es.reverse := by
  obtain ⟨r, hr, -, -, hindexed⟩ := @indexed_rsuffixes _ kIsDebug _ _ _ h
  refine ⟨_, forall₂_map_range h.isJoin_suffix cs.length, h.indexed_suffixes.yields, r, hr, ?_⟩
  have hyields := hindexed.yields
  rwa [map_range_reverse fun k => (⟨.of (suffixAt sep cs k)⟩ : RelativePathPiece)] at hyields

end Cut

/-- The loops over the prefixes of a relative path. -/
theorem RelativePathPiece.prefixes_yield {p : RelativePathPiece} (h : CutPath P p [] sep cs) :
    ∃ es, List.Forall₂ (RelativePathPiece.IsJoin P) es ((List.range cs.length).map fun k => cs.take (k + 1)) ∧
      (∃ r, p.paths P = .ok r ∧ r.Yields es) ∧
      (∃ r, p.allPaths P = .ok r ∧ r.Yields (⟨.of []⟩ :: es)) ∧
      (p.rpaths P).Yields es.reverse ∧ (p.rallPaths P).Yields (⟨.of []⟩ :: es).reverse := by
  have hall : (List.range (cs.length + 1)).map (prefixPiece RelativePathPiece [] sep cs) =
      ⟨.of []⟩ :: (List.range cs.length).map fun k => prefixPiece RelativePathPiece [] sep cs (k + 1) := by
    rw [List.range_succ_eq_map, List.map_cons, List.map_map]
    rfl
  refine ⟨_, forall₂_map_range (fun k => h.cut.isJoin_prefix (k + 1)) cs.length, ⟨_, paths_eq h, ?_⟩,
    ⟨_, allPaths_eq h, ?_⟩, ?_, ?_⟩
  · have hyields := (h.indexed_forward (show 1 ≤ cs.length + 1 by omega)).yields
    simpa only [Nat.add_sub_cancel, Nat.add_comm 1] using hyields
  · have hyields := (h.indexed_forward (Nat.zero_le _)).yields
    simp only [Nat.sub_zero, Nat.zero_add] at hyields
    rwa [hall] at hyields
  · have hyields := (h.indexed_reverse (show cs.length ≤ cs.length + 1 by omega)).yields
    rw [rpaths_eq h, ← map_range_reverse]
    refine (List.map_congr_left fun k hk => ?_) ▸ hyields
    have := List.mem_range.1 hk
    rw [show cs.length - 1 - k + 1 = cs.length - k by omega]
  · have hyields := (h.indexed_reverse (le_refl _)).yields
    rw [@rallPaths_eq P sep cs, ← hall, ← map_range_reverse]
    simp only [Nat.add_sub_cancel]
    exact hyields

/-- The loops over the prefixes of an absolute path. -/
theorem AbsolutePathPiece.prefixes_yield {a : AbsolutePathPiece} (h : CutPath P a front sep cs) :
    (∃ r, a.paths P = .ok r ∧ r.Yields ((List.range (cs.length + 1)).map (prefixPiece AbsolutePathPiece front sep cs))) ∧
      (a.rpaths P).Yields ((List.range (cs.length + 1)).map (prefixPiece AbsolutePathPiece front sep cs)).reverse := by
  refine ⟨⟨_, paths_eq h, ?_⟩, ?_⟩
  · have hyields := (h.indexed_forward (Nat.zero_le _)).yields
    simpa only [Nat.sub_zero, Nat.zero_add] using hyields
  · have hyields := (h.indexed_reverse (le_refl _)).yields
    rw [@rpaths_eq P front sep cs, ← map_range_reverse]
    simp only [Nat.add_sub_cancel]
    exact hyields

/-- **The loops over the ranges of a valid path.** For a relative path with a data pointer,
`paths()` reads the joins of the nonempty prefixes of its components, `allPaths()` the same
behind the empty path; for an absolute path `paths()` reads the root and every longer
prefix; `suffixes()` reads the joins of the nonempty suffixes. The ranges whose names begin
with `r` read the same in reverse order. -/
theorem ranges_yield (P : Platform) (kIsDebug : Bool) :
    (∀ p : RelativePathPiece, p.copy.Valid P → p.view.isNull = false →
      (∃ es, List.Forall₂ (RelativePathPiece.IsJoin P) es
          ((List.range (p.copy.components P).length).map fun k => (p.copy.components P).take (k + 1)) ∧
        (∃ r, p.paths P = .ok r ∧ r.Yields es) ∧
        (∃ r, p.allPaths P = .ok r ∧ r.Yields (⟨.of []⟩ :: es)) ∧
        (p.rpaths P).Yields es.reverse ∧ (p.rallPaths P).Yields (⟨.of []⟩ :: es).reverse) ∧
      ∃ es, List.Forall₂ (RelativePathPiece.IsJoin P) es
          ((List.range (p.copy.components P).length).map fun k => (p.copy.components P).drop k) ∧
        (PathSuffixIterator.suffixes P kIsDebug (suffixView P p)).Yields es ∧
        ∃ r, PathSuffixIterator.rsuffixes P kIsDebug (suffixView P p) = .ok r ∧ r.Yields es.reverse) ∧
    ∀ a : AbsolutePathPiece, a.copy.Valid P →
      (∃ es, es = (List.range ((a.copy.components P).length + 1)).map (fun k =>
          ⟨.of (kRootStr P ++ joinWith (kAbsDirSeparator P) ((a.copy.components P).take k))⟩) ∧
        (∃ r, a.paths P = .ok r ∧ r.Yields es) ∧ (a.rpaths P).Yields es.reverse) ∧
      ∃ es, List.Forall₂ (RelativePathPiece.IsJoin P) es
          ((List.range (a.copy.components P).length).map fun k => (a.copy.components P).drop k) ∧
        (PathSuffixIterator.suffixes P kIsDebug (suffixView P a)).Yields es ∧
        ∃ r, PathSuffixIterator.rsuffixes P kIsDebug (suffixView P a) = .ok r ∧ r.Yields es.reverse := by
  refine ⟨fun p hp hn => ?_, fun a ha => ?_⟩
  · obtain ⟨sep, h⟩ := RelativePathPiece.exists_cutPath hp hn
    exact ⟨RelativePathPiece.prefixes_yield h, h.cut.drop.suffixes_yield kIsDebug⟩
  · have h := AbsolutePathPiece.cutPath ha
    have hprefixes := AbsolutePathPiece.prefixes_yield h
    rw [funext prefixPiece_absolute] at hprefixes
    exact ⟨⟨_, rfl, hprefixes⟩, h.cut.drop.suffixes_yield kIsDebug⟩

/-- The loops over the ranges of `a/b` and of `/a`. -/
theorem ranges_yield_a_b :
    (∃ es, List.Forall₂ (RelativePathPiece.IsJoin .posix) es [[[0x61]], [[0x61], [0x62]]] ∧
      (∃ r, RelativePathPiece.paths .posix ⟨.of [0x61, 0x2F, 0x62]⟩ = .ok r ∧ r.Yields es) ∧
      (RelativePathPiece.rpaths .posix ⟨.of [0x61, 0x2F, 0x62]⟩).Yields es.reverse) ∧
    ∃ es : List AbsolutePathPiece, es = [⟨.of [0x2F]⟩, ⟨.of [0x2F, 0x61]⟩] ∧
      (AbsolutePathPiece.rpaths .posix ⟨.of [0x2F, 0x61]⟩).Yields es.reverse := by
  obtain ⟨hrel, habs⟩ := ranges_yield .posix true
  obtain ⟨⟨es, h1, h2, -, h3, -⟩, -⟩ := hrel ⟨.of [0x61, 0x2F, 0x62]⟩ (by decide) rfl
  obtain ⟨⟨es', h4, -, h5⟩, -⟩ := habs ⟨.of [0x2F, 0x61]⟩ (by decide)
  exact ⟨⟨es, h1, h2, h3⟩, es', h4, h5⟩

/-! ### The loops from the back -/

namespace Cut

variable {view : Bytes}

theorem suffixes_bidirectional (h : Cut P view [] sep cs) :
    (PathSuffixIterator.suffixes P kIsDebug view).Bidirectional :=
  h.indexed_suffixes.bidirectional fun _ hk => h.retreat_suffixPos hk

/-- `components()`: the step back from the end leaves no component, if there is one. -/
theorem components_bidirectional_iff (h : Cut P view front sep cs) :
    (ComponentIterator.components P kIsDebug view front.length).Bidirectional ↔ cs = [] := by
  have hindexed := @indexed_components P kIsDebug _ _ _ _ h
  rcases List.eq_nil_or_concat' cs with rfl | ⟨init, c, rfl⟩
  · exact iff_of_true (hindexed.bidirectional nofun) rfl
  · have hn : 0 < (init ++ [c]).length := by simp
    rw [List.length_append, List.length_singleton] at hindexed
    refine iff_of_false (hindexed.not_bidirectional fun it hit hpiece => ?_) (by simp)
    have hshort := h.retreat_atEnd_short hn hit
    have hlast : (init ++ [c]).getD init.length [] = (init ++ [c])[(init ++ [c]).length - 1] := by simp
    rw [hlast] at hpiece
    exact hshort (Except.ok.inj hpiece)

/-- `rcomponents()`: the step back from the reverse end leaves no component, if there is
one. -/
theorem rcomponents_bidirectional_iff (h : Cut P view front sep cs) :
    (ComponentIterator.rcomponents P kIsDebug view front.length).Bidirectional ↔ cs = [] := by
  have hindexed := @indexed_rcomponents P kIsDebug _ _ _ _ h
  cases cs with
  | nil => exact iff_of_true (hindexed.bidirectional nofun) rfl
  | cons c rest =>
    have hn : 0 < (c :: rest).length := Nat.succ_pos _
    refine iff_of_false (hindexed.not_bidirectional fun it hit hpiece => ?_) (by simp)
    have hfirst : (c :: rest).getD ((c :: rest).length - 1 - rest.length) [] = (c :: rest)[0] := by simp
    rw [hfirst] at hpiece
    exact h.advance_rend_short hn hit (Except.ok.inj hpiece)

/-- Without its check, `advance()` takes `npos` to the first suffix. -/
theorem advance_rsuffixPos (h : Cut P view [] sep cs) {k : ℕ} (hk : k < cs.length) :
    PathSuffixIterator.advance P false view (rsuffixPos sep cs (k + 1)) = .ok (rsuffixPos sep cs k) := by
  unfold rsuffixPos
  rw [if_pos hk]
  by_cases hlast : k + 1 = cs.length
  · rw [if_neg (by omega), show cs.length - 1 - k = 0 by omega, suffixPos_zero]
    rfl
  · have hstep : PathSuffixIterator.advance P false view _ = _ :=
      h.advance_suffixPos (show cs.length - 1 - (k + 1) < cs.length by omega)
    rw [show cs.length - 1 - (k + 1) + 1 = cs.length - 1 - k by omega] at hstep
    rw [if_pos (by omega), hstep]

/-- `rsuffixes()`: the check refuses a step back from `npos`. -/
theorem rsuffixes_bidirectional_iff (h : Cut P view [] sep cs) :
    (∃ r, PathSuffixIterator.rsuffixes P kIsDebug view = .ok r ∧ r.Bidirectional) ↔ cs = [] ∨ kIsDebug = false := by
  obtain ⟨r, hr, hend, hprev, hindexed⟩ := @indexed_rsuffixes _ kIsDebug _ _ _ h
  constructor
  · rintro ⟨r', hr', hb⟩
    obtain rfl := Except.ok.inj (hr'.symm.trans hr)
    by_contra hne
    obtain ⟨hcs, hdebug⟩ := not_or.1 hne
    obtain rfl : kIsDebug = true := Bool.of_not_eq_false hdebug
    have hn := List.length_pos_iff.2 hcs
    rw [show cs.length = cs.length - 1 + 1 by omega] at hindexed
    refine hindexed.not_bidirectional (fun it hit => ?_) hb
    rw [hprev, hend] at hit
    cases hit
  · intro hcase
    refine ⟨r, hr, hindexed.bidirectional fun k hk => ?_⟩
    rw [hprev]
    rcases hcase with rfl | rfl
    · exact absurd hk (Nat.not_lt_zero k)
    · exact h.advance_rsuffixPos hk

end Cut

/-- A relative path that is not the null view: every range of prefixes. -/
theorem RelativePathPiece.prefixes_bidirectional {p : RelativePathPiece} (h : CutPath P p [] sep cs) :
    (∃ r, p.paths P = .ok r ∧ r.Bidirectional) ∧ (∃ r, p.allPaths P = .ok r ∧ r.Bidirectional) ∧
      (p.rpaths P).Bidirectional ∧ (p.rallPaths P).Bidirectional := by
  refine ⟨⟨_, paths_eq h, ?_⟩, ⟨_, allPaths_eq h, ?_⟩, ?_, ?_⟩
  · exact (h.indexed_forward (show 1 ≤ cs.length + 1 by omega)).bidirectional (h.prev_forward _)
  · exact (h.indexed_forward (Nat.zero_le _)).bidirectional (h.prev_forward _)
  · rw [rpaths_eq h]
    exact (h.indexed_reverse (show cs.length ≤ cs.length + 1 by omega)).bidirectional (h.prev_reverse (by omega) _ _)
  · rw [@rallPaths_eq P sep cs]
    exact (h.indexed_reverse (le_refl _)).bidirectional (h.prev_reverse (le_refl _) _ _)

/-- The null view: `paths()` fails its check at once, the other ranges are empty. -/
theorem RelativePathPiece.prefixes_null {p : RelativePathPiece} (hnull : p.view.isNull = true) :
    (∀ r, p.paths P ≠ .ok r) ∧ p.allPaths P = .ok (range P false p none none) ∧
      p.rpaths P = range P true p none none ∧ p.rallPaths P = range P true p none none := by
  have hdata : p.view.data = none := if_pos hnull
  have hdataEnd : p.view.dataEnd = none := if_pos hnull
  have hbegin : pathBegin P p = .ok none := congrArg Except.ok hdata
  unfold RelativePathPiece.paths RelativePathPiece.allPaths RelativePathPiece.rpaths RelativePathPiece.rallPaths
  rw [hbegin, hdata, hdataEnd]
  exact ⟨nofun, rfl, rfl, rfl⟩

/-- A range whose ends are one iterator. -/
theorem range_self (isReverse : Bool) (p : RelativePathPiece) (it : ComposedPosition) :
    (range P isReverse p it it).Indexed 0 (fun _ => it) (fun _ => p) :=
  ⟨rfl, rfl, nofun, nofun, nofun⟩

theorem eq_of_position_range_self {isReverse : Bool} {p : RelativePathPiece} {it it' : ComposedPosition}
    (h : (range P isReverse p it it).Position it') : it' = it := by
  obtain ⟨k, -, heq⟩ := ((range_self isReverse p it).position_iff it').1 h
  exact heq

/-- A valid path has no component if there is nothing behind its root. -/
theorem Cut.eq_nil_iff {view : Bytes} (h : Cut P view front sep cs) : cs = [] ↔ view = front := by
  constructor
  · rintro rfl
    rw [h.eq, joinBy_nil, List.append_nil]
  · intro heq
    by_contra hne
    have hlt := h.length_frontAt_lt (List.length_pos_iff.2 hne)
    rw [frontAt_zero, heq] at hlt
    omega

/-- **Which ranges of a valid path can be walked from the back**: all the ranges of
prefixes, but for the `paths()` of a null view; `suffixes()`; `components()` and
`rcomponents()` of the empty path and of the root only; and `rsuffixes()` of these, or
where `XDCHECK` does not check. -/
theorem ranges_bidirectional_iff (P : Platform) (kIsDebug : Bool) :
    (∀ p : RelativePathPiece, p.copy.Valid P →
      ((∃ r, p.paths P = .ok r ∧ r.Bidirectional) ↔ p.view.isNull = false) ∧
      (∃ r, p.allPaths P = .ok r ∧ r.Bidirectional) ∧
      (p.rpaths P).Bidirectional ∧ (p.rallPaths P).Bidirectional ∧
      ((ComponentIterator.components P kIsDebug p.view.bytes (componentsBegin P RelativePathPiece)).Bidirectional ↔
        p.view.bytes = []) ∧
      ((ComponentIterator.rcomponents P kIsDebug p.view.bytes (componentsBegin P RelativePathPiece)).Bidirectional ↔
        p.view.bytes = []) ∧
      (PathSuffixIterator.suffixes P kIsDebug (suffixView P p)).Bidirectional ∧
      ((∃ r, PathSuffixIterator.rsuffixes P kIsDebug (suffixView P p) = .ok r ∧ r.Bidirectional) ↔
        p.view.bytes = [] ∨ kIsDebug = false)) ∧
    ∀ a : AbsolutePathPiece, a.copy.Valid P →
      (∃ r, a.paths P = .ok r ∧ r.Bidirectional) ∧ (a.rpaths P).Bidirectional ∧
      ((ComponentIterator.components P kIsDebug a.view.bytes (componentsBegin P AbsolutePathPiece)).Bidirectional ↔
        a.view.bytes = kRootStr P) ∧
      ((ComponentIterator.rcomponents P kIsDebug a.view.bytes (componentsBegin P AbsolutePathPiece)).Bidirectional ↔
        a.view.bytes = kRootStr P) ∧
      (PathSuffixIterator.suffixes P kIsDebug (suffixView P a)).Bidirectional ∧
      ((∃ r, PathSuffixIterator.rsuffixes P kIsDebug (suffixView P a) = .ok r ∧ r.Bidirectional) ↔
        a.view.bytes = kRootStr P ∨ kIsDebug = false) := by
  refine ⟨fun p hp => ?_, fun a ha => ?_⟩
  · obtain ⟨sep, hcut⟩ := exists_cut_relative hp
    have hnil : p.copy.components P = [] ↔ p.view.bytes = [] := hcut.eq_nil_iff
    have hprefixes : ((∃ r, p.paths P = .ok r ∧ r.Bidirectional) ↔ p.view.isNull = false) ∧
        (∃ r, p.allPaths P = .ok r ∧ r.Bidirectional) ∧ (p.rpaths P).Bidirectional ∧ (p.rallPaths P).Bidirectional := by
      cases hn : p.view.isNull with
      | false =>
        obtain ⟨h1, h2⟩ := RelativePathPiece.prefixes_bidirectional (⟨hcut, hn, rfl⟩ : CutPath P p [] sep _)
        exact ⟨iff_of_true h1 rfl, h2⟩
      | true =>
        obtain ⟨h1, h2, h3, h4⟩ := @RelativePathPiece.prefixes_null P p hn
        rw [h2, h3, h4]
        refine ⟨iff_of_false ?_ nofun, ⟨_, rfl, (range_self false p none).bidirectional nofun⟩,
          (range_self true p none).bidirectional nofun, (range_self true p none).bidirectional nofun⟩
        rintro ⟨r, hr, -⟩
        exact h1 r hr
    rw [← hnil]
    exact ⟨hprefixes.1, hprefixes.2.1, hprefixes.2.2.1, hprefixes.2.2.2, hcut.components_bidirectional_iff,
      hcut.rcomponents_bidirectional_iff, hcut.drop.suffixes_bidirectional, hcut.drop.rsuffixes_bidirectional_iff⟩
  · have h := AbsolutePathPiece.cutPath ha
    have hnil : a.copy.components P = [] ↔ a.view.bytes = kRootStr P := h.cut.eq_nil_iff
    rw [← hnil]
    refine ⟨⟨_, AbsolutePathPiece.paths_eq h, ?_⟩, ?_, h.cut.components_bidirectional_iff,
      h.cut.rcomponents_bidirectional_iff, h.cut.drop.suffixes_bidirectional, h.cut.drop.rsuffixes_bidirectional_iff⟩
    · exact (h.indexed_forward (Nat.zero_le _)).bidirectional (h.prev_forward _)
    · rw [@AbsolutePathPiece.rpaths_eq P (kRootStr P) (fun _ => kAbsDirSeparator P) (a.copy.components P)]
      exact (h.indexed_reverse (le_refl _)).bidirectional (h.prev_reverse (le_refl _) _ _)

/-- Walked from the back, the components of `a/b` are not `b` and `a`. -/
theorem ranges_bidirectional_a_b :
    ¬ (ComponentIterator.components .posix true [0x61, 0x2F, 0x62] 0).Bidirectional ∧
      (PathSuffixIterator.suffixes .posix true [0x61, 0x2F, 0x62]).Bidirectional := by
  obtain ⟨-, -, -, -, h1, -, h2, -⟩ := (ranges_bidirectional_iff .posix true).1 ⟨.of [0x61, 0x2F, 0x62]⟩ (by decide)
  exact ⟨fun h => absurd (h1.1 h) (by decide), h2⟩

/-- The step back from the end of the components of `foo/bar` leaves `ba`, not `bar`. -/
theorem components_end_loses_byte :
    (ComponentIterator.components .posix true [0x66, 0x6F, 0x6F, 0x2F, 0x62, 0x61, 0x72] 0).prev ⟨7, 7⟩ = .ok ⟨4, 6⟩ ∧
      (ComponentIterator.components .posix true [0x66, 0x6F, 0x6F, 0x2F, 0x62, 0x61, 0x72] 0).deref ⟨4, 6⟩ =
        .ok [0x62, 0x61] ∧
      ¬ (ComponentIterator.components .posix true [0x66, 0x6F, 0x6F, 0x2F, 0x62, 0x61, 0x72] 0).Bidirectional := by
  refine ⟨by decide, by decide, ?_⟩
  refine @IteratorRange.not_bidirectional_of_last _ _ _ _ _ [[0x66, 0x6F, 0x6F]] [0x62, 0x61, 0x72] ⟨3, by decide⟩ ?_
  intro it hit
  obtain rfl := Except.ok.inj hit
  decide

end EdenCommon
