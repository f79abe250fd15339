import EdenCommon.Proof.PathIteration
import EdenCommon.Proof.PathOps

/-!
# What is left behind a prefix

`remainder()` leaves out the byte at its position. That byte is a separator behind every
prefix but the one at the path's beginning, where it is the first byte of a component
(`remainder_iff`). What `remainder()` leaves behind the whole path, and `splitFirst` behind
its only component, is a view without a data pointer, which the iterators take for their
end (`splitFirst_remainder_iff`).

The iterator of `relativize`, `PrefixIterator`, has a definition of its own. `pathBegin_piece`, `advance_piece`,
`piece_piece` and `remainder_piece` say that it is the iterator of `paths()`.
-/

namespace EdenCommon

open Lib ComposedPathIterator

variable {P : Platform} {front : Bytes} {sep : ℕ → UInt8} {cs : List Bytes}

/-! ### The iterator of `relativize` -/

namespace PrefixIterator

/-- `paths()` of a path with a root begins where `relativize` does. -/
theorem pathBegin_piece {path : AbsolutePath} (hroot : (kRootStr P).length ≤ path.path_.length) :
    pathBegin P path.piece = .ok (begin_ P) := by
  have hcheck : PathError.xcheck ((kRootStr P).length ≤ path.path_.length) = .ok () := if_pos (decide_eq_true hroot)
  have hdef : pathBegin P path.piece = PathError.xcheck ((kRootStr P).length ≤ path.path_.length) >>= fun _ =>
    .ok ((StringView.of path.path_).data.map (· + (kRootStr P).length)) := rfl
  rw [hdef, hcheck]
  exact congrArg Except.ok (congrArg some (Nat.zero_add _))

theorem advance_piece (path : AbsolutePath) (it : PrefixIterator) :
    ComposedPathIterator.advance P false path.piece it = advance P path.path_ it := by
  cases it with
  | none => rfl
  | some pos =>
    have hdef : ComposedPathIterator.advance P false path.piece (some pos) =
      if some pos = some path.path_.length then .ok none else .ok (some (scanSeparator P path.path_ (pos + 1))) := rfl
    rw [hdef, advance]
    by_cases h : pos = path.path_.length
    · rw [if_pos (congrArg some h), if_pos h]
    · rw [if_neg fun heq => h (Option.some.inj heq), if_neg h]

theorem piece_piece (path : AbsolutePath) (it : PrefixIterator) :
    (ComposedPathIterator.piece path.piece it).map AbsolutePathPiece.copy = piece path.path_ it := by
  cases it with
  | none => rfl
  | some pos => rfl

theorem remainder_piece (path : AbsolutePath) (it : PrefixIterator) :
    (ComposedPathIterator.remainder path.piece it).map RelativePathPiece.copy = remainder path.path_ it := by
  cases it with
  | none => rfl
  | some pos =>
    have hdef : ComposedPathIterator.remainder path.piece (some pos) =
      if pos < path.path_.length then .ok ⟨.of (path.path_.drop (pos + 1))⟩ else .ok .default := rfl
    rw [hdef, remainder]
    by_cases h : pos < path.path_.length
    · rw [if_pos h, if_pos h]
      rfl
    · rw [if_neg h, if_neg h]
      rfl

end PrefixIterator

section Positions

variable {Piece : Type} [ComposedPiece Piece] {path : Piece}

theorem remainder_some (pos : ℕ) : remainder path (some pos) =
    if pos < (ComposedPiece.view path).bytes.length then .ok ⟨.of ((ComposedPiece.view path).bytes.drop (pos + 1))⟩
    else .ok .default := rfl

namespace CutPath

/-- The positions in front of the end of a forward range. -/
theorem exists_of_forward (h : CutPath P path front sep cs) {j : ℕ} (hj : j ≤ cs.length + 1) {it : ComposedPosition}
    (hit : (range P false path (prefixPos front sep cs j) none).Position it) (hne : it ≠ none) :
    ∃ k ≤ cs.length, it = some (prefixAt front sep cs k).length := by
  obtain ⟨k, hk, rfl⟩ := (h.indexed_forward hj).exists_of_position hit hne
  have hle : j + k ≤ cs.length := by omega
  exact ⟨j + k, hle, prefixPos_of_le hle⟩

/-- The positions in front of the end of a reverse range. -/
theorem exists_of_reverse (h : CutPath P path front sep cs) {m : ℕ} (hm : m ≤ cs.length + 1) {it : ComposedPosition}
    (hit : (range P true path (ComposedPiece.view path).dataEnd (reversePos front sep cs m)).Position it)
    (hne : it ≠ reversePos front sep cs m) : ∃ k ≤ cs.length, it = some (prefixAt front sep cs k).length := by
  obtain ⟨k, hk, rfl⟩ := (h.indexed_reverse hm).exists_of_position hit hne
  exact ⟨cs.length - k, by omega, reversePos_of_le (by omega)⟩

/-- A position is the path's beginning if no component is in front of it. -/
theorem position_ne_begin_iff (h : CutPath P path front sep cs) {k : ℕ} (hk : k ≤ cs.length) :
    some (prefixAt front sep cs k).length ≠ some (componentsBegin P Piece) ↔ k ≠ 0 := by
  rw [← h.length_front]
  constructor
  · rintro hne rfl
    exact hne (by rw [prefixAt_zero])
  · intro h0 heq
    have hlt := h.cut.length_prefixAt_lt (show 0 < k by omega) hk
    rw [prefixAt_zero] at hlt
    have := Option.some.inj heq
    omega

/-- Behind a prefix that is neither empty nor the whole path there is the next suffix. -/
theorem remainder_suffixAt (h : CutPath P path front sep cs) {k : ℕ} (h0 : 0 < k) (hk : k < cs.length) :
    remainder path (some (prefixAt front sep cs k).length) = .ok ⟨.of (suffixAt sep cs k)⟩ := by
  have hlt : (prefixAt front sep cs k).length < (ComposedPiece.view path).bytes.length := by
    have := h.cut.length_prefixAt_lt hk (le_refl _)
    rwa [h.cut.length_view] at this
  have hfront : (prefixAt front sep cs k).length + 1 = (frontAt front sep cs k).length := by
    rw [length_frontAt, if_neg (by omega)]
  rw [remainder_some, if_pos hlt, hfront, h.cut.drop_frontAt hk]

/-- Behind the whole path there is the default path. -/
theorem remainder_last (h : CutPath P path front sep cs) :
    remainder path (some (prefixAt front sep cs cs.length).length) = .ok .default := by
  have hlen := h.cut.length_view
  rw [remainder_some, if_neg (by omega)]

end CutPath

end Positions

/-! ### Where the split is exact -/

/-- At `it`, `remainder()` is a valid path, and `piece()` with it makes up the path. -/
def RelativePathPiece.SplitsAt (p : RelativePathPiece) (it : ComposedPosition) : Prop :=
  ∃ head rest, piece p it = .ok head ∧ remainder p it = .ok rest ∧ rest.copy.Valid .posix ∧
    head.copy.add rest.copy = p.copy

/-- At `it`, `remainder()` is a valid path, and `piece()` with it makes up the path. -/
def AbsolutePathPiece.SplitsAt (a : AbsolutePathPiece) (it : ComposedPosition) : Prop :=
  ∃ head rest, piece a it = .ok head ∧ remainder a it = .ok rest ∧ rest.copy.Valid .posix ∧
    head.copy.add .posix rest.copy = a.copy

/-- On POSIX, the path around the separator behind a prefix. -/
theorem Cut.prefixAt_append {view : Bytes} (h : Cut .posix view front sep cs) {k : ℕ} (h0 : 0 < k) (hk : k < cs.length) :
    prefixAt front sep cs k ++ kDirSeparator :: suffixAt sep cs k = view := by
  have hcut := h.frontAt_append hk
  rw [frontAt_of_pos h0, eq_kDirSeparator_of_posix (h.isSep k), List.append_assoc] at hcut
  exact hcut.symm

theorem Cut.suffixAt_ne_nil {view : Bytes} (h : Cut P view front sep cs) {k : ℕ} (hk : k < cs.length) :
    suffixAt sep cs k ≠ [] := by
  intro hnil
  have hlt := h.length_frontAt_lt hk
  rw [h.frontAt_append hk, hnil, List.append_nil] at hlt
  omega

theorem Cut.prefixAt_length_gt {view : Bytes} (h : Cut P view front sep cs) {k : ℕ} (h0 : 0 < k) (hk : k ≤ cs.length) :
    front.length < (prefixAt front sep cs k).length := by
  have hlt := h.length_prefixAt_lt h0 hk
  rwa [prefixAt_zero] at hlt

theorem RelativePath.add_nil (u : Bytes) : RelativePath.add ⟨u⟩ ⟨[]⟩ = ⟨u⟩ := by
  unfold RelativePath.add
  by_cases hu : u = []
  · subst hu
    rfl
  · rw [if_neg hu, if_pos rfl]

theorem RelativePath.add_of_ne {u v : Bytes} (hu : u ≠ []) (hv : v ≠ []) :
    RelativePath.add ⟨u⟩ ⟨v⟩ = ⟨u ++ kDirSeparator :: v⟩ := by
  unfold RelativePath.add
  rw [if_neg hu, if_neg hv]

/-- What holds behind the whole path and between two components, but not at the beginning of
a path that has components. -/
theorem iff_ne_zero_of_between {S : ℕ → Prop} (hlast : S cs.length) (hbetween : ∀ k, 0 < k → k < cs.length → S k)
    (hbegin : 0 < cs.length → ¬ S 0) {k : ℕ} (hk : k ≤ cs.length) : S k ↔ k ≠ 0 ∨ cs = [] := by
  rcases Nat.eq_or_lt_of_le hk with rfl | hlt
  · rw [← List.length_eq_zero_iff]
    exact iff_of_true hlast (by omega)
  have hcs : cs ≠ [] := List.length_pos_iff.1 (by omega)
  by_cases h0 : k = 0
  · subst h0
    exact iff_of_false (hbegin hlt) (by simpa using hcs)
  · exact iff_of_true (hbetween k (by omega) hlt) (.inl h0)

namespace RelativePathPiece

variable {p : RelativePathPiece}

theorem splitsAt_last (h : CutPath .posix p [] sep cs) : p.SplitsAt (some (prefixAt [] sep cs cs.length).length) := by
  refine ⟨_, _, h.piece_prefixAt (le_refl _), h.remainder_last, rfl, ?_⟩
  have hview : prefixAt [] sep cs cs.length = p.view.bytes := h.cut.prefixAt_length
  exact (RelativePath.add_nil _).trans (congrArg RelativePath.mk hview)

theorem splitsAt_between (h : CutPath .posix p [] sep cs) (k : ℕ) (h0 : 0 < k) (hk : k < cs.length) :
    p.SplitsAt (some (prefixAt [] sep cs k).length) := by
  refine ⟨_, _, h.piece_prefixAt hk.le, h.remainder_suffixAt h0 hk, (h.cut.isJoin_suffix k).1, ?_⟩
  have hhead : prefixAt [] sep cs k ≠ [] := List.length_pos_iff.1 (h.cut.prefixAt_length_gt h0 hk.le)
  have hrest := h.cut.suffixAt_ne_nil hk
  have hcut : prefixAt [] sep cs k ++ kDirSeparator :: suffixAt sep cs k = p.view.bytes := h.cut.prefixAt_append h0 hk
  exact (RelativePath.add_of_ne hhead hrest).trans (congrArg RelativePath.mk hcut)

/-- At the beginning, the byte left out is the first one of the path. -/
theorem not_splitsAt_begin (h : CutPath .posix p [] sep cs) (hn : 0 < cs.length) :
    ¬ p.SplitsAt (some (prefixAt [] sep cs 0).length) := by
  rintro ⟨head, rest, hhead, hrest, -, heq⟩
  have hlen : 0 < p.view.bytes.length := by
    have := h.cut.length_frontAt_lt hn
    rw [frontAt_zero] at this
    exact this
  obtain rfl := Except.ok.inj ((h.piece_prefixAt (Nat.zero_le _)).symm.trans hhead)
  have hdrop : remainder p (some 0) = .ok ⟨.of (p.view.bytes.drop 1)⟩ := if_pos hlen
  obtain rfl := Except.ok.inj (hdrop.symm.trans hrest)
  have hbytes : p.view.bytes.drop 1 = p.view.bytes := congrArg RelativePath.path_ heq
  have := congrArg List.length hbytes
  rw [List.length_drop] at this
  omega

/-- **A relative path splits** at every prefix but the empty one. -/
theorem splitsAt_iff (h : CutPath .posix p [] sep cs) {k : ℕ} (hk : k ≤ cs.length) :
    p.SplitsAt (some (prefixAt [] sep cs k).length) ↔ k ≠ 0 ∨ cs = [] :=
  iff_ne_zero_of_between (S := fun k => p.SplitsAt (some (prefixAt [] sep cs k).length)) (splitsAt_last h)
    (splitsAt_between h) (not_splitsAt_begin h) hk

end RelativePathPiece

namespace AbsolutePathPiece

variable {a : AbsolutePathPiece}

theorem splitsAt_last (h : CutPath .posix a (kRootStr .posix) sep cs) :
    a.SplitsAt (some (prefixAt (kRootStr .posix) sep cs cs.length).length) :=
  ⟨_, _, h.piece_prefixAt (le_refl _), h.remainder_last, rfl, congrArg AbsolutePath.mk h.cut.prefixAt_length⟩

theorem splitsAt_between (h : CutPath .posix a (kRootStr .posix) (fun _ => kAbsDirSeparator .posix) cs) (k : ℕ)
    (h0 : 0 < k) (hk : k < cs.length) :
    a.SplitsAt (some (prefixAt (kRootStr .posix) (fun _ => kAbsDirSeparator .posix) cs k).length) := by
  obtain ⟨hvalid, hcomponents⟩ := joinBy_valid (fun _ => kAbsDirSeparator_isDirSeparator .posix)
    (fun c hc => h.cut.isComponent c (List.mem_of_mem_drop hc) : ∀ c ∈ cs.drop k, IsComponent .posix c)
  refine ⟨_, _, h.piece_prefixAt hk.le, h.remainder_suffixAt h0 hk, hvalid, ?_⟩
  have hgt := h.cut.prefixAt_length_gt h0 hk.le
  have hroot : prefixAt (kRootStr .posix) (fun _ => kAbsDirSeparator .posix) cs k ≠ kRootStr .posix := by
    intro heq
    rw [heq] at hgt
    omega
  have hadd := @AbsolutePath.add_of_ne .posix ⟨prefixAt (kRootStr .posix) (fun _ => kAbsDirSeparator .posix) cs k⟩
    ⟨suffixAt (fun _ => kAbsDirSeparator .posix) cs k⟩ (h.cut.suffixAt_ne_nil hk) hroot
  have hcut := h.cut.prefixAt_append h0 hk
  have hjoin : joinWith (kAbsDirSeparator .posix) (cs.drop k) = suffixAt (fun _ => kAbsDirSeparator .posix) cs k :=
    (joinBy_const _).symm
  refine hadd.trans (congrArg AbsolutePath.mk ?_)
  have hsuffix : RelativePath.components .posix ⟨suffixAt (fun _ => kAbsDirSeparator .posix) cs k⟩ = cs.drop k :=
    hcomponents
  rw [hsuffix, hjoin]
  exact hcut

/-- At the beginning, the byte left out is the first one behind the root. -/
theorem not_splitsAt_begin (h : CutPath .posix a (kRootStr .posix) sep cs) (hn : 0 < cs.length) :
    ¬ a.SplitsAt (some (prefixAt (kRootStr .posix) sep cs 0).length) := by
  rintro ⟨head, rest, hhead, hrest, -, heq⟩
  have hlen : 1 < a.view.bytes.length := by
    have := h.cut.length_frontAt_lt hn
    rw [frontAt_zero] at this
    exact this
  obtain rfl := Except.ok.inj ((h.piece_prefixAt (Nat.zero_le _)).symm.trans hhead)
  have hdrop : remainder a (some 1) = .ok ⟨.of (a.view.bytes.drop 2)⟩ := if_pos hlen
  rw [prefixAt_zero] at hrest
  obtain rfl := Except.ok.inj (hdrop.symm.trans hrest)
  have hadd := root_add_path ⟨a.view.bytes.drop 2⟩
  have hbytes : kDirSeparator :: a.view.bytes.drop 2 = a.view.bytes := hadd.symm.trans (congrArg AbsolutePath.path_ heq)
  have := congrArg List.length hbytes
  rw [List.length_cons, List.length_drop] at this
  omega

/-- **An absolute path splits** at every prefix but the root. -/
theorem splitsAt_iff (h : CutPath .posix a (kRootStr .posix) (fun _ => kAbsDirSeparator .posix) cs) {k : ℕ}
    (hk : k ≤ cs.length) :
    a.SplitsAt (some (prefixAt (kRootStr .posix) (fun _ => kAbsDirSeparator .posix) cs k).length) ↔
      k ≠ 0 ∨ cs = [] :=
  iff_ne_zero_of_between
    (S := fun k => a.SplitsAt (some (prefixAt (kRootStr .posix) (fun _ => kAbsDirSeparator .posix) cs k).length))
    (splitsAt_last h) (splitsAt_between h) (not_splitsAt_begin h) hk

end AbsolutePathPiece

/-- **`remainder()` is exact** at every position of a range of prefixes but the path's
beginning, and there for the empty path and for the root only. -/
theorem remainder_iff (p : RelativePathPiece) (a : AbsolutePathPiece) :
    (p.copy.Valid .posix → ∀ r : PrefixRange RelativePathPiece,
      p.paths .posix = .ok r ∨ p.allPaths .posix = .ok r ∨ p.rpaths .posix = r ∨ p.rallPaths .posix = r →
      ∀ it, r.Position it → it ≠ r.end_ →
        (p.SplitsAt it ↔ it ≠ some (componentsBegin .posix RelativePathPiece) ∨ p.view.bytes = [])) ∧
    (a.copy.Valid .posix → ∀ r : PrefixRange AbsolutePathPiece,
      a.paths .posix = .ok r ∨ a.rpaths .posix = r →
      ∀ it, r.Position it → it ≠ r.end_ →
        (a.SplitsAt it ↔ it ≠ some (componentsBegin .posix AbsolutePathPiece) ∨ a.view.bytes = kRootStr .posix)) := by
  refine ⟨fun hp r hr it hit hne => ?_, fun ha r hr it hit hne => ?_⟩
  · by_cases hnull : p.view.isNull = true
    · -- the ranges of a null view have no position in front of their end
      obtain ⟨h1, h2, h3, h4⟩ := @RelativePathPiece.prefixes_null .posix p hnull
      rw [h2, h3, h4] at hr
      rcases hr with hr | hr | rfl | rfl
      · exact absurd hr (h1 r)
      · obtain rfl := Except.ok.inj hr
        exact absurd (eq_of_position_range_self hit) hne
      · exact absurd (eq_of_position_range_self hit) hne
      · exact absurd (eq_of_position_range_self hit) hne
    obtain ⟨sep, h⟩ := RelativePathPiece.exists_cutPath hp (Bool.of_not_eq_true hnull)
    rw [RelativePathPiece.paths_eq h, RelativePathPiece.allPaths_eq h, RelativePathPiece.rpaths_eq h,
      @RelativePathPiece.rallPaths_eq .posix sep (p.copy.components .posix)] at hr
    have hk : ∃ k ≤ (p.copy.components .posix).length, it = some (prefixAt [] sep (p.copy.components .posix) k).length := by
      rcases hr with hr | hr | rfl | rfl
      · obtain rfl := Except.ok.inj hr
        exact h.exists_of_forward (by omega) hit hne
      · obtain rfl := Except.ok.inj hr
        exact h.exists_of_forward (Nat.zero_le _) hit hne
      · exact h.exists_of_reverse (by omega) hit hne
      · exact h.exists_of_reverse (le_refl _) hit hne
    obtain ⟨k, hk, rfl⟩ := hk
    rw [RelativePathPiece.splitsAt_iff h hk, h.position_ne_begin_iff hk]
    exact or_congr_right h.cut.eq_nil_iff
  · have h := AbsolutePathPiece.cutPath ha
    rw [AbsolutePathPiece.paths_eq h,
      @AbsolutePathPiece.rpaths_eq .posix (kRootStr .posix) (fun _ => kAbsDirSeparator .posix) (a.copy.components .posix)]
      at hr
    have hk : ∃ k ≤ (a.copy.components .posix).length,
        it = some (prefixAt (kRootStr .posix) (fun _ => kAbsDirSeparator .posix) (a.copy.components .posix) k).length := by
      rcases hr with hr | rfl
      · obtain rfl := Except.ok.inj hr
        exact h.exists_of_forward (Nat.zero_le _) hit hne
      · exact h.exists_of_reverse (le_refl _) hit hne
    obtain ⟨k, hk, rfl⟩ := hk
    rw [AbsolutePathPiece.splitsAt_iff h hk, h.position_ne_begin_iff hk]
    exact or_congr_right h.cut.eq_nil_iff

/-- The whole of `a/b` and its first component, as positions of `rpaths()`; at both the
split is exact. -/
theorem remainder_a_b : RelativePathPiece.SplitsAt ⟨.of [0x61, 0x2F, 0x62]⟩ (some 3) ∧
    RelativePathPiece.SplitsAt ⟨.of [0x61, 0x2F, 0x62]⟩ (some 1) := by
  have hstep := (remainder_iff ⟨.of [0x61, 0x2F, 0x62]⟩ ⟨.of [0x2F]⟩).1 (by decide) _ (.inr (.inr (.inl rfl)))
  have hend : Lib.IteratorRange.Position (RelativePathPiece.rpaths .posix ⟨.of [0x61, 0x2F, 0x62]⟩) (some 3) := .begin_
  have hnext : Lib.IteratorRange.Position (RelativePathPiece.rpaths .posix ⟨.of [0x61, 0x2F, 0x62]⟩) (some 1) :=
    hend.next (by decide) (by decide)
  exact ⟨(hstep _ hend (by decide)).2 (.inl (by decide)), (hstep _ hnext (by decide)).2 (.inl (by decide))⟩

/-- At the first position of `allPaths()` of `foo/bar`, the remainder is `oo/bar`. -/
theorem remainder_drops_byte :
    (RelativePathPiece.allPaths .posix ⟨.of [0x66, 0x6F, 0x6F, 0x2F, 0x62, 0x61, 0x72]⟩).map (·.begin_) = .ok (some 0) ∧
      remainder (⟨.of [0x66, 0x6F, 0x6F, 0x2F, 0x62, 0x61, 0x72]⟩ : RelativePathPiece) (some 0) =
        .ok ⟨.of [0x6F, 0x6F, 0x2F, 0x62, 0x61, 0x72]⟩ ∧
      ¬ RelativePathPiece.SplitsAt ⟨.of [0x66, 0x6F, 0x6F, 0x2F, 0x62, 0x61, 0x72]⟩ (some 0) := by
  refine ⟨rfl, by decide, ?_⟩
  rintro ⟨head, rest, hhead, hrest, -, heq⟩
  obtain rfl := Except.ok.inj hhead
  obtain rfl := Except.ok.inj hrest
  exact absurd heq (by decide)

/-! ### Paths without a data pointer -/

/-- The loops over the ranges of prefixes read what they read of any relative path. -/
def RelativePathPiece.Iterable (P : Platform) (p : RelativePathPiece) : Prop :=
  ∃ es, List.Forall₂ (RelativePathPiece.IsJoin P) es
      ((List.range (p.copy.components P).length).map fun k => (p.copy.components P).take (k + 1)) ∧
    (∃ r, p.paths P = .ok r ∧ r.Yields es) ∧
    (∃ r, p.allPaths P = .ok r ∧ r.Yields (⟨.of []⟩ :: es)) ∧
    (p.rallPaths P).Yields (⟨.of []⟩ :: es).reverse

/-- **A valid path can be iterated** iff it has a data pointer. -/
theorem RelativePathPiece.iterable_iff {p : RelativePathPiece} (hp : p.copy.Valid P) :
    p.Iterable P ↔ p.view.isNull = false := by
  constructor
  · rintro ⟨es, -, ⟨r, hr, -⟩, -⟩
    by_contra hnull
    exact (@RelativePathPiece.prefixes_null P p (Bool.of_not_eq_false hnull)).1 r hr
  · intro hn
    obtain ⟨sep, h⟩ := RelativePathPiece.exists_cutPath hp hn
    obtain ⟨es, h1, h2, h3, -, h4⟩ := RelativePathPiece.prefixes_yield h
    exact ⟨es, h1, h2, h3, h4⟩

/-- Up to the views, it is `splitFirst`. -/
theorem splitFirstPiece_copy (p : RelativePathPiece) (after : Bytes) :
    (splitFirstPiece P p after).map (fun r => (r.1, r.2.copy)) = splitFirst P p.copy after := by
  have hbytes : p.copy.path_ = p.view.bytes := rfl
  unfold splitFirstPiece splitFirst RelativePathPiece.checked
  rw [hbytes]
  rcases hi : findPathSeparator P p.view.bytes with - | i
  · simp only [hi]
    cases pathComponentSanityCheck P p.view.bytes after <;> rfl
  · simp only [hi, StringView.of]
    cases pathComponentSanityCheck P (p.view.bytes.take i) (p.view.bytes.drop i ++ after) with
    | error e => rfl
    | ok u => cases relativePathSanityCheck P (p.view.bytes.drop (i + 1)) after <;> rfl

/-- What `splitFirst` leaves has a data pointer iff the path has a separator. -/
theorem splitFirstPiece_isNull {p : RelativePathPiece} {after : Bytes} {c : PathComponent} {rest : RelativePathPiece}
    (h : splitFirstPiece P p after = .ok (c, rest)) :
    rest.view.isNull = false ↔ ∃ x ∈ p.view.bytes, isDirSeparator P x = true := by
  have hfind := @findPathSeparator_eq P p.view.bytes
  unfold splitFirstPiece at h
  rcases hi : findPathSeparator P p.view.bytes with - | i
  · rw [hi] at hfind
    have hno := List.findIdx?_eq_none_iff.1 hfind.symm
    simp only [hi] at h
    cases hc : pathComponentSanityCheck P p.view.bytes after with
    | error e =>
      rw [hc] at h
      cases h
    | ok u =>
      rw [hc] at h
      cases h
      refine iff_of_false nofun ?_
      rintro ⟨x, hx, hsep⟩
      rw [hno x hx] at hsep
      cases hsep
  · rw [hi] at hfind
    simp only [hi] at h
    cases hc : pathComponentSanityCheck P (p.view.bytes.take i) (p.view.bytes.drop i ++ after) with
    | error e =>
      rw [hc] at h
      cases h
    | ok u =>
      unfold RelativePathPiece.checked at h
      cases hr : relativePathSanityCheck P (StringView.of (p.view.bytes.drop (i + 1))).bytes after with
      | error e =>
        rw [hc, hr] at h
        cases h
      | ok u' =>
        rw [hc, hr] at h
        cases h
        obtain ⟨hlt, hsep, -⟩ := List.findIdx?_eq_some_iff_getElem.1 hfind.symm
        exact iff_of_true rfl ⟨_, List.getElem_mem hlt, hsep⟩

/-- **Which remainders can be iterated**: that of `splitFirst` if the path has a separator,
hence two components or more; never that of the last position of a path. -/
theorem splitFirst_remainder_iff (P : Platform) :
    (∀ p : RelativePathPiece, p.copy.Valid P → p.view.bytes ≠ [] → ∀ after, ∃ c rest,
      splitFirstPiece P p after = .ok (c, rest) ∧ p.copy.components P = c.path_ :: rest.copy.components P ∧
        (rest.Iterable P ↔ ∃ x ∈ p.view.bytes, isDirSeparator P x = true)) ∧
    (∀ p : RelativePathPiece, p.copy.Valid P → p.view.isNull = false → ∃ rest,
      remainder p p.view.dataEnd = .ok rest ∧ rest.copy = ⟨[]⟩ ∧ ¬ rest.Iterable P) ∧
    ∀ a : AbsolutePathPiece, a.copy.Valid P → ∃ rest,
      remainder a a.view.dataEnd = .ok rest ∧ rest.copy = ⟨[]⟩ ∧ ¬ rest.Iterable P := by
  have hdefault : ¬ RelativePathPiece.Iterable P .default := by
    have hvalid : RelativePathPiece.default.copy.Valid P := rfl
    rw [RelativePathPiece.iterable_iff hvalid]
    exact nofun
  refine ⟨fun p hp hne after => ?_, fun p hp hn => ?_, fun a ha => ?_⟩
  · obtain ⟨c, tail, r, hcomponents, hsplit, hvalid, rfl⟩ := splitFirst_spec hp hne after
    rw [← splitFirstPiece_copy] at hsplit
    cases hpiece : splitFirstPiece P p after with
    | error e =>
      rw [hpiece] at hsplit
      cases hsplit
    | ok s =>
      rw [hpiece] at hsplit
      obtain ⟨hc, hr⟩ := Prod.mk.inj (Except.ok.inj hsplit)
      subst hr
      refine ⟨s.1, s.2, rfl, ?_, ?_⟩
      · rw [hcomponents, hc]
      · exact (RelativePathPiece.iterable_iff hvalid).trans (splitFirstPiece_isNull hpiece)
  · obtain ⟨sep, h⟩ := RelativePathPiece.exists_cutPath hp hn
    have hend : p.view.dataEnd = _ := h.dataEnd_eq
    rw [hend]
    exact ⟨_, h.remainder_last, rfl, hdefault⟩
  · have h := AbsolutePathPiece.cutPath ha
    have hend : a.view.dataEnd = _ := h.dataEnd_eq
    rw [hend]
    exact ⟨_, h.remainder_last, rfl, hdefault⟩

/-- What `splitFirst` leaves of `a/b` can be iterated. -/
theorem splitFirst_remainder_a_b : ∃ c rest,
    splitFirstPiece .posix ⟨.of [0x61, 0x2F, 0x62]⟩ nulTerminator = .ok (c, rest) ∧ rest.Iterable .posix := by
  obtain ⟨c, rest, h1, -, h2⟩ := (splitFirst_remainder_iff .posix).1 ⟨.of [0x61, 0x2F, 0x62]⟩ (by decide) (by decide)
    nulTerminator
  exact ⟨c, rest, h1, h2.2 ⟨0x2F, by decide, rfl⟩⟩

/-- `splitFirst` of `foo` leaves a path whose `paths()` fails its check and whose
`allPaths()` is empty. -/
theorem splitFirst_null_remainder :
    splitFirstPiece .posix ⟨.of [0x66, 0x6F, 0x6F]⟩ nulTerminator = .ok (⟨[0x66, 0x6F, 0x6F]⟩, .default) ∧
      RelativePathPiece.default.allPaths .posix = .ok (range .posix false .default none none) ∧
      (∀ r, RelativePathPiece.default.paths .posix ≠ .ok r) ∧ ¬ RelativePathPiece.default.Iterable .posix := by
  refine ⟨by decide, rfl, nofun, ?_⟩
  rintro ⟨es, -, ⟨r, hr, -⟩, -⟩
  cases hr

end EdenCommon
