import EdenCommon.Proof.PathCuts

/-!
# The positions of the path iterators, by number

For each range of a path: which position is its `k`-th, what is read there and where the
operators lead (`indexed_forward`, `indexed_reverse`, `indexed_suffixes`,
`indexed_rsuffixes`, `indexed_components`, `indexed_rcomponents`). A prefix stands where
one component ends, a suffix where one begins, and a component between the two places.

A step of an iterator looks for the next separator from where it stands, so each range has
three lemmas about one position, for the piece, for `advance()` and for `retreat()`, and its
`indexed_` theorem puts them together. A step back from an end starts at the wrong byte;
what it leaves there is shorter than a component (`retreat_atEnd_short`,
`advance_rend_short`).
-/

namespace EdenCommon

open Lib ComposedPathIterator

variable {P : Platform} {kIsDebug : Bool} {view front : Bytes} {sep : ℕ → UInt8} {cs : List Bytes}

/-! ### Prefixes -/

section Prefixes

variable {Piece : Type} [ComposedPiece Piece] {path : Piece}

/-- A path piece with a data pointer whose bytes behind its root are cut. -/
structure CutPath (P : Platform) (path : Piece) (front : Bytes) (sep : ℕ → UInt8) (cs : List Bytes) : Prop where
  cut : Cut P (ComposedPiece.view path).bytes front sep cs
  nonnull : (ComposedPiece.view path).isNull = false
  length_front : front.length = componentsBegin P Piece

/-- Behind the first `k` components; beyond the last one the null pointer. -/
def prefixPos (front : Bytes) (sep : ℕ → UInt8) (cs : List Bytes) (k : ℕ) : ComposedPosition :=
  if k ≤ cs.length then some (prefixAt front sep cs k).length else none

theorem prefixPos_of_le {k : ℕ} (hk : k ≤ cs.length) :
    prefixPos front sep cs k = some (prefixAt front sep cs k).length := if_pos hk

theorem prefixPos_of_lt {k : ℕ} (hk : cs.length < k) : prefixPos front sep cs k = none := if_neg (by omega)

/-- The piece that consists of the first `k` components. -/
def prefixPiece (Piece : Type) [ComposedPiece Piece] (front : Bytes) (sep : ℕ → UInt8) (cs : List Bytes) (k : ℕ) :
    Piece :=
  ComposedPiece.ofView (.of (prefixAt front sep cs k))

namespace CutPath

theorem data_eq (h : CutPath P path front sep cs) : (ComposedPiece.view path).data = some 0 := by
  unfold StringView.data
  rw [h.nonnull]
  rfl

theorem dataEnd_eq (h : CutPath P path front sep cs) :
    (ComposedPiece.view path).dataEnd = some (prefixAt front sep cs cs.length).length := by
  unfold StringView.dataEnd
  rw [h.nonnull, h.cut.length_view]
  rfl

/-- A path begins behind its root. -/
theorem pathBegin_eq (h : CutPath P path front sep cs) : pathBegin P path = .ok (some front.length) := by
  have hlen := h.length_front
  have hview : front.length ≤ (ComposedPiece.view path).bytes.length := by
    rw [h.cut.eq, List.length_append]
    omega
  unfold componentsBegin at hlen
  unfold pathBegin
  by_cases ha : ComposedPiece.isAbsolute Piece = true
  · rw [if_pos ha] at hlen ⊢
    rw [hlen] at hview
    simp only [PathError.xcheck, hview, decide_true, if_true, ok_bind, h.data_eq, Option.map_some, Nat.zero_add, hlen,
      pure_eq_ok]
  · rw [if_neg ha] at hlen ⊢
    rw [h.data_eq, hlen, pure_eq_ok]

/-- A shorter prefix does not end the path. -/
theorem length_ne_dataEnd (h : CutPath P path front sep cs) {k : ℕ} (hk : k < cs.length) :
    some (prefixAt front sep cs k).length ≠ (ComposedPiece.view path).dataEnd := by
  have hlt := h.cut.length_prefixAt_lt hk (le_refl _)
  rw [h.dataEnd_eq]
  intro heq
  have := Option.some.inj heq
  omega

/-- `advance()` moves behind the next component. -/
theorem advance_prefixAt (h : CutPath P path front sep cs) (isReverse : Bool) {k : ℕ} (hk : k < cs.length) :
    advance P isReverse path (some (prefixAt front sep cs k).length) =
      .ok (some (prefixAt front sep cs (k + 1)).length) := by
  have hne := h.length_ne_dataEnd hk
  have hscan := h.cut.scanSeparator_prefixAt hk
  unfold advance
  cases isReverse with
  | true => simp only [PathError.xcheck, hne, ne_eq, not_false_eq_true, decide_true, if_true, ok_bind, hscan, pure_eq_ok]
  | false => simp only [hne, if_false, hscan, pure_eq_ok]

/-- Behind the whole path there is the null pointer. -/
theorem advance_last (h : CutPath P path front sep cs) :
    advance P false path (some (prefixAt front sep cs cs.length).length) = .ok none := by
  unfold advance
  simp only [h.dataEnd_eq, if_true, pure_eq_ok]

theorem advance_none (h : CutPath P path front sep cs) : advance P true path none = .ok (some front.length) :=
  h.pathBegin_eq

/-- `retreat()` moves back in front of a component. -/
theorem retreat_prefixAt (h : CutPath P path front sep cs) (isReverse : Bool) {k : ℕ} (hk : k < cs.length) :
    retreat P isReverse path (some (prefixAt front sep cs (k + 1)).length) =
      .ok (some (prefixAt front sep cs k).length) := by
  have hgrow := h.cut.length_prefixAt_lt (show 0 < k + 1 by omega) hk
  rw [prefixAt_zero] at hgrow
  have hscan := h.cut.scanBackTo_prefixAt hk
  have hle : ¬ (prefixAt front sep cs (k + 1)).length ≤ front.length := by omega
  have hne : (prefixAt front sep cs (k + 1)).length ≠ front.length := by omega
  unfold retreat
  rw [h.pathBegin_eq, ok_bind]
  cases isReverse with
  | true => simp only [Option.getD_some, hle, if_false, hscan, pure_eq_ok]
  | false =>
    simp only [PathError.xcheck, Option.some.injEq, hne, ne_eq, not_false_eq_true, decide_true, if_true, ok_bind,
      Option.getD_some, hscan, pure_eq_ok]

/-- In front of the path as well. -/
theorem retreat_first (h : CutPath P path front sep cs) : retreat P true path (some front.length) = .ok none := by
  unfold retreat
  rw [h.pathBegin_eq, ok_bind]
  simp only [Option.getD_some, le_refl, if_true, pure_eq_ok]

/-- From the null pointer one comes back to the end. -/
theorem retreat_none (h : CutPath P path front sep cs) :
    retreat P false path none = .ok (some (prefixAt front sep cs cs.length).length) := by
  unfold retreat
  rw [h.pathBegin_eq, ok_bind]
  simp only [pure_eq_ok, h.dataEnd_eq]

/-- The piece at a position is the prefix. -/
theorem piece_prefixAt (h : CutPath P path front sep cs) {k : ℕ} (hk : k ≤ cs.length) :
    piece path (some (prefixAt front sep cs k).length) = .ok (prefixPiece Piece front sep cs k) := by
  unfold piece prefixPiece
  simp only [h.cut.take_prefixAt hk]

/-! The same steps, on numbered positions. -/

/-- **One step forward** goes to the next prefix. -/
theorem advance_prefixPos (h : CutPath P path front sep cs) {k : ℕ} (hk : k ≤ cs.length) :
    advance P false path (prefixPos front sep cs k) = .ok (prefixPos front sep cs (k + 1)) := by
  rw [prefixPos_of_le hk]
  rcases Nat.eq_or_lt_of_le hk with rfl | hlt
  · rw [h.advance_last, prefixPos_of_lt (by omega)]
  · rw [h.advance_prefixAt false hlt, prefixPos_of_le (by omega)]

/-- **One step back** goes to the one before. -/
theorem retreat_prefixPos (h : CutPath P path front sep cs) {k : ℕ} (hk : k ≤ cs.length) :
    retreat P false path (prefixPos front sep cs (k + 1)) = .ok (prefixPos front sep cs k) := by
  rw [prefixPos_of_le hk]
  rcases Nat.eq_or_lt_of_le hk with rfl | hlt
  · rw [prefixPos_of_lt (by omega), h.retreat_none]
  · rw [prefixPos_of_le (by omega), h.retreat_prefixAt false hlt]

/-- **The forward ranges of prefixes**, from the `j`-th prefix on. -/
theorem indexed_forward (h : CutPath P path front sep cs) {j : ℕ} (hj : j ≤ cs.length + 1) :
    (range P false path (prefixPos front sep cs j) none).Indexed (cs.length + 1 - j)
      (fun k => prefixPos front sep cs (j + k)) (fun k => prefixPiece Piece front sep cs (j + k)) where
  begin_eq := rfl
  end_eq := (prefixPos_of_lt (by omega)).symm
  pos_ne k hk := by
    rw [prefixPos_of_le (show j + k ≤ cs.length by omega),
      prefixPos_of_lt (show cs.length < j + (cs.length + 1 - j) by omega)]
    exact Option.some_ne_none _
  deref k hk := by
    rw [prefixPos_of_le (show j + k ≤ cs.length by omega)]
    exact h.piece_prefixAt (by omega)
  next k hk := h.advance_prefixPos (by omega)

theorem prev_forward (h : CutPath P path front sep cs) {j : ℕ} (begin_ : ComposedPosition) :
    ∀ k < cs.length + 1 - j, (range P false path begin_ none).prev (prefixPos front sep cs (j + (k + 1))) =
      .ok (prefixPos front sep cs (j + k)) :=
  fun k hk => h.retreat_prefixPos (show j + k ≤ cs.length by omega)

end CutPath

/-- The positions of a reverse range. -/
def reversePos (front : Bytes) (sep : ℕ → UInt8) (cs : List Bytes) (k : ℕ) : ComposedPosition :=
  if k ≤ cs.length then some (prefixAt front sep cs (cs.length - k)).length else none

theorem reversePos_of_le {k : ℕ} (hk : k ≤ cs.length) :
    reversePos front sep cs k = some (prefixAt front sep cs (cs.length - k)).length := if_pos hk

theorem reversePos_of_lt {k : ℕ} (hk : cs.length < k) : reversePos front sep cs k = none := if_neg (by omega)

namespace CutPath

/-- The same for the reverse ranges. -/
theorem retreat_reversePos (h : CutPath P path front sep cs) {k : ℕ} (hk : k ≤ cs.length) :
    retreat P true path (reversePos front sep cs k) = .ok (reversePos front sep cs (k + 1)) := by
  rw [reversePos_of_le hk]
  rcases Nat.eq_or_lt_of_le hk with rfl | hlt
  · rw [Nat.sub_self, prefixAt_zero, h.retreat_first, reversePos_of_lt (by omega)]
  · have hstep := h.retreat_prefixAt true (show cs.length - (k + 1) < cs.length by omega)
    rw [show cs.length - (k + 1) + 1 = cs.length - k by omega] at hstep
    rw [hstep, reversePos_of_le (by omega)]

/-- And back. -/
theorem advance_reversePos (h : CutPath P path front sep cs) {k : ℕ} (hk : k ≤ cs.length) :
    advance P true path (reversePos front sep cs (k + 1)) = .ok (reversePos front sep cs k) := by
  rw [reversePos_of_le hk]
  rcases Nat.eq_or_lt_of_le hk with rfl | hlt
  · rw [reversePos_of_lt (by omega), Nat.sub_self, prefixAt_zero, h.advance_none]
  · have hstep := h.advance_prefixAt true (show cs.length - (k + 1) < cs.length by omega)
    rw [show cs.length - (k + 1) + 1 = cs.length - k by omega] at hstep
    rw [reversePos_of_le (by omega), hstep]

/-- **The reverse ranges of prefixes**, of which there are `m`. -/
theorem indexed_reverse (h : CutPath P path front sep cs) {m : ℕ} (hm : m ≤ cs.length + 1) :
    (range P true path (ComposedPiece.view path).dataEnd (reversePos front sep cs m)).Indexed m
      (reversePos front sep cs) (fun k => prefixPiece Piece front sep cs (cs.length - k)) where
  begin_eq := by
    rw [reversePos_of_le (Nat.zero_le _), Nat.sub_zero]
    exact h.dataEnd_eq
  end_eq := rfl
  pos_ne k hk := by
    intro heq
    rw [reversePos_of_le (by omega)] at heq
    rcases Nat.lt_or_ge cs.length m with hlt | hge
    · rw [reversePos_of_lt hlt] at heq
      exact Option.some_ne_none _ heq
    · rw [reversePos_of_le hge] at heq
      have := h.cut.length_prefixAt_inj (by omega) (by omega) (Option.some.inj heq)
      omega
  deref k hk := by
    rw [reversePos_of_le (show k ≤ cs.length by omega)]
    exact h.piece_prefixAt (by omega)
  next k hk := h.retreat_reversePos (by omega)

theorem prev_reverse (h : CutPath P path front sep cs) {m : ℕ} (hm : m ≤ cs.length + 1) (begin_ end_ : ComposedPosition) :
    ∀ k < m, (range P true path begin_ end_).prev (reversePos front sep cs (k + 1)) = .ok (reversePos front sep cs k) :=
  fun k hk => h.advance_reversePos (show k ≤ cs.length by omega)

end CutPath

end Prefixes

/-! ### Suffixes -/

/-- A path stripped of its root is cut alike. -/
theorem Cut.drop (h : Cut P view front sep cs) : Cut P (view.drop front.length) [] sep cs := by
  refine ⟨?_, h.isSep, h.isComponent⟩
  rw [h.eq, List.drop_left, List.nil_append]

/-- Where the `k`-th suffix starts; beyond the last one the end. -/
def suffixPos (sep : ℕ → UInt8) (cs : List Bytes) (k : ℕ) : ℕ :=
  if k < cs.length then (frontAt [] sep cs k).length else (prefixAt [] sep cs cs.length).length

theorem suffixPos_of_lt {k : ℕ} (hk : k < cs.length) : suffixPos sep cs k = (frontAt [] sep cs k).length := if_pos hk

theorem suffixPos_length : suffixPos sep cs cs.length = (prefixAt [] sep cs cs.length).length :=
  if_neg (lt_irrefl _)

theorem suffixPos_zero : suffixPos sep cs 0 = 0 := by
  unfold suffixPos
  split
  · rw [frontAt_zero]
    rfl
  · have hn : cs = [] := List.length_eq_zero_iff.1 (by omega)
    subst hn
    rfl

/-- The next suffix starts behind the separator that ends a component. -/
theorem suffixPos_succ {k : ℕ} (hk : k < cs.length) :
    suffixPos sep cs (k + 1) = (prefixAt [] sep cs (k + 1)).length + if k + 1 = cs.length then 0 else 1 := by
  by_cases hlast : k + 1 = cs.length
  · rw [if_pos hlast, hlast, suffixPos_length, Nat.add_zero]
  · rw [if_neg hlast, suffixPos_of_lt (by omega), length_frontAt, if_neg (by omega)]

namespace Cut

/-- A suffix begins inside the path. -/
theorem suffixPos_lt (h : Cut P view [] sep cs) {k : ℕ} (hk : k < cs.length) : suffixPos sep cs k < view.length := by
  rw [suffixPos_of_lt hk]
  exact h.length_frontAt_lt hk

theorem suffixPos_end (h : Cut P view [] sep cs) : suffixPos sep cs cs.length = view.length := by
  rw [suffixPos_length, h.length_view]

/-- `advance()` moves to the next component. -/
theorem advance_suffixPos (h : Cut P view [] sep cs) {k : ℕ} (hk : k < cs.length) :
    PathSuffixIterator.advance P kIsDebug view (some (suffixPos sep cs k)) = .ok (some (suffixPos sep cs (k + 1))) := by
  obtain ⟨post, heq, hhead, hnil⟩ := h.exists_append hk
  have hc := h.getElem_isComponent hk
  obtain ⟨x, d, hxd⟩ := List.exists_cons_of_ne_nil hc.ne_nil
  have hd : ∀ y ∈ d, isDirSeparator P y = false := fun y hy => hc.no_sep y (by rw [hxd]; exact List.mem_cons_of_mem x hy)
  have hlen : (prefixAt [] sep cs (k + 1)).length = (frontAt [] sep cs k).length + 1 + d.length := by
    rw [length_prefixAt_succ hk, hxd, List.length_cons]
    omega
  have hdrop : view.drop ((frontAt [] sep cs k).length + 1) = d ++ post := by
    rw [← List.drop_drop, heq, List.drop_left, hxd]
    rfl
  unfold PathSuffixIterator.advance
  simp only [PathError.xdcheck, Option.any_some, h.suffixPos_lt hk, decide_true, Bool.not_true, Bool.and_false,
    Bool.false_eq_true, if_false, ok_bind, pure_eq_ok]
  rw [findPathSeparatorFrom_eq, suffixPos_of_lt hk, hdrop, suffixPos_succ hk, hlen]
  by_cases hp : post = []
  · -- no separator is left
    have hnone : (d ++ post).findIdx? (isDirSeparator P) = none := by
      rw [hp, List.append_nil, List.findIdx?_eq_none_iff]
      exact hd
    have hend := h.length_view
    rw [← hnil.1 hp, hlen] at hend
    simp only [hnone, Option.map_none, hnil.1 hp, if_true, Nat.add_zero, hend]
  · obtain ⟨y, t, rfl⟩ := List.exists_cons_of_ne_nil hp
    have hsome : (d ++ y :: t).findIdx? (isDirSeparator P) = some d.length := by
      rw [List.findIdx?_append, List.findIdx?_eq_none_iff.2 hd, List.findIdx?_cons, if_pos (hhead y rfl)]
      simp
    have hlast : k + 1 ≠ cs.length := fun hl => hp (hnil.2 hl)
    simp only [hsome, Option.map_some, hlast, if_false]

/-- `retreat()` moves to the component before. -/
theorem retreat_suffixPos (h : Cut P view [] sep cs) {k : ℕ} (hk : k < cs.length) :
    PathSuffixIterator.retreat P kIsDebug view (some (suffixPos sep cs (k + 1))) = .ok (some (suffixPos sep cs k)) := by
  have hc := h.getElem_isComponent hk
  obtain ⟨post, heq, -, hnil⟩ := h.exists_append hk
  -- in front of where it stands there is the component, but for its last byte if it is the last one
  obtain ⟨start, d, hstart, htake, hd⟩ : ∃ start d, suffixPos sep cs (k + 1) = start + 1 ∧
      view.take start = frontAt [] sep cs k ++ d ∧ ∀ y ∈ d, isDirSeparator P y = false := by
    by_cases hlast : k + 1 = cs.length
    · have hpos := List.length_pos_iff.2 hc.ne_nil
      refine ⟨(frontAt [] sep cs k).length + (cs[k].length - 1), cs[k].take (cs[k].length - 1), ?_, ?_, ?_⟩
      · rw [suffixPos_succ hk, if_pos hlast, length_prefixAt_succ hk]
        omega
      · rw [heq, List.take_length_add_append, List.take_append_of_le_length (by omega)]
      · exact fun y hy => hc.no_sep y (List.mem_of_mem_take hy)
    · refine ⟨(prefixAt [] sep cs (k + 1)).length, cs[k], ?_, ?_, hc.no_sep⟩
      · rw [suffixPos_succ hk, if_neg hlast]
      · rw [h.take_prefixAt hk, prefixAt_succ hk]
  unfold PathSuffixIterator.retreat
  simp only [PathError.xdcheck, Option.isSome_some, Bool.not_true, Bool.and_false, Bool.false_eq_true, if_false, ok_bind,
    hstart, htake, pure_eq_ok]
  rw [suffixPos_of_lt hk]
  by_cases h0 : k = 0
  · subst h0
    rw [frontAt_zero, List.nil_append, rfindPathSeparator_eq_none hd]
    rfl
  · rw [frontAt_of_pos (by omega), rfindPathSeparator_append (h.isSep k) hd, List.length_append]
    rfl

/-- The piece at a position is the suffix. -/
theorem piece_suffixPos (h : Cut P view [] sep cs) {k : ℕ} (hk : k < cs.length) :
    PathSuffixIterator.piece view (some (suffixPos sep cs k)) = .ok ⟨.of (suffixAt sep cs k)⟩ := by
  have hlt := h.suffixPos_lt hk
  unfold PathSuffixIterator.piece
  simp only [hlt.le, if_true]
  rw [suffixPos_of_lt hk, h.drop_frontAt hk]

/-- **The suffixes.** -/
theorem indexed_suffixes (h : Cut P view [] sep cs) :
    (PathSuffixIterator.suffixes P kIsDebug view).Indexed cs.length (fun k => some (suffixPos sep cs k))
      (fun k => ⟨.of (suffixAt sep cs k)⟩) where
  begin_eq := by
    rw [suffixPos_zero]
    rfl
  end_eq := by
    rw [h.suffixPos_end]
    rfl
  pos_ne k hk := by
    have := h.suffixPos_lt hk
    rw [h.suffixPos_end, ne_eq, Option.some.injEq]
    omega
  deref k hk := h.piece_suffixPos hk
  next k hk := h.advance_suffixPos hk

/-- The positions of the reverse range of suffixes. -/
def rsuffixPos (sep : ℕ → UInt8) (cs : List Bytes) (k : ℕ) : SuffixPosition :=
  if k < cs.length then some (suffixPos sep cs (cs.length - 1 - k)) else none

/-- A step of a reverse suffix range. -/
theorem retreat_rsuffixPos (h : Cut P view [] sep cs) {k : ℕ} (hk : k < cs.length) :
    PathSuffixIterator.retreat P kIsDebug view (rsuffixPos sep cs k) = .ok (rsuffixPos sep cs (k + 1)) := by
  unfold rsuffixPos
  rw [if_pos hk]
  by_cases hlast : k + 1 = cs.length
  · rw [if_neg (by omega), show cs.length - 1 - k = 0 by omega, suffixPos_zero]
    unfold PathSuffixIterator.retreat
    simp [PathError.xdcheck]
  · have hstep : PathSuffixIterator.retreat P kIsDebug view _ = _ :=
      h.retreat_suffixPos (show cs.length - 1 - (k + 1) < cs.length by omega)
    rw [show cs.length - 1 - (k + 1) + 1 = cs.length - 1 - k by omega] at hstep
    rw [if_pos (by omega), hstep]

/-- **The suffixes in reverse order.** Making the range moves its first iterator once. -/
theorem indexed_rsuffixes (h : Cut P view [] sep cs) :
    ∃ r, PathSuffixIterator.rsuffixes P kIsDebug view = .ok r ∧ r.end_ = none ∧
      r.prev = PathSuffixIterator.advance P kIsDebug view ∧
      r.Indexed cs.length (rsuffixPos sep cs) (fun k => ⟨.of (suffixAt sep cs (cs.length - 1 - k))⟩) := by
  have hfirst : PathSuffixIterator.retreat P kIsDebug view (some view.length) = .ok (rsuffixPos sep cs 0) := by
    by_cases hn : cs = []
    · subst hn
      rw [← h.suffixPos_end, List.length_nil, suffixPos_zero]
      unfold PathSuffixIterator.retreat
      simp [PathError.xdcheck, rsuffixPos]
    · have hpos := List.length_pos_iff.2 hn
      have hstep : PathSuffixIterator.retreat P kIsDebug view _ = _ :=
        h.retreat_suffixPos (show cs.length - 1 < cs.length by omega)
      rw [show cs.length - 1 + 1 = cs.length by omega, h.suffixPos_end] at hstep
      rw [hstep, rsuffixPos, if_pos hpos, Nat.sub_zero]
  unfold PathSuffixIterator.rsuffixes
  rw [hfirst]
  refine ⟨_, rfl, rfl, rfl, ?_⟩
  exact {
    begin_eq := rfl
    end_eq := (if_neg (lt_irrefl _)).symm
    pos_ne := fun k hk => by
      unfold rsuffixPos
      rw [if_pos hk, if_neg (lt_irrefl _)]
      exact Option.some_ne_none _
    deref := fun k hk => by
      unfold rsuffixPos
      rw [if_pos hk]
      exact h.piece_suffixPos (by omega)
    next := fun k hk => h.retreat_rsuffixPos hk }

end Cut

/-! ### Components -/

/-- The iterator at the `k`-th component. -/
def componentAt (front : Bytes) (sep : ℕ → UInt8) (cs : List Bytes) (k : ℕ) : ComponentIterator :=
  ⟨(frontAt front sep cs k).length, (prefixAt front sep cs (k + 1)).length⟩

/-- The positions of `components()`. -/
def componentPos (view front : Bytes) (sep : ℕ → UInt8) (cs : List Bytes) (k : ℕ) : ComponentIterator :=
  if k < cs.length then componentAt front sep cs k else .atEnd view

/-- The positions of `rcomponents()`. -/
def rcomponentPos (front : Bytes) (sep : ℕ → UInt8) (cs : List Bytes) (k : ℕ) : ComponentIterator :=
  if k < cs.length then componentAt front sep cs (cs.length - 1 - k) else .rend front.length

namespace Cut

theorem length_front_lt (h : Cut P view front sep cs) {k : ℕ} (hk : k < cs.length) :
    front.length < (prefixAt front sep cs (k + 1)).length := by
  have hgrow := h.length_prefixAt_lt (show 0 < k + 1 by omega) hk
  rwa [prefixAt_zero] at hgrow

/-- The piece of a component iterator is the component. -/
theorem piece_componentAt (h : Cut P view front sep cs) {k : ℕ} (hk : k < cs.length) :
    (componentAt front sep cs k).piece view = cs[k] := by
  obtain ⟨post, heq, -⟩ := h.exists_append hk
  unfold componentAt ComponentIterator.piece
  rw [length_prefixAt_succ hk, Nat.add_sub_cancel_left, heq, List.drop_left, List.take_left]

/-- `advance()` moves to the next component, and behind the last one to the end. -/
theorem advance_componentAt (h : Cut P view front sep cs) {k : ℕ} (hk : k < cs.length) :
    ComponentIterator.advanceChecked P kIsDebug view (componentAt front sep cs k) =
      .ok (componentPos view front sep cs (k + 1)) := by
  have hstart : (componentAt front sep cs k).start_ ≠ view.length := Nat.ne_of_lt (h.length_frontAt_lt hk)
  have hend := h.length_view
  unfold ComponentIterator.advanceChecked
  simp only [PathError.xdcheck, hstart, ne_eq, not_false_eq_true, decide_true, Bool.not_true, Bool.and_false,
    Bool.false_eq_true, if_false, ok_bind, pure_eq_ok, Except.ok.injEq]
  unfold ComponentIterator.advance componentPos componentAt
  by_cases hlast : k + 1 = cs.length
  · rw [hlast, if_neg (lt_irrefl _), hend, if_pos rfl]
    rfl
  · have hk' : k + 1 < cs.length := by omega
    have hlt := h.length_prefixAt_lt hk' (le_refl _)
    have hscan := h.scanSeparator_frontAt hk'
    have hfront : (frontAt front sep cs (k + 1)).length = (prefixAt front sep cs (k + 1)).length + 1 := by
      rw [length_frontAt, if_neg (by omega)]
    have hne : (prefixAt front sep cs (k + 1)).length ≠ view.length := by omega
    rw [hfront] at hscan
    rw [if_pos hk', hfront]
    simp only [hne, if_false, hscan]

/-- `retreat()` moves to the component before, and in front of the first one to the reverse
end. -/
theorem retreat_componentAt (h : Cut P view front sep cs) {k : ℕ} (hk : k < cs.length) :
    ComponentIterator.retreatChecked P kIsDebug view front.length (componentAt front sep cs k) =
      .ok (if k = 0 then .rend front.length else componentAt front sep cs (k - 1)) := by
  have hlt := h.length_front_lt hk
  have hne : (componentAt front sep cs k).end_ ≠ front.length := Nat.ne_of_gt hlt
  unfold ComponentIterator.retreatChecked
  simp only [PathError.xdcheck, hne, ne_eq, not_false_eq_true, decide_true, Bool.not_true, Bool.and_false,
    Bool.false_eq_true, if_false, ok_bind, pure_eq_ok, Except.ok.injEq]
  unfold ComponentIterator.retreat componentAt
  by_cases h0 : k = 0
  · subst h0
    simp only [frontAt_zero, if_true]
    rfl
  · obtain ⟨j, rfl⟩ : ∃ j, k = j + 1 := ⟨k - 1, by omega⟩
    have hgrow := h.length_front_lt (show j < cs.length by omega)
    have hscan := h.scanBack_prefixAt (show j < cs.length by omega)
    have hstart : (frontAt front sep cs (j + 1)).length = (prefixAt front sep cs (j + 1)).length + 1 := by
      rw [length_frontAt, if_neg (by omega)]
    rw [if_neg (by simp only; omega), if_neg h0]
    simp only [hstart, Nat.add_sub_cancel, hscan]

/-- **The components.** -/
theorem indexed_components (h : Cut P view front sep cs) :
    (ComponentIterator.components P kIsDebug view front.length).Indexed cs.length (componentPos view front sep cs)
      (fun k => cs.getD k []) where
  begin_eq := by
    unfold componentPos
    by_cases hn : 0 < cs.length
    · have hscan := h.scanSeparator_frontAt hn
      rw [frontAt_zero] at hscan
      rw [if_pos hn, componentAt, frontAt_zero, ← hscan]
      rfl
    · have hcs : cs = [] := List.length_eq_zero_iff.1 (by omega)
      have hview : view = front := by rw [h.eq, hcs, joinBy_nil, List.append_nil]
      rw [if_neg hn, hview]
      simp [ComponentIterator.components, ComponentIterator.begin_, scanSeparator_eq, ComponentIterator.atEnd]
  end_eq := (if_neg (lt_irrefl _)).symm
  pos_ne k hk := by
    have hlt := h.length_frontAt_lt hk
    unfold componentPos
    rw [if_pos hk, if_neg (lt_irrefl _)]
    intro heq
    have := congrArg ComponentIterator.start_ heq
    simp only [componentAt, ComponentIterator.atEnd] at this
    omega
  deref k hk := by
    unfold componentPos
    rw [if_pos hk, List.getD_eq_getElem?_getD, List.getElem?_eq_getElem hk, Option.getD_some, ← h.piece_componentAt hk]
    rfl
  next k hk := by
    have hstep : ComponentIterator.advanceChecked P kIsDebug view _ = _ := h.advance_componentAt hk
    unfold componentPos at hstep ⊢
    rw [if_pos hk]
    exact hstep

/-- **The components in reverse order.** -/
theorem indexed_rcomponents (h : Cut P view front sep cs) :
    (ComponentIterator.rcomponents P kIsDebug view front.length).Indexed cs.length (rcomponentPos front sep cs)
      (fun k => cs.getD (cs.length - 1 - k) []) where
  begin_eq := by
    unfold rcomponentPos
    by_cases hn : 0 < cs.length
    · have hscan := h.scanBack_prefixAt (show cs.length - 1 < cs.length by omega)
      rw [show cs.length - 1 + 1 = cs.length by omega, h.length_view] at hscan
      rw [if_pos hn, componentAt, Nat.sub_zero, ← hscan, show cs.length - 1 + 1 = cs.length by omega, h.length_view]
      rfl
    · have hcs : cs = [] := List.length_eq_zero_iff.1 (by omega)
      have hview : view = front := by rw [h.eq, hcs, joinBy_nil, List.append_nil]
      rw [if_neg hn, hview]
      simp [ComponentIterator.rcomponents, ComponentIterator.rbegin, scanBack_eq, ComponentIterator.rend]
  end_eq := (if_neg (lt_irrefl _)).symm
  pos_ne k hk := by
    have hlt := h.length_front_lt (show cs.length - 1 - k < cs.length by omega)
    unfold rcomponentPos
    rw [if_pos hk, if_neg (lt_irrefl _)]
    intro heq
    have := congrArg ComponentIterator.end_ heq
    simp only [componentAt, ComponentIterator.rend] at this
    omega
  deref k hk := by
    have hk' : cs.length - 1 - k < cs.length := by omega
    unfold rcomponentPos
    rw [if_pos hk, List.getD_eq_getElem?_getD, List.getElem?_eq_getElem hk', Option.getD_some, ← h.piece_componentAt hk']
    rfl
  next k hk := by
    have hstep : ComponentIterator.retreatChecked P kIsDebug view _ _ = _ :=
      h.retreat_componentAt (show cs.length - 1 - k < cs.length by omega)
    unfold rcomponentPos
    rw [if_pos hk]
    refine hstep.trans ?_
    by_cases hlast : k + 1 = cs.length
    · rw [if_pos (by omega), if_neg (by omega)]
    · rw [if_neg (by omega), if_pos (by omega), show cs.length - 1 - k - 1 = cs.length - 1 - (k + 1) by omega]

/-- **A step back from the end** starts one byte too early: what it leaves is shorter than
the last component. -/
theorem retreat_atEnd_short (h : Cut P view front sep cs) (hn : 0 < cs.length) {it : ComponentIterator}
    (hit : ComponentIterator.retreatChecked P kIsDebug view front.length (.atEnd view) = .ok it) :
    it.piece view ≠ cs[cs.length - 1] := by
  have hk : cs.length - 1 < cs.length := by omega
  have hc := h.getElem_isComponent hk
  have hpos := List.length_pos_iff.2 hc.ne_nil
  have hfront := h.length_front_lt hk
  obtain ⟨post, heq, -, hnil⟩ := h.exists_append hk
  obtain rfl : post = [] := hnil.2 (by omega)
  have hview : view.length = (frontAt front sep cs (cs.length - 1)).length + cs[cs.length - 1].length := by
    conv_lhs => rw [heq]
    rw [List.append_nil, List.length_append]
  rw [show cs.length - 1 + 1 = cs.length by omega, h.length_view] at hfront
  -- the scan goes back over the component without its last byte
  have hscan : ComponentIterator.scanBack P view front.length (view.length - 1) =
      (frontAt front sep cs (cs.length - 1)).length := by
    have hcut : view = frontAt front sep cs (cs.length - 1) ++
        (cs[cs.length - 1].take (cs[cs.length - 1].length - 1) ++ cs[cs.length - 1].drop (cs[cs.length - 1].length - 1)) := by
      rw [List.take_append_drop]
      rwa [List.append_nil] at heq
    have hback := scanBack_append _ (cs[cs.length - 1].take (cs[cs.length - 1].length - 1))
      (cs[cs.length - 1].drop (cs[cs.length - 1].length - 1)) (fun y hy => hc.no_sep y (List.mem_of_mem_take hy))
      (h.frontAt_cases (cs.length - 1))
    rw [← hcut, List.length_take] at hback
    rw [← hback]
    congr 1
    omega
  unfold ComponentIterator.retreatChecked ComponentIterator.retreat ComponentIterator.atEnd at hit
  have hne : view.length ≠ front.length := by omega
  simp only [PathError.xdcheck, hne, ne_eq, not_false_eq_true, decide_true, Bool.not_true, Bool.and_false,
    Bool.false_eq_true, if_false, ok_bind, pure_eq_ok, Except.ok.injEq, hscan] at hit
  subst hit
  intro hpiece
  have hlen := congrArg List.length hpiece
  unfold ComponentIterator.piece at hlen
  simp only [List.length_take] at hlen
  omega

/-- **A step back from the reverse end** starts one byte too late: what it leaves is
shorter than the first component. -/
theorem advance_rend_short (h : Cut P view front sep cs) (hn : 0 < cs.length) {it : ComponentIterator}
    (hit : ComponentIterator.advanceChecked P kIsDebug view (.rend front.length) = .ok it) :
    it.piece view ≠ cs[0] := by
  have hpos := List.length_pos_iff.2 (h.getElem_isComponent hn).ne_nil
  have hfirst := @length_prefixAt_succ front sep cs 0 hn
  have hlt := h.length_frontAt_lt hn
  have hscan := h.scanSeparator_prefixAt hn
  rw [frontAt_zero] at hfirst hlt
  rw [prefixAt_zero] at hscan
  have hne : front.length ≠ view.length := by omega
  unfold ComponentIterator.advanceChecked ComponentIterator.advance ComponentIterator.rend at hit
  simp only [PathError.xdcheck, hne, ne_eq, not_false_eq_true, decide_true, Bool.not_true, Bool.and_false,
    Bool.false_eq_true, if_false, ok_bind, pure_eq_ok, Except.ok.injEq, hscan] at hit
  subst hit
  intro hpiece
  have hlen := congrArg List.length hpiece
  unfold ComponentIterator.piece at hlen
  simp only [List.length_take] at hlen
  omega

end Cut

end EdenCommon
