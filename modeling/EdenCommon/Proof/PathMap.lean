import EdenCommon.Lib.Run
import EdenCommon.Spec.PathMap

/-!
# `PathMap` is a partial function of the folded key

The comparison of keys is the order of the folded keys (`isPathPieceLess_iff`), so the
vector is sorted by them and `find` is a search. Every operation keeps the vector
sorted (`sorted_entriesAfter`) and does what `Contents.step` says (`entriesAfter_stores`).

* `findIn_cases`: what the binary search finds in a sorted vector, and where it stops if the
  key is not there. All the operations begin with it.
* `sorted_entriesAfter`: an insertion at that place, an erasure and an assignment keep the
  vector sorted.
* `entriesAfter_stores`: the vector then stores the contents that the same operation makes
  of the contents before.
-/

namespace EdenCommon

open Lib

variable {K V : Type} [PathPiece K] {P : Platform} {cs : CaseSensitivity} {entries : List (K × V)}

/-! ### The order of keys -/

/-- Comparing lexicographically is comparing the lists of what the comparison sees. -/
theorem lexicographicalCompare_iff {α β : Type} [LinearOrder β] {less : α → α → Bool} {f : α → β}
    (h : ∀ a b, less a b = true ↔ f a < f b) :
    ∀ l r : List α, lexicographicalCompare less l r = true ↔ l.map f < r.map f := by
  intro l
  induction l with
  | nil => intro r; cases r <;> simp [lexicographicalCompare]
  | cons a l ih =>
    intro r
    cases r with
    | nil => simp [lexicographicalCompare]
    | cons b r =>
      unfold lexicographicalCompare
      simp only [List.map_cons, List.cons_lt_cons_iff, h]
      rcases lt_trichotomy (f a) (f b) with hlt | heq | hgt
      · simp [hlt]
      · simp [heq, ih]
      · simp [hgt, hgt.not_gt, hgt.ne']

theorem stringLess_iff (cs : CaseSensitivity) (l r : Bytes) :
    stringLess cs l r = true ↔ l.map (foldChar cs) < r.map (foldChar cs) := by
  cases cs with
  | sensitive =>
    refine lexicographicalCompare_iff (fun a b => ?_) l r
    simp [foldChar, UInt8.lt_iff_toNat_lt]
  | insensitive =>
    refine lexicographicalCompare_iff (fun a b => ?_) l r
    simp [foldChar, asciiLessThanCaseInsensitive]

/-- **The order of keys** is the order of the folded keys. -/
theorem isPathPieceLess_iff (left right : K) :
    isPathPieceLess P cs left right = true ↔ foldKey P cs left < foldKey P cs right := by
  unfold isPathPieceLess foldKey
  split
  · exact lexicographicalCompare_iff (stringLess_iff cs) _ _
  · rw [stringLess_iff]; simp [List.cons_lt_cons_iff]

/-- The rank of an entry. -/
def rank (P : Platform) (cs : CaseSensitivity) (e : K × V) : List (List ℤ) := foldKey P cs e.1

theorem pairwise_iff_sortedBy :
    (entries.Pairwise fun a b => isPathPieceLess P cs a.1 b.1) ↔ SortedBy (rank P cs) entries := by
  unfold SortedBy rank
  simp only [isPathPieceLess_iff]

theorem lowerBound_eq (key : K) :
    EdenCommon.lowerBound P cs entries key = Lib.lowerBound (rank P cs) entries (foldKey P cs key) := by
  unfold EdenCommon.lowerBound Lib.lowerBound
  congr 1
  funext e
  rw [Bool.eq_iff_iff, Bool.not_eq_true', Bool.not_eq_true', ← Bool.not_eq_true, isPathPieceLess_iff,
    decide_eq_false_iff_not]
  rfl

theorem findIn_eq (key : K) : findIn P cs entries key = search (rank P cs) entries (foldKey P cs key) := by
  unfold findIn search
  rw [lowerBound_eq]
  cases entries[Lib.lowerBound (rank P cs) entries (foldKey P cs key)]? with
  | none => rfl
  | some e =>
    have hiff : isPathPieceLess P cs key e.1 = true ↔ foldKey P cs key < rank P cs e := isPathPieceLess_iff key e.1
    by_cases hlt : foldKey P cs key < rank P cs e
    · simp only [hiff.2 hlt, hlt, if_true]
    · simp only [hlt, if_false, if_neg (fun h => hlt (hiff.1 h))]

/-! ### The operations -/

theorem distinct_of_sortedBy (h : SortedBy (rank P cs) entries) : Distinct (rank P cs) entries :=
  fun _ _ _ _ ha hb hr => h.getElem?_inj ha hb hr

/-- What `find` finds in a sorted vector with contents `c`. -/
theorem findIn_cases (h : SortedBy (rank P cs) entries) {c : Contents K V}
    (hc : Stores (rank P cs) (live entries ∅) c) (key : K) :
    (∃ i e, findIn P cs entries key = some i ∧ entries[i]? = some e ∧ rank P cs e = foldKey P cs key ∧
      c (foldKey P cs key) = some e) ∨
    (findIn P cs entries key = none ∧ (∀ a ∈ entries, rank P cs a ≠ foldKey P cs key) ∧
      c (foldKey P cs key) = none) := by
  rw [findIn_eq]
  rcases hs : search (rank P cs) entries (foldKey P cs key) with - | i
  · right
    have hnone := (search_eq_none h).1 hs
    refine ⟨rfl, hnone, hc.eq_none_iff.2 fun a ha => hnone a (mem_live_empty.1 ha)⟩
  · left
    obtain ⟨e, he, hr⟩ := (search_eq_some h).1 hs
    exact ⟨i, e, rfl, he, hr, (hc _ _).2 ⟨mem_live_empty.2 (List.mem_of_getElem? he), hr⟩⟩

/-- **Every operation keeps the vector sorted.** -/
theorem sorted_entriesAfter (h : SortedBy (rank P cs) entries) (op : MapOp K V) :
    SortedBy (rank P cs) (entriesAfter P cs entries op) := by
  have hins : ∀ key value, findIn P cs entries key = none →
      SortedBy (rank P cs) (entries.insertIdx (EdenCommon.lowerBound P cs entries key) (key, value)) := by
    intro key value hn
    rw [findIn_eq] at hn
    rw [lowerBound_eq]
    exact @sortedBy_insertIdx _ _ _ _ _ h (key, value) ((search_eq_none h).1 hn)
  cases op with
  | find key => exact h
  | erase key =>
    simp only [entriesAfter]
    split
    · exact h.sublist (List.eraseIdx_sublist _ _)
    · exact h
  | emplace key value =>
    simp only [entriesAfter]
    split
    · exact h
    · exact hins key value ‹_›
  | insertOrAssign key value =>
    simp only [entriesAfter]
    split
    · rename_i i hi
      cases he : entries[i]? with
      | none => exact h
      | some e => exact h.set he rfl
    · exact hins key value ‹_›

/-- **The operations mean what `Contents.step` says.** -/
theorem entriesAfter_stores (h : SortedBy (rank P cs) entries) {c : Contents K V}
    (hc : Stores (rank P cs) (live entries ∅) c) (op : MapOp K V) :
    Stores (rank P cs) (live (entriesAfter P cs entries op) ∅) (c.step P cs op).1 ∧
      answer P cs entries op = (c.step P cs op).2 := by
  have hd := distinct_of_sortedBy h
  have hle : ∀ key : K, EdenCommon.lowerBound P cs entries key ≤ entries.length := fun key => List.findIdx_le_length
  cases op with
  | find key =>
    refine ⟨hc, ?_⟩
    rcases findIn_cases h hc key with ⟨i, e, hf, he, -, hk⟩ | ⟨hf, -, hk⟩
    · simp [answer, Contents.step, hf, he, hk]
    · simp [answer, Contents.step, hf, hk]
  | erase key =>
    simp only [entriesAfter, answer, Contents.step]
    rcases findIn_cases h hc key with ⟨i, e, hf, he, -, hk⟩ | ⟨hf, -, hk⟩
    · simp only [hf, hk, Option.isSome_some, if_true]
      rw [live_eraseIdx hd he]
      exact ⟨hc.erase hk, trivial⟩
    · simp only [hf, hk]
      exact ⟨hc, rfl⟩
  | emplace key value =>
    simp only [entriesAfter, answer, Contents.step]
    rcases findIn_cases h hc key with ⟨i, e, hf, he, -, hk⟩ | ⟨hf, -, hk⟩
    · simp only [hf, hk, he]
      exact ⟨hc, trivial⟩
    · simp only [hf, hk]
      rw [live_insertIdx (hle key)]
      exact ⟨@Stores.insert _ _ _ _ _ _ hc (key, value) hk, trivial⟩
  | insertOrAssign key value =>
    simp only [entriesAfter, answer, Contents.step]
    rcases findIn_cases h hc key with ⟨i, e, hf, he, hr, hk⟩ | ⟨hf, -, hk⟩
    · simp only [hf, hk, he, Option.elim_some, Option.map_some]
      rw [live_set hd he (Finset.notMem_empty i)]
      exact ⟨hc.replace hk hr, trivial⟩
    · simp only [hf, hk]
      rw [live_insertIdx (hle key)]
      exact ⟨@Stores.insert _ _ _ _ _ _ hc (key, value) hk, trivial⟩

/-! ### The map as a whole -/

/-- The map after an operation, and its answer. -/
def PathMap.step (m : PathMap P cs K V) (op : MapOp K V) : PathMap P cs K V × MapResult K V :=
  (⟨entriesAfter P cs m.entries op,
    pairwise_iff_sortedBy.2 (sorted_entriesAfter (pairwise_iff_sortedBy.1 m.sorted) op)⟩,
    answer P cs m.entries op)

/-- The contents of a map: for each folded key the entry that `find` finds. -/
def PathMap.contents (m : PathMap P cs K V) : Contents K V := fun k => m.entries.find? fun e => rank P cs e = k

end EdenCommon
