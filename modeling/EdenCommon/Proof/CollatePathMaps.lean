import EdenCommon.Proof.RawPathMap
import EdenCommon.Spec.CollatePathMaps

/-!
# `collatePathMaps` is the join of the two maps

The loops emplace the entries of the full outer join of the two vectors by the folded key,
in the order of the join (`collateBoth_eq`). The join is sorted, so every entry is emplaced
behind those there are and the vector ends as the join itself (`collatePathMaps_eq`).

* `collateLeft_eq`, `collateRight_eq`: when one map is exhausted, what is left of the other
  is inserted as it is.
* `insertAll_of_sortedBy`: a sorted vector is what inserting its entries one after another
  makes.
* `collatePathMaps_collates`: each class of keys has the entry that is made of those of the
  two maps, and no other key has one.
-/

namespace EdenCommon

open Lib

variable {K A B : Type} [PathPiece K] {P : Platform} {cs : CaseSensitivity} {fold : UInt8 → UInt8 → Bool}

/-- The entry that is emplaced for an element of the join. -/
def joinedEntry : Joined (K × A) (K × B) → K × (Option A × Option B)
  | .left a => (a.1, some a.2, none)
  | .right b => (b.1, none, some b.2)
  | .both a b => (a.1, some a.2, some b.2)

/-- A joined entry has the rank of its parts. -/
theorem rank_joinedEntry (j : Joined (K × A) (K × B)) :
    rank P cs (joinedEntry j) = j.rank (rank P cs) (rank P cs) := by
  cases j <;> rfl

/-- The entries that the loops emplace, in order. -/
def joinedEntries (P : Platform) (cs : CaseSensitivity) (as : List (K × A)) (bs : List (K × B)) :
    List (K × (Option A × Option B)) :=
  (outerJoin (rank P cs) (rank P cs) as bs).map joinedEntry

namespace RawPathMap

/-- Inserting entries one after another. -/
def insertAll {V : Type} (P : Platform) (m : RawPathMap K V) (entries : List (K × V)) : RawPathMap K V :=
  entries.foldl (fun m e => (m.insert P e).1) m

/-- What is left of the first map is inserted as it is. -/
theorem collateLeft_eq (result : RawPathMap K (Option A × Option B)) (as : List (K × A)) :
    collateLeft P result as = insertAll P result (joinedEntries P cs as []) := by
  induction as generalizing result with
  | nil => simp [collateLeft, insertAll, joinedEntries, outerJoin]
  | cons a as ih =>
    rw [collateLeft, ih]
    cases as <;> simp [insertAll, joinedEntries, outerJoin, joinedEntry, emplace, insert]

theorem collateRight_eq (result : RawPathMap K (Option A × Option B)) (bs : List (K × B)) :
    collateRight P result bs = insertAll P result (joinedEntries P cs [] bs) := by
  induction bs generalizing result with
  | nil => simp [collateRight, insertAll, joinedEntries, outerJoin]
  | cons b bs ih =>
    rw [collateRight, ih]
    simp [insertAll, joinedEntries, outerJoin, joinedEntry, emplace, insert]

/-- **The loops** insert the entries of the join. -/
theorem collateBoth_eq (hfold : FoldsAscii fold) (result : RawPathMap K (Option A × Option B)) (as : List (K × A))
    (bs : List (K × B)) :
    collateBoth fold P cs result as bs = insertAll P result (joinedEntries P cs as bs) := by
  induction as, bs using outerJoin.induct (rank P cs : K × A → _) (rank P cs : K × B → _) generalizing result with
  | case1 bs =>
    have hloop : collateBoth fold P cs result ([] : List (K × A)) bs = collateRight P result bs := by
      cases bs <;> simp [collateBoth, collateLeft]
    rw [hloop]
    exact collateRight_eq result bs
  | case2 as hne =>
    have hloop : collateBoth fold P cs result as ([] : List (K × B)) = collateLeft P result as := by
      cases as <;> simp [collateBoth, collateRight]
    rw [hloop]
    exact collateLeft_eq result as
  | case3 a as b bs heq ih =>
    have hequal : isPathPieceEqual fold P cs a.1 b.1 = true := (isPathPieceEqual_iff hfold a.1 b.1).2 heq
    rw [collateBoth, if_pos hequal, ih]
    simp only [joinedEntries]
    rw [outerJoin, if_pos heq]
    rfl
  | case4 a as b bs hne hlt ih =>
    have hequal : ¬ isPathPieceEqual fold P cs a.1 b.1 = true := fun h =>
      hne ((isPathPieceEqual_iff hfold a.1 b.1).1 h)
    have hless : isPathPieceLess P cs a.1 b.1 = true := (isPathPieceLess_iff a.1 b.1).2 hlt
    rw [collateBoth, if_neg hequal, if_pos hless, ih]
    simp only [joinedEntries]
    rw [outerJoin, if_neg hne, if_pos hlt]
    rfl
  | case5 a as b bs hne hlt ih =>
    have hequal : ¬ isPathPieceEqual fold P cs a.1 b.1 = true := fun h =>
      hne ((isPathPieceEqual_iff hfold a.1 b.1).1 h)
    have hless : ¬ isPathPieceLess P cs a.1 b.1 = true := fun h => hlt ((isPathPieceLess_iff a.1 b.1).1 h)
    rw [collateBoth, if_neg hequal, if_neg hless, ih]
    simp only [joinedEntries]
    rw [outerJoin, if_neg hne, if_neg hlt]
    rfl

/-- A sorted vector is what inserting its entries one after another makes. -/
theorem insertAll_of_sortedBy {V : Type} {entries : List (K × V)} (hs : SortedBy (rank P cs) entries) :
    insertAll P (.new cs) entries = ⟨entries, cs⟩ := by
  have h := refines_inserts P cs entries
  refine h.eq_of_refines (refines_firstEntries hs fun e => ?_)
  exact mem_iff_find?_of_sortedBy hs e

end RawPathMap

/-- The joined entries of two sorted lists are sorted. -/
theorem sortedBy_joinedEntries {as : List (K × A)} {bs : List (K × B)} (ha : SortedBy (rank P cs) as)
    (hb : SortedBy (rank P cs) bs) : SortedBy (rank P cs) (joinedEntries P cs as bs) := by
  unfold joinedEntries SortedBy
  rw [List.pairwise_map]
  simp only [rank_joinedEntry]
  exact sortedBy_outerJoin ha hb

theorem find?_joinedEntries_eq (as : List (K × A)) (bs : List (K × B)) (k : List (List ℤ)) :
    (joinedEntries P cs as bs).find? (fun e => rank P cs e = k) =
      ((outerJoin (rank P cs) (rank P cs) as bs).find? fun j => decide (j.rank (rank P cs) (rank P cs) = k)).map
        joinedEntry := by
  unfold joinedEntries
  rw [List.find?_map]
  have hcomp : ((fun e => decide (rank P cs e = k)) ∘ joinedEntry : Joined (K × A) (K × B) → Bool) =
      fun j => decide (j.rank (rank P cs) (rank P cs) = k) := by
    funext j
    simp only [Function.comp_apply, rank_joinedEntry]
  rw [hcomp]

/-- **A key** of the joined map has the values that it has in the two maps. -/
theorem find?_joinedEntries {as : List (K × A)} {bs : List (K × B)} (ha : SortedBy (rank P cs) as)
    (hb : SortedBy (rank P cs) bs) (k : List (List ℤ)) :
    (joinedEntries P cs as bs).find? (fun e => rank P cs e = k) =
      collatedEntry (as.find? fun e => rank P cs e = k) (bs.find? fun e => rank P cs e = k) := by
  have hjoin := find?_outerJoin (p := fun s => decide (s = k)) (fun s => decide_eq_true_iff) ha hb
  rw [find?_joinedEntries_eq, hjoin]
  cases as.find? (fun e => rank P cs e = k) <;> cases bs.find? (fun e => rank P cs e = k) <;> rfl

/-- **Collating** two maps of one case sensitivity gives a sorted map of it. Its entry for a
class of keys is made of those of the two maps: there is one if one of them has one, it holds
the values that they have, and it is spelled as in `a` if `a` has the key. -/
theorem collatePathMaps_collates (hfold : FoldsAscii fold) (a : PathMap P cs K A) (b : PathMap P cs K B) :
    ∃ m : PathMap P cs K (Option A × Option B), RawPathMap.collatePathMaps fold P a.raw b.raw = m.raw ∧
      ∀ k, m.contents k = collatedEntry (a.contents k) (b.contents k) := by
  have ha := pairwise_iff_sortedBy.1 a.sorted
  have hb := pairwise_iff_sortedBy.1 b.sorted
  have hs := sortedBy_joinedEntries ha hb
  refine ⟨⟨joinedEntries P cs a.entries b.entries, pairwise_iff_sortedBy.2 hs⟩, ?_, find?_joinedEntries ha hb⟩
  unfold RawPathMap.collatePathMaps PathMap.raw
  simp only [if_true]
  rw [RawPathMap.collateBoth_eq hfold, RawPathMap.insertAll_of_sortedBy hs]

/-- `"A"` and `"b"` of one map, `"a"` of the other: the common key is spelled as in the first. -/
theorem collatePathMaps_collates_letters :
    ∃ m : PathMap .posix .insensitive PathComponent (Option ℕ × Option Bool),
      RawPathMap.collatePathMaps (fun x y => decide (x = y ∨ SameLetter x y)) .posix
        ⟨[(⟨[0x41]⟩, 1), (⟨[0x62]⟩, 2)], .insensitive⟩ ⟨[(⟨[0x61]⟩, true)], .insensitive⟩ = m.raw ∧
      m.contents [[97]] = some (⟨[0x41]⟩, some 1, some true) ∧ m.contents [[98]] = some (⟨[0x62]⟩, some 2, none) := by
  have h := collatePathMaps_collates (fun x y => decide_eq_true_iff)
    (⟨[(⟨[0x41]⟩, 1), (⟨[0x62]⟩, 2)], by decide⟩ : PathMap .posix .insensitive PathComponent ℕ)
    (⟨[(⟨[0x61]⟩, true)], by decide⟩ : PathMap .posix .insensitive PathComponent Bool)
  obtain ⟨m, hm, hc⟩ := h
  exact ⟨m, hm, (hc _).trans (by decide), (hc _).trans (by decide)⟩

end EdenCommon
