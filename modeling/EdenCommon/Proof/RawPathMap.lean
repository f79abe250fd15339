import EdenCommon.Proof.PathCompare
import EdenCommon.Spec.RawPathMap

/-!
# The raw vector of `PathMap` is a map of classes of keys

`Refines` relates a vector to a map from classes of case-equivalent keys: the vector is
strictly sorted and its entries are those of the map. `Refines.locate` is what the one
search that every method makes can find; from it each method is one lemma.

* `maps_refine`: any program of inserts, emplaces, indexing, lookups, erasures, copies
  and swaps keeps every vector sorted and answers as the maps of classes do.
* `ofVector_eq_inserts`: the bulk constructor builds the map that inserting the entries in
  order builds.
-/

namespace EdenCommon

open Lib

variable {K V : Type} [PathPiece K] {P : Platform}

/-- The vector `m` is sorted by its own comparator and stores the map `s`. -/
structure Refines (P : Platform) (m : RawPathMap K V) (s : SpecMap K V) : Prop where
  compare_eq : m.compare_ = s.caseSensitive
  sorted : SortedBy (rank P m.compare_) m.vec
  stores : Stores (rank P m.compare_) (live m.vec ∅) s.contents

namespace Refines

variable {m : RawPathMap K V} {s : SpecMap K V}

theorem new (cs : CaseSensitivity) : Refines P (.new cs : RawPathMap K V) ⟨cs, fun _ => none⟩ := by
  refine ⟨rfl, List.Pairwise.nil, fun r e => ?_⟩
  simp [RawPathMap.new, mem_live_empty]

theorem lowerBound_eq (h : Refines P m s) (key : K) :
    m.lowerBound P key = Lib.lowerBound (rank P m.compare_) m.vec (foldKey P m.compare_ key) := by
  exact bisect_eq_lowerBound h.sorted fun e => isPathPieceLess_iff e.1 key

/-- **What a search finds**: the entry of the class of `key`, or the place where an entry
of this class belongs. -/
theorem locate (h : Refines P m s) (key : K) :
    (∃ e, m.isAt P (m.lowerBound P key) key = true ∧ m.vec[m.lowerBound P key]? = some e ∧
      rank P m.compare_ e = foldKey P m.compare_ key ∧ s.get P key = some e) ∨
    (m.isAt P (m.lowerBound P key) key = false ∧
      (∀ a ∈ m.vec, rank P m.compare_ a ≠ foldKey P m.compare_ key) ∧ s.get P key = none) := by
  have hat : m.isAt P (m.lowerBound P key) key = (findIn P m.compare_ m.vec key).isSome := by
    rw [findIn_eq, h.lowerBound_eq]
    unfold RawPathMap.isAt search
    cases m.vec[Lib.lowerBound (rank P m.compare_) m.vec (foldKey P m.compare_ key)]? with
    | none => rfl
    | some e =>
      have hiff : isPathPieceLess P m.compare_ key e.1 = true ↔
          foldKey P m.compare_ key < rank P m.compare_ e := isPathPieceLess_iff key e.1
      by_cases hlt : foldKey P m.compare_ key < rank P m.compare_ e
      · simp [hiff.2 hlt, hlt]
      · have hno : isPathPieceLess P m.compare_ key e.1 = false :=
          Bool.eq_false_iff.2 fun h' => hlt (hiff.1 h')
        simp [hno, hlt]
  have hget : s.get P key = s.contents (foldKey P m.compare_ key) := by
    unfold SpecMap.get; rw [h.compare_eq]
  rcases findIn_cases h.sorted h.stores key with ⟨i, e, hf, he, hr, hc⟩ | ⟨hf, hno, hc⟩
  · left
    have hi : m.lowerBound P key = i := by
      rw [h.lowerBound_eq]
      rw [findIn_eq] at hf
      unfold search at hf
      split at hf
      · split at hf
        · exact absurd hf (by simp)
        · exact Option.some.inj hf
      · exact absurd hf (by simp)
    exact ⟨e, by rw [hat, hf]; rfl, by rw [hi]; exact he, hr, by rw [hget]; exact hc⟩
  · right
    exact ⟨by rw [hat, hf]; rfl, hno, by rw [hget]; exact hc⟩

theorem lowerBound_le (h : Refines P m s) (key : K) : m.lowerBound P key ≤ m.vec.length := by
  rw [h.lowerBound_eq]
  exact Lib.lowerBound_le

/-- The entry that an insertion puts at its place. -/
theorem getElem?_insertIdx (h : Refines P m s) (val : K × V) :
    (m.vec.insertIdx (m.lowerBound P val.1) val)[m.lowerBound P val.1]? = some val := by
  rw [List.getElem?_insertIdx_self, if_pos (h.lowerBound_le val.1)]

/-- **Inserting** an entry of a class that has none. -/
theorem insertIdx (h : Refines P m s) {val : K × V} (hno : s.get P val.1 = none) :
    Refines P { m with vec := m.vec.insertIdx (m.lowerBound P val.1) val } (s.put P val.1 (some val)) := by
  have hfree : ∀ a ∈ m.vec, rank P m.compare_ a ≠ rank P m.compare_ val := by
    rcases h.locate val.1 with ⟨e, -, -, -, hg⟩ | ⟨-, hfree, -⟩
    · rw [hno] at hg; exact absurd hg (by simp)
    · exact hfree
  refine ⟨h.compare_eq, ?_, ?_⟩
  · change SortedBy (rank P m.compare_) (m.vec.insertIdx (m.lowerBound P val.1) val)
    rw [h.lowerBound_eq]
    exact sortedBy_insertIdx h.sorted hfree
  · change Stores (rank P m.compare_) (live (m.vec.insertIdx (m.lowerBound P val.1) val) ∅) _
    rw [live_insertIdx (h.lowerBound_le val.1)]
    unfold SpecMap.get at hno
    unfold SpecMap.put
    rw [← h.compare_eq] at hno ⊢
    exact h.stores.insert hno

/-- `insert` leaves a class that has an entry alone, else it adds the entry. -/
theorem insert (h : Refines P m s) (val : K × V) :
    (∀ e, s.get P val.1 = some e →
      (m.insert P val).1 = m ∧
        MapAnswer.placed m.vec[(m.insert P val).2.1]? (m.insert P val).2.2 = .placed (some e) false) ∧
    (s.get P val.1 = none →
      Refines P (m.insert P val).1 (s.put P val.1 (some val)) ∧
        (m.insert P val).1.vec[(m.insert P val).2.1]? = some val ∧ (m.insert P val).2.2 = true) := by
  unfold RawPathMap.insert
  rcases h.locate val.1 with ⟨e, hat, he, -, hg⟩ | ⟨hat, -, hg⟩
  · simp only [hat, if_true, hg, he]
    simp
  · simp only [hat, Bool.false_eq_true, if_false, hg]
    simp [h.insertIdx hg, h.getElem?_insertIdx val]

/-- **Assigning** through a reference to an entry. -/
theorem assign (h : Refines P m s) {key : K} {iter : ℕ} {e : K × V} (he : m.vec[iter]? = some e)
    (hr : rank P m.compare_ e = foldKey P m.compare_ key) (hg : s.get P key = some e) (w : Option V) :
    Refines P (m.assign iter w) (s.write P key w) := by
  cases w with
  | none => exact h
  | some v =>
    have hset : m.vec.modify iter (fun e => (e.1, v)) = m.vec.set iter (e.1, v) := by
      obtain ⟨hi, rfl⟩ := List.getElem?_eq_some_iff.1 he
      rw [List.modify_eq_set_getElem?]
      simp [he]
    have hg' := hg
    unfold SpecMap.get at hg'
    rw [← h.compare_eq] at hg'
    refine ⟨h.compare_eq, ?_, ?_⟩
    · change SortedBy (rank P m.compare_) (m.vec.modify iter fun e => (e.1, v))
      rw [hset]
      exact h.sorted.set he rfl
    · change Stores (rank P m.compare_) (live (m.vec.modify iter fun e => (e.1, v)) ∅) _
      rw [hset, live_set (distinct_of_sortedBy h.sorted) he (Finset.notMem_empty iter)]
      unfold SpecMap.write SpecMap.put
      rw [hg, ← h.compare_eq]
      exact h.stores.replace hg' hr

/-- **Erasing** the entry of a class. -/
theorem erase (h : Refines P m s) (key : K) :
    Refines P (m.erase P key).1 (s.put P key none) ∧
      (m.erase P key).2 = if (s.get P key).isSome then 1 else 0 := by
  unfold RawPathMap.erase RawPathMap.find
  rcases h.locate key with ⟨e, hat, he, -, hg⟩ | ⟨hat, -, hg⟩
  · simp only [hat, hg, if_true, Option.isSome_some, and_true]
    have hg' := hg
    unfold SpecMap.get at hg'
    refine ⟨h.compare_eq, h.sorted.sublist (List.eraseIdx_sublist _ _), ?_⟩
    change Stores (rank P m.compare_) (live (m.vec.eraseIdx (m.lowerBound P key)) ∅) _
    rw [live_eraseIdx (distinct_of_sortedBy h.sorted) he]
    exact h.stores.erase hg'
  · simp only [hat, hg, Bool.false_eq_true, if_false, Option.isSome_none, and_true]
    have hput : s.put P key none = s := by
      unfold SpecMap.get at hg
      unfold SpecMap.put
      rw [← hg, Function.update_eq_self]
    rw [hput]
    exact h

theorem find_eq (h : Refines P m s) (key : K) :
    (∃ e, m.find P key = some (m.lowerBound P key) ∧ m.vec[m.lowerBound P key]? = some e ∧
      rank P m.compare_ e = foldKey P m.compare_ key ∧ s.get P key = some e) ∨
    (m.find P key = none ∧ s.get P key = none) := by
  unfold RawPathMap.find
  rcases h.locate key with ⟨e, hat, he, hr, hg⟩ | ⟨hat, -, hg⟩
  · left; exact ⟨e, if_pos hat, he, hr, hg⟩
  · right; exact ⟨if_neg (by rw [hat]; simp), hg⟩

end Refines

/-! ### Programs -/

theorem refines_update {maps : RawMaps K V} {specs : SpecMaps K V} (h : ∀ i, Refines P (maps i) (specs i))
    (j : ℕ) {m : RawPathMap K V} {s : SpecMap K V} (hj : Refines P m s) :
    ∀ i, Refines P (Function.update maps j m i) (Function.update specs j s i) := by
  intro i
  by_cases hi : i = j
  · subst hi
    rw [Function.update_self, Function.update_self]
    exact hj
  · rw [Function.update_of_ne hi, Function.update_of_ne hi]
    exact h i

/-- What `insert` and `emplace` do, with the entry `val` that they would add. -/
theorem refines_insertNew {maps : RawMaps K V} {specs : SpecMaps K V}
    (h : ∀ i, Refines P (maps i) (specs i)) (i : ℕ) (val : K × V) :
    let r := (maps i).insert P val
    (∀ j, Refines P (Function.update maps i r.1 j) ((SpecMaps.step.insertNew P specs i val).1 j)) ∧
      MapAnswer.placed r.1.vec[r.2.1]? r.2.2 = (SpecMaps.step.insertNew P specs i val).2 := by
  have hins := (h i).insert val
  unfold SpecMaps.step.insertNew
  cases hg : (specs i).get P val.1 with
  | some e =>
    obtain ⟨hm, he⟩ := hins.1 e hg
    simp only [hm, he, and_true, Function.update_eq_self]
    exact h
  | none =>
    obtain ⟨hm, he⟩ := hins.2 hg
    exact ⟨refines_update h i hm, by rw [he.1, he.2]⟩

section Programs

variable [Inhabited V]

/-- **One statement.** It keeps every vector in step with its map and answers alike. -/
theorem refines_step {maps : RawMaps K V} {specs : SpecMaps K V} (call : MapCall K V)
    (h : ∀ i, Refines P (maps i) (specs i)) :
    (∀ i, Refines P ((maps.step P call).1 i) ((specs.step P call).1 i)) ∧
      (maps.step P call).2 = (specs.step P call).2 := by
  cases call with
  | insert i val => exact refines_insertNew h i val
  | emplace i key value => exact refines_insertNew h i (key, value)
  | index i key w =>
    simp only [RawMaps.step, SpecMaps.step, RawPathMap.index]
    rcases (h i).locate key with ⟨e, hat, he, hr, hg⟩ | ⟨hat, -, hg⟩
    · simp only [hat, if_true, hg, he, Option.map_some, and_true]
      exact refines_update h i ((h i).assign he hr hg w)
    · have hins := @Refines.insertIdx _ _ _ _ _ _ (h i) (key, default) hg
      have hnew := (h i).getElem?_insertIdx (key, default)
      simp only [hat, Bool.false_eq_true, if_false, hg, hnew, Option.map_some, and_true]
      refine refines_update h i ?_
      have hget : ((specs i).put P key (some (key, default))).get P key = some (key, default) :=
        Function.update_self _ _ _
      have hset := hins.assign hnew rfl hget w
      -- the write goes to the entry that the statement has just created
      have hput : ((specs i).put P key (some (key, default))).write P key w =
          (specs i).put P key (some (key, w.getD default)) := by
        cases w with
        | none => rfl
        | some v =>
          unfold SpecMap.write
          rw [hget]
          unfold SpecMap.put
          simp only [Option.map_some, Option.getD_some, Function.update_idem]
      rw [← hput]
      exact hset
  | at_ i key w =>
    simp only [RawMaps.step, SpecMaps.step, RawPathMap.at_]
    rcases (h i).find_eq key with ⟨e, hf, he, hr, hg⟩ | ⟨hf, hg⟩
    · simp only [hf, hg, he, Option.map_some, and_true]
      exact refines_update h i ((h i).assign he hr hg w)
    · simp only [hf, hg, and_true]
      exact h
  | find i key w =>
    simp only [RawMaps.step, SpecMaps.step]
    rcases (h i).find_eq key with ⟨e, hf, he, hr, hg⟩ | ⟨hf, hg⟩
    · simp only [hf, hg, he, and_true]
      exact refines_update h i ((h i).assign he hr hg w)
    · simp only [hf, hg, and_true]
      exact h
  | count i key =>
    refine ⟨h, ?_⟩
    simp only [RawMaps.step, SpecMaps.step, RawPathMap.count]
    rcases (h i).find_eq key with ⟨e, hf, -, -, hg⟩ | ⟨hf, hg⟩
    · rw [hf, hg]; rfl
    · rw [hf, hg]; rfl
  | erase i key =>
    obtain ⟨h1, h2⟩ := (h i).erase key
    exact ⟨refines_update h i h1, by simp only [RawMaps.step, SpecMaps.step, h2]⟩
  | copy i j => exact ⟨refines_update h j (h i), rfl⟩
  | swap i j => exact ⟨refines_update (refines_update h i (h j)) j (h i), rfl⟩

/-- **Every vector is a map of classes of keys.** For maps that start empty, each with
either case sensitivity, and for every program over them: all vectors are strictly sorted
by their comparators, they hold what the maps of classes hold, and every statement
answers as it does on those. -/
theorem maps_refine (P : Platform) (cs : ℕ → CaseSensitivity) (program : List (MapCall K V)) :
    let raw := exec (RawMaps.step P) (fun i => RawPathMap.new (cs i) : RawMaps K V) program
    let spec := exec (SpecMaps.step P) (fun i => ⟨cs i, fun _ => none⟩ : SpecMaps K V) program
    (∀ i, (raw.1 i).vec.Pairwise fun a b => isPathPieceLess P (raw.1 i).compare_ a.1 b.1) ∧
      (∀ i, (raw.1 i).compare_ = (spec.1 i).caseSensitive) ∧
      (∀ i e, e ∈ (raw.1 i).vec ↔ (spec.1 i).get P e.1 = some e) ∧ raw.2 = spec.2 := by
  intro raw spec
  obtain ⟨href, hans⟩ := exec_sim (R := fun (maps : RawMaps K V) (specs : SpecMaps K V) => ∀ i, Refines P (maps i) (specs i))
    (fun maps specs call h => refines_step call h) program _ _ (fun i => Refines.new (cs i))
  refine ⟨fun i => pairwise_iff_sortedBy.2 (href i).sorted, fun i => (href i).compare_eq, ?_, hans⟩
  intro i e
  have hst := (href i).stores (foldKey P (spec.1 i).caseSensitive e.1) e
  unfold SpecMap.get
  rw [hst, mem_live_empty, and_iff_left]
  unfold rank
  rw [(href i).compare_eq]

end Programs

/-! ### The bulk constructor -/

/-- The map that holds the first entry of each class of `entries`. -/
def firstEntries (P : Platform) (cs : CaseSensitivity) (entries : List (K × V)) : SpecMap K V :=
  ⟨cs, fun k => entries.find? fun e => rank P cs e = k⟩

theorem Refines.eq_of_refines {m m' : RawPathMap K V} {s : SpecMap K V} (h : Refines P m s) (h' : Refines P m' s) :
    m = m' := by
  have hcs : m.compare_ = m'.compare_ := h.compare_eq.trans h'.compare_eq.symm
  have hvec : m.vec = m'.vec := by
    refine h.sorted.ext (hcs ▸ h'.sorted) fun e => ?_
    have h1 := h.stores (rank P m.compare_ e) e
    have h2 := h'.stores (rank P m'.compare_ e) e
    rw [mem_live_empty, and_iff_left rfl] at h1 h2
    rw [← h1, ← h2, hcs]
  cases m with
  | mk vec compare_ => cases m' with
    | mk vec' compare_' => simp only at hcs hvec; rw [hcs, hvec]

/-- A sorted vector whose elements are the first entries of their classes. -/
theorem refines_firstEntries {cs : CaseSensitivity} {vec entries : List (K × V)} (hs : SortedBy (rank P cs) vec)
    (hmem : ∀ e, e ∈ vec ↔ entries.find? (fun a => rank P cs a = rank P cs e) = some e) :
    Refines P ⟨vec, cs⟩ (firstEntries P cs entries) := by
  refine ⟨rfl, hs, fun r e => ?_⟩
  change entries.find? (fun a => rank P cs a = r) = some e ↔ e ∈ live vec ∅ ∧ rank P cs e = r
  rw [mem_live_empty, hmem]
  constructor
  · intro h
    have hr : rank P cs e = r := by simpa using List.find?_some h
    exact ⟨by rw [hr]; exact h, hr⟩
  · intro h
    rw [← h.2]
    exact h.1

/-- Inserting entries in order keeps the first of each class. -/
theorem refines_inserts (P : Platform) (cs : CaseSensitivity) (entries : List (K × V)) :
    Refines P (entries.foldl (fun m e => (m.insert P e).1) (.new cs)) (firstEntries P cs entries) := by
  induction entries using List.reverseRecOn with
  | nil => exact Refines.new cs
  | append_singleton entries val ih =>
    rw [List.foldl_append]
    set m := entries.foldl (fun m e => (m.insert P e).1) (RawPathMap.new cs)
    change Refines P (m.insert P val).1 _
    have hget : (firstEntries P cs entries).get P val.1 =
        entries.find? fun e => rank P cs e = rank P cs val := rfl
    cases hg : (firstEntries P cs entries).get P val.1 with
    | some e =>
      -- the class has its first entry already
      have hsame : firstEntries P cs (entries ++ [val]) = firstEntries P cs entries := by
        unfold firstEntries
        congr 1
        funext k
        rw [List.find?_append]
        by_cases hk : rank P cs val = k
        · rw [← hk, ← hget, hg]; rfl
        · rw [List.find?_cons_of_neg (by simpa using hk), List.find?_nil, Option.or_none]
      rw [((ih.insert val).1 e hg).1, hsame]
      exact ih
    | none =>
      have hput : firstEntries P cs (entries ++ [val]) = (firstEntries P cs entries).put P val.1 (some val) := by
        unfold firstEntries SpecMap.put
        congr 1
        funext k
        rw [List.find?_append]
        by_cases hk : k = rank P cs val
        · have hnone : entries.find? (fun e => rank P cs e = k) = none := by rw [hk, ← hget]; exact hg
          rw [hnone, hk, List.find?_cons_of_pos (by simp), Option.none_or]
          exact (Function.update_self (β := fun _ => Option (K × V)) (foldKey P cs val.1) _ _).symm
        · rw [List.find?_cons_of_neg (by simpa using fun h => hk h.symm), List.find?_nil, Option.or_none]
          have hne : k ≠ foldKey P cs val.1 := hk
          exact (Function.update_of_ne (β := fun _ => Option (K × V)) hne (some val)
            (firstEntries P cs entries).contents).symm
      rw [hput]
      exact ((ih.insert val).2 hg).1

/-- The adjacency scan lets exactly the strictly sorted vectors pass. -/
theorem sorted_of_scan {cs : CaseSensitivity} {entries : List (K × V)}
    (h : RawPathMap.needsSortAndOrDedupe P cs entries = false) : SortedBy (rank P cs) entries := by
  have hchain : entries.IsChain fun a b => rank P cs a < rank P cs b := by
    induction entries with
    | nil => exact List.IsChain.nil
    | cons a rest ih =>
      cases rest with
      | nil => exact List.IsChain.singleton a
      | cons b rest =>
        unfold RawPathMap.needsSortAndOrDedupe at h
        split at h
        · exact absurd h (by simp)
        · rename_i hless
          refine List.IsChain.cons_cons ?_ (ih h)
          exact (isPathPieceLess_iff a.1 b.1).1 (by simpa using hless)
  have : IsTrans (K × V) fun a b => rank P cs a < rank P cs b := ⟨fun _ _ _ h h' => lt_trans h h'⟩
  exact hchain.pairwise

theorem mem_iff_find?_of_sortedBy {cs : CaseSensitivity} {entries : List (K × V)}
    (h : SortedBy (rank P cs) entries) (e : K × V) :
    e ∈ entries ↔ entries.find? (fun a => rank P cs a = rank P cs e) = some e := by
  constructor
  · intro he
    obtain ⟨x, hx⟩ : ∃ x, entries.find? (fun a => rank P cs a = rank P cs e) = some x :=
      Option.isSome_iff_exists.1 (List.find?_isSome.2 ⟨e, he, by simp⟩)
    have hr : rank P cs x = rank P cs e := by simpa using List.find?_some hx
    obtain ⟨i, hi⟩ := List.mem_iff_getElem?.1 he
    obtain ⟨j, hj⟩ := List.mem_iff_getElem?.1 (List.mem_of_find?_eq_some hx)
    have hij := h.getElem?_inj hi hj hr.symm
    rw [hij, hj] at hi
    rw [hx, Option.some.inj hi]
  · exact List.mem_of_find?_eq_some

/-- Equality of paths, as a question about ranks. -/
theorem isPathPieceEqual_eq_decide {fold : UInt8 → UInt8 → Bool} (hfold : FoldsAscii fold) {cs : CaseSensitivity}
    (e : K × V) : (fun a : K × V => isPathPieceEqual fold P cs a.1 e.1) =
      fun a => decide (rank P cs a = rank P cs e) := by
  funext a
  rw [Bool.eq_iff_iff, isPathPieceEqual_iff hfold, decide_eq_true_eq]
  rfl

theorem refines_ofVector {fold : UInt8 → UInt8 → Bool} (hfold : FoldsAscii fold) (P : Platform)
    (cs : CaseSensitivity) (entries : List (K × V)) :
    Refines P (RawPathMap.ofVector fold P entries cs) (firstEntries P cs entries) := by
  unfold RawPathMap.ofVector
  split_ifs with hscan
  · have hequal : ∀ a b : K × V, isPathPieceEqual fold P cs a.1 b.1 = true ↔ rank P cs a = rank P cs b :=
      fun a b => isPathPieceEqual_iff hfold a.1 b.1
    have hle : ∀ a b : K × V, (!isPathPieceLess P cs b.1 a.1) = true ↔ rank P cs a ≤ rank P cs b := by
      intro a b
      rw [Bool.not_eq_true', ← Bool.not_eq_true, isPathPieceLess_iff, not_lt]
      rfl
    obtain ⟨hs, hmem⟩ := mem_unique_mergeSort (rank P cs) hequal hle entries
    refine refines_firstEntries hs fun e => ?_
    rw [hmem, isPathPieceEqual_eq_decide hfold]
  · have hs := sorted_of_scan (Bool.eq_false_iff.2 hscan)
    exact refines_firstEntries hs (mem_iff_find?_of_sortedBy hs)

/-- **Bulk construction is insertion in order.** For any vector of entries the bulk
constructor builds the very map that inserting the entries one by one builds: strictly
sorted, with the earliest entry of each class of case-equivalent keys. -/
theorem ofVector_eq_inserts {fold : UInt8 → UInt8 → Bool} (hfold : FoldsAscii fold) (P : Platform)
    (cs : CaseSensitivity) (entries : List (K × V)) :
    let m := RawPathMap.ofVector fold P entries cs
    m = entries.foldl (fun m e => (m.insert P e).1) (.new cs) ∧
      (m.vec.Pairwise fun a b => isPathPieceLess P cs a.1 b.1) ∧
      ∀ e, e ∈ m.vec ↔ entries.find? (fun a => isPathPieceEqual fold P cs a.1 e.1) = some e := by
  intro m
  have hm := refines_ofVector hfold P cs entries
  have hcs : m.compare_ = cs := hm.compare_eq
  refine ⟨hm.eq_of_refines (refines_inserts P cs entries), ?_, fun e => ?_⟩
  · rw [pairwise_iff_sortedBy, ← hcs]
    exact hm.sorted
  · have hst := hm.stores (rank P m.compare_ e) e
    rw [mem_live_empty, and_iff_left rfl, hcs] at hst
    rw [← hst, isPathPieceEqual_eq_decide hfold]
    rfl

/-- Three entries out of order, two of them spellings of one key. -/
theorem ofVector_eq_inserts_letters :
    let fold : UInt8 → UInt8 → Bool := fun x y => decide (x = y ∨ SameLetter x y)
    let entries : List (PathComponent × ℕ) := [(⟨[0x62]⟩, 1), (⟨[0x41]⟩, 2), (⟨[0x61]⟩, 3)]
    let m := RawPathMap.ofVector fold .posix entries .insensitive
    m = entries.foldl (fun m e => (m.insert .posix e).1) (.new .insensitive) ∧
      (⟨[0x41]⟩, 2) ∈ m.vec ∧ (⟨[0x61]⟩, 3) ∉ m.vec := by
  intro fold entries m
  have hfold : FoldsAscii fold := fun x y => decide_eq_true_iff
  obtain ⟨h1, -, h3⟩ := ofVector_eq_inserts hfold .posix .insensitive entries
  refine ⟨h1, (h3 (⟨[0x41]⟩, 2)).2 (by decide), fun h => ?_⟩
  exact absurd ((h3 (⟨[0x61]⟩, 3)).1 h) (by decide)

end EdenCommon
