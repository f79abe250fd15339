import Mathlib.Data.List.Lex
import Mathlib.Data.List.Sort
import Mathlib.Data.Set.Insert
import Mathlib.Data.Finset.Basic

/-!
# Sorted vectors as maps

A vector whose elements are in strictly ascending order of a key is searched with
`lowerBound`. Keys are compared through `rank`, so that two spellings of one key have
one rank.

* `search_eq_some`, `search_eq_none`: what a search finds.
* `sortedBy_insertIdx`, `sortedBy_merge`: the two ways a sorted vector grows.
* `Stores`: the set of elements as a partial function of the rank, and how it changes
  when an element is put in, taken out or replaced.
-/

namespace Lib

variable {α β : Type*} {rank : α → β} {r : β}

/-- Replacing an element by one of the same rank leaves the ranks. -/
theorem map_set_eq {l : List α} {i : ℕ} {a a' : α} (ha : l[i]? = some a) (hr : rank a' = rank a) :
    (l.set i a').map rank = l.map rank := by
  rw [List.map_set, hr]
  apply List.ext_getElem?
  intro j
  by_cases hj : i = j
  · subst hj
    obtain ⟨hi, rfl⟩ := List.getElem?_eq_some_iff.1 ha
    simp [hi]
  · rw [List.getElem?_set_ne hj]

/-- A position is in front of the cut or behind it. -/
theorem getElem?_take_or_drop {l : List α} (s : ℕ) {i : ℕ} {a : α} (h : l[i]? = some a) :
    (i < s ∧ (l.take s)[i]? = some a) ∨ (s ≤ i ∧ (l.drop s)[i - s]? = some a) := by
  by_cases hi : i < s
  · left; exact ⟨hi, by rw [List.getElem?_take_of_lt hi, h]⟩
  · right
    refine ⟨by omega, ?_⟩
    rw [List.getElem?_drop, show s + (i - s) = i by omega, h]

section Sorted

variable [LinearOrder β] {l : List α}

/-- In strictly ascending order of `rank`. -/
def SortedBy (rank : α → β) (l : List α) : Prop := l.Pairwise fun a b => rank a < rank b

/-- The first position whose element is not below `r`. -/
def lowerBound (rank : α → β) (l : List α) (r : β) : ℕ := l.findIdx fun a => !decide (rank a < r)

/-- The position of the element with rank `r`. -/
def search (rank : α → β) (l : List α) (r : β) : Option ℕ :=
  match l[lowerBound rank l r]? with
  | some a => if r < rank a then none else some (lowerBound rank l r)
  | none => none

theorem lowerBound_le : lowerBound rank l r ≤ l.length := List.findIdx_le_length

theorem SortedBy.getElem?_lt (hl : SortedBy rank l) {i j : ℕ} {a b : α} (ha : l[i]? = some a)
    (hb : l[j]? = some b) (hij : i < j) : rank a < rank b := by
  obtain ⟨hi, rfl⟩ := List.getElem?_eq_some_iff.1 ha
  obtain ⟨hj, rfl⟩ := List.getElem?_eq_some_iff.1 hb
  exact List.pairwise_iff_getElem.1 hl i j hi hj hij

/-- A rank has one position. -/
theorem SortedBy.getElem?_inj (hl : SortedBy rank l) {i j : ℕ} {a b : α} (ha : l[i]? = some a)
    (hb : l[j]? = some b) (h : rank a = rank b) : i = j := by
  rcases Nat.lt_trichotomy i j with hij | hij | hij
  · exact absurd h (hl.getElem?_lt ha hb hij).ne
  · exact hij
  · exact absurd h (hl.getElem?_lt hb ha hij).ne'

theorem rank_lt_of_lt_lowerBound {i : ℕ} {a : α} (ha : l[i]? = some a) (hi : i < lowerBound rank l r) :
    rank a < r := by
  obtain ⟨hlt, rfl⟩ := List.getElem?_eq_some_iff.1 ha
  simpa using List.not_of_lt_findIdx hi

theorem le_rank_lowerBound {a : α} (ha : l[lowerBound rank l r]? = some a) : r ≤ rank a := by
  obtain ⟨hlt, rfl⟩ := List.getElem?_eq_some_iff.1 ha
  have h := @List.findIdx_getElem _ (fun a => !decide (rank a < r)) l hlt
  rw [Bool.not_eq_true', decide_eq_false_iff_not] at h
  exact not_lt.1 h

/-- **A search finds** the position of the element with that rank. -/
theorem search_eq_some (hl : SortedBy rank l) {i : ℕ} :
    search rank l r = some i ↔ ∃ a, l[i]? = some a ∧ rank a = r := by
  unfold search
  constructor
  · intro h
    split at h
    · rename_i a ha
      split at h
      · cases h
      · cases h
        exact ⟨a, ha, le_antisymm (not_lt.1 ‹_›) (le_rank_lowerBound ha)⟩
    · cases h
  · rintro ⟨a, ha, rfl⟩
    -- nothing in front of the position has this rank, and nothing behind it
    have hi : lowerBound rank l (rank a) = i := by
      rcases Nat.lt_trichotomy i (lowerBound rank l (rank a)) with h | h | h
      · exact absurd (rank_lt_of_lt_lowerBound ha h) (lt_irrefl _)
      · exact h.symm
      · have hlt : lowerBound rank l (rank a) < l.length :=
          h.trans (List.getElem?_eq_some_iff.1 ha).1
        have hb := List.getElem?_eq_getElem hlt
        exact absurd (hl.getElem?_lt hb ha h) (not_lt.2 (le_rank_lowerBound hb))
    rw [hi, ha]
    simp

theorem search_eq_none (hl : SortedBy rank l) : search rank l r = none ↔ ∀ a ∈ l, rank a ≠ r := by
  constructor
  · intro h a ha hr
    obtain ⟨i, hi⟩ := List.mem_iff_getElem?.1 ha
    rw [(search_eq_some hl).2 ⟨a, hi, hr⟩] at h
    cases h
  · intro h
    rcases hs : search rank l r with - | i
    · rfl
    · obtain ⟨a, ha, hr⟩ := (search_eq_some hl).1 hs
      exact absurd hr (h a (List.mem_of_getElem? ha))

theorem insertIdx_eq (x : α) : ∀ (i : ℕ) (l : List α), i ≤ l.length →
    l.insertIdx i x = l.take i ++ x :: l.drop i
  | 0, l, _ => by simp
  | i + 1, [], h => by simp at h
  | i + 1, a :: l, h => by simp [insertIdx_eq x i l (by simpa using h)]

/-- **Inserting at the lower bound** keeps the order. -/
theorem sortedBy_insertIdx (hl : SortedBy rank l) {x : α} (hx : ∀ a ∈ l, rank a ≠ rank x) :
    SortedBy rank (l.insertIdx (lowerBound rank l (rank x)) x) := by
  set i := lowerBound rank l (rank x) with hi
  have hcut : l.insertIdx i x = l.take i ++ x :: l.drop i := insertIdx_eq x i l lowerBound_le
  have hs : SortedBy rank (l.take i ++ l.drop i) := by rwa [List.take_append_drop]
  obtain ⟨h1, h2, h3⟩ := List.pairwise_append.1 hs
  have hbelow : ∀ a ∈ l.take i, rank a < rank x := by
    intro a ha
    obtain ⟨j, hj, rfl⟩ := List.mem_iff_getElem.1 ha
    rw [List.length_take] at hj
    rw [List.getElem_take]
    exact rank_lt_of_lt_lowerBound (List.getElem?_eq_getElem (by omega)) (by omega)
  have habove : ∀ a ∈ l.drop i, rank x < rank a := by
    intro a ha
    obtain ⟨j, hj⟩ := List.mem_iff_getElem?.1 ha
    rw [List.getElem?_drop] at hj
    have hlt : i < l.length := by have := (List.getElem?_eq_some_iff.1 hj).1; omega
    have hb := List.getElem?_eq_getElem hlt
    have hle : rank x ≤ rank l[i] := le_rank_lowerBound hb
    have hlx : rank x < rank l[i] := lt_of_le_of_ne hle (Ne.symm (hx _ (List.mem_of_getElem? hb)))
    rcases Nat.eq_zero_or_pos j with rfl | hj0
    · rw [Nat.add_zero, hb] at hj; cases hj; exact hlx
    · exact hlx.trans (hl.getElem?_lt hb hj (by omega))
  rw [hcut]
  refine List.pairwise_append.2 ⟨h1, List.pairwise_cons.2 ⟨habove, h2⟩, ?_⟩
  intro a ha b hb
  rcases List.mem_cons.1 hb with rfl | hb
  · exact hbelow a ha
  · exact h3 a ha b hb

/-- Two sorted vectors with the same elements are one. -/
theorem SortedBy.ext {l' : List α} (hl : SortedBy rank l) (hl' : SortedBy rank l')
    (h : ∀ a, a ∈ l ↔ a ∈ l') : l = l' := by
  have : Std.Antisymm fun a b : α => rank a < rank b := ⟨fun _ _ h h' => absurd h' (lt_asymm h)⟩
  have : Std.Irrefl fun a b : α => rank a < rank b := ⟨fun a => lt_irrefl (rank a)⟩
  exact List.Pairwise.eq_of_mem_iff hl hl' h

theorem SortedBy.sublist {l' : List α} (hl : SortedBy rank l) (h : l'.Sublist l) : SortedBy rank l' :=
  List.Pairwise.sublist h hl

/-- A comparison of ranks is transitive and total. -/
theorem trans_of_rank {le : α → α → Bool} (hle : ∀ a b, le a b = true ↔ rank a ≤ rank b) (a b c : α)
    (hab : le a b = true) (hbc : le b c = true) : le a c = true :=
  (hle a c).2 (((hle a b).1 hab).trans ((hle b c).1 hbc))

theorem total_of_rank {le : α → α → Bool} (hle : ∀ a b, le a b = true ↔ rank a ≤ rank b) (a b : α) :
    (le a b || le b a) = true := by
  rw [Bool.or_eq_true, hle, hle]
  exact le_total (rank a) (rank b)

/-- **Merging** two sorted vectors without a common rank keeps the order. -/
theorem sortedBy_merge {l' : List α} {le : α → α → Bool} (hle : ∀ a b, le a b = true ↔ rank a ≤ rank b)
    (hl : SortedBy rank l) (hl' : SortedBy rank l') (hne : ∀ a ∈ l, ∀ b ∈ l', rank a ≠ rank b) :
    SortedBy rank (l.merge l' le) := by
  have hweak : ∀ {k : List α}, SortedBy rank k → k.Pairwise fun a b => le a b = true := by
    intro k hk
    exact hk.imp fun {a b} h => (hle a b).2 h.le
  have hmerge := List.pairwise_merge (trans_of_rank hle) (total_of_rank hle) l l' (hweak hl) (hweak hl')
  -- no two ranks are equal, so the merged order is strict
  have hdist : (l.merge l' le).Pairwise fun a b => rank a ≠ rank b := by
    refine (List.Perm.pairwise_iff (fun h => Ne.symm h) (List.merge_perm_append _)).2 ?_
    exact List.pairwise_append.2 ⟨hl.imp fun h => h.ne, hl'.imp fun h => h.ne, hne⟩
  refine (hmerge.and hdist).imp fun {a b} h => ?_
  exact lt_of_le_of_ne ((hle a b).1 h.1) h.2

/-- The order is a property of the ranks alone. -/
theorem sortedBy_iff_map : SortedBy rank l ↔ (l.map rank).Pairwise fun a b => a < b := by
  unfold SortedBy
  rw [List.pairwise_map]

/-- Replacing an element by one of the same rank keeps the order. -/
theorem SortedBy.set (hl : SortedBy rank l) {i : ℕ} {a a' : α} (ha : l[i]? = some a)
    (hr : rank a' = rank a) : SortedBy rank (l.set i a') := by
  rw [sortedBy_iff_map] at hl ⊢
  rwa [map_set_eq ha hr]

end Sorted

/-! ### Vectors with erased positions -/

/-- No two positions have the same rank. -/
def Distinct (rank : α → β) (l : List α) : Prop :=
  ∀ ⦃i j : ℕ⦄ ⦃a b : α⦄, l[i]? = some a → l[j]? = some b → rank a = rank b → i = j

/-- The elements at the positions that are not erased. -/
def live (l : List α) (erased : Finset ℕ) : Set α := {a | ∃ i, l[i]? = some a ∧ i ∉ erased}

section Live

variable {l : List α} {erased : Finset ℕ} {i : ℕ} {a x : α}

theorem mem_live : a ∈ live l erased ↔ ∃ i, l[i]? = some a ∧ i ∉ erased := Iff.rfl

theorem mem_live_empty : a ∈ live l ∅ ↔ a ∈ l := by
  rw [mem_live, List.mem_iff_getElem?]
  simp

theorem live_insertIdx (hi : i ≤ l.length) : live (l.insertIdx i x) ∅ = insert x (live l ∅) := by
  apply Set.ext
  intro b
  rw [mem_live_empty, List.mem_insertIdx hi, Set.mem_insert_iff, mem_live_empty]

theorem live_eraseIdx (hd : Distinct rank l) (ha : l[i]? = some a) :
    live (l.eraseIdx i) ∅ = live l ∅ \ {a} := by
  apply Set.ext
  intro b
  rw [mem_live_empty, List.mem_eraseIdx_iff_getElem?]
  constructor
  · rintro ⟨j, hj, hb⟩
    refine ⟨⟨j, hb, Finset.notMem_empty j⟩, ?_⟩
    rintro rfl
    exact hj (hd hb ha rfl)
  · rintro ⟨⟨j, hb, -⟩, hne⟩
    refine ⟨j, ?_, hb⟩
    rintro rfl
    exact hne (Option.some.inj (hb.symm.trans ha))

/-- Erasing a position takes its element out. -/
theorem live_erase (hd : Distinct rank l) (ha : l[i]? = some a) :
    live l (insert i erased) = live l erased \ {a} := by
  apply Set.ext
  intro b
  constructor
  · rintro ⟨j, hb, hj⟩
    rw [Finset.mem_insert, not_or] at hj
    refine ⟨⟨j, hb, hj.2⟩, ?_⟩
    rintro rfl
    exact hj.1 (hd hb ha rfl)
  · rintro ⟨⟨j, hb, hj⟩, hne⟩
    refine ⟨j, hb, ?_⟩
    rw [Finset.mem_insert, not_or]
    refine ⟨?_, hj⟩
    rintro rfl
    exact hne (Option.some.inj (hb.symm.trans ha))

/-- Overwriting an erased position and reviving it puts the new element in. -/
theorem live_revive (hi : i < l.length) (he : i ∈ erased) :
    live (l.set i x) (erased.erase i) = insert x (live l erased) := by
  apply Set.ext
  intro b
  constructor
  · rintro ⟨j, hb, hj⟩
    by_cases hij : i = j
    · subst hij
      rw [List.getElem?_set_self hi] at hb
      exact Or.inl (Option.some.inj hb).symm
    · rw [List.getElem?_set_ne hij] at hb
      exact Or.inr ⟨j, hb, fun h => hj (Finset.mem_erase.2 ⟨Ne.symm hij, h⟩)⟩
  · rintro (rfl | ⟨j, hb, hj⟩)
    · exact ⟨i, List.getElem?_set_self hi, Finset.notMem_erase i erased⟩
    · have hij : i ≠ j := by rintro rfl; exact hj he
      exact ⟨j, by rw [List.getElem?_set_ne hij, hb], fun h => hj (Finset.mem_of_mem_erase h)⟩

/-- Overwriting a position that is not erased replaces its element. -/
theorem live_set (hd : Distinct rank l) (ha : l[i]? = some a) (he : i ∉ erased) :
    live (l.set i x) erased = insert x (live l erased \ {a}) := by
  obtain ⟨hi, -⟩ := List.getElem?_eq_some_iff.1 ha
  apply Set.ext
  intro b
  constructor
  · rintro ⟨j, hb, hj⟩
    by_cases hij : i = j
    · subst hij
      rw [List.getElem?_set_self hi] at hb
      exact Or.inl (Option.some.inj hb).symm
    · rw [List.getElem?_set_ne hij] at hb
      refine Or.inr ⟨⟨j, hb, hj⟩, ?_⟩
      rintro rfl
      exact hij (hd ha hb rfl)
  · rintro (rfl | ⟨⟨j, hb, hj⟩, hne⟩)
    · exact ⟨i, List.getElem?_set_self hi, he⟩
    · have hij : i ≠ j := by
        rintro rfl
        exact hne (Option.some.inj (hb.symm.trans ha))
      exact ⟨j, by rw [List.getElem?_set_ne hij, hb], hj⟩

/-- Appending puts the new element in. -/
theorem live_append (he : ∀ i ∈ erased, i < l.length) : live (l ++ [x]) erased = insert x (live l erased) := by
  apply Set.ext
  intro b
  constructor
  · rintro ⟨j, hb, hj⟩
    by_cases hlt : j < l.length
    · rw [List.getElem?_append_left hlt] at hb
      exact Or.inr ⟨j, hb, hj⟩
    · rw [List.getElem?_append_right (by omega)] at hb
      exact Or.inl (List.mem_singleton.1 (List.mem_of_getElem? hb))
  · rintro (rfl | ⟨j, hb, hj⟩)
    · exact ⟨l.length, by simp, fun h => absurd (he _ h) (lt_irrefl _)⟩
    · exact ⟨j, by rw [List.getElem?_append_left (List.getElem?_eq_some_iff.1 hb).1, hb], hj⟩

/-- The elements of `l` that stay, the first of which has position `idx`. -/
def keepFrom (erased : Finset ℕ) : ℕ → List α → List α
  | _, [] => []
  | idx, a :: l => if idx ∈ erased then keepFrom erased (idx + 1) l else a :: keepFrom erased (idx + 1) l

theorem keepFrom_append (idx : ℕ) (l l' : List α) :
    keepFrom erased idx (l ++ l') = keepFrom erased idx l ++ keepFrom erased (idx + l.length) l' := by
  induction l generalizing idx with
  | nil => rfl
  | cons a l ih =>
    have hidx : idx + 1 + l.length = idx + (l.length + 1) := by omega
    simp only [List.cons_append, keepFrom, ih, List.length_cons, hidx]
    split
    · rfl
    · rw [List.cons_append]

theorem keepFrom_sublist (idx : ℕ) (l : List α) : (keepFrom erased idx l).Sublist l := by
  induction l generalizing idx with
  | nil => exact List.Sublist.refl _
  | cons a l ih =>
    unfold keepFrom
    split
    · exact (ih _).cons a
    · exact (ih _).cons_cons a

theorem mem_keepFrom {idx : ℕ} {l : List α} :
    a ∈ keepFrom erased idx l ↔ ∃ i, l[i]? = some a ∧ idx + i ∉ erased := by
  induction l generalizing idx with
  | nil => simp [keepFrom]
  | cons b l ih =>
    have hrest : a ∈ keepFrom erased (idx + 1) l ↔ ∃ i, (b :: l)[i + 1]? = some a ∧ idx + (i + 1) ∉ erased := by
      rw [ih]
      simp only [List.getElem?_cons_succ, Nat.add_assoc, Nat.add_comm 1]
    -- position 0 is the head, the others are those of the tail
    have hsplit : (∃ i, (b :: l)[i]? = some a ∧ idx + i ∉ erased) ↔
        (b = a ∧ idx ∉ erased) ∨ ∃ i, (b :: l)[i + 1]? = some a ∧ idx + (i + 1) ∉ erased := by
      constructor
      · intro h
        obtain ⟨i, hi, he⟩ := h
        cases i with
        | zero => exact Or.inl ⟨by simpa using hi, he⟩
        | succ i => exact Or.inr ⟨i, hi, he⟩
      · intro h
        rcases h with ⟨rfl, he⟩ | ⟨i, hi, he⟩
        · exact ⟨0, rfl, he⟩
        · exact ⟨i + 1, hi, he⟩
    rw [hsplit, ← hrest, keepFrom]
    by_cases he : idx ∈ erased
    · simp [he]
    · simp [he, eq_comm]

end Live

/-! ### The contents of a map -/

/-- `c` gives for each rank the element of `S` that has it. -/
def Stores (rank : α → β) (S : Set α) (c : β → Option α) : Prop :=
  ∀ r a, c r = some a ↔ a ∈ S ∧ rank a = r

variable {S : Set α} {c : β → Option α}

theorem Stores.eq_none_iff (h : Stores rank S c) : c r = none ↔ ∀ a ∈ S, rank a ≠ r := by
  constructor
  · intro hn a ha hr
    rw [(h r a).2 ⟨ha, hr⟩] at hn
    cases hn
  · intro hall
    rcases hc : c r with - | a
    · rfl
    · obtain ⟨ha, hr⟩ := (h r a).1 hc
      exact absurd hr (hall a ha)

variable [DecidableEq β]

/-- Taking an element out. -/
theorem Stores.erase (h : Stores rank S c) {a : α} (ha : c r = some a) :
    Stores rank (S \ {a}) (Function.update c r none) := by
  intro r' b
  by_cases hr : r' = r
  · subst hr
    simp only [Function.update_self, reduceCtorEq, false_iff]
    rintro ⟨⟨hb, hne⟩, hrb⟩
    have : c r' = some b := (h r' b).2 ⟨hb, hrb⟩
    exact hne (Option.some.inj (this.symm.trans ha))
  · rw [Function.update_of_ne hr, h r' b]
    obtain ⟨-, hra⟩ := (h r a).1 ha
    constructor
    · rintro ⟨hb, hrb⟩
      refine ⟨⟨hb, ?_⟩, hrb⟩
      rintro rfl
      exact hr (hrb.symm.trans hra)
    · rintro ⟨⟨hb, -⟩, hrb⟩
      exact ⟨hb, hrb⟩

/-- Putting in an element whose rank is free. -/
theorem Stores.insert (h : Stores rank S c) {a : α} (ha : c (rank a) = none) :
    Stores rank (insert a S) (Function.update c (rank a) (some a)) := by
  have hfree := (h.eq_none_iff).1 ha
  intro r b
  by_cases hr : r = rank a
  · subst hr
    rw [Function.update_self, Option.some.injEq]
    constructor
    · rintro rfl; exact ⟨Set.mem_insert _ _, rfl⟩
    · rintro ⟨hb, hrb⟩
      rcases hb with rfl | hb
      · rfl
      · exact absurd hrb (hfree b hb)
  · rw [Function.update_of_ne hr, h r b]
    constructor
    · rintro ⟨hb, hrb⟩; exact ⟨Set.mem_insert_of_mem _ hb, hrb⟩
    · rintro ⟨rfl | hb, hrb⟩
      · exact absurd hrb.symm hr
      · exact ⟨hb, hrb⟩

/-- Replacing an element by one of the same rank. -/
theorem Stores.replace (h : Stores rank S c) {a a' : α} (ha : c r = some a) (hr : rank a' = r) :
    Stores rank (Insert.insert a' (S \ {a})) (Function.update c r (some a')) := by
  subst hr
  have := (h.erase ha).insert (show Function.update c (rank a') none (rank a') = none by simp)
  rwa [Function.update_idem] at this

end Lib
