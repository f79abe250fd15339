import Mathlib.Data.List.Pairwise
import Mathlib.Data.List.TakeWhile
import Mathlib.Order.Lattice

/-!
# Ordered sets keyed by a linear order

The list view of a balanced search tree whose order compares one key of its
elements: the elements in ascending key order, no key twice. A position in the
set is the list of elements from it on; the element before a position is the last
one in front of it. Each operation has one membership lemma.
-/

namespace Lib

variable {α κ : Type*} [LinearOrder κ]

/-- A set of elements in strictly ascending key order. -/
structure OrderedSet (key : α → κ) where
  elems : List α
  sorted : elems.Pairwise fun a b => key a < key b

namespace OrderedSet

variable {key : α → κ}

instance : Membership α (OrderedSet key) := ⟨fun s a => a ∈ s.elems⟩

theorem mem_def {s : OrderedSet key} {a : α} : a ∈ s ↔ a ∈ s.elems := Iff.rfl

def empty : OrderedSet key := ⟨[], .nil⟩

@[simp] theorem not_mem_empty (a : α) : a ∉ (empty : OrderedSet key) := by
  simp [mem_def, empty]

/-- The elements in front of the first one whose key is at least `k`. -/
def before (s : OrderedSet key) (k : κ) : List α := s.elems.takeWhile fun a => key a < k

/-- The position of the first element whose key is at least `k`. -/
def lowerBound (s : OrderedSet key) (k : κ) : List α := s.elems.dropWhile fun a => key a < k

/-- The element just in front of the lower bound of `k`, if it is not the first. -/
def prevLowerBound (s : OrderedSet key) (k : κ) : Option α := (s.before k).getLast?

/-- The element just in front of the first one whose key exceeds `k`. -/
def prevUpperBound (s : OrderedSet key) (k : κ) : Option α :=
  (s.elems.takeWhile fun a => key a ≤ k).getLast?

/-- Remove the element with key `k`. -/
def erase (s : OrderedSet key) (k : κ) : OrderedSet key :=
  ⟨s.elems.filter fun a => key a ≠ k, s.sorted.filter _⟩

/-- What is left behind an erase. -/
theorem mem_erase {s : OrderedSet key} {k : κ} {a : α} : a ∈ s.erase k ↔ a ∈ s ∧ key a ≠ k := by
  simp [mem_def, erase]

/-- The set is cut at the lower bound. -/
theorem before_append_lowerBound (s : OrderedSet key) (k : κ) :
    s.before k ++ s.lowerBound k = s.elems := List.takeWhile_append_dropWhile

/-- Two elements with the same key are one. -/
theorem key_inj {s : OrderedSet key} {a b : α} (ha : a ∈ s) (hb : b ∈ s) (h : key a = key b) :
    a = b := by
  by_contra hne
  have hp : s.elems.Pairwise fun x y => key x ≠ key y := s.sorted.imp fun h => h.ne
  have : Std.Symm fun x y => key x ≠ key y := ⟨fun _ _ h => h.symm⟩
  exact hp.forall ha hb hne h

end OrderedSet

/-- In a list in ascending key order, the elements with smaller keys come first. -/
theorem dropWhile_key_lt {key : α → κ} {l : List α} (h : l.Pairwise fun a b => key a < key b) (k : κ) :
    ∀ a ∈ l.dropWhile fun a => key a < k, k ≤ key a := by
  induction l with
  | nil => simp
  | cons x xs ih =>
    obtain ⟨hx, hxs⟩ := List.pairwise_cons.1 h
    by_cases hk : key x < k
    · rw [List.dropWhile_cons_of_pos (by simpa using hk)]; exact ih hxs
    · rw [List.dropWhile_cons_of_neg (by simpa using hk)]
      intro a ha
      rcases List.mem_cons.1 ha with rfl | ha
      · exact not_lt.1 hk
      · exact (not_lt.1 hk).trans (hx a ha).le

namespace OrderedSet

variable {key : α → κ}

/-- Behind the cut are the keys that are no smaller. -/
theorem mem_lowerBound {s : OrderedSet key} {k : κ} {a : α} :
    a ∈ s.lowerBound k ↔ a ∈ s ∧ k ≤ key a := by
  constructor
  · intro h
    exact ⟨(List.dropWhile_sublist _).subset h, dropWhile_key_lt s.sorted k a h⟩
  · rintro ⟨h, hk⟩
    rw [mem_def, ← before_append_lowerBound s k, List.mem_append] at h
    rcases h with h | h
    · have := List.mem_takeWhile_imp h
      simp only [decide_eq_true_eq] at this
      exact absurd this (not_lt.2 hk)
    · exact h

/-- In front of it are the smaller ones. -/
theorem mem_before {s : OrderedSet key} {k : κ} {a : α} : a ∈ s.before k ↔ a ∈ s ∧ key a < k := by
  constructor
  · intro h
    exact ⟨(List.takeWhile_sublist _).subset h, by simpa using List.mem_takeWhile_imp h⟩
  · rintro ⟨h, hk⟩
    rw [mem_def, ← before_append_lowerBound s k, List.mem_append] at h
    rcases h with h | h
    · exact h
    · exact absurd (mem_lowerBound.1 h).2 (not_le.2 hk)

theorem sorted_lowerBound (s : OrderedSet key) (k : κ) :
    (s.lowerBound k).Pairwise fun a b => key a < key b := s.sorted.sublist (List.dropWhile_sublist _)

/-- The last element of a list in ascending key order has the largest key. -/
theorem key_le_getLast {l : List α} (h : l.Pairwise fun a b => key a < key b) {m : α}
    (hm : l.getLast? = some m) {a : α} (ha : a ∈ l) : key a ≤ key m := by
  obtain ⟨pre, rfl⟩ := List.getLast?_eq_some_iff.1 hm
  rcases List.mem_append.1 ha with ha | ha
  · exact ((List.pairwise_append.1 h).2.2 a ha m (by simp)).le
  · rw [List.mem_singleton.1 ha]

/-- `prevLowerBound k` is the element with the largest key below `k`. -/
theorem prevLowerBound_some {s : OrderedSet key} {k : κ} {m : α} (h : s.prevLowerBound k = some m) :
    m ∈ s ∧ key m < k ∧ ∀ a ∈ s, key a < k → key a ≤ key m := by
  have hm : m ∈ s.before k := List.mem_of_getLast? h
  obtain ⟨h1, h2⟩ := mem_before.1 hm
  refine ⟨h1, h2, fun a ha hk => ?_⟩
  exact key_le_getLast (s.sorted.sublist (List.takeWhile_sublist _)) h (mem_before.2 ⟨ha, hk⟩)

/-- Without a predecessor no key is smaller. -/
theorem prevLowerBound_none {s : OrderedSet key} {k : κ} (h : s.prevLowerBound k = none) :
    ∀ a ∈ s, k ≤ key a := by
  intro a ha
  by_contra hk
  have := mem_before.2 ⟨ha, not_le.1 hk⟩
  rw [List.getLast?_eq_none_iff.1 h] at this
  simp at this

theorem mem_takeWhile_le {s : OrderedSet key} {k : κ} {a : α} :
    a ∈ (s.elems.takeWhile fun a => key a ≤ k) ↔ a ∈ s ∧ key a ≤ k := by
  constructor
  · intro h
    exact ⟨(List.takeWhile_sublist _).subset h, by simpa using List.mem_takeWhile_imp h⟩
  · rintro ⟨h, hk⟩
    obtain ⟨l, r, hl⟩ := List.append_of_mem h
    have hs := s.sorted
    rw [hl] at hs ⊢
    have hlt : ∀ x ∈ l, key x ≤ k := fun x hx =>
      ((List.pairwise_append.1 hs).2.2 x hx a (by simp)).le.trans hk
    rw [List.takeWhile_append_of_pos (by simpa using hlt), List.takeWhile_cons_of_pos (by simpa using hk)]
    simp

/-- `prevUpperBound k` is the element with the largest key not above `k`. -/
theorem prevUpperBound_some {s : OrderedSet key} {k : κ} {m : α} (h : s.prevUpperBound k = some m) :
    m ∈ s ∧ key m ≤ k ∧ ∀ a ∈ s, key a ≤ k → key a ≤ key m := by
  have hm := List.mem_of_getLast? h
  obtain ⟨h1, h2⟩ := mem_takeWhile_le.1 hm
  refine ⟨h1, h2, fun a ha hk => ?_⟩
  exact key_le_getLast (s.sorted.sublist (List.takeWhile_sublist _)) h (mem_takeWhile_le.2 ⟨ha, hk⟩)

theorem prevUpperBound_none {s : OrderedSet key} {k : κ} (h : s.prevUpperBound k = none) :
    ∀ a ∈ s, k < key a := by
  intro a ha
  by_contra hk
  have := mem_takeWhile_le.2 ⟨ha, not_lt.1 hk⟩
  rw [List.getLast?_eq_none_iff.1 h] at this
  simp at this

/-- Insert an element, unless its key is present already. -/
def insert (s : OrderedSet key) (a : α) : OrderedSet key :=
  if h : ∃ b ∈ s.elems, key b = key a then s
  else
    ⟨s.before (key a) ++ a :: s.lowerBound (key a), by
      have hne : ∀ b ∈ s, key b ≠ key a := fun b hb he => h ⟨b, hb, he⟩
      have hs := s.sorted
      rw [← before_append_lowerBound s (key a)] at hs
      obtain ⟨h1, h2, h3⟩ := List.pairwise_append.1 hs
      refine List.pairwise_append.2 ⟨h1, List.pairwise_cons.2 ⟨fun b hb => ?_, h2⟩, fun x hx y hy => ?_⟩
      · obtain ⟨hb, hle⟩ := mem_lowerBound.1 hb
        exact lt_of_le_of_ne hle (hne b hb).symm
      · rcases List.mem_cons.1 hy with rfl | hy
        · exact (mem_before.1 hx).2
        · exact h3 x hx y hy⟩

/-- A key that is new is inserted. -/
theorem mem_insert {s : OrderedSet key} {a x : α} (h : ∀ b ∈ s, key b ≠ key a) :
    x ∈ s.insert a ↔ x = a ∨ x ∈ s := by
  have hn : ¬ ∃ b ∈ s.elems, key b = key a := fun ⟨b, hb, he⟩ => h b hb he
  unfold insert
  rw [dif_neg hn]
  simp only [mem_def, List.mem_append, List.mem_cons]
  rw [← before_append_lowerBound s (key a), List.mem_append]
  exact or_left_comm

end OrderedSet

end Lib
