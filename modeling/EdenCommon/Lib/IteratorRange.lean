import Mathlib.Data.List.Range
import Mathlib.Data.Nat.Notation

/-!
# Ranges of bidirectional iterators

A range is a pair of iterators with the operators of their type, each of which may fail.
`Yields` and `YieldsBack` say what the loops over it read, from the front and from the
back; `Bidirectional` is what is asked of a range that can be walked both ways.

The positions of a range are best known by number. `Indexed` says what the operators do
at the `k`-th position, and everything else follows from it:

* `Indexed.yields`: the loop from the front reads the elements in order.
* `Indexed.position_iff`: the loop passes through the numbered positions and no others.
* `Indexed.bidirectional`: if `--` leads from each position to the one before, the loop
  from the back reads the elements in reverse order.
-/

namespace Lib

/-- A pair of iterators and the operators `++`, `--` and `*` of their type. -/
structure IteratorRange (ε ι α : Type*) where
  begin_ : ι
  end_ : ι
  next : ι → Except ε ι
  prev : ι → Except ε ι
  deref : ι → Except ε α

namespace IteratorRange

variable {ε ι α : Type*} [DecidableEq ι] (r : IteratorRange ε ι α)

/-- What the loop `for (; it != end; ++it)` reads, or `none` if an operator fails or the
turns do not suffice. -/
def elementsFrom : ℕ → ι → Option (List α)
  | 0, _ => none
  | fuel + 1, it =>
    if it = r.end_ then some []
    else
      match r.deref it, r.next it with
      | .ok a, .ok it' => (elementsFrom fuel it').map (a :: ·)
      | _, _ => none

/-- What the loop `while (it != begin)` reads that starts each turn with `--it`. -/
def elementsBackFrom : ℕ → ι → Option (List α)
  | 0, _ => none
  | fuel + 1, it =>
    if it = r.begin_ then some []
    else
      match r.prev it with
      | .error _ => none
      | .ok it' =>
        match r.deref it' with
        | .error _ => none
        | .ok a => (elementsBackFrom fuel it').map (a :: ·)

/-- The loop from the front ends, no operator fails, and it reads `es`. -/
def Yields (es : List α) : Prop := ∃ fuel, r.elementsFrom fuel r.begin_ = some es

/-- The loop from the back ends, no operator fails, and it reads `es`. -/
def YieldsBack (es : List α) : Prop := ∃ fuel, r.elementsBackFrom fuel r.end_ = some es

/-- The iterators that the loop from the front passes through. -/
inductive Position : ι → Prop
  | begin_ : Position r.begin_
  | next {it it' : ι} (h : Position it) (hne : it ≠ r.end_) (hn : r.next it = .ok it') : Position it'

/-- **What a range owes to a walk from the back**: it reads the elements in reverse order
up to the first, and `--` takes back a `++` made anywhere in front of the end. -/
def Bidirectional : Prop :=
  ∃ es, r.Yields es ∧ r.YieldsBack es.reverse ∧
    ∀ it, r.Position it → it ≠ r.end_ → ∃ it', r.next it = .ok it' ∧ r.prev it' = .ok it

/-- The `n` positions in front of the end, by number, with their elements. -/
structure Indexed (n : ℕ) (pos : ℕ → ι) (el : ℕ → α) : Prop where
  begin_eq : r.begin_ = pos 0
  end_eq : r.end_ = pos n
  pos_ne : ∀ k < n, pos k ≠ pos n
  deref : ∀ k < n, r.deref (pos k) = .ok (el k)
  next : ∀ k < n, r.next (pos k) = .ok (pos (k + 1))

variable {r}

/-! ### What a loop reads is determined -/

theorem elementsFrom_succ {fuel : ℕ} {it : ι} {es : List α} (h : r.elementsFrom fuel it = some es) :
    r.elementsFrom (fuel + 1) it = some es := by
  induction fuel generalizing it es with
  | zero => simp [elementsFrom] at h
  | succ fuel ih =>
    unfold elementsFrom at h ⊢
    by_cases hend : it = r.end_
    · rwa [if_pos hend] at h ⊢
    rw [if_neg hend] at h ⊢
    split at h
    · rename_i a it' ha hn
      obtain ⟨rest, hrest, rfl⟩ := Option.map_eq_some_iff.1 h
      simp only [ih hrest, Option.map_some]
    · simp at h

theorem elementsFrom_mono {fuel fuel' : ℕ} (hle : fuel ≤ fuel') {it : ι} {es : List α}
    (h : r.elementsFrom fuel it = some es) : r.elementsFrom fuel' it = some es := by
  induction fuel' with
  | zero =>
    have : fuel = 0 := by omega
    rwa [this] at h
  | succ fuel' ih =>
    rcases Nat.eq_or_lt_of_le hle with heq | hlt
    · rwa [heq] at h
    · exact elementsFrom_succ (ih (by omega))

/-- **A range yields one list.** -/
theorem Yields.unique {es es' : List α} (h : r.Yields es) (h' : r.Yields es') : es = es' := by
  obtain ⟨f, hf⟩ := h
  obtain ⟨g, hg⟩ := h'
  have h1 := elementsFrom_mono (le_max_left f g) hf
  have h2 := elementsFrom_mono (le_max_right f g) hg
  exact Option.some.inj (h1.symm.trans h2)

/-- The first thing read from the back is what stands one step in front of the end. -/
theorem YieldsBack.head {a : α} {es : List α} (h : r.YieldsBack (a :: es)) :
    ∃ it, r.prev r.end_ = .ok it ∧ r.deref it = .ok a := by
  obtain ⟨fuel, hf⟩ := h
  cases fuel with
  | zero => simp [elementsBackFrom] at hf
  | succ fuel =>
    unfold elementsBackFrom at hf
    split at hf
    · simp at hf
    split at hf
    · simp at hf
    · rename_i it hit
      split at hf
      · simp at hf
      · rename_i b hb
        obtain ⟨rest, -, heq⟩ := Option.map_eq_some_iff.1 hf
        exact ⟨it, hit, by rw [hb, (List.cons.inj heq).1]⟩

/-! ### Ranges with numbered positions -/

namespace Indexed

variable {n : ℕ} {pos : ℕ → ι} {el : ℕ → α}

omit [DecidableEq ι] in
/-- No later position is the first one: the walk from it would end too early. -/
theorem pos_zero_ne (h : r.Indexed n pos el) {k : ℕ} (hk : 0 < k) (hkn : k ≤ n) : pos k ≠ pos 0 := by
  intro heq
  have hshift : ∀ j, k + j ≤ n → pos (k + j) = pos j := by
    intro j
    induction j with
    | zero => intro _; exact heq
    | succ j ih =>
      intro hj
      have h1 := h.next (k + j) (by omega)
      have h2 := h.next j (by omega)
      rw [ih (by omega), h2] at h1
      exact (Except.ok.inj h1).symm
  have hn := hshift (n - k) (by omega)
  rw [show k + (n - k) = n by omega] at hn
  exact h.pos_ne (n - k) (by omega) hn.symm

theorem elementsFrom_eq (h : r.Indexed n pos el) (m : ℕ) :
    ∀ k, k + m = n → r.elementsFrom (m + 1) (pos k) = some ((List.range' k m).map el) := by
  induction m with
  | zero =>
    intro k hk
    have hkn : k = n := by omega
    unfold elementsFrom
    rw [if_pos (by rw [hkn, h.end_eq]), List.range'_zero, List.map_nil]
  | succ m ih =>
    intro k hk
    have hlt : k < n := by omega
    unfold elementsFrom
    rw [if_neg (by rw [h.end_eq]; exact h.pos_ne k hlt)]
    simp only [h.deref k hlt, h.next k hlt, ih (k + 1) (by omega), Option.map_some, List.range'_succ, List.map_cons]

/-- **The loop from the front** reads the elements in order. -/
theorem yields (h : r.Indexed n pos el) : r.Yields ((List.range n).map el) := by
  refine ⟨n + 1, ?_⟩
  rw [h.begin_eq, h.elementsFrom_eq n 0 (by omega), List.range_eq_range']

omit [DecidableEq ι] in
/-- **The loop from the front** passes through the numbered positions. -/
theorem position_iff (h : r.Indexed n pos el) (it : ι) : r.Position it ↔ ∃ k ≤ n, it = pos k := by
  constructor
  · intro hp
    induction hp with
    | begin_ => exact ⟨0, by omega, h.begin_eq⟩
    | next hp hne hn ih =>
      obtain ⟨k, hk, rfl⟩ := ih
      have hlt : k < n := by
        rcases Nat.lt_or_eq_of_le hk with hlt | rfl
        · exact hlt
        · exact absurd h.end_eq.symm hne
      rw [h.next k hlt] at hn
      exact ⟨k + 1, hlt, (Except.ok.inj hn).symm⟩
  · rintro ⟨k, hk, rfl⟩
    induction k with
    | zero => rw [← h.begin_eq]; exact .begin_
    | succ k ih =>
      refine .next (ih (by omega)) ?_ (h.next k (by omega))
      rw [h.end_eq]
      exact h.pos_ne k (by omega)

omit [DecidableEq ι] in
/-- A position in front of the end, by its number. -/
theorem exists_of_position (h : r.Indexed n pos el) {it : ι} (hp : r.Position it) (hne : it ≠ r.end_) :
    ∃ k < n, it = pos k := by
  obtain ⟨k, hk, rfl⟩ := (h.position_iff it).1 hp
  rcases Nat.lt_or_eq_of_le hk with hlt | rfl
  · exact ⟨k, hlt, rfl⟩
  · exact absurd h.end_eq.symm hne

theorem elementsBackFrom_eq (h : r.Indexed n pos el) (hprev : ∀ k < n, r.prev (pos (k + 1)) = .ok (pos k)) (k : ℕ) :
    k ≤ n → r.elementsBackFrom (k + 1) (pos k) = some ((List.range k).map el).reverse := by
  induction k with
  | zero =>
    intro _
    unfold elementsBackFrom
    rw [if_pos h.begin_eq.symm]
    rfl
  | succ k ih =>
    intro hk
    unfold elementsBackFrom
    rw [if_neg (by rw [h.begin_eq]; exact h.pos_zero_ne (by omega) hk)]
    simp only [hprev k (by omega), h.deref k (by omega), ih (by omega), Option.map_some]
    rw [List.range_succ, List.map_append, List.reverse_append]
    rfl

/-- **The loop from the back** reads the elements in reverse order. -/
theorem yieldsBack (h : r.Indexed n pos el) (hprev : ∀ k < n, r.prev (pos (k + 1)) = .ok (pos k)) :
    r.YieldsBack ((List.range n).map el).reverse := by
  refine ⟨n + 1, ?_⟩
  rw [h.end_eq]
  exact h.elementsBackFrom_eq hprev n (by omega)

/-- **A range whose `--` leads to the position before** can be walked both ways. -/
theorem bidirectional (h : r.Indexed n pos el) (hprev : ∀ k < n, r.prev (pos (k + 1)) = .ok (pos k)) :
    r.Bidirectional := by
  refine ⟨_, h.yields, h.yieldsBack hprev, ?_⟩
  intro it hp hne
  obtain ⟨k, hk, rfl⟩ := h.exists_of_position hp hne
  exact ⟨pos (k + 1), h.next k hk, hprev k hk⟩

end Indexed

/-- A range whose `--` misses the last element cannot be walked from the back. -/
theorem not_bidirectional_of_last {es : List α} {a : α} (h : r.Yields (es ++ [a]))
    (hlast : ∀ it, r.prev r.end_ = .ok it → r.deref it ≠ .ok a) : ¬ r.Bidirectional := by
  rintro ⟨es', hes', hback, -⟩
  obtain rfl := hes'.unique h
  rw [List.reverse_append, List.reverse_singleton, List.singleton_append] at hback
  obtain ⟨it, hit, ha⟩ := hback.head
  exact hlast it hit ha

theorem Indexed.not_bidirectional {n : ℕ} {pos : ℕ → ι} {el : ℕ → α} (h : r.Indexed (n + 1) pos el)
    (hlast : ∀ it, r.prev r.end_ = .ok it → r.deref it ≠ .ok (el n)) : ¬ r.Bidirectional := by
  have hyields := h.yields
  rw [List.range_succ, List.map_append, List.map_singleton] at hyields
  exact not_bidirectional_of_last hyields hlast

end IteratorRange

end Lib
