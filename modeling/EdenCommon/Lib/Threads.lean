import Mathlib.Algebra.GroupWithZero.Nat
import Mathlib.Algebra.Order.BigOperators.Group.Finset
import Mathlib.Data.List.Count

/-!
# Threads that step one at a time

Threads are entries of a list or values of a function, and a step of one thread sets its
entry: what holds of all threads, and how many of them are in a given part of their code.
-/

namespace Lib

section List

variable {α : Type*} {l : List α} {i : ℕ} {c d : α}

/-- The thread that steps leaves the place it was in and comes to its new one. -/
theorem countP_set_add (p : α → Bool) (hi : l[i]? = some c) :
    (l.set i d).countP p + (p c).toNat = l.countP p + (p d).toNat := by
  obtain ⟨hlt, hget⟩ := List.getElem?_eq_some_iff.1 hi
  have hpos : p c = true → 0 < l.countP p := fun h => List.countP_pos_iff.2 ⟨c, List.mem_of_getElem? hi, h⟩
  rw [List.countP_set hlt, hget]
  cases hc : p c with
  | false => cases p d <;> simp
  | true =>
    have := hpos hc
    cases p d <;> simp <;> omega

/-- The same for a sum over the threads. -/
theorem sum_map_set_add (f : α → ℕ) : ∀ {l : List α} {i : ℕ}, l[i]? = some c →
    ((l.set i d).map f).sum + f c = (l.map f).sum + f d := by
  intro l
  induction l with
  | nil => intro i hi; cases hi
  | cons x l ih =>
    intro i hi
    cases i with
    | zero =>
      obtain rfl : x = c := by simpa using hi
      simp only [List.set_cons_zero, List.map_cons, List.sum_cons]
      omega
    | succ i =>
      rw [List.getElem?_cons_succ] at hi
      have := ih hi
      simp only [List.set_cons_succ, List.map_cons, List.sum_cons]
      omega

theorem countP_modify_add (p : α → Bool) (f : α → α) (hi : l[i]? = some c) :
    (l.modify i f).countP p + (p c).toNat = l.countP p + (p (f c)).toNat := by
  have hset : l.modify i f = l.set i (f c) := by
    apply List.ext_getElem?
    intro j
    by_cases hj : i = j
    · subst hj
      have hlt := (List.getElem?_eq_some_iff.1 hi).1
      rw [List.getElem?_modify_eq, List.getElem?_set_self hlt, hi]
      rfl
    · rw [List.getElem?_modify_ne _ _ hj, List.getElem?_set_ne hj]
  rw [hset]
  exact countP_set_add p hi

/-- At most one thread is there. -/
theorem eq_of_countP_le_one (p : α → Bool) : ∀ {l : List α} {i j : ℕ} {c d : α}, l.countP p ≤ 1 →
    l[i]? = some c → l[j]? = some d → p c = true → p d = true → i = j := by
  intro l
  induction l with
  | nil => intro i j c d _ hi; cases hi
  | cons x l ih =>
    intro i j c d hle hi hj hc hd
    have hpos : ∀ {k : ℕ} {e : α}, l[k]? = some e → p e = true → 0 < l.countP p :=
      fun hk he => List.countP_pos_iff.2 ⟨_, List.mem_of_getElem? hk, he⟩
    rw [List.countP_cons] at hle
    cases i with
    | zero =>
      cases j with
      | zero => rfl
      | succ j =>
        have h0 : x = c := by simpa using hi
        rw [List.getElem?_cons_succ] at hj
        have := hpos hj hd
        rw [h0, if_pos hc] at hle
        omega
    | succ i =>
      cases j with
      | zero =>
        have h0 : x = d := by simpa using hj
        rw [List.getElem?_cons_succ] at hi
        have := hpos hi hc
        rw [h0, if_pos hd] at hle
        omega
      | succ j =>
        rw [List.getElem?_cons_succ] at hi hj
        have hle' : l.countP p ≤ 1 := by omega
        rw [ih hle' hi hj hc hd]

theorem forall_mem_set {P : α → Prop} (h : ∀ x ∈ l, P x) (hd : P d) : ∀ x ∈ l.set i d, P x := by
  intro x hx
  obtain hx | rfl := List.mem_or_eq_of_mem_set hx
  · exact h x hx
  · exact hd

end List

section Function

variable {ι : Type*} [DecidableEq ι] {β : ι → Type*}

/-- What holds of every thread holds behind a step, if it does of the one that steps. -/
theorem forall_update {P : ∀ i, β i → Prop} {f : ∀ i, β i} {i : ι} {d : β i} (hd : P i d)
    (h : ∀ j, j ≠ i → P j (f j)) : ∀ j, P j (Function.update f i d j) := by
  intro j
  by_cases hj : j = i
  · subst hj
    rw [Function.update_self]
    exact hd
  · rw [Function.update_of_ne hj]
    exact h j hj

variable [Fintype ι]

/-- The threads in a given part of their code. -/
def count (p : ∀ i, β i → Bool) (f : ∀ i, β i) : ℕ := ∑ i, (p i (f i)).toNat

theorem count_update_add (p : ∀ i, β i → Bool) (f : ∀ i, β i) (i : ι) (d : β i) :
    count p (Function.update f i d) + (p i (f i)).toNat = count p f + (p i d).toNat := by
  have hrest : ∑ j ∈ Finset.univ.erase i, (p j (Function.update f i d j)).toNat =
      ∑ j ∈ Finset.univ.erase i, (p j (f j)).toNat := by
    refine Finset.sum_congr rfl fun j hj => ?_
    rw [Function.update_of_ne (Finset.ne_of_mem_erase hj)]
  rw [count, count, ← Finset.add_sum_erase _ _ (Finset.mem_univ i),
    ← Finset.add_sum_erase _ (fun j => (p j (f j)).toNat) (Finset.mem_univ i), hrest, Function.update_self]
  omega

omit [DecidableEq ι] in
theorem count_eq_zero {p : ∀ i, β i → Bool} {f : ∀ i, β i} : count p f = 0 ↔ ∀ i, p i (f i) = false := by
  simp [count]

/-- Two threads in that part of their code. -/
theorem two_le_count {p : ∀ i, β i → Bool} {f : ∀ i, β i} {i j : ι} (hij : i ≠ j) (hi : p i (f i) = true)
    (hj : p j (f j) = true) : 2 ≤ count p f := by
  have hsub : ∑ k ∈ {i, j}, (p k (f k)).toNat ≤ count p f :=
    Finset.sum_le_sum_of_subset (Finset.subset_univ _)
  rw [Finset.sum_pair hij, hi, hj] at hsub
  exact hsub

end Function

end Lib
