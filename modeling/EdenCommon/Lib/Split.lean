import Mathlib.Data.List.TakeWhile
import Mathlib.Data.Nat.Notation

/-!
# Lists cut at separators

`List.splitOnP` cuts a list at the elements that satisfy a predicate. Scanners find
the cuts one by one, by position; these lemmas say what one step of a scan leaves.
Where there are several separators, `joinBy` puts the pieces together again.
-/

namespace Lib

variable {α : Type*} {p : α → Bool}

theorem takeWhile_not_eq_take (l : List α) : (l.takeWhile fun a => !p a) = l.take (l.findIdx p) := by
  have h := @List.takeWhile_eq_take_findIdx_not α l fun a => !p a
  simpa only [Bool.not_not] using h

theorem length_takeWhile_not (l : List α) : (l.takeWhile fun a => !p a).length = l.findIdx p := by
  rw [takeWhile_not_eq_take, List.length_take]
  exact min_eq_left List.findIdx_le_length

/-- The first cut, by position. -/
theorem splitOnP_of_findIdx_lt {l : List α} (h : l.findIdx p < l.length) :
    l.splitOnP p = l.take (l.findIdx p) :: (l.drop (l.findIdx p + 1)).splitOnP p := by
  have hl : l.take (l.findIdx p) ++ l[l.findIdx p] :: l.drop (l.findIdx p + 1) = l := by
    rw [List.getElem_cons_drop, List.take_append_drop]
  have hfront : ∀ x ∈ l.take (l.findIdx p), p x = false := by
    intro x hx
    rw [← takeWhile_not_eq_take] at hx
    simpa using List.mem_takeWhile_imp hx
  have hcut := List.splitOnP_append_cons_of_forall_mem hfront _ (List.findIdx_getElem (w := h))
    (l.drop (l.findIdx p + 1))
  rwa [hl] at hcut

theorem splitOnP_of_findIdx_eq {l : List α} (h : l.findIdx p = l.length) : l.splitOnP p = [l] :=
  List.splitOnP_eq_singleton (List.findIdx_eq_length.1 h)

/-- No piece holds a separator. -/
theorem not_of_mem_splitOnP {l : List α} {x : α} {s : List α} (hs : s ∈ l.splitOnP p) (hx : x ∈ s) :
    p x = false := by
  induction l generalizing s with
  | nil => simp at hs; subst hs; simp at hx
  | cons a l ih =>
    rw [List.splitOnP_cons_eq_if_modifyHead] at hs
    split at hs
    · rcases List.mem_cons.1 hs with rfl | hs
      · simp at hx
      · exact ih hs hx
    · rename_i ha
      cases hsp : l.splitOnP p with
      | nil => exact absurd hsp (List.splitOnP_ne_nil p l)
      | cons s₀ rest =>
        rw [hsp] at hs ih
        simp only [List.modifyHead_cons, List.mem_cons] at hs
        rcases hs with rfl | hs
        · rcases List.mem_cons.1 hx with rfl | hx
          · simpa using ha
          · exact ih List.mem_cons_self hx
        · exact ih (List.mem_cons_of_mem _ hs) hx

/-- The last cut, by position from the end. -/
theorem splitOnP_of_findIdx_reverse_lt {l : List α} (h : l.reverse.findIdx p < l.length) :
    l.splitOnP p = (l.take (l.length - l.reverse.findIdx p - 1)).splitOnP p ++
      [l.drop (l.length - l.reverse.findIdx p)] := by
  set n := l.reverse.findIdx p with hn
  have hw : l.reverse.findIdx p < l.reverse.length := by rw [List.length_reverse]; exact h
  have hsep : p (l[l.length - n - 1]) = true := by
    have := @List.findIdx_getElem _ p l.reverse hw
    rw [List.getElem_reverse] at this
    simpa only [← hn, Nat.sub_right_comm] using this
  have hback : ∀ x ∈ l.drop (l.length - n), p x = false := by
    intro x hx
    have hx' : x ∈ l.reverse.takeWhile fun a => !p a := by
      rw [takeWhile_not_eq_take, ← hn, List.take_reverse]
      exact List.mem_reverse.2 hx
    simpa using List.mem_takeWhile_imp hx'
  have hl : l.take (l.length - n - 1) ++ l[l.length - n - 1] :: l.drop (l.length - n) = l := by
    have hcons := List.drop_eq_getElem_cons (show l.length - n - 1 < l.length by omega)
    rw [show l.length - n - 1 + 1 = l.length - n by omega] at hcons
    rw [← hcons, List.take_append_drop]
  have hcut := List.splitOnP_append_cons (l.take (l.length - n - 1)) (l.drop (l.length - n)) hsep
  rw [hl, List.splitOnP_eq_singleton hback] at hcut
  exact hcut

/-- Pieces without separators are what a join of them is cut into. -/
theorem splitOnP_intercalate {sep : α} (hsep : p sep) {ls : List (List α)} (hne : ls ≠ [])
    (h : ∀ l ∈ ls, ∀ x ∈ l, p x = false) : ([sep].intercalate ls).splitOnP p = ls := by
  induction ls with
  | nil => exact absurd rfl hne
  | cons l ls ih =>
    have hl := h l List.mem_cons_self
    cases ls with
    | nil => simpa [List.intercalate] using List.splitOnP_eq_singleton hl
    | cons l' ls =>
      rw [List.intercalate_cons_cons, List.append_assoc, List.singleton_append,
        List.splitOnP_append_cons_of_forall_mem hl sep hsep,
        ih (by simp) fun m hm => h m (List.mem_cons_of_mem _ hm)]

/-- Only the elements of a list matter for its pieces. -/
theorem splitOnP_congr {q : α → Bool} {l : List α} (h : ∀ x ∈ l, p x = q x) : l.splitOnP p = l.splitOnP q := by
  induction l with
  | nil => rfl
  | cons a l ih =>
    rw [List.splitOnP_cons_eq_if_modifyHead, List.splitOnP_cons_eq_if_modifyHead, h a List.mem_cons_self,
      ih fun x hx => h x (List.mem_cons_of_mem a hx)]

/-- What stands in a join is the separator or stands in a piece. -/
theorem mem_intercalate {sep x : α} {ls : List (List α)} (h : x ∈ [sep].intercalate ls) :
    x = sep ∨ ∃ l ∈ ls, x ∈ l := by
  induction ls with
  | nil => cases h
  | cons l ls ih =>
    cases ls with
    | nil => exact .inr ⟨l, List.mem_cons_self, by simpa [List.intercalate] using h⟩
    | cons l' ls =>
      rw [List.intercalate_cons_cons, List.append_assoc] at h
      rcases List.mem_append.1 h with h | h
      · exact .inr ⟨l, List.mem_cons_self, h⟩
      rcases List.mem_cons.1 h with h | h
      · exact .inl h
      · refine (ih h).imp_right ?_
        rintro ⟨m, hm, hx⟩
        exact ⟨m, List.mem_cons_of_mem l hm, hx⟩

/-- A list none of whose pieces is empty has no separator at either end. -/
theorem no_outer_separator {l : List α} (h : ∀ s ∈ l.splitOnP p, s ≠ []) :
    (∀ x, l.head? = some x → p x = false) ∧ ∀ x, l.getLast? = some x → p x = false := by
  constructor
  · intro x hx
    obtain ⟨t, rfl⟩ := List.head?_eq_some_iff.1 hx
    by_contra hp
    rw [List.splitOnP_cons_eq_if_modifyHead, if_pos (by simpa using hp)] at h
    exact h [] List.mem_cons_self rfl
  · intro x hx
    obtain ⟨t, rfl⟩ := List.getLast?_eq_some_iff.1 hx
    by_contra hp
    rw [List.splitOnP_append_cons t [] (by simpa using hp)] at h
    exact h [] (by simp) rfl

/-- The first element that satisfies one of two predicates is the first one of either. -/
theorem findIdx?_or (q : α → Bool) (l : List α) : l.findIdx? (fun a => p a || q a) =
    match l.findIdx? q, l.findIdx? p with
    | some j, none => some j
    | some j, some i => some (min i j)
    | none, i => i := by
  induction l with
  | nil => rfl
  | cons a l ih =>
    simp only [List.findIdx?_cons, ih]
    rcases l.findIdx? p with - | i <;> rcases l.findIdx? q with - | j <;>
      cases p a <;> cases q a <;> simp

/-! ### Terminated pieces -/

/-- Pieces with a terminator behind each. -/
def terminate (sep : α) (ls : List (List α)) : List α := ls.flatMap fun l => l ++ [sep]

@[simp] theorem terminate_nil (sep : α) : terminate sep [] = [] := rfl

@[simp] theorem terminate_cons (sep : α) (l : List α) (ls : List (List α)) :
    terminate sep (l :: ls) = l ++ sep :: terminate sep ls := by
  simp [terminate]

theorem terminate_append (sep : α) (ls ms : List (List α)) :
    terminate sep (ls ++ ms) = terminate sep ls ++ terminate sep ms := List.flatMap_append

/-- Terminated pieces are separated pieces and one terminator. -/
theorem terminate_eq_intercalate (sep : α) {ls : List (List α)} (h : ls ≠ []) :
    terminate sep ls = [sep].intercalate ls ++ [sep] := by
  induction ls with
  | nil => exact absurd rfl h
  | cons l ls ih =>
    cases ls with
    | nil => simp [List.intercalate]
    | cons l' ls =>
      rw [terminate_cons, ih (by simp), List.intercalate_cons_cons]
      simp only [List.append_assoc, List.cons_append, List.nil_append]

/-- What is cut at the terminators is the pieces, and what stands behind the last one is cut too. -/
theorem splitOnP_terminate_append {sep : α} (hsep : p sep = true) {ls : List (List α)}
    (h : ∀ l ∈ ls, ∀ x ∈ l, p x = false) (t : List α) :
    (terminate sep ls ++ t).splitOnP p = ls ++ t.splitOnP p := by
  induction ls with
  | nil => rfl
  | cons l ls ih =>
    rw [terminate_cons, List.append_assoc, List.cons_append,
      List.splitOnP_append_cons_of_forall_mem (h l List.mem_cons_self) sep hsep,
      ih fun m hm => h m (List.mem_cons_of_mem l hm), List.cons_append]

/-! ### Pieces with separators of their own -/

/-- Pieces joined, the `k`-th one behind the separator `sep k`. -/
def joinBy (sep : ℕ → α) : List (List α) → List α
  | [] => []
  | [l] => l
  | l :: l' :: ls => l ++ sep 1 :: joinBy (fun k => sep (k + 1)) (l' :: ls)

variable {sep : ℕ → α} {ls ms : List (List α)}

@[simp] theorem joinBy_nil : joinBy sep [] = [] := rfl

@[simp] theorem joinBy_singleton (l : List α) : joinBy sep [l] = l := rfl

theorem joinBy_cons (l : List α) (h : ls ≠ []) :
    joinBy sep (l :: ls) = l ++ sep 1 :: joinBy (fun k => sep (k + 1)) ls := by
  obtain ⟨m, ms, rfl⟩ := List.exists_cons_of_ne_nil h
  rfl

/-- No separator stands in front of the first piece. -/
theorem joinBy_congr {sep' : ℕ → α} (h : ∀ k, 0 < k → sep k = sep' k) : joinBy sep ls = joinBy sep' ls := by
  induction ls generalizing sep sep' with
  | nil => rfl
  | cons l ls ih =>
    by_cases hls : ls = []
    · subst hls
      rfl
    · rw [joinBy_cons l hls, joinBy_cons l hls, h 1 (by omega), ih fun k _ => h (k + 1) (by omega)]

theorem joinBy_append (hl : ls ≠ []) (hm : ms ≠ []) :
    joinBy sep (ls ++ ms) = joinBy sep ls ++ sep ls.length :: joinBy (fun k => sep (k + ls.length)) ms := by
  induction ls generalizing sep with
  | nil => exact absurd rfl hl
  | cons l ls ih =>
    by_cases h : ls = []
    · subst h
      rw [List.singleton_append, joinBy_cons l hm, joinBy_singleton]
      rfl
    · rw [List.cons_append, joinBy_cons l (by simp [h]), ih h, joinBy_cons l h, List.length_cons, List.append_assoc,
        List.cons_append]
      simp only [Nat.add_assoc]

/-- With one separator for all it is the usual join. -/
theorem joinBy_const (a : α) : joinBy (fun _ => a) ls = [a].intercalate ls := by
  induction ls with
  | nil => rfl
  | cons l ls ih =>
    by_cases h : ls = []
    · subst h
      simp [List.intercalate]
    · rw [joinBy_cons l h, ih]
      obtain ⟨m, ms, rfl⟩ := List.exists_cons_of_ne_nil h
      simp [List.intercalate_cons_cons]

/-- Pieces without separators are what a join of them is cut into. -/
theorem splitOnP_joinBy (hsep : ∀ k, p (sep k) = true) (hne : ls ≠ []) (h : ∀ l ∈ ls, ∀ x ∈ l, p x = false) :
    (joinBy sep ls).splitOnP p = ls := by
  induction ls generalizing sep with
  | nil => exact absurd rfl hne
  | cons l ls ih =>
    have hl := h l List.mem_cons_self
    by_cases hls : ls = []
    · subst hls
      exact List.splitOnP_eq_singleton hl
    · rw [joinBy_cons l hls, List.splitOnP_append_cons_of_forall_mem hl _ (hsep 1),
        ih (fun k => hsep (k + 1)) hls fun m hm => h m (List.mem_cons_of_mem _ hm)]

/-- **Every list is a join of its pieces**, with the separators that it has. -/
theorem exists_joinBy_splitOnP {a : α} (ha : p a = true) (l : List α) :
    ∃ sep : ℕ → α, (∀ k, p (sep k) = true) ∧ joinBy sep (l.splitOnP p) = l := by
  induction hn : l.length using Nat.strong_induction_on generalizing l with
  | _ n ih =>
    have hle : l.findIdx p ≤ l.length := List.findIdx_le_length
    rcases Nat.eq_or_lt_of_le hle with heq | hlt
    · refine ⟨fun _ => a, fun _ => ha, ?_⟩
      rw [splitOnP_of_findIdx_eq heq, joinBy_singleton]
    · -- the separators behind the first one are those of the rest
      have hdrop : (l.drop (l.findIdx p + 1)).length < n := by
        rw [List.length_drop]
        omega
      obtain ⟨sep, hsep, hjoin⟩ := ih _ hdrop (l.drop (l.findIdx p + 1)) rfl
      refine ⟨fun k => if k ≤ 1 then l[l.findIdx p] else sep (k - 1), fun k => ?_, ?_⟩
      · by_cases hk : k ≤ 1
        · simp only [hk, if_true]
          exact List.findIdx_getElem
        · simp only [hk, if_false]
          exact hsep (k - 1)
      · have hrest : joinBy (fun k => if k + 1 ≤ 1 then l[l.findIdx p] else sep (k + 1 - 1))
            ((l.drop (l.findIdx p + 1)).splitOnP p) = l.drop (l.findIdx p + 1) := by
          refine (joinBy_congr fun k hk => ?_).trans hjoin
          simp only [show ¬ k + 1 ≤ 1 by omega, if_false, Nat.add_sub_cancel]
        rw [splitOnP_of_findIdx_lt hlt, joinBy_cons _ (List.splitOnP_ne_nil p _), hrest]
        simp only [Nat.le_refl, if_true, List.getElem_cons_drop, List.take_append_drop]

end Lib
