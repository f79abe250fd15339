import EdenCommon.Lib.SortedVector
import Mathlib.Data.List.Destutter

/-!
# Search, sort and dedupe as the C++ library does them

`bisect` is the halving loop of `std::lower_bound`; on a sorted vector it stops at the
lower bound (`bisect_eq_lowerBound`). `unique` is `std::unique`. A stable sort followed by
`unique` leaves, in strictly ascending order, the first element of each rank
(`sortedBy_unique`, `mem_unique_mergeSort`).
-/

namespace Lib

variable {α β : Type*}

/-- The loop of `std::lower_bound` over `len` positions from `first` on, where `below`
answers the comparison with the element of a position. -/
def bisect (below : ℕ → Bool) (first len : ℕ) : ℕ :=
  if len = 0 then first
  else
    let half := len / 2
    if below (first + half) then bisect below (first + half + 1) (len - half - 1)
    else bisect below first half
  termination_by len

/-- The loop finds the point where the answers change. -/
theorem bisect_eq {below : ℕ → Bool} {n : ℕ} (first len : ℕ) (hn : first ≤ n) (hlen : n ≤ first + len)
    (hlt : ∀ i, first ≤ i → i < n → below i = true)
    (hge : ∀ i, n ≤ i → i < first + len → below i = false) : bisect below first len = n := by
  induction first, len using bisect.induct below with
  | case1 first => unfold bisect; simp; omega
  | case2 first len hne half hb ih =>
    have hin : first + half < n := by
      by_contra hle
      rw [hge (first + half) (by omega) (by omega)] at hb
      exact absurd hb Bool.false_ne_true
    rw [bisect, if_neg hne, if_pos hb]
    exact ih hin (by omega) (fun i h1 h2 => hlt i (by omega) h2) fun i h1 h2 => hge i h1 (by omega)
  | case3 first len hne half hb ih =>
    have hout : n ≤ first + half := by
      by_contra hlt'
      exact hb (hlt (first + half) (by omega) (by omega))
    rw [bisect, if_neg hne, if_neg hb]
    exact ih hn (by omega) hlt fun i h1 h2 => hge i h1 (by omega)

/-- **Bisection of a sorted vector** ends at the lower bound. -/
theorem bisect_eq_lowerBound [LinearOrder β] {rank : α → β} {l : List α} (hl : SortedBy rank l) {r : β}
    {less : α → Bool} (hless : ∀ a, less a = true ↔ rank a < r) :
    bisect (fun i => l[i]?.any less) 0 l.length = lowerBound rank l r := by
  refine bisect_eq 0 l.length (Nat.zero_le _) (by simpa using lowerBound_le) ?_ ?_
  · intro i _ hi
    have hlen : i < l.length := lt_of_lt_of_le hi lowerBound_le
    have ha := List.getElem?_eq_getElem hlen
    simpa [ha, hless] using rank_lt_of_lt_lowerBound ha hi
  · intro i hi hlen
    have hlen' : i < l.length := by omega
    have ha := List.getElem?_eq_getElem hlen'
    have hb := List.getElem?_eq_getElem (lt_of_le_of_lt hi hlen')
    have hle : rank l[lowerBound rank l r] ≤ rank l[i] := by
      rcases Nat.eq_or_lt_of_le hi with h | h
      · simp only [h]; exact le_rfl
      · exact (hl.getElem?_lt hb ha h).le
    have hno : ¬ less l[i] = true := by rw [hless]; exact not_lt.2 ((le_rank_lowerBound hb).trans hle)
    simpa [ha] using hno

/-- `std::unique`: of each run of consecutive equivalent elements the first is kept. -/
def unique (equal : α → α → Bool) (l : List α) : List α := l.destutter fun a b => ¬ equal a b

section Unique

variable [LinearOrder β] {rank : α → β} {equal : α → α → Bool} {l : List α}

/-- Removing the repetitions of a sorted vector leaves a strict order. -/
theorem sortedBy_unique (hequal : ∀ a b, equal a b = true ↔ rank a = rank b)
    (hl : l.Pairwise fun a b => rank a ≤ rank b) : SortedBy rank (unique equal l) := by
  have hle : (unique equal l).Pairwise fun a b => rank a ≤ rank b := hl.sublist (List.destutter_sublist _ l)
  have hne : (unique equal l).IsChain fun a b => ¬ equal a b := List.isChain_destutter _ l
  have hlt : (unique equal l).IsChain fun a b => rank a < rank b := by
    rw [List.isChain_iff_getElem] at hne ⊢
    intro i hi
    have hij := List.pairwise_iff_getElem.1 hle i (i + 1) (by omega) hi (Nat.lt_succ_self i)
    exact lt_of_le_of_ne hij fun he => hne i hi ((hequal _ _).2 he)
  have : IsTrans α fun a b => rank a < rank b := ⟨fun _ _ _ h h' => lt_trans h h'⟩
  exact hlt.pairwise

/-- The elements that `unique` keeps of a sorted vector: the first of each rank. -/
theorem mem_unique (hequal : ∀ a b, equal a b = true ↔ rank a = rank b)
    (hl : l.Pairwise fun a b => rank a ≤ rank b) (e : α) :
    e ∈ unique equal l ↔ l.find? (fun a => equal a e) = some e := by
  have hself : equal e e = true := (hequal e e).2 rfl
  unfold unique
  cases l with
  | nil => simp
  | cons a l =>
    rw [List.destutter_cons']
    -- on the rest, with the last element that was kept in front of it
    induction l generalizing a with
    | nil =>
      by_cases h : equal a e = true
      · rw [List.find?_cons_of_pos (p := fun x => equal x e) h, List.destutter'_nil, List.mem_singleton,
          Option.some_inj, eq_comm]
      · have hne : e ≠ a := fun he => h (he ▸ hself)
        simp [h, hne]
    | cons b l ih =>
      obtain ⟨ha, hbl⟩ := List.pairwise_cons.1 hl
      by_cases hab : equal a b = true
      · -- `b` is dropped
        have hl' : (a :: l).Pairwise fun a b => rank a ≤ rank b :=
          List.pairwise_cons.2 ⟨fun x hx => ha x (List.mem_cons_of_mem _ hx), (List.pairwise_cons.1 hbl).2⟩
        have hbe : equal b e = equal a e := by
          rw [Bool.eq_iff_iff, hequal, hequal, (hequal a b).1 hab]
        have hfind : (a :: b :: l).find? (fun x => equal x e) = (a :: l).find? fun x => equal x e := by
          simp only [List.find?_cons, hbe]
          cases equal a e <;> rfl
        rw [List.destutter'_cons_neg _ (by simpa using hab), hfind]
        exact ih a hl'
      · rw [List.destutter'_cons_pos _ (by simpa using hab), List.mem_cons]
        refine (or_congr_right (ih b hbl)).trans ?_
        by_cases h : equal a e = true
        · -- nothing behind `a` has its rank
          have hlt : rank a < rank b :=
            lt_of_le_of_ne (ha b List.mem_cons_self) fun he => hab ((hequal a b).2 he)
          have hnone : (b :: l).find? (fun x => equal x e) = none := by
            refine List.find?_eq_none.2 fun x hx hxe => ?_
            have hbx : rank b ≤ rank x := by
              rcases List.mem_cons.1 hx with rfl | hx
              · exact le_rfl
              · exact (List.pairwise_cons.1 hbl).1 x hx
            have hxa : rank x = rank a := ((hequal x e).1 hxe).trans ((hequal a e).1 h).symm
            exact absurd (hlt.trans_le hbx) (by rw [hxa]; exact lt_irrefl _)
          rw [hnone, List.find?_cons_of_pos (p := fun x => equal x e) h, Option.some_inj, eq_comm (a := e)]
          simp
        · have hne : e ≠ a := fun he => h (he ▸ hself)
          rw [List.find?_cons_of_neg (p := fun x => equal x e) (a := a) h]
          simp [hne]

/-- **A stable sort followed by `unique`** keeps the first element of each rank. -/
theorem mem_unique_mergeSort (rank : α → β) (hequal : ∀ a b, equal a b = true ↔ rank a = rank b) {le : α → α → Bool}
    (hle : ∀ a b, le a b = true ↔ rank a ≤ rank b) (l : List α) :
    SortedBy rank (unique equal (l.mergeSort le)) ∧
      ∀ e, e ∈ unique equal (l.mergeSort le) ↔ l.find? (fun a => equal a e) = some e := by
  have htrans := trans_of_rank hle
  have htotal := total_of_rank hle
  have hsorted : (l.mergeSort le).Pairwise fun a b => rank a ≤ rank b :=
    (List.pairwise_mergeSort htrans htotal l).imp fun {a b} h => (hle a b).1 h
  refine ⟨sortedBy_unique hequal hsorted, fun e => ?_⟩
  rw [mem_unique hequal hsorted, ← List.head?_filter, ← List.head?_filter]
  -- by stability the elements of one rank keep their order
  have hsub : (l.filter fun a => equal a e).Sublist (l.mergeSort le) := by
    refine List.sublist_mergeSort htrans htotal ?_ List.filter_sublist
    refine List.pairwise_of_forall_mem_list fun a ha b hb => ?_
    have h1 : rank a = rank e := (hequal a e).1 (List.mem_filter.1 ha).2
    have h2 : rank b = rank e := (hequal b e).1 (List.mem_filter.1 hb).2
    exact (hle a b).2 (h1.trans h2.symm).le
  have hsub' := hsub.filter fun a => equal a e
  rw [List.filter_filter, List.filter_congr (q := fun a => equal a e) (by simp)] at hsub'
  have hlen := ((List.mergeSort_perm l le).filter fun a => equal a e).length_eq
  rw [hsub'.eq_of_length hlen.symm]

end Unique

end Lib
