import EdenCommon.Proof.PathMap
import EdenCommon.Spec.PathMapMutator

/-!
# The mutator refines the map

`Inv` is what every history of operations keeps: the two parts of the vector are
sorted and share no folded key, and erased positions are inside the vector. Under it
a key has at most one position, erased or not, so `findImpl` sees everything there is
to see of a key (`findImpl_cases`) and the live entries are the contents.

* `compact_spec`: compaction leaves the live entries, sorted, and nothing erased.
* `step_stores`: every operation keeps `Inv` and means what `Contents.step` says.
* `mutator_refines`: so does every history, and `finalize` is the map that performs
  the same operations eagerly.
-/

namespace EdenCommon

open Lib

variable {K V : Type} [PathPiece K] {P : Platform} {cs : CaseSensitivity}

namespace PathMapMutator

/-- **The invariant of the mutator.** -/
structure Inv (P : Platform) (cs : CaseSensitivity) (m : PathMapMutator K V) : Prop where
  start_le : m.suffixStart ≤ m.vec.length
  front_sorted : SortedBy (rank P cs) (m.vec.take m.suffixStart)
  back_sorted : SortedBy (rank P cs) (m.vec.drop m.suffixStart)
  disjoint : ∀ a ∈ m.vec.take m.suffixStart, ∀ b ∈ m.vec.drop m.suffixStart, rank P cs a ≠ rank P cs b
  erased_lt : ∀ i ∈ m.erased, i < m.vec.length

variable {m : PathMapMutator K V}

/-- A folded key has one position in the vector. -/
theorem Inv.distinct (hm : m.Inv P cs) : Distinct (rank P cs) m.vec := by
  intro i j a b ha hb hr
  rcases getElem?_take_or_drop m.suffixStart ha with ⟨hi, ha'⟩ | ⟨hi, ha'⟩
  · rcases getElem?_take_or_drop m.suffixStart hb with ⟨hj, hb'⟩ | ⟨hj, hb'⟩
    · exact hm.front_sorted.getElem?_inj ha' hb' hr
    · exact absurd hr (hm.disjoint a (List.mem_of_getElem? ha') b (List.mem_of_getElem? hb'))
  · rcases getElem?_take_or_drop m.suffixStart hb with ⟨hj, hb'⟩ | ⟨hj, hb'⟩
    · exact absurd hr.symm (hm.disjoint b (List.mem_of_getElem? hb') a (List.mem_of_getElem? ha'))
    · have := hm.back_sorted.getElem?_inj ha' hb' hr
      omega

/-- The invariant is about the folded keys of the vector and the erased positions. -/
theorem Inv.of_map_eq (hm : m.Inv P cs) {vec : List (K × V)} {erased : Finset ℕ}
    (hv : vec.map (rank P cs) = m.vec.map (rank P cs)) (he : ∀ i ∈ erased, i < m.vec.length) :
    Inv P cs ⟨vec, m.suffixStart, erased⟩ := by
  have hlen : vec.length = m.vec.length := by simpa using congrArg List.length hv
  have htake : (vec.take m.suffixStart).map (rank P cs) = (m.vec.take m.suffixStart).map (rank P cs) := by
    rw [List.map_take, hv, List.map_take]
  have hdrop : (vec.drop m.suffixStart).map (rank P cs) = (m.vec.drop m.suffixStart).map (rank P cs) := by
    rw [List.map_drop, hv, List.map_drop]
  refine ⟨by rw [hlen]; exact hm.start_le, ?_, ?_, ?_, by rw [hlen]; exact he⟩
  · rw [sortedBy_iff_map, htake, ← sortedBy_iff_map]; exact hm.front_sorted
  · rw [sortedBy_iff_map, hdrop, ← sortedBy_iff_map]; exact hm.back_sorted
  · intro a ha b hb
    obtain ⟨a', ha', hra⟩ := List.mem_map.1 (htake ▸ List.mem_map_of_mem ha)
    obtain ⟨b', hb', hrb⟩ := List.mem_map.1 (hdrop ▸ List.mem_map_of_mem hb)
    rw [← hra, ← hrb]
    exact hm.disjoint a' ha' b' hb'

/-- **What `findImpl` finds**: the position of the key, or that there is none. -/
theorem findImpl_cases (hm : m.Inv P cs) (key : K) :
    (∃ i e, m.findImpl P cs key = (some i, decide (i ∈ m.erased)) ∧ m.vec[i]? = some e ∧
      rank P cs e = foldKey P cs key) ∨
    (m.findImpl P cs key = (none, false) ∧ ∀ a ∈ m.vec, rank P cs a ≠ foldKey P cs key) := by
  unfold findImpl
  rw [findIn_eq, findIn_eq]
  cases hf : search (rank P cs) (m.vec.take m.suffixStart) (foldKey P cs key) with
  | some i =>
    left
    obtain ⟨e, he, hr⟩ := (search_eq_some hm.front_sorted).1 hf
    rw [List.getElem?_take] at he
    split at he
    · exact ⟨i, e, rfl, he, hr⟩
    · cases he
  | none =>
    have hfront := (search_eq_none hm.front_sorted).1 hf
    have hmem : ∀ a ∈ m.vec, a ∈ m.vec.take m.suffixStart ∨ a ∈ m.vec.drop m.suffixStart := by
      intro a ha
      rw [← List.mem_append, List.take_append_drop]
      exact ha
    by_cases hlt : m.suffixStart < m.vec.length
    · simp only [hlt, if_true]
      cases hb : search (rank P cs) (m.vec.drop m.suffixStart) (foldKey P cs key) with
      | some i =>
        left
        obtain ⟨e, he, hr⟩ := (search_eq_some hm.back_sorted).1 hb
        rw [List.getElem?_drop] at he
        exact ⟨m.suffixStart + i, e, rfl, he, hr⟩
      | none =>
        right
        have hback := (search_eq_none hm.back_sorted).1 hb
        exact ⟨rfl, fun a ha => (hmem a ha).elim (hfront a) (hback a)⟩
    · right
      have hnil : m.vec.drop m.suffixStart = [] := List.drop_eq_nil_of_le (by omega)
      simp only [hlt, if_false, true_and]
      intro a ha
      rcases hmem a ha with h | h
      · exact hfront a h
      · rw [hnil] at h; cases h

/-- The three things a key can be: live, erased, or not there. -/
theorem key_cases (hm : m.Inv P cs) {c : Contents K V} (hc : Stores (rank P cs) (live m.vec m.erased) c) (key : K) :
    (∃ i e, m.findImpl P cs key = (some i, false) ∧ m.vec[i]? = some e ∧ rank P cs e = foldKey P cs key ∧
      i ∉ m.erased ∧ c (foldKey P cs key) = some e) ∨
    (∃ i e, m.findImpl P cs key = (some i, true) ∧ m.vec[i]? = some e ∧ rank P cs e = foldKey P cs key ∧
      i ∈ m.erased ∧ c (foldKey P cs key) = none) ∨
    (m.findImpl P cs key = (none, false) ∧ (∀ a ∈ m.vec, rank P cs a ≠ foldKey P cs key) ∧
      c (foldKey P cs key) = none) := by
  rcases findImpl_cases hm key with ⟨i, e, hf, he, hr⟩ | ⟨hf, hnone⟩
  · by_cases hi : i ∈ m.erased
    · right; left
      refine ⟨i, e, by rw [hf]; simp [hi], he, hr, hi, hc.eq_none_iff.2 ?_⟩
      -- a live entry with this key would be at the same position
      intro a ha hra
      obtain ⟨j, hj, hje⟩ := mem_live.1 ha
      have hij := hm.distinct hj he (hra.trans hr.symm)
      rw [hij] at hje
      exact hje hi
    · left
      exact ⟨i, e, by rw [hf]; simp [hi], he, hr, hi, (hc _ _).2 ⟨mem_live.2 ⟨i, he, hi⟩, hr⟩⟩
  · right; right
    refine ⟨hf, hnone, hc.eq_none_iff.2 fun a ha => ?_⟩
    obtain ⟨j, hj, -⟩ := mem_live.1 ha
    exact hnone a (List.mem_of_getElem? hj)

/-! ### Compaction -/

section

variable {α : Type} {erased : Finset ℕ} {s : ℕ}

theorem removeErased_fst (l : List α) : ∀ idx n, (removeErased erased s l idx n).1 = keepFrom erased idx l := by
  induction l with
  | nil => intro idx n; rfl
  | cons a l ih =>
    intro idx n
    unfold removeErased
    rw [keepFrom]
    simp only [ih, decide_eq_true_eq]

theorem removeErased_append (l l' : List α) : ∀ idx n, (removeErased erased s (l ++ l') idx n).2 =
    (removeErased erased s l' (idx + l.length) (removeErased erased s l idx n).2).2 := by
  induction l with
  | nil => intro idx n; rfl
  | cons a l ih =>
    intro idx n
    rw [List.cons_append, removeErased, removeErased]
    simp only [ih, List.length_cons]
    rw [show idx + 1 + l.length = idx + (l.length + 1) by omega]

/-- Behind the prefix nothing is counted. -/
theorem removeErased_back (l : List α) : ∀ idx n, s ≤ idx → (removeErased erased s l idx n).2 = n := by
  induction l with
  | nil => intro idx n _; rfl
  | cons a l ih =>
    intro idx n hidx
    unfold removeErased
    simp only [show ¬ idx < s by omega, decide_false, Bool.and_false, Bool.false_eq_true, if_false]
    exact ih (idx + 1) n (by omega)

/-- In the prefix every entry that goes is counted. -/
theorem removeErased_front (l : List α) : ∀ idx n, idx + l.length ≤ s →
    (removeErased erased s l idx n).2 + (keepFrom erased idx l).length = n + l.length := by
  induction l with
  | nil => intro idx n _; rfl
  | cons a l ih =>
    intro idx n hidx
    rw [List.length_cons] at hidx
    rw [removeErased, keepFrom, List.length_cons]
    by_cases he : idx ∈ erased
    · have := ih (idx + 1) (n + 1) (by omega)
      simp only [he, show idx < s by omega, decide_true, Bool.and_true, if_true]
      omega
    · have := ih (idx + 1) n (by omega)
      simp only [he, decide_false, Bool.false_and, Bool.false_eq_true, if_false, List.length_cons]
      omega

end

/-- What compaction merges: the entries of the prefix and of the suffix that stay. -/
theorem compact_vec (hm : m.Inv P cs) : (m.compact P cs).vec =
    (keepFrom m.erased 0 (m.vec.take m.suffixStart)).merge
      (keepFrom m.erased m.suffixStart (m.vec.drop m.suffixStart))
      fun a b => !isPathPieceLess P cs b.1 a.1 := by
  have hlen : (m.vec.take m.suffixStart).length = m.suffixStart := by
    rw [List.length_take]
    exact Nat.min_eq_left hm.start_le
  have hfst : (removeErased m.erased m.suffixStart m.vec 0 0).1 =
      keepFrom m.erased 0 (m.vec.take m.suffixStart) ++
        keepFrom m.erased m.suffixStart (m.vec.drop m.suffixStart) := by
    have h := @keepFrom_append _ m.erased 0 (m.vec.take m.suffixStart) (m.vec.drop m.suffixStart)
    rw [List.take_append_drop, hlen, Nat.zero_add] at h
    rw [removeErased_fst, h]
  have hsnd : m.suffixStart - (removeErased m.erased m.suffixStart m.vec 0 0).2 =
      (keepFrom m.erased 0 (m.vec.take m.suffixStart)).length := by
    have happ := @removeErased_append _ m.erased m.suffixStart (m.vec.take m.suffixStart)
      (m.vec.drop m.suffixStart) 0 0
    have hback : ∀ n, (removeErased m.erased m.suffixStart (m.vec.drop m.suffixStart) m.suffixStart n).2 = n :=
      fun n => removeErased_back _ _ n le_rfl
    rw [List.take_append_drop, hlen, Nat.zero_add, hback] at happ
    have hcount := @removeErased_front _ m.erased m.suffixStart (m.vec.take m.suffixStart) 0 0
      (by rw [hlen]; omega)
    rw [hlen] at hcount
    omega
  unfold compact
  simp only [hfst, hsnd, List.take_left, List.drop_left]

theorem not_isPathPieceLess_iff (a b : K × V) :
    (!isPathPieceLess P cs b.1 a.1) = true ↔ rank P cs a ≤ rank P cs b := by
  have h : isPathPieceLess P cs b.1 a.1 = true ↔ rank P cs b < rank P cs a := isPathPieceLess_iff b.1 a.1
  rw [Bool.not_eq_true', ← Bool.not_eq_true, h, not_lt]

/-- **Compaction** leaves the live entries, sorted. -/
theorem compact_spec (hm : m.Inv P cs) :
    SortedBy (rank P cs) (m.compact P cs).vec ∧ live (m.compact P cs).vec ∅ = live m.vec m.erased := by
  rw [compact_vec hm]
  refine ⟨?_, ?_⟩
  · refine sortedBy_merge not_isPathPieceLess_iff (hm.front_sorted.sublist (keepFrom_sublist _ _))
      (hm.back_sorted.sublist (keepFrom_sublist _ _)) ?_
    intro a ha b hb
    exact hm.disjoint a ((keepFrom_sublist _ _).subset ha) b ((keepFrom_sublist _ _).subset hb)
  · apply Set.ext
    intro a
    rw [mem_live_empty, List.mem_merge, mem_keepFrom, mem_keepFrom, mem_live]
    constructor
    · intro h
      rcases h with ⟨i, hi, he⟩ | ⟨i, hi, he⟩
      · rw [List.getElem?_take] at hi
        split at hi
        · exact ⟨i, hi, by rwa [Nat.zero_add] at he⟩
        · cases hi
      · rw [List.getElem?_drop] at hi
        exact ⟨m.suffixStart + i, hi, he⟩
    · intro h
      obtain ⟨i, hi, he⟩ := h
      rcases getElem?_take_or_drop m.suffixStart hi with ⟨-, hi'⟩ | ⟨hle, hi'⟩
      · left; exact ⟨i, hi', by rwa [Nat.zero_add]⟩
      · right; exact ⟨i - m.suffixStart, hi', by rwa [show m.suffixStart + (i - m.suffixStart) = i by omega]⟩

theorem compact_inv (hm : m.Inv P cs) : (m.compact P cs).Inv P cs := by
  have hs : (m.compact P cs).suffixStart = (m.compact P cs).vec.length := rfl
  have he : (m.compact P cs).erased = ∅ := rfl
  refine ⟨by rw [hs], ?_, ?_, ?_, ?_⟩
  · rw [hs, List.take_length]; exact (compact_spec hm).1
  · rw [hs, List.drop_length]; exact List.Pairwise.nil
  · rw [hs, List.drop_length]; intro a _ b hb; cases hb
  · rw [he]; intro i hi; exact absurd hi (Finset.notMem_empty i)

/-! ### Appending -/

/-- Appending a key that is greater than the whole suffix, if there is one. -/
theorem inv_append (hm : m.Inv P cs) {x : K × V} (hx : ∀ a ∈ m.vec, rank P cs a ≠ rank P cs x)
    (hlast : ∀ b, (m.vec.drop m.suffixStart).getLast? = some b → rank P cs b < rank P cs x) :
    Inv P cs ⟨m.vec ++ [x], m.suffixStart, m.erased⟩ := by
  have hle := hm.start_le
  have htake : (m.vec ++ [x]).take m.suffixStart = m.vec.take m.suffixStart :=
    List.take_append_of_le_length hle
  have hdrop : (m.vec ++ [x]).drop m.suffixStart = m.vec.drop m.suffixStart ++ [x] :=
    List.drop_append_of_le_length hle
  -- the last entry of the suffix is its greatest
  have hgt : ∀ a ∈ m.vec.drop m.suffixStart, rank P cs a < rank P cs x := by
    intro a ha
    have hne : m.vec.drop m.suffixStart ≠ [] := List.ne_nil_of_mem ha
    have hb := List.getLast?_eq_some_getLast hne
    have hcat := List.dropLast_append_getLast hne
    have hsorted := hm.back_sorted
    rw [← hcat] at hsorted ha
    have hbx := hlast _ hb
    rcases List.mem_append.1 ha with h | h
    · exact ((List.pairwise_append.1 hsorted).2.2 a h _ (List.mem_singleton_self _)).trans hbx
    · rw [List.mem_singleton.1 h]; exact hbx
  refine ⟨?_, ?_, ?_, ?_, ?_⟩
  · simp only [List.length_append, List.length_singleton]; omega
  · rw [htake]; exact hm.front_sorted
  · rw [hdrop]
    refine List.pairwise_append.2 ⟨hm.back_sorted, List.pairwise_singleton _ _, ?_⟩
    intro a ha b hb
    rw [List.mem_singleton.1 hb]
    exact hgt a ha
  · rw [htake, hdrop]
    intro a ha b hb
    rcases List.mem_append.1 hb with h | h
    · exact hm.disjoint a ha b h
    · rw [List.mem_singleton.1 h]
      exact hx a (List.mem_of_mem_take ha)
  · intro i hi
    have := hm.erased_lt i hi
    simp only [List.length_append, List.length_singleton]; omega

/-- **The end of `emplace`**: a key that is not there is added, behind the suffix or
after a compaction. -/
theorem append_spec (hm : m.Inv P cs) {key : K} (value : V)
    (hnone : ∀ a ∈ m.vec, rank P cs a ≠ foldKey P cs key) :
    (m.append P cs key value).Inv P cs ∧
    live (m.append P cs key value).vec (m.append P cs key value).erased =
      insert (key, value) (live m.vec m.erased) ∧
    (m.append P cs key value).vec[(m.append P cs key value).vec.length - 1]? = some (key, value) := by
  -- both ways end by appending to a mutator with the same live entries
  obtain ⟨m', hm', hlive, hlast, hnone', heq⟩ : ∃ m' : PathMapMutator K V, m'.Inv P cs ∧
      live m'.vec m'.erased = live m.vec m.erased ∧
      (∀ b, (m'.vec.drop m'.suffixStart).getLast? = some b → rank P cs b < foldKey P cs key) ∧
      (∀ a ∈ m'.vec, rank P cs a ≠ foldKey P cs key) ∧
      m.append P cs key value = ⟨m'.vec ++ [(key, value)], m'.suffixStart, m'.erased⟩ := by
    unfold append
    cases hb : m.vec.getLast? with
    | none =>
      have hnil : m.vec = [] := List.getLast?_eq_none_iff.1 hb
      exact ⟨m, hm, rfl, by rw [hnil]; simp, hnone, rfl⟩
    | some back =>
      by_cases hcond : m.suffixStart < m.vec.length ∧ isPathPieceLess P cs back.1 key = false
      · have hlive := (compact_spec hm).2
        have hdrop : (m.compact P cs).vec.drop (m.compact P cs).suffixStart = [] := List.drop_length
        refine ⟨m.compact P cs, compact_inv hm, hlive, by rw [hdrop]; simp, ?_, by simp only [hcond, and_self, if_true]⟩
        intro a ha
        obtain ⟨i, hi, -⟩ := mem_live.1 (hlive ▸ mem_live_empty.2 ha)
        exact hnone a (List.mem_of_getElem? hi)
      · refine ⟨m, hm, rfl, ?_, hnone, by simp only [hcond, if_false]⟩
        intro b hb'
        have hlt : m.suffixStart < m.vec.length := by
          by_contra hge
          rw [List.drop_eq_nil_of_le (by omega)] at hb'
          cases hb'
        have hbb : b = back := by
          rw [List.getLast?_drop, if_neg (by omega), hb] at hb'
          exact (Option.some.inj hb').symm
        subst hbb
        have hless : isPathPieceLess P cs b.1 key = true := by
          rw [← Bool.not_eq_false]
          exact fun h => hcond ⟨hlt, h⟩
        exact (isPathPieceLess_iff b.1 key).1 hless
  rw [heq]
  refine ⟨@inv_append _ _ _ _ _ _ hm' (key, value) hnone' hlast, ?_, by simp⟩
  rw [← hlive]
  exact live_append hm'.erased_lt

/-! ### One operation -/

/-- Reusing the slot of an erased key. -/
theorem revive_spec (hm : m.Inv P cs) {i : ℕ} {e : K × V} {key : K} (value : V) (he : m.vec[i]? = some e)
    (hr : rank P cs e = foldKey P cs key) (hi : i ∈ m.erased) :
    (m.revive i key value).Inv P cs ∧
    live (m.revive i key value).vec (m.revive i key value).erased =
      insert (key, value) (live m.vec m.erased) ∧
    (m.revive i key value).vec[i]? = some (key, value) := by
  have hlt := hm.erased_lt i hi
  refine ⟨?_, live_revive hlt hi, List.getElem?_set_self hlt⟩
  refine hm.of_map_eq (map_set_eq he hr.symm) ?_
  intro j hj
  exact hm.erased_lt j (Finset.mem_of_mem_erase hj)

/-- `m` keeps its invariant and its live entries are the contents `c`. -/
def Represents (P : Platform) (cs : CaseSensitivity) (m : PathMapMutator K V) (c : Contents K V) : Prop :=
  m.Inv P cs ∧ Stores (rank P cs) (live m.vec m.erased) c

/-- **Every operation of the mutator means what `Contents.step` says.** -/
theorem step_stores {c : Contents K V} (h : m.Represents P cs c) (op : MapOp K V) :
    (m.step P cs op).1.Represents P cs (c.step P cs op).1 ∧ (m.step P cs op).2 = (c.step P cs op).2 := by
  obtain ⟨hm, hc⟩ := h
  -- the two ways a key that is not live is added
  have hadd : ∀ (key : K) (value : V) (m' : PathMapMutator K V), c (foldKey P cs key) = none →
      m'.Inv P cs → live m'.vec m'.erased = insert (key, value) (live m.vec m.erased) →
      m'.Represents P cs (Function.update c (foldKey P cs key) (some (key, value))) := by
    intro key value m' hk hm' hlive
    refine ⟨hm', ?_⟩
    rw [hlive]
    exact @Stores.insert _ _ _ _ _ _ hc (key, value) hk
  cases op with
  | find key =>
    refine ⟨⟨hm, hc⟩, ?_⟩
    rcases key_cases hm hc key with ⟨i, e, hf, he, -, -, hk⟩ | ⟨i, e, hf, -, -, -, hk⟩ | ⟨hf, -, hk⟩
    · simp [step, find, Contents.step, hf, he, hk]
    · simp [step, find, Contents.step, hf, hk]
    · simp [step, find, Contents.step, hf, hk]
  | erase key =>
    rcases key_cases hm hc key with ⟨i, e, hf, he, -, -, hk⟩ | ⟨i, e, hf, -, -, -, hk⟩ | ⟨hf, -, hk⟩
    · simp only [step, erase, find, Contents.step, hf, hk, Bool.false_eq_true, if_false]
      refine ⟨⟨hm.of_map_eq rfl ?_, ?_⟩, trivial⟩
      · intro j hj
        rcases Finset.mem_insert.1 hj with rfl | hj
        · exact (List.getElem?_eq_some_iff.1 he).1
        · exact hm.erased_lt j hj
      · rw [eraseAt, live_erase hm.distinct he]
        exact hc.erase hk
    · simp only [step, erase, find, Contents.step, hf, hk, if_true]
      exact ⟨⟨hm, hc⟩, trivial⟩
    · simp only [step, erase, find, Contents.step, hf, hk, Bool.false_eq_true, if_false]
      exact ⟨⟨hm, hc⟩, trivial⟩
  | emplace key value =>
    rcases key_cases hm hc key with ⟨i, e, hf, he, -, -, hk⟩ | ⟨i, e, hf, he, hr, hi, hk⟩ | ⟨hf, hnone, hk⟩
    · simp only [step, emplace, Contents.step, hf, hk, he]
      exact ⟨⟨hm, hc⟩, trivial⟩
    · obtain ⟨h1, h2, h3⟩ := revive_spec hm value he hr hi
      simp only [step, emplace, Contents.step, hf, hk, h3]
      exact ⟨hadd key value _ hk h1 h2, trivial⟩
    · obtain ⟨h1, h2, h3⟩ := append_spec hm value hnone
      simp only [step, emplace, Contents.step, hf, hk, h3]
      exact ⟨hadd key value _ hk h1 h2, trivial⟩
  | insertOrAssign key value =>
    rcases key_cases hm hc key with ⟨i, e, hf, he, hr, hi, hk⟩ | ⟨i, e, hf, he, hr, hi, hk⟩ | ⟨hf, hnone, hk⟩
    · have hlt := (List.getElem?_eq_some_iff.1 he).1
      simp only [step, insertOrAssign, Contents.step, hf, hk, he, Option.elim_some, List.getElem?_set_self hlt]
      refine ⟨⟨hm.of_map_eq (map_set_eq he rfl) hm.erased_lt, ?_⟩, trivial⟩
      rw [live_set hm.distinct he hi]
      exact hc.replace hk hr
    · obtain ⟨h1, h2, h3⟩ := revive_spec hm value he hr hi
      simp only [step, insertOrAssign, Contents.step, hf, hk, h3]
      exact ⟨hadd key value _ hk h1 h2, trivial⟩
    · obtain ⟨h1, h2, h3⟩ := append_spec hm value hnone
      simp only [step, insertOrAssign, Contents.step, hf, hk, h3]
      exact ⟨hadd key value _ hk h1 h2, trivial⟩

theorem inv_new (map : PathMap P cs K V) : (new map).Inv P cs := by
  have hs := pairwise_iff_sortedBy.1 map.sorted
  unfold new
  refine ⟨le_rfl, ?_, ?_, ?_, ?_⟩
  · simp only [List.take_length]; exact hs
  · simp only [List.drop_length]; exact List.Pairwise.nil
  · simp only [List.drop_length]; intro a _ b hb; cases hb
  · intro i hi; exact absurd hi (Finset.notMem_empty i)

end PathMapMutator

/-! ### Histories -/

theorem PathMap.stores_contents (map : PathMap P cs K V) :
    Stores (rank P cs) (live map.entries ∅) map.contents := by
  have hd := distinct_of_sortedBy (pairwise_iff_sortedBy.1 map.sorted)
  intro k e
  rw [mem_live_empty]
  unfold PathMap.contents
  constructor
  · intro h
    exact ⟨List.mem_of_find?_eq_some h, by simpa using List.find?_some h⟩
  · intro h
    obtain ⟨he, hr⟩ := h
    cases hf : map.entries.find? fun e => rank P cs e = k with
    | none => exact absurd hr (by simpa using List.find?_eq_none.1 hf e he)
    | some e' =>
      have hr' : rank P cs e' = k := by simpa using List.find?_some hf
      obtain ⟨i, hi⟩ := List.mem_iff_getElem?.1 he
      obtain ⟨j, hj⟩ := List.mem_iff_getElem?.1 (List.mem_of_find?_eq_some hf)
      have hij := hd hi hj (hr.trans hr'.symm)
      rw [hij, hj] at hi
      exact hi

/-- `map` has the contents `c`. -/
def PathMap.Represents (map : PathMap P cs K V) (c : Contents K V) : Prop :=
  Stores (rank P cs) (live map.entries ∅) c

theorem PathMap.step_stores {map : PathMap P cs K V} {c : Contents K V} (h : map.Represents c) (op : MapOp K V) :
    (map.step op).1.Represents (c.step P cs op).1 ∧ (map.step op).2 = (c.step P cs op).2 :=
  entriesAfter_stores (pairwise_iff_sortedBy.1 map.sorted) h op

/-- **The mutator refines the map.** Every history of operations on the mutator is
answered as the eager map answers it, and `finalize` yields the vector of that map:
strictly sorted, and with the contents the history leaves. -/
theorem mutator_refines (map : PathMap P cs K V) (ops : List (MapOp K V)) :
    let m := exec (PathMapMutator.step P cs) (.new map) ops
    let eager := exec PathMap.step map ops
    let contents := exec (Contents.step P cs) map.contents ops
    m.2 = eager.2 ∧ m.2 = contents.2 ∧ m.1.finalize P cs = eager.1.entries ∧
      ((m.1.finalize P cs).Pairwise fun a b => isPathPieceLess P cs a.1 b.1) ∧
      ∀ key, ((findIn P cs (m.1.finalize P cs) key).bind ((m.1.finalize P cs)[·]?)) =
        contents.1 (foldKey P cs key) := by
  intro m eager contents
  obtain ⟨⟨hm, hmc⟩, hans⟩ := exec_sim (R := fun m c => PathMapMutator.Represents P cs m c)
    (fun m c op h => PathMapMutator.step_stores h op) ops (.new map) map.contents
    ⟨PathMapMutator.inv_new map, map.stores_contents⟩
  obtain ⟨hec, hans'⟩ := exec_sim (R := fun (map : PathMap P cs K V) c => map.Represents c)
    (fun map c op h => PathMap.step_stores h op) ops map map.contents map.stores_contents
  obtain ⟨hsorted, hlive⟩ := PathMapMutator.compact_spec hm
  -- both vectors are sorted and store the same contents
  have heq : m.1.finalize P cs = eager.1.entries := by
    refine hsorted.ext (pairwise_iff_sortedBy.1 eager.1.sorted) ?_
    intro e
    rw [← mem_live_empty, ← mem_live_empty, hlive]
    have h1 := hmc (rank P cs e) e
    have h2 := hec (rank P cs e) e
    simp only [and_true] at h1 h2
    exact h1.symm.trans h2
  refine ⟨hans.trans hans'.symm, hans, heq, pairwise_iff_sortedBy.2 hsorted, ?_⟩
  intro key
  rw [heq]
  rcases findIn_cases (pairwise_iff_sortedBy.1 eager.1.sorted) hec key with
    ⟨i, e, hf, he, -, hk⟩ | ⟨hf, -, hk⟩
  · rw [hf, Option.bind_some, he, hk]
  · rw [hf, Option.bind_none, hk]

end EdenCommon
