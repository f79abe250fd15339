import EdenCommon.Proof.PathComponents
import EdenCommon.Spec.PathIterators

/-!
# Where the components of a path lie

The bytes of a valid path behind its root are its components, each but the first behind a
separator (`Cut`, `exists_cut_relative`, `cut_absolute`). The path is known at two places
for each component: `prefixAt k` ends where the first `k` components do, and `frontAt k`
ends where the next one begins. Every scan of the iterators leads from one of these
places to another.

* `scanSeparator_frontAt`, `scanBack_prefixAt`: the scans over one component, forwards and
  backwards.
* `scanSeparator_prefixAt`, `scanBackTo_prefixAt`: the scans from one prefix to the next and
  to the one before.
* `exists_cut_relative`, `cut_absolute`: every valid path is cut into its components.
-/

namespace EdenCommon

open Lib

variable {P : Platform} {view front : Bytes} {sep : ℕ → UInt8} {cs : List Bytes} {k : ℕ}

/-- The bytes of `view` behind `front` are the components `cs`, the `k`-th one behind the
separator `sep k`. -/
structure Cut (P : Platform) (view front : Bytes) (sep : ℕ → UInt8) (cs : List Bytes) : Prop where
  eq : view = front ++ joinBy sep cs
  isSep : ∀ k, isDirSeparator P (sep k) = true
  isComponent : ∀ c ∈ cs, IsComponent P c

/-- The path up to the end of its first `k` components. -/
def prefixAt (front : Bytes) (sep : ℕ → UInt8) (cs : List Bytes) (k : ℕ) : Bytes := front ++ joinBy sep (cs.take k)

/-- The path up to the place where its `k`-th component begins. -/
def frontAt (front : Bytes) (sep : ℕ → UInt8) (cs : List Bytes) (k : ℕ) : Bytes :=
  prefixAt front sep cs k ++ if k = 0 then [] else [sep k]

/-- The path from its `k`-th component on. -/
def suffixAt (sep : ℕ → UInt8) (cs : List Bytes) (k : ℕ) : Bytes := joinBy (fun j => sep (j + k)) (cs.drop k)

@[simp] theorem prefixAt_zero : prefixAt front sep cs 0 = front := by
  unfold prefixAt
  rw [List.take_zero, joinBy_nil, List.append_nil]

@[simp] theorem frontAt_zero : frontAt front sep cs 0 = front := by
  unfold frontAt
  rw [prefixAt_zero, if_pos rfl, List.append_nil]

theorem frontAt_of_pos (hk : 0 < k) : frontAt front sep cs k = prefixAt front sep cs k ++ [sep k] := by
  unfold frontAt
  rw [if_neg (by omega)]

/-- A component lies between its two places. -/
theorem prefixAt_succ (hk : k < cs.length) : prefixAt front sep cs (k + 1) = frontAt front sep cs k ++ cs[k] := by
  have htake : cs.take (k + 1) = cs.take k ++ [cs[k]] := List.take_succ_eq_append_getElem hk
  have hlen : (cs.take k).length = k := by
    rw [List.length_take]
    omega
  unfold frontAt prefixAt
  by_cases h0 : k = 0
  · subst h0
    rw [htake, if_pos rfl, List.take_zero, List.nil_append, joinBy_singleton, joinBy_nil, List.append_nil,
      List.append_nil]
  · have hne : cs.take k ≠ [] := by
      rw [← List.length_pos_iff]
      omega
    rw [htake, if_neg h0, joinBy_append hne (by simp), hlen, joinBy_singleton]
    simp

theorem length_prefixAt_succ (hk : k < cs.length) :
    (prefixAt front sep cs (k + 1)).length = (frontAt front sep cs k).length + cs[k].length := by
  rw [prefixAt_succ hk, List.length_append]

theorem length_frontAt (front : Bytes) (sep : ℕ → UInt8) (cs : List Bytes) (k : ℕ) :
    (frontAt front sep cs k).length = (prefixAt front sep cs k).length + if k = 0 then 0 else 1 := by
  unfold frontAt
  rw [List.length_append]
  split <;> rfl

/-- What stands behind a component starts with a separator. -/
theorem exists_suffixAt (hsep : ∀ k, isDirSeparator P (sep k) = true) (hk : k < cs.length) :
    ∃ post, suffixAt sep cs k = cs[k] ++ post ∧ (∀ x, post.head? = some x → isDirSeparator P x = true) ∧
      (post = [] ↔ k + 1 = cs.length) := by
  have hdrop : cs.drop k = cs[k] :: cs.drop (k + 1) := List.drop_eq_getElem_cons hk
  unfold suffixAt
  by_cases hlast : k + 1 = cs.length
  · refine ⟨[], ?_, by simp, by simp [hlast]⟩
    rw [hdrop, List.drop_eq_nil_of_le (by omega), joinBy_singleton, List.append_nil]
  · have hne : cs.drop (k + 1) ≠ [] := by
      rw [← List.length_pos_iff, List.length_drop]
      omega
    refine ⟨_, by rw [hdrop, joinBy_cons _ hne], ?_, by simp [hlast]⟩
    intro x hx
    obtain rfl := Option.some.inj hx
    exact hsep _

namespace Cut

theorem prefixAt_length (h : Cut P view front sep cs) : prefixAt front sep cs cs.length = view := by
  unfold prefixAt
  rw [List.take_length, h.eq]

/-- **The path around the beginning of a component.** -/
theorem frontAt_append (h : Cut P view front sep cs) (hk : k < cs.length) :
    view = frontAt front sep cs k ++ suffixAt sep cs k := by
  have hlen : (cs.take k).length = k := by
    rw [List.length_take]
    omega
  rw [h.eq]
  unfold frontAt prefixAt suffixAt
  by_cases h0 : k = 0
  · subst h0
    simp
  · have htake : cs.take k ≠ [] := by
      rw [← List.length_pos_iff]
      omega
    have hdrop : cs.drop k ≠ [] := by
      rw [← List.length_pos_iff, List.length_drop]
      omega
    have hcut : joinBy sep (cs.take k ++ cs.drop k) = _ := joinBy_append htake hdrop
    rw [List.take_append_drop, hlen] at hcut
    rw [hcut, if_neg h0]
    simp

theorem getElem_isComponent (h : Cut P view front sep cs) (hk : k < cs.length) : IsComponent P cs[k] :=
  h.isComponent _ (List.getElem_mem hk)

/-- **The path around a component.** -/
theorem exists_append (h : Cut P view front sep cs) (hk : k < cs.length) :
    ∃ post, view = frontAt front sep cs k ++ (cs[k] ++ post) ∧
      (∀ x, post.head? = some x → isDirSeparator P x = true) ∧ (post = [] ↔ k + 1 = cs.length) := by
  obtain ⟨post, hpost, hhead, hnil⟩ := exists_suffixAt h.isSep hk
  exact ⟨post, by rw [← hpost]; exact h.frontAt_append hk, hhead, hnil⟩

/-- A place in front of a component is behind a separator, or at the beginning. -/
theorem frontAt_cases (h : Cut P view front sep cs) (k : ℕ) :
    front.length = (frontAt front sep cs k).length ∨
      ∃ u x, frontAt front sep cs k = u ++ [x] ∧ front.length ≤ u.length ∧ isDirSeparator P x = true := by
  by_cases h0 : k = 0
  · subst h0
    rw [frontAt_zero]
    exact .inl rfl
  · refine .inr ⟨_, _, frontAt_of_pos (by omega), ?_, h.isSep k⟩
    unfold prefixAt
    rw [List.length_append]
    omega

/-! ### The order of the places -/

theorem length_prefixAt_lt_succ (h : Cut P view front sep cs) (hk : k < cs.length) :
    (prefixAt front sep cs k).length < (prefixAt front sep cs (k + 1)).length := by
  have h1 := List.length_pos_iff.2 (h.getElem_isComponent hk).ne_nil
  have h2 := length_frontAt front sep cs k
  rw [length_prefixAt_succ hk]
  omega

/-- The prefixes grow. -/
theorem length_prefixAt_lt (h : Cut P view front sep cs) {j : ℕ} (hj : j < k) (hk : k ≤ cs.length) :
    (prefixAt front sep cs j).length < (prefixAt front sep cs k).length := by
  induction k with
  | zero => omega
  | succ k ih =>
    have hstep := h.length_prefixAt_lt_succ (show k < cs.length by omega)
    rcases Nat.eq_or_lt_of_le (show j ≤ k by omega) with rfl | hlt
    · exact hstep
    · have := ih hlt (by omega)
      omega

theorem length_prefixAt_inj (h : Cut P view front sep cs) {j : ℕ} (hj : j ≤ cs.length) (hk : k ≤ cs.length)
    (heq : (prefixAt front sep cs j).length = (prefixAt front sep cs k).length) : j = k := by
  rcases Nat.lt_trichotomy j k with hlt | rfl | hgt
  · have := h.length_prefixAt_lt hlt hk
    omega
  · rfl
  · have := h.length_prefixAt_lt hgt hj
    omega

theorem length_view (h : Cut P view front sep cs) : (prefixAt front sep cs cs.length).length = view.length := by
  rw [h.prefixAt_length]

theorem take_prefixAt (h : Cut P view front sep cs) (hk : k ≤ cs.length) :
    view.take (prefixAt front sep cs k).length = prefixAt front sep cs k := by
  rcases Nat.eq_or_lt_of_le hk with rfl | hlt
  · rw [h.prefixAt_length, List.take_length]
  · have hcut := h.frontAt_append hlt
    unfold frontAt at hcut
    rw [hcut, List.append_assoc, List.take_left]

theorem drop_frontAt (h : Cut P view front sep cs) (hk : k < cs.length) :
    view.drop (frontAt front sep cs k).length = suffixAt sep cs k := by
  rw [h.frontAt_append hk, List.drop_left]

theorem length_frontAt_lt (h : Cut P view front sep cs) (hk : k < cs.length) :
    (frontAt front sep cs k).length < view.length := by
  have hc := List.length_pos_iff.2 (h.getElem_isComponent hk).ne_nil
  obtain ⟨post, heq, -⟩ := h.exists_append hk
  rw [heq, List.length_append, List.length_append]
  omega

/-! ### The scans -/

/-- From the beginning of a component to its end. -/
theorem scanSeparator_frontAt (h : Cut P view front sep cs) (hk : k < cs.length) :
    scanSeparator P view (frontAt front sep cs k).length = (prefixAt front sep cs (k + 1)).length := by
  obtain ⟨post, heq, hhead, -⟩ := h.exists_append hk
  rw [length_prefixAt_succ hk, heq]
  exact scanSeparator_append _ _ _ (h.getElem_isComponent hk).no_sep hhead

/-- From the end of a component back to its beginning. -/
theorem scanBack_prefixAt (h : Cut P view front sep cs) (hk : k < cs.length) :
    ComponentIterator.scanBack P view front.length (prefixAt front sep cs (k + 1)).length =
      (frontAt front sep cs k).length := by
  obtain ⟨post, heq, -⟩ := h.exists_append hk
  rw [length_prefixAt_succ hk, heq]
  exact scanBack_append _ _ _ (h.getElem_isComponent hk).no_sep (h.frontAt_cases k)

/-- From one byte behind the end of a component to the end of the next. At the beginning
of the path that byte lies in the first component. -/
theorem scanSeparator_prefixAt (h : Cut P view front sep cs) (hk : k < cs.length) :
    scanSeparator P view ((prefixAt front sep cs k).length + 1) = (prefixAt front sep cs (k + 1)).length := by
  by_cases h0 : k = 0
  · subst h0
    obtain ⟨post, heq, hhead, -⟩ := h.exists_append hk
    have hc := h.getElem_isComponent hk
    obtain ⟨x, d, hxd⟩ := List.exists_cons_of_ne_nil hc.ne_nil
    have hd : ∀ y ∈ d, isDirSeparator P y = false := fun y hy => hc.no_sep y (by rw [hxd]; exact List.mem_cons_of_mem x hy)
    have hscan := scanSeparator_append (front ++ [x]) d post hd hhead
    rw [length_prefixAt_succ hk, heq, hxd]
    simp only [prefixAt_zero, frontAt_zero, List.length_append, List.length_cons, List.length_nil] at hscan ⊢
    rw [show front ++ (x :: d ++ post) = front ++ [x] ++ (d ++ post) by simp, hscan]
    omega
  · rw [← h.scanSeparator_frontAt hk, frontAt_of_pos (by omega), List.length_append]
    rfl

/-- From the end of a component back to the end of the one before it, or to the beginning
of the path. -/
theorem scanBackTo_prefixAt (h : Cut P view front sep cs) (hk : k < cs.length) :
    ComposedPathIterator.scanBackTo P view front.length (prefixAt front sep cs (k + 1)).length =
      (prefixAt front sep cs k).length := by
  obtain ⟨post, heq, -⟩ := h.exists_append hk
  have hc := h.getElem_isComponent hk
  unfold ComposedPathIterator.scanBackTo
  by_cases h0 : k = 0
  · subst h0
    obtain ⟨x, d, hxd⟩ := List.exists_cons_of_ne_nil hc.ne_nil
    have hd : ∀ y ∈ d, isDirSeparator P y = false := fun y hy => hc.no_sep y (by rw [hxd]; exact List.mem_cons_of_mem x hy)
    have hscan := scanBack_append (front ++ [x]) d post hd (.inl rfl)
    rw [length_prefixAt_succ hk, heq, hxd]
    simp only [prefixAt_zero, frontAt_zero, List.length_append, List.length_cons, List.length_nil] at hscan ⊢
    rw [show front ++ (x :: d ++ post) = front ++ [x] ++ (d ++ post) by simp,
      show front.length + (d.length + 1) = front.length + (0 + 1) + d.length by omega, hscan]
    omega
  · have hfront : frontAt front sep cs k = prefixAt front sep cs k ++ [sep k] := frontAt_of_pos (by omega)
    have hgrow := h.length_prefixAt_lt (show 0 < k by omega) (by omega)
    rw [prefixAt_zero] at hgrow
    have hscan := @scanBack_append P (frontAt front sep cs k) cs[k] post (front.length + 1) hc.no_sep
      (.inr ⟨_, _, hfront, by omega, h.isSep k⟩)
    rw [length_prefixAt_succ hk, heq, hscan, hfront, List.length_append]
    rfl

end Cut

/-! ### Searching for separators -/

theorem findPathSeparatorFrom_eq (str : Bytes) (start : ℕ) :
    findPathSeparatorFrom P str start = ((str.drop start).findIdx? (isDirSeparator P)).map (start + ·) := by
  rw [← findPathSeparator_eq]
  unfold findPathSeparatorFrom findPathSeparator findFrom
  by_cases hw : P.kIsWindows = true
  · simp only [hw, if_true]
    rcases find kWinDirSeparator (str.drop start) with - | i <;>
      rcases find kDirSeparator (str.drop start) with - | j <;> simp [Nat.add_min_add_left]
  · simp only [hw]
    rfl

/-- The last separator is the one behind which there are none. -/
theorem rfindPathSeparator_append {x : UInt8} {d : Bytes} (hx : isDirSeparator P x = true)
    (hd : ∀ y ∈ d, isDirSeparator P y = false) (s : Bytes) : rfindPathSeparator P (s ++ [x] ++ d) = some s.length := by
  have hslash : kDirSeparator ∉ d := fun h => by
    have := hd _ h
    rw [kDirSeparator_isDirSeparator] at this
    cases this
  unfold rfindPathSeparator
  rw [rfind_append_of_not_mem hslash]
  by_cases hw : P.kIsWindows = true
  · have hback : kWinDirSeparator ∉ d := fun h => by
      have := hd _ h
      simp [isDirSeparator, hw] at this
    have hle : ∀ (c : UInt8) (i : ℕ), rfind c (s ++ [x]) = some i → i ≤ s.length := by
      intro c i hi
      have := rfind_lt hi
      rw [List.length_append, List.length_singleton] at this
      omega
    simp only [hw, if_true]
    rw [rfind_append_of_not_mem hback]
    simp only [isDirSeparator, hw, Bool.true_and, Bool.or_eq_true, beq_iff_eq] at hx
    rcases hx with rfl | rfl
    · rw [rfind_append (by simp)]
      rcases hi : rfind kWinDirSeparator (s ++ [kDirSeparator]) with - | i
      · rfl
      · simp only [Option.some.injEq]
        exact max_eq_left (hle _ _ hi)
    · rw [rfind_append (by simp)]
      rcases hi : rfind kDirSeparator (s ++ [kWinDirSeparator]) with - | i
      · rfl
      · simp only [Option.some.injEq]
        exact max_eq_right (hle _ _ hi)
  · simp only [isDirSeparator, hw, Bool.false_and, Bool.or_false, beq_iff_eq] at hx
    subst hx
    simp only [hw]
    exact rfind_append (by simp)

theorem rfindPathSeparator_eq_none {d : Bytes} (hd : ∀ y ∈ d, isDirSeparator P y = false) :
    rfindPathSeparator P d = none := by
  have hslash : kDirSeparator ∉ d := fun h => by
    have := hd _ h
    rw [kDirSeparator_isDirSeparator] at this
    cases this
  unfold rfindPathSeparator
  rw [rfind_of_not_mem hslash]
  by_cases hw : P.kIsWindows = true
  · have hback : kWinDirSeparator ∉ d := fun h => by
      have := hd _ h
      simp [isDirSeparator, hw] at this
    simp only [hw, if_true, rfind_of_not_mem hback]
  · simp only [hw]
    rfl

/-! ### The cuts of valid paths -/

/-- A join of components is a valid path with these components. -/
theorem joinBy_valid (hsep : ∀ k, isDirSeparator P (sep k) = true) (hcs : ∀ c ∈ cs, IsComponent P c) :
    RelativePath.Valid P ⟨joinBy sep cs⟩ ∧ RelativePath.components P ⟨joinBy sep cs⟩ = cs := by
  by_cases hn : cs = []
  · subst hn
    exact ⟨rfl, components_nil⟩
  · have hsplit : (joinBy sep cs).splitOnP (isDirSeparator P) = cs :=
      splitOnP_joinBy hsep hn fun c hc => (hcs c hc).no_sep
    have hne : joinBy sep cs ≠ [] := by
      intro h
      rw [h, List.splitOnP_nil] at hsplit
      rw [← hsplit] at hcs
      exact (hcs [] (by simp)).ne_nil rfl
    have hvalid : RelativePath.Valid P ⟨joinBy sep cs⟩ :=
      (relativePathSanityCheck_iff_pieces _ _).2
        (.inr (by rw [hsplit]; exact hcs))
    exact ⟨hvalid, by rw [components_pieces hvalid hne, hsplit]⟩

/-- **A valid relative path** is cut into its components. -/
theorem exists_cut_relative {p : RelativePath} (hp : p.Valid P) : ∃ sep, Cut P p.path_ [] sep (p.components P) := by
  obtain ⟨sep, hsep, hjoin⟩ := exists_joinBy_splitOnP (kDirSeparator_isDirSeparator P) p.path_
  refine ⟨sep, ?_, hsep, components_valid hp⟩
  by_cases hne : p.path_ = []
  · obtain ⟨s⟩ := p
    obtain rfl : s = [] := hne
    rw [components_nil]
    rfl
  · rw [components_pieces hp hne, hjoin, List.nil_append]

/-- **A valid absolute path** is its root and the join of its components. -/
theorem cut_absolute {a : AbsolutePath} (ha : a.Valid P) :
    Cut P a.path_ (kRootStr P) (fun _ => kAbsDirSeparator P) (a.components P) := by
  obtain ⟨cs, hcs, heq⟩ := exists_join_absolute ha
  obtain ⟨s⟩ := a
  obtain rfl : s = _ := heq
  rw [(components_root_join hcs).1]
  exact ⟨by rw [joinBy_const]; rfl, fun _ => kAbsDirSeparator_isDirSeparator P, hcs⟩

end EdenCommon
