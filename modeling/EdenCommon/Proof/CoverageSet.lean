import EdenCommon.Lib.Run
import EdenCommon.Spec.CoverageSet

/-!
# `CoverageSet` between two `clear`s

`add` is right as long as it never starts strictly inside covered ground: the left
neighbour is merged only when it ends exactly at `begin`, so a neighbour that
reaches past `begin` stays next to the new interval and overlaps it.

* `absorbRight_spec`: what the loop over the right neighbours erases and covers.
* `mem_add`: the intervals after an `add`.
* `add_canonical`, `points_add`: one `add` that starts outside keeps the
  representation invariant and adds its points.
* `run_points`: every run stores what was added.
* `covers_run`, `canonical_run_iff`: what a whole run answers and when it stays
  canonical.
-/

namespace EdenCommon

namespace CoverageSet

/-- The points stored in a set. -/
def points (s : CoverageSet) : Set ℕ := {p | ∃ i ∈ s.set_, i.begin_ ≤ p ∧ p < i.end_}

/-- **The loop over the right neighbours.** It erases exactly the ones that begin at
or before the final `end`, and every point it gains lies in one of them. -/
theorem absorbRight_spec {l : List Interval} (hl : l.Pairwise fun a b => a.begin_ < b.begin_) :
    ∀ (e : ℕ) (s : IntervalSet),
      e ≤ (absorbRight l e s).1 ∧
      (∀ x, x ∈ (absorbRight l e s).2 ↔
        x ∈ s ∧ ∀ r ∈ l, r.begin_ ≤ (absorbRight l e s).1 → x.begin_ ≠ r.begin_) ∧
      (∀ r ∈ l, r.begin_ ≤ (absorbRight l e s).1 → r.end_ ≤ (absorbRight l e s).1) ∧
      ∀ p, e ≤ p → p < (absorbRight l e s).1 → ∃ r ∈ l, r.begin_ ≤ p ∧ p < r.end_ := by
  induction l with
  | nil => intro e s; simp [absorbRight]
  | cons r next ih =>
    intro e s
    obtain ⟨hr, hn⟩ := List.pairwise_cons.1 hl
    by_cases h : r.begin_ ≤ e
    · have hu : absorbRight (r :: next) e s = absorbRight next (max e r.end_) (s.erase r.begin_) := by
        simp [absorbRight, h]
      rw [hu]
      obtain ⟨h1, h2, h3, h4⟩ := ih hn (max e r.end_) (s.erase r.begin_)
      set e' := (absorbRight next (max e r.end_) (s.erase r.begin_)).1
      have hre : r.end_ ≤ e' := le_trans (le_max_right _ _) h1
      have hee : e ≤ e' := le_trans (le_max_left _ _) h1
      refine ⟨hee, fun x => ?_, ?_, ?_⟩
      · rw [h2, Lib.OrderedSet.mem_erase]
        simp only [List.mem_cons, forall_eq_or_imp]
        constructor
        · rintro ⟨⟨hx, hne⟩, hall⟩; exact ⟨hx, fun _ => hne, hall⟩
        · rintro ⟨hx, hne, hall⟩; exact ⟨⟨hx, hne (by omega)⟩, hall⟩
      · intro r' hr' hle
        rcases List.mem_cons.1 hr' with rfl | hr'
        · exact hre
        · exact h3 r' hr' hle
      · intro p hp hpe
        by_cases hpm : max e r.end_ ≤ p
        · obtain ⟨r', hr', hb, he⟩ := h4 p hpm hpe
          exact ⟨r', List.mem_cons_of_mem _ hr', hb, he⟩
        · exact ⟨r, List.mem_cons_self, by omega, by omega⟩
    · have hu : absorbRight (r :: next) e s = (e, s) := by simp [absorbRight, h]
      rw [hu]
      -- the loop stops here, and every later interval begins even further right
      have hfar : ∀ r' ∈ r :: next, ¬ r'.begin_ ≤ e := by
        intro r' hr'
        rcases List.mem_cons.1 hr' with rfl | hr'
        · exact h
        · have := hr r' hr'; omega
      refine ⟨le_rfl, fun x => ⟨fun hx => ⟨hx, ?_⟩, fun hx => hx.1⟩, ?_, by intro p; omega⟩
      · intro r' hr' hle; exact absurd hle (hfar r' hr')
      · intro r' hr' hle; exact absurd hle (hfar r' hr')

/-- The left neighbour that `add` merges: the one that ends exactly at `begin`. -/
def Merged (s : CoverageSet) (b : ℕ) (l : Interval) : Prop :=
  s.set_.prevLowerBound b = some l ∧ l.end_ = b

theorem Merged.mem {s : CoverageSet} {b : ℕ} {l : Interval} (h : s.Merged b l) :
    l ∈ s.set_ ∧ l.begin_ < b :=
  have h := Lib.OrderedSet.prevLowerBound_some h.1
  ⟨h.1, h.2.1⟩

/-- The merge with the left neighbour erases it and moves `begin` to where it begins. -/
theorem mergeLeft_spec (s : CoverageSet) (b : ℕ) :
    (∀ x, x ∈ (mergeLeft (s.set_.prevLowerBound b) b s.set_).2 ↔ x ∈ s.set_ ∧ ¬ s.Merged b x) ∧
      ((∃ l, s.Merged b l ∧ (mergeLeft (s.set_.prevLowerBound b) b s.set_).1 = l.begin_) ∨
        ((∀ l, ¬ s.Merged b l) ∧ (mergeLeft (s.set_.prevLowerBound b) b s.set_).1 = b)) := by
  by_cases hm : ∃ l, s.Merged b l
  · obtain ⟨l, hl⟩ := hm
    have hu : mergeLeft (s.set_.prevLowerBound b) b s.set_ = (l.begin_, s.set_.erase l.begin_) := by
      rw [hl.1]; simp [mergeLeft, hl.2]
    rw [hu]
    refine ⟨fun x => ?_, Or.inl ⟨l, hl, rfl⟩⟩
    rw [Lib.OrderedSet.mem_erase]
    refine and_congr_right fun hx => not_congr ⟨fun he => ?_, fun hx' => ?_⟩
    · rw [Lib.OrderedSet.key_inj hx hl.mem.1 he]; exact hl
    · rw [Option.some.inj (hx'.1.symm.trans hl.1)]
  · have hno : ∀ l, ¬ s.Merged b l := fun l hl => hm ⟨l, hl⟩
    have hu : mergeLeft (s.set_.prevLowerBound b) b s.set_ = (b, s.set_) := by
      cases h : s.set_.prevLowerBound b with
      | none => rfl
      | some l =>
        have : l.end_ ≠ b := fun he => hno l ⟨h, he⟩
        simp [mergeLeft, this]
    rw [hu]
    exact ⟨fun x => ⟨fun hx => ⟨hx, hno x⟩, fun hx => hx.1⟩, Or.inr ⟨hno, rfl⟩⟩

/-- What is left of the set before the last `insert` of an `add`. -/
theorem mem_kept (s : CoverageSet) {b e : ℕ} (hbe : b < e) (x : Interval) :
    x ∈ (absorbRight (s.set_.lowerBound b) e (mergeLeft (s.set_.prevLowerBound b) b s.set_).2).2 ↔
      x ∈ s.set_ ∧ ((absorbRight (s.set_.lowerBound b) e (mergeLeft (s.set_.prevLowerBound b) b s.set_).2).1 < x.begin_ ∨
        (x.begin_ < b ∧ ¬ s.Merged b x)) := by
  obtain ⟨hm, -⟩ := s.mergeLeft_spec b
  set m := mergeLeft (s.set_.prevLowerBound b) b s.set_
  obtain ⟨h1, h2, -⟩ := absorbRight_spec (s.set_.sorted_lowerBound b) e m.2
  set r := absorbRight (s.set_.lowerBound b) e m.2
  rw [h2, hm, and_assoc]
  refine and_congr_right fun hx => ⟨fun ⟨hnm, hall⟩ => ?_, fun h => ?_⟩
  · rcases Nat.lt_or_ge x.begin_ b with hxb | hxb
    · exact Or.inr ⟨hxb, hnm⟩
    · left; by_contra hle
      exact hall x (Lib.OrderedSet.mem_lowerBound.2 ⟨hx, hxb⟩) (by omega) rfl
  · refine ⟨fun hx' => ?_, fun i hi hle heq => ?_⟩
    · have := hx'.mem.2
      rcases h with h | h
      · omega
      · exact h.2 hx'
    · have := (Lib.OrderedSet.mem_lowerBound.1 hi).2
      omega

/-- **The begin of the new interval is free** in what is left: all of that begins elsewhere. -/
theorem begin_free (s : CoverageSet) {b e : ℕ} (hbe : b < e) :
    ∀ y ∈ (absorbRight (s.set_.lowerBound b) e (mergeLeft (s.set_.prevLowerBound b) b s.set_).2).2,
      y.begin_ ≠ (mergeLeft (s.set_.prevLowerBound b) b s.set_).1 := by
  intro y hy heq
  obtain ⟨-, hb'⟩ := s.mergeLeft_spec b
  obtain ⟨h1, -⟩ := absorbRight_spec (s.set_.sorted_lowerBound b) e (mergeLeft (s.set_.prevLowerBound b) b s.set_).2
  obtain ⟨hys, hy⟩ := (s.mem_kept hbe y).1 hy
  rcases hb' with ⟨l, hl, hbl⟩ | ⟨hl, hbl⟩
  · have := hl.mem.2
    rcases hy with hy | ⟨-, hy⟩
    · omega
    · apply hy; rw [Lib.OrderedSet.key_inj hys hl.mem.1 (heq.trans hbl)]; exact hl
  · omega

/-- **The intervals after an `add`** of a nonempty interval: one new interval
`[b', e')`, and every old one that lies to its right or, being no merged left
neighbour, begins before `b`. -/
theorem mem_add (s : CoverageSet) {b e : ℕ} (hbe : b < e) :
    ∃ (t : CoverageSet) (b' e' : ℕ), s.add b e = some t ∧ e ≤ e' ∧
      ((∃ l, s.Merged b l ∧ b' = l.begin_) ∨ ((∀ l, ¬ s.Merged b l) ∧ b' = b)) ∧
      (∀ i ∈ s.set_, b ≤ i.begin_ → i.begin_ ≤ e' → i.end_ ≤ e') ∧
      (∀ p, e ≤ p → p < e' → p ∈ s.points) ∧
      ∀ x, x ∈ t.set_ ↔ x = ⟨b', e'⟩ ∨
        (x ∈ s.set_ ∧ (e' < x.begin_ ∨ (x.begin_ < b ∧ ¬ s.Merged b x))) := by
  obtain ⟨-, hb'⟩ := s.mergeLeft_spec b
  have hkeep := s.mem_kept hbe
  have hfree := s.begin_free hbe
  set m := mergeLeft (s.set_.prevLowerBound b) b s.set_
  obtain ⟨h1, -, h3, h4⟩ := absorbRight_spec (s.set_.sorted_lowerBound b) e m.2
  set r := absorbRight (s.set_.lowerBound b) e m.2 with hr
  have hadd : s.add b e = some ⟨r.2.insert ⟨m.1, r.1⟩⟩ := by
    unfold add; rw [if_pos hbe.le, if_neg hbe.ne]
  refine ⟨_, m.1, r.1, hadd, h1, hb', ?_, ?_, ?_⟩
  · intro i hi hb hle; exact h3 i (Lib.OrderedSet.mem_lowerBound.2 ⟨hi, hb⟩) hle
  · intro p hp hpe
    obtain ⟨i, hi, h5, h6⟩ := h4 p hp hpe
    exact ⟨i, (Lib.OrderedSet.mem_lowerBound.1 hi).1, h5, h6⟩
  · intro x
    rw [Lib.OrderedSet.mem_insert hfree, hkeep]

/-- The new interval begins at `b` or at its left neighbour. -/
theorem newBegin_le {s : CoverageSet} {b b' : ℕ}
    (h : (∃ l, s.Merged b l ∧ b' = l.begin_) ∨ ((∀ l, ¬ s.Merged b l) ∧ b' = b)) : b' ≤ b := by
  rcases h with ⟨l, hl, rfl⟩ | ⟨-, rfl⟩
  · exact hl.mem.2.le
  · exact le_rfl

/-- `add` starts outside: no stored interval reaches past `b` from the left. -/
def Outside (s : CoverageSet) (b : ℕ) : Prop := ∀ i ∈ s.set_, i.begin_ < b → i.end_ ≤ b

/-- **An `add` that starts outside keeps the representation invariant.** -/
theorem add_canonical {s t : CoverageSet} (hs : s.Canonical) {b e : ℕ} (hbe : b < e) (ho : s.Outside b)
    (ht : s.add b e = some t) : t.Canonical := by
  obtain ⟨t', b', e', ht', hee, hb', habs, -, hmem⟩ := mem_add s hbe
  obtain rfl : t = t' := Option.some.inj (ht.symm.trans ht')
  have hb'b : b' ≤ b := newBegin_le hb'
  -- a kept interval to the left ends before the new one begins
  have hleft : ∀ x ∈ s.set_, x.begin_ < b → ¬ s.Merged b x → x.end_ < b' := by
    intro x hx hxb hxm
    have hxe := ho x hx hxb
    rcases hb' with ⟨l, hl, rfl⟩ | ⟨hl, rfl⟩
    · have hle := (Lib.OrderedSet.prevLowerBound_some hl.1).2.2 x hx hxb
      refine hs.apart x hx l hl.mem.1 (lt_of_le_of_ne hle fun heq => hxm ?_)
      rw [Lib.OrderedSet.key_inj hx hl.mem.1 heq]; exact hl
    · -- one that ends at `b` would have been the neighbour and merged
      refine lt_of_le_of_ne hxe fun heq => ?_
      cases hp : s.set_.prevLowerBound b' with
      | none => have := Lib.OrderedSet.prevLowerBound_none hp x hx; omega
      | some l =>
        obtain ⟨hls, hlb, hmax⟩ := Lib.OrderedSet.prevLowerBound_some hp
        rcases Nat.lt_or_ge x.begin_ l.begin_ with h | h
        · have := hs.apart x hx l hls h; omega
        · have hxl : x = l := Lib.OrderedSet.key_inj hx hls (le_antisymm (hmax x hx hxb) h)
          exact hl x ⟨by rw [hp, hxl], heq⟩
  refine ⟨fun i hi => ?_, fun i hi j hj hij => ?_⟩
  · rcases (hmem i).1 hi with rfl | ⟨hi, -⟩
    · show b' < e'; omega
    · exact hs.nonempty i hi
  · rcases (hmem i).1 hi with rfl | ⟨his, hi⟩ <;> rcases (hmem j).1 hj with rfl | ⟨hjs, hj⟩
    · exact absurd hij (lt_irrefl _)
    · show e' < j.begin_
      simp only at hij
      rcases hj with hj | ⟨hjb, hjm⟩
      · exact hj
      · have := hleft j hjs hjb hjm; have := hs.nonempty j hjs; omega
    · show i.end_ < b'
      simp only at hij
      rcases hi with hi | ⟨hib, him⟩
      · omega
      · exact hleft i his hib him
    · exact hs.apart i his j hjs hij

/-- **An `add` stores exactly the old points and the new interval**, whatever the
relative positions of the two. -/
theorem points_add {s t : CoverageSet} {b e : ℕ} (hbe : b < e) (ht : s.add b e = some t) :
    t.points = s.points ∪ Set.Ico b e := by
  obtain ⟨t', b', e', ht', hee, hb', habs, hgain, hmem⟩ := mem_add s hbe
  obtain rfl : t = t' := Option.some.inj (ht.symm.trans ht')
  ext p
  simp only [points, Set.mem_union, Set.mem_ofPred_eq, Set.mem_Ico]
  constructor
  · rintro ⟨i, hi, h1, h2⟩
    rcases (hmem i).1 hi with rfl | ⟨hi, -⟩
    · -- in front of `b`, a point of the left neighbour; from `e` on, one absorbed
      simp only at h1 h2
      rcases Nat.lt_or_ge p e with hpe | hpe
      · rcases Nat.lt_or_ge p b with hpb | hpb
        · rcases hb' with ⟨l, hl, rfl⟩ | ⟨-, rfl⟩
          · exact Or.inl ⟨l, hl.mem.1, h1, by rw [hl.2]; exact hpb⟩
          · omega
        · exact Or.inr ⟨hpb, hpe⟩
      · exact Or.inl (hgain p hpe h2)
    · exact Or.inl ⟨i, hi, h1, h2⟩
  · have hb'b : b' ≤ b := newBegin_le hb'
    rintro (⟨i, hi, h1, h2⟩ | ⟨h1, h2⟩)
    · by_cases hk : e' < i.begin_ ∨ (i.begin_ < b ∧ ¬ s.Merged b i)
      · exact ⟨i, (hmem i).2 (Or.inr ⟨hi, hk⟩), h1, h2⟩
      · -- an interval that is gone lies inside the new one
        push Not at hk
        refine ⟨⟨b', e'⟩, (hmem _).2 (Or.inl rfl), ?_⟩
        rcases Nat.lt_or_ge i.begin_ b with hib | hib
        · have hm := hk.2 hib
          have hie : i.end_ = b := hm.2
          rcases hb' with ⟨l, hl, rfl⟩ | ⟨hl, -⟩
          · obtain rfl := Option.some.inj (hm.1.symm.trans hl.1)
            exact ⟨h1, by simp only; omega⟩
          · exact absurd hm (hl i)
        · have := habs i hi hib hk.1
          exact ⟨by simp only; omega, by simp only; omega⟩
    · exact ⟨⟨b', e'⟩, (hmem _).2 (Or.inl rfl), by simp only; omega, by simp only; omega⟩

/-- In a canonical set, starting outside is starting at no point inside a run. -/
theorem outside_iff {s : CoverageSet} (hs : s.Canonical) {b : ℕ} :
    s.Outside b ↔ ∀ q, q + 1 = b → q ∈ s.points → b ∉ s.points := by
  constructor
  · rintro ho q rfl ⟨i, hi, h1, h2⟩ ⟨j, hj, h3, h4⟩
    have h5 := ho i hi (by omega)
    rcases Nat.lt_or_ge j.begin_ (q + 1) with h | h
    · have := ho j hj h; omega
    · have := hs.apart i hi j hj (by omega); omega
  · intro h i hi hib
    by_contra hlt
    obtain ⟨q, rfl⟩ : ∃ q, b = q + 1 := ⟨b - 1, by omega⟩
    exact h q rfl ⟨i, hi, by omega, by omega⟩ ⟨i, hi, by omega, by omega⟩

/-- **`covers` on a canonical set** answers for every point of the interval. -/
theorem covers_iff {s : CoverageSet} (hs : s.Canonical) {b e : ℕ} (hbe : b < e) :
    s.covers b e = some true ↔ ∀ p, b ≤ p → p < e → p ∈ s.points := by
  unfold covers
  rw [if_pos hbe.le, if_neg hbe.ne]
  cases h : s.set_.prevUpperBound b with
  | none =>
    simp only [Option.some.injEq, Bool.false_eq_true, false_iff]
    intro hall
    obtain ⟨i, hi, h1, -⟩ := hall b le_rfl hbe
    have := Lib.OrderedSet.prevUpperBound_none h i hi; omega
  | some l =>
    obtain ⟨hl, hlb, hmax⟩ := Lib.OrderedSet.prevUpperBound_some h
    simp only [Option.some.injEq, Bool.and_eq_true, decide_eq_true_eq]
    constructor
    · rintro ⟨h1, h2⟩ p hp hpe; exact ⟨l, hl, by omega, by omega⟩
    · intro hall
      refine ⟨hlb, ?_⟩
      obtain ⟨i, hi, h1, h2⟩ := hall b le_rfl hbe
      -- the interval over `b` is `l`, and the point where `l` ends is not covered
      have hil : i = l := by
        rcases Nat.lt_or_ge i.begin_ l.begin_ with hlt | hge
        · have := hs.apart i hi l hl hlt; omega
        · exact Lib.OrderedSet.key_inj hi hl (le_antisymm (hmax i hi h1) hge)
      subst hil
      by_contra hlt
      obtain ⟨j, hj, h3, h4⟩ := hall i.end_ (by omega) (by omega)
      rcases Nat.lt_trichotomy i.begin_ j.begin_ with hij | hij | hij
      · have := hs.apart i hi j hj hij; omega
      · rw [Lib.OrderedSet.key_inj hi hj hij] at h4; exact lt_irrefl _ h4
      · have := hs.apart j hj i hi hij; omega

/-- **The interval count of a canonical set** is its number of maximal runs. -/
theorem count_runs {s : CoverageSet} (hs : s.Canonical) :
    s.getIntervalCount = (runStarts s.points).ncard := by
  have heq : runStarts s.points = ↑(s.set_.elems.map Interval.begin_).toFinset := by
    ext p
    simp only [runStarts, points, Set.mem_ofPred_eq, List.coe_toFinset, List.mem_map]
    constructor
    · rintro ⟨⟨i, hi, h1, h2⟩, hq⟩
      refine ⟨i, hi, ?_⟩
      by_contra hne
      exact hq (p - 1) (by omega) ⟨i, hi, by omega, by omega⟩
    · rintro ⟨i, hi, rfl⟩
      refine ⟨⟨i, hi, le_rfl, hs.nonempty i hi⟩, ?_⟩
      rintro q hq ⟨j, hj, h1, h2⟩
      have := hs.apart j hj i hi (by omega); omega
  have hnd : (s.set_.elems.map Interval.begin_).Nodup := by
    rw [List.Nodup, List.pairwise_map]
    exact s.set_.sorted.imp fun h => h.ne
  rw [heq, Set.ncard_coe_finset, List.toFinset_card_of_nodup hnd, List.length_map]
  rfl

end CoverageSet

/-! ### Whole runs -/

open CoverageSet

theorem added_concat (ops : List Op) (op : Op) :
    added (ops ++ [op]) = match op with
      | .add b e => added ops ∪ Set.Ico b e
      | .clear => ∅ := by
  cases op <;> simp [added, List.foldl_append]

/-- One well-formed operation stores what it adds, from any state. -/
theorem step_points {ops : List Op} {op : Op} {s : CoverageSet} (h : s.points = added ops) (hop : op.Ok) :
    ∃ s', s.step op = some s' ∧ s'.points = added (ops ++ [op]) := by
  rw [added_concat]
  cases op with
  | clear => exact ⟨_, rfl, by ext p; simp [CoverageSet.points, CoverageSet.clear]⟩
  | add b e =>
    rcases Nat.eq_or_lt_of_le (show b ≤ e from hop) with rfl | hbe
    · exact ⟨s, by simp [CoverageSet.step, CoverageSet.add], by simp [h]⟩
    · obtain ⟨t, -, -, ht, -⟩ := mem_add s hbe
      exact ⟨t, ht, by rw [points_add hbe ht, h]⟩

theorem points_new : CoverageSet.new.points = added [] := by
  ext p; simp [CoverageSet.points, CoverageSet.new, added]

/-- **Every run stores exactly the added points**, canonical or not. -/
theorem run_points (ops : List Op) (hok : ∀ op ∈ ops, op.Ok) :
    ∃ s, Lib.run CoverageSet.step CoverageSet.new ops = some s ∧ s.points = added ops :=
  Lib.run_history (I := fun ops (s : CoverageSet) => s.points = added ops) (G := fun _ op => op.Ok) points_new
    (fun _ _ _ h hop => step_points h hop) ops fun _ op hp => hok op (hp.subset (by simp))

/-- What holds after a history of operations none of which starts inside. -/
structure After (ops : List Op) (s : CoverageSet) : Prop where
  canonical : s.Canonical
  points : s.points = added ops

theorem canonical_empty : CoverageSet.Canonical ⟨.empty⟩ :=
  ⟨fun i hi => absurd hi (by simp), fun i hi => absurd hi (by simp)⟩

/-- **One operation** that does not start inside covered ground. -/
theorem step_after {ops : List Op} {op : Op} {s : CoverageSet} (h : After ops s)
    (hg : op.Ok ∧ NotInside ops op) : ∃ s', s.step op = some s' ∧ After (ops ++ [op]) s' := by
  obtain ⟨s', hs', hp⟩ := step_points h.points hg.1
  refine ⟨s', hs', ?_, hp⟩
  cases op with
  | clear => obtain rfl := Option.some.inj hs'; exact canonical_empty
  | add b e =>
    rcases Nat.eq_or_lt_of_le (show b ≤ e from hg.1) with rfl | hbe
    · obtain rfl : s = s' := by simpa [CoverageSet.step, CoverageSet.add] using hs'
      exact h.canonical
    · refine add_canonical h.canonical hbe ?_ hs'
      rw [outside_iff h.canonical, h.points]; exact hg.2 hbe

/-- **A run none of whose `add`s starts inside covered ground** stores exactly the
added points, in canonical form. -/
theorem run_after (ops : List Op) (hok : ∀ op ∈ ops, op.Ok)
    (hg : ∀ pre op, pre ++ [op] <+: ops → NotInside pre op) :
    ∃ s, Lib.run CoverageSet.step CoverageSet.new ops = some s ∧ After ops s :=
  Lib.run_history (G := fun pre op => op.Ok ∧ NotInside pre op) ⟨canonical_empty, points_new⟩
    (fun _ _ _ h hg => step_after h hg) ops fun pre op hp => ⟨hok op (hp.subset (by simp)), hg pre op hp⟩

/-- **`covers` after a run** none of whose `add`s starts strictly inside covered
ground: true exactly when every point of the interval was added since the last
`clear`. -/
theorem covers_run (ops : List Op) (hok : ∀ op ∈ ops, op.Ok)
    (hg : ∀ pre op, pre ++ [op] <+: ops → NotInside pre op) :
    ∃ s, Lib.run CoverageSet.step CoverageSet.new ops = some s ∧ ∀ b e, b < e →
      (s.covers b e = some true ↔ ∀ p, b ≤ p → p < e → p ∈ added ops) := by
  obtain ⟨s, hs, ha⟩ := run_after ops hok hg
  refine ⟨s, hs, fun b e hbe => ?_⟩
  rw [covers_iff ha.canonical hbe, ha.points]

theorem covers_run_adjacent :
    ∃ s, Lib.run CoverageSet.step CoverageSet.new [.add 0 5, .add 5 8] = some s ∧ ∀ b e, b < e →
      (s.covers b e = some true ↔ ∀ p, b ≤ p → p < e → p ∈ added [.add 0 5, .add 5 8]) := by
  refine covers_run _ (by simp [Op.Ok]) ?_
  rw [Lib.forall_step_cons, Lib.forall_step_cons]
  refine ⟨by simp [NotInside], ?_, by simp⟩
  simp [NotInside, added]

/-- `add(0, 5)` then `add(3, 8)`: all of `[0, 8)` is covered, and `covers(0, 8)` is false. -/
theorem covers_misses_overlap :
    ∃ s, Lib.run CoverageSet.step CoverageSet.new [.add 0 5, .add 3 8] = some s ∧
      s.covers 0 8 = some false ∧ ∀ p, 0 ≤ p → p < 8 → p ∈ added [.add 0 5, .add 3 8] := by
  refine ⟨⟨⟨[⟨0, 5⟩, ⟨3, 8⟩], by simp⟩⟩, rfl, rfl, fun p _ hp => ?_⟩
  simp only [added, List.foldl_cons, List.foldl_nil, Set.empty_union, Set.mem_union, Set.mem_Ico]
  omega

/-- An `add` that keeps the set canonical started outside. -/
theorem outside_of_canonical {s t : CoverageSet} (hs : s.Canonical) (ht : t.Canonical) {b e : ℕ}
    (hbe : b < e) (hadd : s.add b e = some t) : s.Outside b := by
  obtain ⟨t', b', e', ht', -, hb', -, -, hmem⟩ := mem_add s hbe
  obtain rfl : t = t' := Option.some.inj (hadd.symm.trans ht')
  intro i hi hib
  by_contra hlt
  have him : ¬ s.Merged b i := fun hm => hlt hm.2.le
  have hit : i ∈ t.set_ := (hmem i).2 (Or.inr ⟨hi, Or.inr ⟨hib, him⟩⟩)
  -- no neighbour was merged, so the new interval begins inside `i`
  obtain rfl : b' = b := by
    rcases hb' with ⟨l, hl, -⟩ | ⟨-, h⟩
    · have hle := (Lib.OrderedSet.prevLowerBound_some hl.1).2.2 i hi hib
      rcases Nat.eq_or_lt_of_le hle with heq | h
      · rw [Lib.OrderedSet.key_inj hi hl.mem.1 heq] at him; exact absurd hl him
      · have := hs.apart i hi l hl.mem.1 h; have := hl.mem.2; omega
    · exact h
  have : i.end_ < b' := ht.apart i hit ⟨b', e'⟩ ((hmem _).2 (Or.inl rfl)) hib
  omega

/-- **The representation invariant along a run** holds in every state reached, with
the interval count equal to the number of maximal runs of covered points, exactly
when no `add` starts strictly inside covered ground. -/
theorem canonical_run_iff (ops : List Op) (hok : ∀ op ∈ ops, op.Ok) :
    (∀ pre, pre <+: ops → ∃ s, Lib.run CoverageSet.step CoverageSet.new pre = some s ∧ s.Canonical ∧
      s.getIntervalCount = (runStarts (added pre)).ncard) ↔
      ∀ pre op, pre ++ [op] <+: ops → NotInside pre op := by
  constructor
  · intro h pre op hp
    cases op with
    | clear => trivial
    | add b e =>
      intro hbe
      have hpre : pre <+: ops := (List.prefix_append _ _).trans hp
      obtain ⟨s, hs, hsc, -⟩ := h pre hpre
      obtain ⟨t, ht, htc, -⟩ := h _ hp
      obtain ⟨s', hs', hpts⟩ := run_points pre fun op hop => hok op (hpre.subset hop)
      obtain rfl := Option.some.inj (hs.symm.trans hs')
      rw [Lib.run_concat, hs] at ht
      rw [← hpts, ← outside_iff hsc]
      exact outside_of_canonical hsc htc hbe ht
  · intro hg pre hpre
    obtain ⟨s, hs, ha⟩ := run_after pre (fun op hop => hok op (hpre.subset hop))
      fun p op hp => hg p op (hp.trans hpre)
    exact ⟨s, hs, ha.canonical, by rw [count_runs ha.canonical, ha.points]⟩

theorem canonical_run_iff_merge :
    (∀ pre, pre <+: [Op.add 0 2, .add 3 5, .add 2 3] →
      ∃ s, Lib.run CoverageSet.step CoverageSet.new pre = some s ∧ s.Canonical ∧
        s.getIntervalCount = (runStarts (added pre)).ncard) ↔
      ∀ pre op, pre ++ [op] <+: [Op.add 0 2, .add 3 5, .add 2 3] → NotInside pre op :=
  canonical_run_iff _ (by simp [Op.Ok])

/-- `add(0, 5)` then `add(3, 8)` leaves two overlapping intervals for one run. -/
theorem overlap_not_canonical :
    ∃ s, Lib.run CoverageSet.step CoverageSet.new [.add 0 5, .add 3 8] = some s ∧ ¬ s.Canonical := by
  refine ⟨⟨⟨[⟨0, 5⟩, ⟨3, 8⟩], by simp⟩⟩, rfl, fun h => ?_⟩
  have : (5 : ℕ) < 3 := h.apart ⟨0, 5⟩ List.mem_cons_self ⟨3, 8⟩ (List.mem_cons_of_mem _ List.mem_cons_self)
    (by decide)
  omega

end EdenCommon
