import EdenCommon.Proof.CoverageSet
import EdenCommon.Spec.CoverageSetNodes

/-!
# No coverage is lost or invented

* `addNodes_eq`: `add` with its node handle is `add`, on all platforms.
* `lastInsert_free`: the last `insert` finds no interval that begins where the new one does.
* `coverage_exact`: after every run the intervals of the set cover what was added since
  the last `clear`, and the next `add` will insert what it inserts.

The loops with the handle are compared with those without it one after the other
(`mergeLeftNodes_eq`, `absorbRightNodes_eq`, `lastInsert_eq`). They leave the same set and
reach the same bounds; what is in the handle is overwritten before the last `insert`. What
the intervals cover is then taken from `Proof/CoverageSet`.
-/

namespace EdenCommon

namespace CoverageSet

variable {apple : Bool}

/-! ### The handle changes nothing -/

@[simp] theorem Nodes.erase_set (n : Nodes) (iter : Interval) : (n.erase apple iter).set_ = n.set_.erase iter.begin_ := by
  unfold Nodes.erase
  cases apple with
  | true => rfl
  | false => cases n.reuse_handle <;> rfl

theorem mergeLeftNodes_eq (left : Option Interval) (b : ℕ) (n : Nodes) :
    (mergeLeftNodes apple left b n).1 = (mergeLeft left b n.set_).1 ∧
      (mergeLeftNodes apple left b n).2.set_ = (mergeLeft left b n.set_).2 := by
  unfold mergeLeftNodes mergeLeft
  cases left with
  | none => exact ⟨rfl, rfl⟩
  | some l =>
    by_cases h : l.end_ = b
    · simp only [h, if_true, Nodes.erase_set, and_self]
    · simp only [h, if_false, and_self]

theorem absorbRightNodes_eq (l : List Interval) : ∀ (e : ℕ) (n : Nodes),
    (absorbRightNodes apple l e n).1 = (absorbRight l e n.set_).1 ∧
      (absorbRightNodes apple l e n).2.set_ = (absorbRight l e n.set_).2 := by
  induction l with
  | nil => exact fun e n => ⟨rfl, rfl⟩
  | cons right next ih =>
    intro e n
    unfold absorbRightNodes absorbRight
    by_cases h : right.begin_ ≤ e
    · rw [if_pos h, if_pos h, ← @Nodes.erase_set apple n right]
      exact ih _ _
    · rw [if_neg h, if_neg h]
      exact ⟨rfl, rfl⟩

/-- What the last `insert` is given: the handle's value is overwritten. -/
theorem lastInsert_eq (s : CoverageSet) {b e : ℕ} (hbe : b < e) :
    s.lastInsert apple b e =
      some (some ⟨(absorbRight (s.set_.lowerBound b) e (mergeLeft (s.set_.prevLowerBound b) b s.set_).2).2,
        ⟨(mergeLeft (s.set_.prevLowerBound b) b s.set_).1,
          (absorbRight (s.set_.lowerBound b) e (mergeLeft (s.set_.prevLowerBound b) b s.set_).2).1⟩⟩) := by
  obtain ⟨hm1, hm2⟩ := @mergeLeftNodes_eq apple (s.set_.prevLowerBound b) b ⟨s.set_, none⟩
  obtain ⟨hr1, hr2⟩ := @absorbRightNodes_eq apple (s.set_.lowerBound b) e
    (mergeLeftNodes apple (s.set_.prevLowerBound b) b ⟨s.set_, none⟩).2
  rw [hm2] at hr1 hr2
  unfold lastInsert
  rw [if_pos hbe.le, if_neg hbe.ne]
  simp only [hm1, hr1, hr2]
  cases (absorbRightNodes apple (s.set_.lowerBound b) e
    (mergeLeftNodes apple (s.set_.prevLowerBound b) b ⟨s.set_, none⟩).2).2.reuse_handle <;> rfl

/-- **`add` with its node handle** is `add`. -/
theorem addNodes_eq (s : CoverageSet) (b e : ℕ) : s.addNodes apple b e = s.add b e := by
  rcases Nat.lt_trichotomy b e with hlt | heq | hgt
  · unfold addNodes add
    rw [s.lastInsert_eq hlt, if_pos hlt.le, if_neg hlt.ne]
    rfl
  · unfold addNodes lastInsert add
    rw [if_pos heq.le, if_pos heq, if_pos heq.le, if_pos heq]
    rfl
  · unfold addNodes lastInsert add
    rw [if_neg (by omega), if_neg (by omega)]
    rfl

theorem stepNodes_eq : stepNodes apple = step := by
  funext s op
  cases op with
  | add b e => exact s.addNodes_eq b e
  | clear => rfl

/-- **The last `insert`** finds no interval that begins where the new one does, and the
new one is in the set afterwards. -/
theorem lastInsert_free (s : CoverageSet) {b e : ℕ} (hbe : b < e) :
    ∃ insert, s.lastInsert apple b e = some (some insert) ∧ (∀ i ∈ insert.into, i.begin_ ≠ insert.interval.begin_) ∧
      ∃ t, s.addNodes apple b e = some t ∧ insert.interval ∈ t.set_ := by
  have hfree := s.begin_free hbe
  have hlast := @lastInsert_eq apple s b e hbe
  refine ⟨_, hlast, hfree, _, ?_, (Lib.OrderedSet.mem_insert hfree).2 (.inl rfl)⟩
  unfold addNodes
  rw [hlast]
  rfl

end CoverageSet

open CoverageSet

/-- **No coverage is lost or invented.** After every run, on all platforms, the intervals
of the set cover exactly what was added since the last `clear`; and the last `insert` of
any further `add` finds no interval with an equal begin and is not dropped. -/
theorem coverage_exact (apple : Bool) (ops : List Op) (hok : ∀ op ∈ ops, op.Ok) :
    ∃ s, Lib.run (stepNodes apple) CoverageSet.new ops = some s ∧ s.points = added ops ∧
      ∀ b e, b < e → ∃ insert, s.lastInsert apple b e = some (some insert) ∧
        (∀ i ∈ insert.into, i.begin_ ≠ insert.interval.begin_) ∧
        ∃ t, s.addNodes apple b e = some t ∧ insert.interval ∈ t.set_ := by
  obtain ⟨s, hs, hpoints⟩ := run_points ops hok
  refine ⟨s, ?_, hpoints, fun b e hbe => s.lastInsert_free hbe⟩
  rw [stepNodes_eq]
  exact hs

/-- Two overlapping intervals, added in reverse order. -/
theorem coverage_exact_overlap :
    ∃ s, Lib.run (stepNodes false) CoverageSet.new [.add 3 8, .add 0 5] = some s ∧
      s.points = added [.add 3 8, .add 0 5] ∧
      ∀ b e, b < e → ∃ insert, s.lastInsert false b e = some (some insert) ∧
        (∀ i ∈ insert.into, i.begin_ ≠ insert.interval.begin_) ∧
        ∃ t, s.addNodes false b e = some t ∧ insert.interval ∈ t.set_ :=
  coverage_exact false [.add 3 8, .add 0 5] (by simp [Op.Ok])

end EdenCommon
