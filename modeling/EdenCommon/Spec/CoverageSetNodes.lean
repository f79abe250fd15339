import EdenCommon.Spec.CoverageSet

/-!
# `CoverageSet::add` with its node handle

`add` keeps the first node that it takes out of the tree, to put the new interval into it
at the end; on Apple platforms, which the argument `apple` stands for, it does without.
What the last `insert` of an `add` is given is a value of its own here, as its answer is
not looked at.
-/

namespace EdenCommon

namespace CoverageSet

/-- `set_` and `reuse_handle`, which is empty as long as nothing has been erased. -/
structure Nodes where
  set_ : IntervalSet
  reuse_handle : Option Interval

/-- The lambda `erase`, of the interval that the iterator points at. -/
def Nodes.erase (apple : Bool) (n : Nodes) (iter : Interval) : Nodes :=
  if apple then { n with set_ := n.set_.erase iter.begin_ }
  else
    match n.reuse_handle with
    | some _ => { n with set_ := n.set_.erase iter.begin_ }
    | none => { set_ := n.set_.erase iter.begin_, reuse_handle := some iter }

/-- The merge with the left neighbour. -/
def mergeLeftNodes (apple : Bool) (left : Option Interval) (begin_ : ℕ) (n : Nodes) : ℕ × Nodes :=
  match left with
  | some l => if l.end_ = begin_ then (l.begin_, n.erase apple l) else (begin_, n)
  | none => (begin_, n)

/-- The `while` loop, from the iterator `right` on. -/
def absorbRightNodes (apple : Bool) : List Interval → ℕ → Nodes → ℕ × Nodes
  | [], end_, n => (end_, n)
  | right :: next, end_, n =>
    if right.begin_ ≤ end_ then absorbRightNodes apple next (max end_ right.end_) (n.erase apple right)
    else (end_, n)

/-- The last `insert` of an `add`: the set and the interval that goes into it. -/
structure LastInsert where
  into : IntervalSet
  interval : Interval

/-- `add` up to its last `insert`, with `none` inside where there is none. -/
def lastInsert (apple : Bool) (s : CoverageSet) (begin_ end_ : ℕ) : Option (Option LastInsert) :=
  if begin_ ≤ end_ then
    if begin_ = end_ then some none
    else
      let right := s.set_.lowerBound begin_
      let left := s.set_.prevLowerBound begin_
      let m := mergeLeftNodes apple left begin_ ⟨s.set_, none⟩
      let r := absorbRightNodes apple right end_ m.2
      let interval : Interval :=
        match r.2.reuse_handle with
        | some value => { value with begin_ := m.1, end_ := r.1 }
        | none => ⟨m.1, r.1⟩
      some (some ⟨r.2.set_, interval⟩)
  else none

/-- `add`. An interval whose `begin` is there already is not inserted. -/
def addNodes (apple : Bool) (s : CoverageSet) (begin_ end_ : ℕ) : Option CoverageSet :=
  (s.lastInsert apple begin_ end_).map fun
    | some insert => ⟨insert.into.insert insert.interval⟩
    | none => s

def stepNodes (apple : Bool) (s : CoverageSet) : Op → Option CoverageSet
  | .add b e => s.addNodes apple b e
  | .clear => some s.clear

end CoverageSet

end EdenCommon
