import EdenCommon.Lib.OrderedSet
import Mathlib.Data.Set.Card

/-!
# `CoverageSet`

`CoverageSet.cpp` keeps a `std::set<Interval>` ordered by `begin`. The set is a
list in ascending order of `begin` (`Lib.OrderedSet`); an iterator is the position
it points at. `add` merges the new interval with its left neighbour, absorbs right
neighbours, and inserts the result; the reuse of one extracted tree node is not
modelled, as its value is overwritten before it is inserted again. A failed
`XCHECK_LE` aborts the process, here `none`.

What the class is for is said at the end: the points added since the last `clear`,
and the starts of their maximal runs.
-/

namespace EdenCommon

/-- `CoverageSet::Interval`, the half-open interval `[begin, end)` of `size_t`. -/
structure Interval where
  begin_ : ℕ
  end_ : ℕ
  deriving DecidableEq, Repr

/-- `std::set<Interval>`: `operator<` compares `begin` only. -/
abbrev IntervalSet := Lib.OrderedSet Interval.begin_

structure CoverageSet where
  set_ : IntervalSet

namespace CoverageSet

def new : CoverageSet := ⟨.empty⟩

def clear (_ : CoverageSet) : CoverageSet := ⟨.empty⟩

def empty (s : CoverageSet) : Bool := s.set_.elems.isEmpty

def getIntervalCount (s : CoverageSet) : ℕ := s.set_.elems.length

/-- The merge with the left neighbour: only one that ends exactly at `begin`. -/
def mergeLeft (left : Option Interval) (begin_ : ℕ) (set_ : IntervalSet) : ℕ × IntervalSet :=
  match left with
  | some l => if l.end_ = begin_ then (l.begin_, set_.erase l.begin_) else (begin_, set_)
  | none => (begin_, set_)

/-- The `while` loop of `add`, from the iterator `right` on: it erases each interval
that begins at or before `end` and extends `end`. -/
def absorbRight : List Interval → ℕ → IntervalSet → ℕ × IntervalSet
  | [], end_, set_ => (end_, set_)
  | right :: next, end_, set_ =>
    if right.begin_ ≤ end_ then absorbRight next (max end_ right.end_) (set_.erase right.begin_)
    else (end_, set_)

def add (s : CoverageSet) (begin_ end_ : ℕ) : Option CoverageSet :=
  if begin_ ≤ end_ then
    if begin_ = end_ then some s
    else
      let right := s.set_.lowerBound begin_
      let left := s.set_.prevLowerBound begin_
      let m := mergeLeft left begin_ s.set_
      let r := absorbRight right end_ m.2
      some ⟨r.2.insert ⟨m.1, r.1⟩⟩
  else none

def covers (s : CoverageSet) (begin_ end_ : ℕ) : Option Bool :=
  if begin_ ≤ end_ then
    if begin_ = end_ then some true
    else
      match s.set_.prevUpperBound begin_ with
      | none => some false
      | some left => some (decide (left.begin_ ≤ begin_) && decide (end_ ≤ left.end_))
  else none

/-- The operations that change the set. -/
inductive Op
  | add (begin_ end_ : ℕ)
  | clear
  deriving DecidableEq, Repr

def step (s : CoverageSet) : Op → Option CoverageSet
  | .add b e => s.add b e
  | .clear => some s.clear

end CoverageSet

/-! ### What the class is for -/

/-- The points added by a history of operations since its last `clear`. -/
def added (ops : List CoverageSet.Op) : Set ℕ :=
  ops.foldl (fun S op => match op with
    | .add b e => S ∪ Set.Ico b e
    | .clear => ∅) ∅

/-- The first points of the maximal runs of a set of points. -/
def runStarts (S : Set ℕ) : Set ℕ := {p | p ∈ S ∧ ∀ q, q + 1 = p → q ∉ S}

/-- **The representation invariant** stated in `CoverageSet.h`: every interval is
nonempty, and of two intervals the one that begins first ends strictly before the
other begins, so they neither overlap nor touch. -/
structure CoverageSet.Canonical (s : CoverageSet) : Prop where
  nonempty : ∀ i ∈ s.set_, i.begin_ < i.end_
  apart : ∀ i ∈ s.set_, ∀ j ∈ s.set_, i.begin_ < j.begin_ → i.end_ < j.begin_

/-- An `add` with `begin <= end`, which `add` checks. -/
def CoverageSet.Op.Ok : CoverageSet.Op → Prop
  | .add b e => b ≤ e
  | .clear => True

/-- A nonempty `add` does not start strictly inside what the history has covered: no
run of covered points holds both `begin - 1` and `begin`. -/
def NotInside (ops : List CoverageSet.Op) : CoverageSet.Op → Prop
  | .add b e => b < e → ∀ q, q + 1 = b → q ∈ added ops → b ∉ added ops
  | .clear => True

end EdenCommon
