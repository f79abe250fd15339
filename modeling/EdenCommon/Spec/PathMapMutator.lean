import EdenCommon.Spec.PathMap
import Mathlib.Data.Finset.Basic

/-!
# `PathMapMutator`

The deferred updates of `PathMapMutator.h`: one vector with a sorted prefix, a sorted
suffix of new entries from `suffixStart` on, and a set of erased positions. An
iterator is its position, `none` is `end()`.
-/

namespace EdenCommon

variable {K V : Type} [PathPiece K]

structure PathMapMutator (K V : Type) where
  vec : List (K × V)
  suffixStart : ℕ
  erased : Finset ℕ

namespace PathMapMutator

/-- The constructor: the whole map is the prefix. -/
def new {P : Platform} {cs : CaseSensitivity} (map : PathMap P cs K V) : PathMapMutator K V :=
  ⟨map.entries, map.entries.length, ∅⟩

/-- The predicate of `remove_if` in `compact`, carried along the vector with its
counters: the entries that stay, and `prefixErased`. -/
def removeErased {α : Type} (erased : Finset ℕ) (suffixStart : ℕ) : List α → ℕ → ℕ → List α × ℕ
  | [], _, prefixErased => ([], prefixErased)
  | e :: rest, idx, prefixErased =>
    let removed := decide (idx ∈ erased)
    let r := removeErased erased suffixStart rest (idx + 1)
      (if removed && decide (idx < suffixStart) then prefixErased + 1 else prefixErased)
    (if removed then r.1 else e :: r.1, r.2)

variable (P : Platform) (cs : CaseSensitivity)

/-- `findImpl`: the position of the key, erased or not. -/
def findImpl (m : PathMapMutator K V) (key : K) : Option ℕ × Bool :=
  match findIn P cs (m.vec.take m.suffixStart) key with
  | some i => (some i, decide (i ∈ m.erased))
  | none =>
    if m.suffixStart < m.vec.length then
      match findIn P cs (m.vec.drop m.suffixStart) key with
      | some i => (some (m.suffixStart + i), decide (m.suffixStart + i ∈ m.erased))
      | none => (none, false)
    else (none, false)

/-- `find`. -/
def find (m : PathMapMutator K V) (key : K) : Option ℕ :=
  let r := m.findImpl P cs key
  if r.2 then none else r.1

/-- `erase(iterator)`. -/
def eraseAt (m : PathMapMutator K V) (i : ℕ) : PathMapMutator K V := { m with erased := insert i m.erased }

/-- `erase(Piece)`. -/
def erase (m : PathMapMutator K V) (key : K) : PathMapMutator K V × ℕ :=
  match m.find P cs key with
  | none => (m, 0)
  | some i => (m.eraseAt i, 1)

/-- `compact`; `std::inplace_merge` takes from the second half only what is less. -/
def compact (m : PathMapMutator K V) : PathMapMutator K V :=
  let r := removeErased m.erased m.suffixStart m.vec 0 0
  let suffixStart := m.suffixStart - r.2
  let vec := (r.1.take suffixStart).merge (r.1.drop suffixStart) fun a b => !isPathPieceLess P cs b.1 a.1
  ⟨vec, vec.length, ∅⟩

/-- The end of `emplace` and `insert_or_assign`: append to the suffix, after a
compaction if the key would break its order. -/
def append (m : PathMapMutator K V) (key : K) (value : V) : PathMapMutator K V :=
  let m' := match m.vec.getLast? with
    | some back =>
      if m.suffixStart < m.vec.length ∧ isPathPieceLess P cs back.1 key = false then m.compact P cs else m
    | none => m
  { m' with vec := m'.vec ++ [(key, value)] }

/-- Reuse the erased slot. -/
def revive (m : PathMapMutator K V) (i : ℕ) (key : K) (value : V) : PathMapMutator K V :=
  { m with vec := m.vec.set i (key, value), erased := m.erased.erase i }

/-- `emplace`: the position of the entry, and whether it was inserted. -/
def emplace (m : PathMapMutator K V) (key : K) (value : V) : PathMapMutator K V × ℕ × Bool :=
  match m.findImpl P cs key with
  | (some i, false) => (m, i, false)
  | (some i, true) => (m.revive i key value, i, true)
  | (none, _) =>
    let m' := m.append P cs key value
    (m', m'.vec.length - 1, true)

/-- `insert_or_assign`. -/
def insertOrAssign (m : PathMapMutator K V) (key : K) (value : V) : PathMapMutator K V × ℕ × Bool :=
  match m.findImpl P cs key with
  | (some i, false) =>
    ({ m with vec := (m.vec[i]?).elim m.vec fun e => m.vec.set i (e.1, value) }, i, false)
  | (some i, true) => (m.revive i key value, i, true)
  | (none, _) =>
    let m' := m.append P cs key value
    (m', m'.vec.length - 1, true)

/-- `finalize`: the vector of the resulting map. -/
def finalize (m : PathMapMutator K V) : List (K × V) := (m.compact P cs).vec

/-- An operation and what its caller sees of it: a returned iterator is read. -/
def step (m : PathMapMutator K V) : MapOp K V → PathMapMutator K V × MapResult K V
  | .find key => (m, .found ((m.find P cs key).bind (m.vec[·]?)))
  | .erase key =>
    let r := m.erase P cs key
    (r.1, .erased r.2)
  | .emplace key value =>
    let r := m.emplace P cs key value
    (r.1, .placed r.1.vec[r.2.1]? r.2.2)
  | .insertOrAssign key value =>
    let r := m.insertOrAssign P cs key value
    (r.1, .placed r.1.vec[r.2.1]? r.2.2)

end PathMapMutator

end EdenCommon
