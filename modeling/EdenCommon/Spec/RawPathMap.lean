import EdenCommon.Lib.StdAlgorithm
import EdenCommon.Spec.PathCompare

/-!
# The class `PathMap` over its raw vector

`PathMap.h` derives from `fbvector` and keeps a comparator beside it. Nothing in the type
keeps the vector sorted: each method searches on its own and inserts where the search
ended. An iterator is a position, `end()` the length of the vector; a reference to a
mapped value is the position of its entry, and a caller may assign through it. `at`
throws `std::out_of_range` with the text "no such key {key}".

A program has any number of maps, here by number. `MapCall` is one statement of it, and
`SpecMaps.step` says what the statement means for maps from classes of keys to entries.
-/

namespace EdenCommon

structure RawPathMap (K V : Type) where
  vec : List (K × V)
  compare_ : CaseSensitivity

namespace RawPathMap

variable {K V : Type} [PathPiece K] (P : Platform) (m : RawPathMap K V)

/-- `PathMap(CaseSensitivity)`. -/
def new (caseSensitive : CaseSensitivity) : RawPathMap K V := ⟨[], caseSensitive⟩

/-- `lower_bound`. -/
def lowerBound (key : K) : ℕ :=
  Lib.bisect (fun i => m.vec[i]?.any fun e => isPathPieceLess P m.compare_ e.1 key) 0 m.vec.length

/-- `iter != end() && !compare_(key, iter->first)`. -/
def isAt (iter : ℕ) (key : K) : Bool := m.vec[iter]?.any fun e => !isPathPieceLess P m.compare_ key e.1

/-- `find`: `none` is `end()`. -/
def find (key : K) : Option ℕ :=
  let iter := m.lowerBound P key
  if m.isAt P iter key then some iter else none

/-- `insert`: the map, the returned iterator, and whether an insert took place. -/
def insert (val : K × V) : RawPathMap K V × ℕ × Bool :=
  let iter := m.lowerBound P val.1
  if m.isAt P iter val.1 then (m, iter, false)
  else ({ m with vec := m.vec.insertIdx iter val }, iter, true)

/-- `emplace` with the value built from its arguments. -/
def emplace (key : K) (value : V) : RawPathMap K V × ℕ × Bool :=
  let iter := m.lowerBound P key
  if m.isAt P iter key then (m, iter, false)
  else ({ m with vec := m.vec.insertIdx iter (key, value) }, iter, true)

/-- `operator[]`: the map and the position that the returned reference points to. -/
def index [Inhabited V] (key : K) : RawPathMap K V × ℕ :=
  let iter := m.lowerBound P key
  if m.isAt P iter key then (m, iter)
  else ({ m with vec := m.vec.insertIdx iter (key, default) }, iter)

/-- `at`: the position that the returned reference points to, or the thrown key. -/
def at_ (key : K) : Except K ℕ :=
  match m.find P key with
  | none => .error key
  | some iter => .ok iter

/-- `erase(key)`: the map and the number of erased elements. -/
def erase (key : K) : RawPathMap K V × ℕ :=
  match m.find P key with
  | none => (m, 0)
  | some iter => ({ m with vec := m.vec.eraseIdx iter }, 1)

def count (key : K) : ℕ := if (m.find P key).isSome then 1 else 0

/-- An assignment through a reference, if there is one. -/
def assign (iter : ℕ) : Option V → RawPathMap K V
  | none => m
  | some value => { m with vec := m.vec.modify iter fun e => (e.1, value) }

/-- The adjacency scan of the bulk constructor. -/
def needsSortAndOrDedupe (P : Platform) (caseSensitive : CaseSensitivity) : List (K × V) → Bool
  | a :: b :: rest =>
    if !isPathPieceLess P caseSensitive a.1 b.1 then true
    else needsSortAndOrDedupe P caseSensitive (b :: rest)
  | _ => false

/-- `PathMap(Vector&&, CaseSensitivity)`: a stable sort by the comparator, then `std::unique`
by the equality of paths, both only if the scan asks for them. -/
def ofVector (asciiCaseInsensitive : UInt8 → UInt8 → Bool) (P : Platform) (entries : List (K × V))
    (caseSensitive : CaseSensitivity) : RawPathMap K V :=
  if needsSortAndOrDedupe P caseSensitive entries then
    let sorted := entries.mergeSort fun a b => !isPathPieceLess P caseSensitive b.1 a.1
    ⟨Lib.unique (fun a b => isPathPieceEqual asciiCaseInsensitive P caseSensitive a.1 b.1) sorted, caseSensitive⟩
  else ⟨entries, caseSensitive⟩

end RawPathMap

/-! ### Programs with several maps -/

/-- A statement on the maps of a program; `write` is the value assigned through the
returned reference or iterator, if any. -/
inductive MapCall (K V : Type)
  | insert (map : ℕ) (val : K × V)
  | emplace (map : ℕ) (key : K) (value : V)
  | index (map : ℕ) (key : K) (write : Option V)
  | at_ (map : ℕ) (key : K) (write : Option V)
  | find (map : ℕ) (key : K) (write : Option V)
  | count (map : ℕ) (key : K)
  | erase (map : ℕ) (key : K)
  | copy (source target : ℕ)
  | swap (map other : ℕ)

/-- What a statement answers: the entry of the returned iterator (none at `end()`) and
the flag, the mapped value read, the thrown key, or a number. -/
inductive MapAnswer (K V : Type)
  | placed (entry : Option (K × V)) (inserted : Bool)
  | value (v : Option V)
  | outOfRange (key : K)
  | found (entry : Option (K × V))
  | number (n : ℕ)
  | none

/-- The maps of a program. -/
abbrev RawMaps (K V : Type) := ℕ → RawPathMap K V

variable {K V : Type} [PathPiece K] [Inhabited V]

def RawMaps.step (P : Platform) (maps : RawMaps K V) : MapCall K V → RawMaps K V × MapAnswer K V
  | .insert i val =>
    let (m, iter, inserted) := (maps i).insert P val
    (Function.update maps i m, .placed m.vec[iter]? inserted)
  | .emplace i key value =>
    let (m, iter, inserted) := (maps i).emplace P key value
    (Function.update maps i m, .placed m.vec[iter]? inserted)
  | .index i key write =>
    let (m, iter) := (maps i).index P key
    (Function.update maps i (m.assign iter write), .value (m.vec[iter]?.map Prod.snd))
  | .at_ i key write =>
    match (maps i).at_ P key with
    | .error key => (maps, .outOfRange key)
    | .ok iter => (Function.update maps i ((maps i).assign iter write), .value ((maps i).vec[iter]?.map Prod.snd))
  | .find i key write =>
    match (maps i).find P key with
    | none => (maps, .found none)
    | some iter => (Function.update maps i ((maps i).assign iter write), .found (maps i).vec[iter]?)
  | .count i key => (maps, .number ((maps i).count P key))
  | .erase i key =>
    let (m, n) := (maps i).erase P key
    (Function.update maps i m, .number n)
  -- copying takes the comparator along, and so does swapping
  | .copy i j => (Function.update maps j (maps i), .none)
  | .swap i j => (Function.update (Function.update maps i (maps j)) j (maps i), .none)

/-! ### What the maps are for -/

/-- A map from classes of case-equivalent keys to entries, and which keys it takes for
equivalent. -/
structure SpecMap (K V : Type) where
  caseSensitive : CaseSensitivity
  contents : Contents K V

namespace SpecMap

variable (P : Platform) (s : SpecMap K V)

/-- The entry of the class of `key`. -/
def get (key : K) : Option (K × V) := s.contents (foldKey P s.caseSensitive key)

/-- The map with another entry for the class of `key`. -/
def put (key : K) (entry : Option (K × V)) : SpecMap K V :=
  { s with contents := Function.update s.contents (foldKey P s.caseSensitive key) entry }

/-- Writing the value of an entry that is there, under the spelling it has. -/
def write (key : K) : Option V → SpecMap K V
  | none => s
  | some v => s.put P key ((s.get P key).map fun e => (e.1, v))

end SpecMap

abbrev SpecMaps (K V : Type) := ℕ → SpecMap K V

/-- **The meaning of a statement.** An insertion into a class that has an entry changes
nothing; any other creates the entry with its own spelling. A write changes the value
only. -/
def SpecMaps.step (P : Platform) (maps : SpecMaps K V) : MapCall K V → SpecMaps K V × MapAnswer K V
  | .insert i val => insertNew maps i val
  | .emplace i key value => insertNew maps i (key, value)
  | .index i key write =>
    match (maps i).get P key with
    | some e => (Function.update maps i ((maps i).write P key write), .value (some e.2))
    | none => (Function.update maps i ((maps i).put P key (some (key, write.getD default))), .value (some default))
  | .at_ i key write =>
    match (maps i).get P key with
    | some e => (Function.update maps i ((maps i).write P key write), .value (some e.2))
    | none => (maps, .outOfRange key)
  | .find i key write =>
    match (maps i).get P key with
    | some e => (Function.update maps i ((maps i).write P key write), .found (some e))
    | none => (maps, .found none)
  | .count i key => (maps, .number (if ((maps i).get P key).isSome then 1 else 0))
  | .erase i key =>
    (Function.update maps i ((maps i).put P key none), .number (if ((maps i).get P key).isSome then 1 else 0))
  | .copy i j => (Function.update maps j (maps i), .none)
  | .swap i j => (Function.update (Function.update maps i (maps j)) j (maps i), .none)
where
  insertNew (maps : SpecMaps K V) (i : ℕ) (val : K × V) : SpecMaps K V × MapAnswer K V :=
    match (maps i).get P val.1 with
    | some e => (maps, .placed (some e) false)
    | none => (Function.update maps i ((maps i).put P val.1 (some val)), .placed (some val) true)

end EdenCommon
