import Mathlib.Data.Nat.Notation
import Mathlib.Logic.Function.Basic

/-!
# `RequestMetricsScope`

The constructors, the move assignment, `reset` and the destructor of
`RequestMetricsScope.cpp`, on any number of scopes and watch lists. The lists are
`std::list`s, so an iterator is a node: watches are numbered in the order they are inserted.
Each operation locks the list that it works on and is one step.
-/

namespace EdenCommon

namespace RequestMetricsScope

structure Scope (ListId : Type) where
  /-- Null in a scope that is not attached. -/
  pendingRequestWatches_ : Option ListId
  /-- Not read while the scope is not attached. -/
  requestWatch_ : ℕ
  deriving DecidableEq, Repr

structure Sys (ScopeId ListId : Type) where
  /-- The live scopes. -/
  scopes : ScopeId → Option (Scope ListId)
  /-- The watches of each list, oldest first. -/
  watches : ListId → List ℕ
  nextWatch : ℕ
  /-- record: the iterators that `erase` was called with. -/
  erased : List ℕ

inductive Op (ScopeId ListId : Type)
  /-- `RequestMetricsScope()` -/
  | construct (a : ScopeId)
  /-- `RequestMetricsScope(pendingRequestWatches)` -/
  | constructOn (a : ScopeId) (list : ListId)
  | moveConstruct (a that : ScopeId)
  | moveAssign (a that : ScopeId)
  | reset (a : ScopeId)
  | destroy (a : ScopeId)
  deriving DecidableEq, Repr

variable {ScopeId ListId : Type} [DecidableEq ScopeId] [DecidableEq ListId]

def start : Sys ScopeId ListId := ⟨fun _ => none, fun _ => [], 0, []⟩

omit [DecidableEq ListId] in
def Sys.setScope (s : Sys ScopeId ListId) (a : ScopeId) (scope : Option (Scope ListId)) : Sys ScopeId ListId :=
  { s with scopes := Function.update s.scopes a scope }

omit [DecidableEq ScopeId] in
/-- `startTimes->insert(startTimes->end(), watch)` -/
def Sys.insert (s : Sys ScopeId ListId) (list : ListId) : Sys ScopeId ListId :=
  { s with
    watches := Function.update s.watches list (s.watches list ++ [s.nextWatch])
    nextWatch := s.nextWatch + 1 }

omit [DecidableEq ScopeId] in
/-- `startTimes->erase(requestWatch_)` -/
def Sys.erase (s : Sys ScopeId ListId) (list : ListId) (watch : ℕ) : Sys ScopeId ListId :=
  { s with
    watches := Function.update s.watches list ((s.watches list).erase watch)
    erased := s.erased ++ [watch] }

omit [DecidableEq ScopeId] in
/-- What `reset` and the destructor do to the list of an attached scope. -/
def Sys.release (s : Sys ScopeId ListId) (scope : Scope ListId) : Sys ScopeId ListId :=
  match scope.pendingRequestWatches_ with
  | some list => s.erase list scope.requestWatch_
  | none => s

omit [DecidableEq ListId] in
/-- `std::exchange(that.pendingRequestWatches_, nullptr)`, and `a` takes what `that` had. In
an assignment to itself the scope gets back the pointer it has just given up. -/
def Sys.move (s : Sys ScopeId ListId) (a that : ScopeId) (scope : Scope ListId) : Sys ScopeId ListId :=
  (s.setScope that (some { scope with pendingRequestWatches_ := none })).setScope a (some scope)

/-- One operation; `none` if it is on a scope that is not live, or makes one that is. -/
def step (s : Sys ScopeId ListId) : Op ScopeId ListId → Option (Sys ScopeId ListId)
  | .construct a =>
    match s.scopes a with
    | none => some (s.setScope a (some ⟨none, 0⟩))
    | some _ => none
  | .constructOn a list =>
    match s.scopes a with
    | none => some ((s.insert list).setScope a (some ⟨some list, s.nextWatch⟩))
    | some _ => none
  | .moveConstruct a that =>
    match s.scopes a, s.scopes that with
    | none, some scope => some (s.move a that scope)
    | _, _ => none
  | .moveAssign a that =>
    match s.scopes a, s.scopes that with
    | some _, some scope => some (s.move a that scope)
    | _, _ => none
  | .reset a =>
    match s.scopes a with
    | some scope => some ((s.release scope).setScope a (some { scope with pendingRequestWatches_ := none }))
    | none => none
  | .destroy a =>
    match s.scopes a with
    | some scope => some ((s.release scope).setScope a none)
    | none => none

/-- The scope `a` is live and attached to `list` by `watch`. -/
def Sys.Attached (s : Sys ScopeId ListId) (a : ScopeId) (list : ListId) (watch : ℕ) : Prop :=
  s.scopes a = some ⟨some list, watch⟩

/-- The live scopes attached to a list. -/
def Sys.attachedTo (s : Sys ScopeId ListId) (list : ListId) : Set ScopeId := {a | ∃ watch, s.Attached a list watch}

/-- `COUNT` of `getMetricFromWatches` -/
def Sys.pending (s : Sys ScopeId ListId) (list : ListId) : ℕ := (s.watches list).length

end RequestMetricsScope

end EdenCommon
