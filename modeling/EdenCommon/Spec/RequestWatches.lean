import EdenCommon.Lib.Run
import Mathlib.Data.Nat.Notation
import Mathlib.Logic.Function.Basic

/-!
# `RequestMetricsScope::getMaxDuration`

The scopes on one watch list, constructed and destroyed on any threads. The constructor starts
its watch before it locks the list, so these are two steps; the critical sections of the
insertion, of the destructor and `reset`, and of `getMaxDuration` are one each. The clock is
steady. A node of the `std::list` is known by the scope that holds its iterator.
-/

namespace EdenCommon

namespace RequestWatches

/-- `folly::stop_watch`: the time at which it was started, in the list of a scope. -/
structure Watch (ScopeId : Type) where
  scope : ScopeId
  checkpoint : ℕ
  deriving DecidableEq, Repr

structure Sys (ScopeId : Type) where
  now : ℕ
  /-- The constructor of the scope has started its watch and not inserted it. -/
  starting : ScopeId → Option ℕ
  watches : List (Watch ScopeId)

inductive Op (ScopeId : Type)
  | pass (duration : ℕ)
  | construct (a : ScopeId)
  | insert (a : ScopeId)
  /-- The destructor, or `reset`. -/
  | release (a : ScopeId)
  deriving DecidableEq, Repr

variable {ScopeId : Type} [DecidableEq ScopeId]

def start : Sys ScopeId := ⟨0, fun _ => none, []⟩

/-- One step; `none` where the scope is not in the place to make it. -/
def step (s : Sys ScopeId) : Op ScopeId → Option (Sys ScopeId)
  | .pass duration => some { s with now := s.now + duration }
  | .construct a =>
    if (s.starting a).isSome ∨ a ∈ s.watches.map Watch.scope then none
    else some { s with starting := Function.update s.starting a (some s.now) }
  | .insert a =>
    (s.starting a).map fun watch =>
      { s with starting := Function.update s.starting a none, watches := s.watches ++ [⟨a, watch⟩] }
  | .release a =>
    if a ∈ s.watches.map Watch.scope then
      some { s with watches := s.watches.filter fun watch => watch.scope ≠ a }
    else none

omit [DecidableEq ScopeId] in
/-- `stop_watch::elapsed` -/
def Sys.elapsed (s : Sys ScopeId) (watch : Watch ScopeId) : ℕ := s.now - watch.checkpoint

omit [DecidableEq ScopeId] in
def Sys.getMaxDuration (s : Sys ScopeId) : ℕ :=
  match s.watches with
  | [] => 0
  | front :: _ => s.elapsed front

omit [DecidableEq ScopeId] in
/-- The greatest elapsed time of all watches, 0 if there are none. -/
def Sys.maxElapsed (s : Sys ScopeId) : ℕ := (s.watches.map s.elapsed).foldr max 0

/-- A watch that is inserted was not started before one of the list. -/
def InOrder (s : Sys ScopeId) : Op ScopeId → Prop
  | .insert a => ∀ watch, s.starting a = some watch → ∀ other ∈ s.watches, other.checkpoint ≤ watch
  | _ => True

end RequestWatches

end EdenCommon
