import Mathlib.Data.Fintype.Card
import Mathlib.Logic.Function.Basic
import Mathlib.Algebra.GroupWithZero.Nat

/-!
# `collectSafe`

The callbacks of `collectSafe` in `Future.h` over `n` futures, which complete in any order
and call back on any thread. Each atomic operation of a callback is one step, and so are
the stores in between. The value types of the futures may differ.
-/

namespace EdenCommon

namespace CollectSafe

/-- Where the callback of one future stands. -/
inductive Callback (E V : Type)
  /-- The future is not complete. -/
  | pending
  /-- The callback is called. -/
  | called (t : Except E V)
  /-- In `saveException`, behind the exchange that has set `hasException`. -/
  | saving (ew : E)
  /-- In front of `fetch_sub` in `decref`. -/
  | counting
  /-- `fetch_sub` has returned 1. -/
  | last
  /-- `hasException` is loaded; the promise is next. -/
  | loaded (hasException : Bool)
  | done

variable {n : ℕ} (E : Type) (α : Fin n → Type)

/-- `Context` and the callbacks. `p` is what the promise was set to, each time: the
exception, or the results that `unwrapTryTuple` unwraps. -/
structure Sys where
  p : List (Except (Option E) (∀ i, Option (α i)))
  exception : Option E
  hasException : Bool
  results : ∀ i, Option (α i)
  count : ℕ
  callbacks : ∀ i, Callback E (α i)
  /-- record: what the futures have completed with. -/
  inputs : ∀ i, Option (Except E (α i))
  /-- record: the future whose callback was first to set `hasException`. -/
  first : Option (Fin n)

inductive Op
  /-- A future completes, and its callback is called. -/
  | complete (i : Fin n) (t : Except E (α i))
  /-- The callback of the `i`-th future goes on to its next step. -/
  | proceed (i : Fin n)

/-- Behind `setCallback_` on all futures. -/
def start : Sys E α where
  p := []
  exception := none
  hasException := false
  results _ := none
  count := n
  callbacks _ := .pending
  inputs _ := none
  first := none

variable {E α}

def Sys.move (s : Sys E α) (i : Fin n) (c : Callback E (α i)) : Sys E α :=
  { s with callbacks := Function.update s.callbacks i c }

/-- The next step of the `i`-th callback. -/
def Sys.proceed (s : Sys E α) (i : Fin n) : Callback E (α i) → Option (Sys E α)
  | .pending => none
  | .called (.error ew) =>
    if s.hasException then some (s.move i .counting)
    else some { s.move i (.saving ew) with hasException := true, first := some i }
  | .called (.ok v) => some { s.move i .counting with results := Function.update s.results i (some v) }
  | .saving ew => some { s.move i .counting with exception := some ew }
  | .counting => some { s.move i (if s.count = 1 then .last else .done) with count := s.count - 1 }
  | .last => some (s.move i (.loaded s.hasException))
  | .loaded hasException =>
    some { s.move i .done with p := s.p ++ [if hasException then .error s.exception else .ok s.results] }
  | .done => none

/-- The step function; `none` if the step is not possible. -/
def step (s : Sys E α) : Op E α → Option (Sys E α)
  | .complete i t =>
    match s.callbacks i with
    | .pending => some { s.move i (.called t) with inputs := Function.update s.inputs i (some t) }
    | _ => none
  | .proceed i => s.proceed i (s.callbacks i)

end CollectSafe

end EdenCommon
