import Mathlib.Data.Nat.Notation

/-!
# `lazyInitialize`

Calls of `lazyInitialize` in `LazyInitialize.h` that share one `ptr`. The section under the
read lock is one step and the section under the write lock another. `init` makes a new
object on each call; its calls are numbered by `inits`.
-/

namespace EdenCommon

namespace LazyInitialize

/-- Where a call stands. -/
inductive Caller (T : Type)
  /-- In front of the read lock. -/
  | rlock (cond : Bool)
  /-- In front of the write lock. -/
  | wlock (cond : Bool)
  | returned (result : Option T)
  deriving DecidableEq, Repr

structure Sys (T : Type) where
  ptr : Option T
  callers : List (Caller T)
  /-- record: the calls of `init`. -/
  inits : ℕ
  deriving DecidableEq, Repr

variable {T : Type}

/-- The section under the read lock: where the call stands behind it. -/
def rlocked (cond : Bool) (ptr : Option T) : Caller T :=
  if cond && ptr.isSome then .returned ptr
  else if !cond && ptr.isNone then .returned none
  else .wlock cond

/-- The section under the write lock, of the `i`-th call. -/
def Sys.wlocked (init : ℕ → T) (s : Sys T) (i : ℕ) (cond : Bool) : Sys T :=
  if cond then
    { ptr := some (init s.inits)
      callers := s.callers.set i (.returned (some (init s.inits)))
      inits := s.inits + 1 }
  else { s with ptr := none, callers := s.callers.set i (.returned none) }

/-- The next step of the `i`-th call; `none` if there is none. -/
def step (init : ℕ → T) (s : Sys T) (i : ℕ) : Option (Sys T) :=
  match s.callers[i]? with
  | some (.rlock cond) => some { s with callers := s.callers.set i (rlocked cond s.ptr) }
  | some (.wlock cond) => some (s.wlocked init i cond)
  | _ => none

/-- The calls in front of their first lock. -/
def start (ptr : Option T) (conds : List Bool) : Sys T := ⟨ptr, conds.map .rlock, 0⟩

end LazyInitialize

end EdenCommon
