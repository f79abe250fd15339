import EdenCommon.Spec.FaultInjector

/-!
# Blocked checks of a `FaultInjector`

Checks that block, `unblock`, `unblockWithError`, `unblockAll`, `unblockAllWithError` and
the destructor, in any interleaving. An operation takes the checks it is to fulfil in its
critical section, and then fulfils them one at a time; a fulfilled check may call the
injector again. Promises are numbered by the checks that block.

The order in which an operation fulfils its checks is left open: for `unblockAll` it is
that of a hash map.
-/

namespace EdenCommon

namespace FaultInjector

/-- What an operation covers; `none` for a text that is no regular expression. -/
inductive Cover
  | key (keyClass : String) (regex : Option Regex)
  | all

/-- An operation behind its critical section. It returns the size of `matched`. -/
structure Task (E : Type) where
  cover : Cover
  error : Option E
  matched : List BlockedCheck
  /-- The checks it has yet to fulfil. -/
  todo : List BlockedCheck

/-- A promise that was fulfilled, by which operation; `none` is `setValue`. -/
structure Fulfilled (E : Type) where
  task : ℕ
  promise : Option PromiseId
  error : Option E

/-- record: a check that has blocked, and the number of operations before it. -/
structure Check where
  keyClass : String
  keyValue : String
  since : ℕ
  deriving DecidableEq, Repr

structure Blocking (T E : Type) where
  state_ : State T E
  tasks : List (Task E)
  /-- record: the promises that were fulfilled, in order. -/
  results : List (Fulfilled E)
  /-- record: the promises that were destroyed before they were fulfilled. -/
  broken : List PromiseId
  /-- record: the operations that have thrown. -/
  regexErrors : ℕ
  checks : List Check
  destroyed : Bool

variable {T E : Type}

inductive BlockingOp (E : Type)
  /-- A check that has met a `Block` fault. -/
  | block (keyClass keyValue : String)
  | unblock (keyClass keyValueRegex : String) (error : Option E)
  | unblockAll (error : Option E)
  | destroy
  /-- The operation with this number fulfils a check it has yet to fulfil. -/
  | set (task i : ℕ)

namespace Blocking

def new : Blocking T E := ⟨.new, [], [], [], 0, [], false⟩

def unblock (env : Env E) (s : Blocking T E) (keyClass keyValueRegex : String) (error : Option E) :
    Blocking T E :=
  let r := s.state_.extractBlockedChecks env keyClass keyValueRegex
  match r.2 with
  | .error _ => { s with state_ := r.1, regexErrors := s.regexErrors + 1 }
  | .ok (results, broken) =>
    { s with
      state_ := r.1
      tasks := s.tasks ++ [⟨.key keyClass (env.compile keyValueRegex), error, results, results⟩]
      broken := s.broken ++ broken }

def unblockAllImpl (s : Blocking T E) (error : Option E) : Blocking T E :=
  let r := s.state_.swapBlockedChecks
  { s with state_ := r.1, tasks := s.tasks ++ [⟨.all, error, r.2, r.2⟩] }

/-- The step function; `none` if the step is not possible. -/
def step (env : Env E) (s : Blocking T E) : BlockingOp E → Option (Blocking T E)
  | .block keyClass keyValue =>
    if s.destroyed then none
    else
      some { s with
        state_ := s.state_.addBlockedFault keyClass keyValue s.checks.length
        checks := s.checks ++ [⟨keyClass, keyValue, s.tasks.length⟩] }
  | .unblock keyClass keyValueRegex error =>
    if s.destroyed then none else some (s.unblock env keyClass keyValueRegex error)
  | .unblockAll error => if s.destroyed then none else some (s.unblockAllImpl error)
  | .destroy =>
    if s.destroyed then none
    else
      some { s.unblockAllImpl (some (env.runtime_error "FaultInjector destroyed")) with destroyed := true }
  | .set k i =>
    match s.tasks[k]? with
    | none => none
    | some task =>
      match task.todo[i]? with
      | none => none
      | some check =>
        some { s with
          tasks := s.tasks.set k { task with todo := task.todo.eraseIdx i }
          results := s.results ++ [⟨k, check.promise, task.error⟩] }

end Blocking

end FaultInjector

end EdenCommon
