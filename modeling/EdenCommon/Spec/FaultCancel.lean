import EdenCommon.Spec.FaultInjector

/-!
# `waitForCancelOrTimeout`

Any number of callers of one `FaultInjector`. A call has two critical sections,
`updateBlockWithCancelToken` and the `findFault` of `checkAsyncImpl`; between them, any
others run: those of other calls, of checks and of `injectFault` and `removeFault`.
-/

namespace EdenCommon

namespace FaultInjector

variable {T E : Type}

/-- A call of `waitForCancelOrTimeout`. -/
structure Caller (T E : Type) where
  keyClass : String
  key : String
  cancellationToken : T
  /-- What `checkAsyncImpl` has found; `none` between the two sections. -/
  behavior : Option (FaultBehavior T E)

/-- The token that `pollCancellationToken` is given. -/
def Caller.polls (c : Caller T E) : Option T :=
  match c.behavior with
  | some (.blockWithCancel cancellationToken _) => some cancellationToken
  | _ => none

structure Cancel (T E : Type) where
  state_ : State T E
  callers : List (Caller T E)

inductive CancelOp (T E : Type)
  | fault (op : FaultOp T E)
  /-- The first section of a call. -/
  | waitForCancelOrTimeout (keyClass key : String) (cancellationToken : T)
  /-- The second section of the call with this number. -/
  | checkAsyncImpl (caller : ℕ)

namespace Cancel

def new : Cancel T E := ⟨.new, []⟩

/-- The step function; `none` if the step is not possible. -/
def step (env : Env E) (enabled_ : Bool) (s : Cancel T E) : CancelOp T E → Option (Cancel T E)
  | .fault op => some { s with state_ := (faultStep env enabled_ s.state_ op).1 }
  | .waitForCancelOrTimeout keyClass key cancellationToken =>
    if enabled_ then
      some {
        state_ := s.state_.updateBlockWithCancelToken keyClass key cancellationToken
        callers := s.callers ++ [⟨keyClass, key, cancellationToken, none⟩] }
    else some { s with callers := s.callers ++ [⟨keyClass, key, cancellationToken, some .unit⟩] }
  | .checkAsyncImpl i =>
    match s.callers[i]? with
    | some ⟨keyClass, key, cancellationToken, none⟩ =>
      let r := s.state_.findFault keyClass key
      some { state_ := r.1, callers := s.callers.set i ⟨keyClass, key, cancellationToken, some r.2⟩ }
    | _ => none

end Cancel

end FaultInjector

end EdenCommon
