import Mathlib.Data.List.AList

/-!
# `FaultInjector`

What `state_` guards in `FaultInjector.cpp`, and each critical section on it as a function
of the state. `boost::regex` is a parameter: whether a text is a regular expression, and
what it matches. An exception leaves a function together with the state it leaves behind.

The vectors of blocked checks are walked in place: a slot that was moved out of is
`BlockedCheck.movedFrom`, and a promise that is destroyed before it is set is `broken`.
-/

namespace EdenCommon

namespace FaultInjector

/-- A `boost::regex` made from the text `str`. -/
structure Regex where
  str : String
  regex_match : String → Bool

/-- `boost::regex`, which throws if the text is no regular expression, and
`std::runtime_error` as an `exception_wrapper`. -/
structure Env (E : Type) where
  regex : String → Option (String → Bool)
  runtime_error : String → E

variable {T E : Type}

/-- Texts without special characters, and the one that is no regular expression. -/
def Env.literal : Env Unit where
  regex text := if text = "(" then none else some fun keyValue => keyValue = text
  runtime_error _ := ()

def Env.compile (env : Env E) (text : String) : Option Regex := (env.regex text).map fun m => ⟨text, m⟩

/-- `T` is the type of cancellation tokens. Durations are in milliseconds. -/
inductive FaultBehavior (T E : Type)
  | unit
  | block
  | blockWithCancel (cancellationToken : T) (timeoutDuration : ℕ)
  | delay (duration : ℕ) (error : Option E)
  | error (e : E)
  | kill
  deriving DecidableEq, Repr

structure Fault (T E : Type) where
  keyValueRegex : Regex
  /-- 0 if the fault is triggered indefinitely. -/
  countRemaining : ℕ
  behavior : FaultBehavior T E

abbrev PromiseId := ℕ

structure BlockedCheck where
  keyValue : String
  promise : Option PromiseId
  deriving DecidableEq, Repr

def BlockedCheck.movedFrom : BlockedCheck := ⟨"", none⟩

structure State (T E : Type) where
  faults : AList fun _ : String => List (Fault T E)
  blockedChecks : AList fun _ : String => List BlockedCheck

def State.new : State T E := ⟨∅, ∅⟩

/-- The exceptions that the methods throw. -/
inductive Thrown
  | disabled
  | regexError
  deriving DecidableEq, Repr

def Thrown.what : Thrown → Option String
  | .disabled => some "fault injection is disabled"
  | .regexError => none

/-! ### Faults -/

namespace State

/-- `faults[keyClass]` makes a vector before the regular expression is compiled. -/
def injectFault (env : Env E) (enabled_ : Bool) (s : State T E) (keyClass keyValueRegex : String)
    (behavior : FaultBehavior T E) (count : ℕ) : State T E × Except Thrown Unit :=
  if !enabled_ then (s, .error .disabled)
  else
    let faultVector := (s.faults.lookup keyClass).getD []
    match env.compile keyValueRegex with
    | none => ({ s with faults := s.faults.insert keyClass faultVector }, .error .regexError)
    | some regex =>
      ({ s with faults := s.faults.insert keyClass (faultVector ++ [⟨regex, count, behavior⟩]) }, .ok ())

/-- The scan of `removeFault`: the vector without the first fault with that text. -/
def removeScan (keyValueRegex : String) : List (Fault T E) → Option (List (Fault T E))
  | [] => none
  | iter :: rest =>
    if iter.keyValueRegex.str = keyValueRegex then some rest else (removeScan keyValueRegex rest).map (iter :: ·)

def removeFault (s : State T E) (keyClass keyValueRegex : String) : State T E × Bool :=
  match s.faults.lookup keyClass with
  | none => (s, false)
  | some faultVector =>
    match removeScan keyValueRegex faultVector with
    | none => (s, false)
    | some rest =>
      ({ s with faults := if rest.isEmpty then s.faults.erase keyClass else s.faults.insert keyClass rest }, true)

/-- The scan of `findFault`: the vector behind it and the behavior found. -/
def findScan (keyValue : String) : List (Fault T E) → List (Fault T E) × FaultBehavior T E
  | [] => ([], .unit)
  | iter :: rest =>
    if !iter.keyValueRegex.regex_match keyValue then
      let r := findScan keyValue rest
      (iter :: r.1, r.2)
    else if iter.countRemaining > 0 then
      -- the last match erases the fault
      if iter.countRemaining - 1 = 0 then (rest, iter.behavior)
      else ({ iter with countRemaining := iter.countRemaining - 1 } :: rest, iter.behavior)
    else (iter :: rest, iter.behavior)

def findFault (s : State T E) (keyClass keyValue : String) : State T E × FaultBehavior T E :=
  match s.faults.lookup keyClass with
  | none => (s, .unit)
  | some faultVector =>
    let r := findScan keyValue faultVector
    ({ s with faults := s.faults.insert keyClass r.1 }, r.2)

/-- The scan of `updateBlockWithCancelToken`. -/
def updateScan (keyValue : String) (newToken : T) : List (Fault T E) → List (Fault T E)
  | [] => []
  | fault :: rest =>
    if fault.keyValueRegex.regex_match keyValue then
      match fault.behavior with
      | .blockWithCancel _ timeout => { fault with behavior := .blockWithCancel newToken timeout } :: rest
      | _ => fault :: updateScan keyValue newToken rest
    else fault :: updateScan keyValue newToken rest

def updateBlockWithCancelToken (s : State T E) (keyClass keyValue : String) (newToken : T) : State T E :=
  match s.faults.lookup keyClass with
  | none => s
  | some faultVector => { s with faults := s.faults.insert keyClass (updateScan keyValue newToken faultVector) }

/-! ### Blocked checks -/

/-- `promise` is the one that `makePromiseContract` has made. -/
def addBlockedFault (s : State T E) (keyClass keyValue : String) (promise : PromiseId) : State T E :=
  { s with
    blockedChecks := s.blockedChecks.insert keyClass
      ((s.blockedChecks.lookup keyClass).getD [] ++ [⟨keyValue, some promise⟩]) }

end State

/-- The cursors of `extractBlockedChecks` in the vector. -/
structure Extract where
  blockedChecks : List BlockedCheck
  writeIter : ℕ
  results : List BlockedCheck
  broken : List PromiseId
  deriving DecidableEq, Repr

/-- The body of the loop. -/
def Extract.step (regex : Regex) (x : Extract) (readIter : ℕ) : Extract :=
  let check := x.blockedChecks.getD readIter .movedFrom
  if regex.regex_match check.keyValue then
    { x with results := x.results ++ [check], blockedChecks := x.blockedChecks.set readIter .movedFrom }
  else if readIter ≠ x.writeIter then
    { x with
      blockedChecks := (x.blockedChecks.set x.writeIter check).set readIter .movedFrom
      -- the check that is assigned to is destroyed
      broken := x.broken ++ (x.blockedChecks.getD x.writeIter .movedFrom).promise.toList
      writeIter := x.writeIter + 1 }
  else { x with writeIter := x.writeIter + 1 }

def Extract.loop (regex : Regex) (blockedChecks : List BlockedCheck) : Extract :=
  (List.range blockedChecks.length).foldl (Extract.step regex) ⟨blockedChecks, 0, [], []⟩

namespace State

/-- The matches, and the promises that are destroyed. -/
def extractBlockedChecks (env : Env E) (s : State T E) (keyClass keyValueRegex : String) :
    State T E × Except Thrown (List BlockedCheck × List PromiseId) :=
  match s.blockedChecks.lookup keyClass with
  | none => (s, .ok ([], []))
  | some blockedChecks =>
    match env.compile keyValueRegex with
    | none => (s, .error .regexError)
    | some regex =>
      let x := Extract.loop regex blockedChecks
      let erased := (x.blockedChecks.drop x.writeIter).filterMap BlockedCheck.promise
      ({ s with
          blockedChecks :=
            if x.writeIter = 0 then s.blockedChecks.erase keyClass
            else s.blockedChecks.insert keyClass (x.blockedChecks.take x.writeIter) },
        .ok (x.results, x.broken ++ erased))

/-- The section of `unblockAllImpl`, and the checks it takes. -/
def swapBlockedChecks (s : State T E) : State T E × List BlockedCheck :=
  ({ s with blockedChecks := ∅ }, s.blockedChecks.entries.flatMap Sigma.snd)

end State

/-! ### Injecting and checking -/

inductive FaultOp (T E : Type)
  | injectFault (keyClass keyValueRegex : String) (behavior : FaultBehavior T E) (count : ℕ)
  | removeFault (keyClass keyValueRegex : String)
  /-- The behavior that a `check` finds. -/
  | check (keyClass keyValue : String)

inductive FaultAnswer (T E : Type)
  | injected (result : Except Thrown Unit)
  | removed (result : Bool)
  | behavior (b : FaultBehavior T E)

def faultStep (env : Env E) (enabled_ : Bool) (s : State T E) : FaultOp T E → State T E × FaultAnswer T E
  | .injectFault keyClass keyValueRegex behavior count =>
    let r := s.injectFault env enabled_ keyClass keyValueRegex behavior count
    (r.1, .injected r.2)
  | .removeFault keyClass keyValueRegex =>
    let r := s.removeFault keyClass keyValueRegex
    (r.1, .removed r.2)
  | .check keyClass keyValue =>
    if enabled_ then
      let r := s.findFault keyClass keyValue
      (r.1, .behavior r.2)
    else (s, .behavior .unit)

end FaultInjector

end EdenCommon
