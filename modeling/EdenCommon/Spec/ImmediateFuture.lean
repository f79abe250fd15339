import Mathlib.Data.List.FinRange
import Mathlib.Logic.Function.Basic

/-!
# `ImmediateFuture`

The constructors, continuations and collectors of `ImmediateFuture-inl.h`.
`folly::SemiFuture` is a parameter: a `SemiFuture` is known by the `Try` that it completes
with, and `isReady` may answer anything, at the construction of an `ImmediateFuture` and again
when it is used. `kImmediateFutureAlwaysDefer` is a parameter too.

`E` is the type of `folly::exception_wrapper`. A function that may throw returns an `Except`.
The kind `Nothing` of an object that was moved from does not occur.
-/

namespace EdenCommon

namespace Futures

/-- `folly::Try`. -/
inductive Try (E T : Type)
  | value (x : T)
  | exception (e : E)
  deriving DecidableEq, Repr

/-- A callback for `folly`, by the type it returns. -/
inductive Callback (SemiFuture : Type → Type) (E A U : Type)
  | value (f : A → Except E U)
  | tryValue (f : A → Except E (Try E U))
  | semiFuture (f : A → Except E (SemiFuture U))

/-- When `isReady` is called. -/
inductive Moment
  | construction
  | use
  deriving DecidableEq, Repr

/-- What the code uses of `folly`. -/
structure Folly (E : Type) where
  SemiFuture : Type → Type
  isReady : ∀ {T : Type}, Moment → SemiFuture T → Bool
  getTry : ∀ {T : Type}, SemiFuture T → Try E T
  /-- `SemiFuture{Try}`. -/
  make : ∀ {T : Type}, Try E T → SemiFuture T
  defer : ∀ {T U : Type}, SemiFuture T → Callback SemiFuture E (Try E T) U → SemiFuture U
  deferValue : ∀ {T U : Type}, SemiFuture T → Callback SemiFuture E T U → SemiFuture U
  collectAll : ∀ {T : Type}, List (SemiFuture T) → SemiFuture (List (Try E T))
  /-- A `SemiFuture<Unit>` whose callback writes to a shared object of the type `σ`. -/
  Writer : Type → Type
  deferWrite : ∀ {T σ : Type}, SemiFuture T → (Try E T → σ → σ) → Writer σ
  /-- What the callback of a `Writer` does. -/
  writes : ∀ {σ : Type}, Writer σ → σ → σ
  /-- `collectAll(writers).deferValue(...)`, where the callback reads the shared object. -/
  collectWriters : ∀ {σ U : Type}, List (Writer σ) → σ → (σ → SemiFuture U) → SemiFuture U
  /-- The future of a promise that is set to this value when its owner is destroyed. -/
  promised : ∀ {T : Type}, T → SemiFuture T
  logic_error : String → E

variable {E : Type}

/-- `ImmediateFuture`, by its kind. -/
inductive ImmediateFuture (F : Folly E) (T : Type)
  | immediate (immediate_ : Try E T)
  | semiFuture (semi_ : F.SemiFuture T)
  | lazySemiFuture (semi_ : F.SemiFuture T)

/-- A continuation, by the type it returns; `void` is `Unit`. -/
inductive Func (F : Folly E) (A U : Type)
  | value (f : A → Except E U)
  | tryValue (f : A → Except E (Try E U))
  | immediateFuture (f : A → Except E (ImmediateFuture F U))

namespace ImmediateFuture

variable {F : Folly E} {T U : Type}

/-- `ImmediateFuture(folly::Try<T>&&)`. -/
def ofTry (F : Folly E) (kImmediateFutureAlwaysDefer : Bool) (value : Try E T) : ImmediateFuture F T :=
  if kImmediateFutureAlwaysDefer then .semiFuture (F.make value) else .immediate value

/-- `ImmediateFuture(folly::SemiFuture<T>&&)`. -/
def ofSemi (kImmediateFutureAlwaysDefer : Bool) (fut : F.SemiFuture T) : ImmediateFuture F T :=
  if !F.isReady .construction fut || kImmediateFutureAlwaysDefer then .semiFuture fut
  else .immediate (F.getTry fut)

def isReady (kImmediateFutureAlwaysDefer : Bool) : ImmediateFuture F T → Bool
  | .immediate _ => true
  | .semiFuture semi_ => if kImmediateFutureAlwaysDefer then false else F.isReady .use semi_
  | .lazySemiFuture _ => false

def getTry : ImmediateFuture F T → Try E T
  | .immediate immediate_ => immediate_
  | .semiFuture semi_ => F.getTry semi_
  | .lazySemiFuture semi_ => F.getTry semi_

def semi : ImmediateFuture F T → F.SemiFuture T
  | .immediate immediate_ => F.make immediate_
  | .semiFuture semi_ => semi_
  | .lazySemiFuture semi_ => semi_

def makeImmediateFutureFromImmediate (kImmediateFutureAlwaysDefer : Bool) {A : Type} (func : Func F A U) (arg : A) :
    ImmediateFuture F U :=
  match func with
  | .value f =>
    match f arg with
    | .ok x => ofTry F kImmediateFutureAlwaysDefer (.value x)
    | .error e => ofTry F kImmediateFutureAlwaysDefer (.exception e)
  | .tryValue f =>
    match f arg with
    | .ok t => ofTry F kImmediateFutureAlwaysDefer t
    | .error e => ofTry F kImmediateFutureAlwaysDefer (.exception e)
  | .immediateFuture f =>
    match f arg with
    | .ok fut => fut
    | .error e => ofTry F kImmediateFutureAlwaysDefer (.exception e)

/-! ### Continuations -/

section Continuations

variable (kImmediateFutureAlwaysDefer : Bool)

def thenTry (fut : ImmediateFuture F T) (func : Func F (Try E T) U) : ImmediateFuture F U :=
  if fut.isReady kImmediateFutureAlwaysDefer then
    makeImmediateFutureFromImmediate kImmediateFutureAlwaysDefer func fut.getTry
  else
    match func with
    | .value f => ofSemi kImmediateFutureAlwaysDefer (F.defer fut.semi (.value f))
    | .tryValue f => ofSemi kImmediateFutureAlwaysDefer (F.defer fut.semi (.tryValue f))
    | .immediateFuture f =>
      let semiFut : F.SemiFuture (ImmediateFuture F U) := F.defer fut.semi (.value f)
      ofSemi kImmediateFutureAlwaysDefer (F.deferValue semiFut (.semiFuture fun immFut => .ok immFut.semi))

def thenValue (fut : ImmediateFuture F T) (func : Func F T U) : ImmediateFuture F U :=
  match fut with
  | .immediate (.exception e) => ofTry F kImmediateFutureAlwaysDefer (.exception e)
  | fut =>
    fut.thenTry kImmediateFutureAlwaysDefer (.immediateFuture fun try_ =>
      match try_ with
      | .value x => .ok (makeImmediateFutureFromImmediate kImmediateFutureAlwaysDefer func x)
      | .exception e => .ok (ofTry F kImmediateFutureAlwaysDefer (.exception e)))

def thenError (fut : ImmediateFuture F T) (func : Func F E T) : ImmediateFuture F T :=
  match fut with
  | .immediate (.value x) => ofTry F kImmediateFutureAlwaysDefer (.value x)
  | fut =>
    fut.thenTry kImmediateFutureAlwaysDefer (.immediateFuture fun try_ =>
      match try_ with
      | .exception e => .ok (makeImmediateFutureFromImmediate kImmediateFutureAlwaysDefer func e)
      | .value x => .ok (ofTry F kImmediateFutureAlwaysDefer (.value x)))

def ensure (fut : ImmediateFuture F T) (func : Unit → Except E Unit) : ImmediateFuture F T :=
  fut.thenTry kImmediateFutureAlwaysDefer (.tryValue fun try_ =>
    match func () with
    | .ok _ => .ok try_
    | .error e => .error e)

def unit (fut : ImmediateFuture F T) : ImmediateFuture F Unit :=
  fut.thenValue kImmediateFutureAlwaysDefer (.value fun _ => .ok ())

end Continuations

end ImmediateFuture

/-! ### `collectAll` of a vector -/

/-- The variables of the loop. -/
structure Collected (F : Folly E) (T : Type) where
  semis : List (F.SemiFuture T)
  semisIndices : List ℕ
  res : List (Try E T)
  currentIndex : ℕ

variable {F : Folly E} {T U : Type}

/-- The body of the loop. -/
def Collected.step (kImmediateFutureAlwaysDefer : Bool) (c : Collected F T) (fut : ImmediateFuture F T) : Collected F T :=
  if fut.isReady kImmediateFutureAlwaysDefer then
    { c with res := c.res ++ [fut.getTry], currentIndex := c.currentIndex + 1 }
  else
    { semis := c.semis ++ [fut.semi]
      semisIndices := c.semisIndices ++ [c.currentIndex]
      res := c.res ++ [.exception (F.logic_error "Uncompleted SemiFuture")]
      currentIndex := c.currentIndex + 1 }

/-- The loop of the callback: the late results go to their indices. -/
def scatter (semisIndices : List ℕ) (res semisRes : List (Try E T)) : List (Try E T) :=
  (semisIndices.zip semisRes).foldl (fun res x => res.set x.1 x.2) res

namespace ImmediateFuture

def collectAll (kImmediateFutureAlwaysDefer : Bool) (futures : List (ImmediateFuture F T)) :
    ImmediateFuture F (List (Try E T)) :=
  let c := futures.foldl (Collected.step kImmediateFutureAlwaysDefer) ⟨[], [], [], 0⟩
  if c.semis.isEmpty then ofTry F kImmediateFutureAlwaysDefer (.value c.res)
  else
    ofSemi kImmediateFutureAlwaysDefer
      (F.deferValue (F.collectAll c.semis) (.value fun semisRes => .ok (scatter c.semisIndices c.res semisRes)))

/-- The loop of `collectAllSafe`. -/
def unwrap (res : List T) : List (Try E T) → Try E (List T)
  | [] => .value res
  | .exception e :: _ => .exception e
  | .value x :: futures => unwrap (res ++ [x]) futures

def collectAllSafe (kImmediateFutureAlwaysDefer : Bool) (futures : List (ImmediateFuture F T)) :
    ImmediateFuture F (List T) :=
  (collectAll kImmediateFutureAlwaysDefer futures).thenValue kImmediateFutureAlwaysDefer
    (.tryValue fun futures => .ok (unwrap [] futures))

end ImmediateFuture

/-! ### `collectAll` of a tuple -/

/-- `Context::results`; a `Try` that nothing was assigned to is `none`. -/
abbrev Results (E : Type) {n : ℕ} (Ts : Fin n → Type) : Type := ∀ i, Option (Try E (Ts i))

/-- The variables of the loop. -/
structure Context (F : Folly E) {n : ℕ} (Ts : Fin n → Type) where
  results : Results E Ts
  semis : List (F.Writer (Results E Ts))

variable {n : ℕ} {Ts : Fin n → Type}

/-- The body of the loop. -/
def Context.step (kImmediateFutureAlwaysDefer : Bool) (fs : ∀ i, ImmediateFuture F (Ts i)) (ctx : Context F Ts)
    (i : Fin n) : Context F Ts :=
  if (fs i).isReady kImmediateFutureAlwaysDefer then
    { ctx with results := Function.update ctx.results i (some (fs i).getTry) }
  else
    { ctx with
      semis := ctx.semis ++ [F.deferWrite (fs i).semi fun t results => Function.update results i (some t)] }

def ImmediateFuture.collectAllTuple (kImmediateFutureAlwaysDefer : Bool) (fs : ∀ i, ImmediateFuture F (Ts i)) :
    ImmediateFuture F (Results E Ts) :=
  let ctx := (List.finRange n).foldl (Context.step kImmediateFutureAlwaysDefer fs) ⟨fun _ => none, []⟩
  if ctx.semis.isEmpty then ofSemi kImmediateFutureAlwaysDefer (F.promised ctx.results)
  else
    ofSemi kImmediateFutureAlwaysDefer (F.collectWriters ctx.semis ctx.results fun results => F.promised results)

end Futures

end EdenCommon
