import EdenCommon.Spec.ImmediateFuture
import Mathlib.Data.List.Induction

/-!
# `ImmediateFuture` is transparent to readiness

An expression of futures has a meaning, `Expr.denote`, which is a `Try` and knows nothing of
readiness. `Expr.eval` builds the expression with the functions of the code, from leaves of
any kind.

* `scatter_collected`, `results_eq`: `collectAll` puts every result at its place, whichever
  were ready.
* `transparent`: the future of an expression completes with its meaning.
* `getTry_collectAllSafe`: all values, or the first exception in the order of the futures.
* `gathers_step`, `getTry_collectAllTuple`: one turn of the fold that makes the tuple, and
  the tuple with the result of each future in its place.
* `Expr.getTry_eval`: every expression evaluates to what it denotes. The induction is on the
  expression, together with its continuations (`Cont.complete_func`).
-/

namespace EdenCommon

namespace Futures

variable {E : Type} {F : Folly E} {d : Bool}

/-! ### What the code relies on -/

/-- What a callback makes of its argument: a throw is captured, a `Try` or a `SemiFuture` is
unwrapped. -/
def Callback.complete {SemiFuture : Type → Type} (getTry : ∀ {T : Type}, SemiFuture T → Try E T) {A U : Type} :
    Callback SemiFuture E A U → A → Try E U
  | .value f, a =>
    match f a with
    | .ok x => .value x
    | .error e => .exception e
  | .tryValue f, a =>
    match f a with
    | .ok t => t
    | .error e => .exception e
  | .semiFuture f, a =>
    match f a with
    | .ok s => getTry s
    | .error e => .exception e

/-- Callbacks run on the completed `Try`. Those of writers run in any order, each once. -/
structure Folly.Lawful (F : Folly E) : Prop where
  getTry_make : ∀ {T : Type} (t : Try E T), F.getTry (F.make t) = t
  getTry_defer : ∀ {T U : Type} (s : F.SemiFuture T) (c : Callback F.SemiFuture E (Try E T) U),
    F.getTry (F.defer s c) = c.complete F.getTry (F.getTry s)
  getTry_deferValue : ∀ {T U : Type} (s : F.SemiFuture T) (c : Callback F.SemiFuture E T U),
    F.getTry (F.deferValue s c) =
      match F.getTry s with
      | .value x => c.complete F.getTry x
      | .exception e => .exception e
  getTry_collectAll : ∀ {T : Type} (ss : List (F.SemiFuture T)), F.getTry (F.collectAll ss) = .value (ss.map F.getTry)
  writes_deferWrite : ∀ {T σ : Type} (s : F.SemiFuture T) (f : Try E T → σ → σ) (x : σ),
    F.writes (F.deferWrite s f) x = f (F.getTry s) x
  getTry_collectWriters : ∀ {σ U : Type} (ws : List (F.Writer σ)) (x : σ) (k : σ → F.SemiFuture U),
    ∃ order : List (F.Writer σ), order.Perm ws ∧
      F.getTry (F.collectWriters ws x k) = F.getTry (k (order.foldl (fun x w => F.writes w x) x))
  getTry_promised : ∀ {T : Type} (x : T), F.getTry (F.promised x) = .value x

/-! ### Expressions -/

mutual

/-- An expression of futures with the result type `T`. Leaves are named by `ι` and have the
`Try` that they complete with. -/
inductive Expr (E ι : Type) : Type → Type 1
  | leaf {T : Type} (i : ι) (t : Try E T) : Expr E ι T
  | thenValue {T U : Type} (e : Expr E ι T) (k : Cont E ι T U) : Expr E ι U
  | thenTry {T U : Type} (e : Expr E ι T) (k : Cont E ι (Try E T) U) : Expr E ι U
  | thenError {T : Type} (e : Expr E ι T) (k : Cont E ι E T) : Expr E ι T
  | ensure {T : Type} (e : Expr E ι T) (func : Unit → Except E Unit) : Expr E ι T
  | unit {T : Type} (e : Expr E ι T) : Expr E ι Unit
  | collectAll {T : Type} {n : ℕ} (es : Fin n → Expr E ι T) : Expr E ι (List (Try E T))
  | collectAllSafe {T : Type} {n : ℕ} (es : Fin n → Expr E ι T) : Expr E ι (List T)
  | collectAllTuple {n : ℕ} {Ts : Fin n → Type} (es : ∀ i, Expr E ι (Ts i)) : Expr E ι (Results E Ts)

/-- A continuation. One that returns a future may throw instead, for some arguments. -/
inductive Cont (E ι : Type) : Type → Type → Type 1
  | value {A U : Type} (f : A → Except E U) : Cont E ι A U
  | tryValue {A U : Type} (f : A → Except E (Try E U)) : Cont E ι A U
  | future {A U : Type} (throws : A → Option E) (returns : A → Expr E ι U) : Cont E ι A U

end

variable {ι : Type}

/-- The exception of the first failure, or the values. -/
def firstFailure {T : Type} : List (Try E T) → Try E (List T)
  | [] => .value []
  | .exception e :: _ => .exception e
  | .value x :: ts =>
    match firstFailure ts with
    | .value xs => .value (x :: xs)
    | .exception e => .exception e

mutual

/-- The meaning of an expression. -/
def Expr.denote {T : Type} : Expr E ι T → Try E T
  | .leaf _ t => t
  | .thenValue e k =>
    match e.denote with
    | .value x => k.denote x
    | .exception ex => .exception ex
  | .thenTry e k => k.denote e.denote
  | .thenError e k =>
    match e.denote with
    | .value x => .value x
    | .exception ex => k.denote ex
  | .ensure e func =>
    match func () with
    | .ok _ => e.denote
    | .error ex => .exception ex
  | .unit e =>
    match e.denote with
    | .value _ => .value ()
    | .exception ex => .exception ex
  | .collectAll es => .value (List.ofFn fun i => (es i).denote)
  | .collectAllSafe es => firstFailure (List.ofFn fun i => (es i).denote)
  | .collectAllTuple es => .value fun i => some (es i).denote

def Cont.denote {A U : Type} : Cont E ι A U → A → Try E U
  | .value f, a =>
    match f a with
    | .ok x => .value x
    | .error e => .exception e
  | .tryValue f, a =>
    match f a with
    | .ok t => t
    | .error e => .exception e
  | .future throws returns, a =>
    match throws a with
    | some e => .exception e
    | none => (returns a).denote

end

/-- How a leaf is made: of its `Try`, or of a `SemiFuture` that completes with it, be it ready
or not. -/
inductive Leaf (F : Folly E) {T : Type} (t : Try E T)
  | immediate
  | semiFuture (s : F.SemiFuture T) (hs : F.getTry s = t)
  | lazySemiFuture (s : F.SemiFuture T) (hs : F.getTry s = t)

def Leaf.future (d : Bool) {T : Type} {t : Try E T} : Leaf F t → ImmediateFuture F T
  | .immediate => .ofTry F d t
  | .semiFuture s _ => .ofSemi d s
  | .lazySemiFuture s _ => .lazySemiFuture s

/-- An assignment of kinds to the leaves. -/
abbrev Kinds (F : Folly E) (ι : Type) : Type 1 := ι → ∀ {T : Type} (t : Try E T), Leaf F t

mutual

/-- The future of an expression, built by the code. -/
def Expr.eval (F : Folly E) (d : Bool) (κ : Kinds F ι) {T : Type} : Expr E ι T → ImmediateFuture F T
  | .leaf i t => (κ i t).future d
  | .thenValue e k => (e.eval F d κ).thenValue d (k.func F d κ)
  | .thenTry e k => (e.eval F d κ).thenTry d (k.func F d κ)
  | .thenError e k => (e.eval F d κ).thenError d (k.func F d κ)
  | .ensure e func => (e.eval F d κ).ensure d func
  | .unit e => (e.eval F d κ).unit d
  | .collectAll es => .collectAll d (List.ofFn fun i => (es i).eval F d κ)
  | .collectAllSafe es => .collectAllSafe d (List.ofFn fun i => (es i).eval F d κ)
  | .collectAllTuple es => .collectAllTuple d fun i => (es i).eval F d κ

def Cont.func (F : Folly E) (d : Bool) (κ : Kinds F ι) {A U : Type} : Cont E ι A U → Func F A U
  | .value f => .value f
  | .tryValue f => .tryValue f
  | .future throws returns => .immediateFuture fun a =>
    match throws a with
    | some e => .error e
    | none => .ok ((returns a).eval F d κ)

end

/-! ### Continuations -/

section Lawful

variable {T U A : Type}

/-- What a continuation makes of its argument. -/
def Func.complete : Func F A U → A → Try E U
  | .value f, a =>
    match f a with
    | .ok x => .value x
    | .error e => .exception e
  | .tryValue f, a =>
    match f a with
    | .ok t => t
    | .error e => .exception e
  | .immediateFuture f, a =>
    match f a with
    | .ok fut => fut.getTry
    | .error e => .exception e

/-- A future made of a `SemiFuture` has its result, whether it is ready or not. -/
theorem getTry_ofSemi (d : Bool) (s : F.SemiFuture T) : (ImmediateFuture.ofSemi d s).getTry = F.getTry s := by
  unfold ImmediateFuture.ofSemi
  split <;> rfl

variable (hF : F.Lawful)

include hF

theorem getTry_ofTry (d : Bool) (t : Try E T) : (ImmediateFuture.ofTry F d t).getTry = t := by
  cases d with
  | true => exact hF.getTry_make t
  | false => rfl

/-- The way back to a `SemiFuture` keeps the result. -/
theorem getTry_semi (fut : ImmediateFuture F T) : F.getTry fut.semi = fut.getTry := by
  cases fut with
  | immediate t => exact hF.getTry_make t
  | semiFuture s => rfl
  | lazySemiFuture s => rfl

/-- A leaf has the result that it was made with, whichever way it was made. -/
theorem getTry_future {t : Try E T} (l : Leaf F t) : (l.future d).getTry = t := by
  cases l with
  | immediate => exact getTry_ofTry hF d t
  | semiFuture s hs => exact (getTry_ofSemi d s).trans hs
  | lazySemiFuture s hs => exact hs

theorem getTry_makeImmediateFutureFromImmediate (func : Func F A U) (a : A) :
    (ImmediateFuture.makeImmediateFutureFromImmediate d func a).getTry = func.complete a := by
  cases func with
  | value f =>
    simp only [ImmediateFuture.makeImmediateFutureFromImmediate, Func.complete]
    cases f a <;> exact getTry_ofTry hF d _
  | tryValue f =>
    simp only [ImmediateFuture.makeImmediateFutureFromImmediate, Func.complete]
    cases f a <;> exact getTry_ofTry hF d _
  | immediateFuture f =>
    simp only [ImmediateFuture.makeImmediateFutureFromImmediate, Func.complete]
    cases f a with
    | ok fut => rfl
    | error e => exact getTry_ofTry hF d _

/-- **`thenTry`**: the branch taken makes no difference. -/
theorem getTry_thenTry (fut : ImmediateFuture F T) (func : Func F (Try E T) U) :
    (fut.thenTry d func).getTry = func.complete fut.getTry := by
  unfold ImmediateFuture.thenTry
  split
  · exact getTry_makeImmediateFutureFromImmediate hF func fut.getTry
  · cases func with
    | value f =>
      simp only [getTry_ofSemi, hF.getTry_defer, getTry_semi hF]
      rfl
    | tryValue f =>
      simp only [getTry_ofSemi, hF.getTry_defer, getTry_semi hF]
      rfl
    | immediateFuture f =>
      simp only [getTry_ofSemi, hF.getTry_deferValue, hF.getTry_defer, getTry_semi hF, Callback.complete, Func.complete]
      cases f fut.getTry <;> rfl

/-- **`thenValue`** runs the function on a value, and hands an exception on. -/
theorem getTry_thenValue (fut : ImmediateFuture F T) (func : Func F T U) :
    (fut.thenValue d func).getTry =
      match fut.getTry with
      | .value x => func.complete x
      | .exception e => .exception e := by
  unfold ImmediateFuture.thenValue
  split
  · exact getTry_ofTry hF d _
  · rw [getTry_thenTry hF, Func.complete]
    cases fut.getTry with
    | value x => exact getTry_makeImmediateFutureFromImmediate hF func x
    | exception e => exact getTry_ofTry hF d _

/-- **`thenError`** runs the function on an exception, and hands a value on. -/
theorem getTry_thenError (fut : ImmediateFuture F T) (func : Func F E T) :
    (fut.thenError d func).getTry =
      match fut.getTry with
      | .value x => .value x
      | .exception e => func.complete e := by
  unfold ImmediateFuture.thenError
  split
  · exact getTry_ofTry hF d _
  · rw [getTry_thenTry hF, Func.complete]
    cases fut.getTry with
    | value x => exact getTry_ofTry hF d _
    | exception e => exact getTry_makeImmediateFutureFromImmediate hF func e

/-- **`ensure`** runs the function in both cases, and an exception of it takes the place of the result.
-/
theorem getTry_ensure (fut : ImmediateFuture F T) (func : Unit → Except E Unit) :
    (fut.ensure d func).getTry =
      match func () with
      | .ok _ => fut.getTry
      | .error e => .exception e := by
  rw [ImmediateFuture.ensure, getTry_thenTry hF, Func.complete]
  cases func () <;> rfl

theorem getTry_unit (fut : ImmediateFuture F T) :
    (fut.unit d).getTry =
      match fut.getTry with
      | .value _ => .value ()
      | .exception e => .exception e := by
  rw [ImmediateFuture.unit, getTry_thenValue hF]
  cases fut.getTry <;> rfl

/-! ### `collectAll` of a vector -/

omit hF

/-- A result that is ready is put behind those in front of it, where no later one is put. -/
theorem scatter_append {semisIndices : List ℕ} (x : Try E T) :
    ∀ {res : List (Try E T)} {semisRes : List (Try E T)}, (∀ i ∈ semisIndices, i < res.length) →
      scatter semisIndices (res ++ [x]) semisRes = scatter semisIndices res semisRes ++ [x] := by
  unfold scatter
  induction semisIndices with
  | nil => exact fun _ => rfl
  | cons i is ih =>
    intro res semisRes h
    cases semisRes with
    | nil => rfl
    | cons y ys =>
      rw [List.zip_cons_cons, List.foldl_cons, List.foldl_cons, List.set_append_left _ _ (h i List.mem_cons_self)]
      exact ih fun j hj => by rw [List.length_set]; exact h j (List.mem_cons_of_mem i hj)

/-- The results that were waited for go to the places that were kept for them. -/
theorem scatter_concat {semisIndices : List ℕ} {res semisRes : List (Try E T)} (i : ℕ) (x : Try E T)
    (h : semisIndices.length = semisRes.length) :
    scatter (semisIndices ++ [i]) res (semisRes ++ [x]) = (scatter semisIndices res semisRes).set i x := by
  unfold scatter
  rw [List.zip_append h, List.foldl_append]
  rfl

/-- The variables behind the futures `fs`: the late results go where they belong. -/
structure Collects (c : Collected F T) (fs : List (ImmediateFuture F T)) : Prop where
  currentIndex : c.currentIndex = fs.length
  res : c.res.length = fs.length
  semis : c.semisIndices.length = c.semis.length
  indices : ∀ i ∈ c.semisIndices, i < fs.length
  scatter : scatter c.semisIndices c.res (c.semis.map F.getTry) = fs.map ImmediateFuture.getTry

include hF

/-- **One turn** of the loop of `collectAll`. -/
theorem collects_step {c : Collected F T} {fs : List (ImmediateFuture F T)} (h : Collects c fs)
    (fut : ImmediateFuture F T) : Collects (c.step d fut) (fs ++ [fut]) := by
  have hindices : ∀ i ∈ c.semisIndices, i < c.res.length := fun i hi => h.res ▸ h.indices i hi
  unfold Collected.step
  split
  · refine ⟨by simp [h.currentIndex], by simp [h.res], h.semis, fun i hi => ?_, ?_⟩
    · rw [List.length_append]
      exact Nat.lt_add_right _ (h.indices i hi)
    · rw [scatter_append _ hindices, h.scatter, List.map_append]
      rfl
  · refine ⟨by simp [h.currentIndex], by simp [h.res], by simp [h.semis], fun i hi => ?_, ?_⟩
    · rw [List.length_append, List.length_singleton]
      obtain hi | hi := List.mem_append.1 hi
      · exact Nat.lt_succ_of_lt (h.indices i hi)
      · rw [List.mem_singleton.1 hi, h.currentIndex]
        exact Nat.lt_succ_self _
    · -- the slot that was kept for the late result is the last one
      rw [List.map_append, List.map_singleton, getTry_semi hF, scatter_concat _ _ (by simp [h.semis]),
        scatter_append _ hindices, h.scatter, h.currentIndex, List.map_append]
      rw [List.set_append_right _ _ (by simp)]
      simp

/-- The whole loop: what is ready and what is waited for make up all results, in order. -/
theorem scatter_collected (fs : List (ImmediateFuture F T)) :
    Collects (fs.foldl (Collected.step d) ⟨[], [], [], 0⟩) fs := by
  induction fs using List.reverseRecOn with
  | nil => exact ⟨rfl, rfl, rfl, nofun, rfl⟩
  | append_singleton fs fut ih =>
    rw [List.foldl_append]
    exact collects_step hF ih fut

/-- **`collectAll`** gives all results, in the order of the futures. -/
theorem getTry_collectAll (fs : List (ImmediateFuture F T)) :
    (ImmediateFuture.collectAll d fs).getTry = .value (fs.map ImmediateFuture.getTry) := by
  have h := scatter_collected (d := d) hF fs
  unfold ImmediateFuture.collectAll
  dsimp only
  split
  · rename_i hempty
    have hsemis := List.isEmpty_iff.1 hempty
    have hindices := List.length_eq_zero_iff.1 (h.semis.trans (List.length_eq_zero_iff.2 hsemis))
    have hres := h.scatter
    rw [hindices] at hres
    rw [getTry_ofTry hF, ← hres]
    rfl
  · rw [getTry_ofSemi, hF.getTry_deferValue, hF.getTry_collectAll]
    exact congrArg Try.value h.scatter

omit hF in
/-- The loop of `collectAllSafe` stops at the first exception. -/
theorem unwrap_eq (ts : List (Try E T)) : ∀ res : List T,
    ImmediateFuture.unwrap res ts =
      match firstFailure ts with
      | .value xs => .value (res ++ xs)
      | .exception e => .exception e := by
  induction ts with
  | nil => exact fun res => by simp [ImmediateFuture.unwrap, firstFailure]
  | cons t ts ih =>
    intro res
    cases t with
    | exception e => rfl
    | value x =>
      rw [ImmediateFuture.unwrap, ih, firstFailure]
      cases firstFailure ts <;> simp

/-- **`collectAllSafe`** gives all values, or the first exception in the order of the futures. -/
theorem getTry_collectAllSafe (fs : List (ImmediateFuture F T)) :
    (ImmediateFuture.collectAllSafe d fs).getTry = firstFailure (fs.map ImmediateFuture.getTry) := by
  rw [ImmediateFuture.collectAllSafe, getTry_thenValue hF, getTry_collectAll hF]
  simp only [Func.complete]
  rw [unwrap_eq]
  cases firstFailure (fs.map ImmediateFuture.getTry) <;> rfl

/-! ### `collectAll` of a tuple -/

variable {n : ℕ} {Ts : Fin n → Type} {fs : ∀ i, ImmediateFuture F (Ts i)}

/-- The writer of a future that was not ready. -/
def writer (fs : ∀ i, ImmediateFuture F (Ts i)) (i : Fin n) : F.Writer (Results E Ts) :=
  F.deferWrite (fs i).semi fun t results => Function.update results i (some t)

theorem writes_writer (i : Fin n) (results : Results E Ts) :
    F.writes (writer fs i) results = Function.update results i (some (fs i).getTry) := by
  rw [writer, hF.writes_deferWrite, getTry_semi hF]

/-- Whatever the order of the writers, a result that is there or that has a writer is there in
the end. -/
theorem foldl_writes (j : Fin n) : ∀ (order : List (F.Writer (Results E Ts))) (results : Results E Ts),
    (∀ w ∈ order, ∃ i, w = writer fs i) → results j = some (fs j).getTry ∨ writer fs j ∈ order →
      order.foldl (fun x w => F.writes w x) results j = some (fs j).getTry := by
  intro order
  induction order with
  | nil =>
    intro results _ h
    simpa using h
  | cons w ws ih =>
    intro results hw h
    rw [List.foldl_cons]
    refine ih _ (fun w' hw' => hw w' (List.mem_cons_of_mem w hw')) ?_
    obtain ⟨i, hi⟩ := hw w List.mem_cons_self
    obtain h | h := h
    · left
      rw [hi, writes_writer hF]
      by_cases hij : j = i
      · subst hij
        exact Function.update_self ..
      · rw [Function.update_of_ne hij]
        exact h
    · obtain h | h := List.mem_cons.1 h
      · left
        rw [← h, writes_writer hF]
        exact Function.update_self ..
      · exact .inr h

/-- The variables behind the indices `is`. -/
structure Gathers (fs : ∀ i, ImmediateFuture F (Ts i)) (ctx : Context F Ts) (is : List (Fin n)) : Prop where
  writers : ∀ w ∈ ctx.semis, ∃ i, w = writer fs i
  results : ∀ i ∈ is, ctx.results i = some (fs i).getTry ∨ writer fs i ∈ ctx.semis

omit hF in
/-- **One turn** of the fold of `collectAllTuple`. -/
theorem gathers_step {ctx : Context F Ts} {is : List (Fin n)} (h : Gathers fs ctx is) (i : Fin n) :
    Gathers fs (ctx.step d fs i) (is ++ [i]) := by
  unfold Context.step
  split
  · refine ⟨h.writers, fun j hj => ?_⟩
    by_cases hij : j = i
    · subst hij
      exact .inl (Function.update_self ..)
    · have hj' : j ∈ is := by simpa [hij] using hj
      obtain hr | hr := h.results j hj'
      · exact .inl ((Function.update_of_ne hij ..).trans hr)
      · exact .inr hr
  · refine ⟨fun w hw => ?_, fun j hj => ?_⟩
    · obtain hw | hw := List.mem_append.1 hw
      · exact h.writers w hw
      · exact ⟨i, List.mem_singleton.1 hw⟩
    · obtain hj | hj := List.mem_append.1 hj
      · obtain hr | hr := h.results j hj
        · exact .inl hr
        · exact .inr (List.mem_append_left _ hr)
      · rw [List.mem_singleton.1 hj]
        exact .inr (List.mem_append_right _ (List.mem_singleton_self _))

omit hF in
theorem gathers_foldl (is : List (Fin n)) :
    Gathers fs (is.foldl (Context.step d fs) ⟨fun _ => none, []⟩) is := by
  induction is using List.reverseRecOn with
  | nil => exact ⟨nofun, nofun⟩
  | append_singleton is i ih =>
    rw [List.foldl_append]
    exact gathers_step ih i

/-- **The tuple** has the result of each future in its place. -/
theorem getTry_collectAllTuple (fs : ∀ i, ImmediateFuture F (Ts i)) :
    (ImmediateFuture.collectAllTuple d fs).getTry = .value fun i => some (fs i).getTry := by
  have h : Gathers fs ((List.finRange n).foldl (Context.step d fs) ⟨fun _ => none, []⟩) (List.finRange n) :=
    gathers_foldl _
  unfold ImmediateFuture.collectAllTuple
  dsimp only
  split
  · rename_i hempty
    rw [getTry_ofSemi, hF.getTry_promised]
    refine congrArg Try.value (funext fun i => ?_)
    obtain hr | hr := h.results i (List.mem_finRange i)
    · exact hr
    · rw [List.isEmpty_iff.1 hempty] at hr
      cases hr
  · rw [getTry_ofSemi]
    obtain ⟨order, hperm, horder⟩ := hF.getTry_collectWriters
      ((List.finRange n).foldl (Context.step d fs) ⟨fun _ => none, []⟩).semis
      ((List.finRange n).foldl (Context.step d fs) ⟨fun _ => none, []⟩).results fun results => F.promised results
    rw [horder, hF.getTry_promised]
    refine congrArg Try.value (funext fun i => ?_)
    refine foldl_writes hF i order _ (fun w hw => h.writers w (hperm.mem_iff.1 hw)) ?_
    obtain hr | hr := h.results i (List.mem_finRange i)
    · exact .inl hr
    · exact .inr (hperm.mem_iff.2 hr)

end Lawful

/-! ### Expressions -/

mutual

/-- **Every expression**, by its structure: it evaluates to what it denotes. -/
theorem Expr.getTry_eval (hF : F.Lawful) (κ : Kinds F ι) {T : Type} :
    ∀ e : Expr E ι T, (e.eval F d κ).getTry = e.denote
  | .leaf i t => getTry_future hF (κ i t)
  | .thenValue e k => by
    have he := e.getTry_eval hF κ
    have hk := k.complete_func hF κ
    rw [Expr.eval, getTry_thenValue hF, he, Expr.denote]
    cases e.denote with
    | value x => exact hk x
    | exception ex => rfl
  | .thenTry e k => by
    have he := e.getTry_eval hF κ
    have hk := k.complete_func hF κ
    rw [Expr.eval, getTry_thenTry hF, he, hk, Expr.denote]
  | .thenError e k => by
    have he := e.getTry_eval hF κ
    have hk := k.complete_func hF κ
    rw [Expr.eval, getTry_thenError hF, he, Expr.denote]
    cases e.denote with
    | value x => rfl
    | exception ex => exact hk ex
  | .ensure e func => by
    have he := e.getTry_eval hF κ
    rw [Expr.eval, getTry_ensure hF, he, Expr.denote]
  | .unit e => by
    have he := e.getTry_eval hF κ
    rw [Expr.eval, getTry_unit hF, he, Expr.denote]
  | .collectAll es => by
    have hes : ∀ i, ((es i).eval F d κ).getTry = (es i).denote := fun i => (es i).getTry_eval hF κ
    rw [Expr.eval, getTry_collectAll hF, List.map_ofFn, Expr.denote]
    exact congrArg (fun f => Try.value (List.ofFn f)) (funext hes)
  | .collectAllSafe es => by
    have hes : ∀ i, ((es i).eval F d κ).getTry = (es i).denote := fun i => (es i).getTry_eval hF κ
    rw [Expr.eval, getTry_collectAllSafe hF, List.map_ofFn, Expr.denote]
    exact congrArg (fun f => firstFailure (List.ofFn f)) (funext hes)
  | .collectAllTuple es => by
    have hes : ∀ i, ((es i).eval F d κ).getTry = (es i).denote := fun i => (es i).getTry_eval hF κ
    rw [Expr.eval, getTry_collectAllTuple hF, Expr.denote]
    exact congrArg Try.value (funext fun i => congrArg some (hes i))

/-- Every continuation, in the same induction: it completes with what it denotes. -/
theorem Cont.complete_func (hF : F.Lawful) (κ : Kinds F ι) {A U : Type} :
    ∀ (k : Cont E ι A U) (a : A), (k.func F d κ).complete a = k.denote a
  | .value f, a => by rw [Cont.func, Cont.denote, Func.complete]
  | .tryValue f, a => by rw [Cont.func, Cont.denote, Func.complete]
  | .future throws returns, a => by
    have hreturns : ∀ a, ((returns a).eval F d κ).getTry = (returns a).denote := fun a =>
      (returns a).getTry_eval hF κ
    rw [Cont.func, Cont.denote, Func.complete]
    cases throws a with
    | some e => rfl
    | none => exact hreturns a

end

/-- The values of a list without a failure. -/
theorem firstFailure_values {T : Type} (xs : List T) : firstFailure (xs.map (Try.value (E := E))) = .value xs := by
  induction xs with
  | nil => rfl
  | cons x xs ih => rw [List.map_cons, firstFailure, ih]

/-- The failure with the lowest index. -/
theorem firstFailure_exception {T : Type} {ts : List (Try E T)} {i : ℕ} {e : E} (hi : ts[i]? = some (.exception e))
    (hlt : ∀ j < i, ∃ x, ts[j]? = some (.value x)) : firstFailure ts = .exception e := by
  induction ts generalizing i with
  | nil => cases hi
  | cons t ts ih =>
    cases i with
    | zero =>
      obtain rfl := Option.some.inj hi
      rfl
    | succ i =>
      obtain ⟨x, hx⟩ := hlt 0 (Nat.succ_pos i)
      obtain rfl := Option.some.inj hx
      rw [firstFailure, ih hi fun j hj => hlt (j + 1) (Nat.succ_lt_succ hj)]

/-- **Readiness makes no difference.** The future of an expression completes with the meaning
of the expression, whatever the kinds of its leaves and whether or not all is deferred.
`collectAll` has its results at the indices of its inputs, and `collectAllSafe` fails with
the exception of the first input that does. -/
theorem transparent (hF : F.Lawful) (d : Bool) (κ : Kinds F ι) :
    (∀ {T : Type} (e : Expr E ι T), (e.eval F d κ).getTry = e.denote) ∧
    (∀ {T : Type} {n : ℕ} (es : Fin n → Expr E ι T), ∃ ts, ((Expr.collectAll es).eval F d κ).getTry = .value ts ∧
      ts.length = n ∧ ∀ i : Fin n, ts[(i : ℕ)]? = some (es i).denote) ∧
    ∀ {T : Type} {n : ℕ} (es : Fin n → Expr E ι T),
      (∀ (i : Fin n) (e : E), (es i).denote = .exception e → (∀ j < i, ∃ x, (es j).denote = .value x) →
        ((Expr.collectAllSafe es).eval F d κ).getTry = .exception e) ∧
      ∀ xs : Fin n → T, (∀ i, (es i).denote = .value (xs i)) →
        ((Expr.collectAllSafe es).eval F d κ).getTry = .value (List.ofFn xs) := by
  refine ⟨fun e => e.getTry_eval hF κ, fun {T n} es => ?_, fun {T n} es => ⟨fun i e he hlt => ?_, fun xs hxs => ?_⟩⟩
  · refine ⟨_, (Expr.collectAll es).getTry_eval hF κ, List.length_ofFn, fun i => ?_⟩
    simp
  · rw [(Expr.collectAllSafe es).getTry_eval hF κ, Expr.denote]
    refine firstFailure_exception (i := i) (by simp [he]) fun j hj => ?_
    obtain ⟨x, hx⟩ := hlt ⟨j, hj.trans i.isLt⟩ hj
    exact ⟨x, by rw [List.getElem?_ofFn, dif_pos (hj.trans i.isLt), hx]⟩
  · rw [(Expr.collectAllSafe es).getTry_eval hF κ, Expr.denote, ← firstFailure_values, List.map_ofFn]
    exact congrArg (fun f => firstFailure (List.ofFn f)) (funext hxs)

/-! ### A `folly` with these laws -/

/-- A `SemiFuture` that says whether it is ready. Behind a callback, it is not. -/
def flagged : Folly String where
  SemiFuture T := Bool × Try String T
  isReady _ s := s.1
  getTry s := s.2
  make t := (true, t)
  defer s c := (false, c.complete Prod.snd s.2)
  deferValue s c :=
    (false, match s.2 with
      | .value x => c.complete Prod.snd x
      | .exception e => .exception e)
  collectAll ss := (false, .value (ss.map Prod.snd))
  Writer σ := σ → σ
  deferWrite s f := f s.2
  writes w := w
  collectWriters ws x k := (false, (k (ws.foldl (fun x w => w x) x)).2)
  promised x := (true, .value x)
  logic_error what := what

theorem flagged_lawful : flagged.Lawful where
  getTry_make _ := rfl
  getTry_defer _ _ := rfl
  getTry_deferValue s _ := by
    obtain ⟨ready, t⟩ := s
    cases t <;> rfl
  getTry_collectAll _ := rfl
  writes_deferWrite _ _ _ := rfl
  getTry_collectWriters ws _ _ := ⟨ws, List.Perm.refl ws, rfl⟩
  getTry_promised _ := rfl

/-- The first leaf is immediate, the others are not ready. -/
def firstReady : Kinds flagged ℕ
  | 0, _, _ => .immediate
  | _ + 1, _, t => .semiFuture (false, t) rfl

/-- Two of three inputs fail. -/
def failing : Fin 3 → Expr String ℕ ℕ
  | 0 => .leaf 0 (.value 7)
  | 1 => .leaf 1 (.exception "first")
  | 2 => .leaf 2 (.exception "second")

theorem transparent_failing :
    ((Expr.collectAllSafe failing).eval flagged false firstReady).getTry = .exception "first" := by
  refine ((transparent flagged_lawful false firstReady).2.2 failing).1 1 "first" ?_ fun j hj => ?_
  · rw [failing, Expr.denote]
  · obtain rfl : j = 0 := by omega
    exact ⟨7, by rw [failing, Expr.denote]⟩

end Futures

end EdenCommon
