import EdenCommon.Lib.Run
import EdenCommon.Lib.Threads
import EdenCommon.Spec.CollectSafe

/-!
# The result of `collectSafe`

`count` is the number of callbacks that have not yet decremented it, so one callback
decrements it last, and it does so when all others have stored what they have to
(`Sys.At`). From then on nothing changes but the promise, which that callback sets.

* `Inv.step`: each step of a callback keeps the invariant. What the other callbacks rely on
  is `Sys.At.mono`, so a step has one case for the callback that takes it and one for all
  others.
* `Inv.result`: the set of values is complete when the last callback comes to the promise.
* `collects`: in every run the promise is set once, when all the futures are complete, to
  their values or to the exception of the future that failed first.
-/

namespace EdenCommon

namespace CollectSafe

open Lib

variable {n : ℕ} {E V : Type} {α : Fin n → Type} {s s' : Sys E α} {i j : Fin n}

/-- The callback has yet to decrement `count`. -/
def Callback.counts : Callback E V → Bool
  | .pending | .called _ | .saving _ | .counting => true
  | _ => false

/-- The callback has yet to set the promise. -/
def Callback.finishes : Callback E V → Bool
  | .last | .loaded _ => true
  | _ => false

/-- What the future has completed with is stored. -/
def Sys.Recorded (s : Sys E α) (i : Fin n) : Prop :=
  match s.inputs i with
  | none => False
  | some (.ok v) => s.results i = some v
  | some (.error _) => s.hasException = true

/-- What holds of the `i`-th callback where it stands. -/
def Sys.At (s : Sys E α) (i : Fin n) : Callback E (α i) → Prop
  | .pending => s.inputs i = none
  | .called t => s.inputs i = some t
  | .saving ew => s.inputs i = some (.error ew) ∧ s.first = some i
  | .loaded hasException => s.Recorded i ∧ hasException = s.hasException
  | _ => s.Recorded i

/-- What the promise may be set to. -/
structure Sys.Result (s : Sys E α) (r : Except (Option E) (∀ i, Option (α i))) : Prop where
  failed : s.hasException = true → ∃ i e, s.first = some i ∧ s.inputs i = some (.error e) ∧ r = .error (some e)
  values : s.hasException = false → ∃ v : ∀ i, α i, (∀ i, s.inputs i = some (.ok (v i))) ∧ r = .ok fun i => some (v i)

structure Inv (s : Sys E α) : Prop where
  count : s.count = Lib.count (fun _ => Callback.counts) s.callbacks
  finish : Lib.count (fun _ => Callback.finishes) s.callbacks + s.p.length = if s.count = 0 then 1 else 0
  at_ : ∀ i, s.At i (s.callbacks i)
  flag : s.hasException = s.first.isSome
  exception : ∀ i, s.first = some i →
    ∃ e, s.inputs i = some (.error e) ∧ (s.callbacks i = .saving e ∨ s.exception = some e)
  set : ∀ r ∈ s.p, s.Result r

theorem inv_start [NeZero n] : Inv (start E α) where
  count := by simp [start, Lib.count, Callback.counts]
  finish := by simp [start, Lib.count, Callback.finishes, NeZero.ne n]
  at_ _ := rfl
  flag := rfl
  exception := nofun
  set := nofun

/-! ### The turns of the callbacks -/

/-- While a callback has yet to count, none has come to the promise. -/
theorem Inv.of_counts (h : Inv s) (hc : (s.callbacks i).counts = true) :
    s.count ≠ 0 ∧ s.p = [] ∧ ∀ j, (s.callbacks j).finishes = false := by
  have hne : s.count ≠ 0 := by
    intro hz
    have := count_eq_zero.1 (h.count.symm.trans hz) i
    simp [hc] at this
  have hf := h.finish
  rw [if_neg hne, Nat.add_eq_zero_iff, List.length_eq_zero_iff] at hf
  exact ⟨hne, hf.2, count_eq_zero.1 hf.1⟩

/-- While a callback has come to the promise, all others are through. -/
theorem Inv.of_finishes (h : Inv s) (hf : (s.callbacks i).finishes = true) :
    s.count = 0 ∧ s.p = [] ∧ ∀ j, j ≠ i → s.callbacks j = .done := by
  have hcounts : ∀ j, (s.callbacks j).counts = false := by
    intro j
    by_contra hc
    have := (h.of_counts (Bool.of_not_eq_false hc)).2.2 i
    simp [hf] at this
  have hz : s.count = 0 := h.count.trans (count_eq_zero.2 hcounts)
  have hsum := h.finish
  rw [if_pos hz] at hsum
  have hpos : Lib.count (fun _ => Callback.finishes) s.callbacks ≠ 0 := by
    intro hzero
    have := count_eq_zero.1 hzero i
    simp [hf] at this
  refine ⟨hz, List.length_eq_zero_iff.1 (by omega), fun j hj => ?_⟩
  cases hcb : s.callbacks j with
  | done => rfl
  | pending | called | saving | counting => simpa [hcb, Callback.counts] using hcounts j
  | last | loaded =>
    have := two_le_count (p := fun _ => Callback.finishes) hj (by simp [hcb, Callback.finishes]) hf
    omega

/-- What the other callbacks rely on. -/
theorem Sys.At.mono {c : Callback E (α j)} (h : s.At j c) (hin : s'.inputs j = s.inputs j)
    (hres : s'.results j = s.results j) (hflag : s.hasException = true → s'.hasException = true)
    (hfirst : s.first = some j → s'.first = some j)
    (hfin : c.finishes = true → s'.hasException = s.hasException) : s'.At j c := by
  have hrec : s.Recorded j → s'.Recorded j := by
    unfold Sys.Recorded
    rw [hin, hres]
    split
    · exact id
    · exact id
    · exact hflag
  cases c with
  | pending => exact hin.trans h
  | called t => exact hin.trans h
  | saving ew => exact ⟨hin.trans h.1, hfirst h.2⟩
  | loaded b => exact ⟨hrec h.1, h.2.trans (hfin rfl).symm⟩
  | counting | last | done => exact hrec h

/-- A callback that still has to count behind its step. -/
theorem Inv.keepsCounting {c : Callback E (α i)} (h : Inv s) (hold : (s.callbacks i).counts = true)
    (hnew : c.counts = true) :
    s.count = Lib.count (fun _ => Callback.counts) (Function.update s.callbacks i c) ∧
      Lib.count (fun _ => Callback.finishes) (Function.update s.callbacks i c) + s.p.length =
        if s.count = 0 then 1 else 0 := by
  have hfold := (h.of_counts hold).2.2 i
  have hfnew : c.finishes = false := by cases c <;> first | rfl | cases hnew
  have h1 := count_update_add (fun _ => Callback.counts) s.callbacks i c
  have h2 := count_update_add (fun _ => Callback.finishes) s.callbacks i c
  rw [hold, hnew, Nat.add_right_cancel_iff] at h1
  rw [hfold, hfnew, Nat.add_right_cancel_iff] at h2
  rw [h1, h2]
  exact ⟨h.count, h.finish⟩

/-- The callback that set `hasException` first has its exception stored when it is through. -/
theorem Inv.stored (h : Inv s) (hi : s.first = some i) (hc : ∀ e, s.callbacks i ≠ .saving e) :
    ∃ e, s.inputs i = some (.error e) ∧ s.exception = some e := by
  obtain ⟨e, h1, h2⟩ := h.exception i hi
  exact ⟨e, h1, h2.resolve_left (hc e)⟩

theorem Inv.exception_of_ne {c : Callback E (α i)} (h : Inv s) (hi : ∀ e, s.callbacks i ≠ .saving e) :
    ∀ k, s.first = some k →
      ∃ e, s.inputs k = some (.error e) ∧
        (Function.update s.callbacks i c k = .saving e ∨ s.exception = some e) := by
  intro k hk
  by_cases hki : k = i
  · subst hki
    obtain ⟨e, h1, h2⟩ := h.stored hk hi
    exact ⟨e, h1, .inr h2⟩
  · rw [Function.update_of_ne hki]
    exact h.exception k hk

theorem Inv.at_eq {c : Callback E (α i)} (h : Inv s) (hi : s.callbacks i = c) : s.At i c := hi ▸ h.at_ i

/-! ### Steps -/

theorem Inv.complete {t : Except E (α i)} (h : Inv s) (hi : s.callbacks i = .pending) :
    Inv { s.move i (.called t) with inputs := Function.update s.inputs i (some t) } := by
  have hat : s.inputs i = none := h.at_eq hi
  have hold : (s.callbacks i).counts = true := by rw [hi]; rfl
  obtain ⟨-, hp, -⟩ := h.of_counts hold
  obtain ⟨hcount, hfinish⟩ := h.keepsCounting (c := .called t) hold rfl
  refine { count := hcount, finish := hfinish, at_ := ?_, flag := h.flag, exception := ?_, set := by simp [Sys.move, hp] }
  · refine forall_update (Function.update_self ..) fun j hj => ?_
    exact (h.at_ j).mono (Function.update_of_ne hj _ _) rfl id id fun _ => rfl
  · intro k hk
    obtain ⟨e, h1, h2⟩ := h.exception k hk
    have hne : k ≠ i := by
      rintro rfl
      simp [hat] at h1
    simp only [Sys.move, Function.update_of_ne hne]
    exact ⟨e, h1, h2⟩

/-- A step to `counting` of a callback that has stored its value, or has nothing to store. -/
theorem Inv.store (results : ∀ i, Option (α i)) (h : Inv s) (hold : (s.callbacks i).counts = true)
    (hns : ∀ e, s.callbacks i ≠ .saving e) (hres : ∀ j, j ≠ i → results j = s.results j)
    (hrec : Sys.Recorded { s with results } i) : Inv { s.move i .counting with results } := by
  obtain ⟨-, hp, -⟩ := h.of_counts hold
  obtain ⟨hcount, hfinish⟩ := h.keepsCounting (c := .counting) hold rfl
  refine { count := hcount, finish := hfinish, at_ := ?_, flag := h.flag, exception := ?_, set := by simp [Sys.move, hp] }
  · refine forall_update hrec fun j hj => ?_
    exact (h.at_ j).mono rfl (hres j hj) id id fun _ => rfl
  · exact h.exception_of_ne hns

/-- The exchange returns false: this callback is the first. -/
theorem Inv.win {ew : E} (h : Inv s) (hi : s.callbacks i = .called (.error ew)) (hf : s.hasException = false) :
    Inv { s.move i (.saving ew) with hasException := true, first := some i } := by
  have hat : s.inputs i = some (.error ew) := h.at_eq hi
  have hold : (s.callbacks i).counts = true := by rw [hi]; rfl
  obtain ⟨-, hp, hfin⟩ := h.of_counts hold
  obtain ⟨hcount, hfinish⟩ := h.keepsCounting (c := .saving ew) hold rfl
  have hnone : s.first = none := by simpa [hf] using h.flag.symm
  refine { count := hcount, finish := hfinish, at_ := ?_, flag := rfl, exception := ?_, set := by simp [Sys.move, hp] }
  · refine forall_update ⟨hat, rfl⟩ fun j hj => ?_
    refine (h.at_ j).mono rfl rfl (fun _ => rfl) (fun hj => ?_) fun hc => ?_
    · simp [hnone] at hj
    · simp [hfin j] at hc
  · intro k hk
    obtain rfl : i = k := by simpa using hk
    exact ⟨ew, hat, .inl (Function.update_self ..)⟩

theorem Inv.save {ew : E} (h : Inv s) (hi : s.callbacks i = .saving ew) :
    Inv { s.move i .counting with exception := some ew } := by
  obtain ⟨hin, hfirst⟩ : s.inputs i = some (.error ew) ∧ s.first = some i := h.at_eq hi
  have hold : (s.callbacks i).counts = true := by rw [hi]; rfl
  obtain ⟨-, hp, -⟩ := h.of_counts hold
  obtain ⟨hcount, hfinish⟩ := h.keepsCounting (c := .counting) hold rfl
  have hrec : s.Recorded i := by
    simp only [Sys.Recorded, hin, h.flag, hfirst, Option.isSome_some]
  refine { count := hcount, finish := hfinish, at_ := ?_, flag := h.flag, exception := ?_, set := by simp [Sys.move, hp] }
  · refine forall_update hrec fun j hj => ?_
    exact (h.at_ j).mono rfl rfl id id fun _ => rfl
  · intro k hk
    obtain rfl : i = k := Option.some.inj (hfirst.symm.trans hk)
    exact ⟨ew, hin, .inr rfl⟩

theorem Inv.decref (h : Inv s) (hi : s.callbacks i = .counting) :
    Inv { s.move i (if s.count = 1 then .last else .done) with count := s.count - 1 } := by
  have hrec : s.Recorded i := h.at_eq hi
  have hold : (s.callbacks i).counts = true := by rw [hi]; rfl
  obtain ⟨hne, hp, hfin⟩ := h.of_counts hold
  have h1 := count_update_add (fun _ => Callback.counts) s.callbacks i (if s.count = 1 then .last else .done)
  have h2 := count_update_add (fun _ => Callback.finishes) s.callbacks i (if s.count = 1 then .last else .done)
  rw [hold, ← h.count] at h1
  rw [hfin i, count_eq_zero.2 hfin] at h2
  refine { count := ?_, finish := ?_, at_ := ?_, flag := h.flag, exception := ?_, set := by simp [Sys.move, hp] }
  · by_cases hone : s.count = 1
    · simp [hone, Callback.counts, Sys.move] at h1 ⊢
      omega
    · simp [hone, Callback.counts, Sys.move] at h1 ⊢
      omega
  · by_cases hone : s.count = 1
    · simp [hone, Callback.finishes, Sys.move, hp] at h2 ⊢
      omega
    · have hrest : s.count - 1 ≠ 0 := by omega
      simp [hone, hrest, Callback.finishes, Sys.move, hp] at h2 ⊢
      omega
  · refine forall_update (by split <;> exact hrec) fun j hj => ?_
    exact (h.at_ j).mono rfl rfl id id fun _ => rfl
  · exact h.exception_of_ne (by simp [hi])

theorem Inv.load (h : Inv s) (hi : s.callbacks i = .last) : Inv (s.move i (.loaded s.hasException)) := by
  have hrec : s.Recorded i := h.at_eq hi
  have hf : (s.callbacks i).finishes = true := by rw [hi]; rfl
  obtain ⟨-, hp, -⟩ := h.of_finishes hf
  have h1 := count_update_add (fun _ => Callback.counts) s.callbacks i (.loaded s.hasException)
  have h2 := count_update_add (fun _ => Callback.finishes) s.callbacks i (.loaded s.hasException)
  rw [hi] at h1 h2
  refine { count := ?_, finish := ?_, at_ := ?_, flag := h.flag, exception := ?_, set := by simp [Sys.move, hp] }
  · exact h.count.trans (Nat.add_right_cancel h1).symm
  · exact (congrArg (· + s.p.length) (Nat.add_right_cancel h2)).trans h.finish
  · refine forall_update ⟨hrec, rfl⟩ fun j hj => ?_
    exact (h.at_ j).mono rfl rfl id id fun _ => rfl
  · exact h.exception_of_ne (by simp [hi])

/-- **The set is complete** when the last callback has come to the promise. -/
theorem Inv.result {b : Bool} (h : Inv s) (hi : s.callbacks i = .loaded b) :
    s.Result (if b then .error s.exception else .ok s.results) := by
  obtain ⟨hrec, rfl⟩ : s.Recorded i ∧ b = s.hasException := h.at_eq hi
  have hf : (s.callbacks i).finishes = true := by rw [hi]; rfl
  obtain ⟨-, -, hdone⟩ := h.of_finishes hf
  have hall : ∀ j, s.Recorded j := by
    intro j
    by_cases hj : j = i
    · exact hj ▸ hrec
    · exact h.at_eq (hdone j hj)
  constructor
  · intro hflag
    rw [hflag, if_pos rfl]
    obtain ⟨k, hk⟩ := Option.isSome_iff_exists.1 (h.flag.symm.trans hflag)
    have hns : ∀ e, s.callbacks k ≠ .saving e := by
      intro e
      by_cases hki : k = i
      · subst hki
        simp [hi]
      · simp [hdone k hki]
    obtain ⟨e, h1, h2⟩ := h.stored hk hns
    exact ⟨k, e, hk, h1, by rw [h2]⟩
  · intro hflag
    have hv : ∀ j, ∃ v, s.inputs j = some (.ok v) ∧ s.results j = some v := by
      intro j
      have := hall j
      unfold Sys.Recorded at this
      split at this
      · exact this.elim
      · rename_i v hin
        exact ⟨v, hin, this⟩
      · simp [hflag] at this
    choose v hin hres using hv
    exact ⟨v, hin, by simp [hflag, funext hres]⟩

theorem Inv.finishes {b : Bool} (h : Inv s) (hi : s.callbacks i = .loaded b) :
    Inv { s.move i .done with p := s.p ++ [if b then .error s.exception else .ok s.results] } := by
  have hres := h.result hi
  have hrec : s.Recorded i := (h.at_eq hi).1
  have hf : (s.callbacks i).finishes = true := by rw [hi]; rfl
  obtain ⟨-, hp, -⟩ := h.of_finishes hf
  have h1 := count_update_add (fun _ => Callback.counts) s.callbacks i .done
  have h2 := count_update_add (fun _ => Callback.finishes) s.callbacks i .done
  rw [hi] at h1 h2
  refine { count := ?_, finish := ?_, at_ := ?_, flag := h.flag, exception := ?_, set := ?_ }
  · exact h.count.trans (Nat.add_right_cancel h1).symm
  · refine Eq.trans ?_ h.finish
    simpa [Sys.move, hp, Callback.finishes] using h2
  · refine forall_update hrec fun j hj => ?_
    exact (h.at_ j).mono rfl rfl id id fun _ => rfl
  · exact h.exception_of_ne (by simp [hi])
  · intro r hr
    rw [hp, List.nil_append, List.mem_singleton] at hr
    subst hr
    exact { failed := hres.failed, values := hres.values }

theorem Inv.step {op : Op E α} (h : Inv s) (hstep : step s op = some s') : Inv s' := by
  cases op with
  | complete i t =>
    simp only [CollectSafe.step] at hstep
    split at hstep
    · rename_i hi
      rw [← Option.some.inj hstep]
      exact h.complete hi
    · cases hstep
  | proceed i =>
    simp only [CollectSafe.step] at hstep
    cases hi : s.callbacks i with
    | pending => simp [hi, Sys.proceed] at hstep
    | called t =>
      rw [hi] at hstep
      have hin : s.inputs i = some t := h.at_eq hi
      have hold : (s.callbacks i).counts = true := by rw [hi]; rfl
      cases t with
      | error ew =>
        simp only [Sys.proceed] at hstep
        split at hstep
        · rename_i hf
          rw [← Option.some.inj hstep]
          refine h.store s.results hold (by simp [hi]) (fun _ _ => rfl) ?_
          simpa [Sys.Recorded, hin] using hf
        · rename_i hf
          rw [← Option.some.inj hstep]
          exact h.win hi (by simpa using hf)
      | ok v =>
        rw [← Option.some.inj hstep]
        refine h.store _ hold (by simp [hi]) (fun j hj => Function.update_of_ne hj _ _) ?_
        simp [Sys.Recorded, hin]
    | saving ew =>
      rw [hi] at hstep
      rw [← Option.some.inj hstep]
      exact h.save hi
    | counting =>
      rw [hi] at hstep
      rw [← Option.some.inj hstep]
      exact h.decref hi
    | last =>
      rw [hi] at hstep
      rw [← Option.some.inj hstep]
      exact h.load hi
    | loaded b =>
      rw [hi] at hstep
      rw [← Option.some.inj hstep]
      exact h.finishes hi
    | done => simp [hi, Sys.proceed] at hstep

/-! ### Runs -/

/-- What is wanted of the promise. -/
structure Sys.Collected (s : Sys E α) : Prop where
  once : s.p.length ≤ 1
  set : (∀ i, s.callbacks i = .done) → s.p.length = 1
  completed : s.p ≠ [] → ∀ i, (s.inputs i).isSome = true
  values : ∀ r ∈ s.p, (∀ i e, s.inputs i ≠ some (.error e)) →
    ∃ v : ∀ i, α i, (∀ i, s.inputs i = some (.ok (v i))) ∧ r = .ok fun i => some (v i)
  failed : ∀ r ∈ s.p, (∃ i e, s.inputs i = some (.error e)) →
    ∃ i e, s.first = some i ∧ s.inputs i = some (.error e) ∧ r = .error (some e)

theorem Inv.collected (h : Inv s) : s.Collected := by
  have hle : s.p.length ≤ 1 := by
    have := h.finish
    split at this <;> omega
  have hset : s.p ≠ [] → ∀ i, s.callbacks i = .done := by
    intro hp i
    cases hi : s.callbacks i with
    | done => rfl
    | pending | called | saving | counting =>
      exact absurd (h.of_counts (i := i) (by simp [hi, Callback.counts])).2.1 hp
    | last | loaded => exact absurd (h.of_finishes (i := i) (by simp [hi, Callback.finishes])).2.1 hp
  have hrec : s.p ≠ [] → ∀ i, s.Recorded i := by
    intro hp i
    exact h.at_eq (hset hp i)
  refine { once := hle, set := ?_, completed := ?_, values := ?_, failed := ?_ }
  · intro hdone
    have hz : s.count = 0 := by
      rw [h.count, count_eq_zero]
      intro i
      rw [hdone i]
      rfl
    have hfin : Lib.count (fun _ => Callback.finishes) s.callbacks = 0 := by
      rw [count_eq_zero]
      intro i
      rw [hdone i]
      rfl
    have := h.finish
    rw [hfin, if_pos hz] at this
    omega
  · intro hp i
    have := hrec hp i
    unfold Sys.Recorded at this
    split at this <;> simp_all
  · intro r hr hok
    refine (h.set r hr).values ?_
    by_contra hf
    obtain ⟨i, hi⟩ := Option.isSome_iff_exists.1 (h.flag.symm.trans (Bool.of_not_eq_false hf))
    obtain ⟨e, hin, -⟩ := h.exception i hi
    exact hok i e hin
  · rintro r hr ⟨i, e, hin⟩
    refine (h.set r hr).failed ?_
    have := hrec (List.ne_nil_of_mem hr) i
    rwa [Sys.Recorded, hin] at this

/-- **`collectSafe` collects**: in every run over at least one future the promise is set
once, when all futures are complete, to their values or to the exception of the future
whose callback was first to set `hasException`. -/
theorem collects {n : ℕ} (E : Type) (α : Fin (n + 1) → Type) (ops : List (Op E α)) (s : Sys E α)
    (hrun : run step (start E α) ops = some s) : s.Collected :=
  (run_invariant inv_start (fun _ _ _ h hstep => h.step hstep) ops hrun).collected

/-- Two futures fail, and their callbacks overtake each other. -/
theorem collects_two_failures :
    ∃ s : Sys String fun _ : Fin 2 => ℕ,
      run step (start String fun _ : Fin 2 => ℕ)
          [.complete 0 (.error "a"), .complete 1 (.error "b"), .proceed 1, .proceed 0, .proceed 0, .proceed 1,
            .proceed 1, .proceed 1, .proceed 1] = some s ∧
        s.p = [.error (some "b")] ∧ s.Collected := by
  refine ⟨_, rfl, rfl, ?_⟩
  exact collects (n := 1) String (fun _ => ℕ)
    [.complete 0 (.error "a"), .complete 1 (.error "b"), .proceed 1, .proceed 0, .proceed 0, .proceed 1,
      .proceed 1, .proceed 1, .proceed 1] _ rfl

end CollectSafe

end EdenCommon
