import EdenCommon.Lib.Run
import EdenCommon.Spec.FaultInjector

/-!
# The faults that checks meet

The abstract model keeps every fault that was ever injected, in order, and counts the
checks that reach it. A check goes down the list: it reaches the faults of its class that
match it, up to and including the first that answers. A fault with a count answers the
first checks that reach it, as many as its count says, and a fault without one answers all.

`faults_refine`: the vectors of the code hold the faults that are live, and calls on them
are answered in the same way.
-/

namespace EdenCommon

namespace FaultInjector

variable {T E : Type} {env : Env E} {enabled_ : Bool}

/-- A fault and what has happened to it. -/
structure Injected (T E : Type) where
  keyClass : String
  regex : Regex
  count : ℕ
  behavior : FaultBehavior T E
  /-- The checks that have reached it. -/
  reached : ℕ
  removed : Bool

namespace Injected

/-- The fault answers the next check that reaches it. -/
def live (f : Injected T E) : Bool := !f.removed && (f.count = 0 || f.reached < f.count)

/-- A check of the key reaches the fault, if no earlier fault answers it. -/
def covers (f : Injected T E) (keyClass keyValue : String) : Bool :=
  !f.removed && f.keyClass = keyClass && f.regex.regex_match keyValue

/-- A check: the first live fault that covers it answers. -/
def check (keyClass keyValue : String) : List (Injected T E) → List (Injected T E) × FaultBehavior T E
  | [] => ([], .unit)
  | f :: fs =>
    if f.covers keyClass keyValue && f.live then ({ f with reached := f.reached + 1 } :: fs, f.behavior)
    else
      let r := check keyClass keyValue fs
      (if f.covers keyClass keyValue then { f with reached := f.reached + 1 } :: r.1 else f :: r.1, r.2)

/-- The first live fault with that text is removed. -/
def remove (keyClass keyValueRegex : String) : List (Injected T E) → List (Injected T E) × Bool
  | [] => ([], false)
  | f :: fs =>
    if f.live && f.keyClass = keyClass && f.regex.str = keyValueRegex then ({ f with removed := true } :: fs, true)
    else
      let r := remove keyClass keyValueRegex fs
      (f :: r.1, r.2)

/-- A new fault is the last one. -/
def inject (env : Env E) (enabled_ : Bool) (fs : List (Injected T E)) (keyClass keyValueRegex : String)
    (behavior : FaultBehavior T E) (count : ℕ) : List (Injected T E) × Except Thrown Unit :=
  if !enabled_ then (fs, .error .disabled)
  else
    match env.compile keyValueRegex with
    | none => (fs, .error .regexError)
    | some regex => (fs ++ [⟨keyClass, regex, count, behavior, 0, false⟩], .ok ())

def step (env : Env E) (enabled_ : Bool) (fs : List (Injected T E)) :
    FaultOp T E → List (Injected T E) × FaultAnswer T E
  | .injectFault keyClass keyValueRegex behavior count =>
    let r := inject env enabled_ fs keyClass keyValueRegex behavior count
    (r.1, .injected r.2)
  | .removeFault keyClass keyValueRegex =>
    let r := remove keyClass keyValueRegex fs
    (r.1, .removed r.2)
  | .check keyClass keyValue =>
    if enabled_ then
      let r := check keyClass keyValue fs
      (r.1, .behavior r.2)
    else (fs, .behavior .unit)

/-- The fault as the code keeps it. -/
def toFault (f : Injected T E) : Fault T E := ⟨f.regex, f.count - f.reached, f.behavior⟩

/-- The live faults of a class. -/
def faultsOf (keyClass : String) (fs : List (Injected T E)) : List (Fault T E) :=
  (fs.filter fun f => f.live && f.keyClass = keyClass).map toFault

variable {keyClass keyClass' keyValue keyValueRegex : String} {f : Injected T E} {fs : List (Injected T E)}

/-- A fault that is live is the first of its class. -/
theorem faultsOf_cons_of_live (hl : f.live = true) (hc : f.keyClass = keyClass) :
    faultsOf keyClass (f :: fs) = f.toFault :: faultsOf keyClass fs := by
  simp [faultsOf, hl, hc]

/-- One that is spent or removed is not in the list any more. -/
theorem faultsOf_cons_of_not_live (h : f.live = false) : faultsOf keyClass (f :: fs) = faultsOf keyClass fs := by
  simp [faultsOf, h]

/-- One of another class is in another list. -/
theorem faultsOf_cons_of_ne (h : f.keyClass ≠ keyClass) : faultsOf keyClass (f :: fs) = faultsOf keyClass fs := by
  simp [faultsOf, h]

theorem live_new {regex : Regex} {count : ℕ} {behavior : FaultBehavior T E} :
    (⟨keyClass, regex, count, behavior, 0, false⟩ : Injected T E).live = true := by
  simpa [live] using Nat.eq_zero_or_pos count

theorem not_live_of_removed : ({ f with removed := true } : Injected T E).live = false := by simp [live]

/-- A spent fault stays spent. -/
theorem not_live_succ (h : f.live = false) : ({ f with reached := f.reached + 1 } : Injected T E).live = false := by
  simp only [live, Bool.and_eq_false_iff, Bool.or_eq_false_iff, decide_eq_false_iff_not] at h ⊢
  obtain h | ⟨h0, h1⟩ := h
  · exact .inl h
  · exact .inr ⟨h0, by omega⟩

/-- A live fault of the class covers what its regex matches. -/
theorem covers_of_live (hl : f.live = true) (hc : f.keyClass = keyClass) :
    f.covers keyClass keyValue = f.regex.regex_match keyValue := by
  have hr : f.removed = false := by
    simp only [live, Bool.and_eq_true, Bool.not_eq_true'] at hl
    exact hl.1
  simp [covers, hr, hc]

/-- What is left in the vector of a fault that has answered. -/
theorem findScan_answered (hl : f.live = true)
    (hm : f.regex.regex_match keyValue = true) (rest : List (Fault T E)) :
    State.findScan keyValue (f.toFault :: rest) =
      (if ({ f with reached := f.reached + 1 } : Injected T E).live
        then ({ f with reached := f.reached + 1 } : Injected T E).toFault :: rest else rest, f.behavior) := by
  have hr : f.removed = false ∧ (f.count = 0 ∨ f.reached < f.count) := by simpa [live] using hl
  obtain ⟨hr, hcount⟩ := hr
  simp only [State.findScan, toFault, hm, live, hr]
  obtain h0 | hlt := hcount
  · simp [h0]
  · by_cases hlast : f.count - f.reached - 1 = 0
    · have h1 : f.count ≠ 0 := by omega
      have h2 : ¬ f.reached + 1 < f.count := by omega
      have h3 : 0 < f.count - f.reached := by omega
      simp [h1, h2, h3, hlast]
    · have h2 : f.reached + 1 < f.count := by omega
      have h3 : 0 < f.count - f.reached := by omega
      have h4 : f.count - (f.reached + 1) ≠ 0 := by omega
      simp [h2, h3, h4, Nat.sub_sub]

/-- A check of the code meets the same fault and leaves the same faults. -/
theorem findScan_faultsOf (keyClass keyValue : String) (fs : List (Injected T E)) :
    State.findScan keyValue (faultsOf keyClass fs) =
      (faultsOf keyClass (check keyClass keyValue fs).1, (check keyClass keyValue fs).2) := by
  induction fs with
  | nil => rfl
  | cons f fs ih =>
    cases hl : f.live with
    | false =>
      have hl' := not_live_succ hl
      rw [faultsOf_cons_of_not_live hl, ih]
      simp only [check, hl, Bool.and_false, Bool.false_eq_true, if_false]
      split
      · rw [faultsOf_cons_of_not_live hl']
      · rw [faultsOf_cons_of_not_live hl]
    | true =>
      by_cases hc : f.keyClass = keyClass
      · rw [faultsOf_cons_of_live hl hc]
        cases hm : f.regex.regex_match keyValue with
        | true =>
          have hcov : f.covers keyClass keyValue = true := (covers_of_live hl hc).trans hm
          rw [findScan_answered hl hm]
          simp only [check, hcov, hl, Bool.and_self, if_true]
          split
          · rename_i hl'
            rw [faultsOf_cons_of_live hl' hc]
          · rename_i hl'
            rw [faultsOf_cons_of_not_live (by simpa using hl')]
        | false =>
          have hcov : f.covers keyClass keyValue = false := (covers_of_live hl hc).trans hm
          have hm' : f.toFault.keyValueRegex.regex_match keyValue = false := hm
          simp only [State.findScan, hm', check, hcov, Bool.false_and, Bool.not_false, if_true, ih,
            Bool.false_eq_true, if_false]
          rw [faultsOf_cons_of_live hl hc]
      · have hcov : f.covers keyClass keyValue = false := by simp [covers, hc]
        rw [faultsOf_cons_of_ne hc, ih]
        simp only [check, hcov, Bool.false_and, Bool.false_eq_true, if_false]
        rw [faultsOf_cons_of_ne hc]

/-- A check does not touch the faults of another class. -/
theorem faultsOf_check_of_ne (keyValue : String) (fs : List (Injected T E)) (h : keyClass' ≠ keyClass) :
    faultsOf keyClass' (check keyClass keyValue fs).1 = faultsOf keyClass' fs := by
  induction fs with
  | nil => rfl
  | cons f fs ih =>
    by_cases hc : f.keyClass = keyClass
    · have hne : f.keyClass ≠ keyClass' := fun he => h (he.symm.trans hc)
      rw [faultsOf_cons_of_ne hne]
      simp only [check]
      split
      · exact faultsOf_cons_of_ne hne
      · split
        · exact (faultsOf_cons_of_ne (f := { f with reached := f.reached + 1 }) hne).trans ih
        · exact (faultsOf_cons_of_ne hne).trans ih
    · have hcov : f.covers keyClass keyValue = false := by simp [covers, hc]
      simp only [check, hcov, Bool.false_and, Bool.false_eq_true, if_false]
      simp only [faultsOf, List.filter_cons] at ih ⊢
      split <;> simp [ih]

/-- **The scan of `removeFault`** erases the first fault of the class with this text. -/
theorem removeScan_faultsOf (keyClass keyValueRegex : String) (fs : List (Injected T E)) :
    State.removeScan keyValueRegex (faultsOf keyClass fs) =
      if (remove keyClass keyValueRegex fs).2 then some (faultsOf keyClass (remove keyClass keyValueRegex fs).1)
      else none := by
  induction fs with
  | nil => rfl
  | cons f fs ih =>
    by_cases hf : f.live = true ∧ f.keyClass = keyClass
    · obtain ⟨hl, rfl⟩ := hf
      rw [faultsOf_cons_of_live hl rfl]
      by_cases ht : f.regex.str = keyValueRegex
      · have ht' : f.toFault.keyValueRegex.str = keyValueRegex := ht
        simp only [State.removeScan, ht', remove, hl, ht, decide_true, Bool.and_self, if_true]
        rw [faultsOf_cons_of_not_live not_live_of_removed]
      · have ht' : f.toFault.keyValueRegex.str ≠ keyValueRegex := ht
        simp only [State.removeScan, ht', if_false, ih, remove, ht, decide_false, Bool.and_false,
          Bool.false_eq_true]
        rw [faultsOf_cons_of_live hl rfl]
        split <;> rfl
    · have hskip : ∀ gs, faultsOf keyClass (f :: gs) = faultsOf keyClass gs := by
        intro gs
        cases hl : f.live with
        | false => exact faultsOf_cons_of_not_live hl
        | true => exact faultsOf_cons_of_ne fun hc => hf ⟨hl, hc⟩
      have hno : (f.live && f.keyClass = keyClass && f.regex.str = keyValueRegex : Bool) = false := by
        simp only [Bool.and_eq_false_iff, decide_eq_false_iff_not]
        by_cases hl : f.live = true
        · exact .inl (.inr fun hc => hf ⟨hl, hc⟩)
        · exact .inl (.inl (by simpa using hl))
      rw [hskip, ih]
      simp only [remove, hno, Bool.false_eq_true, if_false, hskip]

/-- The other classes keep theirs. -/
theorem faultsOf_remove_of_ne (keyValueRegex : String) (fs : List (Injected T E)) (h : keyClass' ≠ keyClass) :
    faultsOf keyClass' (remove keyClass keyValueRegex fs).1 = faultsOf keyClass' fs := by
  induction fs with
  | nil => rfl
  | cons f fs ih =>
    simp only [remove]
    split
    · rename_i hf
      have hne : f.keyClass ≠ keyClass' := by
        simp only [Bool.and_eq_true, decide_eq_true_eq] at hf
        exact fun he => h (he.symm.trans hf.1.2)
      rw [faultsOf_cons_of_ne hne]
      exact faultsOf_cons_of_ne hne
    · simp only [faultsOf, List.filter_cons] at ih ⊢
      split <;> simp [ih]

/-- Where nothing is removed, nothing changes. -/
theorem remove_eq_self (h : (remove keyClass keyValueRegex fs).2 = false) :
    (remove keyClass keyValueRegex fs).1 = fs := by
  induction fs with
  | nil => rfl
  | cons f fs ih =>
    simp only [remove] at h ⊢
    split at h
    · cases h
    · rename_i hf
      rw [if_neg hf, ih h]

end Injected

/-! ### Refinement -/

open Injected

/-- The vectors hold the live faults. -/
def Refines (s : State T E) (fs : List (Injected T E)) : Prop :=
  ∀ keyClass, (s.faults.lookup keyClass).getD [] = faultsOf keyClass fs

variable {s : State T E} {fs : List (Injected T E)}

/-- One vector is replaced. -/
theorem Refines.insert {fs' : List (Injected T E)} {keyClass : String} {v : List (Fault T E)} (h : Refines s fs)
    (hv : v = faultsOf keyClass fs') (hne : ∀ c, c ≠ keyClass → faultsOf c fs' = faultsOf c fs) :
    Refines { s with faults := s.faults.insert keyClass v } fs' := by
  intro c
  by_cases hc : c = keyClass
  · subst hc
    simpa using hv
  · rw [hne c hc, ← h c]
    simp [AList.lookup_insert_ne hc]

/-- A class without faults is erased from the map. -/
theorem Refines.erase {fs' : List (Injected T E)} {keyClass : String} (h : Refines s fs)
    (hv : faultsOf keyClass fs' = []) (hne : ∀ c, c ≠ keyClass → faultsOf c fs' = faultsOf c fs) :
    Refines { s with faults := s.faults.erase keyClass } fs' := by
  intro c
  by_cases hc : c = keyClass
  · subst hc
    simp [hv]
  · rw [hne c hc, ← h c]
    simp [AList.lookup_erase_ne hc]

/-- **`injectFault`** appends to the list. -/
theorem Refines.injectFault (env : Env E) (enabled_ : Bool) (keyClass keyValueRegex : String)
    (behavior : FaultBehavior T E) (count : ℕ) (h : Refines s fs) :
    Refines (s.injectFault env enabled_ keyClass keyValueRegex behavior count).1
        (inject env enabled_ fs keyClass keyValueRegex behavior count).1 ∧
      (s.injectFault env enabled_ keyClass keyValueRegex behavior count).2 =
        (inject env enabled_ fs keyClass keyValueRegex behavior count).2 := by
  cases enabled_ with
  | false => exact ⟨h, rfl⟩
  | true =>
    simp only [State.injectFault, inject, Bool.not_true, Bool.false_eq_true, if_false]
    cases env.compile keyValueRegex with
    | none => exact ⟨h.insert (h keyClass) fun _ _ => rfl, rfl⟩
    | some regex =>
      refine ⟨h.insert ?_ ?_, rfl⟩
      · rw [h keyClass]
        simp [faultsOf, live_new, toFault]
      · intro c hc
        simp [faultsOf, hc.symm]

/-- **`removeFault`** gives the same answer and removes the same fault. -/
theorem Refines.removeFault (keyClass keyValueRegex : String) (h : Refines s fs) :
    Refines (s.removeFault keyClass keyValueRegex).1 (remove keyClass keyValueRegex fs).1 ∧
      (s.removeFault keyClass keyValueRegex).2 = (remove keyClass keyValueRegex fs).2 := by
  have hscan := removeScan_faultsOf keyClass keyValueRegex fs
  have hkey := h keyClass
  unfold State.removeFault
  split
  · rename_i hnone
    rw [← hkey, hnone] at hscan
    cases hr : (remove keyClass keyValueRegex fs).2 with
    | false =>
      rw [remove_eq_self hr]
      exact ⟨h, rfl⟩
    | true => simp [hr, State.removeScan] at hscan
  · rename_i faultVector hsome
    rw [hsome, Option.getD_some] at hkey
    rw [← hkey] at hscan
    split
    · rename_i hnone
      cases hr : (remove keyClass keyValueRegex fs).2 with
      | false =>
        rw [remove_eq_self hr]
        exact ⟨h, rfl⟩
      | true => simp [hr, hnone] at hscan
    · rename_i rest hrest
      cases hr : (remove keyClass keyValueRegex fs).2 with
      | false => simp [hr, hrest] at hscan
      | true =>
        rw [hr, hrest, if_pos rfl] at hscan
        have hv := Option.some.inj hscan
        have hne : ∀ c, c ≠ keyClass → faultsOf c (remove keyClass keyValueRegex fs).1 = faultsOf c fs :=
          fun _ => faultsOf_remove_of_ne keyValueRegex fs
        cases rest with
        | nil => exact ⟨h.erase hv.symm hne, rfl⟩
        | cons f rest => exact ⟨h.insert hv hne, rfl⟩

/-- **`findFault`** finds the same fault and counts it down. -/
theorem Refines.findFault (keyClass keyValue : String) (h : Refines s fs) :
    Refines (s.findFault keyClass keyValue).1 (check keyClass keyValue fs).1 ∧
      (s.findFault keyClass keyValue).2 = (check keyClass keyValue fs).2 := by
  have hscan := findScan_faultsOf keyClass keyValue fs
  have hne : ∀ c, c ≠ keyClass → faultsOf c (check keyClass keyValue fs).1 = faultsOf c fs :=
    fun _ => faultsOf_check_of_ne keyValue fs
  have hkey := h keyClass
  unfold State.findFault
  split
  · rename_i hnone
    rw [← hkey, hnone, Option.getD_none, State.findScan] at hscan
    obtain ⟨hv, hb⟩ := Prod.mk.inj hscan
    refine ⟨fun c => ?_, hb⟩
    by_cases hc : c = keyClass
    · subst hc
      rw [← hv, hnone]
      rfl
    · rw [hne c hc, h c]
  · rename_i faultVector hsome
    rw [hsome, Option.getD_some] at hkey
    rw [← hkey] at hscan
    rw [hscan]
    exact ⟨h.insert rfl hne, rfl⟩

/-- Every operation gives the same answer, and refines again. -/
theorem refines_step (h : Refines s fs) (op : FaultOp T E) :
    Refines (faultStep env enabled_ s op).1 (step env enabled_ fs op).1 ∧
      (faultStep env enabled_ s op).2 = (step env enabled_ fs op).2 := by
  cases op with
  | injectFault keyClass keyValueRegex behavior count =>
    obtain ⟨h1, h2⟩ := h.injectFault env enabled_ keyClass keyValueRegex behavior count
    exact ⟨h1, congrArg FaultAnswer.injected h2⟩
  | removeFault keyClass keyValueRegex =>
    obtain ⟨h1, h2⟩ := h.removeFault keyClass keyValueRegex
    exact ⟨h1, congrArg FaultAnswer.removed h2⟩
  | check keyClass keyValue =>
    cases enabled_ with
    | false => exact ⟨h, rfl⟩
    | true =>
      obtain ⟨h1, h2⟩ := h.findFault keyClass keyValue
      exact ⟨h1, congrArg FaultAnswer.behavior h2⟩

/-- **The faults are those of the abstract model**: every run of `inject`, `removeFault` and
`check` calls is answered as if each fault were kept for ever and answered the first checks
that reach it, as many as its count says. -/
theorem faults_refine (env : Env E) (enabled_ : Bool) (ops : List (FaultOp T E)) :
    (Lib.exec (faultStep env enabled_) State.new ops).2 = (Lib.exec (step env enabled_) [] ops).2 :=
  (Lib.exec_sim (R := Refines) (fun _ _ op h => refines_step h op) ops State.new [] fun _ => rfl).2

end FaultInjector

end EdenCommon
