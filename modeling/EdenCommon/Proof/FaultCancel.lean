import EdenCommon.Lib.Run
import EdenCommon.Spec.FaultCancel

/-!
# Which cancellation token a caller polls

A caller polls the token of the first fault that its key matches, if that is a
`BlockWithCancel` fault. Behind its first section this token is its own
(`not_foreign_updateScan`). It stays so unless another writes its token into that fault,
or a step of another makes a fault with another token the first that the key matches
(`Cancel.Undisturbed`); then the caller, if it runs next, polls the foreign token.

`Cancel.polls_own_iff`: the callers of a run poll their own tokens exactly if no step of the
run disturbs a caller between its sections.
-/

namespace EdenCommon

namespace FaultInjector

open Lib

variable {T E : Type} {env : Env E} {enabled_ : Bool}

/-! ### The first fault that a key matches -/

def Fault.matched (f : Fault T E) (key : String) : Bool := f.keyValueRegex.regex_match key

/-- The behavior of the first fault that matches. -/
def answer (key : String) (faults : List (Fault T E)) : Option (FaultBehavior T E) :=
  (faults.find? fun f => f.matched key).map Fault.behavior

theorem answer_cons (key : String) (f : Fault T E) (faults : List (Fault T E)) :
    answer key (f :: faults) = if f.matched key then some f.behavior else answer key faults := by
  rw [answer, List.find?_cons]
  cases f.matched key <;> rfl

theorem findScan_snd (key : String) (faults : List (Fault T E)) :
    (State.findScan key faults).2 = (answer key faults).getD .unit := by
  induction faults with
  | nil => rfl
  | cons f faults ih =>
    rw [answer_cons, Fault.matched, State.findScan]
    cases f.keyValueRegex.regex_match key with
    | false => simpa using ih
    | true =>
      by_cases hc : f.countRemaining > 0
      · by_cases h1 : f.countRemaining - 1 = 0 <;> simp [hc, h1]
      · simp [hc]

/-- The fault that expires when it answers the key. -/
def expires (key : String) (faults : List (Fault T E)) : Option ℕ :=
  (faults.findIdx? fun f => f.matched key).filter fun i => (faults[i]?.map Fault.countRemaining) = some 1

theorem expires_cons (key : String) (f : Fault T E) (faults : List (Fault T E)) :
    expires key (f :: faults) =
      if f.matched key then (if f.countRemaining = 1 then some 0 else none) else (expires key faults).map (· + 1) := by
  rw [expires, List.findIdx?_cons, expires]
  cases hm : f.matched key with
  | true => by_cases hc : f.countRemaining = 1 <;> simp [hc]
  | false =>
    cases hi : faults.findIdx? fun f => f.matched key with
    | none => simp
    | some i => by_cases hc : faults[i]?.map Fault.countRemaining = some 1 <;> simp [Option.filter, hc]

/-- To other keys, a check only takes out the fault that expires. -/
theorem answer_findScan (key key' : String) (faults : List (Fault T E)) :
    answer key' (State.findScan key faults).1 =
      answer key' (match expires key faults with | some i => faults.eraseIdx i | none => faults) := by
  induction faults with
  | nil => rfl
  | cons f faults ih =>
    rw [expires_cons, Fault.matched, State.findScan]
    cases hm : f.keyValueRegex.regex_match key with
    | false =>
      simp only [Bool.not_false, if_true, Bool.false_eq_true, if_false]
      rw [answer_cons, ih]
      cases expires key faults <;> simp [answer_cons]
    | true =>
      by_cases h0 : f.countRemaining > 0
      · by_cases h1 : f.countRemaining = 1
        · simp [h1]
        · have hne : ¬ f.countRemaining - 1 = 0 := by omega
          simp only [Bool.not_true, Bool.false_eq_true, if_false, h0, h1, hne, if_true, answer_cons]
          rfl
      · have hne : ¬ f.countRemaining = 1 := by omega
        simp [h0, hne]

theorem removeScan_eq (text : String) (faults : List (Fault T E)) :
    State.removeScan text faults =
      (faults.findIdx? fun f => f.keyValueRegex.str = text).map fun i => faults.eraseIdx i := by
  induction faults with
  | nil => rfl
  | cons f faults ih =>
    rw [State.removeScan, List.findIdx?_cons, ih]
    by_cases hf : f.keyValueRegex.str = text
    · simp [hf]
    · simp [hf, Function.comp_def]

/-! ### Tokens -/

def FaultBehavior.isBlockWithCancel : FaultBehavior T E → Bool
  | .blockWithCancel _ _ => true
  | _ => false

/-- The fault that `updateBlockWithCancelToken` writes to. -/
def updated (key : String) (faults : List (Fault T E)) : Option ℕ :=
  faults.findIdx? fun f => f.matched key && f.behavior.isBlockWithCancel

/-- The first fault that the caller's key matches has the token of another. -/
def Foreign (c : Caller T E) (faults : List (Fault T E)) : Prop :=
  ∃ token timeout, answer c.key faults = some (.blockWithCancel token timeout) ∧ token ≠ c.cancellationToken

/-- The first fault that the caller's key matches is the one that is written to. -/
def Meets (c : Caller T E) (key : String) (faults : List (Fault T E)) : Prop :=
  ∃ i, faults.findIdx? (fun f => f.matched c.key) = some i ∧ updated key faults = some i

variable {c : Caller T E} {key : String} {token : T}

theorem meets_cons (f : Fault T E) (faults : List (Fault T E)) :
    Meets c key (f :: faults) ↔
      if f.matched key && f.behavior.isBlockWithCancel then f.matched c.key = true
      else f.matched c.key = false ∧ Meets c key faults := by
  unfold Meets updated
  rw [List.findIdx?_cons, List.findIdx?_cons]
  cases hk : f.matched key && f.behavior.isBlockWithCancel <;> cases hc : f.matched c.key <;> simp

theorem foreign_cons (f : Fault T E) (faults : List (Fault T E)) :
    Foreign c (f :: faults) ↔
      if f.matched c.key then ∃ t timeout, f.behavior = .blockWithCancel t timeout ∧ t ≠ c.cancellationToken
      else Foreign c faults := by
  unfold Foreign
  rw [answer_cons]
  cases f.matched c.key <;> simp

/-- **What `updateBlockWithCancelToken` does to a caller.** -/
theorem foreign_updateScan (faults : List (Fault T E)) :
    (Meets c key faults → (Foreign c (State.updateScan key token faults) ↔ token ≠ c.cancellationToken)) ∧
      (¬ Meets c key faults → (Foreign c (State.updateScan key token faults) ↔ Foreign c faults)) := by
  induction faults with
  | nil =>
    refine ⟨fun ⟨i, hi, _⟩ => ?_, fun _ => Iff.rfl⟩
    cases hi
  | cons f faults ih =>
    rw [meets_cons]
    cases hk : f.matched key with
    | false =>
      have hscan : State.updateScan key token (f :: faults) = f :: State.updateScan key token faults := by
        have hk' : f.keyValueRegex.regex_match key = false := hk
        simp [State.updateScan, hk']
      rw [hscan, foreign_cons, foreign_cons]
      cases hc : f.matched c.key <;> simp_all
    | true =>
      have hk' : f.keyValueRegex.regex_match key = true := hk
      cases hb : f.behavior with
      | blockWithCancel old timeout =>
        have hscan : State.updateScan key token (f :: faults) =
            { f with behavior := .blockWithCancel token timeout } :: faults := by
          simp [State.updateScan, hk', hb]
        have hm : ({ f with behavior := .blockWithCancel token timeout } : Fault T E).matched c.key =
            f.matched c.key := rfl
        rw [hscan, foreign_cons, foreign_cons, hm]
        cases hc : f.matched c.key <;> simp [FaultBehavior.isBlockWithCancel]
      | _ =>
        have hscan : State.updateScan key token (f :: faults) = f :: State.updateScan key token faults := by
          simp [State.updateScan, hk', hb]
        rw [hscan, foreign_cons, foreign_cons]
        cases hc : f.matched c.key <;> simp_all [FaultBehavior.isBlockWithCancel]

/-- A caller that meets a token would write to it. -/
theorem meets_of_foreign {faults : List (Fault T E)} (h : Foreign c faults) : Meets c c.key faults := by
  induction faults with
  | nil =>
    obtain ⟨_, _, h, _⟩ := h
    cases h
  | cons f faults ih =>
    rw [foreign_cons] at h
    rw [meets_cons]
    cases hc : f.matched c.key with
    | true =>
      rw [hc, if_pos rfl] at h
      obtain ⟨t, timeout, hb, -⟩ := h
      simp [hb, FaultBehavior.isBlockWithCancel]
    | false =>
      rw [hc, if_neg Bool.false_ne_true] at h
      simpa using ih h

/-- Behind its first section, a caller does not meet the token of another. -/
theorem not_foreign_updateScan (c : Caller T E) (faults : List (Fault T E)) :
    ¬ Foreign c (State.updateScan c.key c.cancellationToken faults) := by
  by_cases hm : Meets c c.key faults
  · exact fun h => ((foreign_updateScan faults).1 hm).1 h rfl
  · exact fun h => hm (meets_of_foreign (((foreign_updateScan faults).2 hm).1 h))

/-! ### The vector of a class -/

def State.vector (s : State T E) (keyClass : String) : List (Fault T E) := (s.faults.lookup keyClass).getD []

theorem vector_insert (s : State T E) (keyClass c : String) (v : List (Fault T E)) :
    ({ s with faults := s.faults.insert keyClass v } : State T E).vector c =
      if c = keyClass then v else s.vector c := by
  by_cases hc : c = keyClass
  · subst hc
    simp [State.vector]
  · simp [State.vector, AList.lookup_insert_ne hc, hc]

theorem vector_injectFault (s : State T E) (keyClass text c : String) (behavior : FaultBehavior T E) (count : ℕ) :
    (s.injectFault env true keyClass text behavior count).1.vector c =
      if c = keyClass then s.vector keyClass ++ ((env.compile text).map fun regex => ⟨regex, count, behavior⟩).toList
      else s.vector c := by
  unfold State.injectFault
  cases env.compile text with
  | none =>
    simp only [Bool.not_true, Bool.false_eq_true, if_false]
    rw [vector_insert]
    simp [State.vector]
  | some regex =>
    simp only [Bool.not_true, Bool.false_eq_true, if_false]
    rw [vector_insert]
    simp [State.vector]

theorem vector_removeFault (s : State T E) (keyClass text c : String) :
    (s.removeFault keyClass text).1.vector c =
      if c = keyClass then
        match (s.vector keyClass).findIdx? fun f => f.keyValueRegex.str = text with
        | some i => (s.vector keyClass).eraseIdx i
        | none => s.vector keyClass
      else s.vector c := by
  unfold State.removeFault
  cases hl : s.faults.lookup keyClass with
  | none =>
    by_cases hc : c = keyClass
    · subst hc
      simp [State.vector, hl]
    · simp [hc]
  | some v =>
    have hv : s.vector keyClass = v := by rw [State.vector, hl]; rfl
    rw [hv]
    simp only [removeScan_eq]
    cases v.findIdx? fun f => f.keyValueRegex.str = text with
    | none =>
      by_cases hc : c = keyClass
      · subst hc
        simp [hv]
      · simp [hc]
    | some i =>
      by_cases hc : c = keyClass
      · subst hc
        cases he : v.eraseIdx i <;> simp [State.vector, he]
      · cases he : v.eraseIdx i <;> simp [State.vector, he, hc, AList.lookup_erase_ne, AList.lookup_insert_ne]

theorem vector_findFault (s : State T E) (keyClass key c : String) :
    (s.findFault keyClass key).1.vector c =
      if c = keyClass then (State.findScan key (s.vector keyClass)).1 else s.vector c := by
  unfold State.findFault
  cases hl : s.faults.lookup keyClass with
  | none =>
    by_cases hc : c = keyClass
    · subst hc
      simp [State.vector, hl, State.findScan]
    · simp [hc]
  | some v =>
    have hv : s.vector keyClass = v := by rw [State.vector, hl]; rfl
    rw [hv, vector_insert]

theorem findFault_snd (s : State T E) (keyClass key : String) :
    (s.findFault keyClass key).2 = (answer key (s.vector keyClass)).getD .unit := by
  unfold State.findFault State.vector
  cases s.faults.lookup keyClass with
  | none => rfl
  | some v => exact findScan_snd key v

theorem vector_updateBlockWithCancelToken (s : State T E) (keyClass key c : String) (token : T) :
    (s.updateBlockWithCancelToken keyClass key token).vector c =
      if c = keyClass then State.updateScan key token (s.vector keyClass) else s.vector c := by
  unfold State.updateBlockWithCancelToken
  cases hl : s.faults.lookup keyClass with
  | none =>
    by_cases hc : c = keyClass
    · subst hc
      simp [State.vector, hl, State.updateScan]
    · simp [hc]
  | some v =>
    have hv : s.vector keyClass = v := by rw [State.vector, hl]; rfl
    rw [hv, vector_insert]

namespace Cancel

variable {s s' : Cancel T E}

/-- Every caller that polls, polls its own token. -/
def PollsOwn (s : Cancel T E) : Prop := ∀ c ∈ s.callers, ∀ token, c.polls = some token → token = c.cancellationToken

/-- If `v` were the vector of the class, then no caller that is between its sections, leaving
out the one with the number `skip`, would meet the token of another. -/
def Clear (s : Cancel T E) (keyClass : String) (skip : Option ℕ) (v : List (Fault T E)) : Prop :=
  ∀ (j : ℕ) (c : Caller T E), s.callers[j]? = some c → skip ≠ some j → c.behavior = none → c.keyClass = keyClass →
    ¬ Foreign c v

/-- The step does not disturb a caller between its sections: no fault that it adds or takes
out makes a fault with another token the first that the caller's key matches, and the token
it writes to the first fault that the caller's key matches is the caller's own. -/
def Undisturbed (env : Env E) (enabled_ : Bool) (s : Cancel T E) : CancelOp T E → Prop
  | .fault (.injectFault keyClass text behavior count) =>
    enabled_ = true → ∀ regex, env.compile text = some regex →
      s.Clear keyClass none (s.state_.vector keyClass ++ [⟨regex, count, behavior⟩])
  | .fault (.removeFault keyClass text) =>
    ∀ i, (s.state_.vector keyClass).findIdx? (fun f => f.keyValueRegex.str = text) = some i →
      s.Clear keyClass none ((s.state_.vector keyClass).eraseIdx i)
  | .fault (.check keyClass key) =>
    enabled_ = true → ∀ i, expires key (s.state_.vector keyClass) = some i →
      s.Clear keyClass none ((s.state_.vector keyClass).eraseIdx i)
  | .waitForCancelOrTimeout keyClass key token =>
    enabled_ = true → ∀ c ∈ s.callers, c.behavior = none → c.keyClass = keyClass →
      Meets c key (s.state_.vector keyClass) → token = c.cancellationToken
  | .checkAsyncImpl k =>
    ∀ caller, s.callers[k]? = some caller → ∀ i, expires caller.key (s.state_.vector caller.keyClass) = some i →
      s.Clear caller.keyClass (some k) ((s.state_.vector caller.keyClass).eraseIdx i)

/-- Every caller polls its own token, or is to. -/
structure Own (s : Cancel T E) : Prop where
  polls : s.PollsOwn
  clear : ∀ keyClass, s.Clear keyClass none (s.state_.vector keyClass)

theorem own_new : Own (new : Cancel T E) := ⟨nofun, fun _ _ _ h => nomatch h⟩

theorem clear_congr {keyClass : String} {skip : Option ℕ} {v v' : List (Fault T E)}
    (h : ∀ key, answer key v = answer key v') : s.Clear keyClass skip v ↔ s.Clear keyClass skip v' := by
  unfold Clear Foreign
  simp only [h]

/-- A step that only replaces the vector of one class. -/
theorem own_iff_of_vector (h : Own s) {keyClass : String} {v : List (Fault T E)} {t : State T E}
    (hv : ∀ c, t.vector c = if c = keyClass then v else s.state_.vector c) :
    Own { s with state_ := t } ↔ s.Clear keyClass none v := by
  constructor
  · intro h'
    have hc := h'.clear keyClass
    rw [show Cancel.state_ { s with state_ := t } = t from rfl, hv, if_pos rfl] at hc
    exact hc
  · intro hclear
    refine ⟨h.polls, fun c => ?_⟩
    rw [show Cancel.state_ { s with state_ := t } = t from rfl, hv]
    by_cases hc : c = keyClass
    · subst hc
      rw [if_pos rfl]
      exact hclear
    · rw [if_neg hc]
      exact h.clear c

/-- The vector behind a `findFault`, as other callers see it. -/
theorem clear_findScan {keyClass key : String} {skip : Option ℕ} (h : s.Clear keyClass skip (s.state_.vector keyClass)) :
    s.Clear keyClass skip (State.findScan key (s.state_.vector keyClass)).1 ↔
      ∀ i, expires key (s.state_.vector keyClass) = some i →
        s.Clear keyClass skip ((s.state_.vector keyClass).eraseIdx i) := by
  rw [clear_congr fun key' => answer_findScan key key' (s.state_.vector keyClass)]
  cases expires key (s.state_.vector keyClass) with
  | none => exact iff_of_true h nofun
  | some i => simp

theorem own_fault (h : Own s) (op : FaultOp T E) :
    Own { s with state_ := (faultStep env enabled_ s.state_ op).1 } ↔ s.Undisturbed env enabled_ (.fault op) := by
  cases op with
  | injectFault keyClass text behavior count =>
    cases enabled_ with
    | false => exact iff_of_true h nofun
    | true =>
      rw [faultStep, own_iff_of_vector h (vector_injectFault s.state_ keyClass text · behavior count), Undisturbed]
      cases env.compile text with
      | none => simpa using h.clear keyClass
      | some regex => simp
  | removeFault keyClass text =>
    rw [faultStep, own_iff_of_vector h (vector_removeFault s.state_ keyClass text), Undisturbed]
    cases (s.state_.vector keyClass).findIdx? fun f => f.keyValueRegex.str = text with
    | none => simpa using h.clear keyClass
    | some i => simp
  | check keyClass key =>
    cases enabled_ with
    | false => exact iff_of_true h nofun
    | true =>
      rw [faultStep, if_pos rfl, own_iff_of_vector h (vector_findFault s.state_ keyClass key),
        clear_findScan (h.clear keyClass), Undisturbed]
      simp

/-- **The first section** writes the caller's token. -/
theorem own_update (h : Own s) (keyClass key : String) (token : T) :
    Own {
        state_ := s.state_.updateBlockWithCancelToken keyClass key token
        callers := s.callers ++ [⟨keyClass, key, token, none⟩] } ↔
      ∀ c ∈ s.callers, c.behavior = none → c.keyClass = keyClass →
        Meets c key (s.state_.vector keyClass) → token = c.cancellationToken := by
  have hv := vector_updateBlockWithCancelToken s.state_ keyClass key
  constructor
  · intro h' c hc hb hkc hm
    obtain ⟨j, hj⟩ := List.getElem?_of_mem hc
    have hj' : (s.callers ++ [⟨keyClass, key, token, none⟩])[j]? = some c := by
      rw [List.getElem?_append_left (List.getElem?_eq_some_iff.1 hj).1]
      exact hj
    have hclear := h'.clear keyClass j c hj' nofun hb hkc
    rw [show Cancel.state_ _ = s.state_.updateBlockWithCancelToken keyClass key token from rfl, hv, if_pos rfl,
      (foreign_updateScan _).1 hm] at hclear
    exact not_not.1 hclear
  · intro hg
    refine ⟨fun c hc t ht => ?_, fun cls j c hj _ hb hkc => ?_⟩
    · obtain hc | hc := List.mem_append.1 hc
      · exact h.polls c hc t ht
      · rw [List.mem_singleton.1 hc] at ht
        cases ht
    · rw [show Cancel.state_ _ = s.state_.updateBlockWithCancelToken keyClass key token from rfl, hv]
      by_cases hlt : j < s.callers.length
      · have hjs : s.callers[j]? = some c := by rw [← List.getElem?_append_left hlt]; exact hj
        have hold := h.clear cls j c hjs nofun hb hkc
        by_cases hcls : cls = keyClass
        · subst hcls
          rw [if_pos rfl]
          by_cases hm : Meets c key (s.state_.vector cls)
          · rw [(foreign_updateScan _).1 hm]
            exact not_not.2 (hg c (List.mem_of_getElem? hjs) hb hkc hm)
          · rw [(foreign_updateScan _).2 hm]
            exact hold
        · rw [if_neg hcls]
          exact hold
      · rw [show (Cancel.callers _)[j]? = (s.callers ++ [⟨keyClass, key, token, none⟩])[j]? from rfl,
          List.getElem?_append_right (Nat.le_of_not_lt hlt)] at hj
        have hc := List.mem_singleton.1 (List.mem_of_getElem? hj)
        subst hc
        have hkc' : keyClass = cls := hkc
        subst hkc'
        rw [if_pos rfl]
        exact not_foreign_updateScan ⟨keyClass, key, token, none⟩ _

/-- The caller polls what it has found. -/
theorem polls_found {keyClass key : String} {token t : T} {b : Option (FaultBehavior T E)}
    (h : Caller.polls ⟨keyClass, key, token, some (b.getD .unit)⟩ = some t) :
    ∃ timeout, b = some (.blockWithCancel t timeout) := by
  unfold Caller.polls at h
  cases b with
  | none => cases h
  | some b =>
    cases b with
    | blockWithCancel t' timeout => exact ⟨timeout, by rw [Option.some.inj h]⟩
    | _ => cases h

/-- The caller is between its sections. -/
theorem step_checkAsyncImpl {k : ℕ} : step env enabled_ s (.checkAsyncImpl k) = some s' ↔
    ∃ keyClass key token, s.callers[k]? = some ⟨keyClass, key, token, none⟩ ∧
      s' = {
        state_ := (s.state_.findFault keyClass key).1
        callers := s.callers.set k ⟨keyClass, key, token, some (s.state_.findFault keyClass key).2⟩ } := by
  cases hk : s.callers[k]? with
  | none => simp [step, hk]
  | some c =>
    obtain ⟨keyClass, key, token, behavior⟩ := c
    cases behavior with
    | none => simp [step, hk, eq_comm]
    | some b => simp [step, hk]

theorem pollsOwn_find (h : Own s) {k : ℕ} {keyClass key : String} {token : T}
    (hk : s.callers[k]? = some ⟨keyClass, key, token, none⟩) :
    PollsOwn {
      state_ := (s.state_.findFault keyClass key).1
      callers := s.callers.set k ⟨keyClass, key, token, some (s.state_.findFault keyClass key).2⟩ } := by
  intro c hc t ht
  obtain hc | rfl := List.mem_or_eq_of_mem_set hc
  · exact h.polls c hc t ht
  · rw [findFault_snd] at ht
    obtain ⟨timeout, hb⟩ := polls_found ht
    exact not_not.1 fun hne => h.clear keyClass k _ hk nofun rfl rfl ⟨t, timeout, hb, hne⟩

/-- **The second section** finds the caller's own token. -/
theorem own_find (h : Own s) {k : ℕ} {keyClass key : String} {token : T}
    (hk : s.callers[k]? = some ⟨keyClass, key, token, none⟩) :
    Own {
        state_ := (s.state_.findFault keyClass key).1
        callers := s.callers.set k ⟨keyClass, key, token, some (s.state_.findFault keyClass key).2⟩ } ↔
      s.Undisturbed env enabled_ (.checkAsyncImpl k) := by
  have hlt := (List.getElem?_eq_some_iff.1 hk).1
  have hguard : s.Undisturbed env enabled_ (.checkAsyncImpl k) ↔
      s.Clear keyClass (some k) (State.findScan key (s.state_.vector keyClass)).1 := by
    rw [clear_findScan fun j c hj _ => h.clear keyClass j c hj nofun, Undisturbed]
    simp [hk]
  have hclear : ∀ (cls : String) (v : List (Fault T E)), Clear {
        state_ := (s.state_.findFault keyClass key).1
        callers := s.callers.set k ⟨keyClass, key, token, some (s.state_.findFault keyClass key).2⟩ } cls none v ↔
      s.Clear cls (some k) v := by
    intro cls v
    constructor
    · intro hc j c hj hne
      have hkj : k ≠ j := fun he => hne (congrArg some he)
      exact hc j c (by rw [List.getElem?_set_ne hkj]; exact hj) nofun
    · intro hc j c hj _ hb
      by_cases hkj : k = j
      · subst hkj
        rw [List.getElem?_set_self hlt] at hj
        obtain rfl := Option.some.inj hj
        cases hb
      · rw [List.getElem?_set_ne hkj] at hj
        exact hc j c hj (fun he => hkj (Option.some.inj he)) hb
  rw [hguard]
  constructor
  · intro h'
    have hc := (hclear keyClass _).1 (h'.clear keyClass)
    rw [vector_findFault, if_pos rfl] at hc
    exact hc
  · intro hg
    refine ⟨pollsOwn_find h hk, fun cls => (hclear cls _).2 ?_⟩
    rw [vector_findFault]
    by_cases hcls : cls = keyClass
    · subst hcls
      rw [if_pos rfl]
      exact hg
    · rw [if_neg hcls]
      exact fun j c hj _ => h.clear cls j c hj nofun

/-- The steps that do not disturb a caller are those that leave each with its own token. -/
theorem own_step (h : Own s) {op : CancelOp T E} (hs : step env enabled_ s op = some s') :
    Own s' ↔ s.Undisturbed env enabled_ op := by
  cases op with
  | fault op =>
    obtain rfl := Option.some.inj hs
    exact own_fault h op
  | waitForCancelOrTimeout keyClass key token =>
    cases enabled_ with
    | true =>
      obtain rfl := Option.some.inj hs
      rw [own_update h, Undisturbed]
      simp
    | false =>
      obtain rfl := Option.some.inj hs
      refine iff_of_true ⟨fun c hc t ht => ?_, fun cls j c hj _ hb hkc => ?_⟩ nofun
      · obtain hc | hc := List.mem_append.1 hc
        · exact h.polls c hc t ht
        · rw [List.mem_singleton.1 hc] at ht
          cases ht
      · have hmem := List.mem_of_getElem? hj
        obtain hc | hc := List.mem_append.1 hmem
        · obtain ⟨i, hi⟩ := List.getElem?_of_mem hc
          exact h.clear cls i c hi nofun hb hkc
        · rw [List.mem_singleton.1 hc] at hb
          cases hb
  | checkAsyncImpl k =>
    obtain ⟨keyClass, key, token, hk, rfl⟩ := step_checkAsyncImpl.1 hs
    exact own_find h hk

/-- Own tokens are polled now, and by whichever caller comes next. -/
theorem own_iff : Own s ↔
    s.PollsOwn ∧ ∀ k s', step env enabled_ s (.checkAsyncImpl k) = some s' → s'.PollsOwn := by
  constructor
  · intro h
    refine ⟨h.polls, fun k s' hs => ?_⟩
    obtain ⟨keyClass, key, token, hk, rfl⟩ := step_checkAsyncImpl.1 hs
    exact pollsOwn_find h hk
  · rintro ⟨hp, hnext⟩
    refine ⟨hp, ?_⟩
    rintro _ j ⟨keyClass, key, token, _⟩ hj _ rfl rfl ⟨t, timeout, hans, hne⟩
    -- the caller checks next
    have hown := hnext j _ (step_checkAsyncImpl.2 ⟨keyClass, key, token, hj, rfl⟩)
    refine hne (hown ⟨keyClass, key, token, some (s.state_.findFault keyClass key).2⟩
      (List.mem_set (List.getElem?_eq_some_iff.1 hj).1 _) t ?_)
    rw [findFault_snd, hans]
    rfl

/-- **Whose token is polled.** However far a run has gone, every caller polls its own token,
and so does the one that checks next, exactly if no step disturbs a caller between its
sections. -/
theorem polls_own_iff {ops : List (CancelOp T E)} (hrun : run (step env enabled_) new ops = some s) :
    AllSteps (step env enabled_) (Undisturbed env enabled_) new ops ↔
      ∀ pre, pre <+: ops → ∀ s', run (step env enabled_) new pre = some s' →
        s'.PollsOwn ∧ ∀ k s'', step env enabled_ s' (.checkAsyncImpl k) = some s'' → s''.PollsOwn := by
  rw [allSteps_iff (I := Own) (fun _ _ _ h hs => own_step h hs) ops own_new hrun]
  simp only [← own_iff]

/-- A single caller polls its own token. -/
theorem polls_own_alone : ∃ s : Cancel ℕ Unit,
    run (step Env.literal true) new [.fault (.injectFault "x" "a" (.blockWithCancel 0 5000) 0),
      .waitForCancelOrTimeout "x" "a" 1, .checkAsyncImpl 0] = some s ∧
        s.callers.map Caller.polls = [some 1] ∧ s.PollsOwn := by
  refine ⟨?s, ?hrun, ?polled, ((polls_own_iff ?hrun).1 ?steps _ (List.prefix_refl _) _ ?hrun).1⟩
  case hrun => rfl
  case polled => rfl
  case steps =>
    refine ⟨fun _ _ _ j c hj => (nomatch hj), fun s₁ h₁ => ?_⟩
    obtain rfl := Option.some.inj h₁
    refine ⟨fun _ c hc => (nomatch hc), fun s₂ h₂ => ?_⟩
    obtain rfl := Option.some.inj h₂
    refine ⟨fun caller hcaller i hi => ?_, fun s₃ _ => trivial⟩
    obtain rfl := Option.some.inj hcaller
    cases hi

/-- Two callers of one fault: the second writes its token before the first has checked. -/
theorem polls_token_of_other : ∃ s : Cancel ℕ Unit,
    run (step Env.literal true) new [.fault (.injectFault "x" "a" (.blockWithCancel 0 5000) 0),
      .waitForCancelOrTimeout "x" "a" 1, .waitForCancelOrTimeout "x" "a" 2, .checkAsyncImpl 0] = some s ∧
        s.callers.map Caller.polls = [some 2, none] ∧ ¬ s.PollsOwn := by
  refine ⟨_, rfl, rfl, fun h => ?_⟩
  have hown := h ⟨"x", "a", 1, some (.blockWithCancel 2 5000)⟩ List.mem_cons_self 2 rfl
  exact absurd hown (by decide)

end Cancel

end FaultInjector

end EdenCommon
