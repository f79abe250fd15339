import EdenCommon.Lib.Run
import EdenCommon.Lib.SortedVector
import EdenCommon.Spec.FaultBlocking
import Mathlib.Data.List.Perm.Basic

/-!
# Blocked checks are released once

* `loop_eq`: the loop of `extractBlockedChecks` parts the vector into the checks that match
  and those that do not, and destroys none.
* `Blocking.Inv`: the vectors hold the checks that no operation has covered since they
  blocked, and an operation takes the checks it is the first to cover.
* `step_good`, `run_good`: every step keeps the invariant, and so does every run.
* `result_first`: a check is fulfilled by the first operation to cover it, and with what
  that operation was given.
* `releases`: a blocked check is released exactly once, whatever the order of the
  operations.
* `unblock_invalid_returns`: an invalid regular expression goes unnoticed when no check of
  the class is blocked.
-/

namespace EdenCommon

namespace FaultInjector

open Lib

variable {T E : Type} {env : Env E}

/-! ### The loop -/

/-- The checks that an operation leaves. -/
def Regex.kept (regex : Regex) (cs : List BlockedCheck) : List BlockedCheck :=
  cs.filter fun c => !regex.regex_match c.keyValue

def Regex.found (regex : Regex) (cs : List BlockedCheck) : List BlockedCheck :=
  cs.filter fun c => regex.regex_match c.keyValue

/-- The cursors behind the part `pre` of the vector: the checks that are kept, then as many
slots as were moved out of, then the rest. -/
def Extract.behind (regex : Regex) (pre post : List BlockedCheck) : Extract where
  blockedChecks := regex.kept pre ++ (List.replicate (regex.found pre).length .movedFrom ++ post)
  writeIter := (regex.kept pre).length
  results := regex.found pre
  broken := []

/-- Each check is kept or found. -/
theorem length_kept_add_found (regex : Regex) (cs : List BlockedCheck) :
    (regex.kept cs).length + (regex.found cs).length = cs.length := by
  rw [Nat.add_comm]
  exact (List.length_eq_length_filter_add _).symm

/-- The slot behind a gap. -/
theorem getElem?_gap (kept post : List BlockedCheck) (m : ℕ) (c : BlockedCheck) :
    (kept ++ (List.replicate m BlockedCheck.movedFrom ++ c :: post))[kept.length + m]? = some c := by
  rw [List.getElem?_append_right (Nat.le_add_right _ _), List.getElem?_append_right (by simp)]
  simp

theorem set_gap (kept post : List BlockedCheck) (m : ℕ) (c d : BlockedCheck) :
    (kept ++ (List.replicate m BlockedCheck.movedFrom ++ c :: post)).set (kept.length + m) d =
      kept ++ (List.replicate m BlockedCheck.movedFrom ++ d :: post) := by
  rw [List.set_append_right _ _ (Nat.le_add_right _ _), List.set_append_right _ _ (by simp)]
  simp

/-- **One turn of the loop.** -/
theorem Extract.step_behind (regex : Regex) (pre post : List BlockedCheck) (c : BlockedCheck) :
    Extract.step regex (behind regex pre (c :: post)) pre.length = behind regex (pre ++ [c]) post := by
  have hlen := length_kept_add_found regex pre
  have hget : (behind regex pre (c :: post)).blockedChecks.getD pre.length .movedFrom = c := by
    rw [List.getD_eq_getElem?_getD, ← hlen, behind, getElem?_gap]
    rfl
  unfold Extract.step
  rw [hget]
  cases hm : regex.regex_match c.keyValue with
  | true =>
    have hk : regex.kept (pre ++ [c]) = regex.kept pre := by simp [Regex.kept, hm]
    have hf : regex.found (pre ++ [c]) = regex.found pre ++ [c] := by simp [Regex.found, hm]
    simp only [hm, if_true, behind, hk, hf, List.length_append, List.length_singleton, List.replicate_succ',
      List.append_assoc, List.singleton_append]
    rw [← hlen, set_gap]
  | false =>
    have hk : regex.kept (pre ++ [c]) = regex.kept pre ++ [c] := by simp [Regex.kept, hm]
    have hf : regex.found (pre ++ [c]) = regex.found pre := by simp [Regex.found, hm]
    have hwrite : (behind regex pre (c :: post)).writeIter = (regex.kept pre).length := rfl
    simp only [hm, Bool.false_eq_true, if_false]
    cases hgap : (regex.found pre).length with
    | zero =>
      have heq : ¬ pre.length ≠ (behind regex pre (c :: post)).writeIter := by omega
      rw [if_neg heq]
      simp [behind, hk, hf, hgap]
    | succ m =>
      -- the slot at the write cursor was moved out of
      have hw : (behind regex pre (c :: post)).blockedChecks.getD (regex.kept pre).length .movedFrom = .movedFrom := by
        simp [behind, List.getD_eq_getElem?_getD, hgap, List.replicate_succ]
      have hset : (behind regex pre (c :: post)).blockedChecks.set (regex.kept pre).length c =
          (regex.kept pre ++ [c]) ++ (List.replicate m BlockedCheck.movedFrom ++ c :: post) := by
        simp [behind, hgap, List.replicate_succ]
      have hpre : pre.length = (regex.kept pre ++ [c]).length + m := by simp; omega
      have hne : pre.length ≠ (behind regex pre (c :: post)).writeIter := by omega
      rw [if_pos hne, hwrite, hw, hset, hpre, set_gap]
      simp [behind, BlockedCheck.movedFrom, hk, hf, hgap, List.replicate_succ']

/-- **The loop of `extractBlockedChecks`**: behind each check, what was kept stands in front and what
was found is taken out. -/
theorem Extract.foldl_behind (regex : Regex) (pre post : List BlockedCheck) :
    (List.range' pre.length post.length).foldl (Extract.step regex) (behind regex pre post) =
      behind regex (pre ++ post) [] := by
  induction post generalizing pre with
  | nil => simp
  | cons c post ih =>
    rw [List.length_cons, List.range'_succ, List.foldl_cons, step_behind]
    simpa using ih (pre ++ [c])

/-- **The loop** parts the vector. -/
theorem Extract.loop_eq (regex : Regex) (cs : List BlockedCheck) : Extract.loop regex cs = behind regex cs [] := by
  have h := foldl_behind regex [] cs
  rw [List.nil_append] at h
  rw [← h, Extract.loop, List.range_eq_range']
  rfl

variable {s : State T E} {keyClass keyValueRegex : String} {cs : List BlockedCheck} {regex : Regex}

/-- The state behind `extractBlockedChecks`. -/
def State.withKept (s : State T E) (keyClass : String) (kept : List BlockedCheck) : State T E :=
  { s with
    blockedChecks := if kept.length = 0 then s.blockedChecks.erase keyClass else s.blockedChecks.insert keyClass kept }

/-- As a whole it splits the checks of the class in two. -/
theorem extractBlockedChecks_eq (hs : s.blockedChecks.lookup keyClass = some cs)
    (hr : env.compile keyValueRegex = some regex) :
    s.extractBlockedChecks env keyClass keyValueRegex =
      (s.withKept keyClass (regex.kept cs), .ok (regex.found cs, [])) := by
  have htake : (Extract.behind regex cs []).blockedChecks.take (regex.kept cs).length = regex.kept cs :=
    List.take_left
  have hdrop : ((Extract.behind regex cs []).blockedChecks.drop (regex.kept cs).length).filterMap
      BlockedCheck.promise = [] := by
    rw [Extract.behind, List.drop_left]
    simp [BlockedCheck.movedFrom]
  unfold State.extractBlockedChecks
  simp only [hs, hr, Extract.loop_eq]
  rw [show (Extract.behind regex cs []).writeIter = (regex.kept cs).length from rfl, htake, hdrop]
  rfl

/-! ### Who takes a check -/

/-- A list in parts by a key. -/
theorem flatMap_filter_perm {α β : Type*} [DecidableEq β] {key : α → β} {ks : List β} (hnd : ks.Nodup) :
    ∀ l : List α, (∀ a ∈ l, key a ∈ ks) → (ks.flatMap fun k => l.filter fun a => key a = k).Perm l := by
  induction ks with
  | nil =>
    intro l h
    have hl : l = [] := List.eq_nil_iff_forall_not_mem.2 fun a ha => by simpa using h a ha
    simp [hl]
  | cons k ks ih =>
    intro l h
    obtain ⟨hk, hks⟩ := List.nodup_cons.1 hnd
    have hrest : (ks.flatMap fun k' => l.filter fun a => key a = k') =
        ks.flatMap fun k' => (l.filter fun a => !decide (key a = k)).filter fun a => key a = k' := by
      refine List.flatMap_congr fun k' hk' => ?_
      rw [List.filter_filter]
      refine List.filter_congr fun a _ => ?_
      by_cases ha : key a = k'
      · have hne : k' ≠ k := fun he => hk (he ▸ hk')
        simp [ha, hne]
      · simp [ha]
    have hperm := ih hks (l.filter fun a => !decide (key a = k)) fun a ha => by
      obtain ⟨ha, hne⟩ := List.mem_filter.1 ha
      have := List.mem_cons.1 (h a ha)
      simp_all
    rw [List.flatMap_cons, hrest]
    exact (hperm.append_left _).trans (List.filter_append_perm _ l)

/-- The operation covers the check. -/
def Cover.covers : Cover → Check → Bool
  | .key keyClass (some regex), check => check.keyClass = keyClass && regex.regex_match check.keyValue
  | .key _ none, _ => false
  | .all, _ => true

/-- The first operation to cover the check since it has blocked. -/
def taker (covers : List Cover) (check : Check) : Option ℕ :=
  ((covers.drop check.since).findIdx? fun c => c.covers check).map (· + check.since)

/-- A later task takes what no earlier one has taken. -/
theorem taker_concat {covers : List Cover} {check : Check} (h : check.since ≤ covers.length) (c : Cover) :
    taker (covers ++ [c]) check = (taker covers check).or (if c.covers check then some covers.length else none) := by
  rw [taker, taker, List.drop_append_of_le_length h, List.findIdx?_append, List.length_drop]
  cases (covers.drop check.since).findIdx? fun c => c.covers check with
  | some i => simp
  | none => cases hc : c.covers check <;> simp [hc, Nat.sub_add_cancel h]

/-- A task that takes a check has begun. -/
theorem taker_lt {covers : List Cover} {check : Check} {k : ℕ} (h : taker covers check = some k) :
    k < covers.length := by
  obtain ⟨i, hi, rfl⟩ := Option.map_eq_some_iff.1 h
  obtain ⟨hlt, -⟩ := List.findIdx?_eq_some_iff_getElem.1 hi
  rw [List.length_drop] at hlt
  omega

/-- The check as the vectors hold it; its promise has its number. -/
def toBlocked (e : Check × ℕ) : BlockedCheck := ⟨e.1.keyValue, some e.2⟩

namespace Blocking

variable {b b' : Blocking T E} {k : ℕ}

def covers (b : Blocking T E) : List Cover := b.tasks.map Task.cover

/-- The checks that no operation has covered. -/
def waiting (b : Blocking T E) : List (Check × ℕ) := b.checks.zipIdx.filter fun e => (taker b.covers e.1).isNone

/-- Those of one class. -/
def blocked (b : Blocking T E) (keyClass : String) : List BlockedCheck :=
  (b.waiting.filter fun e => e.1.keyClass = keyClass).map toBlocked

/-- The checks that the `k`-th operation is the first to cover. -/
def taken (b : Blocking T E) (k : ℕ) : List BlockedCheck :=
  (b.checks.zipIdx.filter fun e => taker b.covers e.1 = some k).map toBlocked

/-- The promises that the `k`-th operation has fulfilled. -/
def fulfilled (b : Blocking T E) (k : ℕ) : List (Option PromiseId) :=
  (b.results.filter fun r => r.task = k).map Fulfilled.promise

structure Inv (b : Blocking T E) : Prop where
  since : ∀ e ∈ b.checks, e.since ≤ b.tasks.length
  vectors : ∀ keyClass, (b.state_.blockedChecks.lookup keyClass).getD [] = b.blocked keyClass
  nonempty : ∀ keyClass, b.state_.blockedChecks.lookup keyClass ≠ some []
  matched : ∀ k (task : Task E), b.tasks[k]? = some task → task.matched.Perm (b.taken k)
  fulfils : ∀ k (task : Task E), b.tasks[k]? = some task →
    (b.fulfilled k ++ task.todo.map BlockedCheck.promise).Perm (task.matched.map BlockedCheck.promise)
  results : ∀ r ∈ b.results, ∃ task : Task E, b.tasks[r.task]? = some task ∧ r.error = task.error
  broken : b.broken = []

/-- At first there are no checks. -/
theorem inv_new : Inv (new : Blocking T E) where
  since := nofun
  vectors _ := rfl
  nonempty _ := nofun
  matched := nofun
  fulfils := nofun
  results := nofun
  broken := rfl

theorem since_of_mem (h : Inv b) {e : Check × ℕ} (he : e ∈ b.checks.zipIdx) : e.1.since ≤ b.covers.length := by
  rw [covers, List.length_map]
  exact h.since _ (List.mem_of_getElem? (List.mem_zipIdx_iff_getElem?.1 he))

/-! ### Steps -/

/-- A check blocks behind all others. -/
def addCheck (b : Blocking T E) (keyClass keyValue : String) : Blocking T E :=
  { b with
    state_ := b.state_.addBlockedFault keyClass keyValue b.checks.length
    checks := b.checks ++ [⟨keyClass, keyValue, b.tasks.length⟩] }

/-- A new check has the next number. -/
theorem zipIdx_addCheck (b : Blocking T E) (keyClass keyValue : String) :
    (b.addCheck keyClass keyValue).checks.zipIdx =
      b.checks.zipIdx ++ [((⟨keyClass, keyValue, b.tasks.length⟩ : Check), b.checks.length)] := by
  simp [addCheck, List.zipIdx_append]

/-- No task from before takes it. -/
theorem taker_since (covers : List Cover) (keyClass keyValue : String) :
    taker covers ⟨keyClass, keyValue, covers.length⟩ = none := by
  rw [taker, List.drop_length]
  rfl

/-- So it waits. -/
theorem waiting_addCheck (b : Blocking T E) (keyClass keyValue : String) :
    (b.addCheck keyClass keyValue).waiting =
      b.waiting ++ [((⟨keyClass, keyValue, b.tasks.length⟩ : Check), b.checks.length)] := by
  have hnone := taker_since b.covers keyClass keyValue
  rw [show b.covers.length = b.tasks.length by simp [covers]] at hnone
  rw [waiting, zipIdx_addCheck, show (b.addCheck keyClass keyValue).covers = b.covers from rfl, List.filter_append,
    waiting]
  simp [hnone]

/-- The tasks keep what they have taken. -/
theorem taken_addCheck (b : Blocking T E) (keyClass keyValue : String) (k : ℕ) :
    (b.addCheck keyClass keyValue).taken k = b.taken k := by
  have hnone := taker_since b.covers keyClass keyValue
  rw [show b.covers.length = b.tasks.length by simp [covers]] at hnone
  rw [taken, zipIdx_addCheck, show (b.addCheck keyClass keyValue).covers = b.covers from rfl, List.filter_append,
    taken]
  simp [hnone]

/-- **A check blocks**: the invariant has one more that waits. -/
theorem Inv.addCheck (h : Inv b) (keyClass keyValue : String) : Inv (b.addCheck keyClass keyValue) where
  since e he := by
    obtain he | he := List.mem_append.1 he
    · exact h.since e he
    · rw [List.mem_singleton.1 he]
      exact Nat.le_refl _
  vectors c := by
    rw [blocked, waiting_addCheck, List.filter_append, List.map_append]
    have hv := h.vectors c
    rw [blocked] at hv
    rw [← hv]
    by_cases hc : keyClass = c
    · subst hc
      simp [Blocking.addCheck, State.addBlockedFault, toBlocked]
    · simp [Blocking.addCheck, State.addBlockedFault, AList.lookup_insert_ne (Ne.symm hc), hc]
  nonempty c := by
    by_cases hc : c = keyClass
    · subst hc
      simp [Blocking.addCheck, State.addBlockedFault]
    · simpa [Blocking.addCheck, State.addBlockedFault, AList.lookup_insert_ne hc] using h.nonempty c
  matched k task hk := by
    rw [taken_addCheck]
    exact h.matched k task hk
  fulfils := h.fulfils
  results := h.results
  broken := h.broken

/-- An operation comes behind the others, and has taken `ms`. -/
def addTask (b : Blocking T E) (t : State T E) (cover : Cover) (error : Option E) (ms : List BlockedCheck) :
    Blocking T E :=
  { b with state_ := t, tasks := b.tasks ++ [⟨cover, error, ms, ms⟩] }

section AddTask

variable {t : State T E} {cover : Cover} {error : Option E} {ms : List BlockedCheck}

/-- A new task takes what it covers and no other has taken. -/
theorem taker_addTask (h : Inv b) {e : Check × ℕ} (he : e ∈ b.checks.zipIdx) :
    taker (b.addTask t cover error ms).covers e.1 =
      (taker b.covers e.1).or (if cover.covers e.1 then some b.tasks.length else none) := by
  have hcovers : (b.addTask t cover error ms).covers = b.covers ++ [cover] := by simp [covers, addTask]
  rw [hcovers, taker_concat (since_of_mem h he)]
  simp [covers]

/-- What it does not cover goes on waiting. -/
theorem waiting_addTask (h : Inv b) :
    (b.addTask t cover error ms).waiting = b.waiting.filter fun e => !cover.covers e.1 := by
  rw [waiting, waiting, List.filter_filter]
  refine List.filter_congr fun e he => ?_
  rw [taker_addTask h he]
  cases taker b.covers e.1 <;> cases cover.covers e.1 <;> rfl

/-- Earlier tasks keep what they have. -/
theorem taken_addTask_of_lt (h : Inv b) (hk : k < b.tasks.length) :
    (b.addTask t cover error ms).taken k = b.taken k := by
  rw [taken, taken]
  refine congrArg _ (List.filter_congr fun e he => ?_)
  rw [taker_addTask h he]
  have hne : b.tasks.length ≠ k := by omega
  cases taker b.covers e.1 <;> cases cover.covers e.1 <;> simp [hne]

theorem taken_addTask_self (h : Inv b) :
    (b.addTask t cover error ms).taken b.tasks.length =
      (b.waiting.filter fun e => cover.covers e.1).map toBlocked := by
  rw [taken, waiting, List.filter_filter]
  refine congrArg _ (List.filter_congr fun e he => ?_)
  rw [taker_addTask h he]
  cases htk : taker b.covers e.1 with
  | none => cases cover.covers e.1 <;> simp
  | some k =>
    have hlt := taker_lt htk
    have hne : k ≠ b.tasks.length := by
      rw [covers, List.length_map] at hlt
      omega
    simp [hne]

/-- Nothing was fulfilled by an operation that is not there. -/
theorem fulfilled_eq_nil (h : Inv b) (hk : b.tasks.length ≤ k) : b.fulfilled k = [] := by
  rw [fulfilled, List.map_eq_nil_iff, List.filter_eq_nil_iff]
  intro r hr hrk
  obtain ⟨task, ht, -⟩ := h.results r hr
  have hlt := (List.getElem?_eq_some_iff.1 ht).1
  have : r.task = k := by simpa using hrk
  omega

theorem getElem?_addTask {task : Task E} (hk : (b.addTask t cover error ms).tasks[k]? = some task) :
    (k < b.tasks.length ∧ b.tasks[k]? = some task) ∨ (k = b.tasks.length ∧ task = ⟨cover, error, ms, ms⟩) := by
  by_cases hlt : k < b.tasks.length
  · rw [addTask, List.getElem?_append_left hlt] at hk
    exact .inl ⟨hlt, hk⟩
  · rw [addTask, List.getElem?_append_right (by omega)] at hk
    obtain ⟨hi, rfl⟩ := List.getElem?_eq_some_iff.1 hk
    have hz : k - b.tasks.length = 0 := by simpa using hi
    exact .inr ⟨by omega, by simp⟩

/-- The operation has taken the checks it covers, and the vectors hold the others. -/
theorem Inv.addTask (h : Inv b) (hm : ms.Perm ((b.waiting.filter fun e => cover.covers e.1).map toBlocked))
    (hv : ∀ c, (t.blockedChecks.lookup c).getD [] =
      ((b.waiting.filter fun e => !cover.covers e.1).filter fun e => e.1.keyClass = c).map toBlocked)
    (hne : ∀ c, t.blockedChecks.lookup c ≠ some []) : Inv (b.addTask t cover error ms) where
  since e he := (h.since e he).trans (by simp [Blocking.addTask])
  vectors c := by
    rw [blocked, waiting_addTask h]
    exact hv c
  nonempty := hne
  matched k task hk := by
    obtain ⟨hlt, hk⟩ | ⟨rfl, rfl⟩ := getElem?_addTask hk
    · rw [taken_addTask_of_lt h hlt]
      exact h.matched k task hk
    · rw [taken_addTask_self h]
      exact hm
  fulfils k task hk := by
    rw [show (b.addTask t cover error ms).fulfilled k = b.fulfilled k from rfl]
    obtain ⟨-, hk⟩ | ⟨rfl, rfl⟩ := getElem?_addTask hk
    · exact h.fulfils k task hk
    · rw [fulfilled_eq_nil h (Nat.le_refl _)]
      exact List.Perm.refl _
  results r hr := by
    obtain ⟨task, ht, he⟩ := h.results r hr
    have hlt := (List.getElem?_eq_some_iff.1 ht).1
    exact ⟨task, by rw [Blocking.addTask, List.getElem?_append_left hlt]; exact ht, he⟩
  broken := h.broken

end AddTask

/-! ### The operations -/

/-- The found ones of a class are those that wait and match. -/
theorem found_blocked (b : Blocking T E) (keyClass : String) (regex : Regex) :
    regex.found (b.blocked keyClass) =
      (b.waiting.filter fun e => (Cover.key keyClass (some regex)).covers e.1).map toBlocked := by
  rw [Regex.found, blocked, List.filter_map, List.filter_filter]
  refine congrArg _ (List.filter_congr fun e _ => ?_)
  simp [Cover.covers, toBlocked, Bool.and_comm]

/-- The kept ones are the others. -/
theorem kept_blocked (b : Blocking T E) (keyClass : String) (regex : Regex) :
    regex.kept (b.blocked keyClass) =
      ((b.waiting.filter fun e => !(Cover.key keyClass (some regex)).covers e.1).filter fun e =>
        e.1.keyClass = keyClass).map toBlocked := by
  rw [Regex.kept, blocked, List.filter_map, List.filter_filter, List.filter_filter]
  refine congrArg _ (List.filter_congr fun e _ => ?_)
  by_cases hc : e.1.keyClass = keyClass <;> simp [Cover.covers, toBlocked, hc]

/-- The checks of the other classes are not covered. -/
theorem blocked_of_ne {c keyClass : String} (hc : c ≠ keyClass) (regex : Option Regex) :
    ((b.waiting.filter fun e => !(Cover.key keyClass regex).covers e.1).filter fun e =>
      e.1.keyClass = c).map toBlocked = b.blocked c := by
  rw [blocked, List.filter_filter]
  refine congrArg _ (List.filter_congr fun e _ => ?_)
  by_cases he : e.1.keyClass = c
  · cases regex <;> simp [Cover.covers, he, hc]
  · simp [he]

/-- A class without checks is erased. -/
theorem lookup_withKept (s : State T E) (keyClass c : String) (kept : List BlockedCheck) :
    ((s.withKept keyClass kept).blockedChecks.lookup c) =
      if c = keyClass then (if kept = [] then none else some kept) else s.blockedChecks.lookup c := by
  by_cases hc : c = keyClass
  · subst hc
    by_cases hk : kept = [] <;> simp [State.withKept, hk]
  · by_cases hk : kept = []
    · simp [State.withKept, hk, hc, AList.lookup_erase_ne hc]
    · simp [State.withKept, hk, hc, AList.lookup_insert_ne hc]

variable {keyClass keyValueRegex : String} {error : Option E} {regex : Regex}

/-- No check of the class is blocked. -/
theorem unblock_of_nil (h : Inv b) (hb : b.blocked keyClass = []) :
    b.unblock env keyClass keyValueRegex error =
      b.addTask b.state_ (.key keyClass (env.compile keyValueRegex)) error [] := by
  have hnone : b.state_.blockedChecks.lookup keyClass = none := by
    have hv := h.vectors keyClass
    rw [hb] at hv
    cases hl : b.state_.blockedChecks.lookup keyClass with
    | none => rfl
    | some cs =>
      rw [hl] at hv
      exact absurd (hl.trans (congrArg some hv)) (h.nonempty keyClass)
  simp [unblock, State.extractBlockedChecks, hnone, addTask]

theorem lookup_of_blocked (h : Inv b) (hb : b.blocked keyClass ≠ []) :
    b.state_.blockedChecks.lookup keyClass = some (b.blocked keyClass) := by
  have hv := h.vectors keyClass
  cases hl : b.state_.blockedChecks.lookup keyClass with
  | none =>
    rw [hl] at hv
    exact absurd hv.symm hb
  | some cs =>
    rw [hl] at hv
    exact congrArg some hv

/-- An invalid regular expression is found when there are checks to match. -/
theorem unblock_of_invalid (h : Inv b) (hb : b.blocked keyClass ≠ []) (hr : env.compile keyValueRegex = none) :
    b.unblock env keyClass keyValueRegex error = { b with regexErrors := b.regexErrors + 1 } := by
  simp [unblock, State.extractBlockedChecks, lookup_of_blocked h hb, hr]

/-- **`unblock`** with a regex that compiles takes exactly what waits and matches. -/
theorem unblock_of_valid (h : Inv b) (hb : b.blocked keyClass ≠ []) (hr : env.compile keyValueRegex = some regex) :
    b.unblock env keyClass keyValueRegex error =
      b.addTask (b.state_.withKept keyClass (regex.kept (b.blocked keyClass))) (.key keyClass (some regex)) error
        (regex.found (b.blocked keyClass)) := by
  unfold unblock
  rw [extractBlockedChecks_eq (lookup_of_blocked h hb) hr]
  simp [addTask, hr]

/-- It keeps the invariant. -/
theorem Inv.unblock (h : Inv b) (keyClass keyValueRegex : String) (error : Option E) :
    Inv (b.unblock env keyClass keyValueRegex error) := by
  by_cases hb : b.blocked keyClass = []
  · rw [unblock_of_nil h hb]
    have hcovers : ∀ e ∈ b.waiting, (Cover.key keyClass (env.compile keyValueRegex)).covers e.1 = false := by
      intro e he
      rw [blocked, List.map_eq_nil_iff, List.filter_eq_nil_iff] at hb
      have hc : e.1.keyClass ≠ keyClass := by simpa using hb e he
      cases env.compile keyValueRegex <;> simp [Cover.covers, hc]
    refine h.addTask ?_ (fun c => ?_) h.nonempty
    · rw [List.filter_eq_nil_iff.2 fun e he => by simp [hcovers e he]]
      exact List.Perm.refl _
    · have hall : (b.waiting.filter fun e => !(Cover.key keyClass (env.compile keyValueRegex)).covers e.1) =
          b.waiting := List.filter_eq_self.2 fun e he => by simp [hcovers e he]
      rw [hall]
      exact h.vectors c
  · cases hr : env.compile keyValueRegex with
    | none =>
      rw [unblock_of_invalid h hb hr]
      exact { h with }
    | some regex =>
      rw [unblock_of_valid h hb hr]
      refine h.addTask ?_ (fun c => ?_) (fun c => ?_)
      · rw [found_blocked]
      · rw [lookup_withKept]
        by_cases hc : c = keyClass
        · subst hc
          rw [if_pos rfl, ← kept_blocked]
          by_cases hk : regex.kept (b.blocked c) = [] <;> simp [hk]
        · rw [if_neg hc, blocked_of_ne hc]
          exact h.vectors c
      · rw [lookup_withKept]
        by_cases hc : c = keyClass
        · rw [if_pos hc]
          by_cases hk : regex.kept (b.blocked keyClass) = [] <;> simp [hk]
        · rw [if_neg hc]
          exact h.nonempty c

/-- The vectors together hold every check that waits. -/
theorem entries_perm (h : Inv b) :
    (b.state_.blockedChecks.entries.flatMap Sigma.snd).Perm (b.waiting.map toBlocked) := by
  have hentries : b.state_.blockedChecks.entries.flatMap Sigma.snd =
      (b.state_.blockedChecks.keys.flatMap fun c => b.waiting.filter fun e => e.1.keyClass = c).map toBlocked := by
    rw [AList.keys, List.keys, List.flatMap_map, List.map_flatMap]
    refine List.flatMap_congr fun x hx => ?_
    have hv := h.vectors x.1
    rw [AList.mem_lookup_iff.2 hx] at hv
    exact hv
  rw [hentries]
  refine (flatMap_filter_perm b.state_.blockedChecks.nodupKeys _ fun e he => ?_).map _
  -- a class with a check has a vector
  have hne : b.blocked e.1.keyClass ≠ [] := by
    intro hnil
    rw [blocked, List.map_eq_nil_iff, List.filter_eq_nil_iff] at hnil
    simpa using hnil e he
  exact AList.lookup_isSome.1 (by rw [lookup_of_blocked h hne]; rfl)

/-- So does `unblockAllImpl`. -/
theorem Inv.unblockAllImpl (h : Inv b) (error : Option E) : Inv (b.unblockAllImpl error) := by
  have heq : b.unblockAllImpl error =
      b.addTask { b.state_ with blockedChecks := ∅ } .all error (b.state_.blockedChecks.entries.flatMap Sigma.snd) :=
    rfl
  rw [heq]
  refine h.addTask ?_ (fun c => ?_) (fun c => ?_)
  · rw [List.filter_eq_self.2 fun e _ => by rfl]
    exact entries_perm h
  · simp [Cover.covers]
  · exact nofun

/-- Nothing waits behind it. -/
theorem waiting_unblockAllImpl (h : Inv b) (error : Option E) : (b.unblockAllImpl error).waiting = [] := by
  have heq : b.unblockAllImpl error =
      b.addTask { b.state_ with blockedChecks := ∅ } .all error (b.state_.blockedChecks.entries.flatMap Sigma.snd) :=
    rfl
  rw [heq, waiting_addTask h, List.filter_eq_nil_iff]
  intro e _
  simp [Cover.covers]

/-- An operation fulfils one of its checks. -/
def withSet (b : Blocking T E) (k i : ℕ) (task : Task E) (check : BlockedCheck) : Blocking T E :=
  { b with
    tasks := b.tasks.set k { task with todo := task.todo.eraseIdx i }
    results := b.results ++ [⟨k, check.promise, task.error⟩] }

section WithSet

variable {i : ℕ} {task : Task E} {check : BlockedCheck}

theorem covers_withSet (hk : b.tasks[k]? = some task) : (b.withSet k i task check).covers = b.covers :=
  map_set_eq hk rfl

theorem waiting_withSet (hk : b.tasks[k]? = some task) : (b.withSet k i task check).waiting = b.waiting := by
  rw [waiting, covers_withSet hk, waiting]
  rfl

theorem taken_withSet (hk : b.tasks[k]? = some task) (k' : ℕ) : (b.withSet k i task check).taken k' = b.taken k' := by
  rw [taken, covers_withSet hk, taken]
  rfl

theorem fulfilled_withSet (k' : ℕ) :
    (b.withSet k i task check).fulfilled k' = b.fulfilled k' ++ if k = k' then [check.promise] else [] := by
  by_cases hk : k = k' <;> simp [fulfilled, withSet, hk]

/-- The operations behind the step. -/
theorem getElem?_withSet {task' : Task E} {k' : ℕ} (hk : b.tasks[k]? = some task)
    (hk' : (b.withSet k i task check).tasks[k']? = some task') :
    (k = k' ∧ task' = { task with todo := task.todo.eraseIdx i }) ∨ (k ≠ k' ∧ b.tasks[k']? = some task') := by
  obtain ⟨hlt, -⟩ := List.getElem?_eq_some_iff.1 hk
  rw [withSet, List.getElem?_set] at hk'
  by_cases hkk : k = k'
  · rw [if_pos hkk, if_pos hlt] at hk'
    exact .inl ⟨hkk, (Option.some.inj hk').symm⟩
  · rw [if_neg hkk] at hk'
    exact .inr ⟨hkk, hk'⟩

/-- **A promise is fulfilled**, and is not to be fulfilled again. -/
theorem Inv.withSet (h : Inv b) (hk : b.tasks[k]? = some task) (hi : task.todo[i]? = some check) :
    Inv (b.withSet k i task check) where
  since e he := by
    rw [Blocking.withSet, List.length_set]
    exact h.since e he
  vectors c := by
    rw [blocked, waiting_withSet hk]
    exact h.vectors c
  nonempty := h.nonempty
  matched k' task' hk' := by
    rw [taken_withSet hk]
    obtain ⟨rfl, rfl⟩ | ⟨-, hk'⟩ := getElem?_withSet hk hk'
    · exact h.matched k task hk
    · exact h.matched k' task' hk'
  fulfils k' task' hk' := by
    rw [fulfilled_withSet]
    obtain ⟨rfl, rfl⟩ | ⟨hkk, hk'⟩ := getElem?_withSet hk hk'
    · -- the promise moves from what is to do to what is done
      obtain ⟨hlt, rfl⟩ := List.getElem?_eq_some_iff.1 hi
      have hperm := ((List.getElem_cons_eraseIdx_perm hlt).map BlockedCheck.promise).append_left (b.fulfilled k)
      simpa using hperm.trans (h.fulfils k task hk)
    · simpa [hkk] using h.fulfils k' task' hk'
  results r hr := by
    obtain hr | hr := List.mem_append.1 hr
    · obtain ⟨task', ht, he⟩ := h.results r hr
      by_cases hkk : k = r.task
      · subst hkk
        obtain rfl : task = task' := Option.some.inj (hk.symm.trans ht)
        exact ⟨_, List.getElem?_set_self (List.getElem?_eq_some_iff.1 hk).1, he⟩
      · exact ⟨task', by rw [Blocking.withSet, List.getElem?_set_ne hkk]; exact ht, he⟩
    · obtain rfl := List.mem_singleton.1 hr
      exact ⟨_, List.getElem?_set_self (List.getElem?_eq_some_iff.1 hk).1, rfl⟩
  broken := h.broken

end WithSet

/-! ### Runs -/

variable {op : BlockingOp E}

/-- What a step can do. -/
theorem step_cases (h : step env b op = some b') :
    (∃ keyClass keyValue, op = .block keyClass keyValue ∧ b.destroyed = false ∧ b' = b.addCheck keyClass keyValue) ∨
    (∃ keyClass keyValueRegex error, op = .unblock keyClass keyValueRegex error ∧ b.destroyed = false ∧
      b' = b.unblock env keyClass keyValueRegex error) ∨
    (∃ error, op = .unblockAll error ∧ b.destroyed = false ∧ b' = b.unblockAllImpl error) ∨
    (∃ error, op = .destroy ∧ b' = { b.unblockAllImpl error with destroyed := true }) ∨
    (∃ k i task check, op = .set k i ∧ b.tasks[k]? = some task ∧ task.todo[i]? = some check ∧
      b' = b.withSet k i task check) := by
  cases op with
  | block keyClass keyValue =>
    obtain ⟨hd, h⟩ := Option.ite_none_left_eq_some.1 h
    exact .inl ⟨keyClass, keyValue, rfl, by simpa using hd, (Option.some.inj h).symm⟩
  | unblock keyClass keyValueRegex error =>
    obtain ⟨hd, h⟩ := Option.ite_none_left_eq_some.1 h
    exact .inr (.inl ⟨keyClass, keyValueRegex, error, rfl, by simpa using hd, (Option.some.inj h).symm⟩)
  | unblockAll error =>
    obtain ⟨hd, h⟩ := Option.ite_none_left_eq_some.1 h
    exact .inr (.inr (.inl ⟨error, rfl, by simpa using hd, (Option.some.inj h).symm⟩))
  | destroy =>
    obtain ⟨-, h⟩ := Option.ite_none_left_eq_some.1 h
    exact .inr (.inr (.inr (.inl ⟨_, rfl, (Option.some.inj h).symm⟩)))
  | set k i =>
    cases hk : b.tasks[k]? with
    | none => simp [step, hk] at h
    | some task =>
      cases hi : task.todo[i]? with
      | none => simp [step, hk, hi] at h
      | some check =>
        simp only [step, hk, hi, Option.some.injEq] at h
        exact .inr (.inr (.inr (.inr ⟨k, i, task, check, rfl, hk, hi, h.symm⟩)))

/-- A destroyed injector has no check left. -/
structure Good (b : Blocking T E) : Prop where
  inv : Inv b
  ended : b.destroyed = true → b.waiting = []

/-- Every step keeps the invariant. -/
theorem step_good (hg : Good b) (h : step env b op = some b') : Good b' := by
  obtain ⟨keyClass, keyValue, -, hd, rfl⟩ | ⟨keyClass, keyValueRegex, error, -, hd, rfl⟩ | ⟨error, -, hd, rfl⟩ |
    ⟨error, -, rfl⟩ | ⟨k, i, task, check, -, hk, hi, rfl⟩ := step_cases h
  · exact ⟨hg.inv.addCheck keyClass keyValue, fun hd' => absurd (hd.symm.trans hd') (by decide)⟩
  · refine ⟨hg.inv.unblock keyClass keyValueRegex error, fun hd' => absurd hd' ?_⟩
    have hsame : (b.unblock env keyClass keyValueRegex error).destroyed = b.destroyed := by
      unfold unblock
      dsimp only
      cases (b.state_.extractBlockedChecks env keyClass keyValueRegex).2 <;> rfl
    simp [hsame, hd]
  · exact ⟨hg.inv.unblockAllImpl error, fun hd' => absurd (hd.symm.trans hd') (by decide)⟩
  · exact ⟨{ hg.inv.unblockAllImpl error with }, fun _ => waiting_unblockAllImpl hg.inv error⟩
  · refine ⟨hg.inv.withSet hk hi, fun hd => ?_⟩
    rw [waiting_withSet hk]
    exact hg.ended hd

/-- So does every run. -/
theorem run_good {ops : List (BlockingOp E)} (h : run (step env) new ops = some b) : Good b :=
  run_invariant (I := Good) ⟨inv_new, nofun⟩ (fun _ _ _ hg hs => step_good hg hs) ops h

/-! ### Every check is released once -/

/-- A promise is with the task that takes its check. -/
theorem mem_taken_promises {i : ℕ} :
    some i ∈ (b.taken k).map BlockedCheck.promise ↔
      ∃ check, b.checks[i]? = some check ∧ taker b.covers check = some k := by
  rw [taken, List.map_map, List.mem_map]
  constructor
  · rintro ⟨⟨check, j⟩, hmem, hj⟩
    obtain ⟨hmem, ht⟩ := List.mem_filter.1 hmem
    obtain rfl : j = i := Option.some.inj hj
    exact ⟨check, List.mem_zipIdx_iff_getElem?.1 hmem, by simpa using ht⟩
  · rintro ⟨check, hc, ht⟩
    exact ⟨(check, i), List.mem_filter.2 ⟨List.mem_zipIdx_iff_getElem?.2 hc, by simpa using ht⟩, rfl⟩

/-- No task has a promise twice. -/
theorem nodup_taken_promises : ((b.taken k).map BlockedCheck.promise).Nodup := by
  rw [taken, List.map_map]
  have hmap : BlockedCheck.promise ∘ toBlocked = some ∘ (Prod.snd : Check × ℕ → ℕ) := rfl
  rw [hmap, ← List.map_map]
  refine List.Nodup.map (Option.some_injective _) ?_
  refine (List.filter_sublist.map Prod.snd).nodup ?_
  rw [List.zipIdx_map_snd]
  exact List.nodup_range'

/-- What the `k`-th operation has fulfilled, and has to. -/
theorem promises_perm (h : Inv b) {task : Task E} (hk : b.tasks[k]? = some task) :
    (b.fulfilled k ++ task.todo.map BlockedCheck.promise).Perm ((b.taken k).map BlockedCheck.promise) :=
  (h.fulfils k task hk).trans ((h.matched k task hk).map _)

theorem mem_fulfilled {r : Fulfilled E} (hr : r ∈ b.results) : r.promise ∈ b.fulfilled r.task :=
  List.mem_map_of_mem (List.mem_filter.2 ⟨hr, by simp⟩)

/-- A check is fulfilled by the first operation to cover it. -/
theorem result_first (h : Inv b) {r : Fulfilled E} (hr : r ∈ b.results) :
    ∃ (i : ℕ) (check : Check) (task : Task E), r.promise = some i ∧ b.checks[i]? = some check ∧
      taker b.covers check = some r.task ∧ b.tasks[r.task]? = some task ∧ r.error = task.error := by
  obtain ⟨task, hk, he⟩ := h.results r hr
  have hmem := (promises_perm h hk).subset (List.mem_append_left _ (mem_fulfilled hr))
  obtain ⟨c, hc, hp⟩ := List.mem_map.1 hmem
  obtain ⟨e, -, rfl⟩ := List.mem_map.1 hc
  rw [show r.promise = some e.2 from hp.symm] at hmem
  obtain ⟨check, hcheck, ht⟩ := mem_taken_promises.1 hmem
  exact ⟨e.2, check, task, hp.symm, hcheck, ht, hk, he⟩

/-- How often a promise was fulfilled is how often its operation has done it. -/
theorem countP_results (h : Inv b) {i : ℕ} {check : Check} (hi : b.checks[i]? = some check)
    (ht : taker b.covers check = some k) :
    b.results.countP (fun r => r.promise = some i) = (b.fulfilled k).count (some i) := by
  rw [fulfilled, List.count, List.countP_map, List.countP_filter]
  refine List.countP_congr fun r hr => ?_
  obtain ⟨j, check', task, hp, hj, ht', -, -⟩ := result_first h hr
  have hk : r.promise = some i → r.task = k := by
    intro hpi
    obtain rfl : j = i := Option.some.inj (hp.symm.trans hpi)
    obtain rfl : check = check' := Option.some.inj (hi.symm.trans hj)
    exact Option.some.inj (ht'.symm.trans ht)
  simpa using hk

/-- The checks and the operations after any run. -/
structure Released (env : Env E) (b : Blocking T E) : Prop where
  /-- What no operation has covered stays blocked, in the order in which it has blocked. -/
  blocked : ∀ keyClass, (b.state_.blockedChecks.lookup keyClass).getD [] = b.blocked keyClass
  /-- A check is fulfilled by the first operation to cover it. -/
  first : ∀ r ∈ b.results, ∃ (i : ℕ) (check : Check) (task : Task E), r.promise = some i ∧
    b.checks[i]? = some check ∧ taker b.covers check = some r.task ∧ b.tasks[r.task]? = some task ∧
    r.error = task.error
  /-- Never twice. -/
  atMostOnce : ∀ i : ℕ, b.results.countP (fun r => r.promise = some i) ≤ 1
  /-- Once the operation has returned, it was. -/
  once : ∀ k (task : Task E), b.tasks[k]? = some task → task.todo = [] → ∀ (i : ℕ) (check : Check),
    b.checks[i]? = some check → taker b.covers check = some k → b.results.countP (fun r => r.promise = some i) = 1
  /-- The operation has more to do until it has fulfilled what it is to return. -/
  count : ∀ k (task : Task E), b.tasks[k]? = some task →
    (b.fulfilled k).length + task.todo.length = task.matched.length
  broken : b.broken = []
  destroyed : b.destroyed = true → ∀ check ∈ b.checks, (taker b.covers check).isSome
  /-- `unblock` throws if there are checks to match, and takes none. -/
  invalid : ∀ keyClass text (error : Option E), env.regex text = none → b.destroyed = false →
    step env b (.unblock keyClass text error) =
      some (if b.blocked keyClass = [] then { b with tasks := b.tasks ++ [⟨.key keyClass none, error, [], []⟩] }
        else { b with regexErrors := b.regexErrors + 1 })

/-- No promise is fulfilled twice. -/
theorem count_fulfilled_le (h : Inv b) {task : Task E} (hk : b.tasks[k]? = some task) (i : ℕ) :
    (b.fulfilled k).count (some i) ≤ 1 := by
  have hperm := (promises_perm h hk).count_eq (some i)
  rw [List.count_append] at hperm
  have hle := List.nodup_iff_count_le_one.1 (nodup_taken_promises (b := b) (k := k)) (some i)
  omega

/-- **Blocked checks are released exactly once.** -/
theorem releases {ops : List (BlockingOp E)} (hrun : run (step env) (new : Blocking T E) ops = some b) :
    Released env b := by
  obtain ⟨h, hended⟩ := run_good hrun
  refine ⟨h.vectors, fun r hr => result_first h hr, fun i => ?_, ?_, ?_, h.broken, ?_, ?_⟩
  · by_cases hex : ∃ r ∈ b.results, r.promise = some i
    · obtain ⟨r, hr, hp⟩ := hex
      obtain ⟨j, check, task, hj, hc, ht, hk, -⟩ := result_first h hr
      obtain rfl : j = i := Option.some.inj (hj.symm.trans hp)
      rw [countP_results h hc ht]
      exact count_fulfilled_le h hk j
    · have hzero : b.results.countP (fun r => r.promise = some i) = 0 :=
        List.countP_eq_zero.2 fun r hr => by simpa using fun hp => hex ⟨r, hr, hp⟩
      omega
  · intro k task hk htodo i check hi ht
    have hperm := promises_perm h hk
    rw [htodo, List.map_nil, List.append_nil] at hperm
    rw [countP_results h hi ht, hperm.count_eq]
    exact List.count_eq_one_of_mem nodup_taken_promises (mem_taken_promises.2 ⟨check, hi, ht⟩)
  · intro k task hk
    have hlen := (h.fulfils k task hk).length_eq
    simpa using hlen
  · intro hd check hc
    obtain ⟨i, hi⟩ := List.getElem?_of_mem hc
    have hw := hended hd
    rw [waiting, List.filter_eq_nil_iff] at hw
    have hsome := hw (check, i) (List.mem_zipIdx_iff_getElem?.2 hi)
    rw [Option.isNone_iff_eq_none] at hsome
    exact Option.isSome_iff_ne_none.2 hsome
  · intro keyClass text error hr hd
    have hcompile : env.compile text = none := by rw [Env.compile, hr]; rfl
    rw [step, if_neg (by simp [hd])]
    by_cases hb : b.blocked keyClass = []
    · rw [if_pos hb, unblock_of_nil h hb, hcompile]
      rfl
    · rw [if_neg hb, unblock_of_invalid h hb hcompile]

/-- One of two checks is released. -/
theorem releases_one : ∃ b : Blocking Unit Unit,
    run (step Env.literal) new [.block "x" "a", .block "x" "b", .unblock "x" "a" none, .set 0 0] = some b ∧
      b.results.map Fulfilled.promise = [some 0] ∧ Released Env.literal b := by
  refine ⟨?b, ?hrun, ?released, releases ?hrun⟩
  case hrun => rfl
  case released => rfl

/-- An invalid regular expression goes unnoticed when no check of the class is blocked. -/
theorem unblock_invalid_returns : Env.literal.regex "(" = none ∧ ∃ b : Blocking Unit Unit,
    run (step Env.literal) new [.unblock "x" "(" none] = some b ∧ b.regexErrors = 0 ∧
      b.tasks.map (fun task => task.matched.length) = [0] :=
  ⟨rfl, _, rfl, rfl, rfl⟩

end Blocking

end FaultInjector

end EdenCommon
