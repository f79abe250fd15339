import EdenCommon.Spec.RequestWatches
import Mathlib.Data.List.Basic
import Mathlib.Order.Lattice
import Mathlib.Order.Basic

/-!
# When the front of the watch list is the oldest watch

`getMaxDuration` reads the front. It is right in a state and in every state that destroying
scopes leads to exactly if the list is in the order of starting (`good_iff`): each watch gets
to the front when those before it have gone. `getMaxDuration_iff` says that over a run: the
insertions have to be in the order in which the watches were started.

* `ordered_step_iff`: an ordered list stays ordered exactly if what is inserted was started
  last.
* `getMaxDuration_front_iff`: the front has run longest exactly if no other watch was
  started before it.
* `getMaxDuration_overtaken`: of two scopes the second one may be the first to get the lock.
-/

namespace EdenCommon

open Lib

namespace RequestWatches

variable {ScopeId : Type} [DecidableEq ScopeId] {s s' : Sys ScopeId} {op : Op ScopeId}

/-- No watch is from the future, and no scope has two. -/
structure Inv (s : Sys ScopeId) : Prop where
  past : ∀ watch ∈ s.watches, watch.checkpoint ≤ s.now
  starting : ∀ a watch, s.starting a = some watch → watch ≤ s.now ∧ a ∉ s.watches.map Watch.scope
  nodup : (s.watches.map Watch.scope).Nodup

/-- The list is in the order in which its watches were started. -/
def Ordered (s : Sys ScopeId) : Prop := s.watches.Pairwise fun w w' => w.checkpoint ≤ w'.checkpoint

omit [DecidableEq ScopeId] in
theorem inv_start : Inv (start : Sys ScopeId) := by
  refine ⟨?_, ?_, ?_⟩ <;> simp [start]

theorem Inv.step (h : Inv s) (hs : RequestWatches.step s op = some s') : Inv s' := by
  cases op with
  | pass duration =>
    rw [RequestWatches.step, Option.some.injEq] at hs
    subst hs
    refine ⟨fun w hw => ?_, fun a w hw => ?_, h.nodup⟩
    · have := h.past w hw
      simp only
      omega
    · have := h.starting a w hw
      simp only
      exact ⟨by omega, this.2⟩
  | construct a =>
    rw [RequestWatches.step] at hs
    split at hs
    · contradiction
    · rename_i hno
      rw [Option.some.injEq] at hs
      subst hs
      refine ⟨h.past, fun b w hw => ?_, h.nodup⟩
      simp only at hw ⊢
      by_cases hb : b = a
      · rw [hb] at hw ⊢
        rw [Function.update_self, Option.some.injEq] at hw
        exact ⟨by omega, fun hm => hno (Or.inr hm)⟩
      · rw [Function.update_of_ne hb] at hw
        exact h.starting b w hw
  | insert a =>
    rw [RequestWatches.step, Option.map_eq_some_iff] at hs
    obtain ⟨watch, hw, rfl⟩ := hs
    obtain ⟨hpast, hfree⟩ := h.starting a watch hw
    refine ⟨fun w hm => ?_, fun b w hb => ?_, ?_⟩
    · rcases List.mem_append.mp hm with hm | hm
      · exact h.past w hm
      · rw [List.mem_singleton.mp hm]
        exact hpast
    · simp only at hb ⊢
      have hne : b ≠ a := by
        rintro rfl
        simp at hb
      rw [Function.update_of_ne hne] at hb
      obtain ⟨hle, hnot⟩ := h.starting b w hb
      refine ⟨hle, ?_⟩
      rw [List.map_append, List.mem_append, not_or]
      exact ⟨hnot, by simpa using hne⟩
    · rw [List.map_append, List.nodup_append]
      refine ⟨h.nodup, by simp, fun x hx y hy => ?_⟩
      have hya : y = a := by simpa using hy
      rintro rfl
      exact hfree (hya ▸ hx)
  | release a =>
    rw [RequestWatches.step] at hs
    split at hs
    · rw [Option.some.injEq] at hs
      subst hs
      have hsub : ((s.watches.filter fun w => w.scope ≠ a).map Watch.scope).Sublist (s.watches.map Watch.scope) :=
        List.filter_sublist.map Watch.scope
      refine ⟨fun w hm => h.past w (List.mem_filter.mp hm).1, fun b w hb => ?_, h.nodup.sublist hsub⟩
      obtain ⟨hle, hnot⟩ := h.starting b w hb
      exact ⟨hle, fun hm => hnot (hsub.subset hm)⟩
    · contradiction

/-- **An ordered list** stays ordered exactly if what is inserted was started last. -/
theorem ordered_step_iff (h : Ordered s) (hs : step s op = some s') : Ordered s' ↔ InOrder s op := by
  cases op with
  | pass duration =>
    rw [step, Option.some.injEq] at hs
    subst hs
    exact iff_of_true h trivial
  | construct a =>
    rw [step] at hs
    split at hs
    · contradiction
    · rw [Option.some.injEq] at hs
      subst hs
      exact iff_of_true h trivial
  | insert a =>
    rw [step, Option.map_eq_some_iff] at hs
    obtain ⟨watch, hw, rfl⟩ := hs
    unfold Ordered InOrder
    rw [List.pairwise_append]
    simp only [hw, List.pairwise_singleton, List.mem_singleton, forall_eq, true_and, Option.some.injEq, forall_eq']
    exact and_iff_right h
  | release a =>
    rw [step] at hs
    split at hs
    · rw [Option.some.injEq] at hs
      subst hs
      exact iff_of_true (List.Pairwise.sublist List.filter_sublist h) trivial
    · contradiction

/-! ### One state -/

omit [DecidableEq ScopeId] in
theorem maxElapsed_cons {front : Watch ScopeId} {watches : List (Watch ScopeId)} (h : s.watches = front :: watches) :
    s.maxElapsed = max (s.elapsed front) ((watches.map s.elapsed).foldr max 0) := by
  rw [Sys.maxElapsed, h]
  rfl

/-- What no element exceeds the maximum does not exceed. -/
theorem foldr_max_le_iff {l : List ℕ} {n : ℕ} : l.foldr max 0 ≤ n ↔ ∀ x ∈ l, x ≤ n := by
  induction l with
  | nil => simp
  | cons x l ih => rw [List.foldr_cons, Nat.max_le, ih, List.forall_mem_cons]

omit [DecidableEq ScopeId] in
/-- **The front** has run longest exactly if no other watch was started before it. -/
theorem getMaxDuration_front_iff {front : Watch ScopeId} {watches : List (Watch ScopeId)}
    (hpast : ∀ watch ∈ s.watches, watch.checkpoint ≤ s.now) (h : s.watches = front :: watches) :
    s.getMaxDuration = s.maxElapsed ↔ ∀ watch ∈ watches, front.checkpoint ≤ watch.checkpoint := by
  have hget : s.getMaxDuration = s.elapsed front := by
    unfold Sys.getMaxDuration
    rw [h]
  have hmax : ∀ a b : ℕ, a = max a b ↔ b ≤ a := fun a b => by omega
  rw [hget, maxElapsed_cons h, hmax, foldr_max_le_iff, List.forall_mem_map]
  have hfront := hpast front (by rw [h]; exact List.mem_cons_self)
  constructor
  · intro hall watch hw
    have hle := hall watch hw
    have hnow := hpast watch (by rw [h]; exact List.mem_cons_of_mem front hw)
    unfold Sys.elapsed at hle
    omega
  · intro hall watch hw
    have hle := hall watch hw
    unfold Sys.elapsed
    omega

/-- The duration is right here and whatever scopes are destroyed next. -/
def Good (s : Sys ScopeId) : Prop :=
  ∀ (released : List ScopeId) (s' : Sys ScopeId), run step s (released.map Op.release) = some s' →
    s'.getMaxDuration = s'.maxElapsed

theorem Good.release {a : ScopeId} (h : Good s) (hs : step s (.release a) = some s') : Good s' := by
  intro released s'' hrun
  apply h (a :: released)
  rw [List.map_cons, run_cons hs, hrun]

/-- A right front and a good rest. -/
theorem Good.ordered (hinv : Inv s) (h : Good s) : Ordered s := by
  obtain ⟨now, starting, watches⟩ := s
  induction watches with
  | nil => exact List.Pairwise.nil
  | cons front watches ih =>
    have hfront := (getMaxDuration_front_iff hinv.past rfl).mp (h [] _ rfl)
    have hnodup := hinv.nodup
    rw [List.map_cons, List.nodup_cons] at hnodup
    have hrest : (front :: watches).filter (fun w => w.scope ≠ front.scope) = watches := by
      rw [List.filter_cons, if_neg (by simp), List.filter_eq_self]
      intro w hw
      have hne : w.scope ≠ front.scope := fun heq => hnodup.1 (heq ▸ List.mem_map_of_mem hw)
      simpa using hne
    have hs : step ⟨now, starting, front :: watches⟩ (.release front.scope) = some ⟨now, starting, watches⟩ := by
      rw [step, if_pos (by simp)]
      simp only [hrest]
    exact List.Pairwise.cons hfront (ih (hinv.step hs) (h.release hs))

omit [DecidableEq ScopeId] in
/-- In an ordered list the front is the oldest. -/
theorem Ordered.getMaxDuration (hinv : Inv s) (h : Ordered s) : s.getMaxDuration = s.maxElapsed := by
  cases hw : s.watches with
  | nil =>
    unfold Sys.getMaxDuration Sys.maxElapsed
    rw [hw]
    rfl
  | cons front watches =>
    rw [getMaxDuration_front_iff hinv.past hw]
    unfold Ordered at h
    rw [hw, List.pairwise_cons] at h
    exact h.1

/-- **The order of the list** is what it takes. -/
theorem good_iff (hinv : Inv s) : Good s ↔ Ordered s := by
  refine ⟨Good.ordered hinv, fun h released s' hrun => ?_⟩
  have hboth : Inv s' ∧ Ordered s' := by
    refine run_guarded (I := fun x => Inv x ∧ Ordered x) (G := InOrder) ?_ (released.map Op.release)
      ⟨hinv, h⟩ (AllSteps.of_forall ?_ s) hrun
    · exact fun x op x' hx hg hs => ⟨hx.1.step hs, (ordered_step_iff hx.2 hs).mpr hg⟩
    · intro op hop x
      obtain ⟨a, -, rfl⟩ := List.mem_map.mp hop
      trivial
  exact hboth.2.getMaxDuration hboth.1

/-- **The maximum duration** is right in every state of a run, and in all that destroying scopes
leads to from there, exactly if each watch was inserted behind those that were started before it. -/
theorem getMaxDuration_iff (ops : List (Op ScopeId)) (s : Sys ScopeId) (h : run step start ops = some s) :
    (∀ pre, pre <+: ops → ∀ s', run step start pre = some s' →
        ∀ (released : List ScopeId) (s'' : Sys ScopeId), run step s' (released.map Op.release) = some s'' →
          s''.getMaxDuration = s''.maxElapsed) ↔
      AllSteps step InOrder start ops := by
  have hsteps := allSteps_iff (I := fun x => Inv x ∧ Ordered x) (G := InOrder)
    (fun x op x' hx hs => by rw [and_iff_right (hx.1.step hs)]; exact ordered_step_iff hx.2 hs) ops
    ⟨inv_start, List.Pairwise.nil⟩ h
  rw [hsteps]
  refine forall_congr' fun pre => imp_congr_right fun _ => forall_congr' fun s' => imp_congr_right fun hrun => ?_
  have hinv : Inv s' := run_invariant inv_start (fun _ _ _ hx hs => hx.step hs) pre hrun
  rw [and_iff_right hinv]
  exact good_iff hinv

/-- Two scopes one after the other, and the first one is destroyed. -/
theorem getMaxDuration_in_order :
    run step start [.construct 1, .insert 1, .pass 5, .construct 2, .insert 2, .release 1] =
        some (⟨5, fun _ => none, [⟨2, 5⟩]⟩ : Sys ℕ) ∧
      ∀ pre, pre <+: [.construct 1, .insert 1, .pass 5, .construct 2, .insert 2, .release 1] →
        ∀ s', run step (start : Sys ℕ) pre = some s' →
          ∀ (released : List ℕ) (s'' : Sys ℕ), run step s' (released.map Op.release) = some s'' →
            s''.getMaxDuration = s''.maxElapsed := by
  have hrun : run step start [.construct 1, .insert 1, .pass 5, .construct 2, .insert 2, .release 1] =
      some (⟨5, fun _ => none, [⟨2, 5⟩]⟩ : Sys ℕ) := by
    simp [run, step, start]
  refine ⟨hrun, (getMaxDuration_iff _ _ hrun).mpr ?_⟩
  simp [AllSteps, step, start, InOrder]

/-- The second scope is the first to get the lock. -/
theorem getMaxDuration_overtaken :
    ∃ s, run step (start : Sys ℕ) [.construct 1, .pass 5, .construct 2, .insert 2, .insert 1] = some s ∧
      s.getMaxDuration = 0 ∧ s.maxElapsed = 5 := by
  refine ⟨_, rfl, ?_, ?_⟩ <;> decide

end RequestWatches

end EdenCommon
