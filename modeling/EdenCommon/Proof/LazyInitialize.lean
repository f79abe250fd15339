import EdenCommon.Lib.Run
import EdenCommon.Lib.Threads
import EdenCommon.Spec.LazyInitialize

/-!
# Calls of `init` by `lazyInitialize`

The test under the read lock is not made again under the write lock, so every call that
has found no pointer calls `init`, whatever the others have stored meanwhile. The calls of
`init` made and those to come never get fewer; they stay at one exactly if no call finds no
pointer while another that found none has yet to store its own.

* `step_cases`: a step of a call finds a pointer, or finds none, or makes one.
* `initializes_once_iff`: calls with `cond` that have all returned have called `init` once
  and returned one pointer, if and only if no call found none while another was on its way.
* `initializes_twice`: two calls find no pointer, and both make one.
-/

namespace EdenCommon

namespace LazyInitialize

open Lib

variable {T : Type} {init : ℕ → T} {ptr₀ : Option T} {s s' : Sys T} {i : ℕ}

/-- The call has found no pointer and has yet to store one. -/
def Caller.waits : Caller T → Bool
  | .wlock _ => true
  | _ => false

def Caller.isReturned : Caller T → Bool
  | .returned _ => true
  | _ => false

/-- `cond` is true. -/
def Caller.wants : Caller T → Bool
  | .rlock cond => cond
  | .wlock cond => cond
  | .returned _ => true

/-- The calls of `init` to come. -/
def Sys.waiting (s : Sys T) : ℕ := s.callers.countP Caller.waits

/-- What is wanted of calls that have all returned. -/
def Sys.Once (s : Sys T) (ptr₀ : Option T) : Prop :=
  s.inits = (if ptr₀.isSome then 0 else 1) ∧ ∃ p, ∀ c ∈ s.callers, c = .returned (some p)

/-- The call that steps does not find a null pointer while another waits to store its own. -/
def Alone (s : Sys T) (i : ℕ) : Prop :=
  s.callers[i]? = some (.rlock true) → s.ptr = none → ∀ c ∈ s.callers, c.waits = false

instance [DecidableEq T] (s : Sys T) (i : ℕ) : Decidable (Alone s i) :=
  inferInstanceAs (Decidable (_ → _ → ∀ c ∈ s.callers, c.waits = false))

/-- A pointer that was there, or one that `init` has made. -/
def Known (init : ℕ → T) (ptr₀ : Option T) (inits : ℕ) (p : T) : Prop :=
  match ptr₀ with
  | some p₀ => p = p₀
  | none => ∃ k < inits, p = init k

structure Inv (init : ℕ → T) (ptr₀ : Option T) (s : Sys T) : Prop where
  callers : s.callers ≠ []
  wants : ∀ c ∈ s.callers, c.wants = true
  ptr : ∀ p, s.ptr = some p → Known init ptr₀ s.inits p
  null : s.ptr = none → ptr₀ = none ∧ s.inits = 0
  returned : ∀ c ∈ s.callers, ∀ r, c = .returned r → ∃ p, r = some p ∧ Known init ptr₀ s.inits p
  idle : ptr₀.isSome → s.inits = 0 ∧ s.waiting = 0

theorem Known.succ {p : T} {n : ℕ} (h : Known init ptr₀ n p) : Known init ptr₀ (n + 1) p := by
  cases ptr₀ with
  | some p₀ => exact h
  | none =>
    obtain ⟨k, hk, hp⟩ := h
    exact ⟨k, Nat.lt_succ_of_lt hk, hp⟩

theorem inv_start (init : ℕ → T) (ptr₀ : Option T) (n : ℕ) :
    Inv init ptr₀ (start ptr₀ (List.replicate (n + 1) true)) where
  callers := by simp [start]
  wants := by simp [start, Caller.wants]
  ptr := by
    rintro p (rfl : ptr₀ = some p)
    rfl
  null := fun h => ⟨h, rfl⟩
  returned := by simp [start]
  idle := by simp [start, Sys.waiting, Caller.waits]

/-- **What a step does**: a call finds a pointer, or finds none, or makes one. -/
theorem step_cases (hinv : Inv init ptr₀ s) (h : step init s i = some s') :
    (∃ p, s.callers[i]? = some (.rlock true) ∧ s.ptr = some p ∧
      s' = { s with callers := s.callers.set i (.returned (some p)) }) ∨
    (s.callers[i]? = some (.rlock true) ∧ s.ptr = none ∧ s' = { s with callers := s.callers.set i (.wlock true) }) ∨
    (s.callers[i]? = some (.wlock true) ∧
      s' = ⟨some (init s.inits), s.callers.set i (.returned (some (init s.inits))), s.inits + 1⟩) := by
  unfold step at h
  split at h
  · rename_i cond hi
    obtain rfl : cond = true := hinv.wants _ (List.mem_of_getElem? hi)
    obtain rfl := Option.some.inj h
    cases hp : s.ptr with
    | some p => exact .inl ⟨p, hi, rfl, by simp [rlocked]⟩
    | none => exact .inr (.inl ⟨hi, rfl, by simp [rlocked]⟩)
  · rename_i cond hi
    obtain rfl : cond = true := hinv.wants _ (List.mem_of_getElem? hi)
    obtain rfl := Option.some.inj h
    exact .inr (.inr ⟨hi, rfl⟩)
  · cases h

/-- What a step does to the number of calls that wait. -/
theorem waiting_set {c : Caller T} (hi : s.callers[i]? = some c) (d : Caller T) :
    (s.callers.set i d).countP Caller.waits + c.waits.toNat = s.waiting + d.waits.toNat :=
  countP_set_add Caller.waits hi

theorem Inv.step (hinv : Inv init ptr₀ s) (h : step init s i = some s') : Inv init ptr₀ s' := by
  obtain ⟨p, hi, hp, rfl⟩ | ⟨hi, hp, rfl⟩ | ⟨hi, rfl⟩ := step_cases hinv h
  · have hw := waiting_set hi (.returned (some p))
    exact {
      callers := by simpa using hinv.callers
      wants := forall_mem_set hinv.wants rfl
      ptr := hinv.ptr
      null := hinv.null
      returned := forall_mem_set hinv.returned fun r hr => ⟨p, (Caller.returned.inj hr).symm, hinv.ptr p hp⟩
      idle := fun hs => ⟨(hinv.idle hs).1, hw.trans (hinv.idle hs).2⟩ }
  · obtain ⟨rfl, -⟩ := hinv.null hp
    exact {
      callers := by simpa using hinv.callers
      wants := forall_mem_set hinv.wants rfl
      ptr := hinv.ptr
      null := hinv.null
      returned := forall_mem_set hinv.returned nofun
      idle := nofun }
  · have hw := waiting_set hi (.returned (some (init s.inits)))
    -- a call that waits has found no pointer
    have hnone : ptr₀ = none := by
      by_contra hne
      have := (hinv.idle (Option.isSome_iff_ne_none.2 hne)).2
      simp [Caller.waits] at hw
      omega
    subst hnone
    have hknown : Known init none (s.inits + 1) (init s.inits) := ⟨s.inits, Nat.lt_succ_self _, rfl⟩
    exact {
      callers := by simpa using hinv.callers
      wants := forall_mem_set hinv.wants rfl
      ptr := fun p hp => Option.some.inj hp ▸ hknown
      null := nofun
      returned := forall_mem_set
        (fun c hc r hr => (hinv.returned c hc r hr).imp fun p hp => ⟨hp.1, hp.2.succ⟩)
        fun r hr => ⟨_, (Caller.returned.inj hr).symm, hknown⟩
      idle := nofun }

/-- The calls of `init` made and to come get more exactly by a step that is not alone. -/
theorem step_alone (hinv : Inv init ptr₀ s) (h : step init s i = some s') :
    s'.inits + s'.waiting ≤ 1 ↔ s.inits + s.waiting ≤ 1 ∧ Alone s i := by
  obtain ⟨p, hi, hp, rfl⟩ | ⟨hi, hp, rfl⟩ | ⟨hi, rfl⟩ := step_cases hinv h
  · have hw : s.inits + Sys.waiting { s with callers := s.callers.set i (.returned (some p)) } =
        s.inits + s.waiting := congrArg (s.inits + ·) (waiting_set hi (.returned (some p)))
    have halone : Alone s i := fun _ hnone => by simp [hp] at hnone
    simp only [hw, halone, and_true]
  · obtain ⟨-, hz⟩ := hinv.null hp
    have hw : Sys.waiting { s with callers := s.callers.set i (.wlock true) } = s.waiting + 1 :=
      waiting_set hi (.wlock true)
    have halone : Alone s i ↔ s.waiting = 0 := by
      rw [Sys.waiting, List.countP_eq_zero]
      simp [Alone, hi, hp]
    rw [halone, hw]
    simp only [hz]
    omega
  · have hw := waiting_set hi (.returned (some (init s.inits)))
    have halone : Alone s i := fun hr => by simp [hi] at hr
    simp only [Caller.waits, Bool.toNat_true, Bool.toNat_false, Nat.add_zero] at hw
    simp only [Sys.waiting, halone, and_true] at hw ⊢
    omega

theorem once_iff (hinv : Inv init ptr₀ s) (hdone : ∀ c ∈ s.callers, c.isReturned = true) :
    s.Once ptr₀ ↔ s.inits + s.waiting ≤ 1 := by
  have hret : ∀ c ∈ s.callers, ∃ p, c = .returned (some p) ∧ Known init ptr₀ s.inits p := by
    intro c hc
    have hd := hdone c hc
    cases c with
    | returned r =>
      obtain ⟨p, rfl, hp⟩ := hinv.returned _ hc r rfl
      exact ⟨p, rfl, hp⟩
    | _ => cases hd
  have hw : s.waiting = 0 := by
    rw [Sys.waiting, List.countP_eq_zero]
    intro c hc
    obtain ⟨p, rfl, -⟩ := hret c hc
    simp [Caller.waits]
  rw [hw, Nat.add_zero]
  cases ptr₀ with
  | some p₀ =>
    have hz := (hinv.idle rfl).1
    refine iff_of_true ⟨by simpa using hz, p₀, fun c hc => ?_⟩ (by omega)
    obtain ⟨p, rfl, hp⟩ := hret c hc
    rw [show p = p₀ from hp]
  | none =>
    constructor
    · rintro ⟨h1, -⟩
      simp at h1
      omega
    · intro hle
      obtain ⟨c, hc⟩ := List.exists_mem_of_ne_nil _ hinv.callers
      obtain ⟨-, -, k, hk, -⟩ := hret c hc
      have hone : s.inits = 1 := by omega
      refine ⟨by simpa using hone, init 0, fun c hc => ?_⟩
      obtain ⟨-, rfl, k, hk, rfl⟩ := hret c hc
      rw [show k = 0 by omega]

/-- **One call of `init`.** Calls with `cond` that have all returned have called `init` once
(not at all if there was a pointer) and returned one pointer, if and only if no call found
the pointer null while another had found it null and not yet stored its own. -/
theorem initializes_once_iff (init : ℕ → T) (ptr₀ : Option T) (n : ℕ) (schedule : List ℕ) (s : Sys T)
    (hrun : run (step init) (start ptr₀ (List.replicate (n + 1) true)) schedule = some s)
    (hdone : ∀ c ∈ s.callers, c.isReturned = true) :
    s.Once ptr₀ ↔ AllSteps (step init) Alone (start ptr₀ (List.replicate (n + 1) true)) schedule := by
  have h0 := inv_start init ptr₀ n
  have hinv : Inv init ptr₀ s := run_invariant h0 (fun s i s' hs hstep => hs.step hstep) schedule hrun
  have hstart : (start ptr₀ (List.replicate (n + 1) true)).inits +
      (start ptr₀ (List.replicate (n + 1) true)).waiting ≤ 1 := by
    simp [start, Sys.waiting, List.countP_replicate, Caller.waits]
  rw [once_iff hinv hdone,
    run_iff (I := Inv init ptr₀) (P := fun s => s.inits + s.waiting ≤ 1) (fun _ _ _ hs hstep => hs.step hstep)
      (fun _ _ _ hs hstep => step_alone hs hstep) schedule h0 hrun]
  exact and_iff_right hstart

/-- One call after the other. -/
theorem initializes_once_in_turn :
    ∃ s : Sys ℕ, run (step id) (start none [true, true]) [0, 0, 1] = some s ∧ s.Once none := by
  refine ⟨_, rfl, ?_⟩
  refine (initializes_once_iff id none 1 [0, 0, 1] _ rfl (by decide)).2 ?_
  iterate 3 rw [allSteps_cons rfl]
  exact ⟨by decide, by decide, by decide, trivial⟩

/-- Two calls find no pointer, and both make one. -/
theorem initializes_twice :
    ∃ s : Sys ℕ, run (step id) (start none [true, true]) [0, 1, 0, 1] = some s ∧ s.inits = 2 ∧
      s.callers = [.returned (some 0), .returned (some 1)] ∧ s.ptr = some 1 ∧ ¬ s.Once none := by
  refine ⟨_, rfl, rfl, rfl, rfl, ?_⟩
  rintro ⟨h, -⟩
  exact absurd h (by decide)

end LazyInitialize

end EdenCommon
