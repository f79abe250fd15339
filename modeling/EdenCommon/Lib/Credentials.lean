import Mathlib.Algebra.Notation.Defs
import Mathlib.Logic.Nontrivial.Defs

/-!
# Process credentials

The user and group ids of a process and the system calls that change them. `0` is the
superuser, and a call is privileged when the effective user id is `0`. An argument `none`
is the id `-1`, which leaves an id as it is. A call that is refused changes nothing.

`frozen_iff`: the credentials that no sequence of calls can change are those with three
equal user ids, none of them the superuser's, and three equal group ids.
-/

namespace Lib

/-- The three ids of one kind. -/
structure Ids (ι : Type*) where
  real : ι
  effective : ι
  saved : ι
  deriving DecidableEq, Repr

namespace Ids

variable {ι : Type*}

/-- One id in all three places. -/
def all (a : ι) : Ids ι := ⟨a, a, a⟩

def Has (i : Ids ι) (a : ι) : Prop := a = i.real ∨ a = i.effective ∨ a = i.saved

theorem has_all {a b : ι} : (all a).Has b ↔ b = a := by
  simp [Has, all]

theorem eq_all {i : Ids ι} {a : ι} (hr : i.real = a) (he : i.effective = a) (hs : i.saved = a) : i = all a := by
  obtain ⟨r, e, s⟩ := i
  dsimp only at hr he hs
  rw [hr, he, hs]
  rfl

end Ids

/-- The calls on the ids of one kind: `setuid`, `setreuid` and `setresuid`, and those of the groups. -/
inductive IdCall (ι : Type*)
  | set (a : ι)
  | setre (r e : Option ι)
  | setres (r e s : Option ι)
  deriving DecidableEq, Repr

section Ids

variable {ι : Type*} [DecidableEq ι]

instance (i : Ids ι) (a : ι) : Decidable (i.Has a) := inferInstanceAs (Decidable (_ ∨ _ ∨ _))

namespace Ids

def set (privileged : Bool) (a : ι) (i : Ids ι) : Option (Ids ι) :=
  if privileged then some (all a)
  else if a = i.real ∨ a = i.saved then some { i with effective := a }
  else none

/-- The saved id follows the effective one, unless the call only puts the real id in its place. -/
def setre (privileged : Bool) (r e : Option ι) (i : Ids ι) : Option (Ids ι) :=
  let real := r.getD i.real
  let effective := e.getD i.effective
  if privileged ∨ ((real = i.real ∨ real = i.effective) ∧ i.Has effective) then
    some ⟨real, effective, if r = none ∧ (e = none ∨ e = some i.real) then i.saved else effective⟩
  else none

def setres (privileged : Bool) (r e s : Option ι) (i : Ids ι) : Option (Ids ι) :=
  let j : Ids ι := ⟨r.getD i.real, e.getD i.effective, s.getD i.saved⟩
  if privileged ∨ (i.Has j.real ∧ i.Has j.effective ∧ i.Has j.saved) then some j else none

def call (privileged : Bool) (i : Ids ι) : IdCall ι → Option (Ids ι)
  | .set a => i.set privileged a
  | .setre r e => i.setre privileged r e
  | .setres r e s => i.setres privileged r e s

/-- Without privilege a call only moves ids that the process has. -/
theorem has_of_call {i j : Ids ι} {k : IdCall ι} (h : i.call false k = some j) :
    i.Has j.real ∧ i.Has j.effective ∧ i.Has j.saved := by
  cases k with
  | set a =>
    simp only [call, set, Bool.false_eq_true, if_false, Option.ite_none_right_eq_some] at h
    obtain ⟨ha, hj⟩ := h
    cases hj
    refine ⟨Or.inl rfl, ?_, Or.inr (Or.inr rfl)⟩
    obtain ha | ha := ha
    · exact Or.inl ha
    · exact Or.inr (Or.inr ha)
  | setre r e =>
    simp only [call, setre, Bool.false_eq_true, false_or, Option.ite_none_right_eq_some] at h
    obtain ⟨⟨hr, he⟩, hj⟩ := h
    cases hj
    refine ⟨?_, he, ?_⟩
    · obtain hr | hr := hr
      · exact Or.inl hr
      · exact Or.inr (Or.inl hr)
    · dsimp only
      split
      · exact Or.inr (Or.inr rfl)
      · exact he
  | setres r e s =>
    simp only [call, setres, Bool.false_eq_true, false_or, Option.ite_none_right_eq_some] at h
    obtain ⟨hhas, hj⟩ := h
    cases hj
    exact hhas

/-- With one id in all places, a call without privilege changes nothing. -/
theorem eq_of_call_all {a : ι} {j : Ids ι} {k : IdCall ι} (h : (all a).call false k = some j) : j = all a := by
  obtain ⟨hr, he, hs⟩ := has_of_call h
  exact eq_all (has_all.1 hr) (has_all.1 he) (has_all.1 hs)

/-- The effective id may be put in all three places, with privilege or without. -/
theorem setres_effective (privileged : Bool) (i : Ids ι) :
    i.setres privileged (some i.effective) (some i.effective) (some i.effective) = some (all i.effective) := by
  have hhas : i.Has i.effective := Or.inr (Or.inl rfl)
  unfold setres
  exact if_pos (Or.inr ⟨hhas, hhas, hhas⟩)

end Ids

end Ids

/-- The credentials of a process, with its supplementary groups. -/
structure Credentials (ι : Type*) where
  user : Ids ι
  group : Ids ι
  groups : List ι
  deriving DecidableEq, Repr

inductive CredentialCall (ι : Type*)
  | user (k : IdCall ι)
  | group (k : IdCall ι)
  | setgroups (groups : List ι)
  deriving DecidableEq, Repr

namespace Credentials

variable {ι : Type*} [DecidableEq ι] [Zero ι] {c : Credentials ι}

def privileged (c : Credentials ι) : Bool := c.user.effective = 0

/-- `none` when the call is refused. -/
def call (c : Credentials ι) : CredentialCall ι → Option (Credentials ι)
  | .user k => (c.user.call c.privileged k).map fun user => { c with user := user }
  | .group k => (c.group.call c.privileged k).map fun group => { c with group := group }
  | .setgroups groups => if c.privileged then some { c with groups := groups } else none

/-- What the process has after a call, refused or not. -/
def attempt (c : Credentials ι) (k : CredentialCall ι) : Credentials ι := (c.call k).getD c

/-- No sequence of calls changes the credentials. -/
def Frozen (c : Credentials ι) : Prop := ∀ calls : List (CredentialCall ι), calls.foldl attempt c = c

/-- So no call changes anything, -/
theorem call_eq_of_all {u g : ι} (hne : u ≠ 0) (hu : c.user = .all u) (hg : c.group = .all g) {k : CredentialCall ι}
    {c' : Credentials ι} (h : c.call k = some c') : c' = c := by
  have hprivileged : c.privileged = false := by
    rw [privileged, hu]
    exact decide_eq_false hne
  cases k with
  | user k =>
    simp only [call, hprivileged, hu] at h
    obtain ⟨user, huser, hc⟩ := Option.map_eq_some_iff.1 h
    rw [← hc, Ids.eq_of_call_all huser, ← hu]
  | group k =>
    simp only [call, hprivileged, hg] at h
    obtain ⟨group, hgroup, hc⟩ := Option.map_eq_some_iff.1 h
    rw [← hc, Ids.eq_of_call_all hgroup, ← hg]
  | setgroups groups =>
    simp [call, hprivileged] at h

/-- and no sequence of calls. -/
theorem frozen_of_all {u g : ι} (hne : u ≠ 0) (hu : c.user = .all u) (hg : c.group = .all g) : c.Frozen := by
  intro calls
  induction calls with
  | nil => rfl
  | cons k calls ih =>
    have hk : c.attempt k = c := by
      unfold attempt
      cases h : c.call k with
      | none => rfl
      | some c' => exact call_eq_of_all hne hu hg h
    rw [List.foldl_cons, hk]
    exact ih

theorem Frozen.eq_of_call (h : c.Frozen) {k : CredentialCall ι} {c' : Credentials ι} (hk : c.call k = some c') :
    c' = c := by
  have := h [k]
  rwa [List.foldl_cons, List.foldl_nil, attempt, hk, Option.getD_some] at this

/-- The superuser may become anyone. -/
theorem Frozen.effective_ne_zero [Nontrivial ι] (h : c.Frozen) : c.user.effective ≠ 0 := by
  intro hzero
  obtain ⟨a, ha⟩ := exists_ne (0 : ι)
  have hprivileged : c.privileged = true := decide_eq_true hzero
  have hset : c.call (.user (.set a)) = some { c with user := .all a } := by
    simp [call, Ids.call, Ids.set, hprivileged]
  rw [← h.eq_of_call hset] at hzero
  exact ha hzero

/-- **What cannot be undone.** -/
theorem frozen_iff [Nontrivial ι] : c.Frozen ↔ ∃ u g, u ≠ 0 ∧ c.user = .all u ∧ c.group = .all g := by
  constructor
  · intro h
    refine ⟨c.user.effective, c.group.effective, h.effective_ne_zero, ?_, ?_⟩
    · have hcall : c.call (.user (.setres c.user.effective c.user.effective c.user.effective)) =
          some { c with user := .all c.user.effective } := by
        rw [call, Ids.call, Ids.setres_effective, Option.map_some]
      exact (congrArg Credentials.user (h.eq_of_call hcall)).symm
    · have hcall : c.call (.group (.setres c.group.effective c.group.effective c.group.effective)) =
          some { c with group := .all c.group.effective } := by
        rw [call, Ids.call, Ids.setres_effective, Option.map_some]
      exact (congrArg Credentials.group (h.eq_of_call hcall)).symm
  · rintro ⟨u, g, hne, hu, hg⟩
    exact frozen_of_all hne hu hg

end Credentials

end Lib
