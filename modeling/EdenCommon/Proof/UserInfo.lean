import EdenCommon.Lib.Wp
import EdenCommon.Spec.UserInfo

/-!
# Dropped privileges stay dropped

`dropPrivileges_frozen_iff`: after `dropPrivileges` the process has the ids of the user for
good, exactly if the user is neither root nor `-1` and the early return has not left a saved
id behind. `scopes_restore`: scopes in scopes give back the credentials they found, and
`scope_terminated_iff` says when the destructor of an outermost scope ends the process.
`startup_frozen` puts `lookup`, the scopes and `dropPrivileges` together.

* `construct_fails_wp`, `run_fails`: with a call that always fails the first constructor
  throws, no destructor runs, and the group id may be left behind.
* `lookup_of_nonroot`, `lookup_of_root`: the user is the one who has started a setuid
  program, or the one that the variables of `sudo` name.
-/

namespace EdenCommon

open Lib

namespace UserInfo

/-! ### Ids -/

instance : Nontrivial Id := ⟨0, 1, by decide⟩

@[simp] theorem arg_uid (i : Id) : (Id.uid i).arg = some i := by
  have h : (Id.uid i).1 < 4294967295 := i.2
  rw [uid_t.arg, dif_pos h]
  rfl

/-- An id that a call takes as it is. -/
theorem uid_of_arg {u : uid_t} {i : Id} (h : u.arg = some i) : i.uid = u := by
  unfold uid_t.arg at h
  split at h
  · cases h
    rfl
  · cases h

theorem uid_injective {i j : Id} (h : i.uid = j.uid) : i = j := by
  have := congrArg uid_t.arg h
  simpa using this

/-- Only `-1` is no id. -/
theorem arg_eq_none {u : uid_t} : u.arg = none ↔ u = 4294967295 := by
  unfold uid_t.arg
  split
  · rename_i h
    refine iff_of_false (by simp) ?_
    rintro rfl
    exact absurd h (by decide)
  · rename_i h
    refine iff_of_true rfl (Fin.ext ?_)
    have := u.2
    change u.1 = 4294967295
    omega

@[simp] theorem uid_eq_zero {i : Id} : i.uid = 0 ↔ i = 0 := by
  constructor
  · intro h
    exact uid_injective h
  · rintro rfl
    rfl

theorem exists_arg {u : uid_t} (h : u ≠ 4294967295) : ∃ i, u.arg = some i :=
  Option.ne_none_iff_exists'.1 fun hnone => h (arg_eq_none.1 hnone)

/-! ### `dropPrivileges` -/

variable {sys : System} {info : UserInfo} {p p' : Process}

/-- Every id of the process is the user's. -/
def Owns (info : UserInfo) (c : Credentials Id) : Prop :=
  ∃ u g : Id, u.uid = info.uid_ ∧ g.uid = info.gid_ ∧ c.user = .all u ∧ c.group = .all g

/-- A call is made and succeeds, or it fails and the process is as before. -/
theorem wp_checked {what : String} {fails : Option Errno} {f : Process → Option Process} {Q : Unit → Process → Prop}
    {E : Failure → Process → Prop} (hQ : fails = none → ∀ p', f p = some p' → Q () p')
    (hE : fails = none → f p = none → E (.systemError what none) p)
    (hfails : fails ≠ none → E (.systemError what none) p) : wp (checked what fails f) Q E p := by
  unfold wp checked
  cases fails with
  | some errnum => exact hfails (Option.some_ne_none errnum)
  | none =>
    cases hf : f p with
    | none => exact hE rfl hf
    | some p' => exact hQ rfl p' hf

/-- The same, where it does not matter why the call fails. -/
theorem wp_checked_of_error {what : String} {fails : Option Errno} {f : Process → Option Process}
    {Q : Unit → Process → Prop} {E : Failure → Process → Prop} (hQ : fails = none → ∀ p', f p = some p' → Q () p')
    (hE : E (.systemError what none) p) : wp (checked what fails f) Q E p :=
  wp_checked hQ (fun _ _ => hE) fun _ => hE

/-- What a process does to its credentials is what the kernel does to them. -/
theorem call_credentials {k : CredentialCall Id} (h : p.call k = some p') :
    p.credentials.call k = some p'.credentials := by
  obtain ⟨c, hc, rfl⟩ := Option.map_eq_some_iff.1 h
  exact hc

/-- `initgroups` needs the privilege, and sets the groups only. -/
theorem initgroups_credentials {name : Bytes} {gid : uid_t} (h : initgroups sys name gid p = some p') :
    p.credentials.privileged ∧ p'.credentials = { p.credentials with groups := sys.getgrouplist name gid } := by
  have hcall := call_credentials h
  rw [Credentials.call, Option.ite_none_right_eq_some] at hcall
  exact ⟨hcall.1, (Option.some.inj hcall.2).symm⟩

/-- With one id for both places a privileged call sets all three, or with `-1` none. -/
theorem setre_self (i : Ids Id) (a : Option Id) : i.setre true a a = some (a.elim i .all) := by
  cases a <;> simp [Ids.setre, Ids.all]

/-- With the privilege the group ids all become the one that is given. -/
theorem setregid_self {gid : uid_t} (hp : p.credentials.privileged) (h : Process.setregid gid gid p = some p') :
    p'.credentials = { p.credentials with group := gid.arg.elim p.credentials.group .all } := by
  have hcall := call_credentials h
  rw [Credentials.call, hp, Ids.call, setre_self, Option.map_some] at hcall
  exact (Option.some.inj hcall).symm

/-- So do the user ids, and with them the privilege is gone. -/
theorem setreuid_self {uid : uid_t} (hp : p.credentials.privileged) (h : Process.setreuid uid uid p = some p') :
    p'.credentials = { p.credentials with user := uid.arg.elim p.credentials.user .all } := by
  have hcall := call_credentials h
  rw [Credentials.call, hp, Ids.call, setre_self, Option.map_some] at hcall
  exact (Option.some.inj hcall).symm

theorem restoreEnvironmentAfterSudo_credentials :
    (restoreEnvironmentAfterSudo info p).credentials = p.credentials := by
  unfold restoreEnvironmentAfterSudo
  split <;> rfl

/-- The credentials behind the three calls. -/
def dropped (sys : System) (info : UserInfo) (c : Credentials Id) : Credentials Id :=
  ⟨info.uid_.arg.elim c.user .all, info.gid_.arg.elim c.group .all, sys.getgrouplist info.username_ info.gid_⟩

/-- All that `dropPrivileges` can do to the credentials. If it throws, the user ids are
still as before, or the last call has failed and they are dropped. -/
theorem dropPrivileges_wp (sys : System) (info : UserInfo) (p : Process) :
    wp (dropPrivileges sys info)
      (fun _ p' => (isDropped info p ∧ p' = p) ∨
        (isDropped info p = false ∧ p.credentials.privileged ∧ p'.credentials = dropped sys info p.credentials))
      (fun _ p' => p'.credentials.user = p.credentials.user ∨
        (p.credentials.privileged ∧ p'.credentials = dropped sys info p.credentials)) p := by
  rw [dropPrivileges, wp_bind, wp_get]
  split
  · rename_i h
    rw [wp_pure]
    exact Or.inl ⟨h, rfl⟩
  rename_i h
  rw [wp_bind]
  refine wp_checked_of_error (fun _ p₁ h₁ => ?_) (Or.inl rfl)
  obtain ⟨hp, hc₁⟩ := initgroups_credentials h₁
  rw [wp_bind]
  have hp₁ : p₁.credentials.privileged := by rw [hc₁]; exact hp
  refine wp_checked_of_error (fun _ p₂ h₂ => ?_) (Or.inl (by rw [hc₁]))
  have hc₂ := setregid_self hp₁ h₂
  rw [wp_bind]
  have hp₂ : p₂.credentials.privileged := by rw [hc₂]; exact hp₁
  refine wp_checked_of_error (fun _ p₃ h₃ => ?_) (Or.inl (by rw [hc₂, hc₁]))
  have hc₃ : p₃.credentials = dropped sys info p.credentials := by
    rw [setreuid_self hp₂ h₃, hc₂, hc₁]
    rfl
  rw [wp_bind]
  refine wp_checked_of_error (fun _ p₄ h₄ => ?_) (Or.inr ⟨hp, hc₃⟩)
  cases h₄
  rw [wp_modify]
  exact Or.inr ⟨by simpa using h, hp, by rw [restoreEnvironmentAfterSudo_credentials]; exact hc₃⟩

/-- **What has been dropped** is frozen and the user's, unless the user is root or one of the ids is
`-1`. -/
theorem owns_dropped_iff {c : Credentials Id} :
    (dropped sys info c).Frozen ∧ Owns info (dropped sys info c) ↔
      info.uid_ ≠ 0 ∧ info.uid_ ≠ 4294967295 ∧ info.gid_ ≠ 4294967295 := by
  constructor
  · rintro ⟨hfrozen, u, g, hu, hg, huser, hgroup⟩
    refine ⟨fun hzero => ?_, ?_, ?_⟩
    · have hne := hfrozen.effective_ne_zero
      rw [huser] at hne
      exact hne (uid_eq_zero.1 (hu.trans hzero))
    · rw [← hu]
      intro h
      have := arg_eq_none.2 h
      simp at this
    · rw [← hg]
      intro h
      have := arg_eq_none.2 h
      simp at this
  · rintro ⟨hzero, hu, hg⟩
    obtain ⟨u, hu⟩ := exists_arg hu
    obtain ⟨g, hg⟩ := exists_arg hg
    have hdropped : dropped sys info c = ⟨.all u, .all g, sys.getgrouplist info.username_ info.gid_⟩ := by
      rw [dropped, hu, hg]
      rfl
    have hne : u ≠ 0 := by
      rintro rfl
      exact hzero (uid_of_arg hu).symm
    rw [hdropped]
    exact ⟨Credentials.frozen_iff.2 ⟨u, g, hne, rfl, rfl⟩, u, g, uid_of_arg hu, uid_of_arg hg, rfl, rfl⟩

/-- The early return looks at real and effective ids, and not at the saved ones. -/
theorem isDropped_iff : isDropped info p ↔
    info.uid_ = p.getuid ∧ info.uid_ = p.geteuid ∧ info.gid_ = p.getgid ∧ info.gid_ = p.getegid := by
  simp [isDropped, and_assoc]

/-- **For good or not.** After `dropPrivileges` no call changes the credentials any more and
all of them are the user's, exactly if the user is neither root nor `-1`, the group is not `-1`,
and, where there was nothing to drop, the saved ids are the user's too. -/
theorem dropPrivileges_frozen_iff (sys : System) (info : UserInfo) (p p' : Process)
    (h : dropPrivileges sys info p = .ok () p') :
    (p'.credentials.Frozen ∧ Owns info p'.credentials) ↔
      info.uid_ ≠ 0 ∧ info.uid_ ≠ 4294967295 ∧ info.gid_ ≠ 4294967295 ∧
        (isDropped info p → p.credentials.user.saved.uid = info.uid_ ∧ p.credentials.group.saved.uid = info.gid_) := by
  obtain ⟨hd, rfl⟩ | ⟨hd, -, hc⟩ := (dropPrivileges_wp sys info p).ok h
  · obtain ⟨hu, he, hg, hge⟩ := isDropped_iff.1 hd
    have hvalid : info.uid_ ≠ 4294967295 ∧ info.gid_ ≠ 4294967295 := by
      constructor
      · intro hneg
        have := arg_eq_none.2 (hu.symm.trans hneg)
        simp [Process.getuid] at this
      · intro hneg
        have := arg_eq_none.2 (hg.symm.trans hneg)
        simp [Process.getgid] at this
    constructor
    · rintro ⟨hfrozen, u, g, hu', hg', huser, hgroup⟩
      refine ⟨fun hzero => ?_, hvalid.1, hvalid.2, fun _ => ⟨?_, ?_⟩⟩
      · have hne := hfrozen.effective_ne_zero
        rw [huser] at hne
        exact hne (uid_eq_zero.1 (hu'.trans hzero))
      · rw [huser]
        exact hu'
      · rw [hgroup]
        exact hg'
    · rintro ⟨hzero, -, -, hsaved⟩
      obtain ⟨hs, hgs⟩ := hsaved hd
      have huser : p'.credentials.user = .all p'.credentials.user.real :=
        Ids.eq_all rfl (uid_injective (he.symm.trans hu)) (uid_injective (hs.trans hu))
      have hgroup : p'.credentials.group = .all p'.credentials.group.real :=
        Ids.eq_all rfl (uid_injective (hge.symm.trans hg)) (uid_injective (hgs.trans hg))
      have hne : p'.credentials.user.real ≠ 0 := by
        intro h0
        rw [hu, Process.getuid, h0] at hzero
        exact hzero rfl
      exact ⟨Credentials.frozen_iff.2 ⟨_, _, hne, huser, hgroup⟩, _, _, hu.symm, hg.symm, huser, hgroup⟩
  · rw [hc, owns_dropped_iff]
    simp [hd]

/-- A program under `sudo` for user 7 and group 8. -/
def sudoProcess : Process where
  credentials := ⟨.all 0, .all 0, []⟩
  environ := [("SUDO_UID", [0x37]), ("SUDO_GID", [0x38]), ("SUDO_USER", [0x61]), ("HOME", [0x2F])]
  dumpable := true

def sudoSystem : System where
  P := .posix
  getcwd := .ok (.root .posix)
  getpwuid_r := fun _ _ => .ok (some ⟨[0x61], some [0x2F]⟩)
  getgrouplist := fun _ gid => gid.arg.toList
  toUid := fun value => if value = [0x37] then some 7 else if value = [0x38] then some 8 else none
  fails := fun _ => none

def sudoInfo : UserInfo := ⟨7, 8, [0x61], .root .posix⟩

theorem dropPrivileges_frozen_sudo : ∃ p', dropPrivileges sudoSystem sudoInfo sudoProcess = .ok () p' ∧
    p'.credentials.Frozen ∧ Owns sudoInfo p'.credentials := by
  have hdrop : dropPrivileges sudoSystem sudoInfo sudoProcess =
      .ok () ⟨⟨.all 7, .all 8, [8]⟩,
        [("LOGNAME", [0x61]), ("USERNAME", [0x61]), ("USER", [0x61]), ("HOME", [0x2F])], true⟩ := rfl
  exact ⟨_, hdrop, (dropPrivileges_frozen_iff _ _ _ _ hdrop).2 (by decide)⟩

end UserInfo

namespace EffectiveUserScope

open UserInfo

variable {sys : System} {info : UserInfo} {p p' : Process} {r e rg eg u g : Id} {groups : List Id}

/-- The ids around a scope: the saved ids are the effective ones, and a process without
privilege is in the scope of a root process. -/
structure Around (c : Credentials Id) (r e rg eg : Id) : Prop where
  user : c.user = ⟨r, e, e⟩
  group : c.group = ⟨rg, eg, eg⟩
  inside : e = 0 ∨ (r = 0 ∧ rg = eg)

/-- The ids that a scope for `u` and `g` sets. -/
def entered (c : Credentials Id) (u g : Id) : Credentials Id := ⟨⟨0, u, u⟩, .all g, c.groups⟩

/-- Inside a scope the credentials are again such that a scope may be opened. -/
theorem around_entered (c : Credentials Id) : Around (entered c u g) 0 u g g :=
  ⟨rfl, rfl, Or.inr ⟨rfl, rfl⟩⟩

theorem setre_some {i : Ids Id} {privileged : Bool} {a b : Id} : i.setre privileged (some a) (some b) =
    if privileged ∨ ((a = i.real ∨ a = i.effective) ∧ i.Has b) then some ⟨a, b, b⟩ else none := by
  simp [Ids.setre]

/-- `setregid` with two ids, by the rules of the kernel. -/
theorem setregid_eq {rgid egid : uid_t} {a b : Id} (hr : rgid.arg = some a) (he : egid.arg = some b) :
    (Process.setregid rgid egid p).map Process.credentials =
      if p.credentials.privileged ∨
          ((a = p.credentials.group.real ∨ a = p.credentials.group.effective) ∧ p.credentials.group.Has b) then
        some { p.credentials with group := ⟨a, b, b⟩ }
      else none := by
  rw [Process.setregid, Process.call, Credentials.call, Ids.call, hr, he, setre_some]
  split <;> rfl

/-- `setreuid` with two ids, by the rules of the kernel. -/
theorem setreuid_eq {ruid euid : uid_t} {a b : Id} (hr : ruid.arg = some a) (he : euid.arg = some b) :
    (Process.setreuid ruid euid p).map Process.credentials =
      if p.credentials.privileged ∨
          ((a = p.credentials.user.real ∨ a = p.credentials.user.effective) ∧ p.credentials.user.Has b) then
        some { p.credentials with user := ⟨a, b, b⟩ }
      else none := by
  rw [Process.setreuid, Process.call, Credentials.call, Ids.call, hr, he, setre_some]
  split <;> rfl

/-- A call of a scope, by what it does to the credentials. -/
theorem wp_call {what : String} {fails : Option UserInfo.Errno} {f : Process → Option Process} {allowed : Prop} [Decidable allowed]
    {c : Credentials Id} {Q : Unit → Process → Prop} {E : Failure → Process → Prop} (hfails : fails = none)
    (hf : (f p).map Process.credentials = if allowed then some c else none)
    (hQ : allowed → ∀ p', p'.credentials = c → Q () p') (hE : ¬ allowed → E (.systemError what none) p) :
    wp (checked what fails f) Q E p := by
  by_cases h : allowed
  · rw [if_pos h] at hf
    obtain ⟨p', hp', hc⟩ := Option.map_eq_some_iff.1 hf
    refine wp_checked (fun _ p'' hp'' => ?_) (fun _ hnone => ?_) fun hne => absurd hfails hne
    · rw [hp'] at hp''
      cases hp''
      exact hQ h p' hc
    · rw [hp'] at hnone
      cases hnone
  · rw [if_neg h] at hf
    have hnone := Option.map_eq_none_iff.1 hf
    refine wp_checked (fun _ p'' hp'' => ?_) (fun _ _ => hE h) fun hne => absurd hfails hne
    rw [hnone] at hp''
    cases hp''

/-- The constructor gives the ids of the user or leaves the credentials as they are. -/
theorem construct_wp (hsys : sys.Reliable) (hp : Around p.credentials r e rg eg) (hu : info.uid_.arg = some u) (hg : info.gid_.arg = some g) :
    wp (construct sys info)
      (fun scope p' => scope = ⟨r.uid, e.uid, rg.uid, eg.uid⟩ ∧ p'.credentials = entered p.credentials u g ∧
        (e = 0 ∨ (g = eg ∧ (u = 0 ∨ u = e))))
      (fun _ p' => p'.credentials = p.credentials ∧ e ≠ 0) p := by
  have hprivileged : p.credentials.privileged ↔ e = 0 := by
    rw [Credentials.privileged, hp.user]
    exact decide_eq_true_iff
  rw [construct, wp_bind, wp_get, wp_bind]
  refine wp_call hsys.1 (setregid_eq hg hg) (fun hallowed p₁ hp₁ => ?_) fun hnot =>
    ⟨rfl, fun h => hnot (Or.inl (hprivileged.2 h))⟩
  have hprivileged₁ : p₁.credentials.privileged ↔ e = 0 := by rw [hp₁]; exact hprivileged
  have hgroup : e = 0 ∨ (r = 0 ∧ rg = eg ∧ g = eg) := by
    obtain h | ⟨hr, hrg⟩ := hp.inside
    · exact Or.inl h
    · obtain h | ⟨-, h⟩ := hallowed
      · exact Or.inl (hprivileged.1 h)
      · rw [hp.group, hrg, Ids.Has] at h
        exact Or.inr ⟨hr, hrg, by simpa using h⟩
  rw [wp_bind]
  refine wp_call hsys.2 (setreuid_eq (arg_uid 0) hu) (fun hallowed p₂ hp₂ => ?_) fun hnot => ?_
  · rw [wp_pure]
    refine ⟨?_, by rw [hp₂, hp₁]; rfl, ?_⟩
    · simp only [Process.getuid, Process.geteuid, Process.getgid, Process.getegid, hp.user, hp.group]
    · obtain h | ⟨hr, hrg, hg⟩ := hgroup
      · exact Or.inl h
      · obtain h | ⟨-, h⟩ := hallowed
        · exact Or.inl (hprivileged₁.1 h)
        · rw [hp₁, hp.user, hr, Ids.Has] at h
          exact Or.inr ⟨hg, by simpa using h⟩
  · have hne : e ≠ 0 := fun h => hnot (Or.inl (hprivileged₁.2 h))
    obtain h | ⟨hr, hrg, hg⟩ := hgroup
    · exact absurd h hne
    · refine ⟨?_, hne⟩
      rw [hp₁, hg]
      have : (⟨eg, eg, eg⟩ : Ids Id) = p.credentials.group := by rw [hp.group, hrg]
      rw [this]

/-- The destructor gives back the credentials from before the scope, if it may. -/
theorem destroy_wp {c : Credentials Id} (hsys : sys.Reliable) (hc : Around c r e rg eg) (hp : p.credentials = entered c u g)
    (henter : e = 0 ∨ (g = eg ∧ (u = 0 ∨ u = e))) :
    wp (destroy sys ⟨r.uid, e.uid, rg.uid, eg.uid⟩)
      (fun _ p' => p'.credentials = c ∧ (u = 0 ∨ r = 0 ∨ r = u))
      (fun _ _ => u ≠ 0 ∧ r ≠ 0 ∧ r ≠ u) p := by
  have hprivileged : p.credentials.privileged ↔ u = 0 := by
    rw [Credentials.privileged, hp]
    exact decide_eq_true_iff
  rw [destroy, wp_bind]
  refine wp_call hsys.2 (setreuid_eq (arg_uid r) (arg_uid e)) (fun hallowed p₁ hp₁ => ?_) fun hnot => ?_
  · have hprivileged₁ : p₁.credentials.privileged ↔ e = 0 := by
      rw [Credentials.privileged, hp₁]
      exact decide_eq_true_iff
    have hr : u = 0 ∨ r = 0 ∨ r = u := by
      obtain h | ⟨h, -⟩ := hallowed
      · exact Or.inl (hprivileged.1 h)
      · rw [hp] at h
        exact Or.inr h
    refine wp_call hsys.1 (setregid_eq (arg_uid rg) (arg_uid eg)) (fun _ p₂ hp₂ => ⟨?_, hr⟩) fun hnot => ?_
    · rw [hp₂, hp₁, hp, ← hc.user, ← hc.group]
      rfl
    · exfalso
      apply hnot
      obtain h | ⟨hg, -⟩ := henter
      · exact Or.inl (hprivileged₁.2 h)
      · obtain h | ⟨-, hrg⟩ := hc.inside
        · exact Or.inl (hprivileged₁.2 h)
        · refine Or.inr ?_
          rw [hp₁, hp, hrg, ← hg]
          exact ⟨Or.inl rfl, Or.inl rfl⟩
  · have hne : u ≠ 0 := fun h => hnot (Or.inl (hprivileged.2 h))
    have hhas : p.credentials.user.Has e := by
      rw [hp]
      obtain h | ⟨-, h | h⟩ := henter
      · exact Or.inl h
      · exact absurd h hne
      · exact Or.inr (Or.inl h.symm)
    have hreal : ¬ (r = 0 ∨ r = u) := by
      intro h
      apply hnot
      rw [hp] at hhas ⊢
      exact Or.inr ⟨h, hhas⟩
    rw [not_or] at hreal
    exact ⟨hne, hreal⟩

/-! ### Scopes in scopes -/

theorem outermost_subset {b : Body} : ∀ {i : UserInfo}, i ∈ b.outermost → i ∈ b.users := by
  induction b with
  | done => intro i hi; exact hi
  | throws => intro i hi; exact hi
  | action rest ih => intro i hi; exact ih hi
  | scope info inner rest _ ih =>
    intro i hi
    obtain rfl | hi := List.mem_cons.1 hi
    · exact List.mem_cons_self
    · exact List.mem_cons_of_mem _ (List.mem_append_right _ (ih hi))

/-- What an action may see: the ids of the scope it is in, or outside all scopes those from before. -/
def Sees (current : Option UserInfo) (c : Credentials Id) (x : Option UserInfo × Credentials Id) : Prop :=
  x = (current, c) ∨ ∃ info, x.1 = some info ∧ x.2.user.effective.uid = info.uid_ ∧ x.2.group.effective.uid = info.gid_

/-- The outermost scopes that a process with real id `r` can leave again. -/
def CanLeave (r : Id) (b : Body) : Prop := r = 0 ∨ ∀ info ∈ b.outermost, info.uid_ = 0 ∨ info.uid_ = r.uid

def Valid (info : UserInfo) : Prop := info.uid_ ≠ 4294967295 ∧ info.gid_ ≠ 4294967295

instance (info : UserInfo) : Decidable (Valid info) := inferInstanceAs (Decidable (_ ∧ _))

/-- What an action inside a scope sees is what one in the body with the scope should see. -/
theorem Sees.of_inside {current : Option UserInfo} {c c₁ : Credentials Id} {x : Option UserInfo × Credentials Id}
    (hu : info.uid_.arg = some u) (hg : info.gid_.arg = some g) (hc₁ : c₁ = entered c u g) (h : Sees (some info) c₁ x) :
    Sees current c x := by
  obtain rfl | h := h
  · refine Or.inr ⟨info, rfl, ?_, ?_⟩
    · rw [hc₁]
      exact uid_of_arg hu
    · rw [hc₁]
      exact uid_of_arg hg
  · exact Or.inr h

/-- The destructor of the first scope does not end the process. -/
theorem CanLeave.scope {inner rest : Body} (hleave : CanLeave r (.scope info inner rest)) (hu : info.uid_.arg = some u) :
    ¬ (u ≠ 0 ∧ r ≠ 0 ∧ r ≠ u) := by
  rintro ⟨hu0, hr0, hru⟩
  obtain h | h := hleave
  · exact absurd h hr0
  · obtain h | h := h info List.mem_cons_self
    · exact absurd (uid_eq_zero.1 ((uid_of_arg hu).trans h)) hu0
    · exact absurd (uid_injective ((uid_of_arg hu).trans h)).symm hru

/-- Nor does one behind it. -/
theorem CanLeave.rest {inner rest : Body} (hleave : CanLeave r (.scope info inner rest)) : CanLeave r rest :=
  hleave.imp_right fun h i hi => h i (List.mem_cons_of_mem _ hi)

/-- **A body**, by its structure: it gives back the credentials, and its actions see what they should.
-/
theorem run_spec (hsys : sys.Reliable) (b : Body) : ∀ (current : Option UserInfo) (p : Process) {r e rg eg : Id},
    Around p.credentials r e rg eg → (∀ info ∈ b.users, Valid info) → CanLeave r b →
      (b.run sys current p).exit ≠ .terminated ∧ (b.run sys current p).process.credentials = p.credentials ∧
        ∀ x ∈ (b.run sys current p).seen, Sees current p.credentials x := by
  induction b with
  | done =>
    intro current p r e rg eg _ _ _
    exact ⟨by simp [Body.run], rfl, by simp [Body.run]⟩
  | throws =>
    intro current p r e rg eg _ _ _
    exact ⟨by simp [Body.run], rfl, by simp [Body.run]⟩
  | action rest ih =>
    intro current p r e rg eg hp hvalid hleave
    obtain ⟨hexit, hc, hseen⟩ := ih current p hp hvalid hleave
    refine ⟨hexit, hc, fun x hx => ?_⟩
    obtain rfl | hx := List.mem_cons.1 hx
    · exact Or.inl rfl
    · exact hseen x hx
  | scope info inner rest ihi ihr =>
    intro current p r e rg eg hp hvalid hleave
    obtain ⟨hu, hg⟩ := hvalid info List.mem_cons_self
    obtain ⟨u, hu⟩ := exists_arg hu
    obtain ⟨g, hg⟩ := exists_arg hg
    have hconstruct := construct_wp hsys hp hu hg
    rw [Body.run]
    cases hentered : construct sys info p with
    | error err p₁ =>
      exact ⟨by simp, (hconstruct.error hentered).1, by simp⟩
    | ok scope p₁ =>
      obtain ⟨rfl, hc₁, henter⟩ := hconstruct.ok hentered
      have hp₁ : Around p₁.credentials 0 u g g := by rw [hc₁]; exact around_entered p.credentials
      obtain ⟨hexit, hc, hseen⟩ := ihi (some info) p₁ hp₁
        (fun i hi => hvalid i (List.mem_cons_of_mem _ (List.mem_append_left _ hi))) (Or.inl rfl)
      dsimp only
      rw [if_neg hexit]
      have hdestroy := destroy_wp hsys (p := (inner.run sys (some info) p₁).process) hp (hc.trans hc₁) henter
      have hin : ∀ x ∈ (inner.run sys (some info) p₁).seen, Sees current p.credentials x :=
        fun x hx => (hseen x hx).of_inside hu hg hc₁
      cases hdestroyed : destroy sys ⟨r.uid, e.uid, rg.uid, eg.uid⟩ (inner.run sys (some info) p₁).process with
      | error err p₂ => exact absurd (hdestroy.error hdestroyed) (hleave.scope hu)
      | ok _ p₂ =>
        have hc₂ := (hdestroy.ok hdestroyed).1
        dsimp only
        split
        · exact ⟨by simp, hc₂, hin⟩
        · obtain ⟨hexit', hc', hseen'⟩ := ihr current p₂ (by rw [hc₂]; exact hp)
            (fun i hi => hvalid i (List.mem_cons_of_mem _ (List.mem_append_right _ hi))) hleave.rest
          refine ⟨hexit', hc'.trans hc₂, fun x hx => ?_⟩
          obtain hx | hx := List.mem_append.1 hx
          · exact hin x hx
          · have := hseen' x hx
            rwa [hc₂] at this

/-- A program that has started as root may open a scope. -/
theorem around_of_started {c : Credentials Id} (h : Started c) :
    Around c c.user.real 0 c.group.real c.group.effective := by
  have huser := h.user
  rw [h.root] at huser
  refine ⟨?_, ?_, Or.inl rfl⟩
  · exact congr (congrArg (Ids.mk c.user.real) h.root) huser
  · exact congrArg (Ids.mk c.group.real c.group.effective) h.group

/-! ### Calls that fail for other reasons -/

/-- The credentials that a constructor leaves when it throws: those from before, or the group ids are
the user's already. -/
def LeftBehind (sys : System) (b : Body) (c c' : Credentials Id) : Prop :=
  c' = c ∨ (sys.fails .setregid = none ∧ sys.fails .setreuid ≠ none ∧
    ∃ info ∈ b.outermost, ∃ g : Id, g.uid = info.gid_ ∧ c' = { c with group := .all g })

/-- With a call that always fails no scope is made. The second call finds the group ids changed. -/
theorem construct_fails_wp (hsys : ¬ sys.Reliable) (hp : p.credentials.privileged) (hg : info.gid_.arg = some g) :
    wp (construct sys info) (fun _ _ => False)
      (fun _ p' => p'.credentials = p.credentials ∨ (sys.fails .setregid = none ∧ sys.fails .setreuid ≠ none ∧
        p'.credentials = { p.credentials with group := .all g })) p := by
  rw [construct, wp_bind, wp_get, wp_bind]
  refine wp_checked_of_error (fun hsetregid p₁ hp₁ => ?_) (Or.inl rfl)
  have hsetreuid : sys.fails .setreuid ≠ none := fun h => hsys ⟨hsetregid, h⟩
  have hc₁ := setregid_self hp hp₁
  rw [hg, Option.elim_some] at hc₁
  rw [wp_bind]
  exact wp_checked_of_error (fun h _ _ => absurd h hsetreuid) (Or.inr ⟨hsetregid, hsetreuid, hc₁⟩)

/-- The first constructor throws, and no destructor runs. -/
theorem run_fails (hsys : ¬ sys.Reliable) (b : Body) (hp : p.credentials.privileged)
    (hvalid : ∀ info ∈ b.users, Valid info) :
    (b.run sys none p).exit ≠ .terminated ∧ LeftBehind sys b p.credentials (b.run sys none p).process.credentials ∧
      ∀ x ∈ (b.run sys none p).seen, Sees none p.credentials x := by
  induction b with
  | done => exact ⟨by simp [Body.run], Or.inl rfl, by simp [Body.run]⟩
  | throws => exact ⟨by simp [Body.run], Or.inl rfl, by simp [Body.run]⟩
  | action rest ih =>
    obtain ⟨hexit, hleft, hseen⟩ := ih hvalid
    refine ⟨hexit, hleft, fun x hx => ?_⟩
    obtain rfl | hx := List.mem_cons.1 hx
    · exact Or.inl rfl
    · exact hseen x hx
  | scope info inner rest _ _ =>
    obtain ⟨g, hg⟩ := exists_arg (hvalid info List.mem_cons_self).2
    have hconstruct := construct_fails_wp hsys hp hg
    rw [Body.run]
    cases hentered : construct sys info p with
    | ok scope p₁ => exact absurd (hconstruct.ok hentered) not_false
    | error err p₁ =>
      refine ⟨by simp, (hconstruct.error hentered).imp_right ?_, by simp⟩
      rintro ⟨hsetregid, hsetreuid, hc⟩
      exact ⟨hsetregid, hsetreuid, info, List.mem_cons_self, g, uid_of_arg hg, hc⟩

theorem privileged_of_started {c : Credentials Id} (h : Started c) : c.privileged := by
  rw [Credentials.privileged, h.root]
  rfl

/-- Both kinds of systems together. -/
theorem scopes_restore_of_started (sys : System) (b : Body) {p : Process} (hp : Started p.credentials)
    (hvalid : ∀ info ∈ b.users, Valid info) (hleave : CanLeave p.credentials.user.real b) :
    (b.run sys none p).exit ≠ .terminated ∧ LeftBehind sys b p.credentials (b.run sys none p).process.credentials ∧
      ∀ x ∈ (b.run sys none p).seen, Sees none p.credentials x := by
  by_cases hsys : sys.Reliable
  · obtain ⟨hexit, hc, hseen⟩ := run_spec hsys b none p (around_of_started hp) hvalid hleave
    exact ⟨hexit, Or.inl hc, hseen⟩
  · exact run_fails hsys b (privileged_of_started hp) hvalid

/-- **Scopes restore.** A process that has started with the privileges of root opens scopes in
scopes, for any users, and returns from them or throws. Its credentials are then what they were,
and every action in a scope had the effective ids of the innermost one. Under `sudo` this is so
for all users; with another real user the outermost scopes must be for that one or for root. Only if
`setreuid` fails for another reason than permission do the group ids of the first scope stay. -/
theorem scopes_restore (sys : System) (b : Body) (p : Process) (hp : Started p.credentials)
    (hvalid : ∀ info ∈ b.users, Valid info) (hleave : CanLeave p.credentials.user.real b) :
    (b.run sys none p).exit ≠ .terminated ∧
      ((b.run sys none p).process.credentials = p.credentials ∨
        (sys.fails .setregid = none ∧ sys.fails .setreuid ≠ none ∧ ∃ info ∈ b.outermost, ∃ g : Id,
          g.uid = info.gid_ ∧ (b.run sys none p).process.credentials = { p.credentials with group := .all g })) ∧
      ∀ x ∈ (b.run sys none p).seen, x = (none, p.credentials) ∨
        ∃ info, x.1 = some info ∧ x.2.user.effective.uid = info.uid_ ∧ x.2.group.effective.uid = info.gid_ :=
  scopes_restore_of_started sys b hp hvalid hleave

theorem scopes_restore_sudo :
    ((Body.scope sudoInfo (.action (.scope sudoInfo .throws .done)) .done).run sudoSystem none
        sudoProcess).process.credentials = sudoProcess.credentials :=
  (scopes_restore sudoSystem (.scope sudoInfo (.action (.scope sudoInfo .throws .done)) .done) sudoProcess
    ⟨rfl, rfl, rfl⟩ (by decide) (Or.inl rfl)).2.1.resolve_right fun h => h.2.1 rfl

end EffectiveUserScope

namespace UserInfo

/-! ### `lookup` -/

variable {sys : System} {info : UserInfo} {p p' : Process}

/-- The identity of the passwd entry has the real group. -/
theorem initFromPasswd_ok {uid : uid_t} (h : initFromPasswd sys p uid = .ok info) :
    info.uid_ = uid ∧ info.gid_ = p.getgid ∧ ∃ pwd, getPasswdUid sys uid = .ok pwd ∧ info.username_ = pwd.pw_name := by
  unfold initFromPasswd at h
  cases hpwd : getPasswdUid sys uid with
  | error e => simp [hpwd, bind, Except.bind] at h
  | ok pwd =>
    cases hdir : initHomedir sys p uid (some pwd) with
    | error e => simp [hpwd, hdir, bind, Except.bind] at h
    | ok dir =>
      simp only [hpwd, hdir, bind, Except.bind, pure, Except.pure] at h
      cases h
      exact ⟨rfl, rfl, pwd, rfl, rfl⟩

theorem parseSudo_ok {what : String} {value : Bytes} {uid : uid_t} (h : parseSudo sys what value = .ok uid) :
    sys.toUid value = some uid := by
  unfold parseSudo at h
  split at h
  · rename_i id hid
    cases h
    exact hid
  · cases h

/-- With `SUDO_UID` set, the identity is what the `SUDO_` variables say. -/
theorem initFromSudo_ok {found : Option UserInfo} (h : initFromSudo sys p = .ok found) :
    match found with
    | none => p.getenv "SUDO_UID" = none
    | some info => ∃ uidText gidText, p.getenv "SUDO_UID" = some uidText ∧ p.getenv "SUDO_GID" = some gidText ∧
        sys.toUid uidText = some info.uid_ ∧ sys.toUid gidText = some info.gid_ ∧
        p.getenv "SUDO_USER" = some info.username_ := by
  unfold initFromSudo at h
  split at h
  · rename_i hnone
    cases h
    exact hnone
  rename_i uidText huid
  split at h
  · cases h
  rename_i gidText hgid
  split at h
  · cases h
  rename_i name hname
  cases hu : parseSudo sys "invalid value for SUDO_UID: " uidText with
  | error e => simp [hu, bind, Except.bind] at h
  | ok uid =>
    cases hg : parseSudo sys "invalid value for SUDO_GID: " gidText with
    | error e => simp [hu, hg, bind, Except.bind] at h
    | ok gid =>
      cases hdir : initHomedir sys p uid none with
      | error e => simp [hu, hg, hdir, bind, Except.bind] at h
      | ok dir =>
        simp only [hu, hg, hdir, bind, Except.bind, pure, Except.pure] at h
        cases h
        exact ⟨uidText, gidText, huid, hgid, parseSudo_ok hu, parseSudo_ok hg, hname⟩

/-- **In a setuid program** the user is the one who has started it. -/
theorem lookup_of_nonroot (hr : p.getuid ≠ 0) (h : lookup sys p = .ok info) :
    info.uid_ = p.getuid ∧ info.gid_ = p.getgid ∧
      ∃ pwd, getPasswdUid sys p.getuid = .ok pwd ∧ info.username_ = pwd.pw_name := by
  rw [lookup, if_pos hr] at h
  exact initFromPasswd_ok h

/-- **Under `sudo`** the user is the one that the variables name. -/
theorem lookup_of_root (hr : p.getuid = 0) (h : lookup sys p = .ok info) (hne : info.uid_ ≠ 0) :
    ∃ uidText gidText, p.getenv "SUDO_UID" = some uidText ∧ p.getenv "SUDO_GID" = some gidText ∧
      sys.toUid uidText = some info.uid_ ∧ sys.toUid gidText = some info.gid_ ∧
      p.getenv "SUDO_USER" = some info.username_ := by
  rw [lookup, if_neg (not_not.2 hr)] at h
  cases hsudo : initFromSudo sys p with
  | error e => simp [hsudo, bind, Except.bind] at h
  | ok found =>
    have hfound := initFromSudo_ok hsudo
    cases found with
    | none =>
      simp only [hsudo, bind, Except.bind] at h
      exact absurd ((initFromPasswd_ok h).1.trans hr) hne
    | some info' =>
      simp only [hsudo, bind, Except.bind, pure, Except.pure] at h
      cases h
      exact hfound

/-! ### From the start to the dropped privileges -/

/-- The user of a setuid program may be dropped to. -/
theorem valid_of_nonroot {sys : System} {p : Process} {info : UserInfo} (hr : p.getuid ≠ 0)
    (hlookup : lookup sys p = .ok info) : info.uid_ ≠ 0 ∧ EffectiveUserScope.Valid info := by
  obtain ⟨hu, hg, -⟩ := lookup_of_nonroot hr hlookup
  rw [EffectiveUserScope.Valid, hu, hg]
  refine ⟨hr, fun h => ?_, fun h => ?_⟩
  · have := arg_eq_none.2 h
    simp [Process.getuid] at this
  · have := arg_eq_none.2 h
    simp [Process.getgid] at this

/-- The scopes of a program for its own user can be left again. -/
theorem canLeave_of_lookup {sys : System} {p : Process} {info : UserInfo} {b : EffectiveUserScope.Body}
    (hlookup : lookup sys p = .ok info) (hb : ∀ i ∈ b.users, i = info) :
    EffectiveUserScope.CanLeave p.credentials.user.real b := by
  by_cases hr : p.getuid = 0
  · exact Or.inl (uid_eq_zero.1 hr)
  · refine Or.inr fun i hi => Or.inr ?_
    have hmem := EffectiveUserScope.outermost_subset hi
    rw [hb i hmem]
    exact (lookup_of_nonroot hr hlookup).1

/-- **The user for good.** A program that starts with the privileges of root looks up its
user, opens any scopes for this user and drops its privileges. It has then exactly the ids of
the user, whatever calls follow. The user is the one who has started a setuid program, whatever
its environment says, and under `sudo` the one that the `SUDO_` variables name. -/
theorem startup_frozen (sys : System) (p p' : Process) (info : UserInfo) (b : EffectiveUserScope.Body)
    (hp : Started p.credentials) (hlookup : lookup sys p = .ok info) (hb : ∀ i ∈ b.users, i = info)
    (hinfo : p.getuid = 0 → info.uid_ ≠ 0 ∧ EffectiveUserScope.Valid info)
    (hdrop : dropPrivileges sys info (b.run sys none p).process = .ok () p') :
    (b.run sys none p).exit ≠ .terminated ∧
      (∀ calls : List (CredentialCall Id), calls.foldl Credentials.attempt p'.credentials = p'.credentials) ∧
      Owns info p'.credentials ∧ p'.credentials.groups = sys.getgrouplist info.username_ info.gid_ ∧
      (p.getuid ≠ 0 → info.uid_ = p.getuid ∧ info.gid_ = p.getgid ∧
        ∃ pwd, getPasswdUid sys p.getuid = .ok pwd ∧ info.username_ = pwd.pw_name) ∧
      (p.getuid = 0 → ∃ uidText gidText, p.getenv "SUDO_UID" = some uidText ∧ p.getenv "SUDO_GID" = some gidText ∧
        sys.toUid uidText = some info.uid_ ∧ sys.toUid gidText = some info.gid_ ∧
        p.getenv "SUDO_USER" = some info.username_) := by
  have hgood : info.uid_ ≠ 0 ∧ EffectiveUserScope.Valid info := by
    by_cases hr : p.getuid = 0
    · exact hinfo hr
    · exact valid_of_nonroot hr hlookup
  obtain ⟨hexit, hleft, -⟩ := EffectiveUserScope.scopes_restore_of_started sys b hp
    (fun i hi => by rw [hb i hi]; exact hgood.2) (canLeave_of_lookup hlookup hb)
  -- whatever a constructor may leave behind, the user ids are those from the start
  have hroot : (b.run sys none p).process.credentials.user.effective = 0 := by
    obtain hc | ⟨-, -, _, -, _, -, hc⟩ := hleft
    · rw [hc]
      exact hp.root
    · rw [hc]
      exact hp.root
  obtain ⟨hd, -⟩ | ⟨-, -, hdropped⟩ := (dropPrivileges_wp sys info _).ok hdrop
  · -- root is not the user, so there is something to drop
    have := (isDropped_iff.1 hd).2.1
    rw [Process.geteuid, hroot] at this
    exact absurd this hgood.1
  · obtain ⟨hfrozen, howns⟩ :=
      (@owns_dropped_iff sys info (b.run sys none p).process.credentials).2 ⟨hgood.1, hgood.2.1, hgood.2.2⟩
    rw [← hdropped] at hfrozen howns
    refine ⟨hexit, hfrozen, howns, ?_, fun hr => lookup_of_nonroot hr hlookup,
      fun hr => lookup_of_root hr hlookup hgood.1⟩
    rw [hdropped]
    rfl

theorem startup_frozen_sudo : ∃ p', dropPrivileges sudoSystem sudoInfo
      ((EffectiveUserScope.Body.scope sudoInfo (.action .done) .done).run sudoSystem none sudoProcess).process = .ok () p' ∧
    Owns sudoInfo p'.credentials :=
  ⟨_, rfl, (startup_frozen sudoSystem sudoProcess _ sudoInfo (.scope sudoInfo (.action .done) .done) ⟨rfl, rfl, rfl⟩
    rfl (by decide) (fun _ => by decide) rfl).2.2.1⟩

end UserInfo

end EdenCommon
