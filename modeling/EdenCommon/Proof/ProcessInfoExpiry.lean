import EdenCommon.Spec.ProcessInfoHistory
import Mathlib.Data.List.Nodup

/-!
# Which nodes `clearExpired` removes

A node is removed when its last access is `expiry` before the clock reading. So a node with
a younger reference is safe if its last access is no older than the reference, and that is
lost in two ways: `lookup` finds the node in `infos` and records no access, or an older
reading is stored over a younger one (`Op.KeepsLast`).

`keeps_recent_iff`: neither happens in a run exactly if nodes with a young reference are safe
in all its states.
-/

namespace EdenCommon

namespace ProcessInfoCache

variable {Info : Type} {expiry : Time} {s s' : Sys Info} {h h' : History} {op : Op Info}

/-! ### What a step does to `infos` -/

inductive InfosStep (expiry : Time) (s : Sys Info) (op : Op Info) (s' : Sys Info) : Prop
  | same (ha : op.accesses s = none) (hc : op.creates s = none) (hx : op.clears s = none)
      (h : s'.state_.infos = s.state_.infos) (hp : s.nextPromise ≤ s'.nextPromise)
  | access (p : PromiseId) (now : Time) (ha : op.accesses s = some (p, now)) (hf : op.finds s = none)
      (hc : op.creates s = none) (hx : op.clears s = none)
      (h : s'.state_.infos = (s.state_.recordAccess p now).infos) (hp : s'.nextPromise = s.nextPromise)
  | create (pid : Pid) (now : Time) (ha : op.accesses s = none) (hf : op.finds s = none)
      (hc : op.creates s = some (pid, s.nextPromise, now)) (hx : op.clears s = none)
      (hpid : s.state_.find pid = none)
      (h : s'.state_.infos = s.state_.infos ++ [(pid, ⟨s.nextPromise, now⟩)])
      (hp : s'.nextPromise = s.nextPromise + 1)
  | clear (now : Time) (ha : op.accesses s = none) (hf : op.finds s = none) (hc : op.creates s = none)
      (hx : op.clears s = some now) (h : s'.state_.infos = (s.state_.clearExpired expiry now).infos)
      (hp : s'.nextPromise = s.nextPromise)

/-- What a critical section of a caller does to the infos. -/
theorem infosStep_of_proceed {i : ℕ} {c : Caller} (hi : s.callers[i]? = some c) (h : s.proceed i c = some s') :
    InfosStep expiry s (.proceed i) s' := by
  cases c with
  | lookup pid now =>
    simp only [Sys.proceed] at h
    cases hf : s.state_.find pid with
    | some node =>
      rw [hf] at h
      cases h
      exact .same (by simp [Op.accesses, hi]) (by simp [Op.creates, hi, hf]) rfl rfl (Nat.le_refl _)
    | none =>
      rw [hf] at h
      cases h
      exact .create pid now (by simp [Op.accesses, hi]) (by simp [Op.finds, hi, hf]) (by simp [Op.creates, hi, hf])
        rfl hf rfl rfl
  | add pid now =>
    simp only [Sys.proceed] at h
    cases hf : s.state_.find pid with
    | some node =>
      rw [hf] at h
      cases h
      exact .access node.info_ now (by simp [Op.accesses, hi, hf]) (by simp [Op.finds, hi]) (by simp [Op.creates, hi])
        rfl rfl rfl
    | none =>
      rw [hf] at h
      cases h
      exact .same (by simp [Op.accesses, hi, hf]) (by simp [Op.creates, hi]) rfl rfl (Nat.le_refl _)
  | addUpdate pid now =>
    simp only [Sys.proceed] at h
    cases hf : s.state_.find pid with
    | some node =>
      rw [hf] at h
      cases h
      exact .access node.info_ now (by simp [Op.accesses, hi, hf]) (by simp [Op.finds, hi])
        (by simp [Op.creates, hi, hf]) rfl rfl rfl
    | none =>
      rw [hf] at h
      cases h
      exact .create pid now (by simp [Op.accesses, hi, hf]) (by simp [Op.finds, hi]) (by simp [Op.creates, hi, hf])
        rfl hf rfl rfl
  | getAll =>
    cases h
    exact .same (by simp [Op.accesses, hi]) (by simp [Op.creates, hi]) rfl rfl (Nat.le_succ _)
  | post promise =>
    cases promise <;> cases h <;>
      exact .same (by simp [Op.accesses, hi]) (by simp [Op.creates, hi]) rfl rfl (Nat.le_refl _)
  | waiting p =>
    simp only [Sys.proceed] at h
    split at h
    · cases h
      exact .same (by simp [Op.accesses, hi]) (by simp [Op.creates, hi]) rfl rfl (Nat.le_refl _)
    · cases h
  | returned => cases h

/-- **What a step does to `infos`.** -/
theorem infosStep (h : step expiry s op = some s') : InfosStep expiry s op s' := by
  cases op with
  | lookup pid now cached =>
    cases cached with
    | some node =>
      cases h
      exact .access node now rfl rfl rfl rfl rfl rfl
    | none =>
      cases h
      exact .same rfl rfl rfl rfl (Nat.le_refl _)
  | add pid now cached =>
    cases cached <;> cases h <;> exact .same rfl rfl rfl rfl (Nat.le_refl _)
  | getAllProcessInfos =>
    cases h
    exact .same rfl rfl rfl rfl (Nat.le_refl _)
  | proceed i =>
    obtain ⟨c, hi, hc⟩ := Option.bind_eq_some_iff.1 h
    exact infosStep_of_proceed hi hc
  | expire now =>
    simp only [step] at h
    split at h
    · rename_i size gets n hw
      cases h
      by_cases hlt : n < s.waterLevel + 2 * size
      · exact .clear now rfl rfl rfl (by simp [Op.clears, hw, hlt]) (by simp [Sys.expire, hlt])
          (by simp [Sys.expire, hlt])
      · exact .same rfl rfl (by simp [Op.clears, hw, hlt]) (by simp [Sys.expire, hlt]) (by simp [Sys.expire, hlt])
    · cases h
  | collect =>
    simp only [step] at h
    split at h
    · rename_i now gets hw
      cases h
      exact .clear now rfl rfl rfl (by simp [Op.clears, hw]) rfl rfl
    · cases h
  | wait =>
    simp only [step] at h
    split at h
    · split at h
      · cases h
        exact .same rfl rfl rfl rfl (Nat.le_refl _)
      · cases h
    · cases h
  | tryWait taken =>
    simp only [step] at h
    split at h
    · split at h
      · cases h
        exact .same rfl rfl rfl rfl (Nat.le_refl _)
      · cases h
    · cases h
  | swap | readInfo result | answer =>
    simp only [step] at h
    split at h <;> cases h <;> exact .same rfl rfl rfl rfl (Nat.le_refl _)

/-! ### Histories -/

/-- The references to a node of `infos` are recorded. -/
theorem mem_references {r : PromiseId × Time} : r ∈ (h.record expiry s op).references ↔
    r ∈ h.references ∨ ((op.accesses s = some r ∨ op.finds s = some r) ∧ s.state_.holds r.1 = true) ∨
      (op.creates s).map Prod.snd = some r := by
  simp [History.record, or_and_right, or_assoc]

/-- What has been cleared, behind one more step. -/
theorem mem_cleared {c : Cleared} : c ∈ (h.record expiry s op).cleared ↔
    c ∈ h.cleared ∨ ∃ now, op.clears s = some now ∧ c ∈ s.state_.expired expiry now := by
  simp [History.record]

/-- A step that clears nothing. -/
theorem cleared_eq (hx : op.clears s = none) : (h.record expiry s op).cleared = h.cleared := by
  simp [History.record, hx]

/-- A step that refers to no entry. -/
theorem references_eq (ha : op.accesses s = none) (hf : op.finds s = none) (hc : op.creates s = none) :
    (h.record expiry s op).references = h.references := by
  simp [History.record, ha, hf, hc]

theorem references_of_finds (ha : op.accesses s = none) (hc : op.creates s = none) {r : PromiseId × Time}
    (hr : r ∈ (h.record expiry s op).references) : r ∈ h.references ∨ op.finds s = some r := by
  obtain hr | ⟨hacc | hfind, -⟩ | hcreate := mem_references.1 hr
  · exact .inl hr
  · rw [ha] at hacc
    cases hacc
  · exact .inr hfind
  · rw [hc] at hcreate
    cases hcreate

theorem references_of_accesses {x : PromiseId × Time} (ha : op.accesses s = some x) (hf : op.finds s = none)
    (hc : op.creates s = none) {r : PromiseId × Time} (hr : r ∈ (h.record expiry s op).references) :
    r ∈ h.references ∨ x = r := by
  obtain hr | ⟨hacc | hfind, -⟩ | hcreate := mem_references.1 hr
  · exact .inl hr
  · exact .inr (Option.some.inj (ha.symm.trans hacc))
  · rw [hf] at hfind
    cases hfind
  · rw [hc] at hcreate
    cases hcreate

theorem references_of_creates {pid : Pid} {x : PromiseId × Time} (ha : op.accesses s = none)
    (hf : op.finds s = none) (hc : op.creates s = some (pid, x)) {r : PromiseId × Time}
    (hr : r ∈ (h.record expiry s op).references) : r ∈ h.references ∨ x = r := by
  obtain hr | ⟨hacc | hfind, -⟩ | hcreate := mem_references.1 hr
  · exact .inl hr
  · rw [ha] at hacc
    cases hacc
  · rw [hf] at hfind
    cases hfind
  · rw [hc] at hcreate
    exact .inr (Option.some.inj hcreate)

/-- The entries that are old enough. -/
theorem mem_expired {now : Time} {c : Cleared} : c ∈ s.state_.expired expiry now ↔
    ∃ e ∈ s.state_.infos, expiry ≤ now - e.2.lastAccess_ ∧ c = ⟨e.2.info_, e.2.lastAccess_, now⟩ := by
  simp [State.expired, and_assoc, eq_comm]

/-- A promise is held if an entry has it. -/
theorem holds_iff {p : PromiseId} : s.state_.holds p = true ↔ ∃ e ∈ s.state_.infos, e.2.info_ = p := by
  simp [State.holds]

/-- The entries that stay are the others. -/
theorem mem_clearExpired {now : Time} {e : Pid × Node} :
    e ∈ (s.state_.clearExpired expiry now).infos ↔ e ∈ s.state_.infos ∧ ¬ expiry ≤ now - e.2.lastAccess_ := by
  simp [State.clearExpired]

/-- An access changes the time of its entry. -/
theorem mem_recordAccess {p : PromiseId} {now : Time} {e' : Pid × Node} :
    e' ∈ (s.state_.recordAccess p now).infos ↔
      ∃ e ∈ s.state_.infos, (if e.2.info_ = p then (e.1, { e.2 with lastAccess_ := now }) else e) = e' := by
  simp [State.recordAccess]

/-- What holds of every history: promises are not used again, and the last access to a node
is one of the references to it. -/
structure Sound (s : Sys Info) (h : History) : Prop where
  infos : ∀ e ∈ s.state_.infos, e.2.info_ < s.nextPromise
  references : ∀ r ∈ h.references, r.1 < s.nextPromise
  cleared : ∀ c ∈ h.cleared, c.info_ < s.nextPromise ∧ ∀ e ∈ s.state_.infos, e.2.info_ ≠ c.info_
  distinct : s.state_.infos.Pairwise fun e e' => e.2.info_ ≠ e'.2.info_
  last : ∀ e ∈ s.state_.infos, (e.2.info_, e.2.lastAccess_) ∈ h.references

/-- The records of the empty cache. -/
theorem sound_init : Sound (init : Sys Info) ⟨[], [], [], []⟩ :=
  ⟨nofun, nofun, nofun, List.Pairwise.nil, nofun⟩

/-- The promises that are held have been made. -/
theorem Sound.holds_lt (hs : Sound s h) {p : PromiseId} (hp : s.state_.holds p = true) : p < s.nextPromise := by
  obtain ⟨e, he, rfl⟩ := holds_iff.1 hp
  exact hs.infos e he

theorem Sound.references_lt (hs : Sound s h) (hc : op.creates s = none) :
    ∀ r ∈ (h.record expiry s op).references, r.1 < s.nextPromise := by
  intro r hr
  obtain hr | ⟨-, hr⟩ | hr := mem_references.1 hr
  · exact hs.references r hr
  · exact hs.holds_lt hr
  · simp [hc] at hr

/-- Without a `clearExpired`, no node comes back. -/
theorem Sound.cleared_of_none (hs : Sound s h) (hx : op.clears s = none) (hp : s.nextPromise ≤ s'.nextPromise)
    (hinfos : ∀ e' ∈ s'.state_.infos,
      (∃ e ∈ s.state_.infos, e.2.info_ = e'.2.info_) ∨ e'.2.info_ = s.nextPromise) :
    ∀ c ∈ (h.record expiry s op).cleared,
      c.info_ < s'.nextPromise ∧ ∀ e ∈ s'.state_.infos, e.2.info_ ≠ c.info_ := by
  rw [cleared_eq hx]
  intro c hc
  obtain ⟨hlt, hne⟩ := hs.cleared c hc
  refine ⟨Nat.lt_of_lt_of_le hlt hp, fun e' he' => ?_⟩
  obtain ⟨e, he, heq⟩ | heq := hinfos e' he'
  · rw [← heq]
    exact hne e he
  · rw [heq]
    exact (Nat.ne_of_lt hlt).symm

/-- A node of `infos` is known by its promise. -/
theorem Sound.unique (hs : Sound s h) {e e' : Pid × Node} (he : e ∈ s.state_.infos) (he' : e' ∈ s.state_.infos)
    (heq : e.2.info_ = e'.2.info_) : e = e' := by
  exact List.inj_on_of_nodup_map (List.pairwise_map.2 hs.distinct) he he' heq

/-- A step that leaves the infos alone. -/
theorem Sound.step_same (hs : Sound s h) (hc : op.creates s = none) (hx : op.clears s = none)
    (hinfos : s'.state_.infos = s.state_.infos) (hp : s.nextPromise ≤ s'.nextPromise) :
    Sound s' (h.record expiry s op) := by
  refine ⟨?_, ?_, hs.cleared_of_none hx hp ?_, ?_, ?_⟩
  · rw [hinfos]
    exact fun e he => Nat.lt_of_lt_of_le (hs.infos e he) hp
  · exact fun r hr => Nat.lt_of_lt_of_le (hs.references_lt hc r hr) hp
  · rw [hinfos]
    exact fun e he => .inl ⟨e, he, rfl⟩
  · rw [hinfos]
    exact hs.distinct
  · rw [hinfos]
    exact fun e he => mem_references.2 (.inl (hs.last e he))

/-- **A step that accesses an entry.** -/
theorem Sound.step_access (hs : Sound s h) {p : PromiseId} {now : Time} (ha : op.accesses s = some (p, now))
    (hc : op.creates s = none) (hx : op.clears s = none)
    (hinfos : s'.state_.infos = (s.state_.recordAccess p now).infos) (hp : s'.nextPromise = s.nextPromise) :
    Sound s' (h.record expiry s op) := by
  refine ⟨?_, ?_, hs.cleared_of_none hx (Nat.le_of_eq hp.symm) ?_, ?_, ?_⟩
  · rw [hinfos, hp]
    intro e' he'
    obtain ⟨e, he, rfl⟩ := mem_recordAccess.1 he'
    split <;> exact hs.infos e he
  · rw [hp]
    exact hs.references_lt hc
  · rw [hinfos]
    intro e' he'
    obtain ⟨e, he, rfl⟩ := mem_recordAccess.1 he'
    exact .inl ⟨e, he, by split <;> rfl⟩
  · rw [hinfos, State.recordAccess, List.pairwise_map]
    refine hs.distinct.imp fun hne => ?_
    split <;> split <;> exact hne
  · rw [hinfos]
    intro e' he'
    obtain ⟨e, he, rfl⟩ := mem_recordAccess.1 he'
    split
    · rename_i hep
      exact mem_references.2 (.inr (.inl ⟨.inl (by rw [ha, hep]), holds_iff.2 ⟨e, he, rfl⟩⟩))
    · exact mem_references.2 (.inl (hs.last e he))

/-- A new node has the next promise, and its reference is recorded. -/
theorem Sound.step_create (hs : Sound s h) {pid : Pid} {now : Time} (ha : op.accesses s = none)
    (hf : op.finds s = none) (hc : op.creates s = some (pid, s.nextPromise, now)) (hx : op.clears s = none)
    (hinfos : s'.state_.infos = s.state_.infos ++ [(pid, ⟨s.nextPromise, now⟩)])
    (hp : s'.nextPromise = s.nextPromise + 1) : Sound s' (h.record expiry s op) := by
  refine ⟨?_, ?_, hs.cleared_of_none hx (Nat.le_of_lt (hp ▸ Nat.lt_succ_self _)) ?_, ?_, ?_⟩
  · rw [hinfos, hp]
    intro e he
    obtain he | he := List.mem_append.1 he
    · exact Nat.lt_succ_of_lt (hs.infos e he)
    · rw [List.mem_singleton.1 he]
      exact Nat.lt_succ_self _
  · rw [hp]
    intro r hr
    obtain hr | rfl := references_of_creates ha hf hc hr
    · exact Nat.lt_succ_of_lt (hs.references r hr)
    · exact Nat.lt_succ_self _
  · rw [hinfos]
    intro e he
    obtain he | he := List.mem_append.1 he
    · exact .inl ⟨e, he, rfl⟩
    · rw [List.mem_singleton.1 he]
      exact .inr rfl
  · rw [hinfos, List.pairwise_append]
    refine ⟨hs.distinct, List.pairwise_singleton _ _, fun e he e' he' => ?_⟩
    rw [List.mem_singleton.1 he']
    exact Nat.ne_of_lt (hs.infos e he)
  · rw [hinfos]
    intro e he
    obtain he | he := List.mem_append.1 he
    · exact mem_references.2 (.inl (hs.last e he))
    · rw [List.mem_singleton.1 he]
      exact mem_references.2 (.inr (.inr (by rw [hc]; rfl)))

/-- **A step that clears.** -/
theorem Sound.step_clear (hs : Sound s h) {now : Time} (hc : op.creates s = none) (hx : op.clears s = some now)
    (hinfos : s'.state_.infos = (s.state_.clearExpired expiry now).infos) (hp : s'.nextPromise = s.nextPromise) :
    Sound s' (h.record expiry s op) := by
  refine ⟨?_, ?_, ?_, ?_, ?_⟩
  · rw [hinfos, hp]
    exact fun e he => hs.infos e (mem_clearExpired.1 he).1
  · rw [hp]
    exact hs.references_lt hc
  · rw [hinfos, hp]
    intro c hc'
    obtain hc' | ⟨now', hnow, hc'⟩ := mem_cleared.1 hc'
    · exact ⟨(hs.cleared c hc').1, fun e he => (hs.cleared c hc').2 e (mem_clearExpired.1 he).1⟩
    · obtain ⟨e₀, he₀, hle, rfl⟩ := mem_expired.1 hc'
      obtain rfl : now = now' := Option.some.inj (hx.symm.trans hnow)
      refine ⟨hs.infos e₀ he₀, fun e he heq => ?_⟩
      obtain ⟨he, hnot⟩ := mem_clearExpired.1 he
      rw [hs.unique he he₀ heq] at hnot
      exact hnot hle
  · rw [hinfos]
    exact hs.distinct.sublist List.filter_sublist
  · rw [hinfos]
    exact fun e he => mem_references.2 (.inl (hs.last e (mem_clearExpired.1 he).1))

/-- Every step keeps the records sound. -/
theorem Sound.step (hs : Sound s h) (hstep : step expiry s op = some s') : Sound s' (h.record expiry s op) := by
  cases infosStep hstep with
  | same ha hc hx hinfos hp => exact hs.step_same hc hx hinfos hp
  | access p now ha hf hc hx hinfos hp => exact hs.step_access ha hc hx hinfos hp
  | create pid now ha hf hc hx hpid hinfos hp => exact hs.step_create ha hf hc hx hinfos hp
  | clear now ha hf hc hx hinfos hp => exact hs.step_clear hc hx hinfos hp

/-- So does every run. -/
theorem run_sound {ops : List (Op Info)} {x : Sys Info × History}
    (hrun : Lib.run (recorded expiry) initRecorded ops = some x) : Sound x.1 x.2 := by
  refine Lib.run_invariant (I := fun x => Sound x.1 x.2) sound_init (fun x op x' hs hstep => ?_) ops hrun
  obtain ⟨h1, h2⟩ := Lib.recorded_eq_some.1 hstep
  rw [← h2]
  exact hs.step h1

/-! ### Young references -/

/-- The step leaves no node with a last access older than a reference: `lookup` finds only
nodes whose last access is no older than its reading, and no reading is stored over a
younger one. -/
def Op.KeepsLast (s : Sys Info) (op : Op Info) : Prop :=
  (∀ p now, op.finds s = some (p, now) → ∀ e ∈ s.state_.infos, e.2.info_ = p → now ≤ e.2.lastAccess_) ∧
    ∀ p now, op.accesses s = some (p, now) → ∀ e ∈ s.state_.infos, e.2.info_ = p → e.2.lastAccess_ ≤ now

/-- No `clearExpired` of the past or the future removes a node with a reference that is
younger than `expiry`. -/
def KeepsRecent (expiry : Time) (x : Sys Info × History) : Prop :=
  (∀ c ∈ x.2.cleared, ∀ t, (c.info_, t) ∈ x.2.references → ¬ c.now - t < expiry) ∧
    ∀ now, ∀ e ∈ x.1.state_.infos, ∀ t, (e.2.info_, t) ∈ x.2.references → now - t < expiry →
      e ∈ (x.1.state_.clearExpired expiry now).infos

/-- The last access is the youngest reference. -/
structure Youngest (expiry : Time) (x : Sys Info × History) : Prop where
  sound : Sound x.1 x.2
  infos : ∀ e ∈ x.1.state_.infos, ∀ t, (e.2.info_, t) ∈ x.2.references → t ≤ e.2.lastAccess_
  cleared : ∀ c ∈ x.2.cleared, ∀ t, (c.info_, t) ∈ x.2.references → ¬ c.now - t < expiry

/-- What was accessed later is younger. -/
theorem not_expired_of_young {exp now last t : ℤ} (h : t ≤ last) (hlt : now - t < exp) : ¬ exp ≤ now - last := by
  omega

/-- `exp` after its last access, a node expires. -/
theorem expired_after {exp last t : ℤ} (h : ¬ t ≤ last) :
    last + exp - t < exp ∧ exp ≤ last + exp - last := by
  omega

/-- The invariant is what is claimed of the state. -/
theorem youngest_iff {x : Sys Info × History} (hs : Sound x.1 x.2) : Youngest expiry x ↔ KeepsRecent expiry x := by
  constructor
  · intro hy
    refine ⟨hy.cleared, fun now e he t ht hlt => mem_clearExpired.2 ⟨he, ?_⟩⟩
    exact not_expired_of_young (hy.infos e he t ht) hlt
  · rintro ⟨hcleared, hkeeps⟩
    refine ⟨hs, fun e he t ht => ?_, hcleared⟩
    by_contra hlt
    -- the node expires before the reference does
    obtain ⟨hyoung, hexpired⟩ := expired_after hlt
    have hmem := hkeeps (e.2.lastAccess_ + expiry) e he t ht hyoung
    exact (mem_clearExpired.1 hmem).2 hexpired

/-- A step creates the next promise. -/
theorem creates_eq (hstep : step expiry s op = some s') {x : Pid × PromiseId × Time} (hx : op.creates s = some x) :
    x.2.1 = s.nextPromise := by
  cases infosStep hstep with
  | create pid now ha hf hc hx' hpid hinfos hp =>
    obtain rfl := Option.some.inj (hx.symm.trans hc)
    rfl
  | same ha hc => rw [hc] at hx; cases hx
  | access p now ha hf hc => rw [hc] at hx; cases hx
  | clear now ha hf hc => rw [hc] at hx; cases hx

/-- The nodes that were removed get no references. -/
theorem Sound.not_mem_references (hs : Sound s h) (hstep : ProcessInfoCache.step expiry s op = some s') {c : Cleared}
    (hc : c ∈ h.cleared) {t : Time} (ht : (c.info_, t) ∈ (h.record expiry s op).references) :
    (c.info_, t) ∈ h.references := by
  obtain ⟨hlt, hne⟩ := hs.cleared c hc
  obtain ht | ⟨-, hholds⟩ | hcreates := mem_references.1 ht
  · exact ht
  · obtain ⟨e, he, heq⟩ := holds_iff.1 hholds
    exact absurd heq (hne e he)
  · obtain ⟨x, hx, heq⟩ := Option.map_eq_some_iff.1 hcreates
    have hnext := creates_eq hstep hx
    rw [heq] at hnext
    exact absurd hnext (Nat.ne_of_lt hlt)

theorem Op.keepsLast_of_none (ha : op.accesses s = none) (hf : op.finds s = none) : op.KeepsLast s := by
  constructor
  · intro p now hfind
    rw [hf] at hfind
    cases hfind
  · intro p now hacc
    rw [ha] at hacc
    cases hacc

/-- What was removed before the step was not young, and gets no references. -/
theorem Youngest.cleared_old (hy : Youngest expiry (s, h)) (hs : step expiry s op = some s') {c : Cleared}
    (hc : c ∈ h.cleared) {t : Time} (ht : (c.info_, t) ∈ (h.record expiry s op).references) :
    ¬ c.now - t < expiry :=
  hy.cleared c hc t (hy.sound.not_mem_references hs hc ht)

/-- Without a `clearExpired`, the last accesses of the nodes decide. -/
theorem Youngest.step_of_none (hy : Youngest expiry (s, h)) (hs : step expiry s op = some s')
    (hx : op.clears s = none)
    (hinfos : ∀ e ∈ s'.state_.infos, ∀ t, (e.2.info_, t) ∈ (h.record expiry s op).references → t ≤ e.2.lastAccess_) :
    Youngest expiry (s', h.record expiry s op) := by
  refine ⟨hy.sound.step hs, hinfos, fun c hc t ht => ?_⟩
  have hc' : c ∈ (h.record expiry s op).cleared := hc
  rw [cleared_eq hx] at hc'
  exact hy.cleared_old hs hc' ht

/-- A step without reference to an entry keeps each time the youngest. -/
theorem Youngest.step_same (hy : Youngest expiry (s, h)) (hs : step expiry s op = some s')
    (ha : op.accesses s = none) (hc : op.creates s = none) (hx : op.clears s = none)
    (hinfos : s'.state_.infos = s.state_.infos) :
    Youngest expiry (s', h.record expiry s op) ↔ op.KeepsLast s := by
  constructor
  · refine fun hy' => ⟨fun p now hf e he hep => ?_, fun p now ha' => ?_⟩
    · refine hy'.infos e (by rw [hinfos]; exact he) now (mem_references.2 ?_)
      rw [hep]
      exact .inr (.inl ⟨.inr hf, holds_iff.2 ⟨e, he, hep⟩⟩)
    · rw [ha] at ha'
      cases ha'
  · rintro ⟨hfinds, -⟩
    refine hy.step_of_none hs hx fun e he t ht => ?_
    rw [hinfos] at he
    obtain ht | hfind := references_of_finds ha hc ht
    · exact hy.infos e he t ht
    · exact hfinds _ _ hfind e he rfl

/-- **An access** keeps it exactly if it is no older than the time that is recorded. -/
theorem Youngest.step_access (hy : Youngest expiry (s, h)) (hs : step expiry s op = some s') {p : PromiseId}
    {now : Time} (ha : op.accesses s = some (p, now)) (hf : op.finds s = none) (hc : op.creates s = none)
    (hx : op.clears s = none) (hinfos : s'.state_.infos = (s.state_.recordAccess p now).infos) :
    Youngest expiry (s', h.record expiry s op) ↔ op.KeepsLast s := by
  constructor
  · refine fun hy' => ⟨fun p' now' hf' => ?_, fun p' now' ha' e he hep => ?_⟩
    · rw [hf] at hf'
      cases hf'
    · obtain ⟨rfl, rfl⟩ := Prod.mk.inj (Option.some.inj (ha.symm.trans ha'))
      have hmem : (e.1, { e.2 with lastAccess_ := now }) ∈ s'.state_.infos := by
        rw [hinfos]
        exact mem_recordAccess.2 ⟨e, he, by rw [if_pos hep]⟩
      -- the access before this one is in the history
      exact hy'.infos _ hmem e.2.lastAccess_ (mem_references.2 (.inl (hy.sound.last e he)))
  · rintro ⟨-, haccess⟩
    refine hy.step_of_none hs hx fun e' he' t ht => ?_
    rw [hinfos] at he'
    obtain ⟨e, he, rfl⟩ := mem_recordAccess.1 he'
    by_cases hep : e.2.info_ = p
    · rw [if_pos hep] at ht ⊢
      obtain ht | heq := references_of_accesses ha hf hc ht
      · exact Int.le_trans (hy.infos e he t ht) (haccess p now ha e he hep)
      · exact Int.le_of_eq (Prod.mk.inj heq).2.symm
    · rw [if_neg hep] at ht ⊢
      obtain ht | heq := references_of_accesses ha hf hc ht
      · exact hy.infos e he t ht
      · exact absurd (Prod.mk.inj heq).1.symm hep

/-- **A new entry** has no earlier reference. -/
theorem Youngest.step_create (hy : Youngest expiry (s, h)) (hs : step expiry s op = some s') {pid : Pid}
    {now : Time} (ha : op.accesses s = none) (hf : op.finds s = none)
    (hc : op.creates s = some (pid, s.nextPromise, now)) (hx : op.clears s = none)
    (hinfos : s'.state_.infos = s.state_.infos ++ [(pid, ⟨s.nextPromise, now⟩)]) :
    Youngest expiry (s', h.record expiry s op) := by
  refine hy.step_of_none hs hx fun e he t ht => ?_
  rw [hinfos] at he
  obtain he | he := List.mem_append.1 he
  · obtain ht | heq := references_of_creates ha hf hc ht
    · exact hy.infos e he t ht
    · exact absurd (Prod.mk.inj heq).1.symm (Nat.ne_of_lt (hy.sound.infos e he))
  · rw [List.mem_singleton.1 he] at ht ⊢
    obtain ht | heq := references_of_creates ha hf hc ht
    · exact absurd (hy.sound.references _ ht) (Nat.lt_irrefl _)
    · exact Int.le_of_eq (Prod.mk.inj heq).2.symm

/-- **Clearing** takes away what is too old. -/
theorem Youngest.step_clear (hy : Youngest expiry (s, h)) (hs : step expiry s op = some s') {now : Time}
    (ha : op.accesses s = none) (hf : op.finds s = none) (hc : op.creates s = none)
    (hinfos : s'.state_.infos = (s.state_.clearExpired expiry now).infos) :
    Youngest expiry (s', h.record expiry s op) := by
  refine ⟨hy.sound.step hs, fun e he t ht => ?_, fun c hc' t ht => ?_⟩
  · rw [hinfos] at he
    rw [references_eq ha hf hc] at ht
    exact hy.infos e (mem_clearExpired.1 he).1 t ht
  · obtain hc' | ⟨now', hnow, hc'⟩ := mem_cleared.1 hc'
    · exact hy.cleared_old hs hc' ht
    · obtain ⟨e, he, hle, rfl⟩ := mem_expired.1 hc'
      rw [references_eq ha hf hc] at ht
      exact fun hlt => not_expired_of_young (hy.infos e he t ht) hlt hle

/-- **Every step**: the invariant is kept exactly under the condition. -/
theorem youngest_step {x x' : Sys Info × History} (hy : Youngest expiry x) (hstep : recorded expiry x op = some x') :
    Youngest expiry x' ↔ op.KeepsLast x.1 := by
  obtain ⟨s, h⟩ := x
  obtain ⟨s', h'⟩ := x'
  obtain ⟨hs, hh⟩ := Lib.recorded_eq_some.1 hstep
  obtain rfl : h.record expiry s op = h' := hh
  cases infosStep hs with
  | same ha hc hx hinfos hp => exact hy.step_same hs ha hc hx hinfos
  | access p now ha hf hc hx hinfos hp => exact hy.step_access hs ha hf hc hx hinfos
  | create pid now ha hf hc hx hpid hinfos hp =>
    exact iff_of_true (hy.step_create hs ha hf hc hx hinfos) (Op.keepsLast_of_none ha hf)
  | clear now ha hf hc hx hinfos hp =>
    exact iff_of_true (hy.step_clear hs ha hf hc hinfos) (Op.keepsLast_of_none ha hf)

/-- **Nodes with a young reference.** In every state of a run, no `clearExpired` has removed
or is to remove a node with a reference younger than `expiry`, exactly if in every step of
the run `lookup` finds only nodes whose last access is no older than its reading, and no
reading is stored over a younger one. -/
theorem keeps_recent_iff {ops : List (Op Info)} {x : Sys Info × History}
    (hrun : Lib.run (recorded expiry) initRecorded ops = some x) :
    Lib.AllSteps (recorded expiry) (fun x op => op.KeepsLast x.1) initRecorded ops ↔
      ∀ pre, pre <+: ops → ∀ x', Lib.run (recorded expiry) initRecorded pre = some x' → KeepsRecent expiry x' := by
  have hinit : Youngest expiry (initRecorded : Sys Info × History) := ⟨sound_init, nofun, nofun⟩
  rw [Lib.allSteps_iff (fun _ _ _ hy hs => youngest_step hy hs) ops hinit hrun]
  refine forall_congr' fun pre => forall_congr' fun _ => forall_congr' fun x' => forall_congr' fun hx' => ?_
  exact youngest_iff (run_sound hx')

/-- A node that is created and then found in the thread-local cache. -/
theorem keeps_recent_cached : ∃ x : Sys ℕ × History,
    Lib.run (recorded 10) initRecorded [.lookup 1 0 none, .proceed 0, .lookup 1 9 (some 0)] = some x ∧
      x.2.references = [(0, 0), (0, 9)] ∧ KeepsRecent 10 x := by
  refine ⟨?x, ?hrun, ?references, (keeps_recent_iff ?hrun).1 ?steps _ (List.prefix_refl _) _ ?hrun⟩
  case hrun => rfl
  case references => rfl
  case steps =>
    refine ⟨⟨fun _ _ h => (nomatch h), fun _ _ h => (nomatch h)⟩, fun x₁ h₁ => ?_⟩
    obtain rfl := Option.some.inj h₁
    refine ⟨⟨fun _ _ h => (nomatch h), fun _ _ h => (nomatch h)⟩, fun x₂ h₂ => ?_⟩
    obtain rfl := Option.some.inj h₂
    refine ⟨⟨fun _ _ h => (nomatch h), fun p now h e he _ => ?_⟩, fun x₃ _ => trivial⟩
    obtain ⟨rfl, rfl⟩ := Prod.mk.inj (Option.some.inj h)
    rw [List.mem_singleton.1 he]
    decide

/-- `lookup` finds the node in `infos` at time 9 and does not record it, and at time 10 the
node is cleared. -/
theorem clears_recent : ∃ x : Sys ℕ × History,
    Lib.run (recorded 10) initRecorded [.lookup 1 0 none, .proceed 0, .proceed 0, .lookup 1 9 none, .proceed 1,
      .wait, .swap, .tryWait 0, .readInfo (some 7), .expire 10] = some x ∧
        x.2.references = [(0, 0), (0, 9)] ∧ x.2.cleared = [⟨0, 0, 10⟩] ∧ ¬ KeepsRecent 10 x := by
  refine ⟨_, rfl, rfl, rfl, fun hk => ?_⟩
  exact hk.1 ⟨0, 0, 10⟩ List.mem_cons_self 9 (by decide) (by decide)

end ProcessInfoCache

end EdenCommon
