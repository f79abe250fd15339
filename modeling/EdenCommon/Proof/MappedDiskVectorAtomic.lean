import EdenCommon.Lib.Simulation
import EdenCommon.Spec.MappedDiskVectorMapping
import EdenCommon.Proof.MappedDiskVectorStore

/-!
# A failed `emplace_back`

Every method with its mapping simulates the method without, as long as the members
describe the kernel's mapping, and leaves them so, also when it throws. An `emplace_back`
that throws, at whatever call, therefore leaves a vector of the same entries over a live
mapping (`emplaceBack_failure_atomic`). What is done to it later is answered as if the
call had not been made.

* `step_seen`, `step_alike`: an operation answers as the one without mapping, and two
  sessions that hold the same list answer alike but for what they throw.
* `Sane.step`, `run_sane`: an open vector of a session holds some list, whatever file the
  session started from.
* `Sane.owed`, `Sane.asBefore`: an `emplace_back` throws only if a call fails, and then
  nothing later can tell that it was made.
-/

namespace EdenCommon

open Lib

-- the goals below are never to be evaluated
attribute [local irreducible] wp

namespace MappedDiskVector

namespace Mapped

variable {R : RecordType} {α : Type}

/-- The disk and the vector without its mapping. -/
abbrev seen (s : Disk × Mapped R) : Disk × MappedDiskVector R := (s.1, s.2.vec)

/-! ### The methods -/

/-- The method is done in place: it does not change the size of the mapping. -/
def InPlace (m : MappedDiskVector.Method R α) : Prop := ∀ d v,
  wp m (fun _ s => s.2.mapSizeInBytes_ = v.mapSizeInBytes_) (fun _ s => s.2.mapSizeInBytes_ = v.mapSizeInBytes_) (d, v)

theorem inPlace_onFst (c : Sys α) : InPlace (onFst c : MappedDiskVector.Method R α) := by
  intro d v
  rw [wp_onFst]
  exact wp.of_forall (fun _ _ => rfl) fun _ _ => rfl

theorem inPlace_popBack : InPlace (popBack : MappedDiskVector.Method R Unit) := by
  intro d v
  rw [popBack, wp_bind, wp_this, wp_bind, wp_onFst]
  refine wp.of_forall (fun _ d₁ => ?_) fun _ _ => rfl
  rw [wp_bind, wp_assign, wp_onFst]
  exact wp.of_forall (fun _ _ => rfl) fun _ _ => rfl

theorem inPlace_constructBack (x : R.Value) : InPlace (constructBack x) := by
  intro d v
  rw [constructBack, wp_bind, wp_this, wp_bind, wp_onFst]
  refine wp.of_forall (fun _ d₁ => ?_) fun _ _ => rfl
  rw [wp_bind, wp_onFst]
  refine wp.of_forall (fun r d₂ => ?_) fun _ _ => rfl
  cases r with
  | some thrown =>
    rw [wp_bind, wp_onFst]
    refine wp.of_forall (fun _ d₃ => ?_) fun _ _ => rfl
    rw [wp_throw]
  | none =>
    rw [wp_bind, wp_onFst]
    refine wp.of_forall (fun _ d₃ => ?_) fun _ _ => rfl
    rw [wp_bind, wp_assign, wp_onFst]
    exact wp.of_forall (fun _ _ => rfl) fun _ _ => rfl

/-- `M` does what `m` does, and keeps the mapping described. -/
abbrev Simulates (M : Method R α) (m : MappedDiskVector.Method R α) : Prop :=
  Sim seen M m (fun s => s.2.Live) (fun _ s => s.2.Live) fun _ s => s.2.Live

theorem sim_onVec {m : MappedDiskVector.Method R α} (hm : InPlace m) : Simulates (onVec m) m := by
  intro s hs
  have hsize := hm s.1 s.2.vec
  unfold wp at hsize ⊢
  simp only [onVec]
  rw [if_pos hs]
  cases hr : m (s.1, s.2.vec) with
  | ok a s' =>
    rw [hr] at hsize
    refine ⟨?_, rfl⟩
    show s.2.mapping = some (s.2.map_, s'.2.mapSizeInBytes_)
    rw [show s'.2.mapSizeInBytes_ = s.2.vec.mapSizeInBytes_ from hsize]
    exact hs
  | error e s' =>
    rw [hr] at hsize
    refine ⟨?_, rfl⟩
    show s.2.mapping = some (s.2.map_, s'.2.mapSizeInBytes_)
    rw [show s'.2.mapSizeInBytes_ = s.2.vec.mapSizeInBytes_ from hsize]
    exact hs

theorem sim_this : Simulates (this : Method R (MappedDiskVector R)) MappedDiskVector.this := by
  intro s hs
  rw [this, wp_bind, wp_get, wp_pure]
  exact ⟨hs, rfl⟩

/-- Behind `mremap` the kernel has the new mapping and the members are still the old ones. -/
theorem sim_mremap (e : Error) (newFileSize newMap : ℕ) :
    Sim seen (mremap e newFileSize newMap : Method R Unit) (onFst (orThrow e Disk.call)) (fun s => s.2.Live)
      (fun _ s => s.2.mapping = some (newMap, newFileSize)) fun _ s => s.2.Live := by
  rw [← bind_pure (onFst (orThrow e Disk.call) : MappedDiskVector.Method R Unit)]
  refine Sim.onFst.bind fun _ => ?_
  intro s hs
  rw [wp_bind, wp_get, if_pos hs, wp_modify]
  exact ⟨rfl, rfl⟩

theorem sim_assign (v : MappedDiskVector R) (newMap : ℕ) :
    Sim seen (modify fun s => (s.1, { s.2 with map_ := newMap, vec := v }) : Method R Unit) (assign v)
      (fun s => s.2.mapping = some (newMap, v.mapSizeInBytes_)) (fun _ s => s.2.Live) fun _ s => s.2.Live := by
  intro s hs
  rw [wp_modify]
  exact ⟨hs, rfl⟩

theorem sim_grow (newMap : ℕ) : Simulates (grow newMap : Method R Unit) MappedDiskVector.grow := by
  refine sim_this.bind fun v => ?_
  refine Sim.onFst.bind fun _ => ?_
  refine Sim.onFst.bind fun _ => ?_
  refine (sim_mremap _ _ newMap).bind fun _ => ?_
  exact (sim_assign _ newMap).bind fun _ => Sim.onFst

theorem sim_emplaceBack (newMap : ℕ) (x : R.Value) :
    Simulates (emplaceBack newMap x) (MappedDiskVector.emplaceBack x) := by
  refine sim_this.bind fun v => ?_
  refine Sim.bind (Q := fun _ s => s.2.Live) ?_ fun _ => sim_onVec (inPlace_constructBack x)
  by_cases h : v.hasRoom 1 = true
  · rw [if_pos h, if_pos h]
    exact Sim.pure fun _ hs => hs
  · rw [if_neg h, if_neg h]
    exact sim_grow newMap

/-! ### Sessions -/

variable {T : TableType} {old : OldVersions T.toRecordType} {path : String} {l : List T.Value} {d : Disk}

/-- The session holds the list `l`: in the open vector, whose mapping is described, or in the file. -/
inductive Sane (path : String) : Session T → List T.Value → Prop
  | opened {d : Disk} {m : Mapped T.toRecordType} {l : List T.Value} (hlive : m.Live) (hfile : m.vec.file_ = path)
      (hholds : Holds d m.vec l) : Sane path ⟨d, some m⟩ l
  | closed {d : Disk} {f : File} {l : List T.Value} (hf : d.files path = some f) (hs : Stored T.toRecordType f l) :
      Sane path ⟨d, none⟩ l

/-- A stored vector is opened, or is still stored. -/
theorem reopen_sane {f : File} (hf : d.files path = some f) (hs : Stored T.toRecordType f l) :
    wp (open' T old path none) (fun v d' => v.file_ = path ∧ Holds d' v l)
      (fun e d' => e.isException = true ∧ ∃ f', d'.files path = some f' ∧ Stored T.toRecordType f' l) d := by
  refine wp_open_stored hf hs (fun d₁ hf₁ _ => ?_) fun e d' hf' hfail => ⟨hfail.isException, f, hf', hs⟩
  refine openAs_cases hs.valid (fun hdistinct _ _ => ?_) (fun hdistinct i V g xs hg hs' => ?_)
    fun e he => ⟨he, f, hf₁, hs⟩
  · refine (openAs_primary hdistinct hf₁ hs leavesFiles_none).mono ?_ ?_
    · rintro v d' ⟨hv, hfile, -⟩
      exact ⟨hfile, hv⟩
    · rintro e d' ⟨⟨f', hf', hext, -⟩, hfail⟩
      exact ⟨hfail.isException, f', hf', hs.extends hext⟩
  · -- the version of the file is that of `T` and of no other
    have heq : V.VERSION = T.VERSION := hs'.recordVersion_eq.symm.trans hs.recordVersion_eq
    exact absurd (heq ▸ List.mem_map.2 ⟨V, List.mem_of_getElem? hg.types, rfl⟩) (List.nodup_cons.1 hdistinct).1

/-- It is opened unless a call fails, if the versions can be told apart. -/
theorem reopen_distinct (hdistinct : (T.VERSION :: old.types.map (·.VERSION)).Nodup) {f : File} (hf : d.files path = some f)
    (hs : Stored T.toRecordType f l) :
    wp (open' T old path none) (fun v d' => v.file_ = path ∧ Holds d' v l) (fun e d' => Failed d e d') d := by
  refine wp_open_stored hf hs (fun d₁ hf₁ hd₁ => ?_) fun e d' _ hfail => hfail
  refine (openAs_primary hdistinct hf₁ hs leavesFiles_none).mono ?_ ?_
  · rintro v d' ⟨hv, hfile, -⟩
    exact ⟨hfile, hv⟩
  · rintro e d' ⟨-, hfail⟩
    exact hfail.of_failures hd₁

/-- Whatever file is opened, the vector holds some list. -/
theorem open_holds : wp (open' T old path none) (fun v d' => v.file_ = path ∧ ∃ l, Holds d' v l) (fun _ _ => True) d := by
  refine wp_open (fun h0 d₁ hfiles _ => ?_) (fun _ hvalid d₁ hfiles _ => ?_) fun _ _ _ _ _ => trivial
  · refine (initializeFromScratch_spec T (Disk.files_self hfiles) h0).mono ?_ fun _ _ _ => trivial
    rintro v d' ⟨hv, hfile, -⟩
    exact ⟨hfile, _, hv⟩
  · have hf := Disk.files_self hfiles
    refine openAs_cases hvalid (fun hdistinct es hs => ?_) (fun hdistinct i V g xs hg hs => ?_) fun _ _ => trivial
    · refine (openAs_primary hdistinct hf hs leavesFiles_none).mono ?_ fun _ _ _ => trivial
      rintro v d' ⟨hv, hfile, -⟩
      exact ⟨hfile, _, hv⟩
    · refine (openAs_old hdistinct hg hf hs).mono ?_ fun _ _ _ => trivial
      rintro v d' ⟨hv, hfile, -⟩
      exact ⟨hfile, _, hv⟩

/-- A method answers as the one without mapping. -/
theorem answer_seen {M : Method T.toRecordType α} {m : MappedDiskVector.Method T.toRecordType α} (hsim : Simulates M m)
    (g : α → Answer T.toRecordType) {v : Mapped T.toRecordType} (hlive : v.Live) {s' : Session T} {a : Answer T.toRecordType}
    (h : answer g (M (d, v)) = (s', a)) :
    ∃ d' v', s' = ⟨d', some v'⟩ ∧ v'.Live ∧ MappedDiskVector.answer g (m (d, v.vec)) = (⟨d', some v'.vec⟩, a) := by
  have hs := hsim (d, v) hlive
  cases hr : M (d, v) with
  | ok x s =>
    rw [hr] at h
    obtain ⟨rfl, rfl⟩ := Prod.mk.inj h
    obtain ⟨hlive', hm⟩ := hs.ok hr
    exact ⟨s.1, s.2, rfl, hlive', by rw [hm]; rfl⟩
  | error e s =>
    rw [hr] at h
    obtain ⟨rfl, rfl⟩ := Prod.mk.inj h
    obtain ⟨hlive', hm⟩ := hs.error hr
    exact ⟨s.1, s.2, rfl, hlive', by rw [hm]; rfl⟩

/-- An operation of an open vector that leaves it open is that of the vector without mapping. -/
theorem step_seen {m : Mapped T.toRecordType} (hlive : m.Live) {op : Op T.toRecordType} (hclose : op ≠ .close)
    {outcomes : List Outcome} {address : ℕ} {s' : Session T} {a : Answer T.toRecordType}
    (h : step T old path ⟨d, some m⟩ op outcomes address = some (s', a)) :
    ∃ d' m', s' = ⟨d', some m'⟩ ∧ m'.Live ∧
      MappedDiskVector.step T path ⟨d, some m.vec⟩ op outcomes = some (⟨d', some m'.vec⟩, a) := by
  cases op with
  | reopen => cases h
  | close => exact absurd rfl hclose
  | emplaceBack x =>
    obtain ⟨d', m', rfl, hlive', ha⟩ := answer_seen (sim_emplaceBack address x) _ hlive (Option.some.inj h)
    exact ⟨d', m', rfl, hlive', congrArg some ha⟩
  | popBack =>
    simp only [step] at h
    split at h
    · cases h
    · rename_i h0
      obtain ⟨d', m', rfl, hlive', ha⟩ := answer_seen (sim_onVec inPlace_popBack) _ hlive (Option.some.inj h)
      refine ⟨d', m', rfl, hlive', ?_⟩
      simp only [MappedDiskVector.step]
      rw [if_neg h0, ha]
  | get i =>
    simp only [step] at h
    split at h
    · rename_i hi
      obtain ⟨d', m', rfl, hlive', ha⟩ := answer_seen (sim_onVec (inPlace_onFst _)) _ hlive (Option.some.inj h)
      refine ⟨d', m', rfl, hlive', ?_⟩
      simp only [MappedDiskVector.step]
      rw [if_pos hi, ha]
    · cases h
  | set i x =>
    simp only [step] at h
    split at h
    · rename_i hi
      obtain ⟨d', m', rfl, hlive', ha⟩ := answer_seen (sim_onVec (inPlace_onFst _)) _ hlive (Option.some.inj h)
      refine ⟨d', m', rfl, hlive', ?_⟩
      simp only [MappedDiskVector.step]
      rw [if_pos hi, ha]
    · cases h

/-- **One step** of a session does to the list what the operation says. -/
theorem Sane.step {s s' : Session T} {op : Op T.toRecordType} {outcomes : List Outcome} {address : ℕ}
    {a : Answer T.toRecordType} (h : Sane path s l) (hstep : Mapped.step T old path s op outcomes address = some (s', a)) :
    ∃ l', ListModel.Step l op a l' ∧ Sane path s' l' := by
  cases h with
  | closed hf hs =>
    rename_i d f
    cases op with
    | reopen =>
      have hspec : wp (open' T old path none) _ _ { d with outcomes := outcomes } := reopen_sane hf hs
      simp only [Mapped.step] at hstep
      cases hr : open' T old path none { d with outcomes := outcomes } with
      | ok v d' =>
        rw [hr] at hstep
        obtain ⟨rfl, rfl⟩ := Prod.mk.inj (Option.some.inj hstep)
        obtain ⟨hfile, hv⟩ := hspec.ok hr
        exact ⟨l, .reopen l, .opened rfl hfile hv⟩
      | error e d' =>
        rw [hr] at hstep
        obtain ⟨rfl, rfl⟩ := Prod.mk.inj (Option.some.inj hstep)
        obtain ⟨he, f', hf', hs'⟩ := hspec.error hr
        exact ⟨l, .reopenThrew l e he, .closed hf' hs'⟩
    | emplaceBack | popBack | get | set | close => cases hstep
  | opened hlive hfile hholds =>
    rename_i d m
    by_cases hclose : op = .close
    · subst hclose
      obtain ⟨rfl, rfl⟩ := Prod.mk.inj (Option.some.inj hstep)
      obtain ⟨f, hf, hs, -⟩ := hholds
      exact ⟨l, .close l, .closed (hfile ▸ hf) hs⟩
    · obtain ⟨d', m', rfl, hlive', hseen⟩ := step_seen hlive hclose hstep
      obtain ⟨l', hl', hkeeps, -⟩ := (hholds.keeps hfile).step hseen
      obtain ⟨hfile', hholds'⟩ := hkeeps.opened m'.vec rfl
      exact ⟨l', hl', .opened hlive' hfile' hholds'⟩

/-- An open vector of a session holds some list, whatever file the session started from. -/
theorem run_sane (calls : List (Call T.toRecordType)) {s : Session T}
    {log : List (Op T.toRecordType × Answer T.toRecordType)}
    (hrun : run (logStep T old path) (⟨d, none⟩, []) calls = some (s, log)) {m : Mapped T.toRecordType}
    (hm : s.vec = some m) : ∃ l, Sane path s l := by
  refine run_invariant (I := fun r => ∀ m, r.1.vec = some m → ∃ l, Sane path r.1 l) (fun m h => by cases h) ?_ calls hrun m hm
  rintro ⟨⟨d, vec⟩, log⟩ call r hinv hstep m' hm'
  obtain ⟨⟨s', a⟩, hs', rfl⟩ := Option.map_eq_some_iff.1 hstep
  cases vec with
  | some m =>
    obtain ⟨l, hsane⟩ := hinv m rfl
    obtain ⟨l', -, hsane'⟩ := hsane.step hs'
    exact ⟨l', hsane'⟩
  | none =>
    obtain ⟨op, outcomes, address⟩ := call
    cases op with
    | reopen =>
      have hspec : wp (open' T old path none) _ _ { d with outcomes := outcomes } := open_holds
      simp only [Mapped.step] at hs'
      cases hr : open' T old path none { d with outcomes := outcomes } with
      | ok v d' =>
        rw [hr] at hs'
        obtain ⟨rfl, rfl⟩ := Prod.mk.inj (Option.some.inj hs')
        obtain ⟨hfile, l, hv⟩ := hspec.ok hr
        exact ⟨l, .opened rfl hfile hv⟩
      | error e d' =>
        rw [hr] at hs'
        obtain ⟨rfl, rfl⟩ := Prod.mk.inj (Option.some.inj hs')
        cases hm'
    | emplaceBack | popBack | get | set | close => cases hs'

/-! ### What comes later -/

/-- The list `l` becomes `l'` by the logged operations. -/
def Exec : List R.Value → List (Op R × Answer R) → List R.Value → Prop
  | l, [], l' => l = l'
  | l, (op, a) :: log, l' => ∃ l₁, ListModel.Step l op a l₁ ∧ Exec l₁ log l'

/-- The same operations, of which the same have thrown. -/
def SameThrows (log log' : List (Op R × Answer R)) : Prop :=
  List.Forall₂ (fun p q => p.1 = q.1 ∧ (Threw p.2 ↔ Threw q.2)) log log'

/-- The same operations with the same answers, up to what was thrown. -/
def Alike (log log' : List (Op R × Answer R)) : Prop :=
  List.Forall₂ (fun p q => p.1 = q.1 ∧ (p.2 = q.2 ∨ Threw p.2 ∧ Threw q.2)) log log'

/-- The list decides the answer, but for whether it throws. -/
theorem step_alike {l l₁ l₂ : List R.Value} {op : Op R} {a b : Answer R} (h₁ : ListModel.Step l op a l₁)
    (h₂ : ListModel.Step l op b l₂) (hthrew : Threw a ↔ Threw b) : l₁ = l₂ ∧ (a = b ∨ Threw a ∧ Threw b) := by
  have hdone : ¬ Threw (.done : Answer R) := by
    rintro ⟨e, h⟩
    cases h
  cases h₁ with
  | reopen =>
    cases h₂ with
    | reopen => exact ⟨rfl, .inl rfl⟩
    | reopenThrew e he => exact absurd (hthrew.2 ⟨e, rfl⟩) hdone
  | reopenThrew e he =>
    cases h₂ with
    | reopen => exact absurd (hthrew.1 ⟨e, rfl⟩) hdone
    | reopenThrew e' he' => exact ⟨rfl, .inr ⟨⟨e, rfl⟩, e', rfl⟩⟩
  | emplaceBack x =>
    cases h₂ with
    | emplaceBack => exact ⟨rfl, .inl rfl⟩
    | emplaceBackThrew _ e he => exact absurd (hthrew.2 ⟨e, rfl⟩) hdone
  | emplaceBackThrew x e he =>
    cases h₂ with
    | emplaceBack => exact absurd (hthrew.1 ⟨e, rfl⟩) hdone
    | emplaceBackThrew _ e' he' => exact ⟨rfl, .inr ⟨⟨e, rfl⟩, e', rfl⟩⟩
  | popBack h =>
    cases h₂ with
    | popBack h' => exact ⟨rfl, .inl rfl⟩
  | get i h =>
    cases h₂ with
    | get _ h' => exact ⟨rfl, .inl rfl⟩
  | set i x h =>
    cases h₂ with
    | set _ _ h' => exact ⟨rfl, .inl rfl⟩
  | close =>
    cases h₂ with
    | close => exact ⟨rfl, .inl rfl⟩

theorem exec_alike {log log' : List (Op R × Answer R)} (hsame : SameThrows log log') :
    ∀ {l l₁ l₂ : List R.Value}, Exec l log l₁ → Exec l log' l₂ → Alike log log' ∧ l₁ = l₂ := by
  induction hsame with
  | nil =>
    intro l l₁ l₂ h₁ h₂
    exact ⟨.nil, h₁.symm.trans h₂⟩
  | cons hhead _ ih =>
    rename_i p q log log' htail
    obtain ⟨op, a⟩ := p
    obtain ⟨op', b⟩ := q
    obtain ⟨rfl, hthrew⟩ := hhead
    rintro l l₁ l₂ ⟨k₁, hstep₁, hexec₁⟩ ⟨k₂, hstep₂, hexec₂⟩
    obtain ⟨rfl, ha⟩ := step_alike hstep₁ hstep₂ hthrew
    obtain ⟨halike, hl⟩ := ih hexec₁ hexec₂
    exact ⟨.cons ⟨rfl, ha⟩ halike, hl⟩

theorem run_exec (calls : List (Call T.toRecordType)) : ∀ {s s' : Session T} {l : List T.Value}
    {log₀ log' : List (Op T.toRecordType × Answer T.toRecordType)}, Sane path s l →
    run (logStep T old path) (s, log₀) calls = some (s', log') →
      ∃ log l', log' = log₀ ++ log ∧ Exec l log l' ∧ Sane path s' l' := by
  induction calls with
  | nil =>
    intro s s' l log₀ log' hsane hrun
    obtain ⟨rfl, rfl⟩ := Prod.mk.inj (Option.some.inj hrun)
    exact ⟨[], l, (List.append_nil _).symm, rfl, hsane⟩
  | cons call calls ih =>
    intro s s' l log₀ log' hsane hrun
    obtain ⟨r, hstep, hrest⟩ := run_cons_eq_some.1 hrun
    obtain ⟨⟨s₁, a⟩, hs₁, rfl⟩ := Option.map_eq_some_iff.1 hstep
    obtain ⟨l₁, hl₁, hsane₁⟩ := hsane.step hs₁
    obtain ⟨log, l', rfl, hexec, hsane'⟩ := ih hsane₁ hrest
    exact ⟨(call.op, a) :: log, l', by rw [List.append_assoc]; rfl, ⟨l₁, hl₁, hexec⟩, hsane'⟩

/-- An `emplace_back` throws only if a call fails. -/
theorem Sane.owed {s s' : Session T} {x : T.Value} {outcomes : List Outcome} {address : ℕ} {e : Error} (h : Sane path s l)
    (hstep : Mapped.step T old path s (.emplaceBack x) outcomes address = some (s', .threw e)) :
    s.disk.failures < s'.disk.failures := by
  cases h with
  | closed hf hs => cases hstep
  | opened hlive hfile hholds =>
    rename_i d m
    obtain ⟨d', m', rfl, -, hseen⟩ := step_seen hlive (by simp) hstep
    have hspec := emplaceBack_spec (d := { d with outcomes := outcomes }) (hholds.congr rfl) T.fits x
    simp only [MappedDiskVector.step] at hseen
    cases hr : MappedDiskVector.emplaceBack x ({ d with outcomes := outcomes }, m.vec) with
    | ok a s =>
      rw [hr] at hseen
      have ha : (Answer.done : Answer T.toRecordType) = .threw e := congrArg Prod.snd (Option.some.inj hseen)
      cases ha
    | error e' s =>
      rw [hr] at hseen
      have hdisk : s.1 = d' := congrArg (fun r => r.1.disk) (Option.some.inj hseen)
      rw [← hdisk]
      exact (hspec.error hr).2.counted

/-! ### The failed call -/

/-- The session `s'` is as good as `s`: both vectors hold the list `l`, over live mappings. -/
structure AsBefore (T : TableType) (old : OldVersions T.toRecordType) (path : String) (s s' : Session T) (l : List T.Value) :
    Prop where
  sound : ∃ m m' f f', s.vec = some m ∧ s'.vec = some m' ∧ m'.Live ∧ Sound path m.vec s.disk l f ∧
    Sound path m'.vec s'.disk l f'
  /-- The same operations later, of which the same throw, have the same answers. -/
  later : ∀ later later' r r' log log', run (logStep T old path) (s, []) later = some (r, log) →
    run (logStep T old path) (s', []) later' = some (r', log') → SameThrows log log' →
      Alike log log' ∧ ∃ l', Sane path r l' ∧ Sane path r' l'
  /-- A later `emplace_back` throws only if one of its own calls fails. -/
  owed : ∀ later r log, run (logStep T old path) (s', []) later = some (r, log) → ∀ x outcomes address r' e,
    step T old path r (.emplaceBack x) outcomes address = some (r', .threw e) → r.disk.failures < r'.disk.failures
  reopened : ∀ closed, step T old path s' .close [] 0 = some (closed, .done) →
    ∀ again : OldVersions T.toRecordType, (T.VERSION :: again.types.map (·.VERSION)).Nodup → ∀ outcomes address r a,
      step T again path closed .reopen outcomes address = some (r, a) →
        (∃ m f, a = .done ∧ r.vec = some m ∧ m.Live ∧ Sound path m.vec r.disk l f) ∨ closed.disk.failures < r.disk.failures

theorem Sane.sound {m : Mapped T.toRecordType} (h : Sane path ⟨d, some m⟩ l) :
    m.Live ∧ ∃ f, Sound path m.vec d l f := by
  cases h with
  | opened hlive hfile hholds => exact ⟨hlive, hholds.sound hfile⟩

/-- A closed vector is opened as it was, unless a call fails. -/
theorem Sane.reopened {again : OldVersions T.toRecordType} (hdistinct : (T.VERSION :: again.types.map (·.VERSION)).Nodup)
    (h : Sane path (⟨d, none⟩ : Session T) l) {outcomes : List Outcome} {address : ℕ} {r : Session T}
    {a : Answer T.toRecordType} (hstep : Mapped.step T again path ⟨d, none⟩ .reopen outcomes address = some (r, a)) :
    (∃ m f, a = .done ∧ r.vec = some m ∧ m.Live ∧ Sound path m.vec r.disk l f) ∨ d.failures < r.disk.failures := by
  cases h with
  | closed hf hs =>
    have hspec := reopen_distinct (d := { d with outcomes := outcomes }) hdistinct hf hs
    simp only [Mapped.step] at hstep
    cases hr : open' T again path none { d with outcomes := outcomes } with
    | ok v d' =>
      rw [hr] at hstep
      obtain ⟨rfl, rfl⟩ := Prod.mk.inj (Option.some.inj hstep)
      obtain ⟨hfile, hv⟩ := hspec.ok hr
      obtain ⟨f, hf'⟩ := hv.sound hfile
      exact .inl ⟨_, f, rfl, rfl, rfl, hf'⟩
    | error e d' =>
      rw [hr] at hstep
      obtain ⟨rfl, rfl⟩ := Prod.mk.inj (Option.some.inj hstep)
      exact .inr (hspec.error hr).counted

/-- Two sessions that hold the same list are as good as each other. -/
theorem Sane.asBefore {d' : Disk} {m m' : Mapped T.toRecordType} (h : Sane path ⟨d, some m⟩ l)
    (h' : Sane path ⟨d', some m'⟩ l) : AsBefore T old path ⟨d, some m⟩ ⟨d', some m'⟩ l where
  sound := by
    obtain ⟨-, f, hf⟩ := h.sound
    obtain ⟨hlive', f', hf'⟩ := h'.sound
    exact ⟨m, m', f, f', rfl, rfl, hlive', hf, hf'⟩
  later := by
    intro later later' r r' log log' hrun hrun' hsame
    obtain ⟨_, k, rfl, hexec, hsane⟩ := run_exec later h hrun
    obtain ⟨_, k', rfl, hexec', hsane'⟩ := run_exec later' h' hrun'
    obtain ⟨halike, rfl⟩ := exec_alike hsame hexec hexec'
    exact ⟨halike, k, hsane, hsane'⟩
  owed := by
    intro later r log hrun x outcomes address r' e hstep
    obtain ⟨_, k, -, -, hsane⟩ := run_exec later h' hrun
    exact hsane.owed hstep
  reopened := by
    intro closed hclose again hdistinct outcomes address r a hstep
    obtain ⟨k, hk, hsane⟩ := h'.step hclose
    obtain ⟨rfl, -⟩ := Prod.mk.inj (Option.some.inj hclose)
    cases hk with
    | close => exact hsane.reopened hdistinct hstep

/-- **A failed `emplace_back`.** Of every session, whatever file it started from: the vector in
which `emplace_back` threw, at whatever call, is as good as it was. -/
theorem emplaceBack_failure_atomic (T : TableType) (old : OldVersions T.toRecordType) (path : String) (d : Disk)
    (calls : List (Call T.toRecordType)) (s : Session T) (log : List (Op T.toRecordType × Answer T.toRecordType))
    (hrun : run (logStep T old path) (⟨d, none⟩, []) calls = some (s, log)) (x : T.Value) (outcomes : List Outcome)
    (address : ℕ) (s' : Session T) (e : Error)
    (hthrew : step T old path s (.emplaceBack x) outcomes address = some (s', .threw e)) :
    ∃ l, AsBefore T old path s s' l := by
  obtain ⟨d₀, vec⟩ := s
  cases vec with
  | none => cases hthrew
  | some m =>
    obtain ⟨l, hsane⟩ := run_sane calls hrun rfl
    obtain ⟨l', hl', hsane'⟩ := hsane.step hthrew
    obtain rfl : l' = l := by
      cases hl' with
      | emplaceBackThrew _ e he => rfl
    cases hsane' with
    | opened hlive' hfile' hholds' => exact ⟨l', hsane.asBefore (.opened hlive' hfile' hholds')⟩
    | closed hf hs =>
      -- a session that was open is open still
      obtain ⟨hlive, -⟩ := hsane.sound
      obtain ⟨_, _, h, -⟩ := step_seen hlive (by simp) hthrew
      cases h

/-- Records of which one fills the initial file. -/
def Large : TableType :=
  { VERSION := 4, sizeof := 2 ^ 20 - 32, version_lt := by decide, sizeof_pos := by decide, fits := by decide }

/-- The file and the mapping have grown, and the disk is full when the new pages are touched. -/
theorem emplaceBack_failure_atomic_full :
    ∃ s log s' e, run (logStep Large .nil "test.mdv") (⟨⟨fun _ => none, [], 0⟩, none⟩, [])
        [⟨.reopen, [], 4096⟩, ⟨.emplaceBack fun _ => 7, [], 0⟩] = some (s, log) ∧
      step Large .nil "test.mdv" s (.emplaceBack fun _ => 8) [.ok, .ok, .fail .other] 8192 = some (s', .threw e) ∧
      ∃ l, AsBefore Large .nil "test.mdv" s s' l := by
  have h : ((run (logStep Large .nil "test.mdv") (⟨⟨fun _ => none, [], 0⟩, none⟩, [])
      [⟨.reopen, [], 4096⟩, ⟨.emplaceBack fun _ => 7, [], 0⟩]).bind fun r =>
        (step Large .nil "test.mdv" r.1 (.emplaceBack fun _ => 8) [.ok, .ok, .fail .other] 8192).map fun r' =>
          match r'.2 with
          | .threw _ => true
          | _ => false) = some true := by decide +kernel
  obtain ⟨⟨s, log⟩, hrun, h⟩ := Option.bind_eq_some_iff.1 h
  obtain ⟨⟨s', a⟩, hstep, ha⟩ := Option.map_eq_some_iff.1 h
  cases a with
  | threw e =>
    exact ⟨s, log, s', e, hrun, hstep, emplaceBack_failure_atomic Large .nil "test.mdv" _ _ s log hrun _ _ _ s' e hstep⟩
  | done | value => cases ha

end Mapped

end MappedDiskVector

end EdenCommon
