import EdenCommon.Spec.SpawnOptions
import Mathlib.Algebra.Order.BigOperators.Group.List
import Mathlib.Algebra.Order.Group.Nat
import Mathlib.Data.List.Perm.Subperm

/-!
# The descriptor plan

A call that passes a descriptor on comes down to one `emplace` (`step_cases`), between
changes of the table that do not concern the sources (`Same`). `inheritDescriptor` avoids
every clash, against the calls before it; `dup2`, which everything else goes through, looks
for none. A clash or a dropped request stays, since nothing leaves `descriptors_`. So the
plan works out exactly if every `dup2` happens to be clear of the calls before it
(`planHolds_iff`).
-/

namespace EdenCommon

namespace SpawnedProcess.Options

open Lib Parent

variable {File : Type*} {s s' s₁ : Parent File} {targetFd fd dup : ℕ} {file : File}

/-- Nothing has happened to the recorded actions or to the files behind their sources. -/
structure Same (s s' : Parent File) : Prop where
  descriptors : s'.descriptors_ = s.descriptors_
  requests : s'.requests = s.requests
  table : ∀ n ∈ s.sources, s'.table n = s.table n

structure Inv (s : Parent File) : Prop where
  targets_nodup : s.targets.Nodup
  source_ne : ∀ d ∈ s.descriptors_, d.2 ≠ d.1
  source_open : ∀ n ∈ s.sources, (s.table n).isSome
  target_mem : ∀ r ∈ s.requests, r.target ∈ s.targets
  file_eq : ∀ r ∈ s.requests, (r.target, r.fd) ∈ s.descriptors_ → s.table r.fd = some r.file

/-- What the plan needs: no clash and no dropped request. -/
def Sound (s : Parent File) : Prop :=
  Apart s.descriptors_ ∧ ∀ r ∈ s.requests, (r.target, r.fd) ∈ s.descriptors_

/-- The plan holds exactly if it is sound. -/
theorem Inv.plan_iff_sound (hinv : Inv s) : PlanHolds s ↔ Sound s := by
  constructor
  · intro h
    exact ⟨(intact_perm_iff hinv.source_ne).1 h.intact, h.kept⟩
  · rintro ⟨hap, hkept⟩
    refine ⟨fun actions hp r hr => ?_, (intact_perm_iff hinv.source_ne).2 hap, hkept⟩
    -- each target is written once, and no target is a source that is read later
    have hnd : (actions.map Prod.fst).Nodup := (hp.map Prod.fst).nodup_iff.2 hinv.targets_nodup
    have hmem : (r.target, r.fd) ∈ actions := hp.mem_iff.2 (hkept r hr)
    rw [copies_of_mem hnd (hap.perm hp) hmem]
    exact hinv.file_eq r hr (hkept r hr)

/-- The invariant of the start. -/
theorem inv_start (table : ℕ → Option File) : Inv (start table) where
  targets_nodup := List.nodup_nil
  source_ne := nofun
  source_open := nofun
  target_mem := nofun
  file_eq := nofun

theorem sound_start (table : ℕ → Option File) : Sound (start table) := ⟨nofun, nofun⟩

/-- What is recorded in the plan is one of its sources. -/
theorem mem_sources_of_mem {d : ℕ × ℕ} (h : d ∈ s.descriptors_) : d.2 ∈ s.sources :=
  List.mem_map_of_mem h

theorem not_mem_sources_of_not_mem_owned (h : fd ∉ s.owned) : fd ∉ s.sources :=
  fun hm => h (List.mem_append_left _ hm)

/-! ### What does not concern the plan -/

theorem Same.refl (s : Parent File) : Same s s := ⟨rfl, rfl, fun _ _ => rfl⟩

theorem Same.sources (h : Same s s') : s'.sources = s.sources := by
  unfold Parent.sources
  rw [h.descriptors]

theorem Same.targets (h : Same s s') : s'.targets = s.targets := by
  unfold Parent.targets
  rw [h.descriptors]

theorem Same.trans (h : Same s s₁) (h' : Same s₁ s') : Same s s' where
  descriptors := h'.descriptors.trans h.descriptors
  requests := h'.requests.trans h.requests
  table := fun n hn => (h'.table n (by rwa [h.sources])).trans (h.table n hn)

/-- A step that leaves plan and sources alone keeps the invariant. -/
theorem Same.inv (h : Same s s') (hinv : Inv s) : Inv s' where
  targets_nodup := by rw [h.targets]; exact hinv.targets_nodup
  source_ne := by rw [h.descriptors]; exact hinv.source_ne
  source_open := by
    intro n hn
    rw [h.sources] at hn
    rw [h.table n hn]
    exact hinv.source_open n hn
  target_mem := by
    rw [h.requests, h.targets]
    exact hinv.target_mem
  file_eq := by
    intro r hr hd
    rw [h.requests] at hr
    rw [h.descriptors] at hd
    rw [h.table r.fd (mem_sources_of_mem hd)]
    exact hinv.file_eq r hr hd

/-- It keeps the plan sound, or leaves it as unsound as it was. -/
theorem Same.sound_iff (h : Same s s') : Sound s' ↔ Sound s := by
  unfold Sound
  rw [h.descriptors, h.requests]

/-- A table that changes only at a number that is no source. -/
theorem same_update {x : Option File} (h : fd ∉ s.sources) :
    Same s { s with table := Function.update s.table fd x } where
  descriptors := rfl
  requests := rfl
  table := by
    intro n hn
    have hne : n ≠ fd := fun e => h (e ▸ hn)
    exact Function.update_of_ne hne _ _

/-- A file that is no source may be closed. -/
theorem closed_same (h : fd ∉ s.sources) : Same s (s.closed fd) := same_update h

theorem opened_eq_some (h : s.opened fd file = some s') :
    s.table fd = none ∧ s' = { s with table := Function.update s.table fd (some file) } := by
  unfold Parent.opened at h
  split at h
  · cases h
  · rename_i hopen
    exact ⟨Option.not_isSome_iff_eq_none.1 hopen, (Option.some.inj h).symm⟩

/-- A number that the kernel gives out is no source. -/
theorem Inv.opened_same (hinv : Inv s) (h : s.opened fd file = some s') :
    Same s s' ∧ fd ∉ s.sources ∧ s.table fd = none ∧ s'.table fd = some file := by
  obtain ⟨hnone, rfl⟩ := opened_eq_some h
  have hsrc : fd ∉ s.sources := by
    intro hm
    have := hinv.source_open fd hm
    rw [hnone] at this
    cases this
  exact ⟨same_update hsrc, hsrc, hnone, Function.update_self ..⟩

theorem given_eq_some (h : s.given fd = some file) : fd ∉ s.owned ∧ s.table fd = some file := by
  unfold Parent.given at h
  split at h
  · cases h
  · exact ⟨‹_›, h⟩

/-! ### `emplace` -/

/-- **A second request for a target** is dropped, and its file is closed. -/
theorem emplace_of_mem (h : targetFd ∈ s.targets) : emplace s targetFd fd file =
    { s with requests := ⟨targetFd, fd, file⟩ :: s.requests, table := Function.update s.table fd none } :=
  if_pos h

/-- **A first one** is put into the plan. -/
theorem emplace_of_not_mem (h : targetFd ∉ s.targets) : emplace s targetFd fd file =
    { s with requests := ⟨targetFd, fd, file⟩ :: s.requests, descriptors_ := (targetFd, fd) :: s.descriptors_ } :=
  if_neg h

/-- The plan keeps its invariant. -/
theorem Inv.emplace (hinv : Inv s) (hsrc : fd ∉ s.sources) (hne : fd ≠ targetFd) (hfile : s.table fd = some file) :
    Inv (emplace s targetFd fd file) := by
  by_cases ht : targetFd ∈ s.targets
  · rw [emplace_of_mem ht]
    have htable : ∀ n ∈ s.sources, Function.update s.table fd none n = s.table n :=
      (closed_same hsrc).table
    refine ⟨hinv.targets_nodup, hinv.source_ne, fun n hn => ?_, fun r hr => ?_, fun r hr hd => ?_⟩
    · exact (congrArg Option.isSome (htable n hn)).trans (hinv.source_open n hn)
    · rcases List.mem_cons.1 hr with rfl | hr
      · exact ht
      · exact hinv.target_mem r hr
    · rcases List.mem_cons.1 hr with rfl | hr
      · exact absurd (mem_sources_of_mem hd) hsrc
      · exact (htable r.fd (mem_sources_of_mem hd)).trans (hinv.file_eq r hr hd)
  · rw [emplace_of_not_mem ht]
    refine ⟨List.nodup_cons.2 ⟨ht, hinv.targets_nodup⟩, fun d hd => ?_, fun n hn => ?_, fun r hr => ?_,
      fun r hr hd => ?_⟩
    · rcases List.mem_cons.1 hd with rfl | hd
      · exact hne
      · exact hinv.source_ne d hd
    · rcases List.mem_cons.1 hn with rfl | hn
      · exact Option.isSome_iff_exists.2 ⟨file, hfile⟩
      · exact hinv.source_open n hn
    · rcases List.mem_cons.1 hr with rfl | hr
      · exact List.mem_cons_self
      · exact List.mem_cons_of_mem _ (hinv.target_mem r hr)
    · rcases List.mem_cons.1 hr with rfl | hr
      · exact hfile
      · rcases List.mem_cons.1 hd with he | hd
        -- an older request has a target of its own
        · exact absurd (hinv.target_mem r hr) ((Prod.mk.inj he).1 ▸ ht)
        · exact hinv.file_eq r hr hd

/-- **What `emplace` has to meet.** -/
theorem Inv.sound_emplace_iff (hinv : Inv s) (hsrc : fd ∉ s.sources) (hne : fd ≠ targetFd) :
    Sound (Options.emplace s targetFd fd file) ↔
      Sound s ∧ targetFd ∉ s.targets ∧ targetFd ∉ s.sources ∧ fd ∉ s.targets := by
  by_cases ht : targetFd ∈ s.targets
  · -- the request is dropped
    rw [emplace_of_mem ht]
    constructor
    · intro h
      exact absurd (mem_sources_of_mem (h.2 _ List.mem_cons_self)) hsrc
    · intro h
      exact absurd ht h.2.1
  · rw [emplace_of_not_mem ht]
    -- only a request that was dropped could be taken for the new one
    have hkept : ∀ r ∈ s.requests, (r.target, r.fd) ∈ (targetFd, fd) :: s.descriptors_ ↔
        (r.target, r.fd) ∈ s.descriptors_ := by
      intro r hr
      have hne : (r.target, r.fd) ≠ (targetFd, fd) :=
        fun e => ht ((Prod.mk.inj e).1 ▸ hinv.target_mem r hr)
      rw [List.mem_cons, or_iff_right hne]
    unfold Sound
    rw [apart_cons, List.forall_mem_cons, and_iff_right List.mem_cons_self, forall₂_congr hkept]
    have h1 : fd ≠ targetFd ↔ True := iff_true_intro hne
    have h2 : targetFd ∉ s.targets ↔ True := iff_true_intro ht
    rw [h1, h2, true_and, true_and]
    exact and_right_comm

/-- The call comes down to `emplace(targetFd, fd)`. -/
structure Emplaces (s : Parent File) (targetFd fd : ℕ) (s' : Parent File) : Prop where
  not_source : fd ∉ s.sources
  ne : fd ≠ targetFd
  same : ∃ s₁ file, Same s s₁ ∧ s₁.table fd = some file ∧ Same (emplace s₁ targetFd fd file) s'

theorem Emplaces.inv (h : Emplaces s targetFd fd s') (hinv : Inv s) : Inv s' := by
  obtain ⟨s₁, file, h1, hfile, h2⟩ := h.same
  exact h2.inv ((h1.inv hinv).emplace (h1.sources ▸ h.not_source) h.ne hfile)

/-- **One more entry** keeps the plan sound exactly if it meets none of the others. -/
theorem Emplaces.sound_iff (h : Emplaces s targetFd fd s') (hinv : Inv s) :
    Sound s' ↔ Sound s ∧ targetFd ∉ s.targets ∧ targetFd ∉ s.sources ∧ fd ∉ s.targets := by
  obtain ⟨s₁, file, h1, hfile, h2⟩ := h.same
  rw [h2.sound_iff, (h1.inv hinv).sound_emplace_iff (h1.sources ▸ h.not_source) h.ne, h1.sound_iff,
    h1.sources, h1.targets]

/-! ### `dup2` and what goes through it -/

/-- `dup2` emplaces one entry. -/
theorem Inv.dup2_emplaces (hinv : Inv s) (h : dup2 s fd targetFd dup = some s') :
    Emplaces s targetFd (recordedFd fd targetFd dup) s' := by
  unfold dup2 at h
  split at h
  · cases h
  rename_i file hgiven
  obtain ⟨howned, hfile⟩ := given_eq_some hgiven
  have hsrc := not_mem_sources_of_not_mem_owned howned
  by_cases htf : targetFd = fd
  · -- a duplicate under another number takes the place of the descriptor
    rw [if_pos htf] at h
    obtain ⟨s₁, h1, rfl⟩ := Option.map_eq_some_iff.1 h
    obtain ⟨hsame, hdup, hnone, htable⟩ := hinv.opened_same h1
    have hne : dup ≠ fd := by
      rintro rfl
      rw [hnone] at hfile
      cases hfile
    rw [recordedFd, if_pos htf]
    refine ⟨hdup, fun e => hne (e.trans htf), s₁.closed fd, file, ?_, ?_, Same.refl _⟩
    · exact hsame.trans (closed_same (hsame.sources ▸ hsrc))
    · exact (Function.update_of_ne hne _ _).trans htable
  · rw [if_neg htf] at h
    obtain rfl := Option.some.inj h
    rw [recordedFd, if_neg htf]
    exact ⟨hsrc, Ne.symm htf, s, file, Same.refl s, hfile, Same.refl _⟩

/-- What happens before `dup2` does not concern the plan. -/
theorem Emplaces.of_same (hs : Same s s₁) (h : Emplaces s₁ targetFd fd s') : Emplaces s targetFd fd s' := by
  obtain ⟨s₂, file, h1, hfile, h2⟩ := h.same
  exact ⟨hs.sources ▸ h.not_source, h.ne, s₂, file, hs.trans h1, hfile, h2⟩

/-- So does `open`. -/
theorem Inv.openPath_emplaces (hinv : Inv s) (h : openPath s targetFd fd file dup = some s') :
    Emplaces s targetFd (recordedFd fd targetFd dup) s' := by
  obtain ⟨s₁, h1, h2⟩ := Option.bind_eq_some_iff.1 h
  obtain ⟨hsame, -⟩ := hinv.opened_same h1
  exact ((hsame.inv hinv).dup2_emplaces h2).of_same hsame

/-- A pipe is refused, or its end for the child goes to `dup2`. -/
theorem Inv.pipe_cases (hinv : Inv s) {childRead : Bool} {p : Pipe File}
    (h : (pipe s targetFd childRead p dup).map (settle s) = some s') :
    (targetFd ∈ s.pipes_.map Prod.fst ∧ s' = s) ∨
      (targetFd ∉ s.pipes_.map Prod.fst ∧ Emplaces s targetFd (recordedFd (p.child childRead) targetFd dup) s') := by
  obtain ⟨result, hpipe, rfl⟩ := Option.map_eq_some_iff.1 h
  unfold pipe at hpipe
  split at hpipe
  · rename_i hmem
    obtain rfl := Option.some.inj hpipe
    exact .inl ⟨hmem, rfl⟩
  · rename_i hmem
    obtain ⟨s₂, h2, h3⟩ := Option.bind_eq_some_iff.1 hpipe
    obtain ⟨s₁, h1, h2⟩ := Option.bind_eq_some_iff.1 h2
    obtain ⟨s₃, h4, rfl⟩ := Option.map_eq_some_iff.1 h3
    obtain ⟨hsame1, -⟩ := hinv.opened_same h1
    obtain ⟨hsame2, -⟩ := (hsame1.inv hinv).opened_same h2
    -- the parent's end goes to `pipes_`, which no action reads
    have hsame : Same s { s₂ with pipes_ := (targetFd, p.parent childRead) :: s₂.pipes_ } :=
      (hsame1.trans hsame2).trans ⟨rfl, rfl, fun _ _ => rfl⟩
    exact .inr ⟨hmem, ((hsame.inv hinv).dup2_emplaces h4).of_same hsame⟩

/-! ### `inheritDescriptor` -/

/-- **Induction on the rounds** of the first stage, for a call that ends with `x`: it stops,
or it goes on with the next answer. -/
theorem avoidTargets_induction {x : Parent File × ℕ × List ℕ} {P : List ℕ → Parent File → ℕ → List ℕ → Prop}
    (stop : ∀ {dups s fd tempFds}, fd ∉ s.targets → x = (s, fd, tempFds) → P dups s fd tempFds)
    (again : ∀ {dup dups s s₁ fd tempFds}, fd ∈ s.targets → s.opened dup file = some s₁ →
      P dups s₁ dup (fd :: tempFds) → P (dup :: dups) s fd tempFds) :
    ∀ {dups s fd tempFds}, avoidTargets file dups s fd tempFds = some x → P dups s fd tempFds := by
  intro dups
  induction dups with
  | nil =>
    intro s fd tempFds h
    rw [avoidTargets] at h
    split at h
    · cases h
    · exact stop ‹_› (Option.some.inj h).symm
  | cons dup dups ih =>
    intro s fd tempFds h
    rw [avoidTargets] at h
    split at h
    · obtain ⟨s₁, hopened, hrest⟩ := Option.bind_eq_some_iff.1 h
      exact again ‹_› hopened (ih hrest)
    · exact stop ‹_› (Option.some.inj h).symm

/-- The first stage ends with the file under a number that is no target. -/
theorem avoidTargets_spec {dups tempFds tempFds' : List ℕ} {fd' : ℕ} (hinv : Inv s) (hfile : s.table fd = some file)
    (hsrc : ∀ n ∈ fd :: tempFds, n ∉ s.sources) (htemp : ∀ n ∈ tempFds, (s.table n).isSome) (hfd : fd ∉ tempFds)
    (h : avoidTargets file dups s fd tempFds = some (s', fd', tempFds')) :
    Same s s' ∧ s'.table fd' = some file ∧ fd' ∉ s.targets ∧ (∀ n ∈ fd' :: tempFds', n ∉ s.sources) ∧
      fd' ∉ tempFds' := by
  revert hinv hfile hsrc htemp hfd
  refine avoidTargets_induction (P := fun _ s fd tempFds => Inv s → s.table fd = some file →
    (∀ n ∈ fd :: tempFds, n ∉ s.sources) → (∀ n ∈ tempFds, (s.table n).isSome) → fd ∉ tempFds →
      Same s s' ∧ s'.table fd' = some file ∧ fd' ∉ s.targets ∧ (∀ n ∈ fd' :: tempFds', n ∉ s.sources) ∧
        fd' ∉ tempFds') ?_ ?_ h
  · intro _ s fd tempFds ht hx _ hfile hsrc _ hfd
    cases hx
    exact ⟨Same.refl _, hfile, ht, hsrc, hfd⟩
  · intro dup _ s s₁ fd tempFds _ hopened ih hinv hfile hsrc htemp _
    obtain ⟨hsame, hdup, hnone, htable⟩ := hinv.opened_same hopened
    obtain ⟨-, rfl⟩ := opened_eq_some hopened
    -- the kernel gives out a number that neither the descriptor nor a duplicate has
    have hopen : ∀ n ∈ fd :: tempFds, (s.table n).isSome :=
      List.forall_mem_cons.2 ⟨Option.isSome_iff_exists.2 ⟨file, hfile⟩, htemp⟩
    have hnew : dup ∉ fd :: tempFds := by
      intro hm
      have := hopen dup hm
      rw [hnone] at this
      cases this
    have hopen' : ∀ n ∈ fd :: tempFds, (Function.update s.table dup (some file) n).isSome := by
      intro n hn
      have hne : n ≠ dup := fun e => hnew (e ▸ hn)
      rw [Function.update_of_ne hne]
      exact hopen n hn
    obtain ⟨h3, h4, h5, h6, h7⟩ := ih (hsame.inv hinv) htable
      (by rw [hsame.sources]; exact List.forall_mem_cons.2 ⟨hdup, hsrc⟩) hopen' hnew
    exact ⟨hsame.trans h3, h4, hsame.targets ▸ h5, hsame.sources ▸ h6, h7⟩

/-- The loop that avoids the targets ends, with as many files as it needs. -/
theorem avoidTargets_isSome : ∀ (dups : List ℕ) {s : Parent File} {fd : ℕ} (tempFds : List ℕ),
    (∀ n ∈ dups, s.table n = none) → dups.Nodup → (∃ n ∈ fd :: dups, n ∉ s.targets) →
      (avoidTargets file dups s fd tempFds).isSome := by
  intro dups
  induction dups with
  | nil =>
    intro s fd tempFds _ _ hex
    rw [avoidTargets, if_neg (by simpa using hex)]
    rfl
  | cons dup dups ih =>
    intro s fd tempFds hnone hnd hex
    rw [List.forall_mem_cons] at hnone
    rw [List.nodup_cons] at hnd
    rw [avoidTargets]
    split
    · rename_i hfd
      have hopened : s.opened dup file = some { s with table := Function.update s.table dup (some file) } :=
        if_neg (by rw [hnone.1]; exact Bool.false_ne_true)
      rw [hopened, Option.bind_some]
      refine ih _ (fun n hn => ?_) hnd.2 ?_
      · have hne : n ≠ dup := fun e => hnd.1 (e ▸ hn)
        exact (Function.update_of_ne hne _ _).trans (hnone.2 n hn)
      · obtain ⟨n, hn, hnt⟩ := hex
        rcases List.mem_cons.1 hn with rfl | hn
        · exact absurd hfd hnt
        · exact ⟨n, hn, hnt⟩
    · rfl

/-- **The first stage ends** after at most as many duplicates as there are targets, since
the kernel answers with different numbers. -/
theorem inheritDescriptor_isSome {dups : List ℕ} (hgiven : s.given fd = some file)
    (hnone : ∀ n ∈ dups, s.table n = none) (hnd : dups.Nodup) (hlen : s.targets.length ≤ dups.length) :
    (inheritDescriptor s fd dups).isSome := by
  have hfd : fd ∉ dups := by
    intro hm
    have := (given_eq_some hgiven).2
    rw [hnone fd hm] at this
    cases this
  -- the descriptor and its duplicates have more numbers than there are targets
  have hex : ∃ n ∈ fd :: dups, n ∉ s.targets := by
    by_contra hall
    push Not at hall
    have hle := ((List.nodup_cons.2 ⟨hfd, hnd⟩).subperm hall).length_le
    rw [List.length_cons] at hle
    omega
  unfold inheritDescriptor
  rw [hgiven]
  dsimp only
  rw [Option.isSome_map]
  exact avoidTargets_isSome dups [] hnone hnd hex

/-- Without conflict the target is new in every place. -/
theorem conflict_eq_false {target : ℕ} : conflict s fd target = false ↔
    target ≠ fd ∧ target ∉ s.targets ∧ target ∉ s.sources := by
  unfold conflict Parent.targets Parent.sources
  simp only [Bool.or_eq_false_iff, decide_eq_false_iff_not, List.any_eq_false, decide_eq_true_eq, Bool.or_eq_true,
    List.mem_map]
  grind

theorem conflict_of_bound_le {target : ℕ} (h : conflictBound s fd ≤ target) : conflict s fd target = false := by
  have hlt : ∀ n ∈ fd :: (s.targets ++ s.sources), n < target := by
    intro n hn
    have := List.le_sum_of_mem hn
    unfold conflictBound at h
    omega
  refine conflict_eq_false.2 ⟨fun e => ?_, fun hm => ?_, fun hm => ?_⟩
  · exact absurd (hlt fd List.mem_cons_self) (by omega)
  · exact absurd (hlt target (by simp [hm])) (lt_irrefl _)
  · exact absurd (hlt target (by simp [hm])) (lt_irrefl _)

/-- The second stage finds a number without a conflict. -/
theorem findTarget_free (s : Parent File) (fd : ℕ) : ∀ rounds target, conflictBound s fd ≤ target + rounds →
    conflict s fd (findTarget s fd rounds target) = false := by
  intro rounds
  induction rounds with
  | zero => exact fun target h => conflict_of_bound_le h
  | succ rounds ih =>
    intro target h
    rw [findTarget]
    split
    · exact ih (target + 1) (by omega)
    · exact Bool.eq_false_iff.2 ‹_›

/-- The files that were only made to be avoided are closed again. -/
theorem foldl_closed_same (tempFds : List ℕ) : ∀ {s : Parent File}, (∀ n ∈ tempFds, n ∉ s.sources) →
    Same s (tempFds.foldl closed s) := by
  induction tempFds with
  | nil => intro s _; exact Same.refl s
  | cons n tempFds ih =>
    intro s h
    rw [List.forall_mem_cons] at h
    exact (closed_same h.1).trans (ih h.2)

/-- **`inheritDescriptor` avoids every clash** with the calls before it. -/
theorem Inv.inheritDescriptor_emplaces (hinv : Inv s) {dups : List ℕ} {target : ℕ}
    (h : inheritDescriptor s fd dups = some (s', target)) :
    ∃ fd', Emplaces s target fd' s' ∧ target ∉ s.targets ∧ target ∉ s.sources ∧ fd' ∉ s.targets := by
  unfold inheritDescriptor at h
  split at h
  · cases h
  rename_i file hgiven
  obtain ⟨howned, hfile⟩ := given_eq_some hgiven
  obtain ⟨⟨s₁, fd', tempFds⟩, havoid, hs'⟩ := Option.map_eq_some_iff.1 h
  obtain ⟨hsame, htable, hft, hsrc, htemp⟩ := avoidTargets_spec hinv hfile
    (by simpa using not_mem_sources_of_not_mem_owned howned) (List.forall_mem_nil _) List.not_mem_nil havoid
  -- the second stage looks at the descriptor that the first one ended with
  have hfree := findTarget_free s₁ fd' (conflictBound s₁ fd') 5 (Nat.le_add_left ..)
  obtain ⟨rfl, rfl⟩ := Prod.mk.inj hs'
  obtain ⟨hne, ht, hts⟩ := conflict_eq_false.1 hfree
  rw [List.forall_mem_cons] at hsrc
  refine ⟨fd', ⟨hsrc.1, hne.symm, s₁, file, hsame, htable, foldl_closed_same tempFds ?_⟩, hsame.targets ▸ ht,
    hsame.sources ▸ hts, hft⟩
  intro n hn
  rw [emplace_of_not_mem ht]
  intro hm
  rcases List.mem_cons.1 hm with rfl | hm
  · exact htemp hn
  · exact hsrc.2 n hn (hsame.sources ▸ hm)

/-! ### Whole runs -/

/-- What a call comes to, and when it is clear. -/
theorem Inv.step_cases (hinv : Inv s) {call : Call File} (h : step s call = some s') :
    (Same s s' ∧ call.IsClear s) ∨ ∃ targetFd fd, Emplaces s targetFd fd s' ∧
      (call.IsClear s ↔ targetFd ∉ s.targets ∧ targetFd ∉ s.sources ∧ fd ∉ s.targets) := by
  have hpipe : ∀ {targetFd childRead p dup}, (pipe s targetFd childRead p dup).map (settle s) = some s' →
      (Same s s' ∧ PipeClear s targetFd childRead p dup) ∨ ∃ targetFd' fd, Emplaces s targetFd' fd s' ∧
        (PipeClear s targetFd childRead p dup ↔
          targetFd' ∉ s.targets ∧ targetFd' ∉ s.sources ∧ fd ∉ s.targets) := by
    intro targetFd childRead p dup h
    rcases hinv.pipe_cases h with ⟨hmem, rfl⟩ | ⟨hmem, he⟩
    · exact .inl ⟨Same.refl _, .inl hmem⟩
    · refine .inr ⟨_, _, he, ?_⟩
      unfold PipeClear Clear
      rw [or_iff_right hmem]
  cases call with
  | dup2 fd targetFd dup => exact .inr ⟨_, _, hinv.dup2_emplaces h, Iff.rfl⟩
  | openPath targetFd fd file dup => exact .inr ⟨_, _, hinv.openPath_emplaces h, Iff.rfl⟩
  | pipe targetFd childRead p dup => exact hpipe h
  | pipeStdin p dup => exact hpipe h
  | pipeStdout p dup => exact hpipe h
  | pipeStderr p dup => exact hpipe h
  | nullStdin fd file dup => exact .inr ⟨_, _, hinv.openPath_emplaces h, Iff.rfl⟩
  | nullStdout fd file dup => exact .inr ⟨_, _, hinv.openPath_emplaces h, Iff.rfl⟩
  | nullStderr fd file dup => exact .inr ⟨_, _, hinv.openPath_emplaces h, Iff.rfl⟩
  | inheritDescriptor fd dups =>
    obtain ⟨⟨s₁, target⟩, hi, rfl⟩ := Option.map_eq_some_iff.1 h
    obtain ⟨fd', he, hclear⟩ := hinv.inheritDescriptor_emplaces hi
    exact .inr ⟨target, fd', he, iff_of_true trivial hclear⟩
  | opened fd file => exact .inl ⟨(hinv.opened_same h).1, trivial⟩
  | closed fd =>
    rw [step] at h
    split at h
    · cases h
    · rename_i howned
      obtain rfl := Option.some.inj h
      exact .inl ⟨closed_same (not_mem_sources_of_not_mem_owned howned), trivial⟩

/-- Every call keeps the invariant. -/
theorem Inv.step (hinv : Inv s) {call : Call File} (h : step s call = some s') : Inv s' := by
  rcases hinv.step_cases h with ⟨hsame, -⟩ | ⟨targetFd, fd, he, -⟩
  · exact hsame.inv hinv
  · exact he.inv hinv

/-- **Every call** keeps the plan sound exactly if it is clear of it. -/
theorem Inv.sound_step_iff (hinv : Inv s) {call : Call File} (h : Options.step s call = some s') :
    Sound s' ↔ Sound s ∧ call.IsClear s := by
  rcases hinv.step_cases h with ⟨hsame, hclear⟩ | ⟨targetFd, fd, he, hclear⟩
  · rw [hsame.sound_iff, and_iff_left hclear]
  · rw [he.sound_iff hinv, hclear]

/-- **The descriptor plan.** After any calls the plan works out exactly if every call that
comes to `dup2` was clear of the calls before it. -/
theorem planHolds_iff (table : ℕ → Option File) (calls : List (Call File)) {s : Parent File}
    (hrun : run step (start table) calls = some s) :
    PlanHolds s ↔ AllSteps step (fun s call => call.IsClear s) (start table) calls := by
  have hinv : Inv s := run_invariant (inv_start table) (fun _ _ _ hi hs => hi.step hs) calls hrun
  rw [hinv.plan_iff_sound, run_iff (fun _ _ _ hi hs => hi.step hs) (fun _ _ _ hi hs => hi.sound_step_iff hs) calls
    (inv_start table) hrun]
  exact and_iff_right (sound_start table)

/-- Descriptors 3 and 4 are open. -/
def twoFiles (fd : ℕ) : Option Char := if fd = 3 then some 'a' else if fd = 4 then some 'b' else none

/-- A descriptor whose number is a target already is inherited under another one. -/
theorem planHolds_inherited :
    ∃ s, run step (start twoFiles) [.dup2 4 3 9, .inheritDescriptor 3 [7]] = some s ∧ PlanHolds s := by
  refine ⟨_, rfl, (planHolds_iff twoFiles [.dup2 4 3 9, .inheritDescriptor 3 [7]] rfl).2 ?_⟩
  iterate 2 rw [allSteps_cons rfl]
  refine ⟨?_, trivial, trivial⟩
  simp only [Call.IsClear, Clear]
  decide

/-- Two descriptors that trade places: the child gets one file under both numbers. -/
theorem plan_swapped : ∃ s, run step (start twoFiles) [.dup2 3 4 9, .dup2 4 3 9] = some s ∧
    ([.dup2 3 4 9, .dup2 4 3 9].filterMap (Call.explicitTarget : Call Char → Option ℕ)).Nodup ∧ ¬ PlanHolds s := by
  refine ⟨_, rfl, by decide, fun h => ?_⟩
  have hchild := h.refers [(3, 4), (4, 3)] (List.Perm.refl _) ⟨4, 3, 'a'⟩ (by decide)
  exact absurd hchild (by decide)

end SpawnedProcess.Options

end EdenCommon
