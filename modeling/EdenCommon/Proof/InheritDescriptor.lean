import EdenCommon.Spec.InheritDescriptor
import EdenCommon.Proof.SpawnOptions
import Mathlib.Data.List.Nodup

/-!
# `inheritDescriptor` ends with a safe target

While the first loop goes on, the descriptor and the duplicates kept open are different
numbers, and all of them are targets. So it ends after at most as many rounds as there are
targets, whatever the descriptors before it are (`inheritDescriptor_isSome`). The second one
passes over numbers in use only, of which there are two for each descriptor and the source.

Options that `inheritDescriptor` alone has filled are `Sound`, and then the copies may be
executed in any order.
-/

namespace EdenCommon

namespace SpawnedProcess.Options

open Lib Parent

variable {File : Type*} {s s' : Parent File} {fd : ℕ} {file : File} {dups : ℕ → ℕ}

/-! ### The loops and their results -/

theorem any_target_iff : (s.descriptors_.any fun d => d.1 = fd) = true ↔ fd ∈ s.targets := by
  unfold Parent.targets
  simp only [List.any_eq_true, decide_eq_true_eq, List.mem_map]

/-- The rounds of the first stage are `avoidTargets`. -/
theorem drive_sourceRound {ds tempFds : List ℕ} {x : Parent File × ℕ × List ℕ}
    (h : avoidTargets file ds s fd tempFds = some x) (d : ℕ) :
    ∃ rest, drive (sourceRound file) (ds ++ [d]) (s, fd, tempFds) = some (some x, rest) := by
  refine avoidTargets_induction (P := fun ds s fd tempFds =>
    ∃ rest, drive (sourceRound file) (ds ++ [d]) (s, fd, tempFds) = some (some x, rest)) ?_ ?_ h
  · intro ds s fd tempFds hfd hx
    have hround : ∀ dup, sourceRound file (s, fd, tempFds) dup = .inr (some x) := by
      intro dup
      rw [sourceRound, if_neg (mt any_target_iff.1 hfd), hx]
    cases ds with
    | nil => exact ⟨[], drive_inr (hround d)⟩
    | cons dup ds => exact ⟨ds ++ [d], drive_inr (hround dup)⟩
  · rintro dup ds s s₁ fd tempFds hfd hopened ⟨rest, hdrive⟩
    have hround : sourceRound file (s, fd, tempFds) dup = .inl (s₁, dup, fd :: tempFds) := by
      rw [sourceRound, if_pos (any_target_iff.2 hfd), hopened]
      rfl
    exact ⟨rest, by rw [List.cons_append, drive_inl hround, hdrive]⟩

theorem avoidTargets_append {ds tempFds : List ℕ} {x : Parent File × ℕ × List ℕ}
    (h : avoidTargets file ds s fd tempFds = some x) (ds' : List ℕ) :
    avoidTargets file (ds ++ ds') s fd tempFds = some x := by
  refine avoidTargets_induction (P := fun ds s fd tempFds =>
    avoidTargets file (ds ++ ds') s fd tempFds = some x) ?_ ?_ h
  · intro ds s fd tempFds hfd hx
    cases ds ++ ds' with
    | nil => rw [avoidTargets, if_neg hfd, hx]
    | cons dup ds => rw [avoidTargets, if_neg hfd, hx]
  · intro dup ds s s₁ fd tempFds hfd hopened ih
    rw [List.cons_append, avoidTargets, if_pos hfd, hopened, Option.bind_some, ih]

/-- Any descriptors before the call. -/
theorem avoidTargets_result {ds tempFds tempFds' : List ℕ} {fd' : ℕ}
    (h : avoidTargets file ds s fd tempFds = some (s', fd', tempFds')) :
    s'.descriptors_ = s.descriptors_ ∧ fd' ∉ s.targets := by
  refine avoidTargets_induction (P := fun _ s _ _ => s'.descriptors_ = s.descriptors_ ∧ fd' ∉ s.targets) ?_ ?_ h
  · intro _ s fd tempFds hfd hx
    cases hx
    exact ⟨rfl, hfd⟩
  · intro dup _ s s₁ fd tempFds _ hopened ih
    obtain ⟨-, rfl⟩ := opened_eq_some hopened
    exact ih

/-- The rounds of the second stage are `findTarget`. -/
theorem drive_targetRound : ∀ rounds target, conflict s fd (findTarget s fd rounds target) = false →
    ∃ rest, drive (targetRound s fd) (List.replicate (rounds + 1) ()) target =
      some (findTarget s fd rounds target, rest) := by
  have hround : ∀ target, targetRound s fd target () =
      if conflict s fd target then .inl (target + 1) else .inr target := by
    intro target
    unfold targetRound conflict
    by_cases h : target = fd
    · rw [if_pos h, decide_eq_true h, Bool.true_or, if_pos rfl]
    · rw [if_neg h, decide_eq_false h, Bool.false_or]
  intro rounds
  induction rounds with
  | zero =>
    intro target h
    rw [findTarget] at h
    exact ⟨[], drive_inr (by rw [hround, h]; rfl)⟩
  | succ rounds ih =>
    intro target h
    rw [findTarget] at h ⊢
    rw [List.replicate_succ]
    split at h
    · rename_i hconflict
      have hgoes : targetRound s fd target () = .inl (target + 1) := by rw [hround, if_pos hconflict]
      obtain ⟨rest, hdrive⟩ := ih (target + 1) h
      exact ⟨rest, by rw [drive_inl hgoes, hdrive, if_pos hconflict]⟩
    · rename_i hconflict
      refine ⟨List.replicate (rounds + 1) (), ?_⟩
      rw [if_neg hconflict]
      exact drive_inr (by rw [hround, if_neg hconflict])

/-- The second stage passes over numbers in conflict only. -/
theorem findTarget_passed (s : Parent File) (fd : ℕ) : ∀ rounds start, start ≤ findTarget s fd rounds start ∧
    ∀ n, start ≤ n → n < findTarget s fd rounds start → conflict s fd n = true := by
  intro rounds
  induction rounds with
  | zero =>
    intro start
    rw [findTarget]
    exact ⟨le_rfl, fun n h h' => absurd h' (by omega)⟩
  | succ rounds ih =>
    intro start
    rw [findTarget]
    split
    · rename_i hconflict
      obtain ⟨hle, hpassed⟩ := ih (start + 1)
      refine ⟨by omega, fun n h h' => ?_⟩
      rcases Nat.eq_or_lt_of_le h with rfl | h
      · exact hconflict
      · exact hpassed n h h'
    · exact ⟨le_rfl, fun n h h' => absurd h' (by omega)⟩

theorem findTarget_le (rounds : ℕ) : findTarget s fd rounds 5 ≤ 2 * s.descriptors_.length + 6 := by
  obtain ⟨hle, hpassed⟩ := findTarget_passed s fd rounds 5
  -- the numbers passed over are different, and each of them is in use
  have hsub : List.range' 5 (findTarget s fd rounds 5 - 5) ⊆ fd :: (s.targets ++ s.sources) := by
    intro n hn
    rw [List.mem_range'_1] at hn
    have hconflict := hpassed n hn.1 (by omega)
    by_contra hmem
    rw [List.mem_cons, List.mem_append, not_or, not_or] at hmem
    rw [conflict_eq_false.2 hmem] at hconflict
    cases hconflict
  have hnd : (List.range' 5 (findTarget s fd rounds 5 - 5)).Nodup := List.nodup_range'
  have hlength := (hnd.subperm hsub).length_le
  simp only [List.length_range', List.length_cons, List.length_append, Parent.targets, Parent.sources,
    List.length_map] at hlength
  omega

/-! ### The call -/

theorem foldl_closed_descriptors (tempFds : List ℕ) : ∀ s : Parent File,
    (tempFds.foldl closed s).descriptors_ = s.descriptors_ := by
  induction tempFds with
  | nil => exact fun s => rfl
  | cons n tempFds ih => exact fun s => ih (s.closed n)

/-- What a call that ends comes to. -/
theorem inheritDescriptor_safelyAdded {ds : List ℕ} {target : ℕ} (h : inheritDescriptor s fd ds = some (s', target)) :
    ∃ fd', SafelyAdded s s' target fd' := by
  unfold inheritDescriptor at h
  split at h
  · cases h
  rename_i file hgiven
  obtain ⟨⟨s₁, fd', tempFds⟩, havoid, hs'⟩ := Option.map_eq_some_iff.1 h
  obtain ⟨hdescriptors, hfd⟩ := avoidTargets_result havoid
  have htargets : s₁.targets = s.targets := congrArg (List.map Prod.fst) hdescriptors
  have hsources : s₁.sources = s.sources := congrArg (List.map Prod.snd) hdescriptors
  have hfree := findTarget_free s₁ fd' (conflictBound s₁ fd') 5 (Nat.le_add_left ..)
  obtain ⟨rfl, rfl⟩ := Prod.mk.inj hs'
  obtain ⟨hne, ht, hts⟩ := conflict_eq_false.1 hfree
  refine ⟨fd', ⟨?_, (findTarget_passed _ _ _ 5).1, ?_, htargets ▸ ht, hsources ▸ hts, hne, hfd⟩⟩
  · rw [foldl_closed_descriptors, emplace_of_not_mem ht, hdescriptors]
  · exact hdescriptors ▸ findTarget_le _

theorem answers_add (dups : ℕ → ℕ) (n k : ℕ) : ∃ ds, answers dups (n + 1 + k) = answers dups n ++ [dups n] ++ ds :=
  ⟨((List.range k).map (n + 1 + ·)).map dups, by simp [answers, List.range_add, List.range_succ]⟩

theorem Unopened.answers_nodup (hdups : Unopened s dups) (n : ℕ) : (answers dups n).Nodup := by
  refine List.Nodup.map (fun j k h => ?_) List.nodup_range
  rcases Nat.lt_trichotomy j k with hlt | heq | hlt
  · exact absurd h ((hdups k).2 j hlt)
  · exact heq
  · exact absurd h.symm ((hdups j).2 k hlt)

/-- The first stage ends. -/
theorem Unopened.avoidTargets_ends (hdups : Unopened s dups) (hgiven : s.given fd = some file) :
    ∃ x, avoidTargets file (answers dups s.targets.length) s fd [] = some x := by
  have hnone : ∀ n ∈ answers dups s.targets.length, s.table n = none := by
    intro n hn
    obtain ⟨k, -, rfl⟩ := List.mem_map.1 hn
    exact (hdups k).1
  have hlength : s.targets.length ≤ (answers dups s.targets.length).length := by simp [answers]
  have hsome := inheritDescriptor_isSome hgiven hnone (hdups.answers_nodup _) hlength
  unfold inheritDescriptor at hsome
  rw [hgiven] at hsome
  dsimp only at hsome
  rw [Option.isSome_map] at hsome
  exact Option.isSome_iff_exists.1 hsome

/-- **The loops end.** With enough rounds both have ended, and the limit plays no part. -/
theorem Unopened.inheritDescriptorFor_ends (hdups : Unopened s dups) (hgiven : s.given fd = some file) :
    ∃ x n, ∀ rounds, n ≤ rounds → inheritDescriptorFor rounds s fd dups = some x ∧
      inheritDescriptor s fd (answers dups rounds) = some x := by
  obtain ⟨⟨s₁, fd', tempFds⟩, havoid⟩ := hdups.avoidTargets_ends hgiven
  have hfree := findTarget_free s₁ fd' (conflictBound s₁ fd') 5 (Nat.le_add_left ..)
  obtain ⟨rest₁, hsource⟩ := drive_sourceRound havoid (dups s.targets.length)
  obtain ⟨rest₂, htarget⟩ := drive_targetRound _ _ hfree
  refine ⟨(tempFds.foldl closed (emplace s₁ (findTarget s₁ fd' (conflictBound s₁ fd') 5) fd' file),
    findTarget s₁ fd' (conflictBound s₁ fd') 5), s.targets.length + 1 + (conflictBound s₁ fd' + 1),
    fun rounds hrounds => ?_⟩
  obtain ⟨k, rfl⟩ := Nat.exists_eq_add_of_le hrounds
  obtain ⟨ds, hds⟩ := answers_add dups s.targets.length (conflictBound s₁ fd' + 1 + k)
  rw [← Nat.add_assoc] at hds
  constructor
  · have hrounds' : s.targets.length + 1 + (conflictBound s₁ fd' + 1) + k =
        conflictBound s₁ fd' + 1 + (s.targets.length + 1 + k) := by omega
    unfold inheritDescriptorFor
    rw [hgiven, Option.bind_some, hds, drive_append hsource ds, Option.bind_some, Option.bind_some, hrounds', List.replicate_add]
    dsimp only
    rw [drive_append htarget, Option.map_some]
  · unfold inheritDescriptor
    rw [hgiven]
    dsimp only
    rw [hds, List.append_assoc, avoidTargets_append havoid]
    rfl

/-! ### Options filled by `inheritDescriptor` alone -/

theorem isClear_of_explicitTarget_eq_none {call : Call File} (h : call.explicitTarget = none) (s : Parent File) :
    call.IsClear s := by
  cases call with
  | inheritDescriptor fd dups => trivial
  | opened fd file => trivial
  | closed fd => trivial
  | _ => cases h

theorem sound_of_inherited {table : ℕ → Option File} {calls : List (Call File)}
    (hrun : run step (start table) calls = some s) (hcalls : ∀ call ∈ calls, call.explicitTarget = none) :
    Inv s ∧ Sound s := by
  have hinv : Inv s := run_invariant (inv_start table) (fun _ _ _ hi hs => hi.step hs) calls hrun
  refine ⟨hinv, (run_iff (fun _ _ _ hi hs => hi.step hs) (fun _ _ _ hi hs => hi.sound_step_iff hs) calls
    (inv_start table) hrun).2 ⟨sound_start table, ?_⟩⟩
  exact AllSteps.of_forall (fun call hcall s => isClear_of_explicitTarget_eq_none (hcalls call hcall) s) _

/-- **`inheritDescriptor` ends with a safe target.** For any descriptors before it, and
whatever unopened numbers `duplicate` answers with. So the child's table does not depend on
the order of the copies if every descriptor has come that way. -/
theorem inheritDescriptor_ends_safely (hgiven : s.given fd = some file) (hdups : Unopened s dups) :
    (∃ s' target fd', SafelyAdded s s' target fd' ∧ ∃ n, ∀ rounds, n ≤ rounds →
      inheritDescriptorFor rounds s fd dups = some (s', target) ∧
        inheritDescriptor s fd (answers dups rounds) = some (s', target)) ∧
      ∀ (table : ℕ → Option File) (calls : List (Call File)) (s : Parent File),
        (∀ call ∈ calls, call.explicitTarget = none) → run step (start table) calls = some s →
          ∀ actions actions', actions.Perm s.descriptors_ → actions'.Perm s.descriptors_ →
            copies s.table actions = copies s.table actions' := by
  constructor
  · obtain ⟨⟨s', target⟩, n, hends⟩ := hdups.inheritDescriptorFor_ends hgiven
    obtain ⟨fd', hadded⟩ := inheritDescriptor_safelyAdded (hends n le_rfl).2
    exact ⟨s', target, fd', hadded, n, hends⟩
  · intro table calls s hcalls hrun actions actions' hp hp'
    obtain ⟨hinv, hap, -⟩ := sound_of_inherited hrun hcalls
    rw [copies_perm hinv.targets_nodup hap hp, copies_perm hinv.targets_nodup hap hp']

/-- Descriptors 3, 4 and 7 are open; the child gets the first two as 7 and 5. -/
def sevenTaken : Parent Char where
  table fd := if fd = 3 then some 'a' else if fd = 4 then some 'b' else if fd = 7 then some 'c' else none
  descriptors_ := [(7, 3), (5, 4)]
  pipes_ := []
  requests := []

theorem unopened_sevenTaken : Unopened sevenTaken fun k => 8 + k := by
  refine fun k => ⟨?_, fun j hj => ?_⟩
  · have h3 : ¬ 8 + k = 3 := by omega
    have h4 : ¬ 8 + k = 4 := by omega
    have h7 : ¬ 8 + k = 7 := by omega
    dsimp only [sevenTaken]
    rw [if_neg h3, if_neg h4, if_neg h7]
  · dsimp only
    omega

/-- Descriptor 7 is a target already, and two descriptors are copied in either order. -/
theorem inheritDescriptor_ends_safely_seven :
    (∃ s' target fd', SafelyAdded sevenTaken s' target fd' ∧ ∃ n, ∀ rounds, n ≤ rounds →
      inheritDescriptorFor rounds sevenTaken 7 (fun k => 8 + k) = some (s', target)) ∧
      ∃ s, run step (start twoFiles) [.inheritDescriptor 3 [], .inheritDescriptor 4 []] = some s ∧
        copies s.table s.descriptors_ = copies s.table s.descriptors_.reverse := by
  have hgiven : sevenTaken.given 7 = some 'c' := rfl
  obtain ⟨⟨s', target, fd', hadded, n, hends⟩, horder⟩ := inheritDescriptor_ends_safely hgiven unopened_sevenTaken
  refine ⟨⟨s', target, fd', hadded, n, fun rounds h => (hends rounds h).1⟩, _, rfl, ?_⟩
  exact horder twoFiles [.inheritDescriptor 3 [], .inheritDescriptor 4 []] _ (by decide) rfl _ _ (List.Perm.refl _)
    (List.reverse_perm _)

end SpawnedProcess.Options

end EdenCommon
