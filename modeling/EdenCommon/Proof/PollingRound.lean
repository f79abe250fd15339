import EdenCommon.Spec.PollingCommunicate
import Mathlib.Data.List.Basic
import Mathlib.Data.List.Nodup
import Mathlib.Tactic.ByContra

/-!
# One round of `pollingCommunicate`

`handle_cases` says all that one entry of the array can do: nothing, close its pipe, read, or leave the
child's stdin with what the callback made of it. The entries of a round are about different
pipes, so that a round does to each pipe what its entry does, and nothing to those that are closed
(`round_spec`).

* `round_targets`: the pipes that a round closes.
* `round_unread`: an event for a pipe that is left reads a byte.
* `round_eof`: a pipe that is closed has been read to its end.
-/

namespace EdenCommon

open Lib

namespace PollingCommunicate

variable {s s' s₁ : Comm} {x : Answer} {it it' : ℤ × ℤ} {revents : ℤ → Events} {t fd : ℤ}

/-! ### The operations on the state -/

theorem mem_erase : it' ∈ (s.erase t).pipes ↔ it' ∈ s.pipes ∧ it'.1 ≠ t := by
  unfold Comm.erase
  rw [List.mem_filter, decide_eq_true_iff]

theorem mem_targets : t ∈ s.targets ↔ ∃ fd, (t, fd) ∈ s.pipes := by
  unfold Comm.targets
  rw [List.mem_map]
  constructor
  · rintro ⟨it, hit, rfl⟩
    exact ⟨it.2, hit⟩
  · rintro ⟨fd, h⟩
    exact ⟨(t, fd), h, rfl⟩

/-- A pipe is known by its number. -/
theorem eq_of_target {l : List (ℤ × ℤ)} (h : (l.map Prod.fst).Nodup) (hit : it ∈ l) (hfd : (it.1, fd) ∈ l) :
    (it.1, fd) = it := List.inj_on_of_nodup_map h hfd hit rfl

theorem targets_leave (s : Comm) (t fd : ℤ) : (s.leave t fd).targets = s.targets := by
  unfold Comm.targets Comm.leave
  rw [List.map_map]
  apply List.map_congr_left
  intro it _
  rw [Function.comp_apply]
  split <;> rfl

theorem mem_leave (h : it'.1 ≠ t) : it' ∈ (s.leave t fd).pipes ↔ it' ∈ s.pipes := by
  unfold Comm.leave
  rw [List.mem_map]
  constructor
  · rintro ⟨it, hit, rfl⟩
    split at h
    · rename_i hcond
      exact absurd hcond.1 h
    · rename_i hcond
      rwa [if_neg hcond]
  · intro hit
    refine ⟨it', hit, ?_⟩
    rw [if_neg fun hcond => h hcond.1]

/-- A pipe that is closed is closed whatever was left in its descriptor. -/
theorem erase_leave (s : Comm) (t fd : ℤ) : (s.leave t fd).erase t = s.erase t := by
  unfold Comm.erase Comm.leave
  simp only [Comm.mk.injEq, and_true]
  generalize (s.pipes.filter fun it => it.1 ≠ t).map Prod.snd = fds
  induction s.pipes with
  | nil => rfl
  | cons it pipes ih =>
    rw [List.map_cons, List.filter_cons, List.filter_cons, ih]
    by_cases h : it.1 = t
    · rw [if_neg (by split <;> simp [h]), if_neg (by simp [h])]
    · rw [if_neg (c := it.1 = t ∧ fd ∉ fds) fun hcond => h hcond.1]

/-- The number that the callback leaves, or the one that was there. -/
theorem mem_leave_self {fd' : ℤ} (h : (t, fd') ∈ (s.leave t fd).pipes) : fd' = fd ∨ (t, fd') ∈ s.pipes := by
  unfold Comm.leave at h
  rw [List.mem_map] at h
  obtain ⟨it, hit, heq⟩ := h
  split at heq
  · rw [Prod.mk.injEq] at heq
    exact Or.inl heq.2.symm
  · rw [heq] at hit
    exact Or.inr hit

/-- No two pipes have the same number, on either side. -/
structure Distinct (s : Comm) : Prop where
  targets : s.targets.Nodup
  fds : (s.pipes.map Prod.snd).Nodup

theorem Distinct.erase (h : Distinct s) (t : ℤ) : Distinct (s.erase t) :=
  ⟨h.targets.sublist (List.filter_sublist.map _), h.fds.sublist (List.filter_sublist.map _)⟩

/-- What the callback leaves is not a descriptor of the others. -/
theorem Distinct.leave (h : Distinct s) (t fd : ℤ) : Distinct (s.leave t fd) := by
  refine ⟨by rw [targets_leave]; exact h.targets, ?_⟩
  unfold Comm.leave
  rw [List.map_map]
  refine List.Nodup.map_on ?_ (List.Nodup.of_map Prod.fst h.targets)
  intro it hit it' hit' heq
  simp only [Function.comp_apply] at heq
  have hothers : ∀ it₀ ∈ s.pipes, it₀.1 ≠ t → it₀.2 ∈ (s.pipes.filter fun it => it.1 ≠ t).map Prod.snd := by
    intro it₀ hit₀ hne
    exact List.mem_map_of_mem (List.mem_filter.mpr ⟨hit₀, by simpa using hne⟩)
  by_cases hfree : fd ∉ (s.pipes.filter fun it => it.1 ≠ t).map Prod.snd
  · by_cases ht : it.1 = t <;> by_cases ht' : it'.1 = t
    · exact List.inj_on_of_nodup_map h.targets hit hit' (ht.trans ht'.symm)
    · rw [if_pos ⟨ht, hfree⟩, if_neg fun hc => ht' hc.1] at heq
      have hfd : fd = it'.2 := heq
      exact absurd (by rw [hfd]; exact hothers it' hit' ht') hfree
    · rw [if_neg fun hc => ht hc.1, if_pos ⟨ht', hfree⟩] at heq
      have hfd : fd = it.2 := heq.symm
      exact absurd (by rw [hfd]; exact hothers it hit ht) hfree
    · rw [if_neg fun hc => ht hc.1, if_neg fun hc => ht' hc.1] at heq
      exact List.inj_on_of_nodup_map h.fds hit hit' heq
  · rw [if_neg fun hc => hfree hc.2, if_neg fun hc => hfree hc.2] at heq
    exact List.inj_on_of_nodup_map h.fds hit hit' heq

/-! ### One entry -/

/-- All that an entry can do. -/
inductive Handled (x : Answer) (it : ℤ × ℤ) (s : Comm) : Comm → Prop
  | idle (h : serves x it = false) : Handled x it s s
  | closed (h : serves x it = true) (heof : it.1 ≠ STDIN_FILENO → s.unread it.2 = []) : Handled x it s (s.erase it.1)
  | data (h : serves x it = true) (ht : it.1 ≠ STDIN_FILENO) (buf rest : Bytes) (hbuf : buf ≠ [])
    (hun : s.unread it.2 = buf ++ rest) : Handled x it s (s.append it.1 it.2 buf)
  | left (h : serves x it = false) (ht : it.1 = STDIN_FILENO) (fd : ℤ) (hcb : x.callback = .returns false fd) :
    Handled x it s (s.leave it.1 fd)

theorem pollfd_pollerr (hno : NoErr x) (hpoll : x.poll = .ok revents) (ht : it.1 ≠ STDIN_FILENO) :
    (pollfd revents it).revents.pollerr = false := by
  have herr := hno revents hpoll it.1 ht
  unfold pollfd report
  simp only
  split
  · rfl
  · exact herr

theorem lookup_ne_none {l : List (ℤ × ℤ)} (h : it ∈ l) : l.lookup it.1 ≠ none := by
  rw [ne_eq, List.lookup_eq_none_iff]
  intro hnone
  have := hnone it h
  simp at this

/-- The child's stdin. -/
theorem handleRest_stdin (hpoll : x.poll = .ok revents) (ht : it.1 = STDIN_FILENO)
    (h : handleRest x it.1 (pollfd revents it).revents s = .ok s') : Handled x it s s' := by
  have hserves : serves x it = ((pollfd revents it).revents.pollhup || (pollfd revents it).revents.pollerr ||
      ((pollfd revents it).revents.pollout && x.callback.isDone)) := by
    unfold serves
    rw [hpoll]
    simp only [if_pos ht]
  generalize (pollfd revents it).revents = r at h hserves
  have heof : it.1 ≠ STDIN_FILENO → s.unread it.2 = [] := fun hne => absurd ht hne
  unfold handleRest at h
  split at h
  · rename_i hhup
    rw [hhup.1, Bool.true_or, Bool.true_or] at hserves
    obtain rfl := Except.ok.inj h
    exact .closed hserves heof
  rename_i hhup
  have hhup : r.pollhup = false := by simpa [ht] using hhup
  rw [hhup, Bool.false_or] at hserves
  split at h
  · rename_i hout
    rw [hout.1, Bool.true_and] at hserves
    cases hlookup : s.pipes.lookup it.1 with
    | none =>
      rw [hlookup] at h
      contradiction
    | some fd₀ =>
      rw [hlookup] at h
      cases hcb : x.callback with
      | throws =>
        rw [hcb] at h
        contradiction
      | returns done fd =>
        rw [hcb] at h hserves
        cases done with
        | true =>
          simp only [erase_leave] at h
          obtain rfl := Except.ok.inj h
          exact .closed (by rw [hserves, CallbackAnswer.isDone, Bool.or_true]) heof
        | false =>
          have hdone : (CallbackAnswer.returns false fd).isDone = false := rfl
          rw [hdone, Bool.or_false] at hserves
          simp only at h
          split at h
          · rename_i herr
            rw [erase_leave] at h
            obtain rfl := Except.ok.inj h
            exact .closed (by rw [hserves, herr]) heof
          · rename_i herr
            obtain rfl := Except.ok.inj h
            exact .left (by simpa [hserves] using herr) ht fd hcb
  · rename_i hout
    have hout : r.pollout = false := by simpa [ht] using hout
    rw [hout, Bool.false_and, Bool.or_false] at hserves
    split at h
    · rename_i herr
      obtain rfl := Except.ok.inj h
      exact .closed (by rw [hserves, herr]) heof
    · rename_i herr
      obtain rfl := Except.ok.inj h
      exact .idle (by simpa [hserves] using herr)

/-- For a pipe that is read there is nothing behind the test that reads. -/
theorem handleRest_output (ht : t ≠ STDIN_FILENO) {r : Events} (herr : r.pollerr = false) (s : Comm) :
    handleRest x t r s = .ok s := by
  unfold handleRest
  rw [if_neg fun h => ht h.2, if_neg fun h => ht h.2, if_neg (by simp [herr])]

/-- **One entry**, if it is about its own pipe. -/
theorem handle_cases (hpoll : x.poll = .ok revents) (hno : NoErr x) {rm : ℤ → ℤ} (hrm : rm it.2 = it.1)
    (h : handle x rm (pollfd revents it) s = .ok s') : Handled x it s s' := by
  have hfd : (pollfd revents it).fd = it.2 := rfl
  unfold handle at h
  simp only [hfd, hrm] at h
  by_cases ht : it.1 = STDIN_FILENO
  · rw [if_neg fun hcond => hcond.2 ht] at h
    exact handleRest_stdin hpoll ht h
  have herr := pollfd_pollerr hno hpoll ht
  have hserves : serves x it =
      (((pollfd revents it).revents.pollhup || (pollfd revents it).revents.pollin) && (x.read it.2).isBytes) := by
    unfold serves
    rw [hpoll]
    simp only [if_neg ht]
  generalize (pollfd revents it).revents = r at h hserves herr
  split at h
  · rename_i hcond
    have hcond : (r.pollhup || r.pollin) = true := by simpa using hcond.1
    rw [hcond, Bool.true_and] at hserves
    cases hread : x.read it.2 with
    | error e =>
      rw [hread] at h hserves
      simp only at h
      split at h
      · obtain rfl := Except.ok.inj h
        exact .idle hserves
      · contradiction
    | bytes l =>
      rw [hread] at h hserves
      simp only at h
      split at h
      · rename_i hbuf
        obtain rfl := Except.ok.inj h
        refine .closed hserves fun _ => ?_
        have hpos : min (l + 1) BUFSIZ ≠ 0 := by
          unfold BUFSIZ
          omega
        simpa [hpos] using hbuf
      · rename_i hbuf
        rw [handleRest_output ht herr] at h
        obtain rfl := Except.ok.inj h
        exact .data hserves ht _ _ hbuf (List.take_append_drop _ _).symm
  · rename_i hcond
    have hcond : (r.pollhup || r.pollin) = false := by simpa [ht] using hcond
    rw [handleRest_output ht herr] at h
    obtain rfl := Except.ok.inj h
    exact .idle (by rw [hserves, hcond, Bool.false_and])

/-! ### The entries of a round -/

/-- The pipe `it` is the same in both states. -/
structure Agree (it : ℤ × ℤ) (s s' : Comm) : Prop where
  unread : s'.unread it.2 = s.unread it.2
  outputs : s'.outputs it.1 = s.outputs it.1
  pipes : ∀ fd, (it.1, fd) ∈ s'.pipes ↔ (it.1, fd) ∈ s.pipes

theorem Agree.refl (it : ℤ × ℤ) (s : Comm) : Agree it s s := ⟨rfl, rfl, fun _ => Iff.rfl⟩

theorem Agree.trans (h : Agree it s s₁) (h' : Agree it s₁ s') : Agree it s s' :=
  ⟨h'.unread.trans h.unread, h'.outputs.trans h.outputs, fun fd => (h'.pipes fd).trans (h.pipes fd)⟩

theorem Agree.targets (h : Agree it s s') : it.1 ∈ s'.targets ↔ it.1 ∈ s.targets := by
  rw [mem_targets, mem_targets]
  exact exists_congr h.pipes

theorem Agree.optBuffer (h : Agree it s s') : s'.optBuffer it.1 = s.optBuffer it.1 := by
  unfold Comm.optBuffer
  rw [h.outputs]

/-- What a round does to the pipe `it`. -/
structure Effect (x : Answer) (it : ℤ × ℤ) (s s' : Comm) : Prop where
  data : it.1 ≠ STDIN_FILENO → ∃ buf, s.unread it.2 = buf ++ s'.unread it.2 ∧
    s'.optBuffer it.1 = s.optBuffer it.1 ++ buf ∧ (serves x it → buf = [] → s.unread it.2 = [])
  targets : it.1 ∈ s'.targets ↔ ¬ (serves x it ∧ (it.1 ≠ STDIN_FILENO → s.unread it.2 = []))
  pipes : ∀ fd, (it.1, fd) ∈ s'.pipes → (it.1, fd) ∈ s.pipes ∨ it.1 = STDIN_FILENO ∧ x.callback = .returns false fd

theorem Effect.congr_right (h : Effect x it s s₁) (hs : Agree it s₁ s') : Effect x it s s' := by
  refine ⟨?_, ?_, fun fd hfd => h.pipes fd ((hs.pipes fd).mp hfd)⟩
  · rw [hs.unread, hs.optBuffer]
    exact h.data
  · rw [hs.targets]
    exact h.targets

theorem Effect.congr_left (hs : Agree it s s₁) (h : Effect x it s₁ s') : Effect x it s s' := by
  refine ⟨?_, ?_, fun fd hfd => ?_⟩
  · rw [← hs.unread, ← hs.optBuffer]
    exact h.data
  · rw [← hs.unread]
    exact h.targets
  · rw [← hs.pipes]
    exact h.pipes fd hfd

theorem Handled.effect (h : Handled x it s s') (hmem : it ∈ s.pipes) : Effect x it s s' := by
  have ht : it.1 ∈ s.targets := mem_targets.mpr ⟨it.2, hmem⟩
  cases h with
  | idle hserves =>
    refine ⟨fun _ => ⟨[], rfl, (List.append_nil _).symm, fun hs => ?_⟩, ?_, fun fd hfd => Or.inl hfd⟩
    · rw [hserves] at hs
      contradiction
    · rw [hserves]
      simpa using ht
  | closed hserves heof =>
    refine ⟨fun ht => ⟨[], rfl, (List.append_nil _).symm, fun _ _ => heof ht⟩, ?_, fun fd hfd => ?_⟩
    · refine iff_of_false ?_ fun hnot => hnot ⟨hserves, heof⟩
      rw [mem_targets]
      rintro ⟨fd, hfd⟩
      exact (mem_erase.mp hfd).2 rfl
    · exact Or.inl (mem_erase.mp hfd).1
  | data hserves hout buf rest hbuf hun =>
    refine ⟨fun _ => ⟨buf, ?_, ?_, fun _ hnil => absurd hnil hbuf⟩, ?_, fun fd hfd => Or.inl hfd⟩
    · unfold Comm.append
      simp only [Function.update_self]
      rw [hun, List.drop_left]
    · unfold Comm.optBuffer Comm.append
      simp only [Function.update_self, Option.getD_some]
    · refine iff_of_true ht fun hboth => hbuf ?_
      have hnil := hboth.2 hout
      rw [hun, List.append_eq_nil_iff] at hnil
      exact hnil.1
  | left hserves hin fd hcb =>
    refine ⟨fun hne => absurd hin hne, ?_, fun fd' hfd' => ?_⟩
    · rw [targets_leave, hserves]
      simpa using ht
    · rcases mem_leave_self hfd' with rfl | hold
      · exact Or.inr ⟨hin, hcb⟩
      · exact Or.inl hold

/-- The other pipes are the same; no byte is read from the child's stdin. -/
theorem Handled.agree (h : Handled x it s s') (ht : it'.1 ≠ it.1) (hfd : it.1 ≠ STDIN_FILENO → it'.2 ≠ it.2) :
    Agree it' s s' := by
  cases h with
  | idle _ => exact Agree.refl it' s
  | closed _ _ => exact ⟨rfl, rfl, fun fd => mem_erase.trans (and_iff_left ht)⟩
  | data _ hout buf rest _ _ =>
    refine ⟨?_, ?_, fun fd => Iff.rfl⟩
    · unfold Comm.append
      simp only [Function.update_of_ne (hfd hout)]
    · unfold Comm.append
      simp only [Function.update_of_ne ht]
  | left _ _ fd _ => exact ⟨rfl, rfl, fun fd' => mem_leave ht⟩

theorem Handled.distinct (h : Handled x it s s') (hd : Distinct s) : Distinct s' := by
  cases h with
  | idle _ => exact hd
  | closed _ _ => exact hd.erase it.1
  | data _ _ _ _ _ _ => exact ⟨hd.targets, hd.fds⟩
  | left _ _ fd _ => exact hd.leave it.1 fd

theorem scan_cons_eq_ok {rm : ℤ → ℤ} {pfd : Pollfd} {pfds : List Pollfd} (h : scan x rm (pfd :: pfds) s = .ok s') :
    ∃ s₁, handle x rm pfd s = .ok s₁ ∧ scan x rm pfds s₁ = .ok s' := by
  rw [scan] at h
  cases hs : handle x rm pfd s with
  | error e =>
    rw [hs] at h
    contradiction
  | ok s₁ =>
    rw [hs] at h
    exact ⟨s₁, rfl, h⟩

/-- **The loop over the array.** Each entry has its effect, and the other pipes are the same. -/
theorem scan_spec (hpoll : x.poll = .ok revents) (hno : NoErr x) {rm : ℤ → ℤ} {items : List (ℤ × ℤ)}
    (hT : (items.map Prod.fst).Nodup) (hF : (items.map Prod.snd).Nodup) (hrm : ∀ it ∈ items, rm it.2 = it.1)
    (hmem : ∀ it ∈ items, it ∈ s.pipes) (hd : Distinct s) (h : scan x rm (items.map (pollfd revents)) s = .ok s') :
    (∀ it ∈ items, Effect x it s s') ∧
      (∀ it', it'.1 ∉ items.map Prod.fst → (∀ it ∈ items, it.1 ≠ STDIN_FILENO → it'.2 ≠ it.2) → Agree it' s s') ∧
        Distinct s' := by
  induction items generalizing s with
  | nil =>
    rw [List.map_nil, scan] at h
    obtain rfl := Except.ok.inj h
    exact ⟨fun it hit => absurd hit List.not_mem_nil, fun it' _ _ => Agree.refl it' s, hd⟩
  | cons it items ih =>
    rw [List.map_cons, List.nodup_cons] at hT hF
    rw [List.map_cons] at h
    obtain ⟨s₁, hh, hrest⟩ := scan_cons_eq_ok h
    have hcases := handle_cases hpoll hno (hrm it List.mem_cons_self) hh
    -- the entries behind this one are about other pipes
    have hother : ∀ it' ∈ items, it'.1 ≠ it.1 ∧ it'.2 ≠ it.2 := by
      intro it' hit'
      exact ⟨fun heq => hT.1 (heq ▸ List.mem_map_of_mem hit'), fun heq => hF.1 (heq ▸ List.mem_map_of_mem hit')⟩
    have hagree : ∀ it' ∈ items, Agree it' s s₁ := by
      intro it' hit'
      exact hcases.agree (hother it' hit').1 fun _ => (hother it' hit').2
    obtain ⟨heffect, hframe, hd'⟩ := ih hT.2 hF.2 (fun it' hit' => hrm it' (List.mem_cons_of_mem it hit'))
      (fun it' hit' => ((hagree it' hit').pipes it'.2).mpr (hmem it' (List.mem_cons_of_mem it hit')))
      (hcases.distinct hd) hrest
    refine ⟨?_, ?_, hd'⟩
    · intro it' hit'
      rcases List.mem_cons.mp hit' with rfl | hit'
      · apply (hcases.effect (hmem it' List.mem_cons_self)).congr_right
        exact hframe it' hT.1 fun it'' hit'' _ => (hother it'' hit'').2.symm
      · exact (heffect it' hit').congr_left (hagree it' hit')
    · intro it' ht' hfd'
      rw [List.map_cons, List.mem_cons, not_or] at ht'
      rw [List.forall_mem_cons] at hfd'
      exact (hcases.agree ht'.1 hfd'.1).trans (hframe it' ht'.2 hfd'.2)

theorem revmap_eq (hd : Distinct s) (hmem : it ∈ s.pipes) : revmap s.pipes it.2 = it.1 := by
  have hfold : ∀ (pipes : List (ℤ × ℤ)) (m : ℤ → ℤ), (pipes.map Prod.snd).Nodup →
      (it ∈ pipes ∨ it.2 ∉ pipes.map Prod.snd ∧ m it.2 = it.1) →
      pipes.foldl (fun revmap it => Function.update revmap it.2 it.1) m it.2 = it.1 := by
    intro pipes
    induction pipes with
    | nil =>
      intro m _ h
      simpa using h
    | cons it₀ pipes ih =>
      intro m hnodup h
      rw [List.map_cons, List.nodup_cons] at hnodup
      rw [List.foldl_cons]
      apply ih _ hnodup.2
      by_cases heq : it.2 = it₀.2
      · right
        refine ⟨heq ▸ hnodup.1, ?_⟩
        rw [heq, Function.update_self]
        rcases h with h | h
        · rcases List.mem_cons.mp h with rfl | h
          · rfl
          · exact absurd (heq ▸ List.mem_map_of_mem h) hnodup.1
        · exact absurd (by rw [heq]; exact List.mem_cons_self) h.1
      · rcases h with h | h
        · rcases List.mem_cons.mp h with rfl | h
          · exact absurd rfl heq
          · exact Or.inl h
        · rw [List.map_cons, List.mem_cons, not_or] at h
          exact Or.inr ⟨h.1.2, by rw [Function.update_of_ne heq]; exact h.2⟩
  exact hfold s.pipes _ hd.fds (Or.inl hmem)

/-- **One round.** -/
theorem round_spec (hd : Distinct s) (hno : NoErr x) (h : round s x = .ok s') :
    (∀ it ∈ s.pipes, Effect x it s s') ∧
      (∀ it', it'.1 ∉ s.targets → (∀ it ∈ s.pipes, it.1 ≠ STDIN_FILENO → it'.2 ≠ it.2) → Agree it' s s') ∧
        Distinct s' := by
  unfold round at h
  cases hpoll : x.poll with
  | error e =>
    rw [hpoll] at h
    simp only at h
    split at h
    · obtain rfl := Except.ok.inj h
      have hserves : ∀ it, serves x it = false := by
        intro it
        unfold serves
        rw [hpoll]
      exact ⟨fun it hit => (Handled.idle (hserves it)).effect hit, fun it' _ _ => Agree.refl it' s, hd⟩
    · contradiction
  | ok revents =>
    rw [hpoll] at h
    exact scan_spec hpoll hno hd.targets hd.fds (fun it hit => revmap_eq hd hit) (fun it hit => hit) hd h

theorem exists_fresh (pipes : List (ℤ × ℤ)) : ∃ fd : ℤ, ∀ it ∈ pipes, it.2 < fd := by
  induction pipes with
  | nil => exact ⟨0, fun it hit => absurd hit List.not_mem_nil⟩
  | cons it pipes ih =>
    obtain ⟨fd, hfd⟩ := ih
    refine ⟨max fd (it.2 + 1), fun it' hit' => ?_⟩
    rcases List.mem_cons.mp hit' with rfl | hit'
    · omega
    · have := hfd it' hit'
      omega

/-- A pipe that is closed stays closed, and nothing is read for it. -/
theorem round_gone (hd : Distinct s) (hno : NoErr x) (h : round s x = .ok s') (ht : t ∉ s.targets) :
    t ∉ s'.targets ∧ s'.optBuffer t = s.optBuffer t := by
  obtain ⟨fd, hfd⟩ := exists_fresh s.pipes
  have hagree : Agree (t, fd) s s' := by
    apply (round_spec hd hno h).2.1 _ ht
    intro it hit _
    have := hfd it hit
    simp only
    omega
  exact ⟨fun hmem => ht (hagree.targets.mp hmem), hagree.optBuffer⟩

theorem round_pipes (hd : Distinct s) (hno : NoErr x) (h : round s x = .ok s') (hit : it ∈ s'.pipes) :
    it ∈ s.pipes ∨ it.1 = STDIN_FILENO ∧ x.callback = .returns false it.2 := by
  have ht : it.1 ∈ s.targets := by
    by_contra hnot
    exact (round_gone hd hno h hnot).1 (mem_targets.mpr ⟨it.2, hit⟩)
  obtain ⟨fd, hfd⟩ := mem_targets.mp ht
  exact ((round_spec hd hno h).1 _ hfd).pipes it.2 hit

/-- The pipes that a round closes. -/
theorem round_targets (hd : Distinct s) (hno : NoErr x) (h : round s x = .ok s') :
    t ∈ s'.targets ↔ t ∈ s.targets ∧ ¬ Closes s x t := by
  by_cases ht : t ∈ s.targets
  · obtain ⟨fd, hfd⟩ := mem_targets.mp ht
    rw [((round_spec hd hno h).1 _ hfd).targets, and_iff_right ht]
    apply not_congr
    constructor
    · intro hboth
      exact ⟨fd, hfd, hboth⟩
    · rintro ⟨fd', hfd', hboth⟩
      obtain rfl : fd' = fd := congrArg Prod.snd (eq_of_target hd.targets hfd hfd')
      exact hboth
  · exact iff_of_false (round_gone hd hno h ht).1 fun hboth => ht hboth.1

/-- An event for a pipe that is left reads a byte. -/
theorem round_unread (hd : Distinct s) (hno : NoErr x) (h : round s x = .ok s') (ht : it.1 ≠ STDIN_FILENO)
    (hit : it ∈ s'.pipes) :
    it ∈ s.pipes ∧ (s'.unread it.2).length + (if serves x it then 1 else 0) ≤ (s.unread it.2).length := by
  have hmem : it ∈ s.pipes := by
    rcases round_pipes hd hno h hit with hmem | hstdin
    · exact hmem
    · exact absurd hstdin.1 ht
  have heffect := (round_spec hd hno h).1 it hmem
  obtain ⟨buf, hbuf, -, hnil⟩ := heffect.data ht
  have hopen := heffect.targets.mp (mem_targets.mpr ⟨it.2, hit⟩)
  refine ⟨hmem, ?_⟩
  have hlen := congrArg List.length hbuf
  rw [List.length_append] at hlen
  split
  · rename_i hserves
    have hpos : buf ≠ [] := fun hb => hopen ⟨hserves, fun _ => hnil hserves hb⟩
    have := List.length_pos_of_ne_nil hpos
    omega
  · omega

/-- A pipe that is closed has been read to its end. -/
theorem round_eof (hd : Distinct s) (hno : NoErr x) (h : round s x = .ok s') (ht : it.1 ≠ STDIN_FILENO)
    (hit : it ∈ s.pipes) (hnot : it ∉ s'.pipes) : s'.unread it.2 = [] := by
  have heffect := (round_spec hd hno h).1 it hit
  have hgone : it.1 ∉ s'.targets := by
    rw [mem_targets]
    rintro ⟨fd, hfd⟩
    rcases heffect.pipes fd hfd with hmem | hstdin
    · rw [eq_of_target hd.targets hit hmem] at hfd
      exact hnot hfd
    · exact ht hstdin.1
  obtain ⟨buf, hbuf, -, -⟩ := heffect.data ht
  have hnil := (not_not.mp ((not_congr heffect.targets).mp hgone)).2 ht
  rw [hbuf, List.append_eq_nil_iff] at hnil
  exact hnil.2

end PollingCommunicate

end EdenCommon
