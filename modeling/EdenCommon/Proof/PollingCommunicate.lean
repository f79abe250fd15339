import EdenCommon.Proof.PollingRound

/-!
# What `pollingCommunicate` returns

Pipe by pipe, what was read and what is left are together what the child writes (`Inv`). The loop ends
when its rounds have left no pipe (`loop_eq_ok`), and then nothing is left to read.

* `run_targets`: the pipes that are left are those that no round has closed.
* `run_served`, `run_stdin`: a pipe that is left was served at most once for each of its bytes, and the
  child's stdin not at all.
* `run_isSome`: regular answers throw nothing.
-/

namespace EdenCommon

open Lib

namespace PollingCommunicate

variable {s s' s₁ : Comm} {x : Answer} {it it' : ℤ × ℤ} {revents : ℤ → Events} {t fd : ℤ}

theorem step_eq_some : step s x = some s' ↔ round s x = .ok s' := by
  unfold step
  cases round s x <;> simp [Except.toOption]

/-- Pipe by pipe: what was read and what is left is what the child writes, and nothing is left where the pipe
is closed. -/
structure Inv (p : Pipes) (unread : ℤ → Bytes) (s : Comm) : Prop where
  distinct : Distinct s
  pipes : ∀ it ∈ s.pipes, it.1 ≠ STDIN_FILENO → it ∈ p.list
  data : ∀ it ∈ p.list, it.1 ≠ STDIN_FILENO → s.optBuffer it.1 ++ s.unread it.2 = unread it.2
  closed : ∀ it ∈ p.list, it.1 ≠ STDIN_FILENO → it ∉ s.pipes → s.unread it.2 = []
  none : ∀ t, t ≠ STDIN_FILENO → t ∉ p.list.map Prod.fst → s.optBuffer t = []

theorem distinct_start (p : Pipes) (unread : ℤ → Bytes) : Distinct (start p unread) :=
  ⟨p.targets_nodup, p.fds_nodup⟩

/-- Only the child's stdin has an entry in front of the loop. -/
theorem optBuffer_start (p : Pipes) (unread : ℤ → Bytes) (ht : t ≠ STDIN_FILENO) :
    (start p unread).optBuffer t = [] := by
  have hfold : ∀ (pipes : List (ℤ × ℤ)) (m : ℤ → Option Bytes), m t = none →
      pipes.foldl (fun (outputs : ℤ → Option Bytes) it =>
        if it.1 ≠ STDIN_FILENO then outputs else Function.update outputs it.1 (some [])) m t = none := by
    intro pipes
    induction pipes with
    | nil => exact fun m h => h
    | cons it pipes ih =>
      intro m h
      rw [List.foldl_cons]
      apply ih
      split
      · exact h
      · rename_i hstdin
        have hne : t ≠ it.1 := by
          rw [not_not.mp hstdin]
          exact ht
        rw [Function.update_of_ne hne, h]
  unfold Comm.optBuffer start
  simp only [hfold p.list (fun _ => none) rfl, Option.getD_none]

theorem inv_start (p : Pipes) (unread : ℤ → Bytes) : Inv p unread (start p unread) := by
  refine ⟨distinct_start p unread, fun it hit _ => hit, ?_, ?_, ?_⟩
  · intro it _ ht
    rw [optBuffer_start p unread ht]
    rfl
  · intro it hit _ hnot
    exact absurd hit hnot
  · intro t ht _
    exact optBuffer_start p unread ht

variable {p : Pipes} {unread : ℤ → Bytes} {xs : List Answer} {r : Bytes × Bytes}

/-- A pipe that is closed is the same after a round. -/
theorem Inv.agree (hi : Inv p unread s) (hno : NoErr x) (h : round s x = .ok s') (hit : it ∈ p.list)
    (ht : it.1 ≠ STDIN_FILENO) (hnot : it ∉ s.pipes) : Agree it s s' := by
  apply (round_spec hi.distinct hno h).2.1
  · rw [mem_targets]
    rintro ⟨fd, hfd⟩
    rw [eq_of_target p.targets_nodup hit (hi.pipes _ hfd ht)] at hfd
    exact hnot hfd
  · intro it' hit' ht' hfd
    have heq : it = it' := List.inj_on_of_nodup_map p.fds_nodup hit (hi.pipes _ hit' ht') hfd
    rw [heq] at hnot
    exact hnot hit'

theorem Inv.round (hi : Inv p unread s) (hno : NoErr x) (h : PollingCommunicate.round s x = .ok s') :
    Inv p unread s' := by
  have hspec := round_spec hi.distinct hno h
  constructor
  · exact hspec.2.2
  · intro it hit ht
    rcases round_pipes hi.distinct hno h hit with hmem | hstdin
    · exact hi.pipes it hmem ht
    · exact absurd hstdin.1 ht
  · intro it hit ht
    by_cases hmem : it ∈ s.pipes
    · obtain ⟨buf, hbuf, hout, -⟩ := (hspec.1 it hmem).data ht
      rw [hout, List.append_assoc, ← hbuf]
      exact hi.data it hit ht
    · have hagree := hi.agree hno h hit ht hmem
      rw [hagree.optBuffer, hagree.unread]
      exact hi.data it hit ht
  · intro it hit ht hnot
    by_cases hmem : it ∈ s.pipes
    · exact round_eof hi.distinct hno h ht hmem hnot
    · rw [(hi.agree hno h hit ht hmem).unread]
      exact hi.closed it hit ht hmem
  · intro t ht hnot
    have hgone : t ∉ s.targets := by
      rw [mem_targets]
      rintro ⟨fd, hfd⟩
      exact hnot (List.mem_map_of_mem (hi.pipes _ hfd ht))
    rw [(round_gone hi.distinct hno h hgone).2]
    exact hi.none t ht hnot

theorem run_inv (hno : ∀ x ∈ xs, NoErr x) (hrun : run step (start p unread) xs = some s) : Inv p unread s := by
  refine run_guarded (G := fun _ x => NoErr x) ?_ xs (inv_start p unread) (AllSteps.of_forall ?_ _) hrun
  · exact fun s x s' hi hx hs => hi.round hx (step_eq_some.mp hs)
  · exact fun x hx _ => hno x hx

/-- **When all pipes are closed**, all that the child writes has been read. -/
theorem Inv.result (hi : Inv p unread s) (h : s.pipes = []) :
    s.result = (written p unread STDOUT_FILENO, written p unread STDERR_FILENO) := by
  have hbuffer : ∀ t, t ≠ STDIN_FILENO → s.optBuffer t = written p unread t := by
    intro t ht
    unfold written
    cases hlookup : p.list.lookup t with
    | none =>
      apply hi.none t ht
      rw [List.lookup_eq_none_iff] at hlookup
      intro hmem
      obtain ⟨it, hit, rfl⟩ := List.mem_map.mp hmem
      have := hlookup it hit
      simp at this
    | some fd =>
      obtain ⟨l₁, l₂, hl, -⟩ := List.lookup_eq_some_iff.mp hlookup
      have hit : (t, fd) ∈ p.list := by
        rw [hl]
        exact List.mem_append_right l₁ List.mem_cons_self
      have hclosed := hi.closed _ hit ht (by rw [h]; exact List.not_mem_nil)
      have hdata := hi.data _ hit ht
      rwa [hclosed, List.append_nil] at hdata
  unfold Comm.result
  rw [hbuffer STDOUT_FILENO (by decide), hbuffer STDERR_FILENO (by decide)]

/-- **The pipes that are left** after a run. -/
theorem run_targets (hd : Distinct s) (hno : ∀ x ∈ xs, NoErr x) (hrun : run step s xs = some s') :
    t ∈ s'.targets ↔ t ∈ s.targets ∧
      ∀ pre x, pre ++ [x] <+: xs → ∀ s'', run step s pre = some s'' → ¬ Closes s'' x t := by
  induction xs generalizing s with
  | nil =>
    rw [run_nil, Option.some.injEq] at hrun
    rw [hrun]
    refine (and_iff_left fun pre x hpre => ?_).symm
    simp at hpre
  | cons x xs ih =>
    obtain ⟨s₁, hs, hrun'⟩ := run_cons_eq_some.mp hrun
    rw [List.forall_mem_cons] at hno
    have hround := step_eq_some.mp hs
    have hcons : ∀ pre s'', run step s (x :: pre) = some s'' ↔ run step s₁ pre = some s'' := by
      intro pre s''
      rw [run_cons hs]
    rw [ih (round_spec hd hno.1 hround).2.2 hno.2 hrun', round_targets hd hno.1 hround, and_assoc, forall_step_cons]
    simp only [hcons, run_nil, Option.some.injEq, forall_eq']

/-- **Progress.** A pipe that is left was not served more often than it has bytes. -/
theorem run_served (hd : Distinct s) (hno : ∀ x ∈ xs, NoErr x) (hrun : run step s xs = some s')
    (ht : it.1 ≠ STDIN_FILENO) (hit : it ∈ s'.pipes) :
    it ∈ s.pipes ∧ (s'.unread it.2).length + xs.countP (serves · it) ≤ (s.unread it.2).length := by
  induction xs generalizing s with
  | nil =>
    rw [run_nil, Option.some.injEq] at hrun
    rw [hrun]
    exact ⟨hit, Nat.le_refl _⟩
  | cons x xs ih =>
    obtain ⟨s₁, hs, hrun'⟩ := run_cons_eq_some.mp hrun
    rw [List.forall_mem_cons] at hno
    have hround := step_eq_some.mp hs
    obtain ⟨hit₁, hle⟩ := ih (round_spec hd hno.1 hround).2.2 hno.2 hrun'
    obtain ⟨hit₀, hle₀⟩ := round_unread hd hno.1 hround ht hit₁
    refine ⟨hit₀, ?_⟩
    rw [List.countP_cons]
    omega

theorem serves_stdin {fd' : ℤ} (h : 0 ≤ fd) (h' : 0 ≤ fd') :
    serves x (STDIN_FILENO, fd) = serves x (STDIN_FILENO, fd') := by
  unfold serves pollfd report
  simp only [if_neg (Int.not_lt.mpr h), if_neg (Int.not_lt.mpr h'), if_true]

/-- The child's stdin was not served if it is left. -/
theorem run_stdin (hd : Distinct s) (hno : ∀ x ∈ xs, NoErr x) (hreg : ∀ x ∈ xs, Regular x)
    (hopen : ∀ it ∈ s.pipes, 0 ≤ it.2) (hrun : run step s xs = some s') (h : STDIN_FILENO ∈ s'.targets) (hfd : 0 ≤ fd) :
    STDIN_FILENO ∈ s.targets ∧ xs.countP (serves · (STDIN_FILENO, fd)) = 0 := by
  induction xs generalizing s with
  | nil =>
    rw [run_nil, Option.some.injEq] at hrun
    rw [hrun]
    exact ⟨h, rfl⟩
  | cons x xs ih =>
    obtain ⟨s₁, hs, hrun'⟩ := run_cons_eq_some.mp hrun
    rw [List.forall_mem_cons] at hno hreg
    have hround := step_eq_some.mp hs
    have hopen₁ : ∀ it ∈ s₁.pipes, 0 ≤ it.2 := by
      intro it hit
      rcases round_pipes hd hno.1 hround hit with hmem | ⟨-, hcb⟩
      · exact hopen it hmem
      · obtain ⟨done, fd', hcb', hfd'⟩ := hreg.1.callback
        rw [hcb, CallbackAnswer.returns.injEq] at hcb'
        rw [hcb'.2]
        exact hfd' hcb'.1.symm
    obtain ⟨ht₁, hcount⟩ := ih (round_spec hd hno.1 hround).2.2 hno.2 hreg.2 hopen₁ hrun'
    obtain ⟨ht, hnot⟩ := (round_targets hd hno.1 hround).mp ht₁
    refine ⟨ht, ?_⟩
    rw [List.countP_cons, hcount, if_neg]
    intro hserves
    obtain ⟨fd', hfd'⟩ := mem_targets.mp ht
    rw [serves_stdin hfd (hopen _ hfd')] at hserves
    exact hnot ⟨fd', hfd', hserves, fun hne => absurd rfl hne⟩

/-! ### Regular answers -/

theorem handleRest_isOk (hreg : Regular x) (hmem : it ∈ s.pipes) (r : Events) :
    ∃ s₁, handleRest x it.1 r s = .ok s₁ := by
  obtain ⟨done, fd, hcb, -⟩ := hreg.callback
  unfold handleRest
  split
  · exact ⟨_, rfl⟩
  · split
    · cases hlookup : s.pipes.lookup it.1 with
      | none => exact absurd hlookup (lookup_ne_none hmem)
      | some fd₀ =>
        rw [hcb]
        cases done <;> exact ⟨_, rfl⟩
    · exact ⟨_, rfl⟩

theorem handle_isOk (hreg : Regular x) {rm : ℤ → ℤ} (hrm : rm it.2 = it.1) (hmem : it ∈ s.pipes) :
    ∃ s₁, handle x rm (pollfd revents it) s = .ok s₁ := by
  have hfd : (pollfd revents it).fd = it.2 := rfl
  unfold handle
  simp only [hfd, hrm]
  split
  · cases hread : x.read it.2 with
    | error e =>
      simp only [if_pos (hreg.read it.2 e hread)]
      exact ⟨_, rfl⟩
    | bytes l =>
      simp only
      split
      · exact ⟨_, rfl⟩
      · exact @handleRest_isOk (s.append _ _ _) x it hreg hmem _
  · exact handleRest_isOk hreg hmem _

theorem scan_isOk (hpoll : x.poll = .ok revents) (hno : NoErr x) (hreg : Regular x) {rm : ℤ → ℤ}
    {items : List (ℤ × ℤ)} (hT : (items.map Prod.fst).Nodup) (hF : (items.map Prod.snd).Nodup)
    (hrm : ∀ it ∈ items, rm it.2 = it.1) (hmem : ∀ it ∈ items, it ∈ s.pipes) :
    ∃ s', scan x rm (items.map (pollfd revents)) s = .ok s' := by
  induction items generalizing s with
  | nil => exact ⟨s, rfl⟩
  | cons it items ih =>
    rw [List.map_cons, List.nodup_cons] at hT hF
    rw [List.forall_mem_cons] at hrm hmem
    obtain ⟨s₁, hs₁⟩ := @handle_isOk s x it revents hreg rm hrm.1 hmem.1
    have hcases := handle_cases hpoll hno hrm.1 hs₁
    have hmem₁ : ∀ it' ∈ items, it' ∈ s₁.pipes := by
      intro it' hit'
      have hagree : Agree it' s s₁ := hcases.agree (fun heq => hT.1 (heq ▸ List.mem_map_of_mem hit'))
        fun _ heq => hF.1 (heq ▸ List.mem_map_of_mem hit')
      exact (hagree.pipes it'.2).mpr (hmem.2 it' hit')
    obtain ⟨s', hs'⟩ := ih hT.2 hF.2 hrm.2 hmem₁
    refine ⟨s', ?_⟩
    rw [List.map_cons, scan, hs₁]
    exact hs'

theorem round_isOk (hd : Distinct s) (hno : NoErr x) (hreg : Regular x) : ∃ s', round s x = .ok s' := by
  unfold round
  cases hpoll : x.poll with
  | error e => exact ⟨s, if_pos (hreg.poll e hpoll)⟩
  | ok revents =>
    exact scan_isOk hpoll hno hreg hd.targets hd.fds (fun it hit => revmap_eq hd hit) fun it hit => hit

theorem run_isSome (hd : Distinct s) (hno : ∀ x ∈ xs, NoErr x) (hreg : ∀ x ∈ xs, Regular x) :
    ∃ s', run step s xs = some s' := by
  induction xs generalizing s with
  | nil => exact ⟨s, rfl⟩
  | cons x xs ih =>
    rw [List.forall_mem_cons] at hno hreg
    obtain ⟨s₁, hs₁⟩ := round_isOk hd hno.1 hreg.1
    obtain ⟨s', hs'⟩ := ih (round_spec hd hno.1 hs₁).2.2 hno.2 hreg.2
    exact ⟨s', by rw [run_cons (step_eq_some.mpr hs₁), hs']⟩

/-! ### The loop -/

/-- Without pipes a round does nothing. -/
theorem run_of_pipes_nil (h : s.pipes = []) (hrun : run step s xs = some s') : s' = s := by
  induction xs with
  | nil =>
    rw [run_nil, Option.some.injEq] at hrun
    exact hrun.symm
  | cons x xs ih =>
    obtain ⟨s₁, hs, hrun'⟩ := run_cons_eq_some.mp hrun
    have hround := step_eq_some.mp hs
    have heq : s = s₁ := by
      unfold round at hround
      cases hpoll : x.poll with
      | error e =>
        rw [hpoll] at hround
        simp only at hround
        split at hround
        · exact Except.ok.inj hround
        · contradiction
      | ok revents =>
        rw [hpoll, h] at hround
        exact Except.ok.inj hround
    rw [← heq] at hrun'
    exact ih hrun'

/-- **The loop** ends when its rounds have left no pipe. -/
theorem loop_eq_ok : loop xs s = some (.ok r) ↔
    ∃ pre s', pre <+: xs ∧ run step s pre = some s' ∧ s'.pipes = [] ∧ s'.result = r := by
  constructor
  · intro h
    induction xs generalizing s with
    | nil =>
      rw [loop] at h
      split at h
      · rename_i hnil
        rw [Option.some.injEq, Except.ok.injEq] at h
        exact ⟨[], s, List.nil_prefix, rfl, hnil, h⟩
      · contradiction
    | cons x xs ih =>
      rw [loop] at h
      split at h
      · rename_i hnil
        rw [Option.some.injEq, Except.ok.injEq] at h
        exact ⟨[], s, List.nil_prefix, rfl, hnil, h⟩
      · cases hround : round s x with
        | error e =>
          rw [hround] at h
          simp at h
        | ok s₁ =>
          rw [hround] at h
          obtain ⟨pre, s', hpre, hrun, hnil, hr⟩ := ih h
          refine ⟨x :: pre, s', List.cons_prefix_cons.mpr ⟨rfl, hpre⟩, ?_, hnil, hr⟩
          rw [run_cons (step_eq_some.mpr hround), hrun]
  · rintro ⟨pre, s', hpre, hrun, hnil, rfl⟩
    induction pre generalizing s xs with
    | nil =>
      rw [run_nil, Option.some.injEq] at hrun
      rw [hrun]
      cases xs <;> rw [loop, if_pos hnil]
    | cons x pre ih =>
      obtain ⟨ys, rfl⟩ := hpre
      by_cases hs : s.pipes = []
      · rw [run_of_pipes_nil hs hrun, List.cons_append, loop, if_pos hs]
      · obtain ⟨s₁, hs₁, hrun'⟩ := run_cons_eq_some.mp hrun
        rw [List.cons_append, loop, if_neg hs, step_eq_some.mp hs₁]
        exact ih (List.prefix_append pre ys) hrun'

theorem pipes_eq_nil_iff : s.pipes = [] ↔ ∀ t, t ∉ s.targets := by
  unfold Comm.targets
  rw [← List.eq_nil_iff_forall_not_mem, List.map_eq_nil_iff]

/-- No pipe is left exactly if all were closed. -/
theorem allClosed_iff (hd : Distinct s) (hno : ∀ x ∈ xs, NoErr x) :
    AllClosed s xs ↔ ∃ s', run step s xs = some s' ∧ s'.pipes = [] := by
  refine exists_congr fun s' => and_congr_right fun hrun => ?_
  rw [pipes_eq_nil_iff]
  refine forall_congr' fun t => ?_
  rw [run_targets hd hno hrun, not_and]
  refine imp_congr_right fun _ => ?_
  push Not
  rfl

/-- **The outputs of the child**, for every way in which the calls are answered: what is returned is what
the child writes; it is returned as soon as all pipes are closed; and it is returned if each pipe
is served often enough. -/
theorem pollingCommunicate_returns (p : Pipes) (unread : ℤ → Bytes) (xs : List Answer) (hno : ∀ x ∈ xs, NoErr x) :
    (∀ r, pollingCommunicate xs p unread = some (.ok r) →
        r = (written p unread STDOUT_FILENO, written p unread STDERR_FILENO)) ∧
      ((∃ r, pollingCommunicate xs p unread = some (.ok r)) ↔ ∃ pre, pre <+: xs ∧ AllClosed (start p unread) pre) ∧
        ((∀ x ∈ xs, Regular x) → (∀ it ∈ p.list, Served unread xs it) →
          ∃ r, pollingCommunicate xs p unread = some (.ok r)) := by
  have hpre' : ∀ pre, pre <+: xs → ∀ x ∈ pre, NoErr x := fun pre hpre x hx => hno x (hpre.subset hx)
  have hd := distinct_start p unread
  unfold pollingCommunicate
  refine ⟨?_, ?_, ?_⟩
  · intro r h
    obtain ⟨pre, s, hpre, hrun, hnil, rfl⟩ := loop_eq_ok.mp h
    exact (run_inv (hpre' pre hpre) hrun).result hnil
  · constructor
    · rintro ⟨r, h⟩
      obtain ⟨pre, s, hpre, hrun, hnil, -⟩ := loop_eq_ok.mp h
      exact ⟨pre, hpre, (allClosed_iff hd (hpre' pre hpre)).mpr ⟨s, hrun, hnil⟩⟩
    · rintro ⟨pre, hpre, hall⟩
      obtain ⟨s, hrun, hnil⟩ := (allClosed_iff hd (hpre' pre hpre)).mp hall
      exact ⟨s.result, loop_eq_ok.mpr ⟨pre, s, hpre, hrun, hnil, rfl⟩⟩
  · intro hreg hserved
    obtain ⟨s, hrun⟩ := run_isSome hd hno hreg
    refine ⟨s.result, loop_eq_ok.mpr ⟨xs, s, List.prefix_refl xs, hrun, ?_, rfl⟩⟩
    rw [List.eq_nil_iff_forall_not_mem]
    intro it hit
    by_cases ht : it.1 = STDIN_FILENO
    · have hleft : STDIN_FILENO ∈ s.targets := by
        rw [← ht]
        exact mem_targets.mpr ⟨it.2, hit⟩
      obtain ⟨fd, hfd⟩ := mem_targets.mp ((run_targets hd hno hrun).mp hleft).1
      have hopen : 0 ≤ fd := p.fds_open _ hfd
      have hcount := (run_stdin hd hno hreg p.fds_open hrun hleft hopen).2
      have hlt := hserved _ hfd
      unfold Served at hlt
      rw [if_pos rfl] at hlt
      omega
    · obtain ⟨hmem, hle⟩ := run_served hd hno hrun ht hit
      have hlt := hserved it hmem
      unfold Served at hlt
      rw [if_neg ht] at hlt
      have hstart : (start p unread).unread it.2 = unread it.2 := rfl
      rw [hstart] at hle
      omega

/-- Everything is ready, `read` gives one byte, and the callback has nothing to write. -/
def ready : Answer := ⟨.ok fun _ => { pollin := true, pollout := true }, fun _ => .bytes 0, .returns true 3⟩

def stdinStdout : Pipes := ⟨[(STDIN_FILENO, 3), (STDOUT_FILENO, 4)], by decide, by decide, by decide⟩

/-- A child that writes two bytes to its standard output. -/
theorem pollingCommunicate_two_bytes :
    pollingCommunicate [ready, ready, ready] stdinStdout (fun fd => if fd = 4 then [104, 105] else []) =
      some (.ok ([104, 105], [])) := by
  have hno : ∀ x ∈ [ready, ready, ready], NoErr x := by
    intro x hx revents hpoll t _
    obtain rfl : x = ready := by simpa using hx
    obtain rfl := Except.ok.inj hpoll
    rfl
  have hreg : ∀ x ∈ [ready, ready, ready], Regular x := by
    intro x hx
    obtain rfl : x = ready := by simpa using hx
    refine ⟨fun e h => ?_, fun fd e h => ?_, true, 3, rfl, fun h => ?_⟩ <;> contradiction
  have h := pollingCommunicate_returns stdinStdout (fun fd => if fd = 4 then [104, 105] else []) _ hno
  obtain ⟨r, hr⟩ := h.2.2 hreg (by decide)
  rw [hr, h.1 r hr]
  rfl

end PollingCommunicate

end EdenCommon
