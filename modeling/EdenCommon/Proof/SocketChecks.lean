import EdenCommon.Proof.SocketSends

/-!
# The checks of a closed `UnixSocket`, and its registrations

`socketError` closes the descriptor before it fails the queued sends, so a callback that it
runs finds a closed socket with sends queued. `closeNow` does not. These are the only
states in which `closeNow` fails its debug checks (`checks_hold_iff`), and `socketError` is
not entered in them at all.

Between events no call is under way, and the registrations are those that the queue and
the callback ask for (`registrations`).
-/

namespace EdenCommon

open Lib

variable {F κ : Type}

namespace UnixSocket

variable {s : UnixSocket κ F} {st : List (Frame F)}

/-- `closeNow` and `destroy` are not called while `socketError` fails sends. -/
def CloseSafe (s : UnixSocket κ F) (st : List (Frame F)) : Call F → Prop
  | .closeNow => ¬ s.FailingSends st
  | .destroy => ¬ s.FailingSends st
  | _ => True

/-- A step without a failing check, where none is to be feared. -/
theorem Mild.check_iff {t : UnixSocket κ F} (h : Mild s t) :
    t.failedCheck = false ↔ s.failedCheck = false ∧ True := by
  rw [h.check, and_iff_left trivial]

theorem call_check (h : Inv s st) (hl : Ledger s) (c : Call F) :
    (s.call c).1.failedCheck = false ↔ s.failedCheck = false ∧ s.CloseSafe st c := by
  cases c with
  | send message callback allocated =>
    rw [call, (send_records h hl.nodup message callback allocated).1]
    exact (and_iff_left trivial).symm
  | close => exact (close_mild h).check_iff
  | closeNow => exact closeNow_check h
  | destroy => exact closeNow_check h
  | setReceiveCallback => exact (setReceiveCallback_mild h).check_iff
  | clearReceiveCallback => exact (clearReceiveCallback_mild h).check_iff

end UnixSocket

namespace Running

variable {K : Kernel F κ} {r r' : Running κ F} {a : Act F}

/-- No callback of `socketError` closes or destroys the socket before the last queued send
has failed. -/
def SafeCloses (r : Running κ F) : Act F → Prop
  | .call c => r.socket.CloseSafe r.stack c
  | _ => True

theorem step_check (h : Good r) (hs : step K r a = some r') :
    r'.socket.failedCheck = false ↔ r.socket.failedCheck = false ∧ SafeCloses r a := by
  obtain ⟨hi, hl⟩ := h
  refine step_cases hs (P := fun a r' =>
    r'.socket.failedCheck = false ↔ r.socket.failedCheck = false ∧ SafeCloses r a) ?_ ?_ ?_ ?_ ?_
  · intro c _
    exact UnixSocket.call_check hi hl c
  · intro events _
    exact (and_iff_left trivial).symm
  · intro hst hsch
    rw [hst] at hi
    exact (UnixSocket.timeoutExpired_mild hi hsch).check_iff
  · intro c below _
    exact (and_iff_left trivial).symm
  · intro f below hst
    rw [hst] at hi
    exact (UnixSocket.exec_mild hi).check_iff

/-- **The checks of a closed socket hold** in exactly the runs in which no callback of
`socketError` closes or destroys the socket while sends are still queued. -/
theorem checks_hold_iff (K : Kernel F κ) (kernel : κ) (acts : List (Act F)) (r : Running κ F)
    (hrun : run (step K) (new kernel) acts = some r) :
    r.socket.failedCheck = false ↔ AllSteps (step K) SafeCloses (new kernel) acts := by
  have hiff := run_iff (I := Good) (P := fun r => r.socket.failedCheck = false) (G := SafeCloses)
    (fun _ _ _ h hs => h.step hs) (fun _ _ _ h hs => step_check h hs) acts (Good.new kernel) hrun
  exact hiff.trans (and_iff_right rfl)

/-- `closeNow` may be called again, by any callback of `closeNow`. -/
theorem checks_hold_close_twice :
    ∃ r : Running Unit ℕ,
      run (step resetPeer) (new ())
          [.call (.send ⟨[], []⟩ true true), .run, .call .closeNow, .run, .call .closeNow] = some r ∧
        r.socket.failedCheck = false := by
  refine ⟨_, rfl, ?_⟩
  refine (checks_hold_iff resetPeer ()
    [.call (.send ⟨[], []⟩ true true), .run, .call .closeNow, .run, .call .closeNow] _ rfl).2 ?_
  rw [allSteps_cons rfl, allSteps_cons rfl, allSteps_cons rfl, allSteps_cons rfl, allSteps_cons rfl]
  refine ⟨trivial, trivial, ?_, trivial, ?_, trivial⟩
  · intro h
    exact absurd h.1 (by decide)
  · intro h
    exact absurd h.1 (by decide)

/-- With a send queued, `receiveError` destroys the socket. -/
theorem destroy_in_receiveError :
    ∃ (r r' : Running Unit ℕ) (below : List (Frame ℕ)),
      run (step resetPeer) (new ())
          [.call .setReceiveCallback, .call (.send ⟨[], []⟩ true true), .run, .ready ⟨true, false⟩, .run] = some r ∧
        r.stack = .callback (.receiveError (.receive (.recvmsgFailed 104))) :: below ∧
        step resetPeer r (.call .destroy) = some r' ∧ r'.socket.failedCheck = true := by
  exact ⟨_, _, _, rfl, rfl, rfl, rfl⟩

/-! ### Between events -/

/-- The registrations of a socket that no call is under way on. -/
structure Registered (s : UnixSocket κ F) : Prop where
  handler : s.handler = s.registeredIOEvents_
  write : s.registeredIOEvents_.write = true ↔ s.sendQueue_ ≠ []
  scheduled : s.isScheduled = true ↔ s.sendQueue_ ≠ []
  read : s.registeredIOEvents_.read = true ↔ s.receiveCallback_ = true
  tail_none : s.sendQueueTail_ = none ↔ s.sendQueue_ = []
  tail_last : ∀ p, s.sendQueue_.getLast? = some p → s.sendQueueTail_ = some p.id
  closed : s.socket_ = false → s.registeredIOEvents_ = .none ∧ s.isScheduled = false ∧ s.sendQueue_ = [] ∧
    s.sendQueueTail_ = none ∧ s.receiveCallback_ = false

theorem Good.registered (h : Good r) (hst : r.stack = []) : Registered r.socket := by
  obtain ⟨hi, -⟩ := h
  rw [hst] at hi
  have hwrite : r.socket.registeredIOEvents_.write = true ↔ r.socket.sendQueue_ ≠ [] := by
    constructor
    · intro hw
      simpa using hi.writable hw
    · intro hq
      simpa using hi.queued hq
  have htail : r.socket.sendQueueTail_ = none ↔ r.socket.sendQueue_ = [] := by
    rw [hi.tail, List.getLast?_eq_none_iff, List.map_eq_nil_iff]
  refine {
    handler := hi.handler
    write := hwrite
    scheduled := hi.scheduled ▸ hwrite
    read := hi.read ▸ Iff.rfl
    tail_none := htail
    tail_last := ?_
    closed := ?_ }
  · intro p hp
    rw [hi.tail, List.getLast?_map, hp, Option.map_some]
  · intro hc
    have hq : r.socket.sendQueue_ = [] := by
      by_contra hq
      have := hi.left hc hq
      simp at this
    have hquiet := hi.isQuiet hc hq
    simp only [UnixSocket.isQuiet, Bool.and_eq_true, decide_eq_true_eq, Bool.not_eq_true'] at hquiet
    obtain ⟨-, ⟨⟨⟨h1, h2⟩, h3⟩, -⟩, h5⟩ := hquiet
    exact ⟨h1, h2, hq, htail.2 hq, h3⟩

/-- **Registrations.** Between events of any run, whatever callbacks have done in it, the
socket is registered for writing and its timeout scheduled exactly if sends are queued, and
registered for reading exactly if a receive callback is installed. -/
theorem registrations (K : Kernel F κ) (kernel : κ) (acts : List (Act F)) (r : Running κ F)
    (hrun : run (step K) (new kernel) acts = some r) (hst : r.stack = []) : Registered r.socket :=
  (good_run hrun).registered hst

/-- A send that blocks and a receive callback. -/
theorem registrations_blocked :
    ∃ r : Running Unit ℕ,
      run (step resetPeer) (new ()) [.call .setReceiveCallback, .call (.send ⟨[], []⟩ true true), .run] = some r ∧
        r.socket.sendQueue_ ≠ [] ∧ Registered r.socket := by
  refine ⟨_, rfl, List.cons_ne_nil _ _, ?_⟩
  exact registrations resetPeer () [.call .setReceiveCallback, .call (.send ⟨[], []⟩ true true), .run] _ rfl rfl

end Running

end EdenCommon
