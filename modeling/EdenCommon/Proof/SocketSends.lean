import EdenCommon.Proof.SocketLifecycle
import Mathlib.Data.List.Perm.Basic

/-!
# The sends of a `UnixSocket`

`Ledger`: the calls of a send callback and the callbacks still queued are those that were
submitted, each once, and messages are handed to the kernel in the order of their sends. It
is kept by every step whatever callbacks do, so a send is called back once by the time the
socket is closed. What can go wrong is a call through a null callback, by `send` itself
(`sends_end_once_iff`).
-/

namespace EdenCommon

open Lib

variable {F κ : Type}

namespace UnixSocket

variable {s : UnixSocket κ F} {st : List (Frame F)} {f : Frame F}

/-- The sends in the queue with a callback to call. -/
def pending (s : UnixSocket κ F) : List ℕ := (s.sendQueue_.filter QueuedSend.callback).map QueuedSend.id

/-- The sends whose `sendSuccess` was called. -/
def successes (s : UnixSocket κ F) : List ℕ := (s.outcomes.filter fun o => o.2.isNone).map Prod.fst

structure Ledger (s : UnixSocket κ F) : Prop where
  sorted : (s.sent ++ s.sendQueue_.map QueuedSend.id).Pairwise (· < ·)
  bound : ∀ i ∈ s.sent ++ s.sendQueue_.map QueuedSend.id, i < s.sends
  submitted : s.submitted.Pairwise (· < ·)
  submitted_lt : ∀ i ∈ s.submitted, i < s.sends
  account : (s.outcomes.map Prod.fst ++ s.pending).Perm s.submitted
  successes : s.successes.Sublist s.sent

/-- A new socket has sent nothing. -/
theorem Ledger.new (kernel : κ) : Ledger (UnixSocket.new kernel : UnixSocket κ F) := by
  constructor <;> simp [UnixSocket.new, pending, UnixSocket.successes]

/-- No send is in the queue twice. -/
theorem Ledger.nodup (h : Ledger s) : (s.sendQueue_.map QueuedSend.id).Nodup :=
  (List.pairwise_append.1 h.sorted).2.1.imp Nat.ne_of_lt

/-- Closing moves no send. -/
theorem Ledger.closeNow (h : Ledger s) : Ledger s.closeNow.1 := by
  cases ho : s.socket_ with
  | true => rw [closeNow_open ho]; exact { h with }
  | false => rw [closeNow_closed ho]; exact { h with }

theorem Ledger.socketError {e : SocketError} (h : Ledger s) : Ledger (s.socketError e).1 := by
  cases ho : s.socket_ with
  | true => rw [socketError_open e ho]; exact { h with }
  | false => rw [socketError_closed e ho]; exact { h with }

/-- Neither does the end of a round of writes. -/
theorem Ledger.finishTrySend (hr : s.handler = s.registeredIOEvents_) (h : Ledger s) :
    Ledger s.finishTrySend.1 := by
  by_cases hq : s.sendQueue_ = []
  · have h' : Ledger (s.setWrite false) := { h with }
    rw [finishTrySend_nil hr hq]
    split
    · exact h'.closeNow
    · exact h'
  · rw [finishTrySend_cons hr hq]
    exact { h with }

/-- A queued send fails. -/
theorem Ledger.fail {p : QueuedSend F} {rest : List (QueuedSend F)} {e : SocketError} (h : Ledger s)
    (hq : s.sendQueue_ = p :: rest) : Ledger (s.takeSend p rest (some e)).1 := by
  obtain ⟨h1, h2, h3, h4, h5, h6⟩ := h
  rw [hq] at h1 h2
  simp only [pending, hq, List.filter_cons] at h5
  rw [takeSend_eq]
  refine { submitted := h3, submitted_lt := h4, sorted := ?_, bound := ?_, account := ?_, successes := ?_ }
  · exact h1.sublist (List.Sublist.append_left (by simp) _)
  · intro i hi
    refine h2 i ?_
    rw [List.mem_append] at hi ⊢
    exact hi.imp_right fun hm => by rw [List.map_cons]; exact List.mem_cons_of_mem _ hm
  · cases hc : p.callback with
    | true => simpa [hc, pending] using h5
    | false => simpa [hc, pending] using h5
  · cases hc : p.callback <;> simpa [UnixSocket.successes] using h6

/-- A queued send succeeds. -/
theorem Ledger.succeed {p : QueuedSend F} {rest : List (QueuedSend F)} {kernel : κ} (h : Ledger s)
    (hq : s.sendQueue_ = p :: rest) :
    Ledger ({ s with kernel, sent := s.sent ++ [p.id] }.takeSend p rest none).1 := by
  obtain ⟨h1, h2, h3, h4, h5, h6⟩ := h
  rw [hq] at h1 h2
  simp only [pending, hq, List.filter_cons] at h5
  rw [takeSend_eq]
  refine { submitted := h3, submitted_lt := h4, sorted := ?_, bound := ?_, account := ?_, successes := ?_ }
  · simpa using h1
  · simpa using h2
  · cases hc : p.callback with
    | true => simpa [hc, pending] using h5
    | false => simpa [hc, pending] using h5
  · cases hc : p.callback with
    | true => simpa [UnixSocket.successes] using h6.append (List.Sublist.refl [p.id])
    | false => simpa [UnixSocket.successes] using h6.trans (List.sublist_append_left _ _)

/-- **A send that fails** moves from the queue to the outcomes. -/
theorem Ledger.failAllSends {e : SocketError} {caller : Closer} (h : Ledger s) :
    Ledger (s.failAllSends e caller).1 := by
  cases hq : s.sendQueue_ with
  | cons p rest =>
    rw [failAllSends_cons e caller hq]
    exact h.fail hq
  | nil =>
    rw [failAllSends_nil e caller hq]
    exact { h with }

theorem Ledger.close (hi : Inv s st) (h : Ledger s) : Ledger s.close.1 := by
  cases hc : s.closeStarted_ with
  | true => simpa [UnixSocket.close, hc] using h
  | false =>
    by_cases hq : s.sendQueue_ = []
    · simpa [UnixSocket.close, hc, hq] using h.closeNow
    · rw [close_queued hi.handler hi.read hc hq]
      exact { h with }

/-- The number of a new send is behind all the others. -/
theorem concat_sends {l : List ℕ} {n : ℕ} (hs : l.Pairwise (· < ·)) (hl : ∀ i ∈ l, i < n) :
    (l ++ [n]).Pairwise (· < ·) ∧ ∀ i ∈ l ++ [n], i < n + 1 := by
  constructor
  · rw [List.pairwise_append]
    exact ⟨hs, List.pairwise_singleton _ _, fun i hi j hj => List.mem_singleton.1 hj ▸ hl i hi⟩
  · intro i hi
    obtain hi | hi := List.mem_append.1 hi
    · exact Nat.lt_succ_of_lt (hl i hi)
    · rw [List.mem_singleton.1 hi]
      exact Nat.lt_succ_self n

/-- **A new send** is in the queue or has its outcome at once. -/
theorem Ledger.send {message : Message F} {callback allocated : Bool} (hi : Inv s st) (h : Ledger s) :
    Ledger (s.send message callback allocated).1 := by
  have hn := h.nodup
  obtain ⟨h1, h2, h3, h4, h5, h6⟩ := h
  obtain ⟨hsub, hsub'⟩ := concat_sends h3 h4
  have h2' : ∀ i ∈ s.sent ++ s.sendQueue_.map QueuedSend.id, i < s.sends + 1 :=
    fun i hi => Nat.lt_succ_of_lt (h2 i hi)
  have h4' : ∀ i ∈ s.submitted, i < s.sends + 1 := fun i hi => Nat.lt_succ_of_lt (h4 i hi)
  have hacc : (s.outcomes.map Prod.fst ++ s.pending ++ [s.sends]).Perm (s.submitted ++ [s.sends]) :=
    h5.append_right _
  by_cases hr : s.closeStarted_ = true ∨ allocated = false
  · rw [send_refused hr, refuse_eq]
    cases callback with
    | true =>
      refine {
        sorted := h1
        bound := h2'
        submitted := hsub
        submitted_lt := hsub'
        account := ?_
        successes := ?_ }
      · rw [List.append_assoc] at hacc
        simpa [pending] using (List.perm_append_comm.append_left _).trans hacc
      · simpa [UnixSocket.successes] using h6
    | false =>
      exact { sorted := h1, bound := h2', submitted := h3, submitted_lt := h4', account := h5, successes := h6 }
  · obtain ⟨hc, rfl⟩ : s.closeStarted_ = false ∧ allocated = true := by simpa using hr
    obtain ⟨hsorted, hbound⟩ := concat_sends h1 h2
    rw [send_queued hi hn hc]
    cases callback with
    | true =>
      exact {
        sorted := by simpa using hsorted
        bound := by simpa using hbound
        submitted := hsub
        submitted_lt := hsub'
        account := by simpa [pending] using hacc
        successes := h6 }
    | false =>
      exact {
        sorted := by simpa using hsorted
        bound := by simpa using hbound
        submitted := h3
        submitted_lt := h4'
        account := by simpa [pending] using h5
        successes := h6 }

/-- Every call from user code keeps the ledger. -/
theorem Ledger.call (hi : Inv s st) (h : Ledger s) (c : Call F) : Ledger (s.call c).1 := by
  cases c with
  | send message callback allocated => exact h.send hi
  | close => exact h.close hi
  | closeNow => exact h.closeNow
  | destroy => exact h.closeNow
  | setReceiveCallback =>
    refine setReceiveCallback_cases (P := fun r => Ledger r.1) hi.handler ?_ ?_
    · intro e; exact { h with }
    · intro _ _; exact { h with }
  | clearReceiveCallback =>
    refine clearReceiveCallback_cases (P := fun r => Ledger r.1) hi.handler ?_ ?_
    · exact { h with }
    · intro _; exact { h with }

/-- Every frame keeps the ledger. -/
theorem Ledger.exec {K : Kernel F κ} (hi : Inv s (f :: st)) (h : Ledger s) : Ledger (s.exec K st f).1 := by
  cases f with
  | callback c => exact h
  | trySend n =>
    refine trySend_cases (P := fun r => Ledger r.1) (h.finishTrySend hi.handler) ?_ ?_ ?_ ?_
    · exact { h with }
    · intro p rest _
      exact h.socketError
    · intro p rest entry kernel hq
      have h' : Ledger { s with sendQueue_ := { p with entry } :: rest, kernel } := by
        refine { h with sorted := ?_, bound := ?_, account := ?_ }
        · simpa [hq] using h.sorted
        · simpa [hq] using h.bound
        · simpa [hq, pending, List.filter_cons, apply_ite] using h.account
      exact h'.finishTrySend hi.handler
    · intro p rest kernel hq
      exact h.succeed hq
  | tryReceive n write =>
    refine tryReceive_cases (P := fun r => Ledger r.1) h ?_ ?_ ?_
    · intro _ e rx
      have h' : Ledger { s with receiver := rx.receiver, kernel := rx.kernel } := { h with }
      exact h'.socketError
    · intro _ rx; exact { h with }
    · intro _ rx; exact { h with }
  | handlerWrite write => exact h
  | failAllSends e caller => exact h.failAllSends
  | closeShutdown =>
    refine closeShutdown_cases (P := fun r => Ledger r.1) ?_ ?_
    · exact { h with }
    · intro kernel thrown; exact { h with }
  | destroyEnd =>
    refine destroyEnd_cases (P := fun r => Ledger r.1) ?_ ?_
    · exact { h with }
    · exact { h with }

/-- The sends of the user are safe. -/
def SafeCall (s : UnixSocket κ F) : Call F → Prop
  | .send _ callback allocated => s.SafeSend callback allocated
  | _ => True

/-- A call goes through a null pointer exactly if it is a send without callback that is refused. -/
theorem call_fault (hi : Inv s st) (h : Ledger s) (hf : s.fault = none) (c : Call F) :
    (s.call c).1.fault ≠ some .nullPointer ↔ s.SafeCall c := by
  cases c with
  | send message callback allocated =>
    obtain ⟨-, hsafe, hnull⟩ := send_records hi h.nodup message callback allocated
    constructor
    · intro hn
      by_contra hs
      exact hn (hnull hs)
    · intro hs
      rw [call, hsafe hs, hf]
      exact nofun
  | close => exact iff_of_true ((close_mild hi).no_null hf) trivial
  | closeNow => exact iff_of_true (by simp [call, closeNow_fault, hf]) trivial
  | destroy => exact iff_of_true (by simp [call, destroy, closeNow_fault, hf]) trivial
  | setReceiveCallback => exact iff_of_true ((setReceiveCallback_mild hi).no_null hf) trivial
  | clearReceiveCallback => exact iff_of_true ((clearReceiveCallback_mild hi).no_null hf) trivial

end UnixSocket

/-! ### Runs -/

namespace Running

variable {K : Kernel F κ} {r r' : Running κ F} {a : Act F}

/-- What holds of a socket in use. -/
structure Good (r : Running κ F) : Prop where
  inv : r.socket.Inv r.stack
  ledger : r.socket.Ledger

theorem Good.new (kernel : κ) : Good (Running.new kernel : Running κ F) := ⟨.new kernel, .new kernel⟩

theorem Good.call (h : Good r) (c : Call F) : Good ⟨(r.socket.call c).1, (r.socket.call c).2 ++ r.stack⟩ :=
  ⟨h.inv.call h.ledger.nodup c, h.ledger.call h.inv c⟩

theorem Good.exec {f : Frame F} {below : List (Frame F)} {s : UnixSocket κ F} (h : Good ⟨s, f :: below⟩) :
    Good ⟨(s.exec K below f).1, (s.exec K below f).2 ++ below⟩ :=
  ⟨h.inv.exec, h.ledger.exec h.inv⟩

theorem Good.timeout {s : UnixSocket κ F} (h : Good ⟨s, []⟩) (hs : s.isScheduled = true) :
    Good ⟨s.timeoutExpired.1, s.timeoutExpired.2⟩ := by
  have hl : UnixSocket.Ledger { s with isScheduled := false } := { h.ledger with }
  exact ⟨(h.inv.timeoutExpired hs).2, hl.socketError⟩

theorem Good.ret {c : Callback F} {below : List (Frame F)} {s : UnixSocket κ F}
    (h : Good ⟨s, .callback c :: below⟩) : Good ⟨s, below⟩ := ⟨(UnixSocket.inv_callback c).1 h.inv, h.ledger⟩

theorem Good.ready {s : UnixSocket κ F} (h : Good ⟨s, []⟩) (events : IOEvents) :
    Good ⟨s, [UnixSocket.handlerReady events]⟩ := ⟨h.inv.handlerReady events, h.ledger⟩

/-- **Every step** keeps invariant and ledger. -/
theorem Good.step (h : Good r) (hs : step K r a = some r') : Good r' := by
  obtain ⟨s, st⟩ := r
  refine step_cases (P := fun _ => Good) hs ?_ ?_ ?_ ?_ ?_
  · intro c _
    exact h.call c
  · intro events hst
    obtain rfl : st = [] := hst
    exact h.ready events
  · intro hst hsch
    obtain rfl : st = [] := hst
    exact h.timeout hsch
  · intro c below hst
    obtain rfl : st = .callback c :: below := hst
    exact h.ret
  · intro f below hst
    obtain rfl : st = f :: below := hst
    exact h.exec

/-- So does every run. -/
theorem good_run {kernel : κ} {acts : List (Act F)} (hrun : run (step K) (new kernel) acts = some r) : Good r :=
  run_invariant (Good.new kernel) (fun _ _ _ h hs => h.step hs) acts hrun

/-! ### Callbacks that do nothing -/

theorem step_run {s : UnixSocket κ F} {f : Frame F} {below : List (Frame F)} (hf : s.fault = none)
    (hc : f.isCallback = false) :
    step K ⟨s, f :: below⟩ .run = some ⟨(s.exec K below f).1, (s.exec K below f).2 ++ below⟩ := by
  cases f with
  | callback c => simp [Frame.isCallback] at hc
  | _ => simp [step, hf]

/-- A turn of `trySend` that hands over a message, and the return of its callback. -/
theorem run_sent {s : UnixSocket κ F} {n : ℕ} {below : List (Frame F)} {p : QueuedSend F}
    {rest : List (QueuedSend F)} {entry : SendQueueEntry F} {kernel : κ} (hf : s.fault = none)
    (hn : n < MAX_MSGS_AT_ONCE) (hq : s.sendQueue_ = p :: rest)
    (hm : trySendMessage K.cfg (s.sendmsg K) s.kernel p.entry = .ok (true, entry, kernel)) :
    ∃ acts, run (step K) ⟨s, .trySend n :: below⟩ acts =
      some ⟨({ s with kernel, sent := s.sent ++ [p.id] }.takeSend p rest none).1, .trySend (n + 1) :: below⟩ := by
  have hexec : s.trySend K n = (({ s with kernel, sent := s.sent ++ [p.id] }.takeSend p rest none).1,
      ({ s with kernel, sent := s.sent ++ [p.id] }.takeSend p rest none).2 ++ [.trySend (n + 1)]) := by
    simp [UnixSocket.trySend, hn, hq, hm]
  have hrun : step K ⟨s, .trySend n :: below⟩ .run =
      some ⟨(s.exec K below (.trySend n)).1, (s.exec K below (.trySend n)).2 ++ below⟩ := step_run hf rfl
  rw [UnixSocket.exec, hexec, UnixSocket.takeSend_eq] at hrun
  rw [UnixSocket.takeSend_eq]
  cases hc : p.callback with
  | true =>
    refine ⟨[.run, .ret], ?_⟩
    rw [run_cons hrun]
    simp [run, step, UnixSocket.sendNotice, hc, hf]
  | false =>
    refine ⟨[.run], ?_⟩
    rw [run_cons hrun]
    simp [UnixSocket.sendNotice, hc]

/-- **The loop of `trySend`**, turn by turn, is the loop of `trySendLoop` when no callback
calls the socket: it comes to its end with the same queue and the same kernel. -/
theorem trySend_loop {below : List (Frame F)} :
    ∀ (m n : ℕ) (s : UnixSocket κ F) (sendQueue : List (SendQueueEntry F)) (kernel : κ),
      n + m = MAX_MSGS_AT_ONCE → s.fault = none → s.socket_ = true →
      trySendLoop K.cfg K.sendmsg m s.kernel (s.sendQueue_.map QueuedSend.entry) = .ok (sendQueue, kernel) →
      ∃ (acts : List (Act F)) (t : UnixSocket κ F),
        run (step K) ⟨s, .trySend n :: below⟩ acts = some ⟨t.finishTrySend.1, t.finishTrySend.2 ++ below⟩ ∧
        t.sendQueue_.map QueuedSend.entry = sendQueue ∧ t.kernel = kernel := by
  intro m
  induction m with
  | zero =>
    intro n s sendQueue kernel hn hf ho hloop
    obtain ⟨h1, h2⟩ := Prod.mk.inj (Except.ok.inj hloop)
    have hexec : s.exec K below (.trySend n) = s.finishTrySend := by
      rw [UnixSocket.exec, UnixSocket.trySend, if_neg (by omega)]
    refine ⟨[.run], s, ?_, h1, h2⟩
    rw [run_cons (step_run hf rfl), hexec, run_nil]
  | succ m ih =>
    intro n s sendQueue kernel hn hf ho hloop
    have hlt : n < MAX_MSGS_AT_ONCE := by omega
    have hsendmsg : s.sendmsg K = K.sendmsg := if_pos ho
    cases hq : s.sendQueue_ with
    | nil =>
      rw [hq, List.map_nil, trySendLoop] at hloop
      obtain ⟨h1, h2⟩ := Prod.mk.inj (Except.ok.inj hloop)
      have hexec : s.exec K below (.trySend n) = s.finishTrySend := by
        simp [UnixSocket.exec, UnixSocket.trySend, hlt, hq]
      refine ⟨[.run], s, ?_, by rw [hq]; exact h1, h2⟩
      rw [run_cons (step_run hf rfl), hexec, run_nil]
    | cons p rest =>
      rw [hq, List.map_cons, trySendLoop] at hloop
      split at hloop
      · cases hloop
      · rename_i entry kernel' hm
        obtain ⟨acts, hacts⟩ := run_sent hf hlt hq (hsendmsg ▸ hm)
        obtain ⟨acts', t, ht, hqueue, hkernel⟩ :=
          ih (n + 1) ({ s with kernel := kernel', sent := s.sent ++ [p.id] }.takeSend p rest none).1 sendQueue kernel
            (by omega) (by rw [UnixSocket.takeSend_eq]; exact hf) (by rw [UnixSocket.takeSend_eq]; exact ho)
            (by rw [UnixSocket.takeSend_eq]; exact hloop)
        exact ⟨acts ++ acts', t, by rw [run_append, hacts]; exact ht, hqueue, hkernel⟩
      · rename_i entry kernel' hm
        obtain ⟨h1, h2⟩ := Prod.mk.inj (Except.ok.inj hloop)
        have hexec : s.exec K below (.trySend n) =
            { s with sendQueue_ := { p with entry } :: rest, kernel := kernel' }.finishTrySend := by
          simp [UnixSocket.exec, UnixSocket.trySend, hlt, hq, hsendmsg, hm]
        refine ⟨[.run], { s with sendQueue_ := { p with entry } :: rest, kernel := kernel' }, ?_, h1, h2⟩
        rw [run_cons (step_run hf rfl), hexec, run_nil]

/-- A send with a null callback meets a socket that takes messages, and memory for the
entry. -/
def SafeSends (r : Running κ F) : Act F → Prop
  | .call c => r.socket.SafeCall c
  | _ => True

/-- No step follows a fault. -/
theorem fault_none (hs : step K r a = some r') : r.socket.fault = none := by
  unfold step at hs
  split at hs
  · cases hs
  · rename_i hf
    simpa using hf

/-- A step goes through a null pointer exactly if its sends are not safe. -/
theorem step_fault (h : Good r) (hs : step K r a = some r') :
    r'.socket.fault ≠ some .nullPointer ↔ SafeSends r a := by
  have hf := fault_none hs
  obtain ⟨hi, hl⟩ := h
  have hn : r.socket.fault ≠ some .nullPointer := by simp [hf]
  refine step_cases (P := fun a r' => r'.socket.fault ≠ some .nullPointer ↔ SafeSends r a) hs ?_ ?_ ?_ ?_ ?_
  · intro c _
    exact UnixSocket.call_fault hi hl hf c
  · intro events _
    exact iff_of_true hn trivial
  · intro hst hsch
    rw [hst] at hi
    exact iff_of_true ((UnixSocket.timeoutExpired_mild hi hsch).no_null hf) trivial
  · intro c below _
    exact iff_of_true hn trivial
  · intro f below hst
    rw [hst] at hi
    exact iff_of_true ((UnixSocket.exec_mild hi).no_null hf) trivial

/-- What is wanted of the sends: no call through a null pointer, and one call of every
callback once the socket is closed and `socketError` has come to the end of the queue. -/
structure SendsEndOnce (r : Running κ F) : Prop where
  no_null : r.socket.fault ≠ some .nullPointer
  once : (r.socket.outcomes.map Prod.fst).Nodup
  submitted : ∀ i ∈ r.socket.outcomes.map Prod.fst, i ∈ r.socket.submitted
  closed : r.socket.socket_ = false → erring r.stack = false →
    (r.socket.outcomes.map Prod.fst).Perm r.socket.submitted
  ordered : r.socket.successes.Pairwise (· < ·)

/-- The ledger says that each send ends once. -/
theorem Good.sendsEndOnce (h : Good r) (hf : r.socket.fault ≠ some .nullPointer) : SendsEndOnce r := by
  obtain ⟨hi, hl⟩ := h
  have hnodup : (r.socket.outcomes.map Prod.fst ++ r.socket.pending).Nodup :=
    hl.account.nodup_iff.2 (hl.submitted.imp Nat.ne_of_lt)
  refine { no_null := hf, once := (List.nodup_append.1 hnodup).1, submitted := ?_, closed := ?_, ordered := ?_ }
  · intro i hm
    exact hl.account.subset (List.mem_append_left _ hm)
  · intro hc he
    have hq : r.socket.sendQueue_ = [] := by
      by_contra hq
      have := hi.left hc hq
      simp [he] at this
    have hacc := hl.account
    simpa [UnixSocket.pending, hq] using hacc
  · exact (List.pairwise_append.1 hl.sorted).1.sublist hl.successes

/-- **Every send ends once**, in every run in which no send with a null callback is made
after closing has started or without memory for it, and in no other. -/
theorem sends_end_once_iff (K : Kernel F κ) (kernel : κ) (acts : List (Act F)) (r : Running κ F)
    (hrun : run (step K) (new kernel) acts = some r) :
    SendsEndOnce r ↔ AllSteps (step K) SafeSends (new kernel) acts := by
  have hiff := run_iff (I := Good) (P := fun r => r.socket.fault ≠ some .nullPointer) (G := SafeSends)
    (fun _ _ _ h hs => h.step hs)
    (fun s op s' h hs => by simpa [fault_none hs] using step_fault h hs) acts (Good.new kernel) hrun
  have hnew : (new kernel : Running κ F).socket.fault ≠ some .nullPointer := by simp [new, UnixSocket.new]
  rw [← (and_iff_right hnew : _ ∧ AllSteps (step K) SafeSends (new kernel) acts ↔ _), ← hiff]
  exact ⟨fun h => h.no_null, fun h => (good_run hrun).sendsEndOnce h⟩

end Running

/-- A peer that takes nothing and has reset the connection. -/
def resetPeer : Kernel ℕ Unit where
  cfg := ⟨2 ^ 30, 100000, 1024, by decide, by decide, by decide⟩
  sendmsg _ _ _ := (.wouldBlock, ())
  recvmsg _ _ := (.failed 104, ())
  shutdown _ := (true, ())

namespace Running

/-- A send on a closed socket is called back once. -/
theorem sends_end_once_after_close :
    ∃ r : Running Unit ℕ,
      run (step resetPeer) (new ()) [.call .closeNow, .run, .call (.send ⟨[], []⟩ true true)] = some r ∧
        SendsEndOnce r := by
  refine ⟨_, rfl, ?_⟩
  refine (sends_end_once_iff resetPeer () [.call .closeNow, .run, .call (.send ⟨[], []⟩ true true)] _ rfl).2 ?_
  rw [allSteps_cons rfl, allSteps_cons rfl, allSteps_cons rfl]
  exact ⟨trivial, trivial, Or.inl rfl, trivial⟩

/-- A send on a closed socket, with a null callback, goes through it. -/
theorem send_calls_null :
    ∃ r : Running Unit ℕ,
      run (step resetPeer) (new ()) [.call .closeNow, .run, .call (.send ⟨[], []⟩ false true)] = some r ∧
        r.socket.fault = some .nullPointer ∧ ¬ SendsEndOnce r := by
  refine ⟨_, rfl, rfl, ?_⟩
  intro h
  exact h.no_null rfl

end Running

end EdenCommon
