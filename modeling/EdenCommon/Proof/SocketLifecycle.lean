import EdenCommon.Spec.SocketLifecycle
import Mathlib.Data.List.Pairwise

/-!
# The invariant of a `UnixSocket`

`Inv` relates the registrations, the queues and the descriptor to the calls under way, at
every point of every run, so also while callbacks call the socket again.

* A call of `trySend` may have the send queue and the registration for writing apart.
* A call of `failAllSends` may have sends queued that nothing is registered for.
* Only `failAllSends` under `socketError` has sends queued on a closed descriptor
  (`left`). No call of `trySend` is above a `failAllSends` (`order`), because `send`
  refuses once closing has started.
-/

namespace EdenCommon

open Lib

variable {F κ : Type}

/-! ### Frames -/

namespace Frame

/-- User code. -/
def isCallback : Frame F → Bool
  | .callback _ => true
  | _ => false

def isTrySend : Frame F → Bool
  | .trySend _ => true
  | _ => false

/-- Part of `send` or `handlerReady`. -/
def isIo : Frame F → Bool
  | .trySend _ => true
  | .tryReceive _ _ => true
  | .handlerWrite _ => true
  | _ => false

def isFailing : Frame F → Bool
  | .failAllSends _ _ => true
  | _ => false

def isErring : Frame F → Bool
  | .failAllSends _ .socketError => true
  | _ => false

theorem isFailing_eq_false {f : Frame F} (h : f.isIo = true) : f.isFailing = false := by
  cases f with
  | failAllSends e caller => simp [isIo] at h
  | _ => rfl

theorem isErring_eq_false {f : Frame F} (h : f.isFailing = false) : f.isErring = false := by
  cases f with
  | failAllSends e caller => simp [isFailing] at h
  | _ => rfl

end Frame

/-- A call of `trySend` is under way. -/
def sending (st : List (Frame F)) : Bool := st.any Frame.isTrySend

/-- A call of `failAllSends` is under way. -/
def failing (st : List (Frame F)) : Bool := st.any Frame.isFailing

/-- A call of `socketError` is under way. -/
def erring (st : List (Frame F)) : Bool := st.any Frame.isErring

/-- No I/O is done above a call of `failAllSends`. -/
def IoBelow (st : List (Frame F)) : Prop := st.Pairwise fun f g => f.isIo = true → g.isFailing = false

@[simp] theorem sending_cons (f : Frame F) (st : List (Frame F)) :
    sending (f :: st) = (f.isTrySend || sending st) := List.any_cons

@[simp] theorem failing_cons (f : Frame F) (st : List (Frame F)) :
    failing (f :: st) = (f.isFailing || failing st) := List.any_cons

@[simp] theorem erring_cons (f : Frame F) (st : List (Frame F)) :
    erring (f :: st) = (f.isErring || erring st) := List.any_cons

@[simp] theorem sending_nil : sending ([] : List (Frame F)) = false := rfl
@[simp] theorem failing_nil : failing ([] : List (Frame F)) = false := rfl
@[simp] theorem erring_nil : erring ([] : List (Frame F)) = false := rfl

/-- Only frames that do no input or output may be above the loop that fails the sends. -/
theorem ioBelow_cons {f : Frame F} {st : List (Frame F)} :
    IoBelow (f :: st) ↔ (f.isIo = true → failing st = false) ∧ IoBelow st := by
  simp [IoBelow, failing, List.pairwise_cons, imp_forall_iff, forall_comm (α := f.isIo = true)]

theorem failing_of_erring {st : List (Frame F)} (h : erring st = true) : failing st = true := by
  obtain ⟨f, hf, he⟩ := List.any_eq_true.1 h
  refine List.any_eq_true.2 ⟨f, hf, ?_⟩
  by_contra hn
  rw [Frame.isErring_eq_false (by simpa using hn)] at he
  simp at he

/-! ### The invariant -/

namespace UnixSocket

variable {s : UnixSocket κ F} {st : List (Frame F)} {f : Frame F}

structure Inv (s : UnixSocket κ F) (st : List (Frame F)) : Prop where
  handler : s.handler = s.registeredIOEvents_
  read : s.registeredIOEvents_.read = s.receiveCallback_
  scheduled : s.isScheduled = s.registeredIOEvents_.write
  tail : s.sendQueueTail_ = (s.sendQueue_.map QueuedSend.id).getLast?
  installed : s.closeStarted_ = true → s.receiveCallback_ = false
  closed : s.socket_ = false → s.closeStarted_ = true ∧ s.registeredIOEvents_.write = false
  failing : failing st = true → s.closeStarted_ = true ∧ s.registeredIOEvents_.write = false
  order : IoBelow st
  writable : s.registeredIOEvents_.write = true → s.sendQueue_ ≠ [] ∨ sending st = true
  queued : s.sendQueue_ ≠ [] → s.registeredIOEvents_.write = true ∨ sending st = true ∨ EdenCommon.failing st = true
  left : s.socket_ = false → s.sendQueue_ ≠ [] → erring st = true
  erring : erring st = true → s.socket_ = false

/-- The invariant of a new socket. -/
theorem Inv.new (kernel : κ) : Inv (UnixSocket.new kernel : UnixSocket κ F) [] := by
  constructor <;> simp [UnixSocket.new, IOEvents.none, IoBelow]

/-- A frame that does not fail sends may come on top, if it does no I/O above one that does. -/
theorem Inv.push (h : Inv s st) (hf : f.isFailing = false) (hio : f.isIo = true → EdenCommon.failing st = false) :
    Inv s (f :: st) := by
  have hfail : EdenCommon.failing (f :: st) = EdenCommon.failing st := by simp [hf]
  have herr : EdenCommon.erring (f :: st) = EdenCommon.erring st := by simp [Frame.isErring_eq_false hf]
  refine { h with
    failing := hfail ▸ h.failing
    order := ioBelow_cons.2 ⟨hio, h.order⟩
    writable := ?_
    queued := ?_
    left := herr ▸ h.left
    erring := herr ▸ h.erring }
  · intro hw
    obtain hq | hs := h.writable hw
    · exact Or.inl hq
    · exact Or.inr (by simp [hs])
  · intro hq
    obtain hw | hs | hs := h.queued hq
    · exact Or.inl hw
    · exact Or.inr (Or.inl (by simp [hs]))
    · exact Or.inr (Or.inr (hfail ▸ hs))

/-- A frame that neither sends nor fails sends may go. -/
theorem Inv.pop (h : Inv s (f :: st)) (hs : f.isTrySend = false) (hf : f.isFailing = false) : Inv s st := by
  have hsend : sending (f :: st) = sending st := by simp [hs]
  have hfail : EdenCommon.failing (f :: st) = EdenCommon.failing st := by simp [hf]
  have herr : EdenCommon.erring (f :: st) = EdenCommon.erring st := by simp [Frame.isErring_eq_false hf]
  exact { h with
    failing := hfail ▸ h.failing
    order := (ioBelow_cons.1 h.order).2
    writable := hsend ▸ h.writable
    queued := hsend ▸ hfail ▸ h.queued
    left := herr ▸ h.left
    erring := herr ▸ h.erring }

@[simp] theorem inv_callback (c : Callback F) : Inv s (.callback c :: st) ↔ Inv s st :=
  ⟨fun h => h.pop rfl rfl, fun h => h.push rfl nofun⟩

@[simp] theorem inv_closeShutdown : Inv s (.closeShutdown :: st) ↔ Inv s st :=
  ⟨fun h => h.pop rfl rfl, fun h => h.push rfl nofun⟩

@[simp] theorem inv_destroyEnd : Inv s (.destroyEnd :: st) ↔ Inv s st :=
  ⟨fun h => h.pop rfl rfl, fun h => h.push rfl nofun⟩

/-- A closed socket without sends passes the checks. -/
theorem Inv.isQuiet (h : Inv s st) (hc : s.socket_ = false) (hq : s.sendQueue_ = []) :
    (s.closeStarted_ && s.isQuiet) = true := by
  obtain ⟨h1, h2⟩ := h.closed hc
  have hr : s.receiveCallback_ = false := h.installed h1
  have hread := h.read
  have hsched := h.scheduled
  have htail := h.tail
  rw [hq] at htail
  rw [hr] at hread
  rw [h2] at hsched
  have hev : s.registeredIOEvents_ = .none := by
    cases he : s.registeredIOEvents_ with
    | mk r w => simp_all [IOEvents.none]
  simp [UnixSocket.isQuiet, h1, hr, hq, htail, hsched, hev]

/-! ### What the methods do -/

/-- Nothing is registered, scheduled or installed any more. -/
def shut (s : UnixSocket κ F) (socket_ : Bool) : UnixSocket κ F :=
  { s with
    socket_
    closeStarted_ := true
    registeredIOEvents_ := .none
    handler := .none
    isScheduled := false
    receiveCallback_ := false }

/-- The call of the receive callback, if there is one. -/
def notice (s : UnixSocket κ F) (c : Callback F) : List (Frame F) :=
  if s.receiveCallback_ then [.callback c] else []

/-- The callback is taken out before it is called. -/
theorem takeReceiveCallback_eq (s : UnixSocket κ F) (c : Callback F) :
    s.takeReceiveCallback c = ({ s with receiveCallback_ := false }, s.notice c) := by
  unfold takeReceiveCallback notice
  cases h : s.receiveCallback_ with
  | true => simp
  | false => cases s; simp_all

/-- **`closeNow`** on an open socket: it is shut, the callback is told, and then the sends fail. -/
theorem closeNow_open (ho : s.socket_ = true) :
    s.closeNow = (s.shut true, s.notice .socketClosed ++ [.failAllSends .notConnected .closeNow]) := by
  simp [closeNow, ho, takeReceiveCallback_eq, shut, unregisterIO, cancelTimeout, notice]

/-- **An error** on an open socket does the same, with the error in the place of the end. -/
theorem socketError_open (e : SocketError) (ho : s.socket_ = true) :
    s.socketError e = (s.shut false, s.notice (.receiveError e) ++ [.failAllSends e .socketError]) := by
  simp [socketError, ho, takeReceiveCallback_eq, shut, unregisterIO, cancelTimeout, notice]

/-- On a closed socket there is nothing left to do. -/
theorem closeNow_closed (ho : s.socket_ = false) :
    s.closeNow = (s.xdcheck (s.closeStarted_ && s.isQuiet), []) := by simp [closeNow, ho]

theorem socketError_closed (e : SocketError) (ho : s.socket_ = false) :
    s.socketError e = (s.xdcheck s.isQuiet, []) := by simp [socketError, ho]

/-- The call of a send's callback, if it has one. -/
def sendNotice (p : QueuedSend F) (result : Option SocketError) : List (Frame F) :=
  if p.callback then [.callback (.ofSend p.id result)] else []

/-- A send is taken from the queue before its callback is called. -/
theorem takeSend_eq (s : UnixSocket κ F) (p : QueuedSend F) (rest : List (QueuedSend F))
    (result : Option SocketError) :
    s.takeSend p rest result =
      ({ s with
          sendQueue_ := rest
          sendQueueTail_ := if rest.isEmpty then none else s.sendQueueTail_
          outcomes := s.outcomes ++ if p.callback then [(p.id, result)] else [] },
        sendNotice p result) := by
  unfold takeSend sendNotice; cases p.callback <;> simp

/-- **One turn** of the loop that fails the sends. -/
theorem failAllSends_cons {p : QueuedSend F} {rest : List (QueuedSend F)} (e : SocketError) (caller : Closer)
    (hq : s.sendQueue_ = p :: rest) :
    s.failAllSends e caller =
      ((s.takeSend p rest (some e)).1, (s.takeSend p rest (some e)).2 ++ [.failAllSends e caller]) := by
  simp [failAllSends, hq]

/-- Its end: an error closes the socket here, and `closeNow` has closed it already. -/
theorem failAllSends_nil (e : SocketError) (caller : Closer) (hq : s.sendQueue_ = []) :
    s.failAllSends e caller = ({ s with socket_ := s.socket_ && caller = .socketError }, []) := by
  cases caller <;> cases s <;> simp_all [failAllSends]

/-- What a turn of `trySend` can do. -/
theorem trySend_cases {K : Kernel F κ} {n : ℕ} {P : UnixSocket κ F × List (Frame F) → Prop}
    (finish : P s.finishTrySend) (check : P (s.raise .checkFailed, [.trySend n]))
    (error : ∀ p rest, s.sendQueue_ = p :: rest → P (s.socketError .sendmsgFailed))
    (blocked : ∀ p rest entry kernel, s.sendQueue_ = p :: rest →
      P { s with sendQueue_ := { p with entry } :: rest, kernel }.finishTrySend)
    (sent : ∀ p rest kernel, s.sendQueue_ = p :: rest →
      P (({ s with kernel, sent := s.sent ++ [p.id] }.takeSend p rest none).1,
        ({ s with kernel, sent := s.sent ++ [p.id] }.takeSend p rest none).2 ++ [.trySend (n + 1)])) :
    P (s.trySend K n) := by
  unfold trySend
  split
  · split
    · exact finish
    · rename_i p rest hq
      split
      · exact check
      · exact error p rest hq
      · exact blocked p rest _ _ hq
      · exact sent p rest _ hq
  · exact finish

/-- What a turn of `tryReceive` can do. -/
theorem tryReceive_cases {K : Kernel F κ} {n : ℕ} {write : Bool} {P : UnixSocket κ F × List (Frame F) → Prop}
    (done : P (s, [.handlerWrite write]))
    (error : s.receiveCallback_ = true → ∀ e (rx : Rx κ F),
      P ({ s with receiver := rx.receiver, kernel := rx.kernel }.socketError (.receive e)))
    (blocked : s.receiveCallback_ = true → ∀ rx : Rx κ F,
      P ({ s with receiver := rx.receiver, kernel := rx.kernel },
        (if rx.atEof then [.callback .eofReceived] else []) ++ [.handlerWrite write]))
    (received : s.receiveCallback_ = true → ∀ rx : Rx κ F,
      P ({ s with
          receiver := (deliver rx).receiver
          kernel := rx.kernel
          delivered := s.delivered ++ [(rx.receiver.data, rx.receiver.files)] },
        [.callback (.messageReceived rx.receiver.data rx.receiver.files), .tryReceive (n + 1) write])) :
    P (s.tryReceive K n write) := by
  unfold tryReceive
  split
  · rename_i hr
    split
    · exact error hr.2 _ _
    · exact blocked hr.2 _
    · exact received hr.2 _
  · exact done

/-- What the end of `close` can do. -/
theorem closeShutdown_cases {K : Kernel F κ} {P : UnixSocket κ F × List (Frame F) → Prop}
    (freed : P (s.raise .useAfterFree, [.closeShutdown]))
    (done : ∀ kernel thrown, P ({ s with kernel, thrown }, [])) :
    P (s.exec K st .closeShutdown) := by
  rw [exec]
  split
  · exact freed
  · split
    · dsimp only
      split
      · exact done (K.shutdown s.kernel).2 s.thrown
      · exact done (K.shutdown s.kernel).2 _
    · exact done s.kernel _

/-- What the end of `destroy` can do. -/
theorem destroyEnd_cases {K : Kernel F κ} {P : UnixSocket κ F × List (Frame F) → Prop}
    (freed : P (s.raise .useAfterFree, [.destroyEnd])) (done : P ({ s with destroyPending_ := true }, [])) :
    P (s.exec K st .destroyEnd) := by
  rw [exec]
  split
  · exact freed
  · exact done

/-- A registration is what the handler has. -/
theorem updateIORegistration_eq (h : s.handler = s.registeredIOEvents_) (ev : IOEvents) :
    s.updateIORegistration ev = { s with handler := ev, registeredIOEvents_ := ev } := by
  unfold updateIORegistration
  split
  · rename_i he
    cases s; simp_all
  · simp

/-- The registration for writing and the timeout, together. -/
def setWrite (s : UnixSocket κ F) (b : Bool) : UnixSocket κ F :=
  { s with
    isScheduled := b
    handler := { s.registeredIOEvents_ with write := b }
    registeredIOEvents_ := { s.registeredIOEvents_ with write := b } }

/-- Behind the last send, a socket that is to close does so. -/
theorem finishTrySend_nil (h : s.handler = s.registeredIOEvents_) (hq : s.sendQueue_ = []) :
    s.finishTrySend = if s.closeStarted_ then (s.setWrite false).closeNow else (s.setWrite false, []) := by
  unfold finishTrySend unregisterForWrites
  rw [updateIORegistration_eq (s := s.cancelTimeout) h]
  simp [hq, cancelTimeout, setWrite]

/-- While sends are left, the handler waits until it can write. -/
theorem finishTrySend_cons (h : s.handler = s.registeredIOEvents_) (hq : s.sendQueue_ ≠ []) :
    s.finishTrySend = (s.setWrite true, []) := by
  unfold finishTrySend registerForWrites
  rw [updateIORegistration_eq (s := s.scheduleTimeout) h]
  simp [hq, scheduleTimeout, setWrite]

/-- The registration for reading and the callback, together. -/
def setRead (s : UnixSocket κ F) (b : Bool) : UnixSocket κ F :=
  { s with
    receiveCallback_ := b
    handler := { s.registeredIOEvents_ with read := b }
    registeredIOEvents_ := { s.registeredIOEvents_ with read := b } }

theorem setReceiveCallback_ok (h : s.handler = s.registeredIOEvents_) (hr : s.receiveCallback_ = false)
    (hc : s.closeStarted_ = false) : s.setReceiveCallback = (s.setRead true, []) := by
  unfold setReceiveCallback registerForReads
  rw [updateIORegistration_eq (s := { s with receiveCallback_ := true }) h]
  simp [hr, hc, setRead]

theorem clearReceiveCallback_ok (h : s.handler = s.registeredIOEvents_) (hr : s.receiveCallback_ = true) :
    s.clearReceiveCallback = (s.setRead false, []) := by
  unfold clearReceiveCallback unregisterForReads
  rw [updateIORegistration_eq (s := { s with receiveCallback_ := false }) h]
  simp [hr, setRead]

/-- What `setReceiveCallback` can do. -/
theorem setReceiveCallback_cases {P : UnixSocket κ F × List (Frame F) → Prop}
    (h : s.handler = s.registeredIOEvents_)
    (throw : ∀ e, P (s.throwing e, []))
    (done : s.receiveCallback_ = false → s.closeStarted_ = false → P (s.setRead true, [])) :
    P s.setReceiveCallback := by
  cases hr : s.receiveCallback_ with
  | true =>
    rw [setReceiveCallback, if_pos hr]
    exact throw _
  | false =>
    cases hc : s.closeStarted_ with
    | true =>
      rw [setReceiveCallback, if_neg (by simp [hr]), if_pos hc]
      exact throw _
    | false =>
      rw [setReceiveCallback_ok h hr hc]
      exact done hr hc

/-- What `clearReceiveCallback` can do. -/
theorem clearReceiveCallback_cases {P : UnixSocket κ F × List (Frame F) → Prop}
    (h : s.handler = s.registeredIOEvents_)
    (throw : P (s.throwing .notInstalled, [])) (done : s.receiveCallback_ = true → P (s.setRead false, [])) :
    P s.clearReceiveCallback := by
  cases hr : s.receiveCallback_ with
  | true =>
    rw [clearReceiveCallback_ok h hr]
    exact done hr
  | false =>
    rw [clearReceiveCallback, if_neg (by simp [hr])]
    exact throw

/-- `close` with sends queued: the receive side only. -/
theorem close_queued (h : s.handler = s.registeredIOEvents_) (hr : s.registeredIOEvents_.read = s.receiveCallback_)
    (hc : s.closeStarted_ = false) (hq : s.sendQueue_ ≠ []) :
    s.close = ({ s.setRead false with closeStarted_ := true }, s.notice .socketClosed ++ [.closeShutdown]) := by
  have hu := updateIORegistration_eq (s := { s with closeStarted_ := true }) h
  cases hcb : s.receiveCallback_ with
  | true =>
    rw [close, if_neg (by simp [hc]), if_neg (by simpa using hq)]
    simp only [unregisterForReads, hu]
    simp [hcb, takeReceiveCallback_eq, setRead, notice]
  | false =>
    obtain ⟨s1, ⟨r, w⟩, s3, s4, s5, s6, s7, s8⟩ := s
    simp_all [close, setRead, notice]

/-- A callback on the stack changes nothing for the invariant. -/
theorem inv_notice (c : Callback F) (t : UnixSocket κ F) : Inv t (s.notice c ++ st) ↔ Inv t st := by
  unfold notice; split <;> simp

theorem inv_sendNotice (p : QueuedSend F) (result : Option SocketError) :
    Inv s (sendNotice p result ++ st) ↔ Inv s st := by
  unfold sendNotice; split <;> simp

/-! ### Closing -/

/-- Shutting an open socket leaves the sends to be failed. -/
theorem Inv.shut {st' : List (Frame F)} {e : SocketError} (h : Inv s st') (caller : Closer) (hio : IoBelow st)
    (herr : EdenCommon.erring st = false) :
    Inv (s.shut (decide (caller = .closeNow))) (.failAllSends e caller :: st) := by
  constructor
  case tail => exact h.tail
  case order => simp [ioBelow_cons, hio, Frame.isIo]
  all_goals simp [UnixSocket.shut, IOEvents.none, Frame.isFailing]
  all_goals cases caller <;> simp [Frame.isErring, herr]

/-- An open socket has no loop under way that fails its sends for an error. -/
theorem Inv.erring_of_open (h : Inv s st) (ho : s.socket_ = true) : EdenCommon.erring st = false := by
  by_contra he
  have hc : s.socket_ = false := h.erring (by simpa using he)
  simp [ho] at hc

/-- `closeNow` keeps the invariant, from user code anywhere. -/
theorem Inv.closeNow (h : Inv s st) : Inv s.closeNow.1 (s.closeNow.2 ++ st) := by
  cases ho : s.socket_ with
  | true =>
    rw [closeNow_open ho, List.append_assoc, inv_notice]
    exact h.shut .closeNow h.order (h.erring_of_open ho)
  | false =>
    rw [closeNow_closed ho]
    exact { h with }

/-- `socketError` in place of the frame on top. -/
theorem Inv.socketError {e : SocketError} (h : Inv s (f :: st)) (ho : s.socket_ = true) :
    Inv (s.socketError e).1 ((s.socketError e).2 ++ st) := by
  rw [socketError_open e ho, List.append_assoc, inv_notice]
  have herr := h.erring_of_open ho
  simp only [erring_cons, Bool.or_eq_false_iff] at herr
  exact h.shut .socketError (ioBelow_cons.1 h.order).2 herr.2

/-- The queue loses its front while a call of `trySend` or `failAllSends` stays under way. -/
theorem Inv.takeSend {p : QueuedSend F} {rest : List (QueuedSend F)} {result : Option SocketError}
    (h : Inv s (f :: st)) (hq : s.sendQueue_ = p :: rest) (hf : f.isTrySend = true ∨ f.isFailing = true) :
    Inv (s.takeSend p rest result).1 ((s.takeSend p rest result).2 ++ f :: st) := by
  have hq' : s.sendQueue_ ≠ [] := by simp [hq]
  have hs : s.registeredIOEvents_.write = true → sending (f :: st) = true := by
    intro hw
    obtain hf | hf := hf
    · simp [hf]
    · have := (h.failing (by simp [hf])).2
      simp [hw] at this
  rw [takeSend_eq, inv_sendNotice]
  refine { h with tail := ?_, writable := ?_, queued := ?_, left := ?_ }
  · have ht := h.tail
    rw [hq] at ht
    cases rest with
    | nil => simp
    | cons p' rest => simpa using ht
  · intro hw
    exact Or.inr (hs hw)
  · intro _
    exact h.queued hq'
  · intro hc _
    exact h.left hc hq'

/-- A turn of the loop keeps it. -/
theorem Inv.failAllSends {e : SocketError} {caller : Closer} (h : Inv s (.failAllSends e caller :: st)) :
    Inv (s.failAllSends e caller).1 ((s.failAllSends e caller).2 ++ st) := by
  cases hq : s.sendQueue_ with
  | cons p rest =>
    rw [failAllSends_cons e caller hq, List.append_assoc]
    exact h.takeSend hq (Or.inr rfl)
  | nil =>
    rw [failAllSends_nil e caller hq]
    obtain ⟨h1, h2⟩ := h.failing (by simp [Frame.isFailing])
    refine { h with
      closed := fun _ => ⟨h1, h2⟩
      failing := fun _ => ⟨h1, h2⟩
      order := (ioBelow_cons.1 h.order).2
      writable := fun hw => by simp [h2] at hw
      queued := fun hne => absurd hq hne
      left := fun _ hne => absurd hq hne
      erring := ?_ }
    intro he
    have hc := h.erring (by rw [erring_cons, show EdenCommon.erring st = true from he, Bool.or_true])
    simp [hc]

/-- `close` waits for the sends that are queued. -/
theorem Inv.close (h : Inv s st) : Inv s.close.1 (s.close.2 ++ st) := by
  cases hc : s.closeStarted_ with
  | true => simpa [UnixSocket.close, hc] using h
  | false =>
    by_cases hq : s.sendQueue_ = []
    · simpa [UnixSocket.close, hc, hq] using h.closeNow
    · rw [close_queued h.handler h.read hc hq, List.append_assoc, inv_notice, List.singleton_append,
        inv_closeShutdown]
      refine { h with
        handler := rfl
        read := rfl
        installed := fun _ => rfl
        closed := fun ho => ⟨rfl, (h.closed ho).2⟩
        failing := fun hf => ⟨rfl, (h.failing hf).2⟩ }

/-! ### Sending -/

/-- A socket that is writing is open. -/
theorem Inv.open_of_trySend {n : ℕ} (h : Inv s (.trySend n :: st)) (hq : s.sendQueue_ ≠ []) : s.socket_ = true := by
  have hfail : EdenCommon.failing st = false := (ioBelow_cons.1 h.order).1 rfl
  by_contra hc
  have := failing_of_erring (h.left (by simpa using hc) hq)
  simp [Frame.isFailing, hfail] at this

/-- `trySend` has found the queue empty. -/
theorem Inv.setWrite_false {n : ℕ} (h : Inv s (.trySend n :: st)) (hq : s.sendQueue_ = []) :
    Inv (s.setWrite false) st := by
  obtain ⟨hf, hio⟩ := ioBelow_cons.1 h.order
  have hfail : EdenCommon.failing st = false := hf rfl
  exact { h with
    handler := rfl
    scheduled := rfl
    closed := fun hc => ⟨(h.closed hc).1, rfl⟩
    failing := fun hc => by simp [hfail] at hc
    order := hio
    writable := fun hw => by simp [setWrite] at hw
    queued := fun hne => absurd hq hne
    left := fun _ hne => absurd hq hne }

/-- `trySend` leaves something in the queue. -/
theorem Inv.setWrite_true {n : ℕ} (h : Inv s (.trySend n :: st)) (hq : s.sendQueue_ ≠ []) :
    Inv (s.setWrite true) st := by
  obtain ⟨hf, hio⟩ := ioBelow_cons.1 h.order
  have hfail : EdenCommon.failing st = false := hf rfl
  have hopen := h.open_of_trySend hq
  exact { h with
    handler := rfl
    scheduled := rfl
    closed := fun hc => by simp [setWrite, hopen] at hc
    failing := fun hc => by simp [hfail] at hc
    order := hio
    writable := fun _ => Or.inl hq
    queued := fun _ => Or.inl rfl
    left := fun hc => by simp [setWrite, hopen] at hc }

/-- The end of a round of writes keeps it. -/
theorem Inv.finishTrySend {n : ℕ} (h : Inv s (.trySend n :: st)) :
    Inv s.finishTrySend.1 (s.finishTrySend.2 ++ st) := by
  by_cases hq : s.sendQueue_ = []
  · have hinv := h.setWrite_false hq
    rw [finishTrySend_nil h.handler hq]
    split
    · exact hinv.closeNow
    · exact hinv
  · rw [finishTrySend_cons h.handler hq]
    exact h.setWrite_true hq

/-- The front of the queue has got on. -/
theorem Inv.replaceFront {n : ℕ} {p : QueuedSend F} {rest : List (QueuedSend F)} {entry : SendQueueEntry F}
    {kernel : κ} (h : Inv s (.trySend n :: st)) (hq : s.sendQueue_ = p :: rest) :
    Inv { s with sendQueue_ := { p with entry } :: rest, kernel } (.trySend n :: st) := by
  have hne : s.sendQueue_ ≠ [] := by simp [hq]
  exact { h with
    tail := by simpa [hq] using h.tail
    writable := fun _ => Or.inl (by simp)
    queued := fun _ => h.queued hne
    left := fun hc _ => h.left hc hne }

/-- The last link is the one that the tail pointer names. -/
theorem linkBehind_last {q : List (QueuedSend F)} {tail : ℕ} (e : QueuedSend F)
    (hn : (q.map QueuedSend.id).Nodup) (ht : (q.map QueuedSend.id).getLast? = some tail) :
    linkBehind q tail e = q ++ [e] := by
  induction q with
  | nil => simp at ht
  | cons p rest ih =>
    rw [List.map_cons, List.nodup_cons] at hn
    obtain ⟨hp, hn⟩ := hn
    cases rest with
    | nil =>
      obtain rfl : p.id = tail := by simpa using ht
      simp [linkBehind]
    | cons p' rest =>
      have ht' : ((p' :: rest).map QueuedSend.id).getLast? = some tail := by simpa using ht
      have hne : p.id ≠ tail := by
        intro he
        exact hp (he ▸ List.mem_of_getLast? ht')
      rw [linkBehind, if_neg hne, ih hn ht']
      simp

/-- The two ways in which a message is queued. -/
theorem send_queued {message : Message F} {callback : Bool} (h : Inv s st)
    (hn : (s.sendQueue_.map QueuedSend.id).Nodup) (hc : s.closeStarted_ = false) :
    s.send message callback true =
      ({ s with
          sends := s.sends + 1
          submitted := if callback then s.submitted ++ [s.sends] else s.submitted
          sendQueue_ := s.sendQueue_ ++ [⟨s.sends, callback, createSendQueueEntry message⟩]
          sendQueueTail_ := some s.sends },
        if s.sendQueue_.isEmpty then [.trySend 0] else []) := by
  have ht := h.tail
  cases hq : s.sendQueueTail_ with
  | none =>
    rw [hq] at ht
    have hnil : s.sendQueue_ = [] := by simpa using ht.symm
    simp [send, hc, hq, hnil]
  | some tail =>
    rw [hq] at ht
    have hne : s.sendQueue_ ≠ [] := by
      intro he
      simp [he] at ht
    simp [send, hc, hq, hne, linkBehind_last _ hn ht.symm]

theorem refuse_eq (s : UnixSocket κ F) (id : ℕ) (callback : Bool) :
    s.refuse id callback =
      if callback then
        ({ s with outcomes := s.outcomes ++ [(id, some .closed)] }, [.callback (.sendError id .closed)])
      else ({ s with fault := some .nullPointer }, []) := rfl

/-- A socket that is closing, or without memory, refuses the message and tells the callback. -/
theorem send_refused {message : Message F} {callback allocated : Bool}
    (hc : s.closeStarted_ = true ∨ allocated = false) :
    s.send message callback allocated =
      { s with
        sends := s.sends + 1
        submitted := if callback then s.submitted ++ [s.sends] else s.submitted }.refuse s.sends callback := by
  obtain hc | hc := hc
  · simp [send, hc]
  · simp [send, hc]

/-- `send` keeps the invariant, whether it queues the message or refuses it. -/
theorem Inv.send {message : Message F} {callback allocated : Bool} (h : Inv s st)
    (hn : (s.sendQueue_.map QueuedSend.id).Nodup) :
    Inv (s.send message callback allocated).1 ((s.send message callback allocated).2 ++ st) := by
  by_cases hr : s.closeStarted_ = true ∨ allocated = false
  · rw [send_refused hr, refuse_eq]
    cases callback with
    | true =>
      simp only [if_true, List.singleton_append, inv_callback]
      exact { h with }
    | false => exact { h with }
  · obtain ⟨hc, rfl⟩ : s.closeStarted_ = false ∧ allocated = true := by simpa using hr
    have hopen : s.socket_ = true := by
      by_contra ho
      have := (h.closed (by simpa using ho)).1
      simp [hc] at this
    have hfail : EdenCommon.failing st = false := by
      by_contra hf
      have := (h.failing (by simpa using hf)).1
      simp [hc] at this
    rw [send_queued h hn hc]
    by_cases hq : s.sendQueue_ = []
    · simp only [hq, List.isEmpty_nil, if_true, List.nil_append]
      exact { h with
        tail := rfl
        failing := fun hf => by simp [hfail, Frame.isFailing] at hf
        order := ioBelow_cons.2 ⟨fun _ => hfail, h.order⟩
        writable := fun _ => Or.inl (by simp)
        queued := fun _ => Or.inr (Or.inl (by simp [Frame.isTrySend]))
        left := fun ho => by simp [hopen] at ho
        erring := fun he => h.erring (by simpa [Frame.isErring] using he) }
    · simp only [List.isEmpty_iff, hq, if_false, List.nil_append]
      exact { h with
        tail := by simp
        writable := fun _ => Or.inl (by simp)
        queued := fun _ => h.queued hq
        left := fun ho => by simp [hopen] at ho }

/-- The next turn of the loop. -/
theorem Inv.trySend_succ {n m : ℕ} (h : Inv s (.trySend n :: st)) : Inv s (.trySend m :: st) := by
  obtain ⟨hf, hio⟩ := ioBelow_cons.1 h.order
  exact { h with order := ioBelow_cons.2 ⟨fun _ => hf rfl, hio⟩ }

/-- **A round of writes** keeps it, whatever the kernel takes. -/
theorem Inv.trySend {K : Kernel F κ} {n : ℕ} (h : Inv s (.trySend n :: st)) :
    Inv (s.trySend K n).1 ((s.trySend K n).2 ++ st) := by
  refine trySend_cases (P := fun r => Inv r.1 (r.2 ++ st)) h.finishTrySend ?_ ?_ ?_ ?_
  · exact { h with }
  · intro p rest hq
    exact h.socketError (h.open_of_trySend (by simp [hq]))
  · intro p rest entry kernel hq
    exact (h.replaceFront hq).finishTrySend
  · intro p rest kernel hq
    have h' : Inv { s with kernel, sent := s.sent ++ [p.id] } (.trySend (n + 1) :: st) :=
      { h.trySend_succ with }
    rw [List.append_assoc]
    exact h'.takeSend hq (Or.inl rfl)

/-! ### Receiving -/

theorem Inv.setReceiveCallback (h : Inv s st) : Inv s.setReceiveCallback.1 (s.setReceiveCallback.2 ++ st) := by
  refine setReceiveCallback_cases (P := fun r => Inv r.1 (r.2 ++ st)) h.handler ?_ ?_
  · intro e
    exact { h with }
  · intro _ hc
    exact { h with
      handler := rfl
      read := rfl
      installed := fun hs => by simp [setRead, hc] at hs }

theorem Inv.clearReceiveCallback (h : Inv s st) :
    Inv s.clearReceiveCallback.1 (s.clearReceiveCallback.2 ++ st) := by
  refine clearReceiveCallback_cases (P := fun r => Inv r.1 (r.2 ++ st)) h.handler ?_ ?_
  · exact { h with }
  · intro _
    exact { h with
      handler := rfl
      read := rfl
      installed := fun _ => rfl }

/-- A receive callback is there only while the socket is open. -/
theorem Inv.open_of_installed (h : Inv s st) (hr : s.receiveCallback_ = true) : s.socket_ = true := by
  by_contra hc
  have := h.installed (h.closed (by simpa using hc)).1
  simp [hr] at this

/-- One I/O frame in place of another. -/
theorem Inv.io {g : Frame F} (h : Inv s (f :: st)) (hf : f.isIo = true) (hf' : f.isTrySend = false)
    (hg : g.isIo = true) : Inv s (g :: st) := by
  have h' : Inv s st := h.pop hf' (Frame.isFailing_eq_false hf)
  exact h'.push (Frame.isFailing_eq_false hg) fun _ => (ioBelow_cons.1 h.order).1 hf

/-- **A round of reads** keeps it, whatever the kernel gives. -/
theorem Inv.tryReceive {K : Kernel F κ} {n : ℕ} {write : Bool} (h : Inv s (.tryReceive n write :: st)) :
    Inv (s.tryReceive K n write).1 ((s.tryReceive K n write).2 ++ st) := by
  refine tryReceive_cases (P := fun r => Inv r.1 (r.2 ++ st)) ?_ ?_ ?_ ?_
  · exact h.io rfl rfl rfl
  · intro hr e rx
    have h' : Inv { s with receiver := rx.receiver, kernel := rx.kernel } (.tryReceive n write :: st) := { h with }
    exact h'.socketError (h.open_of_installed hr)
  · intro hr rx
    have h' : Inv { s with receiver := rx.receiver, kernel := rx.kernel } (.handlerWrite write :: st) :=
      { h.io rfl rfl rfl with }
    cases rx.atEof <;> simpa using h'
  · intro hr rx
    have h' : Inv s (.tryReceive (n + 1) write :: st) := h.io rfl rfl rfl
    simp only [List.cons_append, List.nil_append, inv_callback]
    exact { h' with }

theorem Inv.handlerWrite {write : Bool} (h : Inv s (.handlerWrite write :: st)) :
    Inv s ((if write then [.trySend 0] else []) ++ st) := by
  cases write with
  | true => exact h.io rfl rfl rfl
  | false => exact h.pop rfl rfl

/-! ### Steps -/

/-- The destructor closes the socket. -/
theorem Inv.destroy (h : Inv s st) : Inv s.destroy.1 (s.destroy.2 ++ st) := by
  have h' := (inv_destroyEnd.2 h).closeNow
  simpa [UnixSocket.destroy] using h'

/-- **Every call from user code** keeps the invariant. -/
theorem Inv.call (h : Inv s st) (hn : (s.sendQueue_.map QueuedSend.id).Nodup) (c : Call F) :
    Inv (s.call c).1 ((s.call c).2 ++ st) := by
  cases c with
  | send message callback allocated => exact h.send hn
  | close => exact h.close
  | closeNow => exact h.closeNow
  | destroy => exact h.destroy
  | setReceiveCallback => exact h.setReceiveCallback
  | clearReceiveCallback => exact h.clearReceiveCallback

/-- **Every frame** keeps the invariant. -/
theorem Inv.exec {K : Kernel F κ} (h : Inv s (f :: st)) : Inv (s.exec K st f).1 ((s.exec K st f).2 ++ st) := by
  cases f with
  | callback c => exact (inv_callback c).1 h
  | trySend n => exact h.trySend
  | tryReceive n write => exact h.tryReceive
  | handlerWrite write => exact h.handlerWrite
  | failAllSends e caller => exact h.failAllSends
  | closeShutdown =>
    have h' := inv_closeShutdown.1 h
    refine closeShutdown_cases (P := fun r => Inv r.1 (r.2 ++ st)) ?_ ?_
    · exact { h with }
    · intro kernel thrown
      exact { h' with }
  | destroyEnd =>
    have h' := inv_destroyEnd.1 h
    refine destroyEnd_cases (P := fun r => Inv r.1 (r.2 ++ st)) ?_ ?_
    · exact { h with }
    · exact { h' with }

theorem Inv.handlerReady (h : Inv s []) (events : IOEvents) : Inv s [UnixSocket.handlerReady events] := by
  unfold UnixSocket.handlerReady
  split <;> exact h.push rfl fun _ => rfl

/-- The timeout is scheduled on open sockets only. -/
theorem Inv.timeoutExpired (h : Inv s []) (hs : s.isScheduled = true) :
    s.socket_ = true ∧ Inv s.timeoutExpired.1 s.timeoutExpired.2 := by
  have ho : s.socket_ = true := by
    by_contra hc
    have hw := (h.closed (by simpa using hc)).2
    simp [← h.scheduled, hs] at hw
  refine ⟨ho, ?_⟩
  unfold UnixSocket.timeoutExpired
  rw [socketError_open (s := { s with isScheduled := false }) _ ho, inv_notice]
  exact h.shut .socketError h.order rfl

/-! ### What goes wrong -/

/-- No debug check fails from `s` to `t`, and nothing is called through a null pointer. -/
structure Mild (s t : UnixSocket κ F) : Prop where
  check : t.failedCheck = s.failedCheck
  fault : t.fault = s.fault ∨ t.fault = some .checkFailed ∨ t.fault = some .useAfterFree

theorem Mild.of_eq {t : UnixSocket κ F} (hc : t.failedCheck = s.failedCheck) (hf : t.fault = s.fault) : Mild s t :=
  ⟨hc, Or.inl hf⟩

/-- A step that is mild does not go through a null pointer. -/
theorem Mild.no_null {t : UnixSocket κ F} (h : Mild s t) (hf : s.fault = none) : t.fault ≠ some .nullPointer := by
  intro hn
  obtain he | he | he := h.fault
  · simp [hn, hf] at he
  · simp [hn] at he
  · simp [hn] at he

/-- `socketError` has closed the socket and sends are still queued. -/
def FailingSends (s : UnixSocket κ F) (st : List (Frame F)) : Prop :=
  EdenCommon.erring st = true ∧ s.sendQueue_ ≠ []

theorem closeNow_fault : s.closeNow.1.fault = s.fault := by
  cases ho : s.socket_ with
  | true => rw [closeNow_open ho]; rfl
  | false => rw [closeNow_closed ho]; rfl

/-- The checks of `closeNow` hold in all other states. -/
theorem closeNow_check (h : Inv s st) :
    s.closeNow.1.failedCheck = false ↔ s.failedCheck = false ∧ ¬ s.FailingSends st := by
  cases ho : s.socket_ with
  | true =>
    have he := h.erring_of_open ho
    simp [closeNow_open ho, UnixSocket.shut, FailingSends, he]
  | false =>
    rw [closeNow_closed ho]
    by_cases hq : s.sendQueue_ = []
    · simp only [xdcheck, h.isQuiet ho hq, FailingSends, hq]
      simp
    · have he := h.left ho hq
      have hb : s.isQuiet = false := by simp [UnixSocket.isQuiet, hq]
      simp [xdcheck, hb, FailingSends, he, hq]

/-- `closeNow` is mild unless sends are being failed, where `XDCHECK` would look at them. -/
theorem closeNow_mild (h : Inv s st) (hn : ¬ s.FailingSends st) : Mild s s.closeNow.1 := by
  refine .of_eq ?_ closeNow_fault
  have hiff := closeNow_check h
  rw [and_iff_left hn] at hiff
  exact Bool.eq_iff_iff.2 (by simpa using not_congr hiff)

/-- `socketError` is entered on open sockets. -/
theorem socketError_mild (e : SocketError) (ho : s.socket_ = true) : Mild s (s.socketError e).1 := by
  rw [socketError_open e ho]
  exact .of_eq rfl rfl

/-- The end of a round of writes is mild. -/
theorem finishTrySend_mild {n : ℕ} (h : Inv s (.trySend n :: st)) : Mild s s.finishTrySend.1 := by
  by_cases hq : s.sendQueue_ = []
  · rw [finishTrySend_nil h.handler hq]
    split
    · have hm := closeNow_mild (h.setWrite_false hq) fun hf => hf.2 hq
      exact ⟨hm.check, hm.fault⟩
    · exact .of_eq rfl rfl
  · rw [finishTrySend_cons h.handler hq]
    exact .of_eq rfl rfl

/-- No call under way goes wrong by itself. -/
theorem exec_mild {K : Kernel F κ} (h : Inv s (f :: st)) : Mild s (s.exec K st f).1 := by
  cases f with
  | callback c => exact .of_eq rfl rfl
  | trySend n =>
    refine trySend_cases (P := fun r => Mild s r.1) (finishTrySend_mild h) ⟨rfl, Or.inr (Or.inl rfl)⟩ ?_ ?_ ?_
    · intro p rest hq
      exact socketError_mild _ (h.open_of_trySend (by simp [hq]))
    · intro p rest entry kernel hq
      have h' : Inv { s with sendQueue_ := { p with entry } :: rest, kernel } (.trySend n :: st) :=
        h.replaceFront hq
      have hm := finishTrySend_mild h'
      exact ⟨hm.check, hm.fault⟩
    · intro p rest kernel _
      rw [takeSend_eq]
      exact .of_eq rfl rfl
  | tryReceive n write =>
    refine tryReceive_cases (P := fun r => Mild s r.1) (.of_eq rfl rfl) ?_ ?_ ?_
    · intro hr e rx
      have hm := socketError_mild (s := { s with receiver := rx.receiver, kernel := rx.kernel }) (.receive e)
        (h.open_of_installed hr)
      exact ⟨hm.check, hm.fault⟩
    · intro _ rx
      exact .of_eq rfl rfl
    · intro _ rx
      exact .of_eq rfl rfl
  | handlerWrite write => exact .of_eq rfl rfl
  | failAllSends e caller =>
    cases hq : s.sendQueue_ with
    | cons p rest =>
      rw [UnixSocket.exec, failAllSends_cons e caller hq, takeSend_eq]
      exact .of_eq rfl rfl
    | nil =>
      rw [UnixSocket.exec, failAllSends_nil e caller hq]
      exact .of_eq rfl rfl
  | closeShutdown =>
    exact closeShutdown_cases (P := fun r => Mild s r.1) ⟨rfl, Or.inr (Or.inr rfl)⟩ fun _ _ => .of_eq rfl rfl
  | destroyEnd => exact destroyEnd_cases (P := fun r => Mild s r.1) ⟨rfl, Or.inr (Or.inr rfl)⟩ (.of_eq rfl rfl)

theorem close_mild (h : Inv s st) : Mild s s.close.1 := by
  cases hc : s.closeStarted_ with
  | true =>
    rw [UnixSocket.close, if_pos hc]
    exact .of_eq rfl rfl
  | false =>
    by_cases hq : s.sendQueue_ = []
    · have hm := closeNow_mild h fun hf => hf.2 hq
      simpa [UnixSocket.close, hc, hq] using hm
    · rw [close_queued h.handler h.read hc hq]
      exact .of_eq rfl rfl

theorem setReceiveCallback_mild (h : Inv s st) : Mild s s.setReceiveCallback.1 :=
  setReceiveCallback_cases (P := fun r => Mild s r.1) h.handler (fun _ => .of_eq rfl rfl) fun _ _ => .of_eq rfl rfl

theorem clearReceiveCallback_mild (h : Inv s st) : Mild s s.clearReceiveCallback.1 :=
  clearReceiveCallback_cases (P := fun r => Mild s r.1) h.handler (.of_eq rfl rfl) fun _ => .of_eq rfl rfl

/-- So is the timeout of a send. -/
theorem timeoutExpired_mild (h : Inv s []) (hs : s.isScheduled = true) : Mild s s.timeoutExpired.1 := by
  have hm := socketError_mild (s := { s with isScheduled := false }) .sendTimeout (h.timeoutExpired hs).1
  exact ⟨hm.check, hm.fault⟩

/-- A send with a callback, or on a socket that takes messages. -/
def SafeSend (s : UnixSocket κ F) (callback allocated : Bool) : Prop :=
  callback = true ∨ (s.closeStarted_ = false ∧ allocated = true)

/-- What `send` records: no failed check, and no null pointer if it is a safe one. -/
theorem send_records (h : Inv s st) (hn : (s.sendQueue_.map QueuedSend.id).Nodup) (message : Message F)
    (callback allocated : Bool) :
    (s.send message callback allocated).1.failedCheck = s.failedCheck ∧
      (s.SafeSend callback allocated → (s.send message callback allocated).1.fault = s.fault) ∧
      (¬ s.SafeSend callback allocated → (s.send message callback allocated).1.fault = some .nullPointer) := by
  by_cases hr : s.closeStarted_ = true ∨ allocated = false
  · have hne : ¬(s.closeStarted_ = false ∧ allocated = true) := by
      intro hne
      obtain hc | hc := hr
      · simp [hc] at hne
      · simp [hc] at hne
    rw [send_refused hr, refuse_eq]
    cases callback <;> simp [SafeSend, hne]
  · obtain ⟨hc, rfl⟩ : s.closeStarted_ = false ∧ allocated = true := by simpa using hr
    rw [send_queued h hn hc]
    simp [SafeSend, hc]

end UnixSocket

/-- What a step can do. -/
theorem Running.step_cases {K : Kernel F κ} {r r' : Running κ F} {a : Act F} {P : Act F → Running κ F → Prop}
    (hs : step K r a = some r')
    (call : ∀ c, r.socket.fault = none → P (.call c) ⟨(r.socket.call c).1, (r.socket.call c).2 ++ r.stack⟩)
    (ready : ∀ events, r.stack = [] → P (.ready events) ⟨r.socket, [UnixSocket.handlerReady events]⟩)
    (timeout : r.stack = [] → r.socket.isScheduled = true →
      P .timeout ⟨r.socket.timeoutExpired.1, r.socket.timeoutExpired.2⟩)
    (ret : ∀ c below, r.stack = .callback c :: below → P .ret ⟨r.socket, below⟩)
    (run : ∀ f below, r.stack = f :: below →
      P .run ⟨(r.socket.exec K below f).1, (r.socket.exec K below f).2 ++ below⟩) : P a r' := by
  unfold step at hs
  split at hs
  · cases hs
  · rename_i hf
    split at hs
    · rename_i c
      split at hs
      · rw [← Option.some.inj hs]
        exact call c (by simpa using hf)
      · cases hs
    · rename_i events
      split at hs
      · rename_i hu
        rw [← Option.some.inj hs]
        rw [Bool.and_eq_true, Bool.and_eq_true, List.isEmpty_iff] at hu
        exact ready events hu.1.1
      · cases hs
    · split at hs
      · rename_i hu
        rw [← Option.some.inj hs]
        rw [Bool.and_eq_true, List.isEmpty_iff] at hu
        exact timeout hu.1 hu.2
      · cases hs
    · split at hs
      · rename_i c below hst
        rw [← Option.some.inj hs]
        exact ret c below hst
      · cases hs
    · split at hs
      · cases hs
      · cases hs
      · rename_i hst
        rw [← Option.some.inj hs]
        exact run _ _ hst

end EdenCommon
