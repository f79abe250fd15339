import EdenCommon.Proof.SocketSends

/-!
# The receive side of a `UnixSocket`

What a step of a `UnixSocket` does that its receive callback can see (`Effect`): at most
one call of a callback is made, on top of the other frames, and the callback is uninstalled
only together with a call of `receiveError` or `socketClosed`.

Each operation of the socket has a lemma that names its effect: `closeNow_effect`,
`socketError_effect`, `timeoutExpired_effect`, `send_effect` and so on. `exec_effect` puts
them together for one frame of the socket, whatever the kernel answers. The run lemmas of
`Proof/SocketLifecycle` need no more than that.
-/

namespace EdenCommon

open Lib

variable {F κ : Type}

/-- A call of a `SendCallback`. -/
def Callback.isSend : Callback F → Bool
  | .sendSuccess _ => true
  | .sendError _ _ => true
  | _ => false

/-- No frame of user code. -/
def Internal (fs : List (Frame F)) : Prop := ∀ f ∈ fs, f.isCallback = false

namespace UnixSocket

variable {s t : UnixSocket κ F} {st fs : List (Frame F)} {f : Frame F}

/-- What happens on the receive side from `s` to `t`, with the frames that are new. -/
inductive Effect (s t : UnixSocket κ F) : List (Frame F) → Prop
  | quiet {fs : List (Frame F)} (installed : t.receiveCallback_ = s.receiveCallback_)
      (delivered : t.delivered = s.delivered) (internal : Internal fs) : Effect s t fs
  | sent {c : Callback F} {fs : List (Frame F)} (installed : t.receiveCallback_ = s.receiveCallback_)
      (delivered : t.delivered = s.delivered) (send : c.isSend = true) (internal : Internal fs) :
      Effect s t (.callback c :: fs)
  | failed {e : SocketError} {fs : List (Frame F)} (before : s.receiveCallback_ = true)
      (after : t.receiveCallback_ = false) (delivered : t.delivered = s.delivered) (closed : t.socket_ = false)
      (internal : Internal fs) : Effect s t (.callback (.receiveError e) :: fs)
  | eof {fs : List (Frame F)} (before : s.receiveCallback_ = true) (after : t.receiveCallback_ = true)
      (delivered : t.delivered = s.delivered) (internal : Internal fs) : Effect s t (.callback .eofReceived :: fs)
  | received {data : Bytes} {files : List F} {fs : List (Frame F)} (before : s.receiveCallback_ = true)
      (after : t.receiveCallback_ = true) (delivered : t.delivered = s.delivered ++ [(data, files)])
      (internal : Internal fs) : Effect s t (.callback (.messageReceived data files) :: fs)

theorem internal_nil : Internal ([] : List (Frame F)) := by simp [Internal]

theorem internal_singleton (h : f.isCallback = false) : Internal [f] := by simpa [Internal] using h

/-- Only these two fields of the state before matter. -/
theorem Effect.congr {s' : UnixSocket κ F} (h : Effect s' t fs) (hr : s'.receiveCallback_ = s.receiveCallback_)
    (hd : s'.delivered = s.delivered) : Effect s t fs := by
  cases h with
  | quiet installed delivered internal => exact .quiet (hr ▸ installed) (hd ▸ delivered) internal
  | sent installed delivered send internal => exact .sent (hr ▸ installed) (hd ▸ delivered) send internal
  | failed before after delivered closed internal =>
    exact .failed (hr ▸ before) after (hd ▸ delivered) closed internal
  | eof before after delivered internal => exact .eof (hr ▸ before) after (hd ▸ delivered) internal
  | received before after delivered internal => exact .received (hr ▸ before) after (hd ▸ delivered) internal

/-! ### What the methods do on the receive side -/

/-- Nothing, once closing has started. -/
theorem closeNow_effect (hr : s.receiveCallback_ = false) : Effect s s.closeNow.1 s.closeNow.2 := by
  cases ho : s.socket_ with
  | true =>
    rw [closeNow_open ho, notice, if_neg (by simp [hr])]
    exact .quiet hr.symm rfl (internal_singleton rfl)
  | false =>
    rw [closeNow_closed ho]
    exact .quiet rfl rfl internal_nil

/-- An error ends the receive callback and fails the sends, and brings no data. -/
theorem socketError_effect (e : SocketError) : Effect s (s.socketError e).1 (s.socketError e).2 := by
  cases ho : s.socket_ with
  | true =>
    rw [socketError_open e ho, notice]
    split
    · rename_i hr
      exact .failed hr rfl rfl rfl (internal_singleton rfl)
    · rename_i hr
      exact .quiet (by simpa [shut] using hr) rfl (internal_singleton rfl)
  | false =>
    rw [socketError_closed e ho]
    exact .quiet rfl rfl internal_nil

theorem timeoutExpired_effect (s : UnixSocket κ F) : Effect s s.timeoutExpired.1 s.timeoutExpired.2 :=
  (socketError_effect (s := { s with isScheduled := false }) .sendTimeout).congr rfl rfl

/-- A send that was written leaves the receiving side alone. -/
theorem finishTrySend_effect (h : Inv s st) : Effect s s.finishTrySend.1 s.finishTrySend.2 := by
  by_cases hq : s.sendQueue_ = []
  · rw [finishTrySend_nil h.handler hq]
    split
    · rename_i hc
      exact (closeNow_effect (s := s.setWrite false) (h.installed hc)).congr rfl rfl
    · exact .quiet rfl rfl internal_nil
  · rw [finishTrySend_cons h.handler hq]
    exact .quiet rfl rfl internal_nil

/-- So does a send that is taken from the queue, with or without an error. -/
theorem takeSend_effect {p : QueuedSend F} {rest : List (QueuedSend F)} {result : Option SocketError}
    (hf : Internal fs) :
    Effect s (s.takeSend p rest result).1 ((s.takeSend p rest result).2 ++ fs) := by
  have hsend : (Callback.ofSend p.id result : Callback F).isSend = true := by cases result <;> rfl
  rw [takeSend_eq]
  cases hc : p.callback with
  | true =>
    simp only [sendNotice, hc]
    exact .sent rfl rfl hsend hf
  | false =>
    simp only [sendNotice, hc]
    exact .quiet rfl rfl hf

/-- `send` from user code adds to the queue or fails at once. -/
theorem send_effect {message : Message F} {allocated : Bool} (hi : Inv s st) (h : Ledger s) :
    Effect s (s.send message true allocated).1 (s.send message true allocated).2 := by
  by_cases hr : s.closeStarted_ = true ∨ allocated = false
  · rw [send_refused hr, refuse_eq]
    exact .sent rfl rfl rfl internal_nil
  · obtain ⟨hc, rfl⟩ : s.closeStarted_ = false ∧ allocated = true := by simpa using hr
    rw [send_queued hi h.nodup hc]
    refine .quiet rfl rfl ?_
    cases s.sendQueue_ with
    | nil => exact internal_singleton rfl
    | cons p rest => exact internal_nil

/-- **One frame** of the socket has one of the effects that are listed, whatever the kernel answers. -/
theorem exec_effect {K : Kernel F κ} (h : Inv s (f :: st)) : Effect s (s.exec K st f).1 (s.exec K st f).2 := by
  cases f with
  | callback c => exact .quiet rfl rfl internal_nil
  | trySend n =>
    refine trySend_cases (P := fun r => Effect s r.1 r.2) (finishTrySend_effect h) ?_ ?_ ?_ ?_
    · exact .quiet rfl rfl (internal_singleton rfl)
    · intro p rest _
      exact socketError_effect _
    · intro p rest entry kernel hq
      exact (finishTrySend_effect (h.replaceFront hq)).congr rfl rfl
    · intro p rest kernel _
      exact (takeSend_effect (internal_singleton rfl)).congr rfl rfl
  | tryReceive n write =>
    refine tryReceive_cases (P := fun r => Effect s r.1 r.2) ?_ ?_ ?_ ?_
    · exact .quiet rfl rfl (internal_singleton rfl)
    · intro _ e rx
      exact (socketError_effect _).congr rfl rfl
    · intro hr rx
      split
      · exact .eof hr hr rfl (internal_singleton rfl)
      · exact .quiet rfl rfl (internal_singleton rfl)
    · intro hr rx
      exact .received hr hr rfl (internal_singleton rfl)
  | handlerWrite write =>
    refine .quiet rfl rfl ?_
    cases write with
    | true => exact internal_singleton rfl
    | false => exact internal_nil
  | failAllSends e caller =>
    cases hq : s.sendQueue_ with
    | cons p rest =>
      rw [exec, failAllSends_cons e caller hq]
      exact takeSend_effect (internal_singleton rfl)
    | nil =>
      rw [exec, failAllSends_nil e caller hq]
      exact .quiet rfl rfl internal_nil
  | closeShutdown =>
    refine closeShutdown_cases (P := fun r => Effect s r.1 r.2) ?_ ?_
    · exact .quiet rfl rfl (internal_singleton rfl)
    · intro kernel thrown
      exact .quiet rfl rfl internal_nil
  | destroyEnd =>
    refine destroyEnd_cases (P := fun r => Effect s r.1 r.2) ?_ ?_
    · exact .quiet rfl rfl (internal_singleton rfl)
    · exact .quiet rfl rfl internal_nil

end UnixSocket

end EdenCommon
