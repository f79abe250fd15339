import EdenCommon.Proof.SocketReceive
import EdenCommon.Spec.FutureUnixSocket

/-!
# The receives of a `FutureUnixSocket`

The futures completed, those a call is about to fail and those in the queue are the calls
of `receive`, in order (`Core.ids`). Only one of the last two is not empty, and the queue is
not empty only while the receive callback is installed or a call that empties it is next
(`Doomed`). The messages delivered are the results of the futures, and the one in hand.

With `eofReceived` left out, the call that empties the queue fails it with the event that
ended the socket.
-/

namespace EdenCommon

open Lib

variable {F κ : Type}

/-! ### Frames -/

namespace FutureFrame

def isHandler : FutureFrame F → Bool
  | .handler _ => true
  | _ => false

/-- The frames behind a `reset`. -/
def isFailing : FutureFrame F → Bool
  | .failAllPromises _ => true
  | .failReceiveQueue _ _ => true
  | _ => false

/-- The futures that the frame is about to fail. -/
def queue : FutureFrame F → List ℕ
  | .failReceiveQueue callback _ => callback
  | _ => []

theorem queue_eq_nil {g : FutureFrame F} (h : g.isFailing = false) : g.queue = [] := by
  cases g with
  | failReceiveQueue callback ew => simp [isFailing] at h
  | _ => rfl

/-- A frame without callback is the socket's own. -/
theorem ofFrame_of_internal {f : Frame F} (h : f.isCallback = false) : ofFrame f = .socket f := by
  cases f with
  | callback c => simp [Frame.isCallback] at h
  | _ => rfl

@[simp] theorem ofFrame_isFailing (f : Frame F) : (ofFrame f).isFailing = false := by cases f <;> rfl

@[simp] theorem ofFrame_inner (f : Frame F) : (ofFrame f).inner = [f] := by cases f <;> rfl

end FutureFrame

/-- The futures that the calls under way are about to fail. -/
def draining (st : List (FutureFrame F)) : List ℕ := st.flatMap FutureFrame.queue

/-- The message of which the `FutureUnixSocket` is about to be told. -/
def inHand : List (FutureFrame F) → List (Bytes × List F)
  | .handler (.messageReceived data files) :: _ => [(data, files)]
  | _ => []

/-- The messages among the results. -/
def messages (completed : List (ℕ × Except FutureError (Bytes × List F))) : List (Bytes × List F) :=
  completed.filterMap fun c => c.2.toOption

section Frames

variable {g : FutureFrame F} {st st' : List (FutureFrame F)} {fs : List (Frame F)}

/-- No callback of the `UnixSocket` has just been called. -/
def Plain (st : List (FutureFrame F)) : Prop := ∀ g ∈ st, g.isHandler = false

@[simp] theorem draining_nil : draining ([] : List (FutureFrame F)) = [] := List.flatMap_nil

@[simp] theorem draining_cons (g : FutureFrame F) (st : List (FutureFrame F)) :
    draining (g :: st) = g.queue ++ draining st := List.flatMap_cons

@[simp] theorem draining_append (st st' : List (FutureFrame F)) :
    draining (st ++ st') = draining st ++ draining st' := List.flatMap_append

/-- Only the loop that fails receives has any of them. -/
theorem draining_eq_nil (h : ∀ g ∈ st, g.isFailing = false) : draining st = [] :=
  List.flatMap_eq_nil_iff.2 fun g hg => FutureFrame.queue_eq_nil (h g hg)

@[simp] theorem draining_ofFrame (fs : List (Frame F)) : draining (fs.map FutureFrame.ofFrame) = [] := by
  apply draining_eq_nil
  simp

@[simp] theorem innerStack_cons (g : FutureFrame F) (st : List (FutureFrame F)) :
    innerStack (g :: st) = g.inner ++ innerStack st := List.flatMap_cons

@[simp] theorem innerStack_ofFrame (fs : List (Frame F)) (st : List (FutureFrame F)) :
    innerStack (fs.map FutureFrame.ofFrame ++ st) = fs ++ innerStack st := by
  induction fs with
  | nil => rfl
  | cons f fs ih => simp [ih]

/-- Frames are plain if none of them handles a callback. -/
theorem plain_cons : Plain (g :: st) ↔ g.isHandler = false ∧ Plain st := List.forall_mem_cons

theorem plain_append : Plain (st ++ st') ↔ Plain st ∧ Plain st' := List.forall_mem_append

/-- The internal frames of a socket are plain. -/
theorem Internal.plain (h : Internal fs) : Plain (fs.map FutureFrame.ofFrame) := by
  intro g hg
  obtain ⟨f, hf, rfl⟩ := List.mem_map.1 hg
  rw [FutureFrame.ofFrame_of_internal (h f hf)]
  rfl

theorem Plain.inHand (h : Plain st) : inHand st = [] := by
  cases st with
  | nil => rfl
  | cons g st =>
    cases g with
    | handler c => simp [Plain, FutureFrame.isHandler] at h
    | _ => rfl

end Frames

/-! ### The invariant -/

namespace FutureUnixSocket

variable {s : FutureUnixSocket κ F} {st st' : List (FutureFrame F)} {t : UnixSocket κ F}

/-- The queues and the results. -/
structure Core (s : FutureUnixSocket κ F) (st : List (FutureFrame F)) : Prop where
  tail : s.recvQueueTail_ = s.recvQueue_.getLast?
  ids : s.completed.map Prod.fst ++ (draining st ++ s.recvQueue_) = List.range s.receives
  exclusive : s.recvQueue_ ≠ [] → draining st = []
  installed : s.socket.receiveCallback_ = true → s.socket_ = true ∧ s.recvQueue_ ≠ []
  alive : s.socket_ = true → s.endedBy = none
  failing : ∀ g ∈ st, g.isFailing = true → s.socket_ = false
  draining : ∀ callback ew, .failReceiveQueue callback ew ∈ st → callback ≠ [] → s.endedBy = some ew
  failed : ∀ i e, (i, .error e) ∈ s.completed →
    (i < s.endedAt ∧ s.endedBy = some e) ∨ (e = .cannotReceive ∧ s.endedAt ≤ i ∧ s.socket_ = false)
  ended : s.socket_ = false → s.endedAt ≤ s.receives ∧ ∀ i ∈ EdenCommon.draining st ++ s.recvQueue_, i < s.endedAt

/-- What is next empties the queue, with the event that ended the socket. -/
def Doomed (endedBy : Option FutureError) : List (FutureFrame F) → Prop
  | .handler (.receiveError _) :: _ => True
  | .handler .socketClosed :: _ => endedBy = some .closedLocally
  | .failAllPromises error :: _ => endedBy = some error
  | .socket .destroyEnd :: st => Doomed endedBy st
  | _ => False

/-- The state in which a callback of the `UnixSocket` is called. -/
def Called (s : FutureUnixSocket κ F) : List (FutureFrame F) → Prop
  | .handler (.messageReceived _ _) :: _ => s.socket.receiveCallback_ = true
  | .handler (.receiveError _) :: _ => s.socket_ = true ∧ s.socket.socket_ = false
  | .handler .socketClosed :: _ => s.socket_ = false
  | _ => True

structure Inv (s : FutureUnixSocket κ F) (st : List (FutureFrame F)) : Prop where
  good : Running.Good ⟨s.socket, innerStack st⟩
  core : Core s st
  plain : Plain st.tail
  called : s.Called st
  waiting : s.recvQueue_ ≠ [] → s.socket.receiveCallback_ = true ∨ Doomed s.endedBy st
  received : s.socket.delivered = messages s.completed ++ inHand st

/-- The invariant of a new socket. -/
theorem Inv.new (kernel : κ) : Inv (FutureUnixSocket.new kernel : FutureUnixSocket κ F) [] where
  good := .new kernel
  core := by constructor <;> simp [FutureUnixSocket.new, UnixSocket.new]
  plain := by simp [Plain]
  called := trivial
  waiting := by simp [FutureUnixSocket.new]
  received := rfl

/-! ### What keeps the queues and the results -/

theorem Core.congr (h : Core s st) (hq : EdenCommon.draining st' = EdenCommon.draining st)
    (hst : ∀ g ∈ st', g.isFailing = true → g ∈ st) : Core s st' := by
  refine { h with ids := ?_, exclusive := ?_, failing := ?_, draining := ?_, ended := ?_ }
  · rw [hq]; exact h.ids
  · rw [hq]; exact h.exclusive
  · intro g hg hf
    exact h.failing g (hst g hg hf) hf
  · intro callback ew hm hne
    exact h.draining callback ew (hst _ hm rfl) hne
  · rw [hq]; exact h.ended

/-- A frame that fails no future. -/
theorem core_cons {g : FutureFrame F} (hg : g.isFailing = false) : Core s (g :: st) ↔ Core s st := by
  have hq : EdenCommon.draining (g :: st) = EdenCommon.draining st := by simp [FutureFrame.queue_eq_nil hg]
  constructor
  · intro h
    exact h.congr hq.symm fun x hx _ => List.mem_cons_of_mem _ hx
  · intro h
    refine h.congr hq fun x hx hf => ?_
    obtain rfl | hx := List.mem_cons.1 hx
    · simp [hg] at hf
    · exact hx

/-- Frames that fail nothing change nothing for the queues. -/
theorem core_append {fs : List (FutureFrame F)} (hfs : ∀ g ∈ fs, g.isFailing = false) :
    Core s (fs ++ st) ↔ Core s st := by
  induction fs with
  | nil => exact Iff.rfl
  | cons g fs ih =>
    obtain ⟨hg, hfs⟩ := List.forall_mem_cons.1 hfs
    exact (core_cons hg).trans (ih hfs)

theorem core_ofFrame (fs : List (Frame F)) : Core s (fs.map FutureFrame.ofFrame ++ st) ↔ Core s st :=
  core_append (by simp)

/-- The socket may change in everything but a receive callback that it gets. -/
theorem Core.socket (h : Core s st) (hr : t.receiveCallback_ = true → s.socket.receiveCallback_ = true) :
    Core { s with socket := t } st := by
  exact { h with installed := fun ht => h.installed (hr ht) }

/-- While the socket is open no receives are being failed. -/
theorem Core.draining_of_open (h : Core s st) (ho : s.socket_ = true) : EdenCommon.draining st = [] := by
  apply draining_eq_nil
  intro g hg
  by_contra hf
  have := h.failing g hg (by simpa using hf)
  simp [ho] at this

/-- The pending receives have been made. -/
theorem Core.lt_receives (h : Core s st) : ∀ i ∈ EdenCommon.draining st ++ s.recvQueue_, i < s.receives := by
  intro i hi
  have hm : i ∈ List.range s.receives := h.ids ▸ List.mem_append_right _ hi
  exact List.mem_range.1 hm

/-- The state behind `reset`, apart from the queue. -/
def endSocket (s : FutureUnixSocket κ F) (t : UnixSocket κ F) (event : FutureError) : FutureUnixSocket κ F :=
  { s with socket_ := false, socket := t, endedBy := some event, endedAt := s.receives }

/-- **The socket ends**, and its queue is still to be failed. -/
theorem Core.endSocket {event : FutureError} (h : Core s st) (ho : s.socket_ = true)
    (hr : t.receiveCallback_ = false) : Core (s.endSocket t event) st := by
  have hn := h.alive ho
  refine { h with installed := ?_, alive := ?_, failing := ?_, draining := ?_, failed := ?_, ended := ?_ }
  · intro ht
    simp [FutureUnixSocket.endSocket, hr] at ht
  · intro ht
    simp [FutureUnixSocket.endSocket] at ht
  · intro _ _ _
    rfl
  · intro callback ew hm _
    have := h.failing _ hm rfl
    simp [ho] at this
  · intro i e hm
    -- no future has failed while the socket was open
    obtain ⟨-, he⟩ | ⟨-, -, hc⟩ := h.failed i e hm
    · simp [hn] at he
    · simp [ho] at hc
  · intro _
    exact ⟨Nat.le_refl _, h.lt_receives⟩

/-- The queue is handed to `failReceiveQueue`. -/
theorem Core.takeQueue {ew : FutureError} (h : Core s st) (hc : s.socket_ = false)
    (he : s.recvQueue_ ≠ [] → s.endedBy = some ew) :
    Core { s with recvQueue_ := [], recvQueueTail_ := none } (.failReceiveQueue s.recvQueue_ ew :: st) := by
  -- the futures pass from the queue to the frame, in the same order
  have hq : EdenCommon.draining (.failReceiveQueue s.recvQueue_ ew :: st) ++ [] =
      EdenCommon.draining st ++ s.recvQueue_ := by
    by_cases hn : s.recvQueue_ = []
    · simp [hn, FutureFrame.queue]
    · simp [h.exclusive hn, FutureFrame.queue]
  refine { h with
    tail := rfl
    ids := ?_
    exclusive := ?_
    installed := ?_
    failing := ?_
    draining := ?_
    ended := ?_ }
  · rw [hq]; exact h.ids
  · intro hn
    exact absurd rfl hn
  · intro hr
    have := (h.installed hr).1
    simp [hc] at this
  · intro _ _ _
    exact hc
  · intro callback ew' hm hne
    obtain hm | hm := List.mem_cons.1 hm
    · obtain ⟨rfl, rfl⟩ := FutureFrame.failReceiveQueue.inj hm
      exact he hne
    · exact h.draining callback ew' hm hne
  · rw [hq]; exact h.ended

/-! ### Steps of the `UnixSocket` -/

theorem called_of_plain (h : Plain st) : s.Called st := by
  cases st with
  | nil => trivial
  | cons g st =>
    cases g with
    | handler c => simp [Plain, FutureFrame.isHandler] at h
    | _ => trivial

/-- Nothing is in hand, and nothing that empties the queue is next. -/
structure Calm (s : FutureUnixSocket κ F) (st : List (FutureFrame F)) : Prop where
  core : Core s st
  plain : Plain st
  waiting : s.recvQueue_ ≠ [] → s.socket.receiveCallback_ = true
  received : s.socket.delivered = messages s.completed

theorem Calm.inv (h : Calm s st) (hg : Running.Good ⟨s.socket, innerStack st⟩) : Inv s st where
  good := hg
  core := h.core
  plain := fun g hm => h.plain g (List.mem_of_mem_tail hm)
  called := called_of_plain h.plain
  waiting := fun hq => Or.inl (h.waiting hq)
  received := by rw [h.received, h.plain.inHand, List.append_nil]

/-- Between the calls of a socket that has not ended the state is calm. -/
theorem Inv.calm (h : Inv s st) (hp : Plain st) (hd : ¬ Doomed s.endedBy st) : Calm s st where
  core := h.core
  plain := hp
  waiting := fun hq => (h.waiting hq).resolve_right hd
  received := by simpa [hp.inHand] using h.received

/-- A frame goes that fails no future. -/
theorem Calm.drop {g : FutureFrame F} (h : Calm s (g :: st)) (hf : g.isFailing = false) : Calm s st :=
  { h with core := (core_cons hf).1 h.core, plain := (plain_cons.1 h.plain).2 }

/-- A frame that neither handles nor fails keeps it calm. -/
theorem Calm.cons {g : FutureFrame F} (h : Calm s st) (hh : g.isHandler = false) (hf : g.isFailing = false) :
    Calm s (g :: st) :=
  { h with core := (core_cons hf).2 h.core, plain := plain_cons.2 ⟨hh, h.plain⟩ }

/-- The socket may change as long as its callback and what it has delivered stay. -/
theorem Calm.socket (h : Calm s st) (hr : t.receiveCallback_ = s.socket.receiveCallback_)
    (hd : t.delivered = s.socket.delivered) : Calm { s with socket := t } st where
  core := h.core.socket fun ht => hr ▸ ht
  plain := h.plain
  waiting := fun hq => hr ▸ h.waiting hq
  received := hd ▸ h.received

theorem Calm.ofFrame {fs : List (Frame F)} (h : Calm s st) (hfs : Internal fs) :
    Calm s (fs.map FutureFrame.ofFrame ++ st) where
  core := (core_ofFrame fs).2 h.core
  plain := plain_append.2 ⟨hfs.plain, h.plain⟩
  waiting := h.waiting
  received := h.received

/-- **A step of the `UnixSocket`** with an effect on its receive side. -/
theorem Calm.effect {fs : List (Frame F)} (h : Calm s st) (he : UnixSocket.Effect s.socket t fs)
    (hg : Running.Good ⟨t, fs ++ innerStack st⟩) :
    Inv { s with socket := t } (fs.map FutureFrame.ofFrame ++ st) := by
  have hg' : Running.Good ⟨t, innerStack (fs.map FutureFrame.ofFrame ++ st)⟩ := by rwa [innerStack_ofFrame]
  cases he with
  | quiet installed delivered internal => exact ((h.socket installed delivered).ofFrame internal).inv hg'
  | @sent c fs installed delivered send internal =>
    have h' := (h.socket installed delivered).ofFrame internal
    refine {
      good := hg'
      core := (core_cons rfl).2 h'.core
      plain := h'.plain
      called := ?_
      waiting := fun hq => Or.inl (h'.waiting hq)
      received := ?_ }
    · cases c <;> trivial
    · have hnone : inHand (.handler c :: (fs.map FutureFrame.ofFrame ++ st)) = [] := by
        cases c <;> first | rfl | cases send
      have hstack : (Frame.callback c :: fs).map FutureFrame.ofFrame ++ st =
          .handler c :: (fs.map FutureFrame.ofFrame ++ st) := rfl
      rw [hstack, hnone, List.append_nil]
      exact h'.received
  | failed before after delivered closed internal =>
    obtain ⟨ho, -⟩ := h.core.installed before
    have hcore : Core { s with socket := t } st := h.core.socket fun ht => by simp [after] at ht
    exact {
      good := hg'
      core := (core_ofFrame _).2 hcore
      plain := plain_append.2 ⟨internal.plain, h.plain⟩
      called := ⟨ho, closed⟩
      waiting := fun _ => Or.inr trivial
      received := by simpa [inHand, FutureFrame.ofFrame, delivered] using h.received }
  | eof before after delivered internal =>
    have h' := (h.socket (after.trans before.symm) delivered).ofFrame internal
    exact {
      good := hg'
      core := (core_cons rfl).2 h'.core
      plain := h'.plain
      called := trivial
      waiting := fun hq => Or.inl (h'.waiting hq)
      received := by simpa [inHand, FutureFrame.ofFrame] using h'.received }
  | received before after delivered internal =>
    have hcore : Core { s with socket := t } st := h.core.socket fun _ => before
    exact {
      good := hg'
      core := (core_ofFrame _).2 hcore
      plain := plain_append.2 ⟨internal.plain, h.plain⟩
      called := after
      waiting := fun _ => Or.inl after
      received := by simp [inHand, FutureFrame.ofFrame, delivered, h.received] }

/-- **A frame of the socket**: what it delivers is in the hands of its callback. -/
theorem Inv.exec_socket {K : Kernel F κ} {f : Frame F} (h : Inv s (.socket f :: st)) :
    Inv (s.exec K st (.socket f)).1 ((s.exec K st (.socket f)).2 ++ st) := by
  have hg : Running.Good ⟨s.socket, f :: innerStack st⟩ := h.good
  have hp : Plain (.socket f :: st) := plain_cons.2 ⟨rfl, h.plain⟩
  by_cases hf : f = .destroyEnd
  · -- what is doomed below `destroyEnd` stays so
    subst hf
    have hg' := hg.exec (K := K)
    rw [FutureUnixSocket.exec]
    revert hg'
    refine UnixSocket.destroyEnd_cases (P := fun r => Running.Good ⟨r.1, r.2 ++ innerStack st⟩ →
      Inv { s with socket := r.1 } (r.2.map FutureFrame.ofFrame ++ st)) ?_ ?_
    · intro hg'
      exact { h with
        good := hg'
        core := h.core.socket fun ht => ht
        waiting := h.waiting }
    · intro hg'
      have hcore := (core_cons rfl).1 h.core
      exact {
        good := hg'
        core := hcore.socket fun ht => ht
        plain := fun g hm => h.plain g (List.mem_of_mem_tail hm)
        called := called_of_plain h.plain
        waiting := h.waiting
        received := by simpa [hp.inHand, (show Plain st from h.plain).inHand] using h.received }
  · have hd : ¬ Doomed s.endedBy (.socket f :: st) := by
      cases f with
      | destroyEnd => exact absurd rfl hf
      | _ => exact id
    exact ((h.calm hp hd).drop rfl).effect (UnixSocket.exec_effect hg.inv) hg.exec

/-! ### The end of the socket -/

/-- `destroy` uninstalls the receive callback, and calls its `socketClosed`. -/
theorem destroy_eq {u : UnixSocket κ F} {fr : List (Frame F)} (h : UnixSocket.Inv u fr) :
    u.destroy.1.receiveCallback_ = false ∧ u.destroy.1.delivered = u.delivered ∧
      ∃ fs, Internal fs ∧ u.destroy.2 = u.notice .socketClosed ++ fs ∧
        (u.socket_ = false → fs = [.destroyEnd]) := by
  cases ho : u.socket_ with
  | true =>
    rw [UnixSocket.destroy, UnixSocket.closeNow_open ho]
    refine ⟨rfl, rfl, [.failAllSends .notConnected .closeNow, .destroyEnd], ?_, by simp, fun h => by cases h⟩
    simp [Internal, Frame.isCallback]
  | false =>
    -- a closed socket has uninstalled its callback, so there is nobody to tell
    have hr : u.receiveCallback_ = false := h.installed (h.closed ho).1
    rw [UnixSocket.destroy, UnixSocket.closeNow_closed ho]
    refine ⟨hr, rfl, [.destroyEnd], UnixSocket.internal_singleton rfl, ?_, fun _ => rfl⟩
    simp [UnixSocket.notice, hr]

/-- **`reset`** destroys an open socket, and its frames are executed next. -/
theorem reset_open {event : FutureError} (ho : s.socket_ = true) :
    s.reset event = (s.endSocket s.socket.destroy.1 event, s.socket.destroy.2.map .ofFrame) := by
  rw [reset, if_pos ho]; rfl

theorem reset_closed {event : FutureError} (hc : s.socket_ = false) : s.reset event = (s, []) := by
  rw [reset, if_neg (by simp [hc])]

/-- An ended socket whose queue is empty, or fails as `closedLocally` next. -/
theorem inv_notice {u : UnixSocket κ F} {fs : List (Frame F)} (hcore : Core s st) (hp : Plain st)
    (hfs : Internal fs) (hg : Running.Good ⟨s.socket, u.notice .socketClosed ++ fs ++ innerStack st⟩)
    (hc : s.socket_ = false)
    (hq : s.recvQueue_ ≠ [] → u.receiveCallback_ = true ∧ s.endedBy = some .closedLocally)
    (hd : s.socket.delivered = messages s.completed) :
    Inv s ((u.notice .socketClosed ++ fs).map FutureFrame.ofFrame ++ st) := by
  have hplain : Plain (fs.map FutureFrame.ofFrame ++ st) := plain_append.2 ⟨hfs.plain, hp⟩
  have hg' := hg
  rw [← innerStack_ofFrame] at hg'
  have hcore' := (core_ofFrame (u.notice .socketClosed ++ fs)).2 hcore
  unfold UnixSocket.notice at hg' hcore' ⊢
  split
  · rename_i hu
    rw [if_pos hu] at hg' hcore'
    exact {
      good := hg'
      core := hcore'
      plain := hplain
      called := hc
      waiting := fun hne => Or.inr (hq hne).2
      received := by simpa [inHand, FutureFrame.ofFrame] using hd }
  · rename_i hu
    rw [if_neg hu] at hg' hcore'
    have hcalm : Calm s (fs.map FutureFrame.ofFrame ++ st) := {
      core := hcore'
      plain := hplain
      waiting := fun hne => absurd (hq hne).1 hu
      received := hd }
    exact hcalm.inv hg'

/-- `closeNow` from user code fails the receives with the socket's end. -/
theorem Calm.closeNow (h : Calm s st) (hg : Running.Good ⟨s.socket, innerStack st⟩) :
    Inv s.closeNow.1 (s.closeNow.2 ++ st) := by
  cases ho : s.socket_ with
  | false =>
    rw [FutureUnixSocket.closeNow, reset_closed ho]
    exact h.inv hg
  | true =>
    obtain ⟨hr, hd, fs, hfs, heq, -⟩ := destroy_eq hg.inv
    have hg' := hg.call .destroy
    rw [UnixSocket.call, heq] at hg'
    rw [FutureUnixSocket.closeNow, reset_open ho, heq]
    refine inv_notice (h.core.endSocket ho hr) h.plain hfs hg' rfl ?_ (hd.trans h.received)
    intro hq
    exact ⟨h.waiting hq, rfl⟩

/-- A timeout does so too. -/
theorem Calm.receiveTimeout (h : Calm s []) (hg : Running.Good ⟨s.socket, []⟩) (hq : s.recvQueue_ ≠ []) :
    Inv s.receiveTimeout.1 (s.receiveTimeout.2 ++ []) := by
  obtain ⟨ho, -⟩ := h.core.installed (h.waiting hq)
  obtain ⟨hr, hd, fs, hfs, heq, -⟩ := destroy_eq hg.inv
  have hg' := hg.call .destroy
  rw [UnixSocket.call, heq] at hg'
  have hended : Core (s.endSocket s.socket.destroy.1 .timeout) [] := h.core.endSocket ho hr
  have hcore := hended.takeQueue rfl fun _ => rfl
  rw [FutureUnixSocket.receiveTimeout, reset_open (s := { s with recvQueue_ := [], recvQueueTail_ := none }) ho,
    heq, List.append_assoc]
  refine inv_notice hcore (by simp [Plain, FutureFrame.isHandler]) hfs hg' rfl ?_ (hd.trans h.received)
  intro hn
  exact absurd rfl hn

/-! ### The callbacks -/

theorem Inv.calm_handler {c : Callback F} (h : Inv s (.handler c :: st)) (hin : inHand (.handler c :: st) = [])
    (hd : ¬ Doomed s.endedBy (.handler c :: st)) : Calm s st where
  core := (core_cons rfl).1 h.core
  plain := h.plain
  waiting := fun hq => (h.waiting hq).resolve_right hd
  received := by simpa [hin] using h.received

/-- A frame on the stack that is about to fail the queue. -/
theorem Core.failAllPromises (h : Core s st) (error : FutureError) (hc : s.socket_ = false) :
    Core s (.failAllPromises error :: st) := by
  refine { h with failing := ?_, draining := ?_ }
  · intro _ _ _
    exact hc
  · intro callback ew hm
    refine h.draining callback ew ?_
    simpa using hm

/-- `failAllPromises` is about to take the whole queue. -/
theorem Core.of_failAllPromises {error : FutureError} (h : Core s (.failAllPromises error :: st)) : Core s st :=
  h.congr rfl fun _ hg _ => List.mem_cons_of_mem _ hg

/-- `socketClosed` is called by `reset` only. -/
theorem Inv.socketClosed (h : Inv s (.handler .socketClosed :: st)) :
    Inv (s.terminate .socketClosed .closedLocally).1 ((s.terminate .socketClosed .closedLocally).2 ++ st) := by
  have hc : s.socket_ = false := h.called
  have hcore := (core_cons (g := .running .socketClosed) rfl).2 ((core_cons rfl).1 h.core)
  have hplain : Plain (.running .socketClosed :: st) := plain_cons.2 ⟨rfl, h.plain⟩
  rw [terminate, reset_closed hc]
  exact {
    good := h.good
    core := hcore.failAllPromises _ hc
    plain := hplain
    called := trivial
    waiting := h.waiting
    received := by simpa [inHand] using h.received }

/-- **An error** ends the socket and fails the receives. -/
theorem Inv.receiveError {e : SocketError} (h : Inv s (.handler (.receiveError e) :: st)) :
    Inv (s.terminate (.receiveError e) (.socket e)).1 ((s.terminate (.receiveError e) (.socket e)).2 ++ st) := by
  obtain ⟨ho, hclosed⟩ : s.socket_ = true ∧ s.socket.socket_ = false := h.called
  obtain ⟨hr, hd, fs, -, heq, hfs⟩ := destroy_eq h.good.inv
  -- the `UnixSocket` has closed itself, so its `destroy` calls nobody
  have hr' : s.socket.receiveCallback_ = false := h.good.inv.installed (h.good.inv.closed hclosed).1
  obtain rfl := hfs hclosed
  have hg := h.good.call .destroy
  rw [UnixSocket.call, heq, UnixSocket.notice, if_neg (by simp [hr'])] at hg
  have hcore : Core (s.endSocket s.socket.destroy.1 (.socket e)) st := ((core_cons rfl).1 h.core).endSocket ho hr
  have hcore' := ((core_cons (g := .running (.receiveError e)) rfl).2 hcore).failAllPromises (.socket e) rfl
  rw [terminate, reset_open ho, heq, UnixSocket.notice, if_neg (by simp [hr'])]
  exact {
    good := hg
    core := (core_cons rfl).2 hcore'
    plain := plain_cons.2 ⟨rfl, plain_cons.2 ⟨rfl, h.plain⟩⟩
    called := trivial
    waiting := fun _ => Or.inr rfl
    received := hd.trans h.received }

/-- The first future of the queue is completed with a message. -/
theorem Core.deliver {id : ℕ} {rest : List ℕ} {tail : Option ℕ} {m : Bytes × List F} (h : Core s st)
    (ho : s.socket_ = true) (hq : s.recvQueue_ = id :: rest) (ht : tail = rest.getLast?)
    (hr : t.receiveCallback_ = true → rest ≠ []) :
    Core ({ s with recvQueue_ := rest, recvQueueTail_ := tail, socket := t }.complete id (.ok m)) st := by
  have hdrain := h.draining_of_open ho
  have hids := h.ids
  rw [hq, hdrain] at hids
  refine { h with tail := ht, ids := ?_, exclusive := ?_, installed := ?_, failed := ?_, ended := ?_ }
  · simpa [complete, hdrain] using hids
  · intro _
    exact hdrain
  · intro hrt
    exact ⟨ho, hr hrt⟩
  · intro i e hm
    refine h.failed i e ?_
    -- the new result is no error
    simpa [complete] using hm
  · intro hc
    simp [complete, ho] at hc

/-- **A message** goes to the first pending receive, or waits for the next one. -/
theorem Inv.messageReceived {data : Bytes} {files : List F}
    (h : Inv s (.handler (.messageReceived data files) :: st)) :
    Inv (s.messageReceived data files).1 ((s.messageReceived data files).2 ++ st) := by
  have hr : s.socket.receiveCallback_ = true := h.called
  have hcore := (core_cons rfl).1 h.core
  obtain ⟨ho, hne⟩ := hcore.installed hr
  have hdel : s.socket.delivered = messages s.completed ++ [(data, files)] := h.received
  have hmsg : ∀ id,
      messages (s.completed ++ [(id, .ok (data, files))]) = messages s.completed ++ [(data, files)] := by
    intro id
    simp [messages, Except.toOption]
  unfold FutureUnixSocket.messageReceived
  split
  · rename_i hq
    exact absurd hq hne
  · rename_i id next rest hq
    have htail : s.recvQueueTail_ = (next :: rest).getLast? := by simpa [hq] using hcore.tail
    have hcalm : Calm ({ s with recvQueue_ := next :: rest }.complete id (.ok (data, files))) st := {
      core := hcore.deliver (t := s.socket) ho hq htail fun _ => List.cons_ne_nil _ _
      plain := h.plain
      waiting := fun _ => hr
      received := hdel.trans (hmsg id).symm }
    exact ((hcalm.cons (g := .running _) rfl rfl).cons (g := .user) rfl rfl).inv h.good
  · rename_i id hq
    have hg := h.good.call .clearReceiveCallback
    have hclear := UnixSocket.clearReceiveCallback_ok h.good.inv.handler hr
    rw [UnixSocket.call, hclear] at hg
    rw [if_pos (by simp [ho, hr]), hclear]
    have hcalm : Calm ({ s with
        recvQueue_ := []
        recvQueueTail_ := none
        socket := s.socket.setRead false }.complete id (.ok (data, files))) st := {
      core := hcore.deliver ho hq rfl fun hrt => by simp [UnixSocket.setRead] at hrt
      plain := h.plain
      waiting := fun hn => absurd rfl hn
      received := hdel.trans (hmsg id).symm }
    exact ((hcalm.cons (g := .running _) rfl rfl).cons (g := .user) rfl rfl).inv hg

/-- Every callback but the end of file keeps the invariant. -/
theorem Inv.handle {c : Callback F} (h : Inv s (.handler c :: st)) (hc : c ≠ .eofReceived) :
    Inv (s.handle c).1 ((s.handle c).2 ++ st) := by
  cases c with
  | sendSuccess id =>
    exact (((h.calm_handler rfl fun hd => hd).cons (g := .running _) rfl rfl).cons (g := .user) rfl rfl).inv h.good
  | sendError id e =>
    exact (((h.calm_handler rfl fun hd => hd).cons (g := .running _) rfl rfl).cons (g := .user) rfl rfl).inv h.good
  | messageReceived data files => exact h.messageReceived
  | eofReceived => exact absurd rfl hc
  | socketClosed => exact h.socketClosed
  | receiveError e => exact h.receiveError

/-! ### Failing the queue -/

/-- The queue is taken over before the first future fails. -/
theorem Inv.failAllPromises {error : FutureError} (h : Inv s (.failAllPromises error :: st)) :
    Inv { s with recvQueue_ := [], recvQueueTail_ := none } (.failReceiveQueue s.recvQueue_ error :: st) := by
  have hc : s.socket_ = false := h.core.failing _ List.mem_cons_self rfl
  have hended : s.recvQueue_ ≠ [] → s.endedBy = some error := by
    intro hq
    obtain hr | hd := h.waiting hq
    · have := (h.core.installed hr).1
      simp [hc] at this
    · exact hd
  have hcalm : Calm { s with recvQueue_ := [], recvQueueTail_ := none }
      (.failReceiveQueue s.recvQueue_ error :: st) := {
    core := h.core.of_failAllPromises.takeQueue hc hended
    plain := plain_cons.2 ⟨rfl, h.plain⟩
    waiting := fun hq => absurd rfl hq
    received := h.received.trans (List.append_nil _) }
  exact hcalm.inv h.good

/-- A turn of `failReceiveQueue`. -/
theorem Core.fail {id : ℕ} {next : List ℕ} {ew : FutureError}
    (h : Core s (.failReceiveQueue (id :: next) ew :: st)) :
    Core (s.complete id (.error ew)) (.failReceiveQueue next ew :: st) := by
  have hc : s.socket_ = false := h.failing _ List.mem_cons_self rfl
  have hended : s.endedBy = some ew := h.draining _ ew List.mem_cons_self (List.cons_ne_nil _ _)
  refine { h with ids := ?_, exclusive := ?_, failing := ?_, draining := ?_, failed := ?_, ended := ?_ }
  · simpa [complete, FutureFrame.queue] using h.ids
  · intro hq
    have := h.exclusive hq
    simp [FutureFrame.queue] at this
  · intro _ _ _
    exact hc
  · intro callback ew' hm hne
    obtain hm | hm := List.mem_cons.1 hm
    · obtain ⟨-, rfl⟩ := FutureFrame.failReceiveQueue.inj hm
      exact hended
    · exact h.draining callback ew' (List.mem_cons_of_mem _ hm) hne
  · intro i e hm
    obtain hm | hm := List.mem_append.1 hm
    · exact h.failed i e hm
    · obtain ⟨rfl, he⟩ := Prod.mk.inj (List.mem_singleton.1 hm)
      obtain rfl := Except.error.inj he
      -- the future was asked for before the socket ended
      refine Or.inl ⟨(h.ended hc).2 _ ?_, hended⟩
      simp [FutureFrame.queue]
  · intro _
    obtain ⟨h1, h2⟩ := h.ended hc
    refine ⟨h1, fun i hi => h2 i ?_⟩
    simp only [draining_cons, FutureFrame.queue, List.cons_append]
    exact List.mem_cons_of_mem _ hi

/-- **One turn** of the loop fails the first receive. -/
theorem Inv.failReceiveQueue {K : Kernel F κ} {callback : List ℕ} {ew : FutureError}
    (h : Inv s (.failReceiveQueue callback ew :: st)) :
    Inv (s.exec K st (.failReceiveQueue callback ew)).1
      ((s.exec K st (.failReceiveQueue callback ew)).2 ++ st) := by
  have hcalm := h.calm (plain_cons.2 ⟨rfl, h.plain⟩) id
  cases callback with
  | nil =>
    have hcore : Core s st := hcalm.core.congr rfl fun _ hg _ => List.mem_cons_of_mem _ hg
    exact Calm.inv { hcalm with core := hcore, plain := h.plain } h.good
  | cons id next =>
    have hcalm' : Calm (s.complete id (.error ew)) (.failReceiveQueue next ew :: st) := {
      core := hcalm.core.fail
      plain := plain_cons.2 ⟨rfl, h.plain⟩
      waiting := hcalm.waiting
      received := by simpa [complete, messages, Except.toOption] using hcalm.received }
    exact (hcalm'.cons (g := .user) rfl rfl).inv h.good

/-! ### Calls and events -/

/-- **Every frame** but the handling of the end of file keeps the invariant. -/
theorem Inv.exec {K : Kernel F κ} {g : FutureFrame F} (h : Inv s (g :: st)) (hg : g ≠ .handler .eofReceived) :
    Inv (s.exec K st g).1 ((s.exec K st g).2 ++ st) := by
  cases g with
  | socket f => exact h.exec_socket
  | handler c => exact h.handle fun hc => hg (hc ▸ rfl)
  | running c => exact ((h.calm (plain_cons.2 ⟨rfl, h.plain⟩) id).drop rfl).inv h.good.ret
  | failAllPromises error => exact h.failAllPromises
  | failReceiveQueue callback ew => exact h.failReceiveQueue
  | user => exact ((h.calm (plain_cons.2 ⟨rfl, h.plain⟩) id).drop rfl).inv h.good

/-- `send` touches no receive. -/
theorem Calm.send {msg : Message F} {allocated : Bool} (h : Calm s st)
    (hg : Running.Good ⟨s.socket, innerStack st⟩) :
    Inv (s.send msg allocated).1 ((s.send msg allocated).2 ++ st) := by
  unfold FutureUnixSocket.send
  split
  · exact h.effect (UnixSocket.send_effect hg.inv hg.ledger) (hg.call (.send msg true allocated))
  · exact h.inv hg

/-- The next call of `receive` has its number. -/
theorem Core.receive (h : Core s st) (ho : s.socket_ = true) :
    Core { s with
      receives := s.receives + 1
      recvQueueTail_ := some s.receives
      recvQueue_ := s.recvQueue_ ++ [s.receives]
      socket := t } st := by
  have hdrain := h.draining_of_open ho
  refine { h with tail := ?_, ids := ?_, exclusive := ?_, installed := ?_, ended := ?_ }
  · simp
  · rw [List.range_succ, ← h.ids]
    simp
  · intro _
    exact hdrain
  · intro _
    exact ⟨ho, by simp⟩
  · intro hc
    simp [ho] at hc

/-- A call of `receive` that does not throw, and does not come before earlier futures have
failed. -/
def Receivable (s : FutureUnixSocket κ F) (st : List (FutureFrame F)) : Prop :=
  if s.socket_ then s.socket.closeStarted_ = false else s.recvQueue_ = [] ∧ EdenCommon.draining st = []

/-- **`receive`** is queued, takes a message that waits, or fails. -/
theorem Calm.receive (h : Calm s st) (hg : Running.Good ⟨s.socket, innerStack st⟩) (hs : s.Receivable st) :
    Inv s.receive.1 (s.receive.2 ++ st) := by
  unfold FutureUnixSocket.receive
  unfold Receivable at hs
  split
  · rename_i ho
    rw [if_pos ho] at hs
    have htail := h.core.tail
    split
    · rename_i previousTail hprev
      -- a receive is waiting, so the callback is installed already
      rw [hprev] at htail
      have hr : s.socket.receiveCallback_ = true := by
        refine h.waiting fun hq => ?_
        simp [hq] at htail
      rw [if_pos htail.symm]
      have hcalm : Calm { s with
          receives := s.receives + 1
          recvQueueTail_ := some s.receives
          recvQueue_ := s.recvQueue_ ++ [s.receives] } st := {
        core := h.core.receive (t := s.socket) ho
        plain := h.plain
        waiting := fun _ => hr
        received := h.received }
      exact hcalm.inv hg
    · rename_i hprev
      rw [hprev] at htail
      -- the first of the queue installs the callback
      have hq : s.recvQueue_ = [] := by simpa using htail.symm
      have hr : s.socket.receiveCallback_ = false := by
        by_contra hr
        exact (h.core.installed (by simpa using hr)).2 hq
      have hset := UnixSocket.setReceiveCallback_ok hg.inv.handler hr hs
      have hg' := hg.call .setReceiveCallback
      rw [UnixSocket.call, hset] at hg'
      rw [hset]
      have hcore := h.core.receive (t := s.socket.setRead true) ho
      rw [hq] at hcore
      have hcalm : Calm { s with
          receives := s.receives + 1
          recvQueueTail_ := some s.receives
          recvQueue_ := [s.receives]
          socket := s.socket.setRead true } st := {
        core := hcore
        plain := h.plain
        waiting := fun _ => rfl
        received := h.received }
      exact hcalm.inv hg'
  · rename_i ho
    rw [if_neg ho] at hs
    obtain ⟨hq, hdrain⟩ := hs
    have hc : s.socket_ = false := by simpa using ho
    -- every earlier future has a result, so the one that fails at once is next
    have hids := h.core.ids
    rw [hq, hdrain, List.append_nil, List.append_nil] at hids
    obtain ⟨hend, hlt⟩ := h.core.ended hc
    have hcalm : Calm ({ s with receives := s.receives + 1 }.complete s.receives (.error .cannotReceive)) st := {
      core := by
        refine { h.core with ids := ?_, failed := ?_, ended := ?_ }
        · simp [complete, hq, hdrain, hids, List.range_succ]
        · intro i e hm
          obtain hm | hm := List.mem_append.1 hm
          · exact h.core.failed i e hm
          · obtain ⟨rfl, he⟩ := Prod.mk.inj (List.mem_singleton.1 hm)
            exact Or.inr ⟨Except.error.inj he, hend, hc⟩
        · intro _
          exact ⟨Nat.le_succ_of_le hend, hlt⟩
      plain := h.plain
      waiting := h.waiting
      received := by simpa [complete, messages, Except.toOption] using h.received }
    exact hcalm.inv hg

end FutureUnixSocket

/-! ### Runs -/

namespace FutureRunning

open FutureUnixSocket

variable {K : Kernel F κ} {r r' : FutureRunning κ F} {a : FutureAct F}

/-- `eofReceived` is called. -/
def atEof (r : FutureRunning κ F) : Bool :=
  match r.stack with
  | .handler .eofReceived :: _ => true
  | _ => false

/-- The remote endpoint does not end the stream while receives are pending, and `receive`
is called on a socket that is open, or has ended and failed all earlier receives. -/
def SafeReceives (r : FutureRunning κ F) : FutureAct F → Prop
  | .receive => r.future.Receivable r.stack
  | .run => r.atEof = false
  | _ => True

/-- User code is in control: on an empty stack or above a continuation. -/
theorem calm_of_userCode (h : FutureUnixSocket.Inv r.future r.stack) (hu : r.userCode = true) :
    Calm r.future r.stack := by
  unfold userCode at hu
  split at hu
  · rename_i hst
    rw [hst] at h ⊢
    exact h.calm (by simp [Plain]) id
  · rename_i below hst
    rw [hst] at h ⊢
    exact h.calm (plain_cons.2 ⟨rfl, h.plain⟩) id
  · cases hu

theorem fault_none (hstep : step K r a = some r') : r.future.socket.fault = none := by
  unfold step at hstep
  split at hstep
  · cases hstep
  · rename_i hf
    simpa using hf

/-- On an empty stack nothing is in hand. -/
theorem calm_of_isEmpty (h : FutureUnixSocket.Inv r.future r.stack) (hst : r.stack = []) :
    Calm r.future [] ∧ Running.Good ⟨r.future.socket, []⟩ := by
  rw [hst] at h
  exact ⟨h.calm (by simp [Plain]) id, h.good⟩

/-- Every step that meets the condition keeps the invariant. -/
theorem inv_step (h : FutureUnixSocket.Inv r.future r.stack) (hs : SafeReceives r a)
    (hstep : step K r a = some r') : FutureUnixSocket.Inv r'.future r'.stack := by
  have hf := fault_none hstep
  simp only [step, hf, Option.isSome_none, Bool.false_eq_true, if_false] at hstep
  cases a with
  | receive =>
    obtain ⟨hu, rfl⟩ : r.userCode = true ∧ push r.future.receive r.stack = r' := by simpa using hstep
    exact (calm_of_userCode h hu).receive h.good hs
  | send msg allocated =>
    obtain ⟨hu, rfl⟩ : r.userCode = true ∧ push (r.future.send msg allocated) r.stack = r' := by simpa using hstep
    exact (calm_of_userCode h hu).send h.good
  | closeNow =>
    obtain ⟨hu, rfl⟩ : r.userCode = true ∧ push r.future.closeNow r.stack = r' := by simpa using hstep
    exact (calm_of_userCode h hu).closeNow h.good
  | ready events =>
    obtain ⟨⟨⟨hst, -⟩, -⟩, rfl⟩ := by simpa using hstep
    obtain ⟨hcalm, hg⟩ := calm_of_isEmpty h hst
    exact (hcalm.cons (g := .socket (UnixSocket.handlerReady events)) rfl rfl).inv (hg.ready events)
  | sendTimeout =>
    obtain ⟨⟨hst, hsch⟩, rfl⟩ := by simpa using hstep
    obtain ⟨hcalm, hg⟩ := calm_of_isEmpty h hst
    have hg' := hg.timeout hsch
    rw [← List.append_nil r.future.socket.timeoutExpired.2] at hg'
    have hinv := hcalm.effect (UnixSocket.timeoutExpired_effect r.future.socket) hg'
    rw [List.append_nil] at hinv
    exact hinv
  | receiveTimeout =>
    obtain ⟨⟨hst, hq⟩, rfl⟩ := by simpa using hstep
    obtain ⟨hcalm, hg⟩ := calm_of_isEmpty h hst
    exact hcalm.receiveTimeout hg hq
  | ret =>
    dsimp only at hstep
    split at hstep
    · rename_i below hst
      rw [← Option.some.inj hstep]
      rw [hst] at h
      exact ((h.calm (plain_cons.2 ⟨rfl, h.plain⟩) id).drop rfl).inv h.good
    · cases hstep
  | run =>
    dsimp only at hstep
    split at hstep
    · cases hstep
    · cases hstep
    · rename_i f below _ hst
      rw [← Option.some.inj hstep]
      have hne : f ≠ .handler .eofReceived := by
        intro he
        have heof : r.atEof = false := hs
        simp [atEof, hst, he] at heof
      rw [hst] at h
      exact h.exec hne

/-- What is wanted of the receives. `endedAt` receives were called before the socket ended. -/
structure ReceiveContract (r : FutureRunning κ F) : Prop where
  fifo : r.future.completed.map Prod.fst <+: List.range r.future.receives
  delivered : messages r.future.completed <+: r.future.socket.delivered
  errors : ∀ i e, (i, .error e) ∈ r.future.completed →
    if i < r.future.endedAt then r.future.endedBy = some e else e = .cannotReceive
  idle : r.stack = [] → messages r.future.completed = r.future.socket.delivered
  ended : r.stack = [] → r.future.socket_ = false ∨ r.future.socket.socket_ = false →
    r.future.completed.map Prod.fst = List.range r.future.receives

/-- The invariant gives the contract. -/
theorem receiveContract (h : FutureUnixSocket.Inv r.future r.stack) : r.ReceiveContract where
  fifo := ⟨_, h.core.ids⟩
  delivered := ⟨_, h.received.symm⟩
  errors := by
    intro i e hm
    obtain ⟨hi, he⟩ | ⟨he, hi, -⟩ := h.core.failed i e hm
    · rw [if_pos hi]; exact he
    · rw [if_neg (Nat.not_lt.2 hi)]; exact he
  idle := by
    intro hst
    have hr := h.received
    rw [hst] at hr
    simpa [inHand] using hr.symm
  ended := by
    intro hst hc
    rw [hst] at h
    have hq : r.future.recvQueue_ = [] := by
      -- on an empty stack nothing is to empty the queue, and a closed socket has no callback
      by_contra hq
      obtain hr | hd := h.waiting hq
      · have ho := (h.core.installed hr).1
        have ho' : r.future.socket.socket_ = true := h.good.inv.open_of_installed hr
        simp [ho, ho'] at hc
      · exact hd
    have hids := h.core.ids
    simpa [hq] using hids

/-- **The receive contract**: futures complete once and in order, with the messages
delivered and then with the event that ended the socket, in every run in which no
`eofReceived` is called and `receive` neither throws nor overtakes futures that are about
to fail. -/
theorem receive_contract (K : Kernel F κ) (kernel : κ) (acts : List (FutureAct F)) (r : FutureRunning κ F)
    (hsafe : AllSteps (step K) SafeReceives (new kernel) acts) (hrun : run (step K) (new kernel) acts = some r) :
    r.ReceiveContract :=
  receiveContract (run_guarded (I := fun r => FutureUnixSocket.Inv r.future r.stack)
    (fun _ _ _ h hs hstep => inv_step h hs hstep) acts (.new kernel) hsafe hrun)

/-- Two receives, and the socket is closed. -/
theorem receive_contract_closeNow :
    ∃ r : FutureRunning Unit ℕ,
      run (step resetPeer) (new ()) [.receive, .receive, .closeNow, .run, .run, .run, .ret, .run, .ret] = some r ∧
        r.future.completed = [(0, .error .closedLocally), (1, .error .closedLocally)] ∧ r.ReceiveContract := by
  refine ⟨_, rfl, rfl, ?_⟩
  refine receive_contract resetPeer ()
    [.receive, .receive, .closeNow, .run, .run, .run, .ret, .run, .ret] _ ?_ rfl
  iterate 9 rw [allSteps_cons rfl]
  exact ⟨rfl, rfl, trivial, rfl, rfl, rfl, trivial, rfl, trivial, trivial⟩

/-- What is asked of `receive` is needed: the first run calls it after a send has timed
out, the second while a future of two has failed. -/
theorem receive_contract_broken :
    (∃ r : FutureRunning Unit ℕ,
      run (step resetPeer) (new ())
          [.send ⟨[], []⟩ true, .run, .sendTimeout, .run, .run, .ret, .run, .run, .receive, .closeNow, .run] =
          some r ∧
        r.stack = [] ∧ r.future.receives = 1 ∧ ¬ r.ReceiveContract) ∧
    ∃ r : FutureRunning Unit ℕ,
      run (step resetPeer) (new ()) [.receive, .receive, .closeNow, .run, .run, .run, .receive] = some r ∧
        r.future.completed = [(0, .error .closedLocally), (2, .error .cannotReceive)] ∧ ¬ r.ReceiveContract := by
  constructor
  · refine ⟨_, rfl, rfl, rfl, ?_⟩
    intro h
    have he : ([] : List ℕ) = List.range 1 := h.ended rfl (Or.inl rfl)
    simp at he
  · refine ⟨_, rfl, rfl, ?_⟩
    intro h
    have hp : [0, 2] <+: List.range 3 := h.fifo
    exact absurd hp (by decide)

end FutureRunning

/-- A peer that has closed the connection. -/
def closedPeer : Kernel ℕ Unit := { resetPeer with recvmsg := fun _ _ => (.received [] 0 [], ()) }

namespace FutureRunning

/-- The remote endpoint closes the connection, and a receive fails as closed locally. -/
theorem eof_closes_locally :
    ∃ r : FutureRunning Unit ℕ,
      run (step closedPeer) (new ()) [.receive, .ready ⟨true, false⟩, .run, .run, .run, .run, .run] = some r ∧
        r.future.completed = [(0, .error .closedLocally)] ∧ r.future.endedBy = some .remoteClosed ∧
        ¬ r.ReceiveContract := by
  refine ⟨_, rfl, rfl, rfl, ?_⟩
  intro h
  have he : some FutureError.remoteClosed = some .closedLocally := h.errors 0 .closedLocally List.mem_cons_self
  simp at he

end FutureRunning

end EdenCommon
