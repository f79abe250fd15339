import EdenCommon.Proof.FutureHeapSteps

/-!
# Moving a `FutureUnixSocket`

In every run whose steps meet `MoveSafe`, a socket calls the object that has it, and a
receive that times out calls the object whose queue it is in (`MoveContract`).

A move assignment runs user code between its parts, and has returned when the stack is
again what it was. Until then the stack is that of the caller below the frames of the
assignment, and what is claimed of the assignment is a fact about these frames:

* `Tracked`: a receive that was pending on the object is in its queue, with a frame that
  fails it, or has failed.
* `Held`: no frame closes the socket that the object has been given, unless user code calls
  the object.
-/

namespace EdenCommon

open Lib Function

variable {F κ : Type}

/-! ### What a frame can do -/

/-- Data may come from the frame. -/
def Frame.receives : Frame F → Bool
  | .tryReceive _ _ => true
  | .callback (.messageReceived _ _) => true
  | _ => false

/-- The callback that a socket ends with. -/
def Callback.isEnd : Callback F → Bool
  | .eofReceived => true
  | .receiveError _ => true
  | .socketClosed => true
  | _ => false

namespace HeapFrame

/-- Data may come from the frame. -/
def receives : HeapFrame F → Bool
  | .socket _ f => f.receives
  | .handler _ _ c => (Frame.callback c).receives
  | _ => false

/-- The frame empties the queue of object `o`, unless it finds it empty. -/
def empties (o : ℕ) : HeapFrame F → Bool
  | .handler _ p c => p = o && c.isEnd
  | .failAllPromises p _ => p = o
  | .moveQueue p _ => p = o
  | .destructor p => p = o
  | _ => false

/-- The frame may close socket `n`, which object `o` has. -/
def closes (n o : ℕ) : HeapFrame F → Bool
  | .socket i _ => i = n
  | .handler i p c => i = n || (p = o && c.isEnd)
  | .destructor p => p = o
  | _ => false

/-- A frame of a socket brings data on the heap if it does so in the socket. -/
theorem ofFrame_receives (i o : ℕ) (f : Frame F) : (ofFrame i o f).receives = f.receives := by cases f <;> rfl

end HeapFrame

/-- User code calls object `o`. -/
def HeapAct.names (o : ℕ) : HeapAct F → Bool
  | .receive p => p = o
  | .send p _ _ => p = o
  | .closeNow p => p = o
  | .connect p _ => p = o
  | .moveConstruct other => other = o
  | .moveAssign p other => p = o || other = o
  | .destroy p => p = o
  | _ => false

namespace UnixSocket

variable {s t : UnixSocket κ F} {st fs : List (Frame F)} {f : Frame F}

/-- No data comes from the frames. -/
def NoData (fs : List (Frame F)) : Prop := ∀ f ∈ fs, f.receives = false

theorem noData_append {fs' : List (Frame F)} (h : NoData fs) (h' : NoData fs') : NoData (fs ++ fs') := by
  intro f hf
  obtain hf | hf := List.mem_append.1 hf
  · exact h f hf
  · exact h' f hf

theorem noData_singleton (h : f.receives = false) : NoData [f] := by simpa [NoData] using h

theorem noData_nil : NoData ([] : List (Frame F)) := nofun

/-- No notice of an end brings data. -/
theorem noData_notice (s : UnixSocket κ F) {c : Callback F} (hc : (Frame.callback c).receives = false) :
    NoData (s.notice c) := by
  unfold notice
  split
  · exact noData_singleton hc
  · exact noData_nil

/-- Closing calls `socketClosed` at most. -/
theorem noData_closeNow (s : UnixSocket κ F) : NoData s.closeNow.2 := by
  cases ho : s.socket_ with
  | true =>
    rw [closeNow_open ho]
    exact noData_append (noData_notice s rfl) (noData_singleton rfl)
  | false =>
    rw [closeNow_closed ho]
    exact noData_nil

/-- A destroyed socket brings no data. -/
theorem noData_destroy (s : UnixSocket κ F) : NoData s.destroy.2 :=
  noData_append (noData_closeNow s) (noData_singleton rfl)

/-- An error calls the callbacks with an error. -/
theorem noData_socketError (s : UnixSocket κ F) (e : SocketError) : NoData (s.socketError e).2 := by
  cases ho : s.socket_ with
  | true =>
    rw [socketError_open e ho]
    exact noData_append (noData_notice s rfl) (noData_singleton rfl)
  | false =>
    rw [socketError_closed e ho]
    exact noData_nil

theorem noData_finishTrySend (s : UnixSocket κ F) : NoData s.finishTrySend.2 := by
  unfold finishTrySend
  split
  · dsimp only
    split
    · exact noData_closeNow _
    · exact noData_nil
  · exact noData_nil

theorem noData_sendNotice (p : QueuedSend F) (result : Option SocketError) : NoData (sendNotice p result) := by
  unfold sendNotice
  split
  · exact noData_singleton (by cases result <;> rfl)
  · exact noData_nil

theorem noData_takeSend (s : UnixSocket κ F) (p : QueuedSend F) (rest : List (QueuedSend F))
    (result : Option SocketError) : NoData (s.takeSend p rest result).2 := by
  rw [takeSend_eq]
  exact noData_sendNotice p result

/-- `send` tries to write and reads nothing. -/
theorem noData_send (s : UnixSocket κ F) (message : Message F) (allocated : Bool) :
    NoData (s.send message true allocated).2 := by
  unfold send
  dsimp only
  split
  · exact noData_singleton rfl
  · split
    · exact noData_singleton rfl
    · split
      · exact noData_singleton rfl
      · exact noData_nil

/-- Data comes from `tryReceive` only. -/
theorem noData_exec {K : Kernel F κ} (hf : f.receives = false) : NoData (s.exec K st f).2 := by
  cases f with
  | callback c => exact noData_nil
  | trySend n =>
    refine trySend_cases (P := fun r => NoData r.2) (noData_finishTrySend s) (noData_singleton rfl) ?_ ?_ ?_
    · intro p rest _
      exact noData_socketError _ _
    · intro p rest entry kernel _
      exact noData_finishTrySend _
    · intro p rest kernel _
      exact noData_append (noData_takeSend _ _ _ _) (noData_singleton rfl)
  | tryReceive n write => cases hf
  | handlerWrite write =>
    cases write with
    | true => exact noData_singleton rfl
    | false => exact noData_nil
  | failAllSends e caller =>
    rw [exec]
    cases hq : s.sendQueue_ with
    | nil =>
      rw [failAllSends_nil e caller hq]
      exact noData_nil
    | cons p rest =>
      rw [failAllSends_cons e caller hq]
      exact noData_append (noData_takeSend _ _ _ _) (noData_singleton rfl)
  | closeShutdown =>
    exact closeShutdown_cases (P := fun r => NoData r.2) (noData_singleton rfl) fun _ _ => noData_nil
  | destroyEnd => exact destroyEnd_cases (P := fun r => NoData r.2) (noData_singleton rfl) noData_nil

/-- A receive callback is called only while it is installed. -/
theorem Effect.calls (he : Effect s t fs) {c : Callback F} (hc : .callback c ∈ fs) :
    c.isSend = true ∨ s.receiveCallback_ = true := by
  have hinternal {gs : List (Frame F)} (hg : Internal gs) : Frame.callback c ∉ gs := by
    intro hm
    have := hg _ hm
    simp [Frame.isCallback] at this
  cases he with
  | quiet installed delivered internal => exact absurd hc (hinternal internal)
  | sent installed delivered send internal =>
    obtain hc | hc := List.mem_cons.1 hc
    · cases hc
      exact Or.inl send
    · exact absurd hc (hinternal internal)
  | failed before after delivered closed internal => exact Or.inr before
  | eof before after delivered internal => exact Or.inr before
  | received before after delivered internal => exact Or.inr before

end UnixSocket

namespace FutureHeap

variable {h h' : FutureHeap κ F} {st top fs : List (HeapFrame F)} {g : HeapFrame F} {o p i n : ℕ} {s : Option ℕ}

/-! ### The assignment of `socket_` -/

/-- An assignment of the socket changes that pointer and no other field of any object. -/
theorem assignSocket_objects (h : FutureHeap κ F) (p : ℕ) (s : Option ℕ) :
    (h.assignSocket p s).1.objects = update h.objects p { h.objects p with socket_ := s } := by
  unfold FutureHeap.assignSocket
  split <;> rfl

theorem assignSocket_objectCount (h : FutureHeap κ F) (p : ℕ) (s : Option ℕ) :
    (h.assignSocket p s).1.objectCount = h.objectCount := by
  unfold FutureHeap.assignSocket
  split <;> rfl

/-- It completes no future. -/
theorem assignSocket_completed (h : FutureHeap κ F) (p : ℕ) (s : Option ℕ) :
    (h.assignSocket p s).1.completed = h.completed := by
  unfold FutureHeap.assignSocket
  split <;> rfl

/-- It leaves all queues as they are. -/
theorem assignSocket_queue (h : FutureHeap κ F) (p : ℕ) (s : Option ℕ) (o : ℕ) :
    ((h.assignSocket p s).1.objects o).recvQueue_ = (h.objects o).recvQueue_ := by
  rw [assignSocket_objects]
  by_cases hop : o = p
  · subst hop
    rw [update_self]
  · rw [update_of_ne hop]

theorem assignSocket_objects_ne (hop : o ≠ p) : (h.assignSocket p s).1.objects o = h.objects o := by
  rw [assignSocket_objects, update_of_ne hop]

/-- The frames are those of the socket that is destroyed. -/
theorem assignSocket_frames {P : HeapFrame F → Prop}
    (hf : ∀ i, (h.objects p).socket_ = some i → ∀ f ∈ (h.sockets i).socket.destroy.2,
      P (.ofFrame i (h.sockets i).receiveCallback_ f)) : ∀ g ∈ (h.assignSocket p s).2, P g := by
  unfold FutureHeap.assignSocket
  split
  · rename_i i hi
    intro g hg
    obtain ⟨f, hm, rfl⟩ := List.mem_map.1 hg
    exact hf i hi f hm
  · nofun

/-! ### Frames that no data comes from -/

/-- No data comes from the frames. -/
def NoData (st : List (HeapFrame F)) : Prop := ∀ g ∈ st, g.receives = false

theorem noData_nil : NoData ([] : List (HeapFrame F)) := nofun

theorem noData_cons : NoData (g :: st) ↔ g.receives = false ∧ NoData st := List.forall_mem_cons

theorem noData_append : NoData (fs ++ st) ↔ NoData fs ∧ NoData st := List.forall_mem_append

theorem noData_ofFrame {fs : List (Frame F)} (hfs : UnixSocket.NoData fs) (i o : ℕ) :
    NoData (fs.map (HeapFrame.ofFrame i o)) := by
  intro g hg
  obtain ⟨f, hf, rfl⟩ := List.mem_map.1 hg
  rw [HeapFrame.ofFrame_receives]
  exact hfs f hf

/-- The socket that was there before is closed, which brings no data. -/
theorem noData_assignSocket (h : FutureHeap κ F) (p : ℕ) (s : Option ℕ) : NoData (h.assignSocket p s).2 :=
  assignSocket_frames fun i _ f hf => by
    rw [HeapFrame.ofFrame_receives]
    exact UnixSocket.noData_destroy _ f hf

/-! ### Receives that are to fail -/

def Failed (h : FutureHeap κ F) (id : ℕ) : Prop := ∃ ew, (id, .error ew) ∈ h.completed

/-- Future `id` is in the queue of object `o`, which a frame of `top` empties, or a frame of
`top` is about to fail it, or it has failed. -/
def Tracked (h : FutureHeap κ F) (o id : ℕ) (top : List (HeapFrame F)) : Prop :=
  (id ∈ (h.objects o).recvQueue_.map ReceiveEntry.promise_ ∧ ∃ g ∈ top, g.empties o = true) ∨
    id ∈ draining top ∨ h.Failed id

/-- What is pending on object `o` stays, and what is completed. -/
structure Kept (h h' : FutureHeap κ F) (o : ℕ) : Prop where
  queue : (h.objects o).recvQueue_ ⊆ (h'.objects o).recvQueue_
  completed : h.completed ⊆ h'.completed

theorem Kept.refl (h : FutureHeap κ F) (o : ℕ) : Kept h h o := ⟨fun _ he => he, fun _ hc => hc⟩

/-- A step that changes neither the queue nor the results keeps both. -/
theorem kept_of_eq (hq : (h'.objects o).recvQueue_ = (h.objects o).recvQueue_) (hc : h'.completed = h.completed) :
    Kept h h' o := ⟨by simp [hq], by simp [hc]⟩

/-- A completed future is one more result. -/
theorem kept_complete (id : ℕ) (result : Except ReceiveFailure (Bytes × List F)) : Kept h (h.complete id result) o :=
  ⟨fun _ he => he, fun _ hc => List.mem_append_left _ hc⟩

/-- An object may change in everything but its queue. -/
theorem kept_setObject {y : FutureObject} (hq : y.recvQueue_ = (h.objects p).recvQueue_) : Kept h (h.setObject p y) o := by
  refine kept_of_eq ?_ rfl
  by_cases hop : o = p
  · subst hop
    rw [setObject_objects_self, hq]
  · rw [setObject_objects_ne hop]

theorem kept_setObject_ne {y : FutureObject} (hop : o ≠ p) : Kept h (h.setObject p y) o :=
  kept_of_eq (by rw [setObject_objects_ne hop]) rfl

theorem kept_assignSocket (h : FutureHeap κ F) (p : ℕ) (s : Option ℕ) (o : ℕ) : Kept h (h.assignSocket p s).1 o :=
  kept_of_eq (assignSocket_queue h p s o) (assignSocket_completed h p s)

/-- Steps behind one another keep what each of them keeps. -/
theorem Kept.trans {h'' : FutureHeap κ F} (h1 : Kept h h' o) (h2 : Kept h' h'' o) : Kept h h'' o :=
  ⟨fun _ he => h2.queue (h1.queue he), fun _ hc => h2.completed (h1.completed hc)⟩

/-- A future that has failed stays so. -/
theorem Failed.kept {id : ℕ} (hf : h.Failed id) (hk : Kept h h' o) : h'.Failed id := by
  obtain ⟨ew, hm⟩ := hf
  exact ⟨ew, hk.completed hm⟩

theorem Tracked.push {id : ℕ} (ht : Tracked h o id top) (hk : Kept h h' o) (fs : List (HeapFrame F)) :
    Tracked h' o id (fs ++ top) := by
  obtain ⟨hq, g, hg, he⟩ | hd | hf := ht
  · exact Or.inl ⟨List.map_subset _ hk.queue hq, g, List.mem_append_right _ hg, he⟩
  · exact Or.inr (Or.inl (by simp [hd]))
  · exact Or.inr (Or.inr (hf.kept hk))

/-- A frame goes that fails nothing. -/
theorem Tracked.pop {id : ℕ} (ht : Tracked h o id (g :: top)) (he : g.empties o = false) (hq : g.queue = []) :
    Tracked h o id top := by
  obtain ⟨hm, x, hx, hex⟩ | hd | hf := ht
  · obtain rfl | hx := List.mem_cons.1 hx
    · simp [he] at hex
    · exact Or.inl ⟨hm, x, hx, hex⟩
  · exact Or.inr (Or.inl (by simpa [hq] using hd))
  · exact Or.inr (Or.inr hf)

/-- A frame goes when the queue that it would empty is empty. -/
theorem Tracked.pop_nil {id : ℕ} (ht : Tracked h o id (g :: top)) (he : (h.objects o).recvQueue_ = [])
    (hq : g.queue = []) : Tracked h o id top := by
  obtain ⟨hm, -⟩ | hd | hf := ht
  · simp [he] at hm
  · exact Or.inr (Or.inl (by simpa [hq] using hd))
  · exact Or.inr (Or.inr hf)

/-- Future `id` is tracked, and no data comes from the frames. -/
structure Followed (h : FutureHeap κ F) (o id : ℕ) (top : List (HeapFrame F)) : Prop where
  data : NoData top
  tracked : Tracked h o id top

/-- A call on top of the frames keeps what they are about to fail. -/
theorem Followed.push {id : ℕ} (hf : Followed h o id top) (hk : Kept h h' o) (hfs : NoData fs) :
    Followed h' o id (fs ++ top) := ⟨noData_append.2 ⟨hfs, hf.data⟩, hf.tracked.push hk fs⟩

/-- A frame that empties no queue and fails nothing may return. -/
theorem Followed.pop {id : ℕ} (hf : Followed h o id (g :: top)) (he : g.empties o = false) (hq : g.queue = []) :
    Followed h o id top := ⟨(noData_cons.1 hf.data).2, hf.tracked.pop he hq⟩

/-- The frame on top faults. -/
theorem Followed.raise {id : ℕ} {f : Fault} (hf : Followed h o id (g :: top)) :
    Followed (h.raise f) o id ([g] ++ top) := ⟨hf.data, hf.tracked⟩

/-- A callback that its socket ends with empties the queue of the object it calls. -/
theorem Followed.terminate {c : Callback F} {e : FutureError} {id : ℕ} (hf : Followed h o id (.handler i p c :: top)) :
    Followed (h.terminate i p c e).1 o id ((h.terminate i p c e).2 ++ top) := by
  obtain ⟨hdata, htop⟩ := noData_cons.1 hf.data
  have hfs : NoData ([.failAllPromises p e, .running i c] : List (HeapFrame F)) := by simp [NoData, HeapFrame.receives]
  rw [FutureHeap.terminate, List.append_assoc]
  refine Followed.push ⟨noData_append.2 ⟨hfs, htop⟩, ?_⟩ (kept_assignSocket h p none o) (noData_assignSocket h p none)
  obtain ⟨hq, x, hx, hex⟩ | hd | hfail := hf.tracked
  · -- either this callback or a frame below it empties the queue
    obtain rfl | hx := List.mem_cons.1 hx
    · have hpo : p = o := by
        simp only [HeapFrame.empties, Bool.and_eq_true, decide_eq_true_eq] at hex
        exact hex.1
      exact Or.inl ⟨hq, .failAllPromises p e, by simp, by simp [HeapFrame.empties, hpo]⟩
    · exact Or.inl ⟨hq, x, by simp [hx], hex⟩
  · exact Or.inr (Or.inl (by simpa [HeapFrame.queue] using hd))
  · exact Or.inr (Or.inr hfail)

/-- **A callback that ends a socket** empties the queue of its object, and what was in it is to fail. -/
theorem Followed.handle {c : Callback F} {id : ℕ} (hf : Followed h o id (.handler i p c :: top)) :
    Followed (h.handle i p c).1 o id ((h.handle i p c).2 ++ top) := by
  have hsend (hc : c.isEnd = false) : Followed h o id ([HeapFrame.user, .running i c] ++ top) :=
    (hf.pop (by simp [HeapFrame.empties, hc]) rfl).push (.refl h o) (by simp [NoData, HeapFrame.receives])
  cases c with
  | sendSuccess k => exact hsend rfl
  | sendError k e => exact hsend rfl
  | messageReceived data files =>
    have := (noData_cons.1 hf.data).1
    cases this
  | eofReceived => exact deref_cases (P := fun r => Followed r.1 o id (r.2 ++ top)) hf.raise fun _ => hf.terminate
  | socketClosed => exact deref_cases (P := fun r => Followed r.1 o id (r.2 ++ top)) hf.raise fun _ => hf.terminate
  | receiveError e => exact deref_cases (P := fun r => Followed r.1 o id (r.2 ++ top)) hf.raise fun _ => hf.terminate

/-- `failAllPromises` takes the queue over as a whole. -/
theorem Followed.failAllPromises {e : FutureError} {id : ℕ} (hf : Followed h o id (.failAllPromises p e :: top)) :
    Followed (h.setObject p { h.objects p with recvQueue_ := [], recvQueueTail_ := none }) o id
      (.failReceiveQueue (h.objects p).recvQueue_ (.error e) :: top) := by
  refine ⟨noData_cons.2 ⟨rfl, (noData_cons.1 hf.data).2⟩, ?_⟩
  by_cases hop : o = p
  · subst hop
    obtain ⟨hq, -⟩ | hd | hfail := hf.tracked
    -- the queue that the future is in passes to the frame that fails it
    · exact Or.inr (Or.inl (by simp only [draining_cons, HeapFrame.queue]; exact List.mem_append_left _ hq))
    · exact Or.inr (Or.inl (by simp only [draining_cons]; exact List.mem_append_right _ (by simpa [HeapFrame.queue] using hd)))
    · exact Or.inr (Or.inr hfail)
  · have hpo : ¬ p = o := fun he => hop he.symm
    exact (hf.tracked.pop (by simp [HeapFrame.empties, hpo]) rfl).push (kept_setObject_ne hop) [_]

/-- Each turn of `failReceiveQueue` fails the first entry and keeps the others for the next turns. -/
theorem Followed.failReceiveQueue {K : Kernel F κ} {callback : List ReceiveEntry} {ew : ReceiveFailure} {id : ℕ}
    (hf : Followed h o id (.failReceiveQueue callback ew :: top)) :
    Followed (h.exec K st (.failReceiveQueue callback ew)).1 o id
      ((h.exec K st (.failReceiveQueue callback ew)).2 ++ top) := by
  cases callback with
  | nil => exact hf.pop rfl rfl
  | cons e next =>
    have hdata : NoData ([HeapFrame.user, .failReceiveQueue next ew] ++ top) :=
      noData_append.2 ⟨by simp [NoData, HeapFrame.receives], (noData_cons.1 hf.data).2⟩
    refine ⟨hdata, ?_⟩
    have hk : Kept h (h.complete e.promise_ (.error ew)) o := kept_complete _ _
    obtain ⟨hq, x, hx, hex⟩ | hd | hfail := hf.tracked
    · obtain rfl | hx := List.mem_cons.1 hx
      · cases hex
      · exact Or.inl ⟨List.map_subset _ hk.queue hq, x, by simp [hx], hex⟩
    · simp only [draining_cons, HeapFrame.queue, List.map_cons, List.cons_append, List.mem_cons] at hd
      obtain rfl | hd := hd
      -- this turn fails the future, or a later one does
      · exact Or.inr (Or.inr ⟨ew, by simp [FutureHeap.exec, complete]⟩)
      · exact Or.inr (Or.inl (by simpa [FutureHeap.exec, HeapFrame.queue] using hd))
    · exact Or.inr (Or.inr (hfail.kept hk))

/-! ### What a call does to the receives of an object -/

/-- A call that user code makes drops no receive and brings no data. -/
structure Gentle (h : FutureHeap κ F) (o : ℕ) (t : FutureHeap κ F × List (HeapFrame F)) : Prop where
  kept : Kept h t.1 o
  data : NoData t.2

/-- The object that is made next has an empty queue. -/
theorem Core.next_queue (hc : Core h st) : (h.objects h.objectCount).recvQueue_ = [] := by
  by_contra hq
  have hl : (h.objects h.objectCount).lifetime ≠ .gone := fun hg => hq ((hc.owned _).gone hg).2
  have := (hc.owned _).made hl
  omega

/-- A call of a socket touches no queue. -/
theorem gentle_onSocket {r : UnixSocket κ F × List (Frame F)} (hr : UnixSocket.NoData r.2) :
    Gentle h o (h.onSocket i r) := ⟨kept_of_eq rfl rfl, noData_ofFrame hr _ _⟩

theorem gentle_assignSocket (hk : Kept h h' o) (hfs : NoData fs) :
    Gentle h o ((h'.assignSocket p s).1, (h'.assignSocket p s).2 ++ fs) :=
  ⟨hk.trans (kept_assignSocket h' p s o), noData_append.2 ⟨noData_assignSocket h' p s, hfs⟩⟩

/-- A new object comes with an empty queue. -/
theorem gentle_create (hc : Core h st) (connected : Bool) : Gentle h o (h.create connected, []) := by
  refine ⟨?_, noData_nil⟩
  have hk : Kept h (h.setObject h.objectCount ⟨if connected then some h.socketCount else none, [], none, .usable⟩) o :=
    kept_setObject hc.next_queue.symm
  exact ⟨hk.queue, hk.completed⟩

/-- `receive` adds an entry behind the others or fails a future of its own. -/
theorem gentle_receive (hc : Core h st) (hg : Goods h st) : Gentle h o (h.receive p) := by
  have hk : Kept h (h.enqueue p) o := by
    by_cases hop : o = p
    · subst hop
      refine ⟨?_, fun _ hm => hm⟩
      simp [enqueue]
    · exact ⟨(kept_setObject_ne (h := { h with receives := h.receives + 1 }) hop).queue, fun _ hm => hm⟩
  refine receive_cases (P := Gentle h o) hc ?_ ?_ ?_
  · intro _
    have hk' : Kept h { h with receives := h.receives + 1 } o := ⟨fun _ he => he, fun _ hm => hm⟩
    exact ⟨hk'.trans (kept_complete _ _), noData_nil⟩
  · intro i _ _
    exact ⟨hk, noData_nil⟩
  · intro i _ _
    have hg' : Goods (h.enqueue p) st := hg
    refine setReceiveCallback_cases (P := Gentle h o) hg' ?_ ?_
    · intro _ e
      exact ⟨hk.trans (kept_of_eq rfl rfl), noData_nil⟩
    · intro _ _
      exact ⟨hk.trans (kept_of_eq rfl rfl), noData_nil⟩

/-- `send` touches no queue. -/
theorem gentle_send {msg : Message F} {allocated : Bool} : Gentle h o (h.send p msg allocated) := by
  unfold FutureHeap.send
  split
  · exact gentle_onSocket (UnixSocket.noData_send _ _ _)
  · exact ⟨.refl h o, noData_nil⟩

theorem gentle_closeNow : Gentle h o (h.closeNow p) := ⟨kept_assignSocket h p none o, noData_assignSocket h p none⟩

theorem gentle_connectSuccess : Gentle h o (h.connectSuccess p) :=
  gentle_assignSocket (kept_of_eq rfl rfl) (by simp [NoData, HeapFrame.receives])

/-- A move construction from an object without pending receives moves nothing away. -/
theorem gentle_moveConstruct (hc : Core h st) (hq : (h.objects p).recvQueue_ = []) :
    Gentle h o (h.moveConstruct p, []) := by
  refine ⟨?_, noData_nil⟩
  have hk : Kept h (h.setObject h.objectCount { h.objects p with lifetime := .usable }) o :=
    kept_setObject (hq.trans hc.next_queue.symm)
  by_cases hop : o = p
  · subst hop
    exact ⟨by simp [hq], fun _ hm => hm⟩
  · have hk' := hk.trans (kept_setObject_ne (y := { h.objects p with socket_ := none, recvQueue_ := [], recvQueueTail_ := none }) hop)
    exact ⟨hk'.queue, hk'.completed⟩

/-- A move assignment ends the old socket, and moves in its last part only. -/
theorem gentle_moveAssign {other : ℕ} : Gentle h o (h.moveAssign p other) :=
  gentle_assignSocket (kept_setObject rfl) (by simp [NoData, HeapFrame.receives])

/-- A destructor closes the socket, whose callback then empties the queue. -/
theorem gentle_destroy : Gentle h o (h.destroy p) := by
  have hk : Kept h (h.setObject p { h.objects p with lifetime := .closing }) o := kept_setObject rfl
  have hfs : NoData ([.destructor p] : List (HeapFrame F)) := by simp [NoData, HeapFrame.receives]
  unfold FutureHeap.destroy
  dsimp only
  split
  · refine ⟨hk.trans (kept_of_eq rfl rfl), noData_append.2 ⟨?_, hfs⟩⟩
    exact noData_ofFrame (UnixSocket.noData_closeNow _) _ _
  · exact ⟨hk, hfs⟩

/-! ### What a call does to the socket of an object -/

/-- Object `o` has socket `s`, which no frame of `top` closes. -/
structure Held (h : FutureHeap κ F) (o : ℕ) (s : Option ℕ) (top : List (HeapFrame F)) : Prop where
  made : o < h.objectCount
  socket : (h.objects o).socket_ = s
  frames : ∀ n, s = some n → ∀ g ∈ top, g.closes n o = false

/-- A call leaves object `o` its socket, and closes it in no frame. -/
structure Aside (h : FutureHeap κ F) (o : ℕ) (t : FutureHeap κ F × List (HeapFrame F)) : Prop where
  count : h.objectCount ≤ t.1.objectCount
  socket : (t.1.objects o).socket_ = (h.objects o).socket_
  frames : ∀ n, (h.objects o).socket_ = some n → ∀ g ∈ t.2, g.closes n o = false

/-- A call that stays aside of the object leaves it its socket. -/
theorem Held.push {t : FutureHeap κ F × List (HeapFrame F)} (hh : Held h o s top) (ht : Aside h o t) :
    Held t.1 o s (t.2 ++ top) where
  made := Nat.lt_of_lt_of_le hh.made ht.count
  socket := ht.socket.trans hh.socket
  frames := by
    intro n hn g hg
    obtain hg | hg := List.mem_append.1 hg
    · exact ht.frames n (hh.socket.trans hn) g hg
    · exact hh.frames n hn g hg

theorem Held.pop (hh : Held h o s (g :: top)) : Held h o s top :=
  { hh with frames := fun n hn x hx => hh.frames n hn x (List.mem_cons_of_mem _ hx) }

/-- The frame on top faults. -/
theorem Held.raise {f : Fault} (hh : Held h o s (g :: top)) : Held (h.raise f) o s ([g] ++ top) :=
  ⟨hh.made, hh.socket, hh.frames⟩

/-- Frames that do not close the socket may be added to a call. -/
theorem Aside.append {t : FutureHeap κ F × List (HeapFrame F)} (ht : Aside h o t)
    (hfs : ∀ n, ∀ g ∈ fs, g.closes n o = false) : Aside h o (t.1, t.2 ++ fs) :=
  { ht with
    frames := by
      intro n hn g hg
      obtain hg | hg := List.mem_append.1 hg
      · exact ht.frames n hn g hg
      · exact hfs n g hg }

/-- A socket that ends calls the receive callback only if it has one. -/
theorem Retired.calls {s : UnixSocket κ F} {r : UnixSocket κ F × List (Frame F)} (hr : Retired s r) {c : Callback F}
    (hc : .callback c ∈ r.2) : s.receiveCallback_ = true := by
  obtain ⟨fs, hfs, heq⟩ := hr.frames
  rw [heq] at hc
  obtain hc | hc := List.mem_append.1 hc
  · by_contra hcb
    rw [UnixSocket.notice, if_neg hcb] at hc
    cases hc
  · have := hfs _ hc
    simp [Frame.isCallback] at this

/-- The receive callback of another socket is another object. -/
theorem closes_ofFrame {fs : List (Frame F)} (hc : Core h st) (hn : (h.objects o).socket_ = some n) (hi : i ≠ n)
    (hcalls : ∀ c, .callback c ∈ fs → c.isSend = true ∨ (h.sockets i).socket.receiveCallback_ = true) :
    ∀ g ∈ fs.map (HeapFrame.ofFrame i (h.sockets i).receiveCallback_), g.closes n o = false := by
  intro g hg
  obtain ⟨f, hf, rfl⟩ := List.mem_map.1 hg
  cases f with
  | callback c =>
    simp only [HeapFrame.ofFrame, HeapFrame.closes, Bool.or_eq_false_iff, Bool.and_eq_false_iff,
      decide_eq_false_iff_not]
    refine ⟨hi, ?_⟩
    obtain hs | hr := hcalls c hf
    -- a send callback ends nothing, and a receive callback is the object that has socket `i`
    · right
      cases c with
      | sendSuccess id => rfl
      | sendError id e => rfl
      | _ => cases hs
    · left
      rintro rfl
      have hs := ((hc.owned _).routed i ⟨hr, rfl⟩).1
      rw [hn] at hs
      exact hi (Option.some.inj hs).symm
  | _ => simpa [HeapFrame.ofFrame, HeapFrame.closes] using hi

/-- Two objects have no socket in common. -/
theorem Core.socket_ne (hc : Core h st) (hop : o ≠ p) (hp : (h.objects p).socket_ = some i)
    (hn : (h.objects o).socket_ = some n) : i ≠ n := by
  rintro rfl
  exact hop (hc.eq_of_socket hp hn)

/-- A call of the socket of another object does not close that of `o`. -/
theorem aside_onSocket {r : UnixSocket κ F × List (Frame F)} (hc : Core h st)
    (hi : ∀ n, (h.objects o).socket_ = some n → i ≠ n)
    (hcalls : ∀ c, .callback c ∈ r.2 → c.isSend = true ∨ (h.sockets i).socket.receiveCallback_ = true) :
    Aside h o (h.onSocket i r) :=
  ⟨le_rfl, rfl, fun n hn => closes_ofFrame hc hn (hi n hn) hcalls⟩

/-- **The assignment of `socket_`** of another object, which may have changed before. -/
theorem aside_assignSocket (h' : FutureHeap κ F) (s : Option ℕ) (hc : Core h st) (hg : Goods h st) (hop : o ≠ p)
    (hcount : h.objectCount ≤ h'.objectCount) (hsockets : h'.sockets = h.sockets)
    (ho : (h'.objects o).socket_ = (h.objects o).socket_)
    (hp : ∀ i, (h'.objects p).socket_ = some i → (h.objects p).socket_ = some i) :
    Aside h o (h'.assignSocket p s) where
  count := by rw [assignSocket_objectCount]; exact hcount
  socket := by rw [assignSocket_objects_ne hop, ho]
  frames := by
    intro n hn
    refine assignSocket_frames fun i hi f hf => ?_
    rw [hsockets] at hf ⊢
    -- what is destroyed is the socket of `p`, which `o` does not have
    refine closes_ofFrame hc hn (hc.socket_ne hop (hp i hi) hn) ?_ _ (List.mem_map.2 ⟨f, hf, rfl⟩)
    intro c hm
    exact Or.inr ((retired_destroy (hg i).inv).calls hm)

/-- Another field of an object may change. -/
theorem aside_setObject {y : FutureObject} (hy : y.socket_ = (h.objects p).socket_)
    (hfs : ∀ n, ∀ g ∈ fs, g.closes n o = false) : Aside h o (h.setObject p y, fs) := by
  refine ⟨le_rfl, ?_, fun n _ => hfs n⟩
  by_cases hop : o = p
  · subst hop
    rw [setObject_objects_self, hy]
  · rw [setObject_objects_ne hop]

/-- An object that has no socket is given none when a call resets it. -/
theorem Held.reset (hh : Held h o s (g :: top)) (h' : FutureHeap κ F) (hs : s = none)
    (ho : h'.objectCount = h.objectCount) (fs : List (HeapFrame F)) :
    Held (h'.assignSocket o none).1 o s (fs ++ top) where
  made := by rw [assignSocket_objectCount, ho]; exact hh.made
  socket := by rw [assignSocket_objects, update_self, hs]
  frames := by
    intro n hn
    simp [hs] at hn

/-- **The end of another socket** leaves object `o` the one that it has been given. -/
theorem Held.terminate {c : Callback F} {e : FutureError} (hh : Held h o s (.handler i p c :: top))
    (hend : c.isEnd = true) (hc : Core h st) (hg : Goods h st) :
    Held (h.terminate i p c e).1 o s ((h.terminate i p c e).2 ++ top) := by
  by_cases hop : o = p
  · subst hop
    refine hh.reset h ?_ rfl _
    cases s with
    | none => rfl
    | some n =>
      -- the callback would close the socket that `o` has been given
      have := hh.frames n rfl _ List.mem_cons_self
      simp [HeapFrame.closes, hend] at this
  · have ht := aside_assignSocket h none hc hg hop le_rfl rfl rfl fun _ hi => hi
    have hfs : ∀ n, ∀ g ∈ [.failAllPromises p e, .running i c], HeapFrame.closes n o g = false := by
      simp [HeapFrame.closes]
    exact hh.pop.push (ht.append hfs)

/-- A callback that is being handled does so too. -/
theorem Held.handle {c : Callback F} (hi : Inv h (.handler i p c :: st)) (hh : Held h o s (.handler i p c :: top)) :
    Held (h.handle i p c).1 o s ((h.handle i p c).2 ++ top) := by
  have hfs (c : Callback F) : ∀ n, ∀ g ∈ [.user, .running i c], HeapFrame.closes n o g = false := by
    simp [HeapFrame.closes]
  have hsend (c : Callback F) (hh : Held h o s top) : Held h o s ([HeapFrame.user, .running i c] ++ top) :=
    hh.push (t := (h, _)) ⟨le_rfl, rfl, fun n _ => hfs c n⟩
  cases c with
  | sendSuccess id => exact hsend _ hh.pop
  | sendError id e => exact hsend _ hh.pop
  | messageReceived data files =>
    refine deref_cases (P := fun t => Held t.1 o s (t.2 ++ top)) hh.raise fun _ => ?_
    refine messageReceived_cases (P := fun t => Held t.1 o s (t.2 ++ top)) hi.goods hi.core hi.called ?_ ?_
    · intro e next rest _
      have ht : Aside h o (h.setObject p { h.objects p with recvQueue_ := next :: rest }, _) :=
        aside_setObject rfl (hfs (.messageReceived data files))
      exact hh.pop.push ⟨ht.count, ht.socket, ht.frames⟩
    · intro e _
      have ht : Aside h o (h.setObject p { h.objects p with recvQueue_ := [], recvQueueTail_ := none }, _) :=
        aside_setObject rfl (hfs (.messageReceived data files))
      exact hh.pop.push ⟨ht.count, ht.socket, ht.frames⟩
  | eofReceived =>
    exact deref_cases (P := fun t => Held t.1 o s (t.2 ++ top)) hh.raise fun _ => hh.terminate rfl hi.core hi.goods
  | socketClosed =>
    exact deref_cases (P := fun t => Held t.1 o s (t.2 ++ top)) hh.raise fun _ => hh.terminate rfl hi.core hi.goods
  | receiveError e =>
    exact deref_cases (P := fun t => Held t.1 o s (t.2 ++ top)) hh.raise fun _ => hh.terminate rfl hi.core hi.goods

theorem aside_create {connected : Bool} (ho : o < h.objectCount) : Aside h o (h.create connected, []) := by
  have hne : o ≠ h.objectCount := by omega
  refine ⟨Nat.le_succ _, ?_, nofun⟩
  show ((h.setObject h.objectCount _).objects o).socket_ = _
  rw [setObject_objects_ne hne]

theorem aside_receive (hc : Core h st) (hg : Goods h st) : Aside h o (h.receive p) := by
  have ht : Aside h o (h.enqueue p, []) := by
    have hx : Aside { h with receives := h.receives + 1 } o (h.enqueue p, []) := aside_setObject rfl nofun
    exact ⟨hx.count, hx.socket, nofun⟩
  refine receive_cases (P := Aside h o) hc ?_ ?_ ?_
  · intro _
    exact ⟨le_rfl, rfl, nofun⟩
  · intro i _ _
    exact ht
  · intro i _ _
    have hg' : Goods (h.enqueue p) st := hg
    refine setReceiveCallback_cases (P := Aside h o) hg' ?_ ?_
    · intro _ e
      exact ⟨ht.count, ht.socket, nofun⟩
    · intro _ _
      exact ⟨ht.count, ht.socket, nofun⟩

theorem aside_send {msg : Message F} {allocated : Bool} (hc : Core h st) (hg : Goods h st) (hop : o ≠ p) :
    Aside h o (h.send p msg allocated) := by
  unfold FutureHeap.send
  split
  · rename_i i hi
    exact aside_onSocket hc (fun n hn => hc.socket_ne hop hi hn) fun c hm =>
      (UnixSocket.send_effect (hg i).inv (hg i).ledger).calls hm
  · exact ⟨le_rfl, rfl, nofun⟩

theorem aside_moveConstruct (ho : o < h.objectCount) (hop : o ≠ p) : Aside h o (h.moveConstruct p, []) := by
  have hne : o ≠ h.objectCount := by omega
  refine ⟨Nat.le_succ _, ?_, nofun⟩
  show (((h.setObject h.objectCount _).setObject p _).objects o).socket_ = _
  rw [setObject_objects_ne hop, setObject_objects_ne hne]

/-- `closeNow` on another object closes its socket and none else. -/
theorem aside_closeNow (hc : Core h st) (hg : Goods h st) (hop : o ≠ p) : Aside h o (h.closeNow p) :=
  aside_assignSocket h none hc hg hop le_rfl rfl rfl fun _ hi => hi

theorem aside_connectSuccess (hc : Core h st) (hg : Goods h st) (hop : o ≠ p) :
    Aside h o (h.connectSuccess p) := by
  have ht := aside_assignSocket { h with socketCount := h.socketCount + 1 } (some h.socketCount) hc hg hop le_rfl rfl rfl
    fun _ hi => hi
  have hfs : ∀ n, ∀ g ∈ [.moveQueue p none], HeapFrame.closes n o (g : HeapFrame F) = false := by
    simp [HeapFrame.closes]
  exact ht.append hfs

/-- A move assignment between two other objects leaves `o` alone. -/
theorem aside_moveAssign {other : ℕ} (hc : Core h st) (hg : Goods h st) (hop : o ≠ p) (hother : o ≠ other) :
    Aside h o (h.moveAssign p other) := by
  have hobj : ((h.setObject other { h.objects other with socket_ := none }).objects o).socket_ = (h.objects o).socket_ := by
    rw [setObject_objects_ne hother]
  have hp (i : ℕ) (hi : ((h.setObject other { h.objects other with socket_ := none }).objects p).socket_ = some i) :
      (h.objects p).socket_ = some i := by
    by_cases hpo : p = other
    · subst hpo
      simp at hi
    · rwa [setObject_objects_ne hpo] at hi
  have ht := aside_assignSocket (h.setObject other { h.objects other with socket_ := none }) (h.objects other).socket_
    hc hg hop le_rfl rfl hobj hp
  have hfs : ∀ n, ∀ g ∈ [.moveQueue p (some other)], HeapFrame.closes n o (g : HeapFrame F) = false := by
    simp [HeapFrame.closes]
  exact ht.append hfs

/-- The socket of `other` is not closed when object `o` gets it. -/
theorem held_moveAssign {other : ℕ} (hc : Core h st) (hg : Goods h st) (hl : (h.objects o).lifetime = .usable)
    (hsafe : (h.objects o).recvQueue_ = [] ∨ (h.objects other).socket_ = none) :
    Held (h.moveAssign o other).1 o (h.objects other).socket_ (h.moveAssign o other).2 where
  made := by
    have ho := (hc.owned o).made (by simp [hl])
    rw [FutureHeap.moveAssign, assignSocket_objectCount]
    exact ho
  socket := by rw [FutureHeap.moveAssign, assignSocket_objects, update_self]
  frames := by
    intro n hn g hg'
    -- a socket comes from `other`, so no receive is pending on `o`
    have hq : (h.objects o).recvQueue_ = [] := hsafe.resolve_right (by simp [hn])
    obtain hg' | hg' := List.mem_append.1 hg'
    · refine assignSocket_frames (P := fun g => g.closes n o = false) (fun i hi f hf => ?_) g hg'
      have hoo : o ≠ other := by
        rintro rfl
        simp at hi
      rw [setObject_objects_ne hoo] at hi
      have hin : i ≠ n := hc.socket_ne (Ne.symm hoo) hi hn
      cases f with
      | callback c =>
        -- the object has no receives, so it is not installed
        have hr := (retired_destroy (hg i).inv).calls hf
        exact absurd hq ((hc.owned o).routed i (hc.pointsTo hi hr)).2.1
      | _ => simpa [HeapFrame.ofFrame, HeapFrame.closes] using hin
    · obtain rfl := List.mem_singleton.1 hg'
      rfl

theorem aside_destroy (hc : Core h st) (hg : Goods h st) (hop : o ≠ p) : Aside h o (h.destroy p) := by
  have hobj {y : FutureObject} : ((h.setObject p y).objects o).socket_ = (h.objects o).socket_ := by
    rw [setObject_objects_ne hop]
  have hfs : ∀ n, ∀ g ∈ [.destructor p], HeapFrame.closes n o (g : HeapFrame F) = false := by
    have hpo : ¬ p = o := fun he => hop he.symm
    simp [HeapFrame.closes, hpo]
  unfold FutureHeap.destroy
  dsimp only
  split
  · rename_i i hi
    have hclose (n : ℕ) (hn : (h.objects o).socket_ = some n) :
        ∀ g ∈ (h.sockets i).socket.closeNow.2.map (HeapFrame.ofFrame i (h.sockets i).receiveCallback_),
          g.closes n o = false :=
      closes_ofFrame hc hn (hc.socket_ne hop hi hn) fun c hm => Or.inr ((retired_closeNow (hg i).inv).calls hm)
    exact Aside.append ⟨le_rfl, hobj, hclose⟩ hfs
  · exact ⟨le_rfl, hobj, fun n _ => hfs n⟩

end FutureHeap

/-! ### Steps above a caller -/

namespace HeapRunning

open FutureHeap

variable {K : Kernel F κ} {r r' : HeapRunning κ F} {a : HeapAct F} {f : HeapFrame F} {top base : List (HeapFrame F)}
  {o id : ℕ} {s : Option ℕ}

/-- **One frame** executed: the receives that are to fail are still followed. -/
theorem followed_exec (hi : FutureHeap.Inv r.heap (f :: (top ++ base))) (hst : r.stack = f :: (top ++ base))
    (hsafe : r.MoveSafe .run) (hf : Followed r.heap o id (f :: top)) :
    Followed (r.heap.exec K (top ++ base) f).1 o id ((r.heap.exec K (top ++ base) f).2 ++ top) := by
  simp only [MoveSafe, hst] at hsafe
  cases f with
  | socket i f =>
    have hdata : f.receives = false := (noData_cons.1 hf.data).1
    have ht : Gentle r.heap o (r.heap.exec K (top ++ base) (.socket i f)) := gentle_onSocket (UnixSocket.noData_exec hdata)
    exact (hf.pop rfl rfl).push ht.kept ht.data
  | handler i p c => exact hf.handle
  | running i c => exact hf.pop rfl rfl
  | failAllPromises p e =>
    exact deref_cases (P := fun t => Followed t.1 o id (t.2 ++ top)) hf.raise fun _ => hf.failAllPromises
  | failReceiveQueue callback ew => exact hf.failReceiveQueue
  | moveQueue p other =>
    refine moveQueue_cases (P := fun t => Followed t.1 o id (t.2 ++ top)) hsafe.1 hsafe.2 hf.raise ?_
    -- the queue that is overwritten has been emptied by a frame above
    have hf' : Followed r.heap o id top := by
      refine ⟨(noData_cons.1 hf.data).2, ?_⟩
      by_cases hop : o = p
      · subst hop
        exact hf.tracked.pop_nil hsafe.1 rfl
      · have hpo : ¬ p = o := fun he => hop he.symm
        exact hf.tracked.pop (by simp [HeapFrame.empties, hpo]) rfl
    exact hf'.push (.refl _ _) (by simp [FutureHeap.NoData, HeapFrame.receives])
  | dropQueue queue p other =>
    have hq : queue = [] := hi.called.1
    exact hi.dropQueue_cases (P := fun t => Followed t.1 o id (t.2 ++ top)) hf.raise (hf.pop rfl (by simp [HeapFrame.queue, hq]))
  | destructor p =>
    refine destructor_cases (P := fun t => Followed t.1 o id (t.2 ++ top)) hf.raise fun hq => ?_
    have hf' : Followed r.heap o id top := by
      refine ⟨(noData_cons.1 hf.data).2, ?_⟩
      by_cases hop : o = p
      · subst hop
        exact hf.tracked.pop_nil hq rfl
      · have hpo : ¬ p = o := fun he => hop he.symm
        exact hf.tracked.pop (by simp [HeapFrame.empties, hpo]) rfl
    have hk : Kept r.heap (r.heap.setObject p { r.heap.objects p with lifetime := .gone }) o := kept_setObject rfl
    exact hf'.push (hk.trans (kept_assignSocket _ p none o)) (noData_assignSocket _ p none)
  | user => exact hf.pop rfl rfl

/-- The frames above `base`, and the objects, have `I`. -/
def Above (base : List (HeapFrame F)) (I : FutureHeap κ F → List (HeapFrame F) → Prop) (r : HeapRunning κ F) : Prop :=
  ∃ top, r.stack = top ++ base ∧ I r.heap top

/-- **One step** above a caller keeps what is followed. -/
theorem followed_step (hi : FutureHeap.Inv r.heap r.stack) (hsafe : r.MoveSafe a) (hst : r.stack = f :: (top ++ base))
    (hf : Followed r.heap o id (f :: top)) (hstep : step K r a = some r') :
    Above base (fun h top => Followed h o id top) r' := by
  revert hsafe
  have hpush {t : FutureHeap κ F × List (HeapFrame F)} (ht : Gentle r.heap o t) :
      Above base (fun h top => Followed h o id top) (push t r.stack) :=
    ⟨t.2 ++ f :: top, by rw [push, hst]; simp, hf.push ht.kept ht.data⟩
  have hsame {h' : FutureHeap κ F} (ht : Gentle r.heap o (h', [])) :
      Above base (fun h top => Followed h o id top) ⟨h', r.stack⟩ := hpush ht
  refine step_cases (P := fun a r' => r.MoveSafe a → Above base (fun h top => Followed h o id top) r') hstep
    ?_ ?_ ?_ ?_ ?_ ?_ ?_ ?_ ?_ ?_ ?_ ?_ ?_ ?_ ?_ ?_
  · intro _ connected _
    exact hsame (gentle_create hi.core connected)
  · intro p _ _
    exact hpush (gentle_receive hi.core hi.goods)
  · intro p msg allocated _ _
    exact hpush gentle_send
  · intro p _ _
    exact hpush gentle_closeNow
  · intro p _ _
    exact hpush gentle_connectSuccess
  · intro p _ _
    exact ⟨f :: top, hst, hf⟩
  · intro p _ _
    exact hsame ⟨kept_of_eq rfl rfl, noData_nil⟩
  · intro other _ hq
    exact hsame (gentle_moveConstruct hi.core hq)
  · intro p other _ _ _
    exact hpush gentle_moveAssign
  · intro p _ _
    exact hpush gentle_destroy
  · intro k b p he
    simp [hst] at he
  · intro i events he
    simp [hst] at he
  · intro i he
    simp [hst] at he
  · intro p k e he
    simp [hst] at he
  · intro below he _
    rw [hst] at he
    obtain ⟨rfl, rfl⟩ := List.cons_eq_cons.1 he
    exact ⟨top, rfl, hf.pop rfl rfl⟩
  · intro g below he hsafe
    rw [hst] at he
    obtain ⟨rfl, rfl⟩ := List.cons_eq_cons.1 he
    rw [hst] at hi
    exact ⟨_, by rw [push, List.append_assoc], followed_exec hi hst hsafe hf⟩

/-- **One frame** executed: the socket is still held. -/
theorem held_exec (hi : FutureHeap.Inv r.heap (f :: (top ++ base))) (hst : r.stack = f :: (top ++ base))
    (hsafe : r.MoveSafe .run) (hh : Held r.heap o s (f :: top)) :
    Held (r.heap.exec K (top ++ base) f).1 o s ((r.heap.exec K (top ++ base) f).2 ++ top) := by
  simp only [MoveSafe, hst] at hsafe
  have hpop (fs : List (HeapFrame F)) (hfs : ∀ n, ∀ g ∈ fs, g.closes n o = false) : Held r.heap o s (fs ++ top) :=
    hh.pop.push (t := (r.heap, fs)) ⟨le_rfl, rfl, fun n _ => hfs n⟩
  cases f with
  | socket i f =>
    have hg := hi.goods i
    rw [FutureHeap.innerStack_cons, HeapFrame.inner, if_pos rfl] at hg
    refine hh.pop.push (aside_onSocket hi.core (fun n hn => ?_) fun c hm => (UnixSocket.exec_effect hg.inv).calls hm)
    simpa [HeapFrame.closes] using hh.frames n (hh.socket.symm.trans hn) _ List.mem_cons_self
  | handler i p c => exact hh.handle hi
  | running i c => exact hh.pop
  | failAllPromises p e =>
    refine deref_cases (P := fun t => Held t.1 o s (t.2 ++ top)) hh.raise fun _ => ?_
    exact hh.pop.push (aside_setObject rfl (by simp [HeapFrame.closes]))
  | failReceiveQueue callback ew =>
    cases callback with
    | nil => exact hh.pop
    | cons e next =>
      have hh' := hpop [.user, .failReceiveQueue next ew] (by simp [HeapFrame.closes])
      exact ⟨hh'.made, hh'.socket, hh'.frames⟩
  | moveQueue p other =>
    exact moveQueue_cases (P := fun t => Held t.1 o s (t.2 ++ top)) hsafe.1 hsafe.2 hh.raise
      (hpop [.dropQueue [] p other] (by simp [HeapFrame.closes]))
  | dropQueue queue p other => exact hi.dropQueue_cases (P := fun t => Held t.1 o s (t.2 ++ top)) hh.raise hh.pop
  | destructor p =>
    refine destructor_cases (P := fun t => Held t.1 o s (t.2 ++ top)) hh.raise fun _ => ?_
    by_cases hop : o = p
    · subst hop
      refine hh.reset (r.heap.setObject o { r.heap.objects o with lifetime := .gone }) ?_ rfl _
      cases s with
      | none => rfl
      | some n =>
        have := hh.frames n rfl _ List.mem_cons_self
        simp [HeapFrame.closes] at this
    · have hobj : ((r.heap.setObject p { r.heap.objects p with lifetime := .gone }).objects o).socket_ =
          (r.heap.objects o).socket_ := by rw [setObject_objects_ne hop]
      have hp (i : ℕ) (hp : ((r.heap.setObject p { r.heap.objects p with lifetime := .gone }).objects p).socket_ = some i) :
          (r.heap.objects p).socket_ = some i := by simpa using hp
      exact hh.pop.push (aside_assignSocket _ none hi.core hi.goods hop le_rfl rfl hobj hp)
  | user => exact hh.pop

/-- **One step** above a caller, not called on object `o`, leaves it its socket. -/
theorem held_step (hi : FutureHeap.Inv r.heap r.stack) (hsafe : r.MoveSafe a) (hnames : a.names o = false)
    (hst : r.stack = f :: (top ++ base)) (hh : Held r.heap o s (f :: top)) (hstep : step K r a = some r') :
    Above base (fun h top => Held h o s top) r' := by
  revert hsafe hnames
  have hc := hi.core
  have hg := hi.goods
  have hpush {t : FutureHeap κ F × List (HeapFrame F)} (ht : Aside r.heap o t) :
      Above base (fun h top => Held h o s top) (push t r.stack) :=
    ⟨t.2 ++ f :: top, by rw [push, hst]; simp, hh.push ht⟩
  have hsame {h' : FutureHeap κ F} (ht : Aside r.heap o (h', [])) :
      Above base (fun h top => Held h o s top) ⟨h', r.stack⟩ := hpush ht
  have hne {p : ℕ} (hp : decide (p = o) = false) : o ≠ p := fun he => of_decide_eq_false hp he.symm
  refine step_cases (P := fun a r' => r.MoveSafe a → a.names o = false → Above base (fun h top => Held h o s top) r')
    hstep ?_ ?_ ?_ ?_ ?_ ?_ ?_ ?_ ?_ ?_ ?_ ?_ ?_ ?_ ?_ ?_
  · intro _ connected _ _
    exact hsame (aside_create hh.made)
  · intro p _ _ _
    exact hpush (aside_receive hc hg)
  · intro p msg allocated _ _ hp
    exact hpush (aside_send hc hg (hne hp))
  · intro p _ _ hp
    exact hpush (aside_closeNow hc hg (hne hp))
  · intro p _ _ hp
    exact hpush (aside_connectSuccess hc hg (hne hp))
  · intro p _ _ _
    exact ⟨f :: top, hst, hh⟩
  · intro p _ _ _
    exact hsame ⟨le_rfl, rfl, nofun⟩
  · intro other _ _ hp
    exact hsame (aside_moveConstruct hh.made (hne hp))
  · intro p other _ _ _ hp
    obtain ⟨hp, hother⟩ := Bool.or_eq_false_iff.1 hp
    exact hpush (aside_moveAssign hc hg (hne hp) (hne hother))
  · intro p _ _ hp
    exact hpush (aside_destroy hc hg (hne hp))
  · intro k b p he
    simp [hst] at he
  · intro i events he
    simp [hst] at he
  · intro i he
    simp [hst] at he
  · intro p k e he
    simp [hst] at he
  · intro below he _ _
    rw [hst] at he
    obtain ⟨rfl, rfl⟩ := List.cons_eq_cons.1 he
    exact ⟨top, rfl, hh.pop⟩
  · intro g below he hsafe _
    rw [hst] at he
    obtain ⟨rfl, rfl⟩ := List.cons_eq_cons.1 he
    rw [hst] at hi
    exact ⟨_, by rw [push, List.append_assoc], held_exec hi hst hsafe hh⟩

/-! ### Runs above a caller -/

/-- Every run with `G` that returns to the caller, whose frames are `base`, ends in a state with `P`. -/
def Returns (K : Kernel F κ) (G : HeapRunning κ F → HeapAct F → Prop) (base : List (HeapFrame F))
    (r : HeapRunning κ F) (P : HeapRunning κ F → Prop) : Prop :=
  ∀ acts r', AllSteps (step K) (fun r a => G r a ∧ base.length < r.stack.length) r acts →
    run (step K) r acts = some r' → r'.stack.length ≤ base.length → P r'

/-- What each step above the caller keeps holds when the call has returned. -/
theorem returns_of {G : HeapRunning κ F → HeapAct F → Prop} {I : FutureHeap κ F → List (HeapFrame F) → Prop}
    {P : HeapRunning κ F → Prop} (hG : ∀ r a, G r a → r.MoveSafe a)
    (hI : ∀ r a r' f top, FutureHeap.Inv r.heap r.stack → G r a → r.stack = f :: (top ++ base) →
      I r.heap (f :: top) → step K r a = some r' → Above base I r')
    (hP : ∀ r : HeapRunning κ F, FutureHeap.Inv r.heap r.stack → I r.heap [] → P r)
    (hi : FutureHeap.Inv r.heap r.stack) (ha : Above base I r) : Returns K G base r P := by
  intro acts r' hsafe hrun hlen
  have hstep (r : HeapRunning κ F) (a : HeapAct F) (r' : HeapRunning κ F)
      (hr : FutureHeap.Inv r.heap r.stack ∧ Above base I r) (hg : G r a ∧ base.length < r.stack.length)
      (hs : step K r a = some r') : FutureHeap.Inv r'.heap r'.stack ∧ Above base I r' := by
    obtain ⟨hi, top, hst, hIt⟩ := hr
    refine ⟨inv_step hi (hG r a hg.1) hs, ?_⟩
    cases top with
    | nil => simp [hst] at hg
    | cons f top => exact hI r a r' f top hi hg.1 hst hIt hs
  obtain ⟨hi', top, hst, hIt⟩ := run_guarded hstep acts ⟨hi, ha⟩ hsafe hrun
  obtain rfl : top = [] := by
    rw [hst, List.length_append] at hlen
    exact List.length_eq_zero_iff.1 (by omega)
  exact hP r' hi' hIt

/-- The future has been completed with an error, and not again. -/
def FailedOnce (r : HeapRunning κ F) (id : ℕ) : Prop :=
  r.heap.Failed id ∧ (r.heap.completed.map Prod.fst).count id = 1

/-- No future is completed twice. -/
theorem nodup_completed (hi : FutureHeap.Inv r.heap r.stack) : (r.heap.completed.map Prod.fst).Nodup := by
  refine List.nodup_iff_count_le_one.2 fun id => ?_
  have hplace := hi.places id
  have hrange := List.nodup_iff_count_le_one.1 (List.nodup_range (n := r.heap.receives)) id
  omega

/-- So a future that has failed has failed once. -/
theorem failedOnce_of_failed (hi : FutureHeap.Inv r.heap r.stack) (hf : r.heap.Failed id) : r.FailedOnce id := by
  refine ⟨hf, ?_⟩
  obtain ⟨ew, hm⟩ := hf
  exact List.count_eq_one_of_mem (nodup_completed hi) (List.mem_map.2 ⟨_, hm, rfl⟩)

/-- A future that is followed has failed when the call has returned. -/
theorem returns_failed (hi : FutureHeap.Inv r.heap r.stack)
    (ha : Above base (fun h top => Followed h o id top) r) : Returns K MoveSafe base r fun r' => r'.FailedOnce id := by
  refine returns_of (fun _ _ hs => hs) (fun r a r' f top hi hs hst hf hstep => followed_step hi hs hst hf hstep)
    (fun r hi hf => failedOnce_of_failed hi ?_) hi ha
  simpa [Tracked] using hf.tracked

/-! ### What is wanted of moves -/

/-- The receives pending on object `o` in `r` have each failed once. -/
def FailsAll (r : HeapRunning κ F) (o : ℕ) (r' : HeapRunning κ F) : Prop :=
  ∀ e ∈ (r.heap.objects o).recvQueue_, r'.FailedOnce e.promise_

/-- A step has changed no object but `o`. -/
def OnlyObject (r : HeapRunning κ F) (o : ℕ) (r' : HeapRunning κ F) : Prop :=
  ∀ p, p ≠ o → r'.heap.objects p = r.heap.objects p

/-- What is wanted when objects are moved, with steps that meet `G`. -/
structure MoveContract (K : Kernel F κ) (G : HeapRunning κ F → HeapAct F → Prop) (r : HeapRunning κ F) : Prop where
  /-- The receive callback of a socket is the object that has it. -/
  holder : ∀ i o, r.heap.PointsTo i o →
    (r.heap.objects o).socket_ = some i ∧ (r.heap.objects o).recvQueue_ ≠ [] ∧ (r.heap.objects o).lifetime = .usable
  unique : ∀ i o p, (r.heap.objects o).socket_ = some i → (r.heap.objects p).socket_ = some i → o = p
  /-- The timeout of a receive calls the object whose queue it is in. -/
  entries : ∀ o, ∀ e ∈ (r.heap.objects o).recvQueue_, e.socket_ = o
  freed : ∀ o, (r.heap.objects o).lifetime = .gone →
    (r.heap.objects o).socket_ = none ∧ (r.heap.objects o).recvQueue_ = []
  once : (r.heap.completed.map Prod.fst).Nodup
  /-- A message completes the first receive of the object that has the socket. -/
  message : ∀ i o data files below r', r.stack = .handler i o (.messageReceived data files) :: below →
    step K r .run = some r' →
    (r.heap.objects o).socket_ = some i ∧ (r.heap.objects o).lifetime = .usable ∧ OnlyObject r o r' ∧
      ∃ e rest, (r.heap.objects o).recvQueue_ = e :: rest ∧ (r'.heap.objects o).recvQueue_ = rest ∧
        r'.heap.completed = r.heap.completed ++ [(e.promise_, Except.ok (data, files))]
  /-- EOF or an error fails the receives of the object that has the socket. -/
  ended : ∀ i o c below r', r.stack = .handler i o c :: below → (c = .eofReceived ∨ ∃ e, c = .receiveError e) →
    step K r .run = some r' →
    (r.heap.objects o).socket_ = some i ∧ (r.heap.objects o).lifetime = .usable ∧ OnlyObject r o r' ∧
      Returns K G below r' (FailsAll r o)
  /-- A timeout fails the receives of the object whose queue the entry is in. -/
  timeout : ∀ o k r', step K r (.receiveTimeout o k) = some r' →
    (r.heap.objects o).lifetime ≠ .gone ∧ OnlyObject r o r' ∧ Returns K G [] r' (FailsAll r o)
  constructed : ∀ other r', G r (.moveConstruct other) → step K r (.moveConstruct other) = some r' →
    (r'.heap.objects r.heap.objectCount).socket_ = (r.heap.objects other).socket_ ∧
      (r'.heap.objects r.heap.objectCount).recvQueue_ = (r.heap.objects other).recvQueue_ ∧
      (r'.heap.objects r.heap.objectCount).lifetime = .usable ∧
      (r'.heap.objects other).socket_ = none ∧ (r'.heap.objects other).recvQueue_ = []
  /-- When the assignment returns, the receives of the object that is overwritten have
  failed, and unless user code has called the object, it has the socket. -/
  assigned : ∀ o other r', G r (.moveAssign o other) → step K r (.moveAssign o other) = some r' →
    Returns K G r.stack r' (FailsAll r o) ∧
      Returns K (fun r a => G r a ∧ a.names o = false) r.stack r' fun r'' =>
        (r''.heap.objects o).socket_ = (r.heap.objects other).socket_

theorem step_run {below : List (HeapFrame F)} (hst : r.stack = f :: below) (hf : f ≠ .user)
    (hstep : step K r .run = some r') : r' = push (r.heap.exec K below f) below := by
  have hfault := fault_none hstep
  simp only [step] at hstep
  rw [if_neg (by simp [hfault])] at hstep
  rw [hst] at hstep
  cases f with
  | user => exact absurd rfl hf
  | _ => exact (Option.some.inj hstep).symm

/-- **A message** goes to the object that has the socket, and to its first pending receive. -/
theorem contract_message {i : ℕ} {data : Bytes} {files : List F} {below : List (HeapFrame F)}
    (hi : FutureHeap.Inv r.heap r.stack) (hst : r.stack = .handler i o (.messageReceived data files) :: below)
    (hstep : step K r .run = some r') :
    (r.heap.objects o).socket_ = some i ∧ (r.heap.objects o).lifetime = .usable ∧ OnlyObject r o r' ∧
      ∃ e rest, (r.heap.objects o).recvQueue_ = e :: rest ∧ (r'.heap.objects o).recvQueue_ = rest ∧
        r'.heap.completed = r.heap.completed ++ [(e.promise_, Except.ok (data, files))] := by
  rw [hst] at hi
  have hpt : r.heap.PointsTo i o := hi.called
  obtain ⟨hs, -, hl⟩ := (hi.core.owned o).routed i hpt
  obtain rfl := step_run hst nofun hstep
  refine ⟨hs, hl, ?_⟩
  have hexec : r.heap.exec K below (.handler i o (.messageReceived data files)) = r.heap.messageReceived i o data files :=
    if_neg (by simp [hl])
  rw [hexec]
  refine messageReceived_cases (P := fun t => OnlyObject r o (push t below) ∧ ∃ e rest,
    (r.heap.objects o).recvQueue_ = e :: rest ∧ ((push t below).heap.objects o).recvQueue_ = rest ∧
      (push t below).heap.completed = r.heap.completed ++ [(e.promise_, Except.ok (data, files))]) hi.goods hi.core hpt ?_ ?_
  · intro e next rest hq
    exact ⟨fun p hp => setObject_objects_ne hp, e, next :: rest, hq, by simp [push, complete], rfl⟩
  · intro e hq
    exact ⟨fun p hp => setObject_objects_ne hp, e, [], hq, by simp [push, complete], rfl⟩

/-- **The end of a socket** fails all receives of the object that has it. -/
theorem contract_ended {i : ℕ} {c : Callback F} {below : List (HeapFrame F)} (hi : FutureHeap.Inv r.heap r.stack)
    (hst : r.stack = .handler i o c :: below) (hc : c = .eofReceived ∨ ∃ e, c = .receiveError e)
    (hstep : step K r .run = some r') :
    (r.heap.objects o).socket_ = some i ∧ (r.heap.objects o).lifetime = .usable ∧ OnlyObject r o r' ∧
      Returns K MoveSafe below r' (FailsAll r o) := by
  have hsafe : r.MoveSafe .run := by simp [MoveSafe, hst]
  have hi' := inv_step hi hsafe hstep
  rw [hst] at hi
  obtain ⟨hs, hl⟩ : (r.heap.objects o).socket_ = some i ∧ (r.heap.objects o).lifetime = .usable := by
    obtain rfl | ⟨e, rfl⟩ := hc
    · have hpt : r.heap.PointsTo i o := hi.called
      exact ⟨((hi.core.owned o).routed i hpt).1, ((hi.core.owned o).routed i hpt).2.2⟩
    · exact ⟨hi.called.1, hi.called.2.2⟩
  obtain ⟨e, hexec⟩ : ∃ e, r.heap.exec K below (.handler i o c) = r.heap.terminate i o c e := by
    obtain rfl | ⟨e, rfl⟩ := hc
    · exact ⟨_, if_neg (by simp [hl])⟩
    · exact ⟨_, if_neg (by simp [hl])⟩
  obtain rfl := step_run hst (fun h => by cases h) hstep
  refine ⟨hs, hl, fun p hp => ?_, fun acts r' hsafe hrun hlen e' he => ?_⟩
  · rw [hexec]
    exact assignSocket_objects_ne hp
  -- each receive pending is in the queue that this callback empties
  · have hf : Followed r.heap o e'.promise_ [.handler i o c] := by
      refine ⟨?_, Or.inl ⟨List.mem_map_of_mem he, .handler i o c, by simp, ?_⟩⟩
      · obtain rfl | ⟨e, rfl⟩ := hc <;> simp [FutureHeap.NoData, HeapFrame.receives, Frame.receives]
      · obtain rfl | ⟨e, rfl⟩ := hc <;> simp [HeapFrame.empties, Callback.isEnd]
    have hf' : Followed (r.heap.exec K below (.handler i o c)).1 o e'.promise_ (r.heap.exec K below (.handler i o c)).2 := by
      rw [hexec]
      simpa using hf.terminate (e := e)
    exact returns_failed hi' ⟨_, rfl, hf'⟩ acts r' hsafe hrun hlen

/-- **A timeout** fails all receives of the object in whose queue it is. -/
theorem contract_timeout {k : ℕ} (hi : FutureHeap.Inv r.heap r.stack) (hstep : step K r (.receiveTimeout o k) = some r') :
    (r.heap.objects o).lifetime ≠ .gone ∧ OnlyObject r o r' ∧ Returns K MoveSafe [] r' (FailsAll r o) := by
  have hsafe : r.MoveSafe (.receiveTimeout o k) := trivial
  have hi' := inv_step hi hsafe hstep
  obtain ⟨e, hk, rfl⟩ : ∃ e, (r.heap.objects o).recvQueue_[k]? = some e ∧
      push (r.heap.deref e.socket_ [] (r.heap.receiveTimeout e.socket_)) [] = r' := by
    have hfault := fault_none hstep
    simp only [step] at hstep
    rw [if_neg (by simp [hfault])] at hstep
    split at hstep
    · split at hstep
      · cases hstep
      · rename_i e he
        exact ⟨e, he, Option.some.inj hstep⟩
    · cases hstep
  have hm : e ∈ (r.heap.objects o).recvQueue_ := List.mem_of_getElem? hk
  -- the entry calls the object whose queue it is in
  have he : e.socket_ = o := (hi.core.owned o).entries e hm
  have hl : (r.heap.objects o).lifetime ≠ .gone := by
    intro hg
    rw [((hi.core.owned o).gone hg).2] at hm
    cases hm
  rw [he] at hi' ⊢
  have hderef : r.heap.deref o [] (r.heap.receiveTimeout o) = r.heap.receiveTimeout o := if_neg hl
  rw [hderef] at hi' ⊢
  refine ⟨hl, fun p hp => ?_, fun acts r' hsafe hrun hlen e' he' => ?_⟩
  · exact (assignSocket_objects_ne hp).trans (setObject_objects_ne hp)
  · have hfs : FutureHeap.NoData [HeapFrame.failReceiveQueue (F := F) (r.heap.objects o).recvQueue_ (.error .timeout)] := by
      simp [FutureHeap.NoData, HeapFrame.receives]
    have hid : e'.promise_ ∈ FutureHeap.draining (r.heap.receiveTimeout o).2 := by
      rw [FutureHeap.receiveTimeout, FutureHeap.draining_append]
      exact List.mem_append_right _ (by simpa [HeapFrame.queue] using List.mem_map_of_mem he')
    have hf : Followed (r.heap.receiveTimeout o).1 o e'.promise_ (r.heap.receiveTimeout o).2 :=
      ⟨noData_append.2 ⟨noData_assignSocket _ _ _, hfs⟩, Or.inr (Or.inl hid)⟩
    exact returns_failed hi' ⟨_, rfl, hf⟩ acts r' hsafe hrun hlen

/-- **A move assignment**: the receives that were pending on the target fail, and it has the other's
socket. -/
theorem contract_assigned {other : ℕ} (hi : FutureHeap.Inv r.heap r.stack) (hsafe : r.MoveSafe (.moveAssign o other))
    (hstep : step K r (.moveAssign o other) = some r') :
    Returns K MoveSafe r.stack r' (FailsAll r o) ∧
      Returns K (fun r a => r.MoveSafe a ∧ a.names o = false) r.stack r' fun r'' =>
        (r''.heap.objects o).socket_ = (r.heap.objects other).socket_ := by
  have hi' := inv_step hi hsafe hstep
  obtain ⟨⟨ho, -⟩, rfl⟩ : (r.mayCall o = true ∧ r.mayCall other = true) ∧
      push (r.heap.moveAssign o other) r.stack = r' := by
    have hfault := fault_none hstep
    simp only [step] at hstep
    rw [if_neg (by simp [hfault])] at hstep
    simpa using hstep
  constructor
  · intro acts r'' hs hrun hlen e he
    have ht : Gentle r.heap o (r.heap.moveAssign o other) := gentle_moveAssign
    -- the receives are still in the queue when the assignment comes to it
    have hmove : ∃ g ∈ (r.heap.moveAssign o other).2, g.empties o = true :=
      ⟨.moveQueue o (some other), List.mem_append_right _ (List.mem_singleton_self _), by simp [HeapFrame.empties]⟩
    have hf : Followed (r.heap.moveAssign o other).1 o e.promise_ (r.heap.moveAssign o other).2 :=
      ⟨ht.data, Or.inl ⟨List.map_subset _ ht.kept.queue (List.mem_map_of_mem he), hmove⟩⟩
    exact returns_failed hi' ⟨_, rfl, hf⟩ acts r'' hs hrun hlen
  · have hh := held_moveAssign hi.core hi.goods (mayCall_iff.1 ho).2 hsafe.2
    exact returns_of (fun _ _ hs => hs.1)
      (fun r a r' f top hi hs hst hh hstep => held_step hi hs.1 hs.2 hst hh hstep) (fun _ _ hh => hh.socket) hi' ⟨_, rfl, hh⟩

/-- **A move construction** hands over socket and queue. -/
theorem contract_constructed {other : ℕ} (hi : FutureHeap.Inv r.heap r.stack)
    (hstep : step K r (.moveConstruct other) = some r') :
    (r'.heap.objects r.heap.objectCount).socket_ = (r.heap.objects other).socket_ ∧
      (r'.heap.objects r.heap.objectCount).recvQueue_ = (r.heap.objects other).recvQueue_ ∧
      (r'.heap.objects r.heap.objectCount).lifetime = .usable ∧
      (r'.heap.objects other).socket_ = none ∧ (r'.heap.objects other).recvQueue_ = [] := by
  obtain ⟨hm, rfl⟩ : r.mayCall other = true ∧ ⟨r.heap.moveConstruct other, r.stack⟩ = r' := by
    have hfault := fault_none hstep
    simp only [step] at hstep
    rw [if_neg (by simp [hfault])] at hstep
    simpa using hstep
  have hlt := (hi.core.owned other).made (by simp [(mayCall_iff.1 hm).2])
  have hne : r.heap.objectCount ≠ other := by omega
  simp [FutureHeap.moveConstruct, FutureHeap.setObject, update_of_ne hne]

/-- The invariant gives the contract. -/
theorem moveContract_of_inv (hi : FutureHeap.Inv r.heap r.stack) : r.MoveContract K MoveSafe where
  holder := fun i o => (hi.core.owned o).routed i
  unique := fun _ _ _ ho hp => (hi.core.eq_of_socket ho hp).symm
  entries := fun o => (hi.core.owned o).entries
  freed := fun o => (hi.core.owned o).gone
  once := nodup_completed hi
  message := fun _ _ _ _ _ _ hst hstep => contract_message hi hst hstep
  ended := fun _ _ _ _ _ hst hc hstep => contract_ended hi hst hc hstep
  timeout := fun _ _ _ hstep => contract_timeout hi hstep
  constructed := fun _ _ _ hstep => contract_constructed hi hstep
  assigned := fun _ _ _ hsafe hstep => contract_assigned hi hsafe hstep

/-- **Moves**: in every run whose steps meet `MoveSafe`, what comes from a socket goes to the
object that has it and to the receives in its queue, an object that is moved gives its
socket to the other, and the receives that were pending on an object that is overwritten
each fail once. -/
theorem move_contract (K : Kernel F κ) (kernels : ℕ → κ) (acts : List (HeapAct F)) (r : HeapRunning κ F)
    (hsafe : AllSteps (step K) MoveSafe (new kernels) acts) (hrun : run (step K) (new kernels) acts = some r) :
    r.MoveContract K MoveSafe :=
  moveContract_of_inv <|
    run_guarded (I := fun r => FutureHeap.Inv r.heap r.stack) (fun _ _ _ hi hs hstep => inv_step hi hs hstep) acts
      (.new kernels) hsafe hrun

/-- An object with a receive pending is overwritten by one without a socket, and then by one
that has a socket. -/
theorem move_contract_assigned :
    ∃ r : HeapRunning Unit ℕ,
      run (step resetPeer) (new fun _ => ())
          [.create true, .receive 0, .create false, .moveAssign 0 1, .run, .run, .run, .ret, .run, .run, .run, .run,
            .run, .run, .create true, .moveAssign 0 2, .run, .run, .receive 0] = some r ∧
        r.heap.installed 0 = true ∧ r.FailedOnce 0 ∧ r.MoveContract resetPeer MoveSafe := by
  refine ⟨_, rfl, rfl, ⟨⟨_, List.mem_singleton_self _⟩, rfl⟩, ?_⟩
  refine move_contract resetPeer (fun _ => ())
    [.create true, .receive 0, .create false, .moveAssign 0 1, .run, .run, .run, .ret, .run, .run, .run, .run, .run,
      .run, .create true, .moveAssign 0 2, .run, .run, .receive 0] _ ?_ rfl
  iterate 19 rw [allSteps_cons rfl]
  exact ⟨trivial, trivial, trivial, ⟨rfl, Or.inr rfl⟩, trivial, rfl, trivial, trivial, trivial, trivial, trivial, trivial,
    ⟨rfl, rfl⟩, trivial, trivial, ⟨rfl, Or.inl rfl⟩, ⟨rfl, rfl⟩, trivial, trivial, trivial⟩

/-- What is asked of a run is needed. An object is constructed from one with a receive
pending, whose timeout is then lost. An object is assigned one with a receive pending. An
object with a receive pending is assigned one with a socket, and loses it. A continuation
queues a receive on the object that is assigned, or on one whose `eofReceived` is under
way. -/
theorem move_contract_broken :
    (∃ r r' : HeapRunning Unit ℕ,
      run (step resetPeer) (new fun _ => ()) [.create true, .receive 0, .moveConstruct 0] = some r ∧
        ¬ r.MoveContract resetPeer (fun _ _ => True) ∧
        run (step resetPeer) r [.receiveTimeout 1 0, .run] = some r' ∧ r'.stack = [] ∧ r'.heap.completed = []) ∧
    (∃ r : HeapRunning Unit ℕ,
      run (step resetPeer) (new fun _ => ())
          [.create true, .receive 0, .create false, .moveAssign 1 0, .run, .run] = some r ∧
        r.stack = [] ∧ ¬ r.MoveContract resetPeer (fun _ _ => True)) ∧
    (∃ r : HeapRunning Unit ℕ,
      run (step resetPeer) (new fun _ => ()) [.create true, .create true, .receive 0] = some r ∧
        ¬ r.MoveContract resetPeer (fun _ _ => True)) ∧
    (∃ r : HeapRunning Unit ℕ,
      run (step resetPeer) (new fun _ => ())
          [.create true, .create true, .send 0 ⟨[], []⟩ true, .run, .moveAssign 0 1, .run, .run, .receive 0, .ret, .run,
            .run, .run, .run] = some r ∧
        ¬ r.MoveContract resetPeer (fun _ _ => True)) ∧
    ∃ r : HeapRunning Unit ℕ,
      run (step closedPeer) (new fun _ => ())
          [.create true, .receive 0, .ready 0 ⟨true, false⟩, .run, .run, .run, .run, .run, .connect 0 .connected, .run,
            .run, .receive 0, .ret, .run, .run, .run, .run, .run] = some r ∧
        ¬ r.MoveContract closedPeer (fun _ _ => True) := by
  refine ⟨⟨_, _, rfl, ?_, rfl, rfl, rfl⟩, ⟨_, rfl, rfl, ?_⟩, ⟨_, rfl, ?_⟩, ⟨_, rfl, ?_⟩, ⟨_, rfl, ?_⟩⟩
  · intro h
    have hs : none = some 0 := (h.holder 0 0 ⟨rfl, rfl⟩).1
    cases hs
  · intro h
    have hs : none = some 0 := (h.holder 0 0 ⟨rfl, rfl⟩).1
    cases hs
  · intro h
    have hs : none = some 1 := by
      refine (h.assigned 0 1 _ trivial rfl).2
        [.run, .run, .run, .run, .run, .ret, .run, .run, .run, .run, .run, .run] _ ?_ rfl le_rfl
      have habove {n : ℕ} : (True ∧ (false = false)) ∧ 0 < n + 1 := ⟨⟨trivial, rfl⟩, Nat.succ_pos n⟩
      iterate 12 rw [allSteps_cons rfl]
      exact ⟨habove, habove, habove, habove, habove, habove, habove, habove, habove, habove, habove, habove, trivial⟩
    cases hs
  · intro h
    exact (h.holder 1 0 ⟨rfl, rfl⟩).2.1 rfl
  · intro h
    exact (h.holder 1 0 ⟨rfl, rfl⟩).2.1 rfl

end HeapRunning

end EdenCommon
