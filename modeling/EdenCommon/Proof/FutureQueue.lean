import EdenCommon.Proof.FutureHeapSteps

/-!
# The receive queue of a `FutureUnixSocket`

The queue of an object is not empty only while the object is installed, or while what is
next empties it without running user code (`Doomed`). Of an object whose destructor has
been called, a call of `failAllPromises` above the destructor is enough (`Clearing`),
because user code does not call it any more.

`queue_contract`: this, for every run without moves in which `receive` is not called on an
object whose socket has closed itself, and no receives are dropped from an object that is
installed. `queue_contract_broken` has a run for each of the two conditions.
-/

namespace EdenCommon

open Lib Function

variable {F κ : Type}

/-- The frame goes without a call of user code. -/
def UnixSocket.silent (s : UnixSocket κ F) : Frame F → Bool
  | .destroyEnd => true
  | .failAllSends _ _ => s.sendQueue_.isEmpty
  | _ => false

namespace HeapFrame

/-- The frame empties the queue of object `o`. -/
def clears (o : ℕ) : HeapFrame F → Bool
  | .handler _ p .socketClosed => p = o
  | .failAllPromises p _ => p = o
  | _ => false

def isDestructor (o : ℕ) : HeapFrame F → Bool
  | .destructor p => p = o
  | _ => false

@[simp] theorem ofFrame_isDestructor (i p o : ℕ) (f : Frame F) : (ofFrame i p f).isDestructor o = false := by
  cases f <;> rfl

end HeapFrame

namespace FutureHeap

variable {h h' : FutureHeap κ F} {st st' : List (HeapFrame F)} {o p i : ℕ} {x y : FutureObject} {t : UnixSocket κ F}

/-- What is next empties the queue of object `o`, and closes the socket that it may have
been given in the meantime. -/
def Doomed (h : FutureHeap κ F) (o : ℕ) : List (HeapFrame F) → Prop
  | .handler _ p (.receiveError _) :: _ => p = o
  | .handler _ p .socketClosed :: _ =>
    p = o ∧ ∀ n, (h.objects o).socket_ = some n →
      (h.sockets n).socket.sendQueue_ = [] ∧ (h.sockets n).socket.receiveCallback_ = false
  | .failAllPromises p _ :: _ => p = o
  | .socket i f :: st => (h.sockets i).socket.silent f = true ∧ Doomed h o st
  | _ => False

/-- What empties the queue of object `o` is above its destructor. -/
def Clearing (o : ℕ) : List (HeapFrame F) → Prop
  | [] => False
  | g :: st => g.clears o = true ∨ (g.isDestructor o = false ∧ Clearing o st)

/-- The destructor of object `o` is under way exactly once, or not at all. -/
def Dying (h : FutureHeap κ F) (st : List (HeapFrame F)) (o : ℕ) : Prop :=
  st.countP (HeapFrame.isDestructor o) = if (h.objects o).lifetime = .closing then 1 else 0

/-- The receives of object `o` wait for its socket. -/
structure Settled (h : FutureHeap κ F) (st : List (HeapFrame F)) (o : ℕ) : Prop where
  usable : (h.objects o).recvQueue_ ≠ [] → (h.objects o).lifetime = .usable → ∃ i, h.PointsTo i o
  closing : (h.objects o).recvQueue_ ≠ [] → (h.objects o).lifetime = .closing → Clearing o st
  dying : Dying h st o

/-- The same, up to what is next. -/
structure Waits (h : FutureHeap κ F) (st : List (HeapFrame F)) (o : ℕ) : Prop where
  usable : (h.objects o).recvQueue_ ≠ [] → (h.objects o).lifetime = .usable →
    (∃ i, h.PointsTo i o) ∨ Doomed h o st
  closing : (h.objects o).recvQueue_ ≠ [] → (h.objects o).lifetime = .closing → Clearing o st
  dying : Dying h st o

/-! ### Frames above -/

/-- What is known of object `o` from the stack stays so. -/
structure Keeps (o : ℕ) (st st' : List (HeapFrame F)) : Prop where
  clearing : Clearing o st → Clearing o st'
  destructors : st'.countP (HeapFrame.isDestructor o) = st.countP (HeapFrame.isDestructor o)

theorem Keeps.refl (o : ℕ) (st : List (HeapFrame F)) : Keeps o st st := ⟨id, rfl⟩

theorem Keeps.trans {st'' : List (HeapFrame F)} (h1 : Keeps o st st') (h2 : Keeps o st' st'') : Keeps o st st'' :=
  ⟨fun hc => h2.clearing (h1.clearing hc), h2.destructors.trans h1.destructors⟩

/-- No destructor comes. -/
theorem keeps_append {fs : List (HeapFrame F)} (hfs : ∀ g ∈ fs, g.isDestructor o = false) : Keeps o st (fs ++ st) := by
  induction fs with
  | nil => exact .refl o st
  | cons g fs ih =>
    obtain ⟨hg, hfs⟩ := List.forall_mem_cons.1 hfs
    refine (ih hfs).trans ⟨fun hc => Or.inr ⟨hg, hc⟩, ?_⟩
    simp [hg]

theorem keeps_ofFrame (i p o : ℕ) (fs : List (Frame F)) (st : List (HeapFrame F)) :
    Keeps o st (fs.map (HeapFrame.ofFrame i p) ++ st) :=
  keeps_append (by simp)

/-- A frame goes that neither is the destructor nor clears the queue. -/
theorem keeps_tail {g : HeapFrame F} (hc : g.clears o = false) (hd : g.isDestructor o = false) :
    Keeps o (g :: st) st := by
  constructor
  · rintro (hg | hg)
    · simp [hc] at hg
    · exact hg.2
  · simp [hd]

/-- A queue that is settled is not about to be failed. -/
theorem Settled.waits (hs : Settled h st o) : Waits h st o where
  usable := fun hq hl => Or.inl (hs.usable hq hl)
  closing := hs.closing
  dying := hs.dying

/-- Where the object's socket has not ended, waiting comes down to being settled. -/
theorem Waits.settled (hw : Waits h st o) (hd : ¬ Doomed h o st) : Settled h st o where
  usable := fun hq hl => (hw.usable hq hl).resolve_right hd
  closing := hw.closing
  dying := hw.dying

theorem Dying.congr (hd : Dying h st o)
    (hst : st'.countP (HeapFrame.isDestructor o) = st.countP (HeapFrame.isDestructor o))
    (hl : (h'.objects o).lifetime = (h.objects o).lifetime) : Dying h' st' o := by
  rw [Dying, hst, hl]
  exact hd

/-- The frames may change as long as those that matter for the object are the same. -/
theorem Settled.stack (hs : Settled h st o) (hk : Keeps o st st') : Settled h st' o where
  usable := hs.usable
  closing := fun hq hl => hk.clearing (hs.closing hq hl)
  dying := hs.dying.congr hk.destructors rfl

/-- An empty queue waits for nothing. -/
theorem settled_nil (hq : (h.objects o).recvQueue_ = []) (hd : Dying h st o) : Settled h st o :=
  ⟨fun hne => absurd hq hne, fun hne => absurd hq hne, hd⟩

/-- The object has the queue it had, and its socket points to it or what is next empties the
queue. -/
theorem Settled.step (hs : Settled h st o) (hq : (h'.objects o).recvQueue_ = (h.objects o).recvQueue_)
    (hl : (h'.objects o).lifetime = (h.objects o).lifetime)
    (hpt : ∀ i, h.PointsTo i o → (∃ j, h'.PointsTo j o) ∨ Doomed h' o st') (hk : Keeps o st st') :
    Waits h' st' o where
  usable := by
    rw [hq, hl]
    intro hne hu
    obtain ⟨i, hi⟩ := hs.usable hne hu
    exact hpt i hi
  closing := by
    rw [hq, hl]
    exact fun hne hc => hk.clearing (hs.closing hne hc)
  dying := hs.dying.congr hk.destructors hl

/-! ### Steps of a socket -/

theorem PointsTo.setSocket_ne {j : ℕ} (hpt : h.PointsTo j o) (hj : j ≠ i) : (h.setSocket i t).PointsTo j o := by
  simpa [PointsTo, setSocket_sockets_ne hj] using hpt

/-- A socket that keeps its receive callback goes on pointing to its object. -/
theorem PointsTo.setSocket (hpt : h.PointsTo i o) (ht : t.receiveCallback_ = true) :
    (h.setSocket i t).PointsTo i o := by
  simpa [PointsTo, ht] using hpt.2

/-- The receive callback stays, or its `receiveError` is called. -/
theorem Settled.onSocket {fs : List (Frame F)} (hs : Settled h st o)
    (he : UnixSocket.Effect (h.sockets i).socket t fs) :
    Waits (h.onSocket i (t, fs)).1 ((h.onSocket i (t, fs)).2 ++ st) o := by
  rw [FutureHeap.onSocket]
  refine hs.step rfl rfl (fun j hj => ?_) (keeps_ofFrame _ _ _ _ _)
  have hkeep (ht : t.receiveCallback_ = (h.sockets i).socket.receiveCallback_) :
      ∃ j, (h.setSocket i t).PointsTo j o := by
    refine ⟨j, ?_⟩
    by_cases hji : j = i
    · subst hji
      exact hj.setSocket (ht.trans hj.1)
    · exact hj.setSocket_ne hji
  cases he with
  | quiet installed delivered internal => exact Or.inl (hkeep installed)
  | sent installed delivered send internal => exact Or.inl (hkeep installed)
  | eof before after delivered internal => exact Or.inl (hkeep (after.trans before.symm))
  | received before after delivered internal => exact Or.inl (hkeep (after.trans before.symm))
  | failed before after delivered closed internal =>
    by_cases hji : j = i
    · subst hji
      exact Or.inr hj.2
    · exact Or.inl ⟨j, hj.setSocket_ne hji⟩

/-- What is doomed stays so when nothing of it changes. -/
theorem Doomed.congr (hd : Doomed h o st) (ho : (h'.objects o).socket_ = (h.objects o).socket_)
    (hs : ∀ i, (h'.sockets i).socket.sendQueue_ = (h.sockets i).socket.sendQueue_ ∧
      (h'.sockets i).socket.receiveCallback_ = (h.sockets i).socket.receiveCallback_) : Doomed h' o st := by
  induction st with
  | nil => exact hd
  | cons g st ih =>
    cases g with
    | handler i p c =>
      cases c with
      | socketClosed =>
        refine ⟨hd.1, fun n hn => ?_⟩
        rw [(hs n).1, (hs n).2]
        exact hd.2 n (ho ▸ hn)
      | _ => exact hd
    | socket i f =>
      refine ⟨?_, ih hd.2⟩
      have hf := hd.1
      cases f with
      | failAllSends e caller => simpa [UnixSocket.silent, (hs i).1] using hf
      | _ => exact hf
    | _ => exact hd

/-- A silent frame goes. -/
theorem exec_silent {s : UnixSocket κ F} {f : Frame F} (K : Kernel F κ) (below : List (Frame F))
    (hf : s.silent f = true) :
    (s.exec K below f).1.sendQueue_ = s.sendQueue_ ∧
      (s.exec K below f).1.receiveCallback_ = s.receiveCallback_ ∧
      ((s.exec K below f).2 = [] ∨ (s.exec K below f).2 = [f]) := by
  cases f with
  | destroyEnd =>
    refine UnixSocket.destroyEnd_cases (P := fun r => r.1.sendQueue_ = s.sendQueue_ ∧
      r.1.receiveCallback_ = s.receiveCallback_ ∧ (r.2 = [] ∨ r.2 = [.destroyEnd])) ?_ ?_
    · exact ⟨rfl, rfl, Or.inr rfl⟩
    · exact ⟨rfl, rfl, Or.inl rfl⟩
  | failAllSends e caller =>
    have hq : s.sendQueue_ = [] := by simpa [UnixSocket.silent] using hf
    rw [UnixSocket.exec, UnixSocket.failAllSends_nil e caller hq]
    exact ⟨rfl, rfl, Or.inl rfl⟩
  | _ => simp [UnixSocket.silent] at hf

/-- **A frame of a socket** takes the callback away only to call it. -/
theorem Waits.exec_socket {K : Kernel F κ} {f : Frame F} (hw : Waits h (.socket i f :: st) o)
    (hi : UnixSocket.Inv (h.sockets i).socket (f :: innerStack i st)) :
    Waits (h.exec K st (.socket i f)).1 ((h.exec K st (.socket i f)).2 ++ st) o := by
  have hk : Keeps o (.socket i f :: st) st := keeps_tail rfl rfl
  by_cases hd : Doomed h o (.socket i f :: st)
  · -- the frame is silent
    obtain ⟨hf, hd'⟩ := hd
    obtain ⟨hsend, hrecv, hfs⟩ := exec_silent K (innerStack i st) hf
    have hsame (j : ℕ) :
        (((h.setSocket i ((h.sockets i).socket.exec K (innerStack i st) f).1).sockets j).socket.sendQueue_ =
            (h.sockets j).socket.sendQueue_) ∧
          ((h.setSocket i ((h.sockets i).socket.exec K (innerStack i st) f).1).sockets j).socket.receiveCallback_ =
            (h.sockets j).socket.receiveCallback_ := by
      by_cases hj : j = i
      · subst hj
        rw [setSocket_sockets_self]
        exact ⟨hsend, hrecv⟩
      · rw [setSocket_sockets_ne hj]
        exact ⟨rfl, rfl⟩
    rw [FutureHeap.exec, FutureHeap.onSocket]
    have hk' := hk.trans (keeps_ofFrame i (h.sockets i).receiveCallback_ o
      ((h.sockets i).socket.exec K (innerStack i st) f).2 st)
    refine ⟨fun _ _ => Or.inr ?_, fun hq hl => hk'.clearing (hw.closing hq hl), hw.dying.congr hk'.destructors rfl⟩
    obtain hfs | hfs := hfs
    · rw [hfs]
      exact hd'.congr rfl hsame
    · have hof : HeapFrame.ofFrame i (h.sockets i).receiveCallback_ f = .socket i f := by
        cases f with
        | callback c => simp [UnixSocket.silent] at hf
        | _ => rfl
      rw [hfs, List.map_singleton, hof]
      have hd'' : Doomed h o (.socket i f :: st) := ⟨hf, hd'⟩
      exact hd''.congr rfl hsame
  · exact ((hw.settled hd).stack hk).onSocket (UnixSocket.exec_effect hi)

/-! ### Giving up a socket -/

/-- Another object changes. -/
theorem Settled.setObject_ne (hs : Settled h st o) (hop : o ≠ p) : Settled (h.setObject p y) st o := by
  have hobj : (h.setObject p y).objects o = h.objects o := setObject_objects_ne hop
  exact ⟨by rw [hobj]; exact hs.usable, by rw [hobj]; exact hs.closing, by rw [Dying, hobj]; exact hs.dying⟩

/-- The socket of another object changes. -/
theorem Settled.setSocket_ne (hs : Settled h st o) (hc : Core h st') (hop : o ≠ p)
    (hp : (h.objects p).socket_ = some i) : Settled (h.setSocket i t) st o where
  usable := by
    intro hq hl
    obtain ⟨j, hj⟩ := hs.usable hq hl
    refine ⟨j, hj.setSocket_ne ?_⟩
    rintro rfl
    exact hop (hc.eq_of_socket hp ((hc.owned o).routed j hj).1)
  closing := hs.closing
  dying := hs.dying

/-- Another object gives up its socket. -/
theorem Settled.retire_ne {r : UnixSocket κ F × List (Frame F)} (hs : Settled h st o) (hc : Core h st') (hop : o ≠ p)
    (hp : (h.objects p).socket_ = some i) :
    Waits ((h.setObject p y).onSocket i r).1 (((h.setObject p y).onSocket i r).2 ++ st) o := by
  have hs' : Settled ((h.setSocket i r.1).setObject p y) st o := (hs.setSocket_ne hc hop hp).setObject_ne hop
  exact (hs'.stack (keeps_ofFrame i (h.sockets i).receiveCallback_ o r.2 st)).waits

/-- The receive callback that is uninstalled is called first. -/
theorem retired_frames {s : UnixSocket κ F} {r : UnixSocket κ F × List (Frame F)} (hr : Retired s r)
    (hin : s.receiveCallback_ = true) : ∃ fs, r.2 = .callback .socketClosed :: fs := by
  obtain ⟨fs, -, heq⟩ := hr.frames
  rw [heq, UnixSocket.notice, if_pos hin]
  exact ⟨fs, rfl⟩

/-- **The assignment of `socket_`**, for the other objects. -/
theorem Settled.assignSocket_ne {socket_ : Option ℕ} (hs : Settled h st o) (hc : Core h st') (hop : o ≠ p) :
    Waits (h.assignSocket p socket_).1 ((h.assignSocket p socket_).2 ++ st) o := by
  unfold FutureHeap.assignSocket
  split
  · rename_i i hi
    exact hs.retire_ne hc hop hi
  · exact (hs.setObject_ne hop).waits

/-- **The assignment of `socket_`.** The new socket has not been used. -/
theorem waits_assignSocket {socket_ : Option ℕ} (hc : Core h st') (hg : Goods h st') (hs : ∀ o, Settled h st o)
    (hf : ∀ n, socket_ = some n → (h.objects p).socket_ ≠ some n ∧ (h.sockets n).socket.sendQueue_ = [] ∧
      (h.sockets n).socket.receiveCallback_ = false) (o : ℕ) :
    Waits (h.assignSocket p socket_).1 ((h.assignSocket p socket_).2 ++ st) o := by
  by_cases hop : o = p
  · subst hop
    unfold FutureHeap.assignSocket
    split
    · rename_i i hi
      have hr := retired_destroy (hg i).inv
      have hobj : ((h.setObject o { h.objects o with socket_ }).setSocket i (h.sockets i).socket.destroy.1).objects o =
          { h.objects o with socket_ } := setObject_objects_self
      refine (hs o).step (by rw [FutureHeap.onSocket, hobj]) (by rw [FutureHeap.onSocket, hobj]) (fun j hj => Or.inr ?_)
        (keeps_ofFrame _ _ _ _ _)
      obtain rfl : i = j := by
        have := ((hc.owned o).routed j hj).1
        rw [hi] at this
        exact Option.some.inj this
      obtain ⟨fs, hfs⟩ := retired_frames hr hj.1
      rw [FutureHeap.onSocket, hfs]
      refine ⟨hj.2, fun n hn => ?_⟩
      rw [hobj] at hn
      obtain ⟨hne, hq, hcb⟩ := hf n hn
      have hni : n ≠ i := by
        rintro rfl
        exact hne hi
      rw [setSocket_sockets_ne hni]
      exact ⟨hq, hcb⟩
    · rename_i hi
      refine (hs o).step (by simp) (by simp) (fun j hj => ?_) (.refl _ _)
      exact absurd hj (hc.not_pointsTo_of_none hi j)
  · exact (hs o).assignSocket_ne hc hop

/-- Closing the socket of an object that is doomed below runs no user code before. -/
theorem doomed_reset (hc : Core h st') (hp : ∀ n, (h.objects p).socket_ = some n →
      (h.sockets n).socket.receiveCallback_ = true ∨ (h.sockets n).socket.sendQueue_ = [] ∨
        (h.sockets n).socket.socket_ = false)
    (hd : ∀ h' : FutureHeap κ F, Doomed h' p st) : Doomed (h.reset p).1 p ((h.reset p).2 ++ st) := by
  unfold FutureHeap.reset FutureHeap.assignSocket
  split
  · rename_i n hn
    cases ho : (h.sockets n).socket.socket_ with
    | false =>
      rw [UnixSocket.destroy, UnixSocket.closeNow_closed ho]
      exact ⟨rfl, hd _⟩
    | true =>
      rw [UnixSocket.destroy, UnixSocket.closeNow_open ho, UnixSocket.notice]
      split
      · rename_i hr
        refine ⟨(hc.pointsTo hn hr).2, fun m hm => ?_⟩
        simp [FutureHeap.onSocket] at hm
      · rename_i hr
        have hq : (h.sockets n).socket.sendQueue_ = [] := by simpa [hr, ho] using hp n hn
        refine ⟨?_, rfl, hd _⟩
        simp [FutureHeap.onSocket, UnixSocket.silent, UnixSocket.shut, hq]
  · exact hd _

/-! ### The callbacks -/

/-- The callback on top concerns no other object. -/
theorem Waits.settled_ne {c : Callback F} (hw : Waits h (.handler i p c :: st) o) (hop : o ≠ p) : Settled h st o := by
  have hpo : ¬ p = o := fun he => hop he.symm
  have hd : ¬ Doomed h o (.handler i p c :: st) := by
    cases c with
    | receiveError e => exact hpo
    | socketClosed => exact fun hd => hpo hd.1
    | _ => exact id
  refine (hw.settled hd).stack (keeps_tail ?_ rfl)
  cases c with
  | socketClosed => simp [HeapFrame.clears, hpo]
  | _ => rfl

/-- **The end of a socket** has a frame that fails the queue of its object. -/
theorem waits_terminate {c : Callback F} {e : FutureError} (hc : Core h st') (hw : Waits h (.handler i p c :: st) o)
    (hp : o = p → (h.objects p).recvQueue_ ≠ [] → (h.objects p).lifetime = .usable → ∀ n,
      (h.objects p).socket_ = some n → (h.sockets n).socket.receiveCallback_ = true ∨
        (h.sockets n).socket.sendQueue_ = [] ∨ (h.sockets n).socket.socket_ = false) :
    Waits (h.terminate i p c e).1 ((h.terminate i p c e).2 ++ st) o := by
  rw [FutureHeap.terminate, List.append_assoc]
  by_cases hop : o = p
  · subst hop
    have hobj : ((h.reset o).1.objects o).recvQueue_ = (h.objects o).recvQueue_ ∧
        ((h.reset o).1.objects o).lifetime = (h.objects o).lifetime := by
      unfold FutureHeap.reset FutureHeap.assignSocket
      split <;> simp [FutureHeap.onSocket]
    have hfs : ∀ g ∈ (h.reset o).2, g.isDestructor o = false := by
      unfold FutureHeap.reset FutureHeap.assignSocket
      split <;> simp [FutureHeap.onSocket]
    constructor
    · rw [hobj.1, hobj.2]
      intro hq hl
      exact Or.inr (doomed_reset hc (hp rfl hq hl) fun h' => rfl)
    · intro _ _
      exact (keeps_append hfs).clearing (Or.inl (by simp [HeapFrame.clears]))
    · refine hw.dying.congr ?_ hobj.2
      rw [(keeps_append hfs).destructors]
      simp [HeapFrame.isDestructor]
  · have hs := hw.settled_ne hop
    have hk : Keeps o st ([HeapFrame.failAllPromises p e, .running i c] ++ st) := keeps_append (by simp [HeapFrame.isDestructor])
    exact (hs.stack hk).assignSocket_ne hc hop

theorem Settled.complete {id : ℕ} {result : Except ReceiveFailure (Bytes × List F)} (hs : Settled h st o) :
    Settled (h.complete id result) st o := ⟨hs.usable, hs.closing, hs.dying⟩

theorem Waits.raise {f : Fault} (hw : Waits h st o) : Waits (h.raise f) st o where
  usable := fun hq hl => (hw.usable hq hl).imp id fun hd => hd.congr rfl fun _ => ⟨rfl, rfl⟩
  closing := hw.closing
  dying := hw.dying

/-- The queue of an object becomes empty. -/
theorem Settled.empty (hs : Settled h st o) (hq : y.recvQueue_ = []) (hl : y.lifetime = (h.objects o).lifetime) :
    Settled (h.setObject o y) st o :=
  settled_nil (by simpa using hq) (hs.dying.congr rfl (by simpa using hl))

/-- **A message** takes the callback away only from an object with nothing left to receive. -/
theorem waits_messageReceived {data : Bytes} {files : List F}
    (hi : Inv h (.handler i p (.messageReceived data files) :: st))
    (hw : Waits h (.handler i p (.messageReceived data files) :: st) o) :
    Waits (h.messageReceived i p data files).1 ((h.messageReceived i p data files).2 ++ st) o := by
  have hpt : h.PointsTo i p := hi.called
  obtain ⟨hsock, -, hl⟩ := (hi.core.owned p).routed i hpt
  have hk : Keeps o st ([HeapFrame.user, .running i (.messageReceived data files)] ++ st) :=
    keeps_append (by simp [HeapFrame.isDestructor])
  have hdying : Dying h ([HeapFrame.user, .running i (.messageReceived data files)] ++ st) o :=
    hw.dying.congr (by rw [hk.destructors]; rfl) rfl
  by_cases hop : o = p
  · subst hop
    refine messageReceived_cases (P := fun r => Waits r.1 (r.2 ++ st) o) hi.goods hi.core hpt ?_ ?_
    · intro e next rest _
      exact {
        usable := fun _ _ => Or.inl ⟨i, hpt⟩
        closing := fun _ hc => by simp [complete, hl] at hc
        dying := hdying.congr rfl (by simp [complete]) }
    · intro e _
      exact (settled_nil (by simp [complete]) (hdying.congr rfl (by simp [complete]))).waits
  · have hs := (hw.settled_ne hop).stack hk
    refine messageReceived_cases (P := fun r => Waits r.1 (r.2 ++ st) o) hi.goods hi.core hpt ?_ ?_
    · intro e next rest _
      exact (hs.setObject_ne hop).complete.waits
    · intro e _
      exact ((hs.setSocket_ne hi.core hop hsock).setObject_ne hop).complete.waits

/-- Every callback leaves each queue waiting. -/
theorem waits_handle {c : Callback F} (hi : Inv h (.handler i p c :: st)) (hw : Waits h (.handler i p c :: st) o) :
    Waits (h.handle i p c).1 ((h.handle i p c).2 ++ st) o := by
  have hraise (c : Callback F) (hw : Waits h (.handler i p c :: st) o) :
      Waits (h.raise .useAfterFree) ([HeapFrame.handler i p c] ++ st) o := hw.raise
  cases c with
  | sendSuccess id =>
    have hs : Settled h (.handler i p (.sendSuccess id) :: st) o := hw.settled nofun
    have hk : Keeps o st ([HeapFrame.user, .running i (.sendSuccess id)] ++ st) := keeps_append (by simp [HeapFrame.isDestructor])
    exact (hs.stack ((keeps_tail rfl rfl).trans hk)).waits
  | sendError id e =>
    have hs : Settled h (.handler i p (.sendError id e) :: st) o := hw.settled nofun
    have hk : Keeps o st ([HeapFrame.user, .running i (.sendError id e)] ++ st) := keeps_append (by simp [HeapFrame.isDestructor])
    exact (hs.stack ((keeps_tail rfl rfl).trans hk)).waits
  | messageReceived data files =>
    exact deref_cases (P := fun r => Waits r.1 (r.2 ++ st) o) (hraise _ hw) fun _ => waits_messageReceived hi hw
  | eofReceived =>
    refine deref_cases (P := fun r => Waits r.1 (r.2 ++ st) o) (hraise _ hw) fun _ => waits_terminate hi.core hw ?_
    have hpt : h.PointsTo i p := hi.called
    intro _ _ _ n hn
    have hs := ((hi.core.owned p).routed i hpt).1
    rw [hs] at hn
    obtain rfl := Option.some.inj hn
    exact Or.inl hpt.1
  | socketClosed =>
    refine deref_cases (P := fun r => Waits r.1 (r.2 ++ st) o) (hraise _ hw) fun _ => waits_terminate hi.core hw ?_
    rintro rfl hq hl n hn
    obtain ⟨j, hj⟩ | hd := hw.usable hq hl
    · have hs := ((hi.core.owned o).routed j hj).1
      rw [hs] at hn
      obtain rfl := Option.some.inj hn
      exact Or.inl hj.1
    · exact Or.inr (Or.inl (hd.2 n hn).1)
  | receiveError e =>
    refine deref_cases (P := fun r => Waits r.1 (r.2 ++ st) o) (hraise _ hw) fun _ => waits_terminate hi.core hw ?_
    obtain ⟨hs, hclosed, -⟩ := hi.called
    intro _ _ _ n hn
    rw [hs] at hn
    obtain rfl := Option.some.inj hn
    exact Or.inr (Or.inr hclosed)

/-! ### The other frames -/

/-- The queue that is taken over waits no more. -/
theorem waits_failAllPromises {e : FutureError} (hw : Waits h (.failAllPromises p e :: st) o) :
    Waits (h.setObject p { h.objects p with recvQueue_ := [], recvQueueTail_ := none })
      (.failReceiveQueue (h.objects p).recvQueue_ (.error e) :: st) o := by
  have hk : Keeps o st ([HeapFrame.failReceiveQueue (h.objects p).recvQueue_ (.error e)] ++ st) :=
    keeps_append (by simp [HeapFrame.isDestructor])
  by_cases hop : o = p
  · subst hop
    have hd : Dying h ([HeapFrame.failReceiveQueue (h.objects o).recvQueue_ (.error e)] ++ st) o :=
      hw.dying.congr (by rw [hk.destructors]; simp [HeapFrame.isDestructor]) rfl
    exact (settled_nil (by simp) (hd.congr rfl (by simp))).waits
  · have hpo : ¬ p = o := fun he => hop he.symm
    have hs := (hw.settled hpo).stack ((keeps_tail (by simp [HeapFrame.clears, hpo]) rfl).trans hk)
    exact (hs.setObject_ne hop).waits

/-- A turn of the loop changes no queue. -/
theorem Settled.failReceiveQueue {K : Kernel F κ} {callback : List ReceiveEntry} {ew : ReceiveFailure}
    (hs : Settled h (.failReceiveQueue callback ew :: st) o) :
    Waits (h.exec K st (.failReceiveQueue callback ew)).1 ((h.exec K st (.failReceiveQueue callback ew)).2 ++ st) o := by
  have hs' : Settled h st o := hs.stack (keeps_tail rfl rfl)
  cases callback with
  | nil => exact hs'.waits
  | cons e next =>
    have hk : Keeps o st ([HeapFrame.user, .failReceiveQueue next ew] ++ st) := keeps_append (by simp [HeapFrame.isDestructor])
    exact (hs'.stack hk).complete.waits

/-- A move of an empty queue changes none. -/
theorem Settled.moveQueue {K : Kernel F κ} {other : Option ℕ} (hs : Settled h (.moveQueue p other :: st) o)
    (hp : (h.objects p).recvQueue_ = []) (hq : h.queueOf other = []) :
    Waits (h.exec K st (.moveQueue p other)).1 ((h.exec K st (.moveQueue p other)).2 ++ st) o := by
  have hraise : Waits (h.raise .useAfterFree) ([HeapFrame.moveQueue p other] ++ st) o := hs.waits.raise
  refine moveQueue_cases (P := fun r => Waits r.1 (r.2 ++ st) o) hp hq hraise ?_
  have hk : Keeps o st ([HeapFrame.dropQueue [] p other] ++ st) := keeps_append (by simp [HeapFrame.isDestructor])
  exact (hs.stack ((keeps_tail rfl rfl).trans hk)).waits

theorem Settled.dropQueue {K : Kernel F κ} {queue : List ReceiveEntry} {other : Option ℕ}
    (hi : Inv h (.dropQueue queue p other :: st)) (hs : Settled h (.dropQueue queue p other :: st) o) :
    Waits (h.exec K st (.dropQueue queue p other)).1 ((h.exec K st (.dropQueue queue p other)).2 ++ st) o := by
  have hraise : Waits (h.raise .useAfterFree) ([HeapFrame.dropQueue queue p other] ++ st) o := hs.waits.raise
  exact hi.dropQueue_cases (P := fun r => Waits r.1 (r.2 ++ st) o) hraise (hs.stack (keeps_tail rfl rfl)).waits

/-- The last part of a destructor leaves an object without socket and queue. -/
theorem Settled.destructor (hc : Core h st') (hs : Settled h (.destructor p :: st) o) :
    Waits (h.destructor p).1 ((h.destructor p).2 ++ st) o := by
  have hraise : Waits (h.raise .checkFailed) ([HeapFrame.destructor p] ++ st) o := hs.waits.raise
  refine destructor_cases (P := fun r => Waits r.1 (r.2 ++ st) o) hraise fun _ => ?_
  by_cases hop : o = p
  · subst hop
    -- the only call of the destructor ends
    have hd := hs.dying
    rw [Dying, List.countP_cons_of_pos (by simp [HeapFrame.isDestructor])] at hd
    have hcount : st.countP (HeapFrame.isDestructor o) = 0 := by
      split at hd <;> omega
    have hdone (h' : FutureHeap κ F) (fs : List (HeapFrame F)) (hfs : ∀ g ∈ fs, g.isDestructor o = false)
        (hl : (h'.objects o).lifetime = .gone) : Waits h' (fs ++ st) o := by
      refine ⟨fun _ hu => by simp [hl] at hu, fun _ hu => by simp [hl] at hu, ?_⟩
      rw [Dying, (keeps_append hfs).destructors, hcount, hl]
      rfl
    unfold FutureHeap.assignSocket
    split
    · refine hdone _ _ ?_ ?_
      · simp [FutureHeap.onSocket]
      · simp [FutureHeap.onSocket]
    · refine hdone _ _ ?_ ?_
      · simp
      · simp
  · have hpo : ¬ p = o := fun he => hop he.symm
    have hs' : Settled h st o := hs.stack (keeps_tail rfl (by simp [HeapFrame.isDestructor, hpo]))
    simp only [FutureHeap.assignSocket, setObject_objects_self, setObject_setObject, setObject_sockets]
    split
    · rename_i i hi
      exact hs'.retire_ne hc hop hi
    · exact (hs'.setObject_ne hop).waits

/-! ### Calls of the user -/

/-- `send` changes no queue. -/
theorem Settled.send {msg : Message F} {allocated : Bool} (hg : Goods h st') (hs : Settled h st o) :
    Waits (h.send p msg allocated).1 ((h.send p msg allocated).2 ++ st) o := by
  unfold FutureHeap.send
  split
  · rename_i i _
    exact hs.onSocket (UnixSocket.send_effect (hg i).inv (hg i).ledger)
  · exact hs.waits

/-- `receive`, called on an object whose socket has not started to close. -/
theorem Settled.receive (hc : Core h st') (hg : Goods h st') (hs : Settled h st o)
    (hl : (h.objects p).lifetime = .usable)
    (hsafe : ∀ i, (h.objects p).socket_ = some i → (h.sockets i).socket.closeStarted_ = false) :
    Waits (h.receive p).1 ((h.receive p).2 ++ st) o := by
  refine receive_cases (P := fun r => Waits r.1 (r.2 ++ st) o) hc ?_ ?_ ?_
  · intro _
    exact Settled.waits ⟨hs.usable, hs.closing, hs.dying⟩
  · intro i _ hq
    by_cases hop : o = p
    · subst hop
      exact {
        usable := fun _ _ => Or.inl (hs.usable hq hl)
        closing := fun _ hcl => by simp [enqueue, hl] at hcl
        dying := hs.dying.congr rfl (by simp [enqueue]) }
    · have hs' : Settled { h with receives := h.receives + 1 } st o := ⟨hs.usable, hs.closing, hs.dying⟩
      exact (hs'.setObject_ne hop).waits
  · intro i hi hq
    have hcb : (h.sockets i).socket.receiveCallback_ = false := by
      by_contra hr
      have hpt := hc.pointsTo hi (by simpa using hr)
      exact ((hc.owned p).routed i hpt).2.1 hq
    have hg' : Goods (h.enqueue p) st' := hg
    refine setReceiveCallback_cases (P := fun r => Waits r.1 (r.2 ++ st) o) hg' ?_ ?_
    · intro hthrow
      have hcb' : ((h.enqueue p).sockets i).socket.receiveCallback_ = false := hcb
      have hcl' : ((h.enqueue p).sockets i).socket.closeStarted_ = false := hsafe i hi
      simp [hcb', hcl'] at hthrow
    · intro _ _
      by_cases hop : o = p
      · subst hop
        exact {
          usable := fun _ _ => Or.inl ⟨i, by simp [PointsTo, install, UnixSocket.setRead]⟩
          closing := fun _ hcl => by simp [install, enqueue, hl] at hcl
          dying := hs.dying.congr rfl (by simp [install, enqueue]) }
      · have hobj : ((h.enqueue p).install i p).objects o = h.objects o := setObject_objects_ne hop
        refine hs.step (by rw [hobj]) (by rw [hobj]) (fun j hj => Or.inl ⟨j, ?_⟩) (.refl _ _)
        have hji : j ≠ i := by
          rintro rfl
          exact hop (hc.eq_of_socket hi ((hc.owned o).routed j hj).1)
        simp only [PointsTo, install, update_of_ne hji]
        exact hj

/-- A destructor closes the socket, whose callback fails the queue. -/
theorem Settled.destroy (hc : Core h st') (hg : Goods h st') (hs : Settled h st o)
    (hl : (h.objects p).lifetime = .usable) : Waits (h.destroy p).1 ((h.destroy p).2 ++ st) o := by
  unfold FutureHeap.destroy
  dsimp only
  rw [List.append_assoc]
  by_cases hop : o = p
  · subst hop
    have hd := hs.dying
    rw [Dying, hl] at hd
    have hdying (h' : FutureHeap κ F) (fs : List (HeapFrame F)) (hfs : ∀ g ∈ fs, g.isDestructor o = false)
        (hl' : (h'.objects o).lifetime = .closing) : Dying h' (fs ++ ([HeapFrame.destructor o] ++ st)) o := by
      rw [Dying, (keeps_append hfs).destructors, hl']
      simp [hd, HeapFrame.isDestructor]
    split
    · rename_i i hi
      refine ⟨?_, ?_, hdying _ _ ?_ ?_⟩
      · intro _ hu
        simp [FutureHeap.onSocket] at hu
      · intro hq _
        -- the receive callback is called first
        obtain ⟨j, hj⟩ := hs.usable (by simpa [FutureHeap.onSocket] using hq) hl
        obtain rfl : i = j := by
          have := ((hc.owned o).routed j hj).1
          rw [hi] at this
          exact Option.some.inj this
        obtain ⟨fs, hfs⟩ := retired_frames (retired_closeNow (hg i).inv) hj.1
        have htop : (h.sockets i).receiveCallback_ = o := hj.2
        rw [FutureHeap.onSocket, setObject_sockets, hfs]
        exact Or.inl (by simp [HeapFrame.ofFrame, HeapFrame.clears, htop])
      · simp [FutureHeap.onSocket]
      · simp [FutureHeap.onSocket]
    · rename_i hi
      refine ⟨?_, ?_, hdying _ _ ?_ ?_⟩
      · intro _ hu
        simp at hu
      · intro hq _
        obtain ⟨j, hj⟩ := hs.usable (by simpa using hq) hl
        exact absurd hj (hc.not_pointsTo_of_none hi j)
      · simp
      · simp
  · have hpo : ¬ p = o := fun he => hop he.symm
    have hk : Keeps o st ([HeapFrame.destructor p] ++ st) := keeps_append (by simp [HeapFrame.isDestructor, hpo])
    split
    · rename_i i hi
      exact (hs.stack hk).retire_ne hc hop hi
    · exact ((hs.stack hk).setObject_ne hop).waits

/-- So does a timeout. -/
theorem Settled.receiveTimeout (hc : Core h st') (hs : Settled h st o) :
    Waits (h.receiveTimeout p).1 ((h.receiveTimeout p).2 ++ st) o := by
  have hk : Keeps o st ([HeapFrame.failReceiveQueue (h.objects p).recvQueue_ (.error .timeout)] ++ st) :=
    keeps_append (by simp [HeapFrame.isDestructor])
  simp only [FutureHeap.receiveTimeout, FutureHeap.reset, FutureHeap.assignSocket, setObject_objects_self,
    setObject_setObject, setObject_sockets, List.append_assoc]
  by_cases hop : o = p
  · subst hop
    have hd := (hs.stack hk).dying
    split
    · refine (settled_nil ?_ (hd.congr (keeps_ofFrame _ _ _ _ _).destructors ?_)).waits
      · simp [FutureHeap.onSocket]
      · simp [FutureHeap.onSocket]
    · refine (settled_nil ?_ (hd.congr rfl ?_)).waits
      · simp
      · simp
  · split
    · rename_i i hi
      exact (hs.stack hk).retire_ne hc hop hi
    · exact ((hs.stack hk).setObject_ne hop).waits

/-- A new object has nothing to wait for. -/
theorem Settled.create {connected : Bool} (hc : Core h st') (hs : Settled h st o) : Settled (h.create connected) st o := by
  by_cases ho : o = h.objectCount
  · subst ho
    have hl : (h.objects h.objectCount).lifetime = .gone := by
      by_contra hl
      have := (hc.owned _).made hl
      omega
    have hd := hs.dying
    rw [Dying, hl] at hd
    refine settled_nil (by simp [FutureHeap.create]) ?_
    rw [Dying, hd]
    simp [FutureHeap.create]
  · have hs' := hs.setObject_ne (y := ⟨if connected then some h.socketCount else none, [], none, .usable⟩) ho
    exact ⟨hs'.usable, hs'.closing, hs'.dying⟩

/-- A socket that is connected takes the place of one that ends. -/
theorem waits_connectSuccess (hc : Core h st') (hg : Goods h st') (hs : ∀ o, Settled h st o) (o : ℕ) :
    Waits (h.connectSuccess p).1 ((h.connectSuccess p).2 ++ st) o := by
  have hc' : Core { h with socketCount := h.socketCount + 1 } st' := hc.congr rfl rfl le_rfl (Nat.le_succ _)
  have hg' : Goods { h with socketCount := h.socketCount + 1 } st' := hg
  have hs' (o : ℕ) : Settled { h with socketCount := h.socketCount + 1 } ([HeapFrame.moveQueue p none] ++ st) o := by
    have hk : Keeps o st ([HeapFrame.moveQueue p none] ++ st) := keeps_append (by simp [HeapFrame.isDestructor])
    have hso := (hs o).stack hk
    exact ⟨hso.usable, hso.closing, hso.dying⟩
  rw [FutureHeap.connectSuccess, List.append_assoc]
  refine waits_assignSocket hc' hg' hs' ?_ o
  intro n hn
  obtain rfl : h.socketCount = n := by simpa using hn
  obtain ⟨-, hcb, hq⟩ := hc.fresh _ le_rfl
  refine ⟨fun hp => ?_, hq, hcb⟩
  have := (hc.owned p).opened _ hp
  omega

end FutureHeap

/-! ### Runs -/

namespace HeapRunning

open FutureHeap

variable {K : Kernel F κ} {r r' : HeapRunning κ F} {a : HeapAct F}

/-- No object is moved, `receive` is not called on an object whose socket has started to
close, and no receives are dropped from an object that is installed. -/
def QueueSafe (r : HeapRunning κ F) : HeapAct F → Prop
  | .receive o => ∀ i, (r.heap.objects o).socket_ = some i → (r.heap.sockets i).socket.closeStarted_ = false
  | .moveConstruct _ => False
  | .moveAssign _ _ => False
  | a => r.MoveSafe a

/-- The condition is stronger than the one for moves. -/
theorem QueueSafe.moveSafe (hs : r.QueueSafe a) : r.MoveSafe a := by
  cases a with
  | receive o => trivial
  | moveConstruct other => exact hs.elim
  | moveAssign o other => exact hs.elim
  | _ => exact hs

/-- The invariant of runs without moves. -/
structure QueueInv (r : HeapRunning κ F) : Prop where
  inv : FutureHeap.Inv r.heap r.stack
  waits : ∀ o, Waits r.heap r.stack o

theorem QueueInv.new (kernels : ℕ → κ) : QueueInv (HeapRunning.new kernels : HeapRunning κ F) where
  inv := .new kernels
  waits := fun o => (settled_nil rfl (by simp [Dying, HeapRunning.new, FutureHeap.new])).waits

/-- User code is in control, so nothing is doomed. -/
theorem QueueInv.settled (hi : r.QueueInv) (hu : r.userCode = true) (o : ℕ) : Settled r.heap r.stack o := by
  refine (hi.waits o).settled ?_
  unfold userCode at hu
  split at hu
  · rename_i hst
    rw [hst]
    exact id
  · rename_i below hst
    rw [hst]
    exact id
  · cases hu

/-- **One frame** executed leaves each queue waiting. -/
theorem waits_exec {f : HeapFrame F} {below : List (HeapFrame F)} {o : ℕ} (hi : FutureHeap.Inv r.heap (f :: below))
    (hw : Waits r.heap (f :: below) o) (hst : r.stack = f :: below) (hsafe : r.MoveSafe .run) :
    Waits (r.heap.exec K below f).1 ((r.heap.exec K below f).2 ++ below) o := by
  simp only [MoveSafe, hst] at hsafe
  cases f with
  | socket i f =>
    have hg := hi.goods i
    rw [FutureHeap.innerStack_cons, HeapFrame.inner, if_pos rfl] at hg
    exact hw.exec_socket hg.inv
  | handler i p c => exact waits_handle hi hw
  | running i c => exact ((hw.settled id).stack (keeps_tail rfl rfl)).waits
  | failAllPromises p error =>
    have hraise : Waits (r.heap.raise .useAfterFree) ([HeapFrame.failAllPromises p error] ++ below) o := hw.raise
    exact deref_cases (P := fun r => Waits r.1 (r.2 ++ below) o) hraise fun _ => waits_failAllPromises hw
  | failReceiveQueue callback ew => exact (hw.settled id).failReceiveQueue
  | moveQueue p other => exact (hw.settled id).moveQueue hsafe.1 hsafe.2
  | dropQueue queue p other => exact (hw.settled id).dropQueue hi
  | destructor p => exact (hw.settled id).destructor hi.core
  | user => exact ((hw.settled id).stack (keeps_tail rfl rfl)).waits

/-- Every step that meets the condition keeps the invariant. -/
theorem queueInv_step (hi : r.QueueInv) (hsafe : r.QueueSafe a) (hstep : step K r a = some r') : r'.QueueInv := by
  refine ⟨inv_step hi.inv hsafe.moveSafe hstep, fun o => ?_⟩
  revert hsafe
  have hc := hi.inv.core
  have hg := hi.inv.goods
  have hset (hu : r.userCode = true) (o : ℕ) : Settled r.heap r.stack o := hi.settled hu o
  have hcall {p : ℕ} (hm : r.mayCall p = true) (o : ℕ) : Settled r.heap r.stack o := hset (mayCall_iff.1 hm).1 o
  have hempty (hst : r.stack = []) (o : ℕ) : Settled r.heap [] o := by
    have := hset (by simp [userCode, hst]) o
    rwa [hst] at this
  refine step_cases (P := fun a r' => r.QueueSafe a → Waits r'.heap r'.stack o) hstep ?_ ?_ ?_ ?_ ?_ ?_ ?_ ?_ ?_ ?_ ?_
    ?_ ?_ ?_ ?_ ?_
  · intro hu connected _
    exact ((hset hu o).create hc).waits
  · intro p hm hsafe
    exact (hcall hm o).receive hc hg (mayCall_iff.1 hm).2 hsafe
  · intro p msg allocated hm _
    exact (hcall hm o).send hg
  · intro p hm _
    exact waits_assignSocket hc hg (hcall hm) (fun _ hn => by cases hn) o
  · intro p hm _
    exact waits_connectSuccess hc hg (hcall hm) o
  · intro p hm _
    exact hi.waits o
  · intro p hm _
    have hs := hcall hm o
    exact Settled.waits ⟨hs.usable, hs.closing, hs.dying⟩
  · intro other _ hsafe
    exact hsafe.elim
  · intro p other _ _ hsafe
    exact hsafe.elim
  · intro p hm _
    exact (hcall hm o).destroy hc hg (mayCall_iff.1 hm).2
  · intro k b p hst h _
    have hs (o : ℕ) : Settled h [.user] o := by
      have hk : Keeps o ([] : List (HeapFrame F)) ([HeapFrame.user] ++ []) := keeps_append (by simp [HeapFrame.isDestructor])
      have hso := (hempty hst o).stack hk
      exact ⟨hso.usable, hso.closing, hso.dying⟩
    have hc' : Core h r.stack := hc.congr rfl rfl le_rfl le_rfl
    cases b with
    | false => exact (hs o).waits
    | true =>
      have hgone : Waits (h.raise .useAfterFree) ([] ++ [HeapFrame.user]) o := (hs o).waits.raise
      exact deref_cases (P := fun r => Waits r.1 (r.2 ++ [HeapFrame.user]) o) hgone fun _ => waits_connectSuccess hc' hg hs o
  · intro i events hst _ _
    have hk : Keeps o ([] : List (HeapFrame F)) ([HeapFrame.socket i (UnixSocket.handlerReady events)] ++ []) :=
      keeps_append (by simp [HeapFrame.isDestructor])
    exact ((hempty hst o).stack hk).waits
  · intro i hst _ _ _
    exact (hempty hst o).onSocket (UnixSocket.timeoutExpired_effect _)
  · intro p k e hst _ _
    have hgone : Waits (r.heap.raise .useAfterFree) ([] ++ []) o := (hempty hst o).waits.raise
    exact deref_cases (P := fun r => Waits r.1 (r.2 ++ []) o) hgone fun _ => (hempty hst o).receiveTimeout hc
  · intro below hst _
    have hs := hset (by simp [userCode, hst]) o
    rw [hst] at hs
    exact (hs.stack (keeps_tail rfl rfl)).waits
  · intro f below hst hsafe
    have hw := hi.waits o
    have hinv := hi.inv
    rw [hst] at hw hinv
    exact waits_exec hinv hw hst hsafe

/-- `receive` has queued its future and thrown nothing. -/
def Queued (r r' : HeapRunning κ F) (o : ℕ) : Prop :=
  (r'.heap.objects o).recvQueue_ = (r.heap.objects o).recvQueue_ ++ [⟨o, r.heap.receives⟩] ∧
    ∀ i, (r'.heap.sockets i).socket.thrown = (r.heap.sockets i).socket.thrown

/-- `receive` has failed its future and left everything else as it was. -/
def Rejected (r r' : HeapRunning κ F) : Prop :=
  r' = ⟨{ r.heap with
    receives := r.heap.receives + 1
    completed := r.heap.completed ++ [(r.heap.receives, .error (.error .cannotReceive))] }, r.stack⟩

/-- **`receive`** queues the future, with the callback installed, or rejects it at once. -/
theorem QueueInv.receive {o : ℕ} (hi : r.QueueInv) (hsafe : r.QueueSafe (.receive o)) :
    Queued r (push (r.heap.receive o) r.stack) o ∨ Rejected r (push (r.heap.receive o) r.stack) := by
  refine receive_cases (P := fun t => Queued r (push t r.stack) o ∨ Rejected r (push t r.stack)) hi.inv.core ?_ ?_ ?_
  · intro _
    exact Or.inr rfl
  · intro i _ _
    exact Or.inl ⟨by simp [push, enqueue], fun _ => rfl⟩
  · intro i hs hq
    have hgoods : Goods (r.heap.enqueue o) r.stack := hi.inv.goods
    have hcb : (r.heap.sockets i).socket.receiveCallback_ = false := by
      by_contra hr
      have hpt := hi.inv.core.pointsTo hs (by simpa using hr)
      exact ((hi.inv.core.owned o).routed i hpt).2.1 hq
    refine setReceiveCallback_cases (P := fun t => Queued r (push t r.stack) o ∨ Rejected r (push t r.stack)) hgoods ?_ ?_
    · intro hthrow
      have hcb' : ((r.heap.enqueue o).sockets i).socket.receiveCallback_ = false := hcb
      have hcl' : ((r.heap.enqueue o).sockets i).socket.closeStarted_ = false := hsafe i hs
      simp [hcb', hcl'] at hthrow
    · intro _ _
      refine Or.inl ⟨by simp [push, enqueue, FutureHeap.install], fun j => ?_⟩
      by_cases hj : j = i
      · subst hj
        simp [push, FutureHeap.install, UnixSocket.setRead, enqueue]
      · simp only [push, FutureHeap.install, update_of_ne hj]
        rfl

/-- What is wanted of the queue. -/
structure QueueContract (K : Kernel F κ) (r : HeapRunning κ F) : Prop where
  installed : r.userCode = true → ∀ o, (r.heap.objects o).lifetime = .usable →
    ((r.heap.objects o).recvQueue_ ≠ [] ↔ r.heap.installed o = true)
  tail : ∀ o, (r.heap.objects o).recvQueueTail_ = none ↔ (r.heap.objects o).recvQueue_ = []
  receive : ∀ o r', r.QueueSafe (.receive o) → step K r (.receive o) = some r' → Queued r r' o ∨ Rejected r r'
  /-- The checks of the destructor. -/
  destructor : ∀ o below, r.stack = .destructor o :: below →
    (r.heap.objects o).recvQueue_ = [] ∧ (r.heap.objects o).recvQueueTail_ = none

/-- The invariant gives the contract. -/
theorem QueueInv.contract (hi : r.QueueInv) : r.QueueContract K where
  installed := by
    intro hu o hl
    rw [Calm.installed_iff hi.inv.goods hi.inv.core]
    constructor
    · intro hq
      exact (hi.settled hu o).usable hq hl
    · rintro ⟨i, hpt⟩
      exact ((hi.inv.core.owned o).routed i hpt).2.1
  tail := by
    intro o
    rw [(hi.inv.core.owned o).tail]
    simp
  receive := by
    intro o r' hsafe hstep
    obtain ⟨hm, rfl⟩ : r.mayCall o = true ∧ push (r.heap.receive o) r.stack = r' := by
      have hf := fault_none hstep
      simp only [step] at hstep
      rw [if_neg (by simp [hf])] at hstep
      simpa using hstep
    exact hi.receive hsafe
  destructor := by
    intro o below hst
    have hw := hi.waits o
    rw [hst] at hw
    have hq : (r.heap.objects o).recvQueue_ = [] := by
      by_contra hq
      have hl : (r.heap.objects o).lifetime = .closing := by
        have hd := hw.dying
        rw [Dying, List.countP_cons_of_pos (by simp [HeapFrame.isDestructor])] at hd
        by_contra hl
        rw [if_neg hl] at hd
        omega
      obtain hc | hc := hw.closing hq hl
      · simp [HeapFrame.clears] at hc
      · simp [HeapFrame.isDestructor] at hc
    exact ⟨hq, hi.inv.core.tail_none hq⟩

/-- **The receive queue**: in every run whose steps meet `QueueSafe`, the queue of an object
is not empty exactly while the object is installed on its open socket, the tail is null
exactly if the queue is, and the checks of the destructor hold. -/
theorem queue_contract (K : Kernel F κ) (kernels : ℕ → κ) (acts : List (HeapAct F)) (r : HeapRunning κ F)
    (hsafe : AllSteps (step K) QueueSafe (new kernels) acts) (hrun : run (step K) (new kernels) acts = some r) :
    r.QueueContract K :=
  (run_guarded (I := QueueInv) (fun _ _ _ hi hs hstep => queueInv_step hi hs hstep) acts (.new kernels) hsafe
    hrun).contract

/-- An object is destroyed with a receive pending, and comes to the checks of its destructor. -/
theorem queue_contract_destroy :
    ∃ r : HeapRunning Unit ℕ,
      run (step resetPeer) (new fun _ => ())
          [.create true, .receive 0, .destroy 0, .run, .run, .run, .run, .run, .ret, .run, .run, .run] = some r ∧
        r.stack = [.destructor 0] ∧ r.QueueContract resetPeer := by
  refine ⟨_, rfl, rfl, ?_⟩
  refine queue_contract resetPeer (fun _ => ())
    [.create true, .receive 0, .destroy 0, .run, .run, .run, .run, .run, .ret, .run, .run, .run] _ ?_ rfl
  have hopen : QueueSafe (⟨(FutureHeap.new fun _ => ()).create true, []⟩ : HeapRunning Unit ℕ) (.receive 0) := by
    intro i hi
    cases hi
    rfl
  iterate 12 rw [allSteps_cons rfl]
  exact ⟨trivial, hopen, trivial, trivial, trivial, trivial, rfl, trivial, trivial, trivial, trivial, trivial, trivial⟩

/-- What is asked of a run is needed. In the first, `receive` is called after a send has
timed out, and the check of the destructor fails. In the second, the continuation of a
receive that ends with `eofReceived` connects again and calls `receive`: the object is
installed on the new socket and its queue has been emptied. -/
theorem queue_contract_broken :
    (∃ r : HeapRunning Unit ℕ,
      run (step resetPeer) (new fun _ => ())
          [.create true, .send 0 ⟨[], []⟩ true, .run, .sendTimeout 0, .run, .run, .ret, .run, .run, .receive 0,
            .destroy 0] = some r ∧
        ¬ r.QueueContract resetPeer ∧
        ∃ r', step resetPeer r .run = some r' ∧ r'.heap.fault = some .checkFailed) ∧
    ∃ r : HeapRunning Unit ℕ,
      run (step closedPeer) (new fun _ => ())
          [.create true, .receive 0, .ready 0 ⟨true, false⟩, .run, .run, .run, .run, .run, .connect 0 .connected, .run,
            .run, .receive 0, .ret, .run, .run, .run, .run, .run, .run] = some r ∧
        r.heap.installed 0 = true ∧ ¬ r.QueueContract closedPeer := by
  constructor
  · refine ⟨_, rfl, ?_, _, rfl, rfl⟩
    intro h
    have hq : [(⟨0, 0⟩ : ReceiveEntry)] = [] := (h.destructor 0 [] rfl).1
    simp at hq
  · refine ⟨_, rfl, rfl, ?_⟩
    intro h
    exact (h.installed rfl 0 rfl).2 rfl rfl

end HeapRunning

end EdenCommon
