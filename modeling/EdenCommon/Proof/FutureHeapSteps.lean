import EdenCommon.Proof.FutureHeap

/-!
# Steps of `FutureUnixSocket`s

`Inv` joins `Core` and `Places` with the state of each socket and with what is known when a
callback is called (`Called`). `Calm` is the same without such a call on top; each method
takes a calm state to one with `Inv`.

`inv_step`: the invariant is kept by every step that meets `MoveSafe`. The first condition
of it, that an object that is moved has no receives, is what keeps the pointers to objects
right.
-/

namespace EdenCommon

open Lib Function

variable {F κ : Type}

namespace FutureHeap

variable {h : FutureHeap κ F} {st st' : List (HeapFrame F)} {o p i : ℕ} {x y : FutureObject} {t : UnixSocket κ F}

/-! ### The invariant -/

/-- Each socket is as it should be for its frames on the stack. -/
def Goods (h : FutureHeap κ F) (st : List (HeapFrame F)) : Prop :=
  ∀ i, Running.Good ⟨(h.sockets i).socket, innerStack i st⟩

/-- The state in which the frame on top comes there. -/
def Called (h : FutureHeap κ F) : List (HeapFrame F) → Prop
  | .handler i o (.messageReceived _ _) :: _ => h.PointsTo i o
  | .handler i o .eofReceived :: _ => h.PointsTo i o
  | .handler i o (.receiveError _) :: _ =>
    (h.objects o).socket_ = some i ∧ (h.sockets i).socket.socket_ = false ∧ (h.objects o).lifetime = .usable
  | .handler _ o .socketClosed :: _ => (h.objects o).lifetime ≠ .gone
  | .dropQueue queue o other :: _ => queue = [] ∧ (h.objects o).recvQueue_ = [] ∧ h.queueOf other = []
  | _ => True

structure Inv (h : FutureHeap κ F) (st : List (HeapFrame F)) : Prop where
  goods : Goods h st
  core : Core h st
  places : Places h st
  resting : Resting st.tail
  called : h.Called st

/-- No frame is on the stack that has to go first. -/
structure Calm (h : FutureHeap κ F) (st : List (HeapFrame F)) : Prop where
  goods : Goods h st
  core : Core h st
  places : Places h st
  resting : Resting st

/-- The invariant of a new heap. -/
theorem Inv.new (kernels : ℕ → κ) : Inv (FutureHeap.new kernels : FutureHeap κ F) [] where
  goods := fun i => .new (kernels i)
  core := .new kernels
  places := .new kernels
  resting := resting_nil
  called := trivial

/-- Between calls no callback is on its way. -/
theorem called_of_resting (hp : Resting st) : h.Called st := by
  cases st with
  | nil => trivial
  | cons g st =>
    cases g with
    | handler i o c => simp [resting_cons, HeapFrame.isTransient] at hp
    | dropQueue queue o other => simp [resting_cons, HeapFrame.isTransient] at hp
    | _ => trivial

theorem Calm.inv (hc : Calm h st) : Inv h st :=
  { hc with resting := fun g hm => hc.resting g (List.mem_of_mem_tail hm), called := called_of_resting hc.resting }

theorem Inv.calm (hi : Inv h st) (hp : Resting st) : Calm h st := { hi with resting := hp }

/-- Each socket sees its own frames only. -/
theorem Goods.stack (hg : Goods h st) (hst : ∀ i, innerStack i st' = innerStack i st) : Goods h st' := by
  intro i
  rw [hst i]
  exact hg i

/-- A step of one socket is none of the others. -/
theorem goods_setSocket {fs : List (Frame F)}
    (hg : ∀ j, j ≠ i → Running.Good ⟨(h.sockets j).socket, innerStack j st⟩)
    (ht : Running.Good ⟨t, fs ++ innerStack i st⟩) (o : ℕ) :
    Goods (h.setSocket i t) (fs.map (HeapFrame.ofFrame i o) ++ st) := by
  intro j
  by_cases hj : j = i
  · subst hj
    simpa using ht
  · rw [setSocket_sockets_ne hj, innerStack_append, innerStack_ofFrame_ne (Ne.symm hj)]
    exact hg j hj

/-- A frame comes that is of no socket and fails no future. -/
theorem Calm.cons {g : HeapFrame F} (hc : Calm h st) (ht : g.isTransient = false) (hi : ∀ j, g.inner j = [])
    (hq : g.queue = []) : Calm h (g :: st) where
  goods := hc.goods.stack fun j => by rw [innerStack_cons, hi, List.nil_append]
  core := hc.core.cons hi
  places := hc.places.stack (by simp [hq])
  resting := resting_cons.2 ⟨ht, hc.resting⟩

/-- A frame goes that is of no socket and fails no future. -/
theorem Calm.drop {g : HeapFrame F} (hc : Calm h (g :: st)) (hi : ∀ j, g.inner j = []) (hq : g.queue = []) :
    Calm h st where
  goods := hc.goods.stack fun j => by rw [innerStack_cons, hi, List.nil_append]
  core := hc.core.tail
  places := hc.places.stack (by simp [hq])
  resting := (resting_cons.1 hc.resting).2

/-- A callback of socket `i` returns. -/
theorem Goods.ret {c : Callback F} {g : HeapFrame F} (hg : Goods h (g :: st))
    (hi : ∀ j, g.inner j = if i = j then [.callback c] else []) : Goods h st := by
  intro j
  have hj := hg j
  rw [innerStack_cons, hi] at hj
  by_cases hij : i = j
  · rw [if_pos hij] at hj
    exact hj.ret
  · rwa [if_neg hij] at hj

/-- The callback called on top is under way. -/
theorem Inv.running {c : Callback F} (hi : Inv h (.handler i o c :: st)) : Calm h (.running i c :: st) where
  goods := hi.goods.stack fun _ => rfl
  core := hi.core.stack fun _ _ hst => hst
  places := hi.places.stack rfl
  resting := resting_cons.2 ⟨rfl, hi.resting⟩

/-- A callback that has returned leaves the state calm. -/
theorem Calm.running {c : Callback F} (hc : Calm h (.running i c :: st)) : Calm h st where
  goods := hc.goods.ret fun _ => rfl
  core := hc.core.tail
  places := hc.places.stack rfl
  resting := (resting_cons.1 hc.resting).2

/-- A new state with the same objects and sockets. -/
theorem Calm.congr {h' : FutureHeap κ F} (hc : Calm h st) (hp : Places h' st) (ho : h'.objects = h.objects)
    (hs : h'.sockets = h.sockets) (hoc : h'.objectCount = h.objectCount) (hsc : h.socketCount ≤ h'.socketCount) :
    Calm h' st where
  goods := fun i => by rw [hs]; exact hc.goods i
  core := hc.core.congr ho hs hoc.ge hsc
  places := hp
  resting := hc.resting

/-- A fault changes no field that the invariant speaks of. -/
theorem Inv.raise {f : Fault} (hi : Inv h st) : Inv (h.raise f) st := by
  refine { hi with core := hi.core.congr rfl rfl le_rfl le_rfl, called := ?_ }
  have hc := hi.called
  cases st with
  | nil => trivial
  | cons g st =>
    cases g with
    | handler i o c => cases c <;> exact hc
    | _ => exact hc

/-! ### Steps of a socket -/

/-- **A step of a socket** with an effect on its receive side. -/
theorem onSocket_inv {fs : List (Frame F)} (hg : ∀ j, j ≠ i → Running.Good ⟨(h.sockets j).socket, innerStack j st⟩)
    (hc : Core h st) (hpl : Places h st) (hrest : Resting st) (hi : i < h.socketCount)
    (he : UnixSocket.Effect (h.sockets i).socket t fs) (ht : Running.Good ⟨t, fs ++ innerStack i st⟩) :
    Inv (h.onSocket i (t, fs)).1 ((h.onSocket i (t, fs)).2 ++ st) := by
  have hg' := goods_setSocket hg ht (h.sockets i).receiveCallback_
  have hplaces : Places (h.setSocket i t) st := hpl
  have hpl' : Places (h.setSocket i t) (fs.map (HeapFrame.ofFrame i (h.sockets i).receiveCallback_) ++ st) :=
    hplaces.stack (by simp)
  have hcore (hr : t.receiveCallback_ = true → (h.sockets i).socket.receiveCallback_ = true) :
      Core (h.setSocket i t) (fs.map (HeapFrame.ofFrame i (h.sockets i).receiveCallback_) ++ st) :=
    (hc.setSocket hi hr).ofFrame hi _ fs
  rw [FutureHeap.onSocket]
  cases he with
  | quiet installed delivered internal =>
    -- the effects differ in the callback, which is called with what is known there
    exact Calm.inv ⟨hg', hcore fun hr => installed ▸ hr, hpl', resting_append.2 ⟨resting_ofFrame internal _ _, hrest⟩⟩
  | @sent c fs installed delivered send internal =>
    refine ⟨hg', hcore fun hr => installed ▸ hr, hpl', resting_append.2 ⟨resting_ofFrame internal _ _, hrest⟩, ?_⟩
    cases c with
    | sendSuccess id => trivial
    | sendError id e => trivial
    | _ => cases send
  | failed before after delivered closed internal =>
    obtain ⟨hs, -, hl⟩ := (hc.owned _).routed i ⟨before, rfl⟩
    exact {
      goods := hg'
      core := hcore fun _ => before
      places := hpl'
      resting := resting_append.2 ⟨resting_ofFrame internal _ _, hrest⟩
      called := ⟨hs, by simpa using closed, hl⟩ }
  | eof before after delivered internal =>
    exact {
      goods := hg'
      core := hcore fun _ => before
      places := hpl'
      resting := resting_append.2 ⟨resting_ofFrame internal _ _, hrest⟩
      called := ⟨by simpa using after, by simp⟩ }
  | received before after delivered internal =>
    exact {
      goods := hg'
      core := hcore fun _ => before
      places := hpl'
      resting := resting_append.2 ⟨resting_ofFrame internal _ _, hrest⟩
      called := ⟨by simpa using after, by simp⟩ }

/-- **A call of a socket** from a calm state keeps the invariant. -/
theorem Calm.onSocket {fs : List (Frame F)} (hc : Calm h st) (hi : i < h.socketCount)
    (he : UnixSocket.Effect (h.sockets i).socket t fs) (ht : Running.Good ⟨t, fs ++ innerStack i st⟩) :
    Inv (h.onSocket i (t, fs)).1 ((h.onSocket i (t, fs)).2 ++ st) :=
  onSocket_inv (fun j _ => hc.goods j) hc.core hc.places hc.resting hi he ht

/-- **A frame of a socket** keeps it. -/
theorem Inv.exec_socket {K : Kernel F κ} {f : Frame F} (hi : Inv h (.socket i f :: st)) :
    Inv (h.exec K st (.socket i f)).1 ((h.exec K st (.socket i f)).2 ++ st) := by
  have hin : innerStack i (.socket i f :: st) = f :: innerStack i st := by simp [HeapFrame.inner]
  have hg := hi.goods i
  rw [hin] at hg
  have hlt : i < h.socketCount := hi.core.lt_socketCount (by rw [hin]; exact List.cons_ne_nil _ _)
  refine onSocket_inv ?_ hi.core.tail (hi.places.stack rfl) hi.resting hlt (UnixSocket.exec_effect hg.inv) hg.exec
  intro j hj
  have hgj := hi.goods j
  rwa [innerStack_cons, HeapFrame.inner, if_neg (Ne.symm hj)] at hgj

/-! ### Giving up a socket -/

/-- What `closeNow` and `destroy` do: the receive callback is called with `socketClosed` and
is installed no more. -/
structure Retired (s : UnixSocket κ F) (r : UnixSocket κ F × List (Frame F)) : Prop where
  uninstalled : r.1.receiveCallback_ = false
  frames : ∃ fs, Internal fs ∧ r.2 = s.notice .socketClosed ++ fs

/-- A socket that is destroyed has no callback left. -/
theorem retired_destroy {s : UnixSocket κ F} {fr : List (Frame F)} (hs : UnixSocket.Inv s fr) :
    Retired s s.destroy := by
  obtain ⟨hr, -, fs, hfs, heq, -⟩ := FutureUnixSocket.destroy_eq hs
  exact ⟨hr, fs, hfs, heq⟩

/-- Neither has one that is closed. -/
theorem retired_closeNow {s : UnixSocket κ F} {fr : List (Frame F)} (hs : UnixSocket.Inv s fr) :
    Retired s s.closeNow := by
  cases ho : s.socket_ with
  | true =>
    rw [UnixSocket.closeNow_open ho]
    exact ⟨rfl, _, UnixSocket.internal_singleton rfl, rfl⟩
  | false =>
    have hr : s.receiveCallback_ = false := hs.installed (hs.closed ho).1
    rw [UnixSocket.closeNow_closed ho]
    exact ⟨hr, [], UnixSocket.internal_nil, by simp [UnixSocket.notice, hr]⟩

/-- **The end of a socket**: object `o` becomes `y`, and its socket is closed. -/
theorem retire {r : UnixSocket κ F × List (Frame F)} (hg : Goods h st) (hc : Core h st) (hrest : Resting st)
    (hs : (h.objects o).socket_ = some i) (hr : Retired (h.sockets i).socket r)
    (hgr : Running.Good ⟨r.1, r.2 ++ innerStack i st⟩) (hy : (h.setSocket i r.1).Owned o y)
    (hpl : Places (h.setObject o y) st) (hl : h.PointsTo i o → y.lifetime ≠ .gone) :
    Inv ((h.setObject o y).onSocket i r).1 (((h.setObject o y).onSocket i r).2 ++ st) := by
  have hi := (hc.owned o).opened i hs
  obtain ⟨hun, fs, hfs, heq⟩ := hr
  have hset : (h.setObject o y).setSocket i r.1 = (h.setSocket i r.1).setObject o y := rfl
  have hgoods : Goods ((h.setObject o y).setSocket i r.1)
      (r.2.map (HeapFrame.ofFrame i (h.sockets i).receiveCallback_) ++ st) :=
    goods_setSocket (fun j _ => hg j) hgr _
  have hcore : Core ((h.setObject o y).setSocket i r.1)
      (r.2.map (HeapFrame.ofFrame i (h.sockets i).receiveCallback_) ++ st) := by
    rw [hset]
    refine Core.ofFrame (Core.setObject ?_ hy) hi _ r.2
    exact hc.setSocket hi fun ht => by simp [hun] at ht
  have hpl' : Places ((h.setObject o y).setSocket i r.1) st := hpl
  have hplaces : Places ((h.setObject o y).setSocket i r.1)
      (r.2.map (HeapFrame.ofFrame i (h.sockets i).receiveCallback_) ++ st) := hpl'.stack (by simp)
  rw [FutureHeap.onSocket, setObject_sockets]
  rw [heq] at hgoods hcore hplaces ⊢
  unfold UnixSocket.notice at hgoods hcore hplaces ⊢
  split
  · rename_i hin
    rw [if_pos hin] at hgoods hcore hplaces
    -- the callback is installed, so it is `o` that is told
    have hpt := hc.pointsTo hs hin
    refine ⟨hgoods, hcore, hplaces, resting_append.2 ⟨resting_ofFrame hfs _ _, hrest⟩, ?_⟩
    show (((h.setObject o y).setSocket i r.1).objects (h.sockets i).receiveCallback_).lifetime ≠ .gone
    rw [hpt.2, setSocket_objects, setObject_objects_self]
    exact hl hpt
  · rename_i hin
    rw [if_neg hin] at hgoods hcore hplaces
    exact Calm.inv ⟨hgoods, hcore, hplaces, resting_append.2 ⟨resting_ofFrame hfs _ _, hrest⟩⟩

/-- An object without a socket is called by none. -/
theorem Core.not_pointsTo_of_none (hc : Core h st) (hs : (h.objects o).socket_ = none) (j : ℕ) : ¬ h.PointsTo j o := by
  intro hj
  have := ((hc.owned o).routed j hj).1
  simp [hs] at this

/-- An object is not called once the callback of its socket is uninstalled. -/
theorem Core.not_pointsTo_setSocket (hc : Core h st) (hs : (h.objects o).socket_ = some i)
    (ht : t.receiveCallback_ = false) (j : ℕ) : ¬ (h.setSocket i t).PointsTo j o := by
  rintro ⟨hr, ho⟩
  by_cases hj : j = i
  · subst hj
    simp [ht] at hr
  · rw [setSocket_sockets_ne hj] at hr
    rw [setSocket_receiveCallback] at ho
    have := ((hc.owned o).routed j ⟨hr, ho⟩).1
    rw [hs] at this
    exact hj (Option.some.inj this).symm

/-- A pointer that object `o` may take. -/
def Free (h : FutureHeap κ F) (o : ℕ) (socket_ : Option ℕ) : Prop :=
  ∀ n, socket_ = some n → n < h.socketCount ∧ (h.sockets n).socket.receiveCallback_ = false ∧
    ∀ p, p ≠ o → (h.objects p).socket_ ≠ some n

theorem free_none : h.Free o none := nofun

/-- An object may change if it owns its socket and its receives keep their places. -/
theorem Calm.setObject (hc : Calm h st) (hy : h.Owned o y) (hpl : Places (h.setObject o y) st) :
    Calm (h.setObject o y) st :=
  { hc with core := hc.core.setObject hy, places := hpl }

/-- **The assignment of `socket_`**, which closes the socket that the object had. -/
theorem Calm.assignSocket {socket_ : Option ℕ} (hc : Calm h st) (hf : h.Free o socket_)
    (hl : socket_ ≠ none → (h.objects o).lifetime ≠ .gone) :
    Inv (h.assignSocket o socket_).1 ((h.assignSocket o socket_).2 ++ st) := by
  have hx := hc.core.owned o
  have hgone : (h.objects o).lifetime = .gone → socket_ = none := by
    intro hg
    by_contra hn
    exact hl hn hg
  have hpl : Places (h.setObject o { h.objects o with socket_ }) st := hc.places.setObject_queue rfl
  unfold FutureHeap.assignSocket
  cases hs : (h.objects o).socket_ with
  | none =>
    refine Calm.inv (hc.setObject ?_ hpl)
    exact { hx with
      opened := fun n hn => (hf n hn).1
      unique := fun n p hp hn => (hf n hn).2.2 p hp
      routed := fun j hj => absurd hj (hc.core.not_pointsTo_of_none hs j)
      gone := fun hg => ⟨hgone hg, (hx.gone hg).2⟩ }
  | some i =>
    have hr := retired_destroy (hc.goods i).inv
    refine retire hc.goods hc.core hc.resting hs hr ((hc.goods i).call .destroy) ?_ hpl fun hpt => ?_
    · exact { hx with
        opened := fun n hn => (hf n hn).1
        unique := fun n p hp hn => (hf n hn).2.2 p hp
        routed := fun j hj => absurd hj (hc.core.not_pointsTo_setSocket hs hr.uninstalled j)
        gone := fun hg => ⟨hgone hg, (hx.gone hg).2⟩ }
    · have := (hx.routed i hpt).2.2
      -- an object that its socket calls is usable, hence not gone
      simp [this]

/-- `closeNow` from user code keeps the invariant. -/
theorem Calm.closeNow (hc : Calm h st) : Inv (h.closeNow o).1 ((h.closeNow o).2 ++ st) :=
  hc.assignSocket free_none fun hn => absurd rfl hn

/-! ### The callbacks -/

/-- **The end of a socket** takes it from its object and is about to fail the queue. -/
theorem Inv.terminate {c : Callback F} {e : FutureError} (hi : Inv h (.handler i o c :: st)) :
    Inv (h.terminate i o c e).1 ((h.terminate i o c e).2 ++ st) := by
  have hc : Calm h (.failAllPromises o e :: .running i c :: st) := hi.running.cons rfl (fun _ => rfl) rfl
  rw [FutureHeap.terminate, List.append_assoc]
  exact hc.assignSocket free_none fun hn => absurd rfl hn

/-- A call that uses an object. -/
theorem deref_cases {P : FutureHeap κ F × List (HeapFrame F) → Prop} {fs : List (HeapFrame F)}
    {r : FutureHeap κ F × List (HeapFrame F)} (gone : P (h.raise .useAfterFree, fs))
    (there : (h.objects o).lifetime ≠ .gone → P r) : P (h.deref o fs r) := by
  unfold deref
  split
  · exact gone
  · rename_i hl
    exact there hl

/-- A moved-from object is looked at or has been destroyed, which is a fault. -/
theorem derefMoved_cases {P : FutureHeap κ F × List (HeapFrame F) → Prop} {fs : List (HeapFrame F)}
    {r : FutureHeap κ F × List (HeapFrame F)} {other : Option ℕ} (gone : P (h.raise .useAfterFree, fs))
    (there : P r) : P (h.derefMoved o other fs r) := by
  cases other with
  | none => exact deref_cases gone fun _ => there
  | some other => exact deref_cases gone fun _ => deref_cases gone fun _ => there

/-- The first entry of the queue is taken. -/
theorem Core.deliver {e : ReceiveEntry} {rest : List ReceiveEntry} {tail : Option ℕ} (hc : Core h st)
    (hq : (h.objects o).recvQueue_ = e :: rest) (ht : tail = rest.getLast?.map ReceiveEntry.promise_)
    (hr : ∀ i, h.PointsTo i o → rest ≠ []) :
    h.Owned o { h.objects o with recvQueue_ := rest, recvQueueTail_ := tail } := by
  have hx := hc.owned o
  refine { hx with routed := ?_, entries := ?_, tail := ht, gone := ?_ }
  · intro i hi
    obtain ⟨hs, -, hl⟩ := hx.routed i hi
    exact ⟨hs, hr i hi, hl⟩
  · intro e' he
    exact hx.entries e' (hq ▸ List.mem_cons_of_mem _ he)
  · intro hg
    have := (hx.gone hg).2
    simp [hq] at this

/-- A callback of socket `i` has completed the future of the first entry. -/
theorem Calm.deliver {c : Callback F} {e : ReceiveEntry} {result : Except ReceiveFailure (Bytes × List F)}
    (hc : Calm h (.running i c :: st)) (ho : o < h.objectCount) (hy : h.Owned o y)
    (hq : (h.objects o).recvQueue_ = [e] ++ y.recvQueue_) :
    Inv ((h.setObject o y).complete e.promise_ result) ([HeapFrame.user, .running i c] ++ st) := by
  have hcalm : Calm ((h.setObject o y).complete e.promise_ result) (.running i c :: st) :=
    { hc with core := (hc.core.setObject hy).congr rfl rfl le_rfl le_rfl, places := hc.places.deliver ho hq }
  exact (hcalm.cons (g := .user) rfl (fun _ => rfl) rfl).inv

/-- A socket may change in everything but a receive callback that it gets. -/
theorem Calm.setSocket (hc : Calm h st) (ht : Running.Good ⟨t, innerStack i st⟩) (hi : i < h.socketCount)
    (hr : t.receiveCallback_ = true → (h.sockets i).socket.receiveCallback_ = true) : Calm (h.setSocket i t) st := by
  have hg : Goods (h.setSocket i t) (([] : List (Frame F)).map (HeapFrame.ofFrame i 0) ++ st) :=
    goods_setSocket (fun j _ => hc.goods j) ht 0
  exact { hc with goods := hg, core := hc.core.setSocket hi hr }

/-- What `messageReceived` does: the callback is uninstalled together with the last entry. -/
theorem messageReceived_cases {data : Bytes} {files : List F}
    {P : FutureHeap κ F × List (HeapFrame F) → Prop} (hg : Goods h st') (hc : Core h st') (hpt : h.PointsTo i o)
    (more : ∀ e next rest, (h.objects o).recvQueue_ = e :: next :: rest →
      P ((h.setObject o { h.objects o with recvQueue_ := next :: rest }).complete e.promise_ (.ok (data, files)),
        [.user, .running i (.messageReceived data files)]))
    (last : ∀ e, (h.objects o).recvQueue_ = [e] →
      P (((h.setSocket i ((h.sockets i).socket.setRead false)).setObject o
          { h.objects o with recvQueue_ := [], recvQueueTail_ := none }).complete e.promise_ (.ok (data, files)),
        [.user, .running i (.messageReceived data files)])) :
    P (h.messageReceived i o data files) := by
  obtain ⟨hs, hne, -⟩ := (hc.owned o).routed i hpt
  unfold FutureHeap.messageReceived
  dsimp only
  split
  · rename_i hq
    exact absurd hq hne
  · rename_i e next rest hq
    exact more e next rest hq
  · rename_i e hq
    split
    · rename_i hs'
      simp [hs] at hs'
    · rename_i j hs'
      -- the callback came from the object's own socket, so it is this one that is cleared
      obtain rfl : i = j := Option.some.inj (hs.symm.trans hs')
      rw [if_pos hpt.1, UnixSocket.clearReceiveCallback_ok (hg i).inv.handler hpt.1]
      exact last e hq

/-- **A message** goes to the first receive in the queue of its object. -/
theorem Inv.messageReceived {data : Bytes} {files : List F}
    (hi : Inv h (.handler i o (.messageReceived data files) :: st)) :
    Inv (h.messageReceived i o data files).1 ((h.messageReceived i o data files).2 ++ st) := by
  have hpt : h.PointsTo i o := hi.called
  have hx := hi.core.owned o
  obtain ⟨hs, -, hl⟩ := hx.routed i hpt
  have ho : o < h.objectCount := hx.made (by simp [hl])
  have hcalm := hi.running
  refine messageReceived_cases (P := fun r => Inv r.1 (r.2 ++ st)) hi.goods hi.core hpt ?_ ?_
  · intro e next rest hq
    have htail : (h.objects o).recvQueueTail_ = (next :: rest).getLast?.map ReceiveEntry.promise_ := by
      simpa [hq] using hx.tail
    have hy := hcalm.core.deliver hq htail fun _ _ => List.cons_ne_nil _ _
    exact hcalm.deliver ho hy hq
  · intro e hq
    have hclear := UnixSocket.clearReceiveCallback_ok (hi.goods i).inv.handler hpt.1
    have hg := (hcalm.goods i).call .clearReceiveCallback
    rw [UnixSocket.call, hclear] at hg
    have hcalm' : Calm (h.setSocket i ((h.sockets i).socket.setRead false))
        (.running i (.messageReceived data files) :: st) :=
      hcalm.setSocket hg (hx.opened i hs) fun hr => by simp [UnixSocket.setRead] at hr
    have hno := hcalm.core.not_pointsTo_setSocket hs (t := (h.sockets i).socket.setRead false) rfl
    have hy : Owned (h.setSocket i ((h.sockets i).socket.setRead false)) o
        { h.objects o with recvQueue_ := [], recvQueueTail_ := none } :=
      hcalm'.core.deliver hq rfl fun j hj => absurd hj (hno j)
    exact hcalm'.deliver ho hy hq

/-- Every callback keeps the invariant. -/
theorem Inv.handle {c : Callback F} (hi : Inv h (.handler i o c :: st)) :
    Inv (h.handle i o c).1 ((h.handle i o c).2 ++ st) := by
  cases c with
  | sendSuccess id => exact (hi.running.cons (g := .user) rfl (fun _ => rfl) rfl).inv
  | sendError id e => exact (hi.running.cons (g := .user) rfl (fun _ => rfl) rfl).inv
  | messageReceived data files =>
    exact deref_cases (P := fun r => Inv r.1 (r.2 ++ st)) hi.raise fun _ => hi.messageReceived
  | eofReceived => exact deref_cases (P := fun r => Inv r.1 (r.2 ++ st)) hi.raise fun _ => hi.terminate
  | socketClosed => exact deref_cases (P := fun r => Inv r.1 (r.2 ++ st)) hi.raise fun _ => hi.terminate
  | receiveError e => exact deref_cases (P := fun r => Inv r.1 (r.2 ++ st)) hi.raise fun _ => hi.terminate

/-! ### Failing and dropping the queue -/

/-- The queue is handed to a frame that fails it. -/
theorem Calm.takeQueue {ew : ReceiveFailure} (hc : Calm h st) (ho : o < h.objectCount)
    (hn : ∀ i, ¬ h.PointsTo i o) :
    Calm (h.setObject o { h.objects o with recvQueue_ := [], recvQueueTail_ := none })
      (.failReceiveQueue (h.objects o).recvQueue_ ew :: st) := by
  have hx := hc.core.owned o
  have hy : h.Owned o { h.objects o with recvQueue_ := [], recvQueueTail_ := none } := { hx with
    routed := fun i hi => absurd hi (hn i)
    entries := nofun
    tail := rfl
    gone := fun hg => ⟨(hx.gone hg).1, rfl⟩ }
  exact {
    goods := hc.goods.stack fun _ => rfl
    core := (hc.core.setObject hy).cons fun _ => rfl
    places := hc.places.take ho rfl fun id => by
      rw [draining_cons, List.count_append, Nat.add_comm]; rfl
    resting := resting_cons.2 ⟨rfl, hc.resting⟩ }

/-- **One turn** of the loop fails the first receive. -/
theorem Calm.failReceiveQueue {K : Kernel F κ} {callback : List ReceiveEntry} {ew : ReceiveFailure}
    (hc : Calm h (.failReceiveQueue callback ew :: st)) :
    Inv (h.exec K st (.failReceiveQueue callback ew)).1 ((h.exec K st (.failReceiveQueue callback ew)).2 ++ st) := by
  cases callback with
  | nil => exact (hc.drop (fun _ => rfl) rfl).inv
  | cons e next =>
    have hpl : Places (h.complete e.promise_ (.error ew)) (.failReceiveQueue next ew :: st) :=
      hc.places.fail (by simp [HeapFrame.queue])
    have hcore : Core h (.failReceiveQueue next ew :: st) := hc.core.stack fun _ _ hst => hst
    have hcalm : Calm (h.complete e.promise_ (.error ew)) (.failReceiveQueue next ew :: st) := {
      goods := hc.goods.stack fun _ => rfl
      core := hcore.congr rfl rfl le_rfl le_rfl
      places := hpl
      resting := resting_cons.2 ⟨rfl, (resting_cons.1 hc.resting).2⟩ }
    exact (hcalm.cons (g := .user) rfl (fun _ => rfl) rfl).inv

@[simp] theorem setObject_self : h.setObject o (h.objects o) = h := by simp [FutureHeap.setObject]

@[simp] theorem setObject_setObject : (h.setObject o x).setObject o y = h.setObject o y := by
  simp [FutureHeap.setObject]

theorem clearQueue_eq {other : Option ℕ} (hq : h.queueOf other = []) : h.clearQueue other = h := by
  cases other with
  | none => rfl
  | some p =>
    have hp : { h.objects p with recvQueue_ := [] } = h.objects p := by
      rw [← show (h.objects p).recvQueue_ = [] from hq]
    rw [clearQueue, hp, setObject_self]

/-- Nothing is moved and nothing dropped. -/
theorem moveQueue_eq {other : Option ℕ} (ho : (h.objects o).recvQueue_ = []) (hq : h.queueOf other = []) :
    h.moveQueue o other = (h, [.dropQueue [] o other]) := by
  have hx : { h.objects o with recvQueue_ := [] } = h.objects o := by rw [← ho]
  simp only [FutureHeap.moveQueue, clearQueue_eq hq, hq, hx, ho, setObject_self]

theorem moveTail_eq {other : Option ℕ} (ho : (h.objects o).recvQueueTail_ = none)
    (hq : ∀ p, other = some p → (h.objects p).recvQueueTail_ = none) : h.moveTail o other = h := by
  have hx : { h.objects o with recvQueueTail_ := none } = h.objects o := by rw [← ho]
  cases other with
  | none => rw [FutureHeap.moveTail, hx, setObject_self]
  | some p =>
    have hp : { h.objects p with recvQueueTail_ := none } = h.objects p := by rw [← hq p rfl]
    simp only [FutureHeap.moveTail, hq p rfl, hx, setObject_self, hp]

/-- An empty queue has no tail. -/
theorem Core.tail_none (hc : Core h st) (hq : (h.objects o).recvQueue_ = []) : (h.objects o).recvQueueTail_ = none := by
  rw [(hc.owned o).tail, hq]
  rfl

/-- What a frame of `moveQueue` does when there are no receives. -/
theorem moveQueue_cases {K : Kernel F κ} {other : Option ℕ} {P : FutureHeap κ F × List (HeapFrame F) → Prop}
    (ho : (h.objects o).recvQueue_ = []) (hq : h.queueOf other = [])
    (gone : P (h.raise .useAfterFree, [.moveQueue o other])) (there : P (h, [.dropQueue [] o other])) :
    P (h.exec K st (.moveQueue o other)) := by
  refine derefMoved_cases gone ?_
  rwa [moveQueue_eq ho hq]

/-- The queue is moved where both are empty, as `MoveSafe` asks for. -/
theorem Calm.moveQueue {K : Kernel F κ} {other : Option ℕ} (hc : Calm h (.moveQueue o other :: st))
    (ho : (h.objects o).recvQueue_ = []) (hq : h.queueOf other = []) :
    Inv (h.exec K st (.moveQueue o other)).1 ((h.exec K st (.moveQueue o other)).2 ++ st) := by
  refine moveQueue_cases (P := fun r => Inv r.1 (r.2 ++ st)) ho hq hc.inv.raise ?_
  exact {
    goods := hc.goods.stack fun _ => rfl
    core := hc.core.stack fun _ _ hst => hst
    places := hc.places.stack rfl
    resting := (hc.drop (fun _ => rfl) rfl).resting
    called := ⟨rfl, ho, hq⟩ }

/-- A frame of `dropQueue` has nothing to drop. -/
theorem Inv.dropQueue_cases {K : Kernel F κ} {queue : List ReceiveEntry} {other : Option ℕ}
    {P : FutureHeap κ F × List (HeapFrame F) → Prop} (hi : Inv h (.dropQueue queue o other :: st))
    (gone : P (h.raise .useAfterFree, [.dropQueue queue o other])) (there : P (h, [])) :
    P (h.exec K st (.dropQueue queue o other)) := by
  obtain ⟨rfl, ho, hq⟩ := hi.called
  have htail : ∀ p, other = some p → (h.objects p).recvQueueTail_ = none := by
    rintro p rfl
    exact hi.core.tail_none hq
  refine derefMoved_cases gone ?_
  rwa [moveTail_eq (hi.core.tail_none ho) htail]

/-- **A queue that is dropped** leaves its futures broken. -/
theorem Inv.dropQueue {K : Kernel F κ} {queue : List ReceiveEntry} {other : Option ℕ}
    (hi : Inv h (.dropQueue queue o other :: st)) :
    Inv (h.exec K st (.dropQueue queue o other)).1 ((h.exec K st (.dropQueue queue o other)).2 ++ st) := by
  refine hi.dropQueue_cases (P := fun r => Inv r.1 (r.2 ++ st)) hi.raise ?_
  obtain ⟨rfl, -, -⟩ := hi.called
  have hcalm : Calm h st := {
    goods := hi.goods.stack fun _ => rfl
    core := hi.core.tail
    places := hi.places.stack rfl
    resting := hi.resting }
  exact hcalm.inv

/-! ### Destroying an object -/

/-- What the end of the destructor does. -/
theorem destructor_cases {P : FutureHeap κ F × List (HeapFrame F) → Prop}
    (failed : P (h.raise .checkFailed, [.destructor o]))
    (passed : (h.objects o).recvQueue_ = [] →
      P ((h.setObject o { h.objects o with lifetime := .gone }).assignSocket o none)) : P (h.destructor o) := by
  unfold FutureHeap.destructor
  dsimp only
  split
  · rename_i hq
    refine passed ?_
    simp only [Bool.and_eq_true, List.isEmpty_iff] at hq
    exact hq.1
  · exact failed

/-- The last part of a destructor. -/
theorem Calm.destructor (hc : Calm h (.destructor o :: st)) :
    Inv (h.destructor o).1 ((h.destructor o).2 ++ st) := by
  refine destructor_cases (P := fun r => Inv r.1 (r.2 ++ st)) hc.inv.raise fun hq => ?_
  have hcalm := hc.drop (fun _ => rfl) rfl
  have hx := hc.core.owned o
  -- the queue is empty, so no socket calls the object any more
  have hn : ∀ i, ¬ h.PointsTo i o := fun i hi => (hx.routed i hi).2.1 hq
  have hpl : Places (h.setObject o { h.objects o with lifetime := .gone, socket_ := none }) st :=
    hcalm.places.setObject_queue rfl
  simp only [FutureHeap.assignSocket, setObject_objects_self]
  cases hs : (h.objects o).socket_ with
  | none =>
    simp only [setObject_setObject]
    refine (hcalm.setObject ?_ hpl).inv
    exact { hx with
      made := fun hl => absurd rfl hl
      opened := nofun
      unique := nofun
      routed := fun i hi => absurd hi (hn i)
      gone := fun _ => ⟨rfl, hq⟩ }
  | some i =>
    simp only [setObject_setObject, setObject_sockets]
    have hr := retired_destroy (hcalm.goods i).inv
    refine retire hcalm.goods hcalm.core hcalm.resting hs hr ((hcalm.goods i).call .destroy) ?_ hpl fun hpt => absurd hpt (hn i)
    exact { hx with
      made := fun hl => absurd rfl hl
      opened := nofun
      unique := nofun
      routed := fun j hj => absurd hj (hcalm.core.not_pointsTo_setSocket hs hr.uninstalled j)
      gone := fun _ => ⟨rfl, hq⟩ }

/-- **The destructor** closes the socket first. -/
theorem Calm.destroy (hc : Calm h st) (hl : (h.objects o).lifetime = .usable) :
    Inv (h.destroy o).1 ((h.destroy o).2 ++ st) := by
  have hcalm : Calm h (.destructor o :: st) := hc.cons rfl (fun _ => rfl) rfl
  have hx := hc.core.owned o
  have hmade : o < h.objectCount := hx.made (by simp [hl])
  have hpl : Places (h.setObject o { h.objects o with lifetime := .closing }) (.destructor o :: st) :=
    hcalm.places.setObject_queue rfl
  unfold FutureHeap.destroy
  dsimp only
  rw [List.append_assoc]
  split
  · rename_i i hs
    have hr := retired_closeNow (hcalm.goods i).inv
    refine retire hcalm.goods hcalm.core hcalm.resting hs hr ((hcalm.goods i).call .closeNow) ?_ hpl fun _ => by simp
    exact { hx with
      made := fun _ => hmade
      routed := fun j hj => absurd hj (hc.core.not_pointsTo_setSocket hs hr.uninstalled j)
      gone := nofun }
  · rename_i hs
    refine (hcalm.setObject ?_ hpl).inv
    exact { hx with
      made := fun _ => hmade
      routed := fun j hj => absurd hj (hc.core.not_pointsTo_of_none hs j)
      gone := nofun }

/-! ### Calls of the user -/

/-- `send` keeps the invariant. -/
theorem Calm.send {msg : Message F} {allocated : Bool} (hc : Calm h st) :
    Inv (h.send o msg allocated).1 ((h.send o msg allocated).2 ++ st) := by
  unfold FutureHeap.send
  split
  · rename_i i hs
    have hg := hc.goods i
    exact hc.onSocket ((hc.core.owned o).opened i hs) (UnixSocket.send_effect hg.inv hg.ledger)
      (hg.call (.send msg true allocated))
  · exact hc.inv

theorem Core.tailOk (hc : Core h st) : tailOk (h.objects o) = true := by
  simp only [FutureHeap.tailOk, decide_eq_true_eq]
  exact (hc.owned o).tail

/-- The receive callback of socket `i` is object `o` from now on. -/
def install (h : FutureHeap κ F) (i o : ℕ) : FutureHeap κ F :=
  { h.setSocket i ((h.sockets i).socket.setRead true) with
    sockets := update h.sockets i ⟨(h.sockets i).socket.setRead true, o⟩ }

/-- What `setReceiveCallback` can do. -/
theorem setReceiveCallback_cases {P : FutureHeap κ F × List (HeapFrame F) → Prop} (hg : Goods h st')
    (throw : (h.sockets i).socket.receiveCallback_ = true ∨ (h.sockets i).socket.closeStarted_ = true →
      ∀ e, P (h.onSocket i ((h.sockets i).socket.throwing e, [])))
    (done : (h.sockets i).socket.receiveCallback_ = false → (h.sockets i).socket.closeStarted_ = false →
      P (h.install i o, [])) : P (h.setReceiveCallback i o) := by
  unfold FutureHeap.setReceiveCallback
  dsimp only
  cases hcb : (h.sockets i).socket.receiveCallback_ with
  | true =>
    rw [if_pos (by simp), UnixSocket.setReceiveCallback, if_pos hcb]
    exact throw (Or.inl hcb) _
  | false =>
    cases hcl : (h.sockets i).socket.closeStarted_ with
    | true =>
      rw [if_pos (by simp), UnixSocket.setReceiveCallback, if_neg (by simp [hcb]), if_pos hcl]
      exact throw (Or.inr hcl) _
    | false =>
      have heq : ({ (h.onSocket i ((h.sockets i).socket.setRead true, [])).1 with
          sockets := update (h.onSocket i ((h.sockets i).socket.setRead true, [])).1.sockets i
            { (h.onSocket i ((h.sockets i).socket.setRead true, [])).1.sockets i with receiveCallback_ := o } }) =
          h.install i o := by
        simp [install, FutureHeap.onSocket, FutureHeap.setSocket]
      rw [if_neg (by simp), UnixSocket.setReceiveCallback_ok (hg i).inv.handler hcb hcl, heq]
      exact done hcb hcl

/-- The callback is installed for an object that has something to receive. -/
theorem Calm.setReceiveCallback (hc : Calm h st) (hs : (h.objects o).socket_ = some i)
    (hq : (h.objects o).recvQueue_ ≠ []) (hl : (h.objects o).lifetime = .usable) :
    Inv (h.setReceiveCallback i o).1 ((h.setReceiveCallback i o).2 ++ st) := by
  have hg := (hc.goods i).call .setReceiveCallback
  refine setReceiveCallback_cases (P := fun r => Inv r.1 (r.2 ++ st)) hc.goods ?_ ?_
  · intro _ e
    have hthrow : Running.Good ⟨(h.sockets i).socket.throwing e, innerStack i st⟩ :=
      ⟨{ (hc.goods i).inv with }, { (hc.goods i).ledger with }⟩
    exact hc.onSocket ((hc.core.owned o).opened i hs) (.quiet rfl rfl UnixSocket.internal_nil) hthrow
  · intro hcb hcl
    rw [UnixSocket.call, UnixSocket.setReceiveCallback_ok (hc.goods i).inv.handler hcb hcl] at hg
    have hcalm : Calm (h.install i o) st := {
      goods := by
        intro j
        by_cases hj : j = i
        · subst hj
          simpa [install] using hg
        · rw [install]
          dsimp only
          rw [update_of_ne hj]
          exact hc.goods j
      core := (hc.core.install hs hq hl rfl).congr rfl rfl le_rfl le_rfl
      places := hc.places
      resting := hc.resting }
    exact hcalm.inv

/-- Object `o` with the future of the next call of `receive`. -/
def enqueue (h : FutureHeap κ F) (o : ℕ) : FutureHeap κ F :=
  setObject { h with receives := h.receives + 1 } o { h.objects o with
    recvQueueTail_ := some h.receives
    recvQueue_ := (h.objects o).recvQueue_ ++ [⟨o, h.receives⟩] }

/-- What `receive` can do. -/
theorem receive_cases {P : FutureHeap κ F × List (HeapFrame F) → Prop} (hc : Core h st)
    (reject : (h.objects o).socket_ = none →
      P ({ h with receives := h.receives + 1 }.complete h.receives (.error (.error .cannotReceive)), []))
    (append : ∀ i, (h.objects o).socket_ = some i → (h.objects o).recvQueue_ ≠ [] → P (h.enqueue o, []))
    (first : ∀ i, (h.objects o).socket_ = some i → (h.objects o).recvQueue_ = [] →
      P ((h.enqueue o).setReceiveCallback i o)) : P (h.receive o) := by
  have ht := (hc.owned o).tail
  unfold FutureHeap.receive
  dsimp only
  split
  · rename_i hs
    exact reject hs
  · rename_i i hs
    rw [if_pos hc.tailOk]
    split
    · rename_i htail
      refine append i hs fun hq => ?_
      simp [ht, hq] at htail
    · rename_i htail
      refine first i hs ?_
      simpa [ht] using htail

/-- A receive is queued with its number. -/
theorem Calm.enqueue (hc : Calm h st) (hl : (h.objects o).lifetime = .usable) : Calm (h.enqueue o) st := by
  have hx := hc.core.owned o
  have hy : h.Owned o { h.objects o with
      recvQueueTail_ := some h.receives
      recvQueue_ := (h.objects o).recvQueue_ ++ [⟨o, h.receives⟩] } := { hx with
    routed := fun j hj => ⟨(hx.routed j hj).1, by simp, hl⟩
    entries := by
      intro e he
      obtain he | he := List.mem_append.1 he
      · exact hx.entries e he
      · rw [List.mem_singleton.1 he]
    tail := by simp
    gone := fun hg => by simp [hl] at hg }
  exact {
    goods := hc.goods
    core := (hc.core.setObject hy).congr rfl rfl le_rfl le_rfl
    places := hc.places.enqueue (hx.made (by simp [hl])) rfl
    resting := hc.resting }

/-- **`receive`** keeps the invariant, in each of its branches. -/
theorem Calm.receive (hc : Calm h st) (hl : (h.objects o).lifetime = .usable) :
    Inv (h.receive o).1 ((h.receive o).2 ++ st) := by
  refine receive_cases (P := fun r => Inv r.1 (r.2 ++ st)) hc.core ?_ ?_ ?_
  · intro _
    exact (hc.congr hc.places.reject rfl rfl rfl le_rfl).inv
  · intro i _ _
    exact (hc.enqueue hl).inv
  · intro i hs _
    refine (hc.enqueue hl).setReceiveCallback ?_ ?_ ?_
    · simpa [FutureHeap.enqueue] using hs
    · simp [FutureHeap.enqueue]
    · simpa [FutureHeap.enqueue] using hl

/-- A number that no object has yet. -/
theorem Core.not_pointsTo_next (hc : Core h st) (j : ℕ) : ¬ h.PointsTo j h.objectCount := by
  intro hj
  have hx := hc.owned h.objectCount
  have := hx.made (by simp [(hx.routed j hj).2.2])
  omega

/-- A new object has nothing pending. -/
theorem pending_next (hy : y.recvQueue_ = []) {n id : ℕ} :
    ({ h.setObject h.objectCount y with objectCount := h.objectCount + 1, socketCount := n }).pending id =
      h.pending id := by
  have hlast : ((h.setObject h.objectCount y).objects h.objectCount).recvQueue_ = [] := by simpa using hy
  rw [pending, Finset.sum_range_succ]
  dsimp only
  rw [hlast, List.map_nil, List.count_nil, Nat.add_zero]
  refine Finset.sum_congr rfl fun p hp => ?_
  have hne : p ≠ h.objectCount := by
    have := Finset.mem_range.1 hp
    omega
  rw [setObject_objects_ne hne]

/-- A new object without receives. -/
theorem Calm.next {n : ℕ} (hc : Calm h st) (hn : h.socketCount ≤ n) (hq : y.recvQueue_ = [])
    (ht : y.recvQueueTail_ = none) (hl : y.lifetime ≠ .gone)
    (hs : ∀ i, y.socket_ = some i → i < n ∧ ∀ p, p ≠ h.objectCount → (h.objects p).socket_ ≠ some i) :
    Calm { h.setObject h.objectCount y with objectCount := h.objectCount + 1, socketCount := n } st := by
  have hcore : Core { h with objectCount := h.objectCount + 1, socketCount := n } st :=
    hc.core.congr rfl rfl (Nat.le_succ _) hn
  have hy : Owned { h with objectCount := h.objectCount + 1, socketCount := n } h.objectCount y := {
    made := fun _ => Nat.lt_succ_self _
    opened := fun i hi => (hs i hi).1
    unique := fun i p hp hi => (hs i hi).2 p hp
    routed := fun j hj => absurd hj (hc.core.not_pointsTo_next j)
    entries := by rw [hq]; exact nofun
    tail := by rw [hq, ht]; rfl
    gone := fun hg => absurd hg hl }
  exact {
    goods := hc.goods
    core := hcore.setObject hy
    places := fun id => by rw [pending_next hq]; exact hc.places id
    resting := hc.resting }

/-- **A new object** is one more owner. -/
theorem Calm.create {connected : Bool} (hc : Calm h st) : Calm (h.create connected) st := by
  cases connected with
  | false => exact hc.next le_rfl rfl rfl nofun nofun
  | true =>
    refine hc.next (Nat.le_succ _) rfl rfl nofun ?_
    rintro i hi
    obtain rfl : h.socketCount = i := by simpa using hi
    refine ⟨Nat.lt_succ_self _, fun p _ hp => ?_⟩
    have := (hc.core.owned p).opened _ hp
    omega

/-- A socket is made and assigned. -/
theorem Calm.connectSuccess (hc : Calm h st) (hl : (h.objects o).lifetime ≠ .gone) :
    Inv (h.connectSuccess o).1 ((h.connectSuccess o).2 ++ st) := by
  have hcalm : Calm { h with socketCount := h.socketCount + 1 } (.moveQueue o none :: st) :=
    (hc.cons (g := .moveQueue o none) rfl (fun _ => rfl) rfl).congr
      (hc.places.stack rfl) rfl rfl rfl (Nat.le_succ _)
  rw [FutureHeap.connectSuccess, List.append_assoc]
  refine hcalm.assignSocket ?_ fun _ => hl
  intro n hn
  obtain rfl : h.socketCount = n := by simpa using hn
  refine ⟨Nat.lt_succ_self _, (hc.core.fresh _ le_rfl).2.1, fun p _ hp => ?_⟩
  have := (hc.core.owned p).opened _ hp
  omega

/-- An object without receives gives its socket away. -/
theorem Calm.giveSocket (hc : Calm h st) (hq : (h.objects o).recvQueue_ = []) :
    Calm (h.setObject o { h.objects o with socket_ := none }) st := by
  have hx := hc.core.owned o
  refine hc.setObject ?_ (hc.places.setObject_queue rfl)
  exact { hx with
    opened := nofun
    unique := nofun
    routed := fun j hj => absurd hq (hx.routed j hj).2.1
    gone := fun hg => ⟨rfl, (hx.gone hg).2⟩ }

/-- The socket of an object without receives may be given to another. -/
theorem Core.free_given (hc : Core h st) (hq : (h.objects p).recvQueue_ = []) :
    (h.setObject p { h.objects p with socket_ := none }).Free o (h.objects p).socket_ := by
  intro n hn
  refine ⟨(hc.owned p).opened n hn, ?_, fun q _ => ?_⟩
  · by_contra hr
    have hpt := hc.pointsTo hn (by simpa using hr)
    exact ((hc.owned p).routed n hpt).2.1 hq
  · by_cases hqp : q = p
    · subst hqp
      simp
    · rw [setObject_objects_ne hqp]
      exact (hc.owned p).unique n q hqp hn

/-- **The beginning of a move assignment** closes the socket of the target. -/
theorem Calm.moveAssign (hc : Calm h st) (hq : (h.objects p).recvQueue_ = [])
    (hl : (h.objects o).lifetime = .usable) :
    Inv (h.moveAssign o p).1 ((h.moveAssign o p).2 ++ st) := by
  have hcalm := (hc.giveSocket hq).cons (g := .moveQueue o (some p)) rfl (fun _ => rfl) rfl
  rw [FutureHeap.moveAssign, List.append_assoc]
  refine hcalm.assignSocket (hc.core.free_given hq) fun _ => ?_
  by_cases hop : o = p
  · subst hop
    simp [hl]
  · rw [setObject_objects_ne hop]
    simp [hl]

/-- **A move construction** hands over the socket. -/
theorem Calm.moveConstruct (hc : Calm h st) (hq : (h.objects p).recvQueue_ = [])
    (hl : (h.objects p).lifetime = .usable) : Calm (h.moveConstruct p) st := by
  have hx := hc.core.owned p
  have hp : p < h.objectCount := hx.made (by simp [hl])
  have ht := hc.core.tail_none hq
  have hcleared : { h.objects p with socket_ := none, recvQueue_ := [], recvQueueTail_ := none } =
      { h.objects p with socket_ := none } := by rw [← hq, ← ht]
  have hcomm : h.moveConstruct p =
      { (h.setObject p { h.objects p with socket_ := none }).setObject h.objectCount
          { h.objects p with lifetime := .usable } with
        objectCount := h.objectCount + 1
        socketCount := h.socketCount } := by
    unfold FutureHeap.moveConstruct
    dsimp only
    rw [hcleared]
    simp only [FutureHeap.setObject]
    rw [update_comm (by omega)]
  rw [hcomm]
  refine (hc.giveSocket hq).next le_rfl hq ht nofun fun i hi => ?_
  have hfree := hc.core.free_given (o := h.objectCount) hq i hi
  exact ⟨hfree.1, hfree.2.2⟩

/-- The timeout of an entry of the queue. -/
theorem Calm.receiveTimeout (hc : Calm h st) (hq : (h.objects o).recvQueue_ ≠ []) :
    Inv (h.receiveTimeout o).1 ((h.receiveTimeout o).2 ++ st) := by
  have hx := hc.core.owned o
  have hl : (h.objects o).lifetime ≠ .gone := fun hg => hq (hx.gone hg).2
  have ho := hx.made hl
  -- the entries are with the frame below before the socket is closed
  have hg : Goods h (.failReceiveQueue (h.objects o).recvQueue_ (.error .timeout) :: st) :=
    hc.goods.stack fun _ => rfl
  have hcore : Core h (.failReceiveQueue (h.objects o).recvQueue_ (.error .timeout) :: st) :=
    hc.core.cons fun _ => rfl
  have hrest : Resting (.failReceiveQueue (h.objects o).recvQueue_ (.error .timeout) :: st) :=
    resting_cons.2 ⟨rfl, hc.resting⟩
  have hpl : Places (h.setObject o { h.objects o with recvQueue_ := [], recvQueueTail_ := none, socket_ := none })
      (.failReceiveQueue (h.objects o).recvQueue_ (.error .timeout) :: st) :=
    hc.places.take ho rfl fun id => by
      rw [draining_cons, List.count_append, Nat.add_comm]; rfl
  unfold FutureHeap.receiveTimeout FutureHeap.reset FutureHeap.assignSocket
  dsimp only
  rw [setObject_objects_self, List.append_assoc]
  split
  · rename_i i hs
    have hr := retired_destroy (hc.goods i).inv
    rw [setObject_setObject, setObject_sockets]
    refine retire hg hcore hrest hs hr ((hg i).call .destroy) ?_ hpl fun _ => hl
    exact { hx with
      opened := nofun
      unique := nofun
      routed := fun j hj => absurd hj (hc.core.not_pointsTo_setSocket hs hr.uninstalled j)
      entries := nofun
      tail := rfl
      gone := fun _ => ⟨rfl, rfl⟩ }
  · rename_i hs
    rw [setObject_setObject]
    refine Calm.inv ⟨hg, hcore.setObject ?_, hpl, hrest⟩
    exact { hx with
      opened := nofun
      unique := nofun
      routed := fun j hj => absurd hj (hc.core.not_pointsTo_of_none hs j)
      entries := nofun
      tail := rfl
      gone := fun _ => ⟨rfl, rfl⟩ }

/-! ### Steps -/

/-- Object `o` is the receive callback of its socket, which is open. -/
def installed (h : FutureHeap κ F) (o : ℕ) : Bool :=
  match (h.objects o).socket_ with
  | some i => (h.sockets i).socket.socket_ && (h.sockets i).socket.receiveCallback_ && (h.sockets i).receiveCallback_ = o
  | none => false

theorem Calm.installed_iff (hg : Goods h st) (hc : Core h st) : h.installed o = true ↔ ∃ i, h.PointsTo i o := by
  unfold FutureHeap.installed
  constructor
  · split
    · rename_i i hs
      intro hin
      obtain ⟨⟨-, hr⟩, ho⟩ := by simpa using hin
      exact ⟨i, hr, ho⟩
    · intro h
      cases h
  · rintro ⟨i, hr, ho⟩
    have hs := ((hc.owned o).routed i ⟨hr, ho⟩).1
    have hopen : (h.sockets i).socket.socket_ = true := (hg i).inv.open_of_installed hr
    rw [hs]
    simp [hr, ho, hopen]

end FutureHeap

namespace HeapRunning

open FutureHeap

variable {K : Kernel F κ} {r r' : HeapRunning κ F} {a : HeapAct F}

/-- An object that is moved has no receives, and an object that has some is not given a
socket by a move. None are dropped from an object that is installed, or by a move
assignment. -/
def MoveSafe (r : HeapRunning κ F) : HeapAct F → Prop
  | .moveConstruct other => (r.heap.objects other).recvQueue_ = []
  | .moveAssign o other =>
    (r.heap.objects other).recvQueue_ = [] ∧
      ((r.heap.objects o).recvQueue_ = [] ∨ (r.heap.objects other).socket_ = none)
  | .run =>
    match r.stack with
    | .failAllPromises o _ :: _ => r.heap.installed o = false
    | .moveQueue o other :: _ => (r.heap.objects o).recvQueue_ = [] ∧ r.heap.queueOf other = []
    | _ => True
  | _ => True

theorem fault_none (hstep : step K r a = some r') : r.heap.fault = none := by
  unfold step at hstep
  dsimp only at hstep
  split at hstep
  · cases hstep
  · rename_i hf
    simpa using hf

/-- What a step can do. -/
theorem step_cases {P : HeapAct F → HeapRunning κ F → Prop} (hstep : step K r a = some r')
    (create : r.userCode = true → ∀ connected, P (.create connected) ⟨r.heap.create connected, r.stack⟩)
    (receive : ∀ o, r.mayCall o = true → P (.receive o) (push (r.heap.receive o) r.stack))
    (send : ∀ o msg allocated, r.mayCall o = true →
      P (.send o msg allocated) (push (r.heap.send o msg allocated) r.stack))
    (closeNow : ∀ o, r.mayCall o = true → P (.closeNow o) (push (r.heap.closeNow o) r.stack))
    (connected : ∀ o, r.mayCall o = true → P (.connect o .connected) (push (r.heap.connectSuccess o) r.stack))
    (failed : ∀ o, r.mayCall o = true → P (.connect o .failed) r)
    (blocked : ∀ o, r.mayCall o = true →
      P (.connect o .blocked) ⟨{ r.heap with connecting := r.heap.connecting ++ [o] }, r.stack⟩)
    (moveConstruct : ∀ other, r.mayCall other = true →
      P (.moveConstruct other) ⟨r.heap.moveConstruct other, r.stack⟩)
    (moveAssign : ∀ o other, r.mayCall o = true → r.mayCall other = true →
      P (.moveAssign o other) (push (r.heap.moveAssign o other) r.stack))
    (destroy : ∀ o, r.mayCall o = true → P (.destroy o) (push (r.heap.destroy o) r.stack))
    (connectReady : ∀ k b o, r.stack = [] →
      let h := { r.heap with connecting := r.heap.connecting.eraseIdx k }
      P (.connectReady k b) (push (if b then h.deref o [] (h.connectSuccess o) else (h, [])) [.user]))
    (ready : ∀ i events, r.stack = [] → i < r.heap.socketCount →
      P (.ready i events) ⟨r.heap, [.socket i (UnixSocket.handlerReady events)]⟩)
    (sendTimeout : ∀ i, r.stack = [] → i < r.heap.socketCount → (r.heap.sockets i).socket.isScheduled = true →
      P (.sendTimeout i) (push (r.heap.onSocket i (r.heap.sockets i).socket.timeoutExpired) []))
    (receiveTimeout : ∀ o k e, r.stack = [] → (r.heap.objects o).recvQueue_[k]? = some e →
      P (.receiveTimeout o k) (push (r.heap.deref e.socket_ [] (r.heap.receiveTimeout e.socket_)) []))
    (ret : ∀ below, r.stack = .user :: below → P .ret ⟨r.heap, below⟩)
    (run : ∀ f below, r.stack = f :: below → P .run (push (r.heap.exec K below f) below)) : P a r' := by
  have hf := fault_none hstep
  simp only [step] at hstep
  rw [if_neg (by simp [hf])] at hstep
  cases a with
  | create b =>
    obtain ⟨hu, rfl⟩ := by simpa using hstep
    exact create hu b
  | receive o =>
    obtain ⟨hu, rfl⟩ := by simpa using hstep
    exact receive o hu
  | send o msg allocated =>
    obtain ⟨hu, rfl⟩ := by simpa using hstep
    exact send o msg allocated hu
  | closeNow o =>
    obtain ⟨hu, rfl⟩ := by simpa using hstep
    exact closeNow o hu
  | connect o outcome =>
    cases outcome with
    | connected =>
      obtain ⟨hu, rfl⟩ := by simpa using hstep
      exact connected o hu
    | failed =>
      obtain ⟨hu, rfl⟩ := by simpa using hstep
      exact failed o hu
    | blocked =>
      obtain ⟨hu, rfl⟩ := by simpa using hstep
      exact blocked o hu
  | moveConstruct other =>
    obtain ⟨hu, rfl⟩ := by simpa using hstep
    exact moveConstruct other hu
  | moveAssign o other =>
    obtain ⟨⟨ho, hu⟩, rfl⟩ := by simpa using hstep
    exact moveAssign o other ho hu
  | destroy o =>
    obtain ⟨hu, rfl⟩ := by simpa using hstep
    exact destroy o hu
  | connectReady k b =>
    obtain ⟨hst, hstep⟩ := by simpa using hstep
    split at hstep
    · cases hstep
    · rename_i o _
      rw [← Option.some.inj hstep]
      exact connectReady k b o hst
  | ready i events =>
    obtain ⟨⟨⟨⟨hst, hi⟩, -⟩, -⟩, rfl⟩ := by simpa using hstep
    exact ready i events hst hi
  | sendTimeout i =>
    obtain ⟨⟨⟨hst, hi⟩, hsch⟩, rfl⟩ := by simpa using hstep
    exact sendTimeout i hst hi hsch
  | receiveTimeout o k =>
    obtain ⟨hst, hstep⟩ := by simpa using hstep
    split at hstep
    · cases hstep
    · rename_i e he
      rw [← Option.some.inj hstep]
      exact receiveTimeout o k e hst he
  | ret =>
    dsimp only at hstep
    split at hstep
    · rename_i below hst
      rw [← Option.some.inj hstep]
      exact ret below hst
    · cases hstep
  | run =>
    dsimp only at hstep
    split at hstep
    · cases hstep
    · cases hstep
    · rename_i f below _ hst
      rw [← Option.some.inj hstep]
      exact run f below hst

/-- User code is in control: on an empty stack or above a continuation. -/
theorem calm_of_userCode (hi : Inv r.heap r.stack) (hu : r.userCode = true) : Calm r.heap r.stack := by
  refine hi.calm ?_
  have hp := hi.resting
  unfold userCode at hu
  split at hu
  · rename_i hst
    rw [hst]
    exact resting_nil
  · rename_i below hst
    rw [hst] at hp ⊢
    exact resting_cons.2 ⟨rfl, hp⟩
  · cases hu

/-- User code may call an object that is usable. -/
theorem mayCall_iff {o : ℕ} :
    r.mayCall o = true ↔ r.userCode = true ∧ (r.heap.objects o).lifetime = .usable := by simp [mayCall]

/-- **One frame** executed keeps the invariant. -/
theorem inv_exec {f : HeapFrame F} {below : List (HeapFrame F)} (hi : Inv r.heap (f :: below))
    (hst : r.stack = f :: below) (hsafe : r.MoveSafe .run) :
    Inv (r.heap.exec K below f).1 ((r.heap.exec K below f).2 ++ below) := by
  have hcalm (hf : f.isTransient = false) : Calm r.heap (f :: below) :=
    hi.calm (resting_cons.2 ⟨hf, hi.resting⟩)
  simp only [MoveSafe, hst] at hsafe
  cases f with
  | socket i f => exact hi.exec_socket
  | handler i o c => exact hi.handle
  | running i c => exact (hcalm rfl).running.inv
  | failAllPromises o error =>
    refine deref_cases (P := fun r => Inv r.1 (r.2 ++ below)) hi.raise fun hl => ?_
    have hn : ∀ i, ¬ r.heap.PointsTo i o := by
      intro i hpt
      have := (Calm.installed_iff hi.goods hi.core).2 ⟨i, hpt⟩
      simp [hsafe] at this
    exact (((hcalm rfl).drop (fun _ => rfl) rfl).takeQueue ((hi.core.owned o).made hl) hn).inv
  | failReceiveQueue callback ew => exact (hcalm rfl).failReceiveQueue
  | moveQueue o other => exact (hcalm rfl).moveQueue hsafe.1 hsafe.2
  | dropQueue queue o other => exact hi.dropQueue
  | destructor o => exact (hcalm rfl).destructor
  | user => exact ((hcalm rfl).drop (fun _ => rfl) rfl).inv

/-- **One safe step** keeps the invariant. -/
theorem inv_step (hi : Inv r.heap r.stack) (hsafe : r.MoveSafe a) (hstep : step K r a = some r') :
    Inv r'.heap r'.stack := by
  revert hsafe
  have hcalm (hu : r.userCode = true) : Calm r.heap r.stack := calm_of_userCode hi hu
  have hcall {o : ℕ} (hm : r.mayCall o = true) : Calm r.heap r.stack ∧ (r.heap.objects o).lifetime = .usable :=
    ⟨hcalm (mayCall_iff.1 hm).1, (mayCall_iff.1 hm).2⟩
  have hempty (hst : r.stack = []) : Calm r.heap [] := by
    have := hcalm (by simp [userCode, hst])
    rwa [hst] at this
  refine step_cases (P := fun a r' => r.MoveSafe a → Inv r'.heap r'.stack) hstep ?_ ?_ ?_ ?_ ?_ ?_ ?_ ?_ ?_ ?_ ?_
    ?_ ?_ ?_ ?_ ?_
  · intro hu connected _
    exact (hcalm hu).create.inv
  · intro o hm _
    exact (hcall hm).1.receive (hcall hm).2
  · intro o msg allocated hm _
    exact (hcall hm).1.send
  · intro o hm _
    exact (hcall hm).1.closeNow
  · intro o hm _
    exact (hcall hm).1.connectSuccess (by simp [(hcall hm).2])
  · intro o hm _
    exact hi
  · intro o hm _
    have hcalm' : Calm { r.heap with connecting := r.heap.connecting ++ [o] } r.stack :=
      (hcall hm).1.congr hi.places rfl rfl rfl le_rfl
    exact hcalm'.inv
  · intro other hm hq
    exact ((hcall hm).1.moveConstruct hq (hcall hm).2).inv
  · intro o other hm _ hq
    exact (hcall hm).1.moveAssign hq.1 (hcall hm).2
  · intro o hm _
    exact (hcall hm).1.destroy (hcall hm).2
  · intro k b o hst h _
    have hempty' : Calm h [] := (hempty hst).congr (hempty hst).places rfl rfl rfl le_rfl
    have hcalm' : Calm h [.user] := hempty'.cons rfl (fun _ => rfl) rfl
    cases b with
    | false => exact hcalm'.inv
    | true =>
      have hgone : Inv (h.raise .useAfterFree) ([] ++ [HeapFrame.user]) := hcalm'.inv.raise
      exact deref_cases (P := fun r => Inv r.1 (r.2 ++ [HeapFrame.user])) hgone fun hl => hcalm'.connectSuccess hl
  · intro i events hst hlt _
    have hc := hempty hst
    have hcalm' : Calm r.heap [.socket i (UnixSocket.handlerReady events)] := {
      goods := by
        intro j
        by_cases hj : i = j
        · subst hj
          simpa [HeapFrame.inner] using (hc.goods i).ready events
        · simpa [HeapFrame.inner, hj] using hc.goods j
      core := by
        refine hc.core.stack fun j hj _ => ?_
        have hij : i ≠ j := by omega
        simp [HeapFrame.inner, hij]
      places := hc.places.stack rfl
      resting := resting_cons.2 ⟨rfl, resting_nil⟩ }
    exact hcalm'.inv
  · intro i hst hlt hsch _
    have hc := hempty hst
    have hg := (hc.goods i).timeout hsch
    rw [← List.append_nil (r.heap.sockets i).socket.timeoutExpired.2] at hg
    exact hc.onSocket hlt (UnixSocket.timeoutExpired_effect _) hg
  · intro o k e hst hk _
    have hc := hempty hst
    have he : e.socket_ = o := (hc.core.owned o).entries e (List.mem_of_getElem? hk)
    subst he
    refine deref_cases (P := fun r => Inv r.1 (r.2 ++ [])) hc.inv.raise fun hl => hc.receiveTimeout ?_
    intro hq
    simp [hq] at hk
  · intro below hst _
    rw [hst] at hi
    exact ((hi.calm (resting_cons.2 ⟨rfl, hi.resting⟩)).drop (fun _ => rfl) rfl).inv
  · intro f below hst hsafe
    rw [hst] at hi
    exact inv_exec hi hst hsafe

end HeapRunning

end EdenCommon
