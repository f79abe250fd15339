import EdenCommon.Proof.FutureReceive
import EdenCommon.Spec.FutureSocketHeap
import Mathlib.Algebra.BigOperators.Group.Finset.Basic

/-!
# The pointers of `FutureUnixSocket`s

* `Owned` is what holds of an object: no other object has its socket, its socket points back
  to it while the receive callback is installed, and its entries point back to it.
* `Core` asks it of all objects. It is kept when one object or one socket changes
  (`Core.setObject`, `Core.setSocket`).
* `Places` counts futures: each call of `receive` has its future in one place, which is the
  record of those completed, a call that is about to fail it, or the queue of one object.
-/

namespace EdenCommon

open Lib Function

variable {F κ : Type}

/-! ### Frames -/

namespace HeapFrame

/-- The frame is on top or has been replaced. -/
def isTransient : HeapFrame F → Bool
  | .handler _ _ _ => true
  | .dropQueue _ _ _ => true
  | _ => false

/-- The entries whose futures the frame is about to fail. -/
def queue : HeapFrame F → List ReceiveEntry
  | .failReceiveQueue callback _ => callback
  | .dropQueue queue _ _ => queue
  | _ => []

/-- A frame without callback is the socket's own. -/
theorem ofFrame_of_internal {i o : ℕ} {f : Frame F} (h : f.isCallback = false) : ofFrame i o f = .socket i f := by
  cases f with
  | callback c => simp [Frame.isCallback] at h
  | _ => rfl

@[simp] theorem ofFrame_queue (i o : ℕ) (f : Frame F) : (ofFrame i o f).queue = [] := by cases f <;> rfl

/-- It is on the stack of its socket and of no other. -/
theorem ofFrame_inner (i o j : ℕ) (f : Frame F) : (ofFrame i o f).inner j = if i = j then [f] else [] := by
  cases f <;> rfl

end HeapFrame

namespace FutureHeap

section Frames

variable {g : HeapFrame F} {st st' : List (HeapFrame F)} {fs : List (Frame F)} {i j o : ℕ}

/-- The futures that the calls under way are about to fail. -/
def draining (st : List (HeapFrame F)) : List ℕ := (st.flatMap HeapFrame.queue).map ReceiveEntry.promise_

/-- What is on top may stay there. -/
def Resting (st : List (HeapFrame F)) : Prop := ∀ g ∈ st, g.isTransient = false

@[simp] theorem draining_nil : draining ([] : List (HeapFrame F)) = [] := rfl

@[simp] theorem draining_cons (g : HeapFrame F) (st : List (HeapFrame F)) :
    draining (g :: st) = g.queue.map ReceiveEntry.promise_ ++ draining st := by simp [draining]

@[simp] theorem draining_append (st st' : List (HeapFrame F)) :
    draining (st ++ st') = draining st ++ draining st' := by simp [draining]

@[simp] theorem draining_ofFrame (i o : ℕ) (fs : List (Frame F)) :
    draining (fs.map (HeapFrame.ofFrame i o)) = [] := by
  simp [draining, List.flatMap_eq_nil_iff]

@[simp] theorem innerStack_nil (i : ℕ) : innerStack i ([] : List (HeapFrame F)) = [] := rfl

@[simp] theorem innerStack_cons (i : ℕ) (g : HeapFrame F) (st : List (HeapFrame F)) :
    innerStack i (g :: st) = g.inner i ++ innerStack i st := List.flatMap_cons

@[simp] theorem innerStack_append (i : ℕ) (st st' : List (HeapFrame F)) :
    innerStack i (st ++ st') = innerStack i st ++ innerStack i st' := List.flatMap_append

@[simp] theorem innerStack_ofFrame (i o : ℕ) (fs : List (Frame F)) :
    innerStack i (fs.map (HeapFrame.ofFrame i o)) = fs := by
  induction fs with
  | nil => rfl
  | cons f fs ih => simp [ih, HeapFrame.ofFrame_inner]

theorem innerStack_ofFrame_ne (h : i ≠ j) (o : ℕ) (fs : List (Frame F)) :
    innerStack j (fs.map (HeapFrame.ofFrame i o)) = [] := by
  induction fs with
  | nil => rfl
  | cons f fs ih => simp [ih, HeapFrame.ofFrame_inner, h]

theorem resting_nil : Resting ([] : List (HeapFrame F)) := nofun

/-- Frames rest if none of them stands in the middle of a move. -/
theorem resting_cons : Resting (g :: st) ↔ g.isTransient = false ∧ Resting st := List.forall_mem_cons

theorem resting_append : Resting (st ++ st') ↔ Resting st ∧ Resting st' := List.forall_mem_append

/-- The internal frames of a socket rest. -/
theorem resting_ofFrame (h : Internal fs) (i o : ℕ) : Resting (fs.map (HeapFrame.ofFrame i o)) := by
  intro g hg
  obtain ⟨f, hf, rfl⟩ := List.mem_map.1 hg
  rw [HeapFrame.ofFrame_of_internal (h f hf)]
  rfl

end Frames

variable {h : FutureHeap κ F} {st st' : List (HeapFrame F)} {o p i : ℕ} {x y : FutureObject} {t : UnixSocket κ F}

/-! ### Fields after an update -/

@[simp] theorem setObject_objects_self : (h.setObject o y).objects o = y := update_self ..

theorem setObject_objects_ne (hne : p ≠ o) : (h.setObject o y).objects p = h.objects p := update_of_ne hne ..

@[simp] theorem setObject_sockets : (h.setObject o y).sockets = h.sockets := rfl
@[simp] theorem setObject_socketCount : (h.setObject o y).socketCount = h.socketCount := rfl
@[simp] theorem setObject_objectCount : (h.setObject o y).objectCount = h.objectCount := rfl
@[simp] theorem setObject_receives : (h.setObject o y).receives = h.receives := rfl
@[simp] theorem setObject_completed : (h.setObject o y).completed = h.completed := rfl

@[simp] theorem setSocket_objects : (h.setSocket i t).objects = h.objects := rfl
@[simp] theorem setSocket_socketCount : (h.setSocket i t).socketCount = h.socketCount := rfl
@[simp] theorem setSocket_objectCount : (h.setSocket i t).objectCount = h.objectCount := rfl
@[simp] theorem setSocket_receives : (h.setSocket i t).receives = h.receives := rfl
@[simp] theorem setSocket_completed : (h.setSocket i t).completed = h.completed := rfl

@[simp] theorem setSocket_sockets_self : (h.setSocket i t).sockets i = { h.sockets i with socket := t } :=
  update_self ..

theorem setSocket_sockets_ne {j : ℕ} (hne : j ≠ i) : (h.setSocket i t).sockets j = h.sockets j :=
  update_of_ne hne ..

@[simp] theorem setSocket_receiveCallback (j : ℕ) :
    ((h.setSocket i t).sockets j).receiveCallback_ = (h.sockets j).receiveCallback_ := by
  by_cases hj : j = i
  · subst hj; simp
  · rw [setSocket_sockets_ne hj]

/-! ### Pointers -/

/-- The receive callback of socket `i` is installed, and it is object `o`. -/
def PointsTo (h : FutureHeap κ F) (i o : ℕ) : Prop :=
  (h.sockets i).socket.receiveCallback_ = true ∧ (h.sockets i).receiveCallback_ = o

/-- What is asked of `x` as object `o`. -/
structure Owned (h : FutureHeap κ F) (o : ℕ) (x : FutureObject) : Prop where
  made : x.lifetime ≠ .gone → o < h.objectCount
  opened : ∀ i, x.socket_ = some i → i < h.socketCount
  unique : ∀ i p, p ≠ o → x.socket_ = some i → (h.objects p).socket_ ≠ some i
  routed : ∀ i, h.PointsTo i o → x.socket_ = some i ∧ x.recvQueue_ ≠ [] ∧ x.lifetime = .usable
  entries : ∀ e ∈ x.recvQueue_, e.socket_ = o
  tail : x.recvQueueTail_ = x.recvQueue_.getLast?.map ReceiveEntry.promise_
  gone : x.lifetime = .gone → x.socket_ = none ∧ x.recvQueue_ = []

/-- The pointers between objects and sockets. -/
structure Core (h : FutureHeap κ F) (st : List (HeapFrame F)) : Prop where
  owned : ∀ o, h.Owned o (h.objects o)
  fresh : ∀ i, h.socketCount ≤ i →
    innerStack i st = [] ∧ (h.sockets i).socket.receiveCallback_ = false ∧ (h.sockets i).socket.sendQueue_ = []

/-- On a new heap there are no objects. -/
theorem Core.new (kernels : ℕ → κ) : Core (FutureHeap.new kernels : FutureHeap κ F) [] where
  owned := by
    intro o
    constructor <;> simp [FutureHeap.new, PointsTo, UnixSocket.new]
  fresh := fun i _ => ⟨rfl, rfl, rfl⟩

/-- An object may change if it goes on owning its socket. -/
theorem Core.setObject (hc : Core h st) (hy : h.Owned o y) : Core (h.setObject o y) st where
  owned := by
    intro p
    by_cases hp : p = o
    · subst hp
      rw [setObject_objects_self]
      refine { hy with unique := ?_ }
      intro i q hq
      rw [setObject_objects_ne hq]
      exact hy.unique i q hq
    · rw [setObject_objects_ne hp]
      refine { hc.owned p with unique := ?_ }
      intro i q hq hi
      by_cases hqo : q = o
      · subst hqo
        rw [setObject_objects_self]
        intro hyi
        exact hy.unique i p hp hyi hi
      · rw [setObject_objects_ne hqo]
        exact (hc.owned p).unique i q hq hi
  fresh := hc.fresh

/-- A socket may change in everything but a receive callback that it gets. -/
theorem Core.setSocket (hc : Core h st) (hi : i < h.socketCount)
    (hr : t.receiveCallback_ = true → (h.sockets i).socket.receiveCallback_ = true) :
    Core (h.setSocket i t) st where
  owned := by
    intro p
    refine { hc.owned p with routed := ?_ }
    intro j hj
    refine (hc.owned p).routed j ?_
    by_cases hji : j = i
    · subst hji
      simp only [PointsTo, setSocket_sockets_self] at hj
      exact ⟨hr hj.1, hj.2⟩
    · simpa [PointsTo, setSocket_sockets_ne hji] using hj
  fresh := by
    intro j hj
    rw [setSocket_sockets_ne (by simp at hj; omega)]
    exact hc.fresh j hj

/-- The receive callback of the object that has socket `i` is installed on it. -/
theorem Core.install {s : HeapSocket κ F} (hc : Core h st) (hs : (h.objects o).socket_ = some i)
    (hq : (h.objects o).recvQueue_ ≠ []) (hl : (h.objects o).lifetime = .usable) (ho : s.receiveCallback_ = o) :
    Core { h with sockets := update h.sockets i s } st where
  owned := by
    intro p
    refine { hc.owned p with routed := ?_ }
    intro j hj
    by_cases hji : j = i
    · subst hji
      obtain rfl : o = p := by simpa [PointsTo, ho] using hj.2
      exact ⟨hs, hq, hl⟩
    · refine (hc.owned p).routed j ?_
      simpa [PointsTo, update_of_ne hji] using hj
  fresh := by
    intro j hj
    have hi := (hc.owned o).opened i hs
    dsimp only at hj ⊢
    rw [update_of_ne (by omega)]
    exact hc.fresh j hj

/-- Only frames of sockets that have been made count. -/
theorem Core.stack (hc : Core h st)
    (hst : ∀ j, h.socketCount ≤ j → innerStack j st = [] → innerStack j st' = []) : Core h st' :=
  { hc with fresh := fun j hj => ⟨hst j hj (hc.fresh j hj).1, (hc.fresh j hj).2⟩ }

/-- Frames of a socket that is there may be added. -/
theorem Core.ofFrame (hc : Core h st) (hi : i < h.socketCount) (o : ℕ) (fs : List (Frame F)) :
    Core h (fs.map (HeapFrame.ofFrame i o) ++ st) := by
  refine hc.stack fun j hj hst => ?_
  rw [innerStack_append, innerStack_ofFrame_ne (by omega), hst, List.nil_append]

/-- A frame of no socket. -/
theorem Core.cons {g : HeapFrame F} (hc : Core h st) (hg : ∀ j, g.inner j = []) : Core h (g :: st) :=
  hc.stack fun j _ hst => by rw [innerStack_cons, hg, hst, List.nil_append]

theorem Core.tail {g : HeapFrame F} (hc : Core h (g :: st)) : Core h st :=
  hc.stack fun _ _ hst => (List.append_eq_nil_iff.1 hst).2

/-- The socket whose frame is on the stack has been made. -/
theorem Core.lt_socketCount (hc : Core h st) (hne : innerStack i st ≠ []) : i < h.socketCount := by
  by_contra hi
  exact hne (hc.fresh i (Nat.not_lt.1 hi)).1

/-- **One owner**: a socket is that of one object. -/
theorem Core.eq_of_socket (hc : Core h st) (ho : (h.objects o).socket_ = some i)
    (hp : (h.objects p).socket_ = some i) : p = o := by
  by_contra hne
  exact (hc.owned o).unique i p hne ho hp

/-- The receive callback of a socket is the object that has it. -/
theorem Core.pointsTo (hc : Core h st) (ho : (h.objects o).socket_ = some i)
    (hr : (h.sockets i).socket.receiveCallback_ = true) : h.PointsTo i o := by
  have hp := ((hc.owned _).routed i ⟨hr, rfl⟩).1
  exact ⟨hr, hc.eq_of_socket ho hp⟩

/-- A new state with the same objects and sockets. -/
theorem Core.congr {h' : FutureHeap κ F} (hc : Core h st) (ho : h'.objects = h.objects) (hs : h'.sockets = h.sockets)
    (hoc : h.objectCount ≤ h'.objectCount) (hsc : h.socketCount ≤ h'.socketCount) : Core h' st where
  owned := by
    intro o
    have hx := hc.owned o
    simp only [ho]
    refine { hx with made := ?_, opened := ?_, unique := ?_, routed := ?_ }
    · intro hl
      exact Nat.lt_of_lt_of_le (hx.made hl) hoc
    · intro i hi
      exact Nat.lt_of_lt_of_le (hx.opened i hi) hsc
    · rw [ho]; exact hx.unique
    · simpa only [PointsTo, hs] using hx.routed
  fresh := by
    intro i hi
    rw [hs]
    exact hc.fresh i (Nat.le_trans hsc hi)

/-! ### Where the futures are -/

open Finset in
/-- How often future `id` is in a queue. -/
def pending (h : FutureHeap κ F) (id : ℕ) : ℕ :=
  ∑ o ∈ range h.objectCount, ((h.objects o).recvQueue_.map ReceiveEntry.promise_).count id

/-- Each call of `receive` has its future in one place. -/
def Places (h : FutureHeap κ F) (st : List (HeapFrame F)) : Prop :=
  ∀ id, (h.completed.map Prod.fst).count id + (draining st).count id + h.pending id =
    (List.range h.receives).count id

/-- A new queue of one object changes what is pending by the difference. -/
theorem pending_setObject (ho : o < h.objectCount) (y : FutureObject) (id : ℕ) :
    (h.setObject o y).pending id + ((h.objects o).recvQueue_.map ReceiveEntry.promise_).count id =
      h.pending id + (y.recvQueue_.map ReceiveEntry.promise_).count id := by
  have hm := Finset.mem_range.2 ho
  have hrest : ∀ p ∈ (Finset.range h.objectCount).erase o, (h.setObject o y).objects p = h.objects p :=
    fun p hp => setObject_objects_ne (Finset.ne_of_mem_erase hp)
  simp only [pending, setObject_objectCount]
  rw [← Finset.add_sum_erase _ _ hm, ← Finset.add_sum_erase _ _ hm, setObject_objects_self,
    Finset.sum_congr rfl fun p hp => by rw [hrest p hp]]
  omega

/-- The queue stays as it is. -/
theorem pending_setObject_queue (hq : y.recvQueue_ = (h.objects o).recvQueue_) (id : ℕ) :
    (h.setObject o y).pending id = h.pending id := by
  refine Finset.sum_congr rfl fun p _ => ?_
  by_cases hp : p = o
  · subst hp
    rw [setObject_objects_self, hq]
  · rw [setObject_objects_ne hp]

/-- An object may change in everything but its queue. -/
theorem Places.setObject_queue (hp : Places h st) (hq : y.recvQueue_ = (h.objects o).recvQueue_) :
    Places (h.setObject o y) st := by
  intro id
  rw [pending_setObject_queue hq]
  exact hp id

/-- Frames that fail the same receives may take each other's place. -/
theorem Places.stack (hp : Places h st) (hst : draining st' = draining st) : Places h st' := by
  intro id
  rw [hst]
  exact hp id

theorem Places.new (kernels : ℕ → κ) : Places (FutureHeap.new kernels : FutureHeap κ F) [] := by
  intro id
  simp [FutureHeap.new, pending]

/-- The queue of an object is about to fail. -/
theorem Places.take {st₁ : List (HeapFrame F)} (hp : Places h st) (ho : o < h.objectCount)
    (hy : y.recvQueue_ = []) (hst : ∀ id, (draining st₁).count id =
      (draining st).count id + ((h.objects o).recvQueue_.map ReceiveEntry.promise_).count id) :
    Places (h.setObject o y) st₁ := by
  intro id
  have hsum := pending_setObject ho y id
  have h1 := hp id
  rw [hy, List.map_nil, List.count_nil] at hsum
  rw [hst id, setObject_completed, setObject_receives, ← h1]
  omega

/-- The future of the next call of `receive` comes to the end of a queue. -/
theorem Places.enqueue {q : FutureObject} (hp : Places h st) (ho : o < h.objectCount)
    (hy : q.recvQueue_ = (h.objects o).recvQueue_ ++ [⟨p, h.receives⟩]) :
    Places ({ h with receives := h.receives + 1 }.setObject o q) st := by
  intro id
  have h1 := hp id
  have hsum := pending_setObject ho q id
  rw [hy, List.map_append, List.count_append, List.map_singleton] at hsum
  show (h.completed.map Prod.fst).count id + (draining st).count id + (h.setObject o q).pending id =
    (List.range (h.receives + 1)).count id
  rw [List.range_succ, List.count_append, ← h1]
  dsimp only at hsum
  omega

/-- A call of `receive` on an object without a socket. -/
theorem Places.reject {result : Except ReceiveFailure (Bytes × List F)} (hp : Places h st) :
    Places ({ h with receives := h.receives + 1 }.complete h.receives result) st := by
  intro id
  show ((h.completed ++ [(h.receives, result)]).map Prod.fst).count id + (draining st).count id + h.pending id =
    (List.range (h.receives + 1)).count id
  rw [List.range_succ, List.count_append, ← hp id]
  simp only [List.map_append, List.map_cons, List.map_nil, List.count_append]
  omega

/-- The first future that a call is about to fail is completed. -/
theorem Places.fail {st₁ : List (HeapFrame F)} {id : ℕ} {result : Except ReceiveFailure (Bytes × List F)}
    (hp : Places h st) (hst : draining st = [id] ++ draining st₁) : Places (h.complete id result) st₁ := by
  intro k
  show ((h.completed ++ [(id, result)]).map Prod.fst).count k + (draining st₁).count k + h.pending k =
    (List.range h.receives).count k
  rw [← hp k, hst]
  simp only [List.map_append, List.map_cons, List.map_nil, List.count_append]
  omega

/-- The first future of a queue is completed. -/
theorem Places.deliver {e : ReceiveEntry} {result : Except ReceiveFailure (Bytes × List F)} (hp : Places h st)
    (ho : o < h.objectCount) (hq : (h.objects o).recvQueue_ = [e] ++ y.recvQueue_) :
    Places ((h.setObject o y).complete e.promise_ result) st := by
  intro k
  have hsum := pending_setObject ho y k
  rw [hq, List.map_append, List.map_singleton, List.count_append] at hsum
  show ((h.completed ++ [(e.promise_, result)]).map Prod.fst).count k + (draining st).count k +
    (h.setObject o y).pending k = (List.range h.receives).count k
  rw [← hp k]
  simp only [List.map_append, List.map_cons, List.map_nil, List.count_append]
  omega

end FutureHeap

end EdenCommon
