import EdenCommon.Proof.TraceBusWakeups
import Mathlib.Data.List.Perm.Basic

/-!
# What a subscriber of `TraceBus` is called with

The events published are those handed out in earlier turns of the worker (`old`), those
in the read buffer and those in the write buffer. A subscriber in the list has been
called with all that were handed out since it subscribed, up to the read buffer if the
worker has not come to it yet (`LinkedNode`). It is unlinked in a turn that starts after
all events up to its unsubscription were handed out, and it is called at most once before
that turn is reached and once before its end.
-/

namespace EdenCommon

namespace TraceBus

variable {Event : Type} {cap : ℕ} {s s' : Bus Event} {old : List Event} {n : Subscription Event} {id : SubId}

/-! ### The position of the worker -/

/-- The events the worker is handing out. -/
def Worker.readBuffer : Worker Event → List Event
  | .notifyFull readBuffer _ _ => readBuffer
  | .deliver readBuffer _ _ => readBuffer
  | _ => []

/-- The subscriptions the worker has not come to yet. -/
def Worker.todo : Worker Event → List SubId
  | .notifyFull _ _ sub => sub
  | .deliver _ _ sub => sub
  | _ => []

/-- The worker has cleared the list of its turn and not swapped the buffers yet. -/
def Worker.waiting : Worker Event → Bool
  | .parked => true
  | .notified => true
  | _ => false

/-- The worker has read `done` as set. -/
def Worker.sawDone : Worker Event → Bool
  | .notifyFull _ done _ => done
  | .deliver _ done _ => done
  | .exited => true
  | _ => false

/-! ### The invariant -/

/-- The stream of events and where the worker and the destructor stand in it. -/
structure Flow (old : List Event) (s : Bus Event) : Prop where
  published : s.published = old ++ s.worker.readBuffer ++ s.writeBuffer
  seq : s.sequenceNumber = s.published.length + 1
  last : s.lastObservedSequenceNumber ≤ s.sequenceNumber
  handed : s.worker.waiting = false → s.lastObservedSequenceNumber ≤ (old ++ s.worker.readBuffer).length + 1
  idle : s.destructor = .idle → s.done = false
  doneAt : s.doneAt ≤ s.published.length
  sawDone : s.worker.sawDone = true → s.done = true ∧ s.doneAt ≤ (old ++ s.worker.readBuffer).length

/-- The list of subscriptions. A node is linked or has been unlinked once, and what the
worker walks over is the end of the list. -/
structure Links (s : Bus Event) : Prop where
  nodup : (s.unlinked ++ s.subscriptions).Nodup
  mem_iff : ∀ id, id ∈ s.unlinked ++ s.subscriptions ↔ id < s.nextId
  todo : s.worker.todo <:+ s.subscriptions

/-- What a node says about itself. -/
structure Record (s : Bus Event) (n : Subscription Event) : Prop where
  subscribedAt : n.subscribedAt ≤ s.published.length
  unsubscribe_iff : n.unsubscribed = none ↔ n.unsubscribe = 0
  unsubscribed : ∀ u k, n.unsubscribed = some (u, k) →
    n.unsubscribe = u + 1 ∧ u ≤ s.published.length ∧ (s.done = true → u ≤ s.doneAt)
  threw : n.threw = if n.hasThrownException then some n.calls.length else none

/-- The record of a subscriber depends on what was published only. -/
theorem Record.congr (h : Record s n) (hpub : s'.published = s.published) (hdone : s'.done = s.done)
    (hat : s'.doneAt = s.doneAt) : Record s' n := by
  obtain ⟨r1, r2, r3, r4⟩ := h
  refine ⟨hpub ▸ r1, r2, ?_, r4⟩
  rw [hpub, hdone, hat]
  exact r3

theorem Record.ok_of_threw_none (h : Record s n) (hnone : n.threw = none) : n.hasThrownException = false := by
  have := h.threw
  rw [hnone] at this
  cases hn : n.hasThrownException with
  | false => rfl
  | true => rw [hn] at this; cases this

/-- Behind an exception there are no calls. -/
theorem Record.calls_of_threw {k : ℕ} (h : Record s n) (hk : n.threw = some k) : n.calls.length = k := by
  have := h.threw
  rw [hk] at this
  split at this
  · exact (Option.some.inj this).symm
  · cases this

/-- The observer has been called with the end of `events`, and missed none that was
published after it subscribed. -/
def Segment (n : Subscription Event) (events : List Event) : Prop :=
  n.hasThrownException = false →
    ∃ a, a ≤ n.subscribedAt ∧ a ≤ events.length ∧ n.calls.flatten = events.drop a

/-- The events a linked node has been called with, from its first one on. -/
def Bus.seen (old : List Event) (s : Bus Event) (id : SubId) : List Event :=
  if id ∈ s.worker.todo then old else old ++ s.worker.readBuffer

/-- The calls a linked node may still have got since it was unsubscribed at `u`: one if
the worker has noticed, and one if it has come to the node in this turn. -/
def Bus.further (s : Bus Event) (id : SubId) (u : ℕ) : ℕ :=
  (if u + 1 ≤ s.lastObservedSequenceNumber then 1 else 0) +
    if s.worker.waiting = true ∨ id ∈ s.worker.todo then 0 else 1

structure LinkedNode (old : List Event) (s : Bus Event) (id : SubId) : Prop where
  segment : Segment (s.nodes id) (s.seen old id)
  calls : ∀ u k, (s.nodes id).unsubscribed = some (u, k) → (s.nodes id).calls.length ≤ k + s.further id u

/-- A node that has been unlinked has seen all it asked for. -/
def UnlinkedNode (published : List Event) (n : Subscription Event) : Prop :=
  ∃ b u k, b ≤ published.length ∧ Segment n (published.take b) ∧ n.unsubscribed = some (u, k) ∧ u ≤ b ∧
    n.calls.length ≤ k + 2

structure Delivery (old : List Event) (s : Bus Event) : Prop where
  flow : Flow old s
  links : Links s
  record : ∀ id, Record s (s.nodes id)
  linked : ∀ id ∈ s.subscriptions, LinkedNode old s id
  unlinked : ∀ id ∈ s.unlinked, UnlinkedNode s.published (s.nodes id)

/-- Nothing has been published at first. -/
theorem delivery_init : Delivery [] (init : Bus Event) where
  flow := ⟨rfl, rfl, Nat.zero_le _, fun _ => Nat.zero_le _, fun _ => rfl, Nat.le_refl _, nofun⟩
  links := ⟨List.nodup_nil, fun id => by simp [init], List.suffix_refl _⟩
  record := fun id => ⟨Nat.le_refl _, by simp [init], by simp [init], rfl⟩
  linked := by simp [init]
  unlinked := by simp [init]

/-! ### Steps that hand nothing out -/

/-- The step moves publishers, the destructor or a sleeping thread only. -/
structure Quiet (s s' : Bus Event) : Prop where
  published : s'.published = s.published
  writeBuffer : s'.writeBuffer = s.writeBuffer
  sequenceNumber : s'.sequenceNumber = s.sequenceNumber
  nodes : s'.nodes = s.nodes
  nextId : s'.nextId = s.nextId
  subscriptions : s'.subscriptions = s.subscriptions
  unlinked : s'.unlinked = s.unlinked
  last : s'.lastObservedSequenceNumber = s.lastObservedSequenceNumber
  done : s'.done = s.done
  doneAt : s'.doneAt = s.doneAt
  destructor : s'.destructor = .idle → s.destructor = .idle
  readBuffer : s'.worker.readBuffer = s.worker.readBuffer
  todo : s'.worker.todo = s.worker.todo
  waiting : s'.worker.waiting = s.worker.waiting
  sawDone : s'.worker.sawDone = s.worker.sawDone

/-- A step that moves no event keeps everything. -/
theorem Delivery.quiet (h : Delivery old s) (q : Quiet s s') : Delivery old s' := by
  obtain ⟨⟨f1, f2, f3, f4, f5, f6, f7⟩, ⟨l1, l2, l3⟩, hr, hl, hu⟩ := h
  refine ⟨⟨?_, ?_, ?_, ?_, ?_, ?_, ?_⟩, ⟨?_, ?_, ?_⟩, fun id => ?_, fun id hid => ?_, fun id hid => ?_⟩
  · rw [q.published, q.readBuffer, q.writeBuffer]; exact f1
  · rw [q.sequenceNumber, q.published]; exact f2
  · rw [q.last, q.sequenceNumber]; exact f3
  · rw [q.waiting, q.last, q.readBuffer]; exact f4
  · rw [q.done]; exact fun hd => f5 (q.destructor hd)
  · rw [q.doneAt, q.published]; exact f6
  · rw [q.sawDone, q.done, q.doneAt, q.readBuffer]; exact f7
  · rw [q.unlinked, q.subscriptions]; exact l1
  · rw [q.unlinked, q.subscriptions, q.nextId]; exact l2
  · rw [q.todo, q.subscriptions]; exact l3
  · rw [q.nodes]
    exact (hr id).congr q.published q.done q.doneAt
  · rw [q.subscriptions] at hid
    obtain ⟨k1, k2⟩ := hl id hid
    refine ⟨?_, ?_⟩
    · rw [q.nodes]; unfold Bus.seen; rw [q.todo, q.readBuffer]; exact k1
    · rw [q.nodes]; unfold Bus.further; rw [q.last, q.waiting, q.todo]; exact k2
  · rw [q.unlinked] at hid
    rw [q.published, q.nodes]
    exact hu id hid

theorem quiet_notifyOne (w : Worker Event) : w.notifyOne.readBuffer = w.readBuffer ∧ w.notifyOne.todo = w.todo ∧
    w.notifyOne.waiting = w.waiting ∧ w.notifyOne.sawDone = w.sawDone := by
  cases w <;> exact ⟨rfl, rfl, rfl, rfl⟩

theorem quiet_publishers (s : Bus Event) (ps : List (Publisher Event)) : Quiet s { s with publishers := ps } :=
  ⟨rfl, rfl, rfl, rfl, rfl, rfl, rfl, rfl, rfl, rfl, fun h => h, rfl, rfl, rfl, rfl⟩

/-- The worker moves to a place that means the same to the subscribers. -/
theorem quiet_worker (s : Bus Event) (w : Worker Event) (ps : List (Publisher Event)) (d : Destructor)
    (hd : d = .idle → s.destructor = .idle) (h : w.readBuffer = s.worker.readBuffer ∧ w.todo = s.worker.todo ∧
      w.waiting = s.worker.waiting ∧ w.sawDone = s.worker.sawDone) :
    Quiet s { s with worker := w, publishers := ps, destructor := d } :=
  ⟨rfl, rfl, rfl, rfl, rfl, rfl, rfl, rfl, rfl, rfl, hd, h.1, h.2.1, h.2.2.1, h.2.2.2⟩

/-! ### Publishing, subscribing, unsubscribing and destroying -/

/-- More events leave what an unlinked node has seen as it is. -/
theorem UnlinkedNode.append {published : List Event} (h : UnlinkedNode published n) (more : List Event) :
    UnlinkedNode (published ++ more) n := by
  obtain ⟨b, u, k, hb, hseg, hrest⟩ := h
  refine ⟨b, u, k, by rw [List.length_append]; omega, ?_, hrest⟩
  rw [List.take_append_of_le_length hb]
  exact hseg

/-- **An event is published** and is in the write buffer. -/
theorem Delivery.emplace (h : Delivery old s) (i : ℕ) (e : Event) : Delivery old (s.emplace i e) := by
  have hlen : (s.emplace i e).published.length = s.published.length + 1 := by
    simp only [Bus.emplace, List.length_append, List.length_singleton]
  refine ⟨⟨?_, ?_, ?_, h.flow.handed, h.flow.idle, ?_, h.flow.sawDone⟩,
    ⟨h.links.nodup, h.links.mem_iff, h.links.todo⟩, fun id => ?_, ?_, fun id hid => ?_⟩
  · simp only [Bus.emplace, h.flow.published, List.append_assoc]
  · rw [hlen]
    simp only [Bus.emplace, h.flow.seq]
  · exact Nat.le_succ_of_le h.flow.last
  · rw [hlen]; exact Nat.le_succ_of_le h.flow.doneAt
  · obtain ⟨r1, r2, r3, r4⟩ := h.record id
    refine ⟨by rw [hlen]; exact Nat.le_succ_of_le r1, r2, fun u k huk => ?_, r4⟩
    obtain ⟨k1, k2, k3⟩ := r3 u k huk
    exact ⟨k1, by rw [hlen]; exact Nat.le_succ_of_le k2, k3⟩
  · exact fun id hid => ⟨(h.linked id hid).segment, (h.linked id hid).calls⟩
  · exact (h.unlinked id hid).append [e]

/-- A new node has missed nothing: it gets what has not been handed out yet. -/
theorem Delivery.subscribe (h : Delivery old s) : Delivery old { s with
    nodes := Function.update s.nodes s.nextId ⟨false, 0, s.published.length, [], none, none⟩
    subscriptions := s.nextId :: s.subscriptions
    hasSubscription_ := true
    nextId := s.nextId + 1 } := by
  have hfresh : s.nextId ∉ s.unlinked ++ s.subscriptions := fun hm =>
    Nat.lt_irrefl _ ((h.links.mem_iff _).1 hm)
  have hne : ∀ id ∈ s.unlinked ++ s.subscriptions, id ≠ s.nextId := fun id hm he => hfresh (he ▸ hm)
  refine ⟨⟨h.flow.published, h.flow.seq, h.flow.last, h.flow.handed, h.flow.idle, h.flow.doneAt, h.flow.sawDone⟩,
    ⟨?_, fun id => ?_, h.links.todo.trans (List.suffix_cons _ _)⟩, fun id => ?_, fun id hid => ?_, fun id hid => ?_⟩
  · -- the list has one node more, which is fresh
    rw [List.perm_middle.nodup_iff]
    exact List.nodup_cons.2 ⟨hfresh, h.links.nodup⟩
  · have := h.links.mem_iff id
    simp only [List.mem_append, List.mem_cons] at this ⊢
    constructor
    · rintro (hm | rfl | hm)
      · exact Nat.lt_succ_of_lt (this.1 (.inl hm))
      · exact Nat.lt_succ_self _
      · exact Nat.lt_succ_of_lt (this.1 (.inr hm))
    · intro hlt
      rcases Nat.lt_succ_iff_lt_or_eq.1 hlt with hlt | rfl
      · exact (this.2 hlt).imp (fun hm => hm) .inr
      · exact .inr (.inl rfl)
  · by_cases he : id = s.nextId
    · subst he
      simp only [Function.update_self]
      exact ⟨Nat.le_refl _, by simp, by simp, rfl⟩
    · simp only [Function.update_of_ne he]
      exact (h.record id).congr rfl rfl rfl
  · rcases List.mem_cons.1 hid with rfl | hm
    · -- it comes in front of the nodes of this turn: what it has seen starts with the next
      have htodo : s.nextId ∉ s.worker.todo := fun hm =>
        hfresh (List.mem_append_right _ (h.links.todo.subset hm))
      refine ⟨fun _ => ⟨(old ++ s.worker.readBuffer).length, ?_⟩, ?_⟩
      · simp only [Bus.seen, if_neg htodo, Function.update_self, List.drop_length, List.flatten_nil]
        refine ⟨?_, Nat.le_refl _, trivial⟩
        simp only [h.flow.published, List.length_append]
        omega
      · simp
    · have he := hne id (List.mem_append_right _ hm)
      refine ⟨?_, ?_⟩
      · simp only [Function.update_of_ne he]; exact (h.linked id hm).segment
      · simp only [Function.update_of_ne he]; exact (h.linked id hm).calls
  · have he := hne id (List.mem_append_left _ hid)
    simp only [Function.update_of_ne he]
    exact h.unlinked id hid

/-- Only a linked node can be unsubscribed, for a handle does so once. -/
theorem Delivery.unsubscribe (h : Delivery old s) (hid : id < s.nextId) (hunsub : (s.nodes id).unsubscribe = 0)
    (hdone : s.done = false) : Delivery old { s with
      nodes := Function.update s.nodes id { s.nodes id with
        unsubscribe := s.sequenceNumber
        unsubscribed := some (s.published.length, (s.nodes id).calls.length) } } := by
  -- an unlinked node has been unsubscribed before
  have hnot : id ∉ s.unlinked := by
    intro hm
    obtain ⟨b, u, k, -, -, huk, -⟩ := h.unlinked id hm
    rw [(h.record id).unsubscribe_iff.2 hunsub] at huk
    cases huk
  refine ⟨⟨h.flow.published, h.flow.seq, h.flow.last, h.flow.handed, h.flow.idle, h.flow.doneAt, h.flow.sawDone⟩,
    ⟨h.links.nodup, h.links.mem_iff, h.links.todo⟩, fun id' => ?_, fun id' hm => ?_, fun id' hm => ?_⟩
  · by_cases he : id' = id
    · subst he
      obtain ⟨r1, -, -, r4⟩ := h.record id'
      simp only [Function.update_self]
      refine ⟨r1, by simp [h.flow.seq], fun u k huk => ?_, r4⟩
      cases huk
      exact ⟨h.flow.seq, Nat.le_refl _, fun hd => by rw [hdone] at hd; cases hd⟩
    · simp only [Function.update_of_ne he]
      exact (h.record id').congr rfl rfl rfl
  · by_cases he : id' = id
    · subst he
      refine ⟨?_, fun u k huk => ?_⟩
      · simp only [Function.update_self]; exact (h.linked id' hm).segment
      · -- the calls are counted from here on
        simp only [Function.update_self] at huk ⊢
        cases huk
        exact Nat.le_add_right _ _
    · refine ⟨?_, ?_⟩
      · simp only [Function.update_of_ne he]; exact (h.linked id' hm).segment
      · simp only [Function.update_of_ne he]; exact (h.linked id' hm).calls
  · have he : id' ≠ id := fun he => hnot (he ▸ hm)
    simp only [Function.update_of_ne he]
    exact h.unlinked id' hm

/-- **Destruction begins**, and no event comes after it. -/
theorem Delivery.destroy (h : Delivery old s) (hd : s.destructor = .idle) :
    Delivery old { s with done := true, destructor := .notify, doneAt := s.published.length } := by
  have hdone := h.flow.idle hd
  refine ⟨⟨h.flow.published, h.flow.seq, h.flow.last, h.flow.handed, nofun, Nat.le_refl _, fun hs => ?_⟩,
    ⟨h.links.nodup, h.links.mem_iff, h.links.todo⟩, fun id => ?_,
    fun id hm => ⟨(h.linked id hm).segment, (h.linked id hm).calls⟩, h.unlinked⟩
  · -- the worker cannot have read `done` as set before it was
    have := (h.flow.sawDone hs).1
    rw [hdone] at this
    cases this
  · obtain ⟨r1, r2, r3, r4⟩ := h.record id
    exact ⟨r1, r2, fun u k huk => ⟨(r3 u k huk).1, (r3 u k huk).2.1, fun _ => (r3 u k huk).2.1⟩, r4⟩

/-! ### The turn of the worker -/

@[simp] theorem unlink_nodes (s : Bus Event) : s.unlink.nodes = s.nodes := rfl

@[simp] theorem unlink_last (s : Bus Event) : s.unlink.lastObservedSequenceNumber = s.sequenceNumber := rfl

@[simp] theorem swap_nodes (s : Bus Event) : (s.swap cap).nodes = s.nodes := rfl

@[simp] theorem swap_last (s : Bus Event) :
    (s.swap cap).lastObservedSequenceNumber = s.lastObservedSequenceNumber := rfl

/-- The worker unlinks the nodes that have seen all they asked for; for the others the
turn that starts is their last. -/
theorem Delivery.unlink (h : Delivery old s) (hw : s.worker = .lock) :
    Delivery old { s.unlink with worker := .notified } := by
  have hpub := h.flow.published
  have hhanded := h.flow.handed (by rw [hw]; rfl)
  rw [hw] at hpub hhanded
  simp only [Worker.readBuffer, List.append_nil] at hpub hhanded
  have hseen : ∀ id, s.seen old id = old := fun id => by
    simp only [Bus.seen, hw, Worker.todo, Worker.readBuffer, List.append_nil, ite_self]
  have hexp : ∀ id u k, (s.nodes id).unsubscribed = some (u, k) →
      (s.expired id = true ↔ u + 1 ≤ s.lastObservedSequenceNumber) := by
    intro id u k huk
    obtain ⟨hu, -⟩ := (h.record id).unsubscribed u k huk
    simp [Bus.expired, hu]
  refine ⟨⟨?_, h.flow.seq, Nat.le_refl _, nofun, h.flow.idle, h.flow.doneAt, nofun⟩, ⟨?_, fun id => ?_, List.nil_suffix⟩,
    fun id => ?_, fun id hid => ?_, fun id hid => ?_⟩
  · simp only [Worker.readBuffer, List.append_nil]
    exact hpub
  · simp only [Bus.unlink, List.append_assoc]
    rw [(List.Perm.append_left s.unlinked (List.filter_append_perm s.expired s.subscriptions)).nodup_iff]
    exact h.links.nodup
  · simp only [Bus.unlink, List.append_assoc]
    rw [(List.Perm.append_left s.unlinked (List.filter_append_perm s.expired s.subscriptions)).mem_iff]
    exact h.links.mem_iff id
  · exact (h.record id).congr rfl rfl rfl
  · obtain ⟨hm, hkept⟩ := List.mem_filter.1 hid
    refine ⟨?_, fun u k huk => ?_⟩
    · have := (h.linked id hm).segment
      rw [hseen] at this
      simpa [Bus.seen, Worker.todo, Worker.readBuffer] using this
    · -- it has been called once at most, and now the worker has noticed
      have hcalls := (h.linked id hm).calls u k huk
      have hnot : ¬ u + 1 ≤ s.lastObservedSequenceNumber := fun hle => by
        rw [(hexp id u k huk).2 hle] at hkept; cases hkept
      have hle : u + 1 ≤ s.sequenceNumber := by
        rw [h.flow.seq]; exact Nat.succ_le_succ ((h.record id).unsubscribed u k huk).2.1
      simp only [Bus.further, hw, Worker.waiting, Worker.todo, if_neg hnot, Bool.false_eq_true, List.not_mem_nil,
        or_self, if_false] at hcalls
      simp only [Bus.further, unlink_last, Worker.waiting, hle, true_or, if_true]
      exact hcalls
  · rcases List.mem_append.1 hid with hm | hm
    · exact h.unlinked id hm
    · -- unlinked in this turn: all of `old` has been handed out, its request included
      obtain ⟨hm, hex⟩ := List.mem_filter.1 hm
      have hne : (s.nodes id).unsubscribe ≠ 0 := by
        intro h0
        simp [Bus.expired, h0] at hex
      obtain ⟨⟨u, k⟩, huk⟩ := Option.ne_none_iff_exists'.1 fun hnone => hne ((h.record id).unsubscribe_iff.1 hnone)
      have hle := (hexp id u k huk).1 hex
      have hseg := (h.linked id hm).segment
      have hcalls := (h.linked id hm).calls u k huk
      rw [hseen] at hseg
      refine ⟨old.length, u, k, ?_, ?_, huk, by omega, ?_⟩
      · simp only [Bus.unlink, hpub, List.length_append]; omega
      · simp only [Bus.unlink, hpub, List.take_left]; exact hseg
      · refine Nat.le_trans hcalls (Nat.add_le_add_left ?_ k)
        unfold Bus.further
        split <;> split <;> omega

theorem Delivery.atWait (h : Delivery old s) {s₁ : Bus Event} (hs : s₁.AtWait s) :
    Delivery old { s₁ with worker := .notified } := by
  rcases hs with ⟨hw, rfl⟩ | ⟨hw, rfl⟩
  · exact h.unlink hw
  · refine h.quiet (quiet_worker s₁ .notified s₁.publishers s₁.destructor (fun hd => hd) ?_)
    rw [hw]
    exact ⟨rfl, rfl, rfl, rfl⟩

/-- The swap hands out all that is published; every node is still to be called with it. -/
theorem Delivery.swap (h : Delivery old s) (hw : s.worker = .notified) : Delivery old (s.swap cap) := by
  have hpub := h.flow.published
  rw [hw] at hpub
  simp only [Worker.readBuffer, List.append_nil] at hpub
  have hread : (s.swap cap).worker.readBuffer = s.writeBuffer := by
    simp only [Bus.swap]; split <;> rfl
  have htodo : (s.swap cap).worker.todo = s.subscriptions := by
    simp only [Bus.swap]; split <;> rfl
  have hsaw : (s.swap cap).worker.sawDone = s.done := by
    simp only [Bus.swap]; split <;> rfl
  refine ⟨⟨?_, h.flow.seq, h.flow.last, fun _ => ?_, h.flow.idle, h.flow.doneAt, fun hs => ?_⟩,
    ⟨h.links.nodup, h.links.mem_iff, ?_⟩, fun id => ?_, fun id hid => ⟨?_, fun u k huk => ?_⟩, h.unlinked⟩
  · rw [hread]
    simp only [Bus.swap, List.append_nil, hpub]
  · rw [hread, ← hpub, ← h.flow.seq]; exact h.flow.last
  · rw [hsaw] at hs
    rw [hread, ← hpub]
    exact ⟨hs, h.flow.doneAt⟩
  · rw [htodo]; exact List.suffix_refl _
  · exact (h.record id).congr rfl rfl rfl
  · have hseg := (h.linked id hid).segment
    unfold Bus.seen at hseg ⊢
    rw [htodo, if_pos (show id ∈ s.subscriptions from hid)]
    simpa [hw, Worker.todo, Worker.readBuffer] using hseg
  · have hcalls := (h.linked id hid).calls u k huk
    unfold Bus.further at hcalls ⊢
    rw [htodo, if_pos (Or.inr (show id ∈ s.subscriptions from hid))]
    simp only [hw, Worker.waiting, true_or, if_true] at hcalls
    exact hcalls

/-- The nodes behind the first one are where they were when the worker passes it. -/
theorem todo_tail (h : Links s) {readBuffer : List Event} {done : Bool} {sub : List SubId}
    (hw : s.worker = .deliver readBuffer done (id :: sub)) :
    id ∈ s.subscriptions ∧ id ∉ sub ∧ sub <:+ s.subscriptions := by
  have htodo := h.todo
  rw [hw] at htodo
  have hnodup : (id :: sub).Nodup := (List.nodup_append.1 h.nodup).2.1.sublist htodo.sublist
  exact ⟨htodo.subset List.mem_cons_self, (List.nodup_cons.1 hnodup).1, (List.suffix_cons id sub).trans htodo⟩

/-- The worker passes a node: the others stay as they were, and this one, `n`, must have
seen the read buffer or have thrown. -/
theorem Delivery.pass (h : Delivery old s) {readBuffer : List Event} {done : Bool} {sub : List SubId}
    (hw : s.worker = .deliver readBuffer done (id :: sub)) (hrec : Record s n)
    (hseg : Segment n (old ++ readBuffer))
    (hcalls : ∀ u k, n.unsubscribed = some (u, k) →
      n.calls.length ≤ k + (if u + 1 ≤ s.lastObservedSequenceNumber then 1 else 0) + 1) :
    Delivery old { s with nodes := Function.update s.nodes id n, worker := .deliver readBuffer done sub } := by
  obtain ⟨hmem, hnot, hsuf⟩ := todo_tail h.links hw
  have hnew : (Worker.deliver readBuffer done sub).todo = sub := rfl
  have hflow := h.flow
  refine ⟨⟨?_, hflow.seq, hflow.last, ?_, hflow.idle, hflow.doneAt, ?_⟩,
    ⟨h.links.nodup, h.links.mem_iff, hsuf⟩, fun id' => ?_, fun id' hm => ?_, fun id' hm => ?_⟩
  · have := hflow.published; rw [hw] at this; exact this
  · have := hflow.handed; rw [hw] at this; exact this
  · have := hflow.sawDone; rw [hw] at this; exact this
  · by_cases he : id' = id
    · subst he
      simp only [Function.update_self]
      exact hrec.congr rfl rfl rfl
    · simp only [Function.update_of_ne he]
      exact (h.record id').congr rfl rfl rfl
  · by_cases he : id' = id
    · subst he
      refine ⟨?_, fun u k huk => ?_⟩
      · simp only [Bus.seen, Function.update_self, hnew, if_neg hnot]; exact hseg
      · simp only [Function.update_self] at huk ⊢
        have := hcalls u k huk
        simp only [Bus.further, Worker.waiting, hnew, Bool.false_eq_true, hnot, or_self, if_false]
        omega
    · -- another node is before or behind the worker as it was
      have hiff : id' ∈ s.worker.todo ↔ id' ∈ sub := by
        rw [hw]; simp [Worker.todo, he]
      have hread : s.worker.readBuffer = readBuffer := by rw [hw]; rfl
      have hwait : s.worker.waiting = false := by rw [hw]; rfl
      refine ⟨?_, ?_⟩
      · have := (h.linked id' hm).segment
        simp only [Bus.seen, hiff, hread] at this
        simp only [Bus.seen, Function.update_of_ne he, hnew]
        exact this
      · have := (h.linked id' hm).calls
        simp only [Bus.further, hiff, hwait] at this
        simp only [Bus.further, Function.update_of_ne he, hnew, Worker.waiting]
        exact this
  · have he : id' ≠ id := by
      rintro rfl
      exact (List.nodup_append.1 h.links.nodup).2.2 id' hm id' hmem rfl
    simp only [Function.update_of_ne he]
    exact h.unlinked id' hm

/-- Before the call the node has seen the earlier batches. -/
theorem Delivery.head (h : Delivery old s) {readBuffer : List Event} {done : Bool} {sub : List SubId}
    (hw : s.worker = .deliver readBuffer done (id :: sub)) :
    Segment (s.nodes id) old ∧ ∀ u k, (s.nodes id).unsubscribed = some (u, k) →
      (s.nodes id).calls.length ≤ k + (if u + 1 ≤ s.lastObservedSequenceNumber then 1 else 0) := by
  obtain ⟨hmem, -, -⟩ := todo_tail h.links hw
  have hin : id ∈ s.worker.todo := by rw [hw]; exact List.mem_cons_self
  refine ⟨?_, fun u k huk => ?_⟩
  · have := (h.linked id hmem).segment
    rwa [Bus.seen, if_pos hin] at this
  · have := (h.linked id hmem).calls u k huk
    rwa [Bus.further, if_pos (Or.inr hin)] at this

/-- A subscriber that has thrown is passed over. -/
theorem Delivery.skip (h : Delivery old s) {readBuffer : List Event} {done : Bool} {sub : List SubId}
    (hw : s.worker = .deliver readBuffer done (id :: sub)) (hthrew : (s.nodes id).hasThrownException = true) :
    Delivery old { s with worker := .deliver readBuffer done sub } := by
  have hpass := h.pass hw (h.record id) (fun hok => by rw [hthrew] at hok; cases hok)
    fun u k huk => Nat.le_succ_of_le ((h.head hw).2 u k huk)
  rwa [Function.update_eq_self] at hpass

/-- **A subscriber is called** with the batch, and may throw. -/
theorem Delivery.observe (h : Delivery old s) {readBuffer : List Event} {done : Bool} {sub : List SubId}
    (throws : Bool) (hw : s.worker = .deliver readBuffer done (id :: sub))
    (hok : (s.nodes id).hasThrownException = false) :
    Delivery old { s with
      nodes := Function.update s.nodes id ((s.nodes id).observeBatch readBuffer throws)
      worker := .deliver readBuffer done sub } := by
  obtain ⟨hseg, hcalls⟩ := h.head hw
  obtain ⟨r1, r2, r3, r4⟩ := h.record id
  refine h.pass hw ⟨r1, r2, r3, ?_⟩ (fun _ => ?_) fun u k huk => ?_
  · rw [hok] at r4
    cases throws <;> simp [Subscription.observeBatch, hok, r4]
  · obtain ⟨a, h1, h2, h3⟩ := hseg hok
    refine ⟨a, h1, by rw [List.length_append]; omega, ?_⟩
    simp only [Subscription.observeBatch, List.flatten_append, List.flatten_singleton, h3]
    rw [List.drop_append_of_le_length h2]
  · simp only [Subscription.observeBatch, List.length_append, List.length_singleton]
    have := hcalls u k huk
    omega

/-- Behind the last subscriber the batch is old. -/
theorem Delivery.finish (h : Delivery old s) {readBuffer : List Event} {done : Bool}
    (hw : s.worker = .deliver readBuffer done []) :
    Delivery (old ++ readBuffer) { s with worker := if done then .exited else .lock } := by
  have hread : (if done then Worker.exited else Worker.lock : Worker Event).readBuffer = [] := by
    cases done <;> rfl
  have htodo : (if done then Worker.exited else Worker.lock : Worker Event).todo = [] := by cases done <;> rfl
  have hwait : (if done then Worker.exited else Worker.lock : Worker Event).waiting = false := by
    cases done <;> rfl
  have hsaw : (if done then Worker.exited else Worker.lock : Worker Event).sawDone = done := by cases done <;> rfl
  obtain ⟨⟨f1, f2, f3, f4, f5, f6, f7⟩, ⟨l1, l2, -⟩, hr, hl, hu⟩ := h
  rw [hw] at f1 f4 f7
  refine ⟨⟨?_, f2, f3, fun _ => ?_, f5, f6, ?_⟩, ⟨l1, l2, ?_⟩, fun id => ?_, fun id hm => ⟨?_, fun u k huk => ?_⟩, hu⟩
  · simp only [hread, List.append_nil]; exact f1
  · simp only [hread, List.append_nil]; exact f4 rfl
  · simp only [hread, hsaw, List.append_nil]; exact f7
  · simp only [htodo]; exact List.nil_suffix
  · exact (hr id).congr rfl rfl rfl
  · have := (hl id hm).segment
    simp only [Bus.seen, hw, Worker.todo, Worker.readBuffer, List.not_mem_nil, if_false] at this
    simp only [Bus.seen, htodo, hread, List.not_mem_nil, if_false, List.append_nil]
    exact this
  · have := (hl id hm).calls u k huk
    simp only [Bus.further, hw, Worker.todo, Worker.waiting] at this
    simp only [Bus.further, htodo, hwait]
    exact this

/-! ### Runs -/

/-- Every step keeps the flow of events. -/
theorem Delivery.step (h : Delivery old s) {op : Op Event} (hstep : step cap s op = some s') :
    ∃ old', Delivery old' s' := by
  cases step_cases hstep with
  | call e => exact ⟨old, h.quiet (quiet_publishers s _)⟩
  | emplace i p e hi hp hroom => exact ⟨old, h.emplace i e⟩
  | park i p e hi hp hfull => exact ⟨old, h.quiet (quiet_publishers s _)⟩
  | notify i => exact ⟨old, h.quiet (quiet_worker s _ _ _ (fun hd => hd) (quiet_notifyOne _))⟩
  | wakePublisher i e hi => exact ⟨old, h.quiet (quiet_publishers s _)⟩
  | subscribe => exact ⟨old, h.subscribe⟩
  | unsubscribe id hid hunsub hdone => exact ⟨old, h.unsubscribe hid hunsub hdone⟩
  | destroy hd => exact ⟨old, h.destroy hd⟩
  | destroyNotify hd => exact ⟨old, h.quiet (quiet_worker s _ _ _ nofun (quiet_notifyOne _))⟩
  | destroyJoin hd hw => exact ⟨old, h.quiet (quiet_worker s _ _ _ nofun ⟨rfl, rfl, rfl, rfl⟩)⟩
  | sleep s₁ hs hdone hempty =>
    exact ⟨old, (h.atWait hs).quiet (quiet_worker _ .parked _ _ (fun hd => hd) ⟨rfl, rfl, rfl, rfl⟩)⟩
  | swap s₁ hs => exact ⟨old, (h.atWait hs).swap rfl⟩
  | wakeWorker hw =>
    refine ⟨old, h.quiet (quiet_worker s _ _ _ (fun hd => hd) ?_)⟩
    rw [hw]
    exact ⟨rfl, rfl, rfl, rfl⟩
  | notifyFull readBuffer done sub hw =>
    refine ⟨old, h.quiet (quiet_worker s _ _ _ (fun hd => hd) ?_)⟩
    rw [hw]
    exact ⟨rfl, rfl, rfl, rfl⟩
  | skip readBuffer done id sub hw hthrew => exact ⟨old, h.skip hw hthrew⟩
  | observe readBuffer done id sub throws hw hok => exact ⟨old, h.observe throws hw hok⟩
  | finish readBuffer done hw => exact ⟨old ++ readBuffer, h.finish hw⟩

/-- So does every run. -/
theorem run_delivery (ops : List (Op Event)) (h : Lib.run (TraceBus.step cap) init ops = some s) :
    ∃ old, Delivery old s :=
  Lib.run_invariant (I := fun s => ∃ old, Delivery old s) ⟨[], delivery_init⟩
    (fun _ _ _ ⟨_, hinv⟩ hstep => hinv.step hstep) ops h

/-- What a node has seen is a prefix of what was published. -/
theorem Flow.seen_prefix (h : Flow old s) (id : SubId) : s.seen old id <+: s.published := by
  rw [h.published]
  unfold Bus.seen
  split
  · exact (List.prefix_append _ _).trans (List.prefix_append _ _)
  · exact List.prefix_append _ _

/-- When the worker has exited, every node left has seen what was published before
destruction began. -/
theorem Delivery.exited (h : Delivery old s) (hw : s.worker = .exited) (id : SubId) :
    s.doneAt ≤ (s.seen old id).length := by
  have := (h.flow.sawDone (by rw [hw]; rfl)).2
  simpa [Bus.seen, hw, Worker.todo] using this

/-- **`TraceBus` delivery.** In every reachable state and for every subscription: if its
observer has not thrown, its calls are the events published from some `a` up to some `b`,
in order, where `a` is not after its subscription; once it is unlinked or the worker is
gone, `b` is not before its unsubscription, or the destruction if it never unsubscribed.
An observer that threw has not been called since; after its unsubscription an observer is
called at most twice; and a node is unlinked at most once, and only on request. -/
theorem delivered (cap : ℕ) (ops : List (Op Event)) (s : Bus Event)
    (hrun : Lib.run (TraceBus.step cap) init ops = some s) :
    (∀ id < s.nextId,
      ((s.nodes id).threw = none → ∃ a b, a ≤ (s.nodes id).subscribedAt ∧ a ≤ b ∧
        b ≤ s.published.length ∧ (s.nodes id).calls.flatten = (s.published.take b).drop a ∧
        (id ∈ s.unlinked ∨ s.worker = .exited →
          (∀ u k, (s.nodes id).unsubscribed = some (u, k) → u ≤ b) ∧
          ((s.nodes id).unsubscribed = none → s.doneAt ≤ b))) ∧
      (∀ k, (s.nodes id).threw = some k → (s.nodes id).calls.length = k) ∧
      (∀ u k, (s.nodes id).unsubscribed = some (u, k) → (s.nodes id).calls.length ≤ k + 2) ∧
      (id ∈ s.unlinked → (s.nodes id).unsubscribed.isSome)) ∧
    s.unlinked.Nodup := by
  obtain ⟨old, h⟩ := run_delivery ops hrun
  refine ⟨fun id hid => ⟨fun hnone => ?_, fun k hk => ?_, fun u k huk => ?_, fun hm => ?_⟩,
    (List.nodup_append.1 h.links.nodup).1⟩
  · have hok := (h.record id).ok_of_threw_none hnone
    rcases List.mem_append.1 ((h.links.mem_iff id).2 hid) with hm | hm
    · -- unlinked: `b` is what had been handed out by then
      obtain ⟨b, u, k, hb, hseg, huk, hub, -⟩ := h.unlinked id hm
      obtain ⟨a, h1, h2, h3⟩ := hseg hok
      rw [List.length_take, Nat.min_eq_left hb] at h2
      refine ⟨a, b, h1, h2, hb, h3, fun _ => ⟨fun u' k' huk' => ?_, fun hnone => ?_⟩⟩
      · rw [huk] at huk'; cases huk'; exact hub
      · rw [huk] at hnone; cases hnone
    · -- still linked: `b` is what it has seen, which matters once the worker is gone
      obtain ⟨a, h1, h2, h3⟩ := (h.linked id hm).segment hok
      have hpre := h.flow.seen_prefix id
      refine ⟨a, (s.seen old id).length, h1, h2, hpre.length_le, ?_, fun hend => ?_⟩
      · rw [← List.prefix_iff_eq_take.1 hpre]; exact h3
      · have hw : s.worker = .exited := hend.resolve_left fun hu =>
          (List.nodup_append.1 h.links.nodup).2.2 id hu id hm rfl
        have hdone := h.exited hw id
        refine ⟨fun u k huk => Nat.le_trans ?_ hdone, fun _ => hdone⟩
        exact ((h.record id).unsubscribed u k huk).2.2 (h.flow.sawDone (by rw [hw]; rfl)).1
  · exact (h.record id).calls_of_threw hk
  · rcases List.mem_append.1 ((h.links.mem_iff id).2 hid) with hm | hm
    · obtain ⟨b, u', k', -, -, huk', -, hcalls⟩ := h.unlinked id hm
      rw [huk] at huk'; cases huk'; exact hcalls
    · refine Nat.le_trans ((h.linked id hm).calls u k huk) (Nat.add_le_add_left ?_ k)
      unfold Bus.further
      split <;> split <;> omega
  · obtain ⟨b, u, k, -, -, huk, -⟩ := h.unlinked id hm
    rw [huk]; rfl

/-- A subscriber is called with `7`, unsubscribes, and is unlinked before `8`. -/
def oneSubscriber : List (Op ℕ) :=
  [.subscribe, .publish 7, .publisher 0, .publisher 0, .lock, .unsubscribe 0, .observe false, .finish,
    .publish 8, .publisher 1, .publisher 1, .lock]

theorem delivered_one :
    ∃ s, Lib.run (TraceBus.step 2) init oneSubscriber = some s ∧ s.unlinked = [0] ∧ (s.nodes 0).calls = [[7]] ∧
      (s.nodes 0).calls.length ≤ 0 + 2 :=
  ⟨_, rfl, rfl, rfl, ((delivered 2 oneSubscriber _ rfl).1 0 (by decide)).2.2.1 1 0 rfl⟩

end TraceBus

end EdenCommon
