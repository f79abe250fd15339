import Mathlib.Data.Nat.Notation
import Mathlib.Logic.Function.Basic

/-!
# `TraceBus`

Publishers, subscribers, the worker and the destructor of `TraceBus.h`, one step per
critical section and per call of a condition variable. A thread notifies after it has
released the lock, in a step of its own. A parked thread is woken by a notification or
spuriously, and checks its condition again under the lock.

A subscription is a number; `subscriptions` is the linked list, its head first. The
sequence number counts the events published, from one. It is a natural number here and a `uint64_t` in the
source, where it would wrap around after `2 ^ 64` events. The fields behind `record` say
what happened and are read by nothing. A failed `XCHECK` ends the program, so there is
no step: `publish` after destruction has begun. A handle reaches the bus through a
`weak_ptr`, so no `unsubscribe` does so after destruction has begun either.
-/

namespace EdenCommon

namespace TraceBus

abbrev SubId := ℕ

/-- `TraceBus::Subscription`, with a record of the calls of its `observeBatch`. -/
structure Subscription (Event : Type) where
  hasThrownException : Bool
  unsubscribe : ℕ
  /-- record: the events published when `subscribe` returned. -/
  subscribedAt : ℕ
  /-- record: the batches its observer was called with. -/
  calls : List (List Event)
  /-- record: the events published and the calls made when it was unsubscribed. -/
  unsubscribed : Option (ℕ × ℕ)
  /-- record: the calls made when its observer first threw, that one included. -/
  threw : Option ℕ

/-- Where a thread stands in `publish`. -/
inductive Publisher (Event : Type)
  /-- In front of the lock. -/
  | start (event : Event)
  /-- Asleep on `fullCV_`. -/
  | parked (event : Event)
  /-- Woken, in front of the lock. -/
  | notified (event : Event)
  /-- The lock is released; `emptyCV_.notify_one()` is next. -/
  | notify
  | returned
  deriving DecidableEq, Repr

/-- Where the worker stands in `threadLoop`. -/
inductive Worker (Event : Type)
  /-- At the top of the loop, in front of the lock. -/
  | lock
  /-- Asleep on `emptyCV_`. -/
  | parked
  /-- Woken, in front of the lock. -/
  | notified
  /-- The buffers are swapped and the lock released; `fullCV_.notify_all()` is next. -/
  | notifyFull (readBuffer : List Event) (done : Bool) (sub : List SubId)
  /-- In the loop over the subscriptions, of which `sub` are left. -/
  | deliver (readBuffer : List Event) (done : Bool) (sub : List SubId)
  | exited
  deriving DecidableEq, Repr

/-- Where `~TraceBus` stands. -/
inductive Destructor
  | idle
  /-- `done` is set; `emptyCV_.notify_one()` is next. -/
  | notify
  | joining
  | destroyed
  deriving DecidableEq, Repr

structure Bus (Event : Type) where
  done : Bool
  subscriptions : List SubId
  writeBuffer : List Event
  sequenceNumber : ℕ
  hasSubscription_ : Bool
  nodes : SubId → Subscription Event
  nextId : SubId
  publishers : List (Publisher Event)
  worker : Worker Event
  lastObservedSequenceNumber : ℕ
  destructor : Destructor
  /-- record: every event published, in order. -/
  published : List Event
  /-- record: the nodes the worker has unlinked and deleted. -/
  unlinked : List SubId
  /-- record: the events published when destruction began. -/
  doneAt : ℕ

/-- One step of one thread. -/
inductive Op (Event : Type)
  /-- A thread calls `publish`. -/
  | publish (event : Event)
  /-- The `i`-th publisher goes on. -/
  | publisher (i : ℕ)
  | wakePublisher (i : ℕ)
  | subscribe
  | unsubscribe (id : SubId)
  | destroy
  | destroyNotify
  | destroyJoin
  /-- The worker enters its critical section from the top of the loop. -/
  | lock
  | wakeWorker
  /-- The worker has woken and checks its condition again. -/
  | recheck
  | notifyFull
  /-- The worker turns to the next subscription, whose observer may throw. -/
  | observe (throws : Bool)
  /-- The worker has come to the end of the list. -/
  | finish

variable {Event : Type}

/-- `notify_one` on `emptyCV_`, on which only the worker sleeps. -/
def Worker.notifyOne : Worker Event → Worker Event
  | .parked => .notified
  | w => w

/-- `notify_all` on `fullCV_`. -/
def Publisher.notifyAll : Publisher Event → Publisher Event
  | .parked event => .notified event
  | p => p

/-- The end of `publish` under the lock. -/
def Bus.emplace (s : Bus Event) (i : ℕ) (event : Event) : Bus Event :=
  { s with
    writeBuffer := s.writeBuffer ++ [event]
    sequenceNumber := s.sequenceNumber + 1
    publishers := s.publishers.set i (if s.writeBuffer.isEmpty then .notify else .returned)
    published := s.published ++ [event] }

/-- The next step of the `i`-th publisher, which stands at the given place. -/
def Bus.publisherStep (bufferCapacity_ : ℕ) (s : Bus Event) (i : ℕ) : Publisher Event → Option (Bus Event)
  | .start event =>
    if s.done then none
    else if s.writeBuffer.length = bufferCapacity_ then
      some { s with publishers := s.publishers.set i (.parked event) }
    else some (s.emplace i event)
  | .notified event =>
    if s.writeBuffer.length < bufferCapacity_ then some (s.emplace i event)
    else some { s with publishers := s.publishers.set i (.parked event) }
  | .notify => some { s with worker := s.worker.notifyOne, publishers := s.publishers.set i .returned }
  | .parked _ => none
  | .returned => none

/-- The subscription has seen the events up to its unsubscription request. -/
def Bus.expired (s : Bus Event) (id : SubId) : Bool :=
  (s.nodes id).unsubscribe ≠ 0 && (s.nodes id).unsubscribe ≤ s.lastObservedSequenceNumber

/-- `threadLoop` under the lock, up to the wait. -/
def Bus.unlink (s : Bus Event) : Bus Event :=
  let kept := s.subscriptions.filter fun id => !s.expired id
  { s with
    subscriptions := kept
    lastObservedSequenceNumber := s.sequenceNumber
    hasSubscription_ := if kept.isEmpty then false else s.hasSubscription_
    unlinked := s.unlinked ++ s.subscriptions.filter s.expired }

/-- The rest of the critical section, behind the wait. -/
def Bus.swap (bufferCapacity_ : ℕ) (s : Bus Event) : Bus Event :=
  { s with
    writeBuffer := []
    worker :=
      if s.writeBuffer.length = bufferCapacity_ then .notifyFull s.writeBuffer s.done s.subscriptions
      else .deliver s.writeBuffer s.done s.subscriptions }

/-- `emptyCV_.wait`: the worker goes on or falls asleep. -/
def Bus.waitEmpty (bufferCapacity_ : ℕ) (s : Bus Event) : Bus Event :=
  if s.done || !s.writeBuffer.isEmpty then s.swap bufferCapacity_ else { s with worker := .parked }

/-- The observer of `id` is called with the batch. -/
def Subscription.observeBatch (sub : Subscription Event) (readBuffer : List Event) (throws : Bool) :
    Subscription Event :=
  { sub with
    hasThrownException := sub.hasThrownException || throws
    calls := sub.calls ++ [readBuffer]
    threw := sub.threw.or (if throws then some (sub.calls.length + 1) else none) }

/-- The step function; `none` if the step is not possible. -/
def step (bufferCapacity_ : ℕ) (s : Bus Event) : Op Event → Option (Bus Event)
  | .publish event => some { s with publishers := s.publishers ++ [.start event] }
  | .publisher i => s.publishers[i]?.bind (s.publisherStep bufferCapacity_ i)
  | .wakePublisher i =>
    match s.publishers[i]? with
    | some (.parked event) => some { s with publishers := s.publishers.set i (.notified event) }
    | _ => none
  | .subscribe =>
    if s.destructor = .destroyed then none
    else
      some { s with
        nodes := Function.update s.nodes s.nextId ⟨false, 0, s.published.length, [], none, none⟩
        subscriptions := s.nextId :: s.subscriptions
        hasSubscription_ := true
        nextId := s.nextId + 1 }
  | .unsubscribe id =>
    -- the handle is given up here: it unsubscribes once
    if id < s.nextId ∧ (s.nodes id).unsubscribe = 0 ∧ s.done = false then
      some { s with
        nodes := Function.update s.nodes id { s.nodes id with
          unsubscribe := s.sequenceNumber
          unsubscribed := some (s.published.length, (s.nodes id).calls.length) } }
    else none
  | .destroy =>
    if s.destructor = .idle then
      some { s with done := true, destructor := .notify, doneAt := s.published.length }
    else none
  | .destroyNotify =>
    if s.destructor = .notify then some { s with worker := s.worker.notifyOne, destructor := .joining } else none
  | .destroyJoin =>
    match s.destructor, s.worker with
    | .joining, .exited => some { s with destructor := .destroyed }
    | _, _ => none
  | .lock =>
    match s.worker with
    | .lock => some (s.unlink.waitEmpty bufferCapacity_)
    | _ => none
  | .wakeWorker =>
    match s.worker with
    | .parked => some { s with worker := .notified }
    | _ => none
  | .recheck =>
    match s.worker with
    | .notified => some (s.waitEmpty bufferCapacity_)
    | _ => none
  | .notifyFull =>
    match s.worker with
    | .notifyFull readBuffer done sub =>
      some { s with publishers := s.publishers.map Publisher.notifyAll, worker := .deliver readBuffer done sub }
    | _ => none
  | .observe throws =>
    match s.worker with
    | .deliver readBuffer done (id :: sub) =>
      if (s.nodes id).hasThrownException then some { s with worker := .deliver readBuffer done sub }
      else
        some { s with
          nodes := Function.update s.nodes id ((s.nodes id).observeBatch readBuffer throws)
          worker := .deliver readBuffer done sub }
    | _ => none
  | .finish =>
    match s.worker with
    | .deliver _ done [] => some { s with worker := if done then .exited else .lock }
    | _ => none

/-- The bus as constructed, with the worker started. -/
def init : Bus Event where
  done := false
  subscriptions := []
  writeBuffer := []
  sequenceNumber := 1
  hasSubscription_ := false
  nodes := fun _ => ⟨false, 0, 0, [], none, none⟩
  nextId := 0
  publishers := []
  worker := .lock
  lastObservedSequenceNumber := 0
  destructor := .idle
  published := []
  unlinked := []
  doneAt := 0

/-- The worker has swapped a full buffer and not yet notified the publishers. -/
def Worker.owesNotifyAll : Worker Event → Prop
  | .notifyFull _ _ _ => True
  | _ => False

/-- A publisher or the destructor is between its unlock and its `emptyCV_.notify_one()`. -/
def Bus.OwesNotifyOne (s : Bus Event) : Prop := .notify ∈ s.publishers ∨ s.destructor = .notify

instance [DecidableEq Event] (s : Bus Event) : Decidable s.OwesNotifyOne := inferInstanceAs (Decidable (_ ∨ _))

end TraceBus

end EdenCommon
