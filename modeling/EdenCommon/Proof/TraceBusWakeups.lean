import EdenCommon.Lib.Run
import EdenCommon.Spec.TraceBus

/-!
# `TraceBus` loses no wakeup

A notification is made only when the buffer becomes nonempty, when a full buffer is
swapped out and when `done` is set. That is enough: whoever is asleep although its
condition holds has a notification coming (`Wakeups`), in every reachable state
(`run_wakeups`).

* `step_cases`: all steps of the publishers and of the worker, by what they do to the buffer
  and to those who wait. A notification is made behind the unlock, so it may still be owed
  when another thread comes in.
* `Wakeups.step`: each of them keeps the wake-ups. The cases are those of `step_cases`.
* `no_lost_wakeup`: in every run, for any number of publishers and any capacity, nobody
  sleeps on a condition that holds without a wake-up on its way.
-/

namespace EdenCommon

namespace TraceBus

variable {Event : Type} {cap : ℕ} {s s' : Bus Event} {i : ℕ} {p : Publisher Event}

/-! ### What the steps do -/

/-- The publisher is about to append this event or to fall asleep with it. -/
def Publisher.Brings (p : Publisher Event) (e : Event) : Prop := p = .start e ∨ p = .notified e

theorem Publisher.Brings.ne_notify {e : Event} (h : p.Brings e) : p ≠ .notify := by
  rcases h with rfl | rfl <;> nofun

/-- The worker is awake and about to wait: at the top of the loop, once the lock is taken
and the list cleared, or woken. -/
def Bus.AtWait (s₁ s : Bus Event) : Prop :=
  (s.worker = .lock ∧ s₁ = s.unlink) ∨ (s.worker = .notified ∧ s₁ = s)

/-- **What a step does.** -/
inductive Stepped (cap : ℕ) (s : Bus Event) : Bus Event → Prop
  | call (e : Event) : Stepped cap s { s with publishers := s.publishers ++ [.start e] }
  | emplace (i : ℕ) (p : Publisher Event) (e : Event) (hi : s.publishers[i]? = some p) (hp : p.Brings e)
      (hroom : s.writeBuffer.length ≤ cap → s.writeBuffer.length < cap) : Stepped cap s (s.emplace i e)
  | park (i : ℕ) (p : Publisher Event) (e : Event) (hi : s.publishers[i]? = some p) (hp : p.Brings e)
      (hfull : s.writeBuffer.length ≤ cap → s.writeBuffer.length = cap) :
      Stepped cap s { s with publishers := s.publishers.set i (.parked e) }
  | notify (i : ℕ) :
      Stepped cap s { s with worker := s.worker.notifyOne, publishers := s.publishers.set i .returned }
  | wakePublisher (i : ℕ) (e : Event) (hi : s.publishers[i]? = some (.parked e)) :
      Stepped cap s { s with publishers := s.publishers.set i (.notified e) }
  | subscribe : Stepped cap s { s with
      nodes := Function.update s.nodes s.nextId ⟨false, 0, s.published.length, [], none, none⟩
      subscriptions := s.nextId :: s.subscriptions
      hasSubscription_ := true
      nextId := s.nextId + 1 }
  | unsubscribe (id : SubId) (hid : id < s.nextId) (hunsub : (s.nodes id).unsubscribe = 0) (hdone : s.done = false) :
      Stepped cap s { s with
        nodes := Function.update s.nodes id { s.nodes id with
          unsubscribe := s.sequenceNumber
          unsubscribed := some (s.published.length, (s.nodes id).calls.length) } }
  | destroy (hd : s.destructor = .idle) :
      Stepped cap s { s with done := true, destructor := .notify, doneAt := s.published.length }
  | destroyNotify (hd : s.destructor = .notify) :
      Stepped cap s { s with worker := s.worker.notifyOne, destructor := .joining }
  | destroyJoin (hd : s.destructor = .joining) (hw : s.worker = .exited) :
      Stepped cap s { s with destructor := .destroyed }
  | sleep (s₁ : Bus Event) (hs : s₁.AtWait s) (hdone : s₁.done = false) (hempty : s₁.writeBuffer = []) :
      Stepped cap s { s₁ with worker := .parked }
  | swap (s₁ : Bus Event) (hs : s₁.AtWait s) : Stepped cap s (s₁.swap cap)
  | wakeWorker (hw : s.worker = .parked) : Stepped cap s { s with worker := .notified }
  | notifyFull (readBuffer : List Event) (done : Bool) (sub : List SubId)
      (hw : s.worker = .notifyFull readBuffer done sub) :
      Stepped cap s { s with
        publishers := s.publishers.map Publisher.notifyAll, worker := .deliver readBuffer done sub }
  | skip (readBuffer : List Event) (done : Bool) (id : SubId) (sub : List SubId)
      (hw : s.worker = .deliver readBuffer done (id :: sub)) (hthrew : (s.nodes id).hasThrownException = true) :
      Stepped cap s { s with worker := .deliver readBuffer done sub }
  | observe (readBuffer : List Event) (done : Bool) (id : SubId) (sub : List SubId) (throws : Bool)
      (hw : s.worker = .deliver readBuffer done (id :: sub)) (hok : (s.nodes id).hasThrownException = false) :
      Stepped cap s { s with
        nodes := Function.update s.nodes id ((s.nodes id).observeBatch readBuffer throws)
        worker := .deliver readBuffer done sub }
  | finish (readBuffer : List Event) (done : Bool) (hw : s.worker = .deliver readBuffer done []) :
      Stepped cap s { s with worker := if done then .exited else .lock }

/-- The steps of a publisher. -/
theorem stepped_publisher (hi : s.publishers[i]? = some p) (h : s.publisherStep cap i p = some s') :
    Stepped cap s s' := by
  cases p with
  | start e =>
    simp only [Bus.publisherStep] at h
    split at h
    · -- the `XCHECK` fails: there is no step
      cases h
    split at h
    · cases h; exact .park i _ e hi (.inl rfl) fun _ => by assumption
    · cases h; exact .emplace i _ e hi (.inl rfl) fun hle => by omega
  | notified e =>
    -- a woken publisher may find the buffer full again
    simp only [Bus.publisherStep] at h
    split at h
    · cases h; exact .emplace i _ e hi (.inr rfl) fun _ => by assumption
    · cases h; exact .park i _ e hi (.inr rfl) fun hle => by omega
  | notify => cases h; exact .notify i
  | parked e => cases h
  | returned => cases h

/-- The worker looks at the buffer, and parks if there is nothing. -/
theorem stepped_waitEmpty {s₁ : Bus Event} (hs : s₁.AtWait s) : Stepped cap s (s₁.waitEmpty cap) := by
  unfold Bus.waitEmpty
  split
  · exact .swap s₁ hs
  · rename_i h
    rw [Bool.not_eq_true, Bool.or_eq_false_iff, Bool.not_eq_false'] at h
    exact .sleep s₁ hs h.1 (List.isEmpty_iff.1 h.2)

/-- **All steps**, by what they do to the buffer and to those who wait. -/
theorem step_cases {op : Op Event} (h : step cap s op = some s') : Stepped cap s s' := by
  cases op with
  | publish event => cases h; exact .call event
  | publisher i =>
    obtain ⟨p, hi, hp⟩ := Option.bind_eq_some_iff.1 h
    exact stepped_publisher hi hp
  | wakePublisher i =>
    simp only [step] at h
    split at h
    · rename_i event hi; cases h; exact .wakePublisher i event hi
    · cases h
  | subscribe =>
    simp only [step] at h
    split at h
    · cases h
    · cases h; exact .subscribe
  | unsubscribe id =>
    simp only [step] at h
    split at h
    · rename_i hg; cases h; exact .unsubscribe id hg.1 hg.2.1 hg.2.2
    · cases h
  | destroy =>
    simp only [step] at h
    split at h
    · rename_i hd; cases h; exact .destroy hd
    · cases h
  | destroyNotify =>
    simp only [step] at h
    split at h
    · rename_i hd; cases h; exact .destroyNotify hd
    · cases h
  | destroyJoin =>
    simp only [step] at h
    split at h
    · rename_i hd hw; cases h; exact .destroyJoin hd hw
    · cases h
  | lock =>
    simp only [step] at h
    split at h
    · rename_i hw; cases h; exact stepped_waitEmpty (.inl ⟨hw, rfl⟩)
    · cases h
  | wakeWorker =>
    simp only [step] at h
    split at h
    · rename_i hw; cases h; exact .wakeWorker hw
    · cases h
  | recheck =>
    simp only [step] at h
    split at h
    · rename_i hw; cases h; exact stepped_waitEmpty (.inr ⟨hw, rfl⟩)
    · cases h
  | notifyFull =>
    simp only [step] at h
    split at h
    · rename_i hw; cases h; exact .notifyFull _ _ _ hw
    · cases h
  | observe throws =>
    simp only [step] at h
    split at h
    · rename_i hw
      split at h
      · rename_i hthrew; cases h; exact .skip _ _ _ _ hw hthrew
      · rename_i hok; cases h; exact .observe _ _ _ _ throws hw (by simpa using hok)
    · cases h
  | finish =>
    simp only [step] at h
    split at h
    · rename_i hw; cases h; exact .finish _ _ hw
    · cases h

/-- The other threads of the list are where they were. -/
theorem mem_set_of_ne {α : Type} {l : List α} {x y z : α} (hx : x ∈ l) (hi : l[i]? = some y) (hne : y ≠ x) :
    x ∈ l.set i z := by
  obtain ⟨j, hj⟩ := List.mem_iff_getElem?.1 hx
  have hij : i ≠ j := by
    rintro rfl
    exact hne (Option.some.inj (hi.symm.trans hj))
  exact List.mem_of_getElem? (by rw [List.getElem?_set_ne hij]; exact hj)

/-! ### The invariant -/

/-- **No wakeup is lost**: who sleeps although it could go on is about to be notified. -/
structure Wakeups (cap : ℕ) (s : Bus Event) : Prop where
  empty : s.worker = .parked → s.done = true ∨ s.writeBuffer ≠ [] → s.OwesNotifyOne
  full : ∀ e, .parked e ∈ s.publishers → s.writeBuffer.length = cap ∨ s.worker.owesNotifyAll
  bound : s.writeBuffer.length ≤ cap
  flag : s.hasSubscription_ = false → s.subscriptions = []

/-- A publisher waits only for a full buffer, unless a wake-up is owed to it. -/
theorem Wakeups.full_of_not_owes (h : Wakeups cap s) (ho : ¬ s.worker.owesNotifyAll) (e : Event)
    (he : .parked e ∈ s.publishers) : s.writeBuffer.length = cap :=
  (h.full e he).resolve_right ho

theorem wakeups_init : Wakeups cap (init : Bus Event) where
  empty := nofun
  full := by simp [init]
  bound := Nat.zero_le _
  flag := fun _ => rfl

/-- A worker that is notified is not parked. -/
theorem Worker.notifyOne_ne_parked (w : Worker Event) : w.notifyOne ≠ .parked := by
  cases w <;> simp [Worker.notifyOne]

@[simp] theorem Worker.notifyOne_owes (w : Worker Event) : w.notifyOne.owesNotifyAll ↔ w.owesNotifyAll := by
  cases w <;> simp [Worker.notifyOne, Worker.owesNotifyAll]

/-- Neither is a publisher. -/
theorem notifyAll_ne_parked (p : Publisher Event) (e : Event) : p.notifyAll ≠ .parked e := by
  cases p <;> simp [Publisher.notifyAll]

/-- The first event of a buffer brings a notification; the others find one on its way. -/
theorem Wakeups.emplace (h : Wakeups cap s) {e : Event} (hi : s.publishers[i]? = some p) (hp : p.Brings e)
    (hroom : s.writeBuffer.length < cap) : Wakeups cap (s.emplace i e) where
  empty := by
    intro hw _
    obtain ⟨hlt, hget⟩ := List.getElem?_eq_some_iff.1 hi
    cases hb : s.writeBuffer with
    | nil =>
      -- `wake` is set: this thread is now about to notify
      left
      simp only [Bus.emplace, hb, List.isEmpty_nil, if_true]
      exact List.mem_set hlt _
    | cons x xs =>
      exact (h.empty hw (.inr (by simp [hb]))).imp (fun ho => mem_set_of_ne ho hi hp.ne_notify) id
  full := by
    intro e' he'
    -- a sleeping publisher and room in the buffer: the worker owes the notification
    rcases List.mem_or_eq_of_mem_set he' with hm | heq
    · rcases h.full e' hm with hf | ho
      · omega
      · exact .inr ho
    · split at heq <;> cases heq
  bound := by
    simp only [Bus.emplace, List.length_append, List.length_singleton]
    omega
  flag := h.flag

theorem Wakeups.unlink (h : Wakeups cap s) : Wakeups cap s.unlink where
  empty := h.empty
  full := h.full
  bound := h.bound
  flag := by
    intro hf
    simp only [Bus.unlink] at hf ⊢
    split at hf
    · rename_i hempty; exact List.isEmpty_iff.1 hempty
    · rw [h.flag hf]; rfl

/-- In front of the wait the worker owes nothing to the publishers. -/
theorem Wakeups.atWait (h : Wakeups cap s) {s₁ : Bus Event} (hs : s₁.AtWait s) :
    Wakeups cap s₁ ∧ ∀ e, .parked e ∈ s₁.publishers → s₁.writeBuffer.length = cap := by
  rcases hs with ⟨hw, rfl⟩ | ⟨hw, rfl⟩
  · exact ⟨h.unlink, h.full_of_not_owes (by rw [hw]; nofun)⟩
  · exact ⟨h, h.full_of_not_owes (by rw [hw]; nofun)⟩

/-- Every step keeps the wake-ups. -/
theorem Wakeups.step (h : Wakeups cap s) {op : Op Event} (hstep : step cap s op = some s') : Wakeups cap s' := by
  cases step_cases hstep with
  | call e =>
    refine ⟨fun hw hb => (h.empty hw hb).imp (List.mem_append_left _) id, fun e' he' => ?_, h.bound, h.flag⟩
    rcases List.mem_append.1 he' with hm | hm
    · exact h.full e' hm
    · simp at hm
  | emplace i p e hi hp hroom => exact h.emplace hi hp (hroom h.bound)
  | park i p e hi hp hfull =>
    refine ⟨fun hw hb => ?_, fun _ _ => .inl (hfull h.bound), h.bound, h.flag⟩
    exact (h.empty hw hb).imp (fun ho => mem_set_of_ne ho hi hp.ne_notify) id
  | notify i =>
    refine ⟨fun hw => absurd hw (Worker.notifyOne_ne_parked _), fun e he => ?_, h.bound, h.flag⟩
    rcases List.mem_or_eq_of_mem_set he with hm | heq
    · rw [Worker.notifyOne_owes]; exact h.full e hm
    · cases heq
  | wakePublisher i e hi =>
    refine ⟨fun hw hb => (h.empty hw hb).imp (fun ho => mem_set_of_ne ho hi nofun) id, fun e' he' => ?_,
      h.bound, h.flag⟩
    rcases List.mem_or_eq_of_mem_set he' with hm | heq
    · exact h.full e' hm
    · cases heq
  | subscribe => exact ⟨h.empty, h.full, h.bound, nofun⟩
  | unsubscribe id hid hunsub hdone => exact ⟨h.empty, h.full, h.bound, h.flag⟩
  | destroy hd => exact ⟨fun _ _ => .inr rfl, h.full, h.bound, h.flag⟩
  | destroyNotify hd =>
    refine ⟨fun hw => absurd hw (Worker.notifyOne_ne_parked _), fun e he => ?_, h.bound, h.flag⟩
    rw [Worker.notifyOne_owes]; exact h.full e he
  | destroyJoin hd hw =>
    refine ⟨fun hp => ?_, h.full, h.bound, h.flag⟩
    rw [show s.worker = .parked from hp] at hw; cases hw
  | sleep s₁ hs hdone hempty =>
    -- the condition was checked under the lock
    obtain ⟨h1, hfull⟩ := h.atWait hs
    refine ⟨fun _ hor => ?_, fun e he => .inl (hfull e he), h1.bound, h1.flag⟩
    rcases hor with hd | hb
    · rw [hdone] at hd; cases hd
    · exact absurd hempty hb
  | swap s₁ hs =>
    -- a full buffer is swapped out with the notification to come
    obtain ⟨h1, hfull⟩ := h.atWait hs
    refine ⟨fun hp => ?_, fun e he => .inr ?_, Nat.zero_le _, h1.flag⟩
    · simp only [Bus.swap] at hp
      split at hp <;> cases hp
    · simp only [Bus.swap, hfull e he, if_true, Worker.owesNotifyAll]
  | wakeWorker hw =>
    exact ⟨nofun, fun e he => .inl (h.full_of_not_owes (by rw [hw]; nofun) e he), h.bound, h.flag⟩
  | notifyFull readBuffer done sub hw =>
    refine ⟨nofun, fun e he => ?_, h.bound, h.flag⟩
    obtain ⟨p, -, hp⟩ := List.mem_map.1 he
    exact absurd hp (notifyAll_ne_parked p e)
  | skip readBuffer done id sub hw hthrew =>
    exact ⟨nofun, fun e he => .inl (h.full_of_not_owes (by rw [hw]; nofun) e he), h.bound, h.flag⟩
  | observe readBuffer done id sub throws hw hok =>
    exact ⟨nofun, fun e he => .inl (h.full_of_not_owes (by rw [hw]; nofun) e he), h.bound, h.flag⟩
  | finish readBuffer done hw =>
    refine ⟨fun hp => ?_, fun e he => .inl (h.full_of_not_owes (by rw [hw]; nofun) e he), h.bound, h.flag⟩
    cases done <;> cases hp

/-- **No wakeup is lost in any run.** -/
theorem run_wakeups (ops : List (Op Event)) (h : Lib.run (TraceBus.step cap) init ops = some s) : Wakeups cap s :=
  Lib.run_invariant wakeups_init (fun _ _ _ hinv hstep => hinv.step hstep) ops h

/-- **`TraceBus` has no lost wakeup**, for any number of publishers and any capacity. -/
theorem no_lost_wakeup (cap : ℕ) (ops : List (Op Event)) (s : Bus Event)
    (hrun : Lib.run (TraceBus.step cap) init ops = some s) :
    (s.worker = .parked → ¬ s.OwesNotifyOne → s.writeBuffer = [] ∧ s.done = false) ∧
    (∀ e, .parked e ∈ s.publishers → ¬ s.worker.owesNotifyAll → s.writeBuffer.length = cap) ∧
    s.writeBuffer.length ≤ cap ∧
    (s.hasSubscription_ = false → s.subscriptions = []) := by
  have h := run_wakeups ops hrun
  refine ⟨fun hw ho => ?_, fun e he ho => h.full_of_not_owes ho e he, h.bound, h.flag⟩
  obtain ⟨hd, hb⟩ := not_or.1 fun hor => ho (h.empty hw hor)
  exact ⟨Classical.not_not.1 hb, by simpa using hd⟩

/-- The worker sleeps, is woken for an event, hands it out and sleeps again. -/
def oneEvent : List (Op ℕ) :=
  [.lock, .publish 7, .publisher 0, .publisher 0, .recheck, .notifyFull, .finish, .lock]

/-- A bus with room for one event. -/
theorem no_lost_wakeup_one :
    ∃ s, Lib.run (TraceBus.step 1) init oneEvent = some s ∧ s.worker = .parked ∧ s.writeBuffer = [] ∧
      s.done = false :=
  ⟨_, rfl, rfl, (no_lost_wakeup 1 oneEvent _ rfl).1 rfl (by decide)⟩

end TraceBus

end EdenCommon
