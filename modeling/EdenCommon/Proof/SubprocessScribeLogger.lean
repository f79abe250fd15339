import EdenCommon.Lib.Run
import EdenCommon.Spec.SubprocessScribeLogger

/-!
# Accounting and order of the log queue

`totalBytes` is the sum of the sizes of the queued messages, so the writer's checks hold and
the queue keeps its limit. Until a write fails, the accepted messages are those written, the
one that the writer has taken and those queued, in this order (`Inv.order`); a clean stop
leaves nothing of the last two.

* `Inv.log`, `Inv.dequeue`, `Inv.writeSucceeds`, `Inv.writeFails`, `Inv.gaveUp`,
  `Inv.destructor`: one lemma for each section of the code under the lock and for each
  outcome of a write.
* `queue_accounts`: in every run the bytes are accounted for and within the limit, the
  checks of the writer hold, and the messages are written in their order.
-/

namespace EdenCommon

namespace SubprocessScribeLogger

open Lib

variable {l l' : Logger}

/-- The sizes of the queued messages. -/
def State.queuedBytes (state : State) : ℕ := (state.messages.map List.length).sum

/-- What the writer has done with the messages accepted, while no write has failed. -/
def Logger.InOrder (l : Logger) : Prop :=
  ∃ done, done ++ l.writer.current ++ l.state.messages = l.accepted ∧ l.written = done.flatMap frame

structure Inv (l : Logger) : Prop where
  total : l.state.totalBytes = l.state.queuedBytes
  limit : l.state.totalBytes ≤ kQueueLimitBytes
  checks : l.writer ≠ .checkFailed
  order : l.failed = false → l.InOrder
  giveUp : l.writer = .giveUp → l.failed = true
  stopped : l.state.didStop = true → l.state.messages = [] ∧ l.writer = .returned

theorem inv_start : Inv start where
  total := rfl
  limit := Nat.zero_le _
  checks := nofun
  order := fun _ => ⟨[], rfl, rfl⟩
  giveUp := nofun
  stopped := nofun

theorem Inv.log (hinv : Inv l) (message : Message) : Inv (l.log message) := by
  unfold Logger.log
  split
  · exact hinv
  · rename_i hdid
    split
    · exact hinv
    · rename_i hfull
      exact {
        total := by
          have := hinv.total
          simp only [State.queuedBytes, List.map_append, List.map_cons, List.map_nil, List.sum_append,
            List.sum_cons, List.sum_nil] at this ⊢
          omega
        limit := Nat.not_lt.1 hfull
        checks := hinv.checks
        order := by
          intro hf
          obtain ⟨done, hdone, hwritten⟩ := hinv.order hf
          exact ⟨done, by rw [← hdone]; simp only [List.append_assoc], hwritten⟩
        giveUp := hinv.giveUp
        stopped := fun h => absurd h hdid }

/-- The writer's checks hold, so it takes a message or stops cleanly. -/
theorem Inv.dequeue (hinv : Inv l) (hwait : l.writer = .wait) : Inv l.dequeue := by
  have htotal := hinv.total
  unfold State.queuedBytes at htotal
  unfold Logger.dequeue
  split
  · rename_i message messages hm
    rw [hm, List.map_cons, List.sum_cons] at htotal
    rw [if_pos (by omega)]
    exact {
      total := by
        simp only [State.queuedBytes]
        omega
      limit := (Nat.sub_le _ _).trans hinv.limit
      checks := nofun
      order := by
        intro hf
        obtain ⟨done, hdone, hwritten⟩ := hinv.order hf
        rw [hwait, hm] at hdone
        exact ⟨done, by rw [← hdone]; simp [Writer.current], hwritten⟩
      giveUp := nofun
      stopped := fun h => absurd (hinv.stopped h).2 (by rw [hwait]; nofun) }
  · rename_i hm
    rw [hm, List.map_nil, List.sum_nil] at htotal
    rw [if_pos htotal.symm]
    exact {
      total := hinv.total
      limit := hinv.limit
      checks := nofun
      order := by
        intro hf
        obtain ⟨done, hdone, hwritten⟩ := hinv.order hf
        rw [hwait] at hdone
        exact ⟨done, hdone, hwritten⟩
      giveUp := nofun
      stopped := fun _ => ⟨hm, rfl⟩ }

/-- A whole message is written: what the writer had taken is done. -/
theorem Inv.writeSucceeds (hinv : Inv l) {message : Message} (hw : l.writer = .write message) :
    Inv { l with writer := .wait, written := l.written ++ frame message } where
  total := hinv.total
  limit := hinv.limit
  checks := nofun
  order := by
    intro hf
    obtain ⟨done, hdone, hwritten⟩ := hinv.order hf
    rw [hw] at hdone
    refine ⟨done ++ [message], ?_, ?_⟩
    · rw [← hdone]
      simp [Writer.current]
    · simp [hwritten]
  giveUp := nofun
  stopped h := absurd (hinv.stopped h).2 (by rw [hw]; nofun)

theorem Inv.writeFails (hinv : Inv l) {message : Message} (hw : l.writer = .write message) (count : ℕ) :
    Inv { l with writer := .giveUp, written := l.written ++ (frame message).take count, failed := true } where
  total := hinv.total
  limit := hinv.limit
  checks := nofun
  order := nofun
  giveUp _ := rfl
  stopped h := absurd (hinv.stopped h).2 (by rw [hw]; nofun)

/-- The writer gives up behind a failed write only, where the order is not promised. -/
theorem Inv.gaveUp (hinv : Inv l) (hw : l.writer = .giveUp) : Inv l.giveUp where
  total := rfl
  limit := Nat.zero_le _
  checks := nofun
  order hf := absurd hf (by simp [Logger.giveUp, hinv.giveUp hw])
  giveUp := nofun
  stopped _ := ⟨rfl, rfl⟩

/-- The destructor changes nothing that is accounted for. -/
theorem Inv.destructor (hinv : Inv l) (shouldStop : Bool) (turn : Destructor) :
    Inv { l with state := { l.state with shouldStop := shouldStop }, destructor := turn } :=
  ⟨hinv.total, hinv.limit, hinv.checks, hinv.order, hinv.giveUp, hinv.stopped⟩

theorem Inv.step (hinv : Inv l) {op : Op} (h : step l op = some l') : Inv l' := by
  cases op with
  | log message =>
    simp only [SubprocessScribeLogger.step] at h
    split at h
    · cases h
    · obtain rfl := Option.some.inj h
      exact hinv.log message
  | dequeue =>
    simp only [SubprocessScribeLogger.step] at h
    split at h
    · rename_i hw
      obtain rfl := Option.some.inj h
      exact hinv.dequeue hw.1
    · cases h
  | writeSucceeds =>
    simp only [SubprocessScribeLogger.step] at h
    split at h
    · rename_i message hw
      obtain rfl := Option.some.inj h
      exact hinv.writeSucceeds hw
    · cases h
  | writeFails count =>
    simp only [SubprocessScribeLogger.step] at h
    split at h
    · rename_i message hw
      obtain rfl := Option.some.inj h
      exact hinv.writeFails hw count
    · cases h
  | giveUp =>
    simp only [SubprocessScribeLogger.step] at h
    split at h
    · rename_i hw
      obtain rfl := Option.some.inj h
      exact hinv.gaveUp hw
    · cases h
  | stop =>
    simp only [SubprocessScribeLogger.step] at h
    split at h
    · obtain rfl := Option.some.inj h
      exact hinv.destructor true .waiting
    · cases h
  | waited timeout =>
    simp only [SubprocessScribeLogger.step] at h
    split at h
    · obtain rfl := Option.some.inj h
      exact hinv.destructor l.state.shouldStop .joining
    · cases h
  | join =>
    simp only [SubprocessScribeLogger.step] at h
    split at h
    · obtain rfl := Option.some.inj h
      exact hinv.destructor l.state.shouldStop .destroyed
    · cases h

/-- **The log queue.** In every run `totalBytes` is the sum of the sizes of the queued
messages and within the limit, and the writer's checks hold. While no write has failed, the
child was written the first accepted messages in order, each with a newline, and those left
are with the writer and in the queue; behind a clean stop none are left. -/
theorem queue_accounts (ops : List Op) (l : Logger) (hrun : run SubprocessScribeLogger.step start ops = some l) :
    l.state.totalBytes = (l.state.messages.map List.length).sum ∧
    l.state.totalBytes ≤ kQueueLimitBytes ∧
    l.writer ≠ .checkFailed ∧
    (l.failed = false → ∃ done, done ++ l.writer.current ++ l.state.messages = l.accepted ∧
      l.written = done.flatMap frame) ∧
    (l.failed = false → l.state.didStop = true → l.written = l.accepted.flatMap frame) := by
  have hinv : Inv l := run_invariant inv_start (fun _ _ _ hi hs => hi.step hs) ops hrun
  refine ⟨hinv.total, hinv.limit, hinv.checks, hinv.order, fun hf hstop => ?_⟩
  obtain ⟨done, hdone, hwritten⟩ := hinv.order hf
  obtain ⟨hempty, hret⟩ := hinv.stopped hstop
  rw [hempty, hret] at hdone
  have hall : done = l.accepted := by simpa [Writer.current] using hdone
  rw [hwritten, hall]

/-- Two messages are logged, and the destructor waits until both are written. -/
theorem queue_accounts_two :
    ∃ l : Logger, run SubprocessScribeLogger.step start
        [.log [102, 111, 111], .dequeue, .log [98], .stop, .writeSucceeds, .dequeue, .writeSucceeds, .dequeue,
          .waited false, .join] = some l ∧
      l.destructor = .destroyed ∧ l.failed = false ∧ l.written = l.accepted.flatMap frame ∧
      l.written = [102, 111, 111, 10, 98, 10] := by
  refine ⟨_, rfl, rfl, rfl, ?_, rfl⟩
  exact (queue_accounts [.log [102, 111, 111], .dequeue, .log [98], .stop, .writeSucceeds, .dequeue, .writeSucceeds,
    .dequeue, .waited false, .join] _ rfl).2.2.2.2 rfl rfl

end SubprocessScribeLogger

end EdenCommon
