import Mathlib.Data.Nat.Basic
import Mathlib.Order.Basic
import Mathlib.Tactic.SplitIfs
import EdenCommon.Proof.UnixWire

/-!
# The send queue puts the wire form on the stream

`SendQueueEntry.remaining` is what an entry has still to put on the stream, a function of
its `iovec`s and counters. A call of `trySendMessage` moves a part of it from the entry to
the stream (`trySendMessage_stream`), so the bytes in flight followed by those of the queue
are the same after every call (`trySend_stream`), and `send` appends the wire form of its
message (`send_stream`).

* `Ok.sentData`, `Ok.sentFiles`: the two calls, of which the second one waits until the data
  is out.
* `trySendLoop_stream`: the loop moves cells from the queue to the stream, in order.
* `createSendQueueEntry_remaining`: a new entry has the wire form of its message to send.
* `send_announces_iff`: a message is announced as it is sent or refused exactly if its data
  and its files are fewer than `2 ^ 32`.
-/

namespace EdenCommon

open Lib

variable {F : Type} (cfg : SocketConfig)

def iovBytes (iov : List Iovec) : Bytes := (iov.map Iovec.bytes).flatten

theorem iovBytes_cons (v : Iovec) (iov : List Iovec) : iovBytes (v :: iov) = v.bytes ++ iovBytes iov := by
  simp [iovBytes]

theorem iovBytes_eq_nil {iov : List Iovec} (h : ∀ v ∈ iov, v.bytes ≠ []) : iovBytes iov = [] ↔ iov = [] := by
  cases iov with
  | nil => simp [iovBytes]
  | cons v iov =>
    have hv : v.bytes ≠ [] := h v (by simp)
    simp [iovBytes_cons, hv]

/-! ### The accounting loop -/

/-- **The loop drops the bytes that were sent**, and keeps the index in step with the
`iovec`s that are left. -/
theorem advanceIov_spec (iov : List Iovec) (i n : ℕ) (hn : n ≤ (iovBytes iov).length)
    (hne : ∀ v ∈ iov, v.bytes ≠ []) :
    iovBytes (advanceIov iov i n).1 = (iovBytes iov).drop n ∧
      (∀ v ∈ (advanceIov iov i n).1, v.bytes ≠ []) ∧
      (advanceIov iov i n).2 + (advanceIov iov i n).1.length = i + iov.length := by
  induction iov generalizing i n with
  | nil => simp [advanceIov, iovBytes]
  | cons v rest ih =>
    have hrest : ∀ w ∈ rest, w.bytes ≠ [] := fun w hw => hne w (List.mem_cons_of_mem _ hw)
    rw [iovBytes_cons, List.length_append] at hn
    rw [advanceIov, iovBytes_cons]
    split_ifs with h0 hv
    · subst h0
      exact ⟨by rw [iovBytes_cons, List.drop_zero], hne, rfl⟩
    · -- the whole of `v` was sent
      obtain ⟨h1, h2, h3⟩ := ih (i + 1) (n - v.bytes.length) (by omega) hrest
      have hdrop : (v.bytes ++ iovBytes rest).drop n = (iovBytes rest).drop (n - v.bytes.length) := by
        rw [List.drop_append, List.drop_of_length_le hv, List.nil_append]
      exact ⟨by rw [h1, hdrop], h2, by rw [h3, List.length_cons]; omega⟩
    · -- the send ended inside `v`
      have hlt : n < v.bytes.length := by omega
      have hdrop : (v.bytes ++ iovBytes rest).drop n = v.bytes.drop n ++ iovBytes rest :=
        List.drop_append_of_le_length hlt.le
      refine ⟨by rw [iovBytes_cons, hdrop], ?_, rfl⟩
      intro w hw
      rcases List.mem_cons.1 hw with rfl | hw
      · simpa using hlt
      · exact hrest w hw

/-- After a byte has been sent, the first `iovec` is gone or no longer points to the start
of its buffer. -/
theorem advanceIov_moved (iov : List Iovec) (i n : ℕ) (hn : 0 < n) (hiov : iov ≠ []) :
    (advanceIov iov i n).2 ≠ 0 ∨ ((advanceIov iov i n).1.head?.map Iovec.base) ≠ some 0 := by
  have hmono : ∀ (iov : List Iovec) (i n : ℕ), i ≤ (advanceIov iov i n).2 := by
    intro iov
    induction iov with
    | nil => intro i n; exact le_refl i
    | cons v rest ih =>
      intro i n
      rw [advanceIov]
      split_ifs with h0 hv
      · exact le_refl i
      · exact le_trans (Nat.le_succ i) (ih (i + 1) _)
      · exact le_refl i
  obtain ⟨v, rest, rfl⟩ := List.exists_cons_of_ne_nil hiov
  rw [advanceIov, if_neg hn.ne']
  split_ifs with hv
  · left
    have := hmono rest (i + 1) (n - v.bytes.length)
    omega
  · right
    simp
    omega

namespace SendQueueEntry

/-- The descriptors that go with the next data bytes. -/
def lot (e : SendQueueEntry F) : List F := if e.isFirstSend then controlFiles e 0 else []

/-- What the entry has still to put on the stream. -/
def remaining (e : SendQueueEntry F) : List (Cell F) :=
  attach e.lot (iovBytes e.iov) ++ extraCells (e.message.files.drop (e.filesSent + e.lot.length))

/-- The counters of an entry fit together. -/
structure Ok (e : SendQueueEntry F) : Prop where
  bytes_ne : ∀ v ∈ e.iov, v.bytes ≠ []
  index_add : e.iovIndex + e.iov.length = e.iovCount
  filesSent_add_le : e.filesSent + e.lot.length ≤ e.message.files.length

variable {e : SendQueueEntry F}

theorem lot_of_not_first (h : e.isFirstSend = false) : e.lot = [] := by simp [lot, h]

theorem lot_of_iov_nil (h : e.iov = []) : e.lot = [] := lot_of_not_first (by simp [isFirstSend, h])

theorem Ok.iovIndex_lt_iff (he : e.Ok) : e.iovIndex < e.iovCount ↔ e.iov ≠ [] := by
  have := he.index_add
  rw [← List.length_pos_iff]
  omega

theorem remaining_of_iov_nil (h : e.iov = []) : e.remaining = extraCells (e.message.files.drop e.filesSent) := by
  rw [remaining, lot_of_iov_nil h, h]
  rfl

/-- The test for the end of a message asks whether anything is left. -/
theorem Ok.isSent_iff (he : e.Ok) : e.isSent = true ↔ e.remaining = [] := by
  have hi := he.index_add
  have hf := he.filesSent_add_le
  by_cases h : e.iov = []
  · have hlot := lot_of_iov_nil h
    rw [remaining_of_iov_nil h, extraCells_eq_nil, List.drop_eq_nil_iff]
    simp only [h, List.length_nil, hlot] at hi hf
    simp only [isSent, Bool.and_eq_true, beq_iff_eq]
    omega
  · have hlen : 0 < e.iov.length := List.length_pos_iff.2 h
    have hne : iovBytes e.iov ≠ [] := fun hn => h ((iovBytes_eq_nil he.bytes_ne).1 hn)
    have hindex : e.iovIndex ≠ e.iovCount := by omega
    simp [isSent, hindex, remaining, attach_eq_nil, hne]

end SendQueueEntry

/-! ### One call -/

theorem length_controlFiles (e : SendQueueEntry F) (n : ℕ) :
    (controlFiles e n).length = min kMaxFDs (e.message.files.length - n) := by simp [controlFiles]

theorem length_controlFiles_le (e : SendQueueEntry F) (n : ℕ) : (controlFiles e n).length ≤ kMaxFDs := by
  rw [length_controlFiles]
  exact min_le_left _ _

/-- The counters advance by what there is, not by `kMaxFDs`. -/
theorem drop_min_length (files : List F) (n : ℕ) : files.drop (min n files.length) = files.drop n := by
  rcases Nat.le_total n files.length with h | h
  · rw [Nat.min_eq_left h]
  · rw [Nat.min_eq_right h, List.drop_of_length_le (le_refl _), List.drop_of_length_le h]

/-- The next call has room: it may send at least one byte. -/
def Ready (choices : List (Option ℕ)) : Prop := ∃ n rest, choices = some n :: rest

/-- A lot that fits: the call takes some of the bytes with the lot, or returns `EAGAIN`. -/
theorem streamSendmsg_spec (s : Stream F) {bytes : Bytes} {fds : List F} (hb : bytes ≠ []) (hf : fds.length ≤ kMaxFDs) :
    (¬ Ready s.choices ∧ ∃ s', streamSendmsg s bytes fds = (.wouldBlock, s') ∧ s'.cells = s.cells) ∨
      ∃ n s', streamSendmsg s bytes fds = (.sent n, s') ∧ 0 < n ∧ n ≤ bytes.length ∧
        s'.cells = s.cells ++ attach fds (bytes.take n) := by
  have hlen : 0 < bytes.length := List.length_pos_iff.2 hb
  unfold streamSendmsg
  rw [if_neg (by omega)]
  match h : s.choices with
  | [] => exact .inl ⟨by simp [Ready], s, rfl, rfl⟩
  | none :: rest => exact .inl ⟨by simp [Ready], _, rfl, rfl⟩
  | some n :: rest => exact .inr ⟨_, _, rfl, by omega, by omega, rfl⟩

namespace SendQueueEntry

/-- The entry after `n` of its data bytes have been sent. -/
def sentData (e : SendQueueEntry F) (n : ℕ) : SendQueueEntry F :=
  let adv := advanceIov e.iov e.iovIndex n
  { e with iov := adv.1, iovIndex := adv.2, filesSent := e.filesSent + e.lot.length }

/-- The entry after a lot of descriptors has been sent behind the data. -/
def sentFiles (e : SendQueueEntry F) : SendQueueEntry F :=
  { e with filesSent := e.filesSent + (controlFiles e e.filesSent).length }

variable {e : SendQueueEntry F}

theorem lot_sentData (hiov : e.iov ≠ []) {n : ℕ} (hn : 0 < n) : (e.sentData n).lot = [] := by
  have hmoved := advanceIov_moved e.iov e.iovIndex n hn hiov
  apply lot_of_not_first
  simp only [isFirstSend, sentData, Bool.and_eq_false_iff, beq_eq_false_iff_ne]
  exact hmoved

/-- A data call sends the front of what remains. -/
theorem Ok.sentData (he : e.Ok) (hiov : e.iov ≠ []) {n : ℕ} (hn : 0 < n) (hle : n ≤ (iovBytes e.iov).length) :
    (e.sentData n).Ok ∧ (e.sentData n).remaining = e.remaining.drop n ∧
      attach e.lot ((iovBytes e.iov).take n) = e.remaining.take n := by
  obtain ⟨hbytes, hne, hindex⟩ := advanceIov_spec e.iov e.iovIndex n hle he.bytes_ne
  have hlot := lot_sentData hiov hn
  have hlen : n ≤ (attach e.lot (iovBytes e.iov)).length := by rwa [length_attach]
  have hok : (e.sentData n).Ok :=
    { bytes_ne := hne
      index_add := hindex.trans he.index_add
      filesSent_add_le := by rw [hlot]; exact he.filesSent_add_le }
  have hdrop : (e.sentData n).remaining = e.remaining.drop n := by
    rw [remaining, hlot, remaining, List.drop_append_of_le_length hlen, attach_drop _ _ hn]
    exact congrArg (attach [] · ++ _) hbytes
  have htake : attach e.lot ((iovBytes e.iov).take n) = e.remaining.take n := by
    rw [remaining, List.take_append_of_le_length hlen, attach_take]
  exact ⟨hok, hdrop, htake⟩

/-- A call behind the data sends the next cell of what remains. -/
theorem Ok.sentFiles (he : e.Ok) (hiov : e.iov = []) (hfiles : e.message.files.drop e.filesSent ≠ []) :
    e.sentFiles.Ok ∧ e.sentFiles.remaining = e.remaining.drop 1 ∧
      [(0, controlFiles e e.filesSent)] = e.remaining.take 1 := by
  have hctl := length_controlFiles e e.filesSent
  have hle := he.filesSent_add_le
  have hlot : e.sentFiles.lot = [] := lot_of_iov_nil hiov
  have hok : e.sentFiles.Ok :=
    { bytes_ne := he.bytes_ne
      index_add := he.index_add
      filesSent_add_le := by
        rw [hlot]
        show e.filesSent + (controlFiles e e.filesSent).length + 0 ≤ e.message.files.length
        omega }
  have hrest : e.message.files.drop (e.filesSent + (controlFiles e e.filesSent).length) =
      (e.message.files.drop e.filesSent).drop kMaxFDs := by
    rw [hctl, ← List.length_drop, ← List.drop_drop, drop_min_length]
  have hrem : e.remaining = (0, controlFiles e e.filesSent) :: extraCells ((e.message.files.drop e.filesSent).drop kMaxFDs) := by
    rw [remaining_of_iov_nil hiov, extraCells_of_ne_nil hfiles]
    rfl
  have hrem' : e.sentFiles.remaining = extraCells ((e.message.files.drop e.filesSent).drop kMaxFDs) := by
    rw [← hrest]
    exact remaining_of_iov_nil hiov
  exact ⟨hok, by rw [hrem', hrem]; rfl, by rw [hrem]; rfl⟩

end SendQueueEntry

theorem iovBytes_take_prefix (iov : List Iovec) (k : ℕ) : iovBytes (iov.take k) <+: iovBytes iov := by
  refine ⟨iovBytes (iov.drop k), ?_⟩
  rw [iovBytes, iovBytes, iovBytes, ← List.flatten_append, ← List.map_append, List.take_append_drop]

/-- **A call moves a part of the entry to the stream.** It does not throw, and answers
whether anything is left. -/
theorem trySendMessage_stream {e : SendQueueEntry F} (he : e.Ok) (hne : e.remaining ≠ []) (s : Stream F) :
    ∃ sent e' s' n, trySendMessage cfg streamSendmsg s e = .ok (sent, e', s') ∧ e'.Ok ∧
      (sent = true ↔ e'.remaining = []) ∧ s'.cells = s.cells ++ e.remaining.take n ∧
      e'.remaining = e.remaining.drop n ∧ (Ready s.choices → 0 < n) := by
  unfold trySendMessage
  by_cases hiov : e.iov = []
  · -- the data has been sent: a lot of descriptors with a zero byte
    have hfiles : e.message.files.drop e.filesSent ≠ [] := by
      rwa [SendQueueEntry.remaining_of_iov_nil hiov, Ne, extraCells_eq_nil] at hne
    have hlt : e.filesSent < e.message.files.length := by simpa using hfiles
    have hctl := length_controlFiles_le e e.filesSent
    rw [if_neg (by rw [he.iovIndex_lt_iff]; exact not_not.2 hiov), if_pos hlt]
    obtain ⟨hr, s', hs, hc⟩ | ⟨n, s', hs, hn, hle, hc⟩ :=
      streamSendmsg_spec s (List.cons_ne_nil (0 : UInt8) []) hctl
    · simp only [hs]
      exact ⟨false, e, s', 0, rfl, he, by simp [hne], by simp [hc], rfl, fun h => absurd h hr⟩
    · obtain ⟨hok, hdrop, htake⟩ := he.sentFiles hiov hfiles
      obtain rfl : n = 1 := by simp at hle; omega
      simp only [hs]
      exact ⟨_, e.sentFiles, s', 1, rfl, hok, hok.isSent_iff, by rw [hc, ← htake]; rfl, hdrop, fun _ => hn⟩
  · -- header and data, with the first lot if nothing has been sent yet
    have hpre := iovBytes_take_prefix e.iov cfg.kIovMax
    have hchunk : iovBytes (e.iov.take cfg.kIovMax) ≠ [] := by
      rw [Ne, iovBytes_eq_nil fun v hv => he.bytes_ne v (List.mem_of_mem_take hv)]
      have := cfg.kIovMax_pos
      simp [hiov]
      omega
    have hlot : e.lot.length ≤ kMaxFDs := by
      unfold SendQueueEntry.lot
      split_ifs
      · exact length_controlFiles_le e 0
      · exact Nat.zero_le _
    rw [if_pos (he.iovIndex_lt_iff.2 hiov)]
    obtain ⟨hr, s', hs, hc⟩ | ⟨n, s', hs, hn, hle, hc⟩ := streamSendmsg_spec s hchunk hlot
    · change streamSendmsg s ((e.iov.take cfg.kIovMax).map Iovec.bytes).flatten
        (if e.isFirstSend then controlFiles e 0 else []) = _ at hs
      simp only [hs]
      exact ⟨false, e, s', 0, rfl, he, by simp [hne], by simp [hc], rfl, fun h => absurd h hr⟩
    · obtain ⟨hok, hdrop, htake⟩ := he.sentData hiov hn (hle.trans hpre.length_le)
      have hsent : (iovBytes (e.iov.take cfg.kIovMax)).take n = (iovBytes e.iov).take n := by
        obtain ⟨t, ht⟩ := hpre
        rw [← ht, List.take_append_of_le_length hle]
      change streamSendmsg s ((e.iov.take cfg.kIovMax).map Iovec.bytes).flatten
        (if e.isFirstSend then controlFiles e 0 else []) = _ at hs
      simp only [hs]
      exact ⟨_, e.sentData n, s', n, rfl, hok, hok.isSent_iff, by rw [hc, hsent, htake], hdrop, fun _ => hn⟩

/-! ### The queue -/

/-- Every entry is in order and has something left to send. -/
def QueueOk (sendQueue : List (SendQueueEntry F)) : Prop := ∀ e ∈ sendQueue, e.Ok ∧ e.remaining ≠ []

/-- What the queue has still to put on the stream. -/
def pending (sendQueue : List (SendQueueEntry F)) : List (Cell F) := sendQueue.flatMap SendQueueEntry.remaining

theorem pending_cons (e : SendQueueEntry F) (q : List (SendQueueEntry F)) :
    pending (e :: q) = e.remaining ++ pending q := by simp [pending]

theorem pending_eq_nil {q : List (SendQueueEntry F)} (hq : QueueOk q) : pending q = [] ↔ q = [] := by
  cases q with
  | nil => simp [pending]
  | cons e q => simp [pending_cons, (hq e (by simp)).2]

/-- A queue and a stream after some calls of `sendmsg`: the cells are where they were or
have moved from the queue to the stream, at least one of them if `busy`. -/
structure Moved (busy : Prop) (s s' : Stream F) (q q' : List (SendQueueEntry F)) : Prop where
  queue_ok : QueueOk q'
  cells_eq : s'.cells ++ pending q' = s.cells ++ pending q
  length_le : (pending q').length ≤ (pending q).length
  length_lt : busy → (pending q').length < (pending q).length

/-- **The loop moves cells from the queue to the stream**, in order. -/
theorem trySendLoop_stream (n : ℕ) (s : Stream F) (q : List (SendQueueEntry F)) (hq : QueueOk q) :
    ∃ q' s', trySendLoop cfg streamSendmsg n s q = .ok (q', s') ∧
      Moved (0 < n ∧ q ≠ [] ∧ Ready s.choices) s s' q q' := by
  induction n generalizing s q with
  | zero => exact ⟨q, s, rfl, hq, rfl, le_refl _, fun h => absurd h.1 (lt_irrefl 0)⟩
  | succ n ih =>
    match q with
    | [] => exact ⟨[], s, rfl, hq, rfl, le_refl _, fun h => absurd rfl h.2.1⟩
    | e :: rest =>
      obtain ⟨he, hne⟩ := hq e (by simp)
      have hrest : QueueOk rest := fun e' h => hq e' (List.mem_cons_of_mem _ h)
      obtain ⟨sent, e', s₁, m, hrun, hok, hsent, hcells, hdrop, hready⟩ :=
        trySendMessage_stream cfg he hne s
      have hlen : 0 < e.remaining.length := List.length_pos_iff.2 hne
      rw [trySendLoop, hrun]
      cases sent with
      | true =>
        -- the whole message is out, and the loop goes on behind it
        have hall : e.remaining.length ≤ m := by
          rw [hsent.1 rfl] at hdrop
          exact List.drop_eq_nil_iff.1 hdrop.symm
        obtain ⟨q', s', hrun', hm⟩ := ih s₁ rest hrest
        rw [List.take_of_length_le hall] at hcells
        have hle := hm.length_le
        refine ⟨q', s', hrun', hm.queue_ok, ?_, ?_, ?_⟩
        · rw [hm.cells_eq, hcells, pending_cons, List.append_assoc]
        · rw [pending_cons, List.length_append]; omega
        · intro _; rw [pending_cons, List.length_append]; omega
      | false =>
        have hne' : e'.remaining ≠ [] := fun h => Bool.false_ne_true (hsent.2 h)
        have hok' : QueueOk (e' :: rest) := by
          intro x hx
          rcases List.mem_cons.1 hx with rfl | hx
          · exact ⟨hok, hne'⟩
          · exact hrest x hx
        have hlen' : e'.remaining.length = e.remaining.length - m := by rw [hdrop, List.length_drop]
        refine ⟨e' :: rest, s₁, rfl, hok', ?_, ?_, ?_⟩
        · rw [pending_cons, pending_cons, hcells, hdrop, List.append_assoc, ← List.append_assoc (e.remaining.take m),
            List.take_append_drop]
        · simp only [pending_cons, List.length_append]; omega
        · intro h
          have := hready h.2.2
          simp only [pending_cons, List.length_append]; omega

theorem trySend_stream (s : Stream F) (q : List (SendQueueEntry F)) (hq : QueueOk q) :
    ∃ q' s', trySend cfg streamSendmsg s q = .ok (q', s') ∧ Moved (q ≠ [] ∧ Ready s.choices) s s' q q' := by
  obtain ⟨q', s', hrun, hm⟩ := trySendLoop_stream cfg MAX_MSGS_AT_ONCE s q hq
  exact ⟨q', s', hrun, hm.queue_ok, hm.cells_eq, hm.length_le, fun h => hm.length_lt ⟨by decide, h⟩⟩

/-! ### New messages -/

theorem flatten_filter_ne_nil (data : List Bytes) : (data.filter (· ≠ [])).flatten = data.flatten := by
  induction data with
  | nil => rfl
  | cons b data ih => by_cases hb : b = [] <;> simp_all

/-- `bodySize` is the length of the data. -/
theorem sum_filter_ne_nil (m : Message F) : ((m.data.filter (· ≠ [])).map List.length).sum = m.bytes.length := by
  rw [← List.length_flatten, flatten_filter_ne_nil, Message.bytes]

theorem createSendQueueEntry_iovBytes (m : Message F) :
    iovBytes (createSendQueueEntry m).iov = m.headerBytes ++ m.bytes := by
  have hflat := flatten_filter_ne_nil m.data
  unfold createSendQueueEntry
  simp only [iovBytes_cons]
  rw [sum_filter_ne_nil, Message.headerBytes]
  congr 1
  rw [iovBytes, List.map_map, Message.bytes, ← hflat]
  exact congrArg List.flatten (List.map_id _)

theorem createSendQueueEntry_lot (m : Message F) : (createSendQueueEntry m).lot = m.files.take kMaxFDs := rfl

theorem createSendQueueEntry_ok (m : Message F) : (createSendQueueEntry m).Ok where
  bytes_ne := by
    intro v hv
    rcases List.mem_cons.1 hv with rfl | hv
    · -- the header is never empty
      apply List.ne_nil_of_length_pos
      simp [serializeHeader]
    · obtain ⟨b, hb, rfl⟩ := List.mem_map.1 hv
      simpa using (List.mem_filter.1 hb).2
  index_add := by simp [createSendQueueEntry]; omega
  filesSent_add_le := by
    rw [createSendQueueEntry_lot, List.length_take]
    show 0 + min kMaxFDs m.files.length ≤ m.files.length
    omega

/-- **A new entry has the wire form of its message to send.** -/
theorem createSendQueueEntry_remaining (m : Message F) : (createSendQueueEntry m).remaining = m.wireOf := by
  unfold SendQueueEntry.remaining Message.wireOf
  rw [createSendQueueEntry_lot, createSendQueueEntry_iovBytes, List.length_take]
  congr 2
  show m.files.drop (0 + min kMaxFDs m.files.length) = _
  rw [Nat.zero_add, drop_min_length]

theorem wireOf_ne_nil (m : Message F) : m.wireOf ≠ [] := by
  apply List.ne_nil_of_length_pos
  rw [length_wireOf, kHeaderLength]
  omega

/-- **`send` appends the wire form of its message** to what is on its way. -/
theorem send_stream (s : Stream F) (q : List (SendQueueEntry F)) (hq : QueueOk q) (m : Message F) :
    ∃ q' s', send cfg streamSendmsg s q m = .ok (q', s') ∧ QueueOk q' ∧
      s'.cells ++ pending q' = s.cells ++ pending q ++ m.wireOf := by
  have hnew : (createSendQueueEntry m).Ok ∧ (createSendQueueEntry m).remaining ≠ [] :=
    ⟨createSendQueueEntry_ok m, by rw [createSendQueueEntry_remaining]; exact wireOf_ne_nil m⟩
  unfold send
  by_cases h : q = []
  · subst h
    have hone : QueueOk [createSendQueueEntry m] := fun e he => by rwa [List.mem_singleton.1 he]
    obtain ⟨q', s', hrun, hm⟩ := trySend_stream cfg s _ hone
    refine ⟨q', s', hrun, hm.queue_ok, ?_⟩
    rw [hm.cells_eq, pending_cons, createSendQueueEntry_remaining]
    simp [pending]
  · rw [if_neg (by simpa using h)]
    refine ⟨_, s, rfl, ?_, ?_⟩
    · intro e he
      rcases List.mem_append.1 he with he | he
      · exact hq e he
      · rwa [List.mem_singleton.1 he]
    · rw [pending, List.flatMap_append, List.flatMap_singleton, createSendQueueEntry_remaining, ← List.append_assoc]
      rfl

/-! ### The sizes that the header announces -/

/-- The header of a queued message announces the length of the body and the number of
files that the entry then sends. -/
def Message.Announced (m : Message F) : Prop :=
  ∃ header body, (createSendQueueEntry m).iov = header :: body ∧
    (deserializeHeader header.bytes).dataSize = (body.map fun v => v.bytes.length).sum ∧
    (deserializeHeader header.bytes).numFiles = m.files.length

/-- The two sizes are narrowed to 32 bits. -/
theorem announced_iff (m : Message F) :
    m.Announced ↔ (m.data.map List.length).sum < 2 ^ 32 ∧ m.files.length < 2 ^ 32 := by
  have hsum : (m.data.map List.length).sum = m.bytes.length := by
    rw [← List.length_flatten, Message.bytes]
  have hbody : ((m.data.filter (· ≠ [])).map fun b => (⟨0, b⟩ : Iovec)).map (fun v => v.bytes.length) =
      (m.data.filter (· ≠ [])).map List.length := by
    rw [List.map_map]; rfl
  have hmod : ∀ n : ℕ, n % 2 ^ 32 = n ↔ n < 2 ^ 32 :=
    fun n => ⟨fun h => h ▸ Nat.mod_lt n (by decide), Nat.mod_eq_of_lt⟩
  rw [hsum, ← hmod, ← hmod]
  unfold Message.Announced createSendQueueEntry
  constructor
  · intro h
    obtain ⟨header, body, hiov, hd, hf⟩ := h
    obtain ⟨rfl, rfl⟩ := List.cons.inj hiov
    rw [deserializeHeader_serializeHeader, sum_filter_ne_nil] at hd hf
    rw [hbody, sum_filter_ne_nil] at hd
    exact ⟨hd, hf⟩
  · intro h
    refine ⟨_, _, rfl, ?_, ?_⟩
    · rw [deserializeHeader_serializeHeader, hbody, sum_filter_ne_nil]
      exact h.1
    · rw [deserializeHeader_serializeHeader]
      exact h.2

/-- `send` looks at no size: behind other messages every message is accepted. -/
theorem send_behind {κ : Type} (sendmsg : κ → Bytes → List F → SendOutcome × κ) (k : κ) (e : SendQueueEntry F)
    (q : List (SendQueueEntry F)) (m : Message F) :
    send cfg sendmsg k (e :: q) m = .ok (e :: q ++ [createSendQueueEntry m], k) := rfl

/-- **When `send` keeps its word.** Whatever is in the queue, a message is announced as it
is sent or refused, exactly if its data and its files are fewer than `2 ^ 32`. -/
theorem send_announces_iff {κ : Type} (sendmsg : κ → Bytes → List F → SendOutcome × κ) (k : κ) (m : Message F) :
    (∀ q, m.Announced ∨ ∃ e, send cfg sendmsg k q m = .error e) ↔
      (m.data.map List.length).sum < 2 ^ 32 ∧ m.files.length < 2 ^ 32 := by
  rw [← announced_iff]
  constructor
  · intro h
    rcases h [createSendQueueEntry m] with ha | ⟨e, he⟩
    · exact ha
    · rw [send_behind] at he
      exact absurd he (by simp)
  · intro h q
    exact Or.inl h

/-- A body of `2 ^ 32` bytes is announced as empty, and queued. -/
theorem send_wraps_body :
    let m : Message Unit := ⟨[List.replicate (2 ^ 32) 0], []⟩
    let cfg : SocketConfig := ⟨0, 0, 1, by decide, by decide, by decide⟩
    let sendmsg : Unit → Bytes → List Unit → SendOutcome × Unit := fun _ _ _ => (.wouldBlock, ())
    let first := createSendQueueEntry (⟨[], []⟩ : Message Unit)
    ¬ m.Announced ∧ deserializeHeader m.headerBytes = ⟨kProtocolID, 0, 0⟩ ∧ m.bytes.length = 2 ^ 32 ∧
      send cfg sendmsg () [first] m = .ok ([first, createSendQueueEntry m], ()) := by
  intro m cfg sendmsg first
  have hlen : m.bytes.length = 2 ^ 32 := by
    have hflat : m.bytes = List.replicate (2 ^ 32) 0 := List.append_nil _
    rw [hflat, List.length_replicate]
  have hsum : (m.data.map List.length).sum = 2 ^ 32 := by
    rw [← List.length_flatten]
    exact hlen
  refine ⟨fun h => ?_, ?_, hlen, send_behind cfg sendmsg () first [] m⟩
  · have := ((announced_iff m).1 h).1
    rw [hsum] at this
    exact absurd this (lt_irrefl _)
  · unfold Message.headerBytes
    rw [hlen, deserializeHeader_serializeHeader]
    rfl

end EdenCommon
