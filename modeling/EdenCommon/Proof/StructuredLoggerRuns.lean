import EdenCommon.Lib.Decimal
import EdenCommon.Proof.EnsureValidUtf8
import EdenCommon.Proof.StructuredLogger
import EdenCommon.Proof.SubprocessScribeLogger

/-!
# What reaches the logger's child

The queue is handed texts of documents and nothing else, and these are lines (`not_mem_texts`).
While it works the child reads them whole and in order, and behind a failed write it has still read
a first part of those accepted (`Fed`, `child_reads_documents`).

* `finite_document`: the check in `addDouble` is what `folly::toJson` relies on, which
  throws for a number that is not finite.
* `Fed.step`, `Fed.sys_step`: the steps of the writer and of the callers keep what the child
  has read. A call of `logEvent` is a call of `log`, or changes nothing of the queue.
* `child_reads_documents`: what the child has been sent are the texts of documents of the
  calls, in the order of the calls and none twice.
-/

namespace EdenCommon

namespace StructuredLogger

open Lib

/-! ### The queue -/

open SubprocessScribeLogger (Logger newline frame start kQueueLimitBytes Inv)

variable {folly : Unicode} {json : Json} {logger : StructuredLogger} {c : Call} {calls : List Call} {α : Type}
variable {l l' : Logger} {texts : List Bytes}

/-- What has been written to the child, the first of the messages that were accepted, and a piece of
the next one if the write of it failed. -/
def Partly (l : Logger) : Prop :=
  ∃ done torn, l.written = terminate newline done ++ torn ∧ newline ∉ torn ∧ done <+: l.accepted

/-- The state of the queue behind calls that handed it `texts`. -/
structure Fed (texts : List Bytes) (l : Logger) : Prop where
  inv : Inv l
  accepted : l.accepted.Sublist texts
  partly : l.failed = true → Partly l
  writer : l.failed = true → l.writer = .giveUp ∨ l.writer = .returned
  stopping : l.failed = false → l.state.didStop = true → l.state.shouldStop = true
  all : l.failed = false → (texts.map List.length).sum ≤ kQueueLimitBytes → l.accepted = texts

theorem fed_start : Fed [] start where
  inv := SubprocessScribeLogger.inv_start
  accepted := List.Sublist.refl []
  partly := nofun
  writer := nofun
  stopping := nofun
  all _ _ := rfl

/-- While no write has failed, `partly` and `writer` say nothing. -/
theorem fed_of_works (hinv : Inv l) (haccepted : l.accepted.Sublist texts) (hworks : l.failed = false)
    (hstopping : l.state.didStop = true → l.state.shouldStop = true)
    (hall : (texts.map List.length).sum ≤ kQueueLimitBytes → l.accepted = texts) : Fed texts l where
  inv := hinv
  accepted := haccepted
  partly hf := by
    rw [hworks] at hf
    cases hf
  writer hf := by
    rw [hworks] at hf
    cases hf
  stopping _ := hstopping
  all _ := hall

/-- Behind a failed write `stopping` and `all` say nothing. -/
theorem fed_of_failed (hinv : Inv l) (haccepted : l.accepted.Sublist texts) (hfailed : l.failed = true)
    (hpartly : Partly l) (hwriter : l.writer = .giveUp ∨ l.writer = .returned) : Fed texts l where
  inv := hinv
  accepted := haccepted
  partly _ := hpartly
  writer _ := hwriter
  stopping hworks := by
    rw [hfailed] at hworks
    cases hworks
  all hworks := by
    rw [hfailed] at hworks
    cases hworks

theorem Fed.order (hfed : Fed texts l) (hf : l.failed = false) :
    ∃ done, done ++ l.writer.current ++ l.state.messages = l.accepted ∧ l.written = terminate newline done :=
  hfed.inv.order hf

/-- What is queued has been accepted. -/
theorem Fed.queuedBytes_le (hfed : Fed texts l) (hf : l.failed = false) :
    l.state.totalBytes ≤ (l.accepted.map List.length).sum := by
  obtain ⟨done, hdone, -⟩ := hfed.order hf
  rw [hfed.inv.total, ← hdone, SubprocessScribeLogger.State.queuedBytes, List.map_append, List.sum_append]
  exact Nat.le_add_left _ _

/-- A text is accepted, or it is dropped because the writer is gone or the queue is full. -/
theorem Fed.log (hfed : Fed texts l) (message : Bytes) (h : SubprocessScribeLogger.step l (.log message) = some l') :
    Fed (texts ++ [message]) l' := by
  have hinv := hfed.inv.step h
  have hmore : texts.Sublist (texts ++ [message]) := List.sublist_append_left texts [message]
  simp only [SubprocessScribeLogger.step] at h
  split at h
  · cases h
  rename_i hstop
  obtain rfl := Option.some.inj h
  rw [Logger.log] at hinv ⊢
  split
  · rename_i hdid
    exact { hfed with
      accepted := hfed.accepted.trans hmore
      -- a clean stop comes behind `shouldStop`, and a failed write is excluded
      all := fun hf => absurd (hfed.stopping hf hdid) hstop }
  · rename_i hdid
    rw [if_neg hdid] at hinv
    split
    · rename_i hfull
      refine { hfed with accepted := hfed.accepted.trans hmore, all := fun hf hfits => ?_ }
      simp only [List.map_append, List.map_cons, List.map_nil, List.sum_append, List.sum_cons, List.sum_nil] at hfits
      have hall := hfed.all hf (by omega)
      have hle := hfed.queuedBytes_le hf
      rw [hall] at hle
      omega
    · rename_i hfull
      rw [if_neg hfull] at hinv
      exact {
        inv := hinv
        accepted := hfed.accepted.append_right [message]
        partly := by
          intro hf
          obtain ⟨done, torn, hwritten, htorn, hpre⟩ := hfed.partly hf
          exact ⟨done, torn, hwritten, htorn, hpre.trans (List.prefix_append _ _)⟩
        writer := hfed.writer
        stopping := hfed.stopping
        all := by
          intro hf hfits
          simp only [List.map_append, List.sum_append] at hfits
          exact congrArg (· ++ [message]) (hfed.all hf (by omega)) }

/-- What a failed write leaves: all of the message, or a first part of it. -/
theorem partly_of_failed {done : List Bytes} {message : Bytes} (hwritten : l.written = terminate newline done)
    (hclean : newline ∉ message) (hpre : done ++ [message] <+: l.accepted) (count : ℕ) :
    Partly { l with writer := .giveUp, written := l.written ++ (frame message).take count, failed := true } := by
  rcases Nat.lt_or_ge message.length count with hlt | hle
  · refine ⟨done ++ [message], [], ?_, List.not_mem_nil, hpre⟩
    rw [List.take_of_length_le (by rw [frame, List.length_append, List.length_singleton]; exact hlt), hwritten,
      terminate_append, List.append_nil]
    simp [frame]
  · refine ⟨done, message.take count, ?_, fun h => hclean (List.mem_of_mem_take h), ?_⟩
    · rw [hwritten, frame, List.take_append_of_le_length hle]
    · exact (List.prefix_append _ _).trans hpre

/-- The writer's section under the lock leaves the records alone, and stops only if it is told to. -/
theorem dequeue_frame (l : Logger) :
    l.dequeue.accepted = l.accepted ∧ l.dequeue.failed = l.failed ∧ l.dequeue.state.shouldStop = l.state.shouldStop ∧
      (l.dequeue.state.didStop = true → l.state.didStop = true ∨ l.state.messages = []) := by
  unfold Logger.dequeue
  split
  · split
    · exact ⟨rfl, rfl, rfl, .inl⟩
    · exact ⟨rfl, rfl, rfl, .inl⟩
  · rename_i hm
    split
    · exact ⟨rfl, rfl, rfl, fun _ => .inr hm⟩
    · exact ⟨rfl, rfl, rfl, .inl⟩

/-- A write is under way only while none has failed. -/
theorem Fed.works (hfed : Fed texts l) (hg : l.writer ≠ .giveUp) (hr : l.writer ≠ .returned) : l.failed = false := by
  by_contra hf
  rcases hfed.writer (by simpa using hf) with h | h
  · exact hg h
  · exact hr h

/-- The writer and the destructor accept nothing. -/
theorem Fed.step (hfed : Fed texts l) (hclean : ∀ message ∈ texts, newline ∉ message) {op : SubprocessScribeLogger.Op}
    (hop : ∀ message, op ≠ .log message) (h : SubprocessScribeLogger.step l op = some l') : Fed texts l' := by
  have hinv := hfed.inv.step h
  cases op with
  | log message => exact absurd rfl (hop message)
  | dequeue =>
    simp only [SubprocessScribeLogger.step] at h
    split at h
    · rename_i hw
      obtain rfl := Option.some.inj h
      have hworks := hfed.works (by simp [hw.1]) (by simp [hw.1])
      obtain ⟨haccepted, hfailed, hstop, hdid⟩ := dequeue_frame l
      refine fed_of_works hinv ?_ (hfailed.trans hworks) (fun hdidStop => ?_) ?_
      · rw [haccepted]
        exact hfed.accepted
      · rw [hstop]
        rcases hdid hdidStop with hold | hempty
        · exact hfed.stopping hworks hold
        · exact hw.2.resolve_right fun hne => hne hempty
      · rw [haccepted]
        exact hfed.all hworks
    · cases h
  | writeSucceeds =>
    simp only [SubprocessScribeLogger.step] at h
    split at h
    · rename_i message hw
      obtain rfl := Option.some.inj h
      have hworks := hfed.works (by simp [hw]) (by simp [hw])
      exact fed_of_works hinv hfed.accepted hworks (hfed.stopping hworks) (hfed.all hworks)
    · cases h
  | writeFails count =>
    simp only [SubprocessScribeLogger.step] at h
    split at h
    · rename_i message hw
      obtain rfl := Option.some.inj h
      have hworks := hfed.works (by simp [hw]) (by simp [hw])
      obtain ⟨done, hdone, hwritten⟩ := hfed.order hworks
      have hpre : done ++ [message] <+: l.accepted := by
        rw [← hdone, hw]
        exact List.prefix_append _ _
      have hmem : message ∈ texts := hfed.accepted.subset (hpre.subset (by simp))
      have hpartly := partly_of_failed hwritten (hclean message hmem) hpre count
      exact fed_of_failed hinv hfed.accepted rfl hpartly (.inl rfl)
    · cases h
  | giveUp =>
    simp only [SubprocessScribeLogger.step] at h
    split at h
    · rename_i hw
      obtain rfl := Option.some.inj h
      have hf := hfed.inv.giveUp hw
      exact fed_of_failed hinv hfed.accepted hf (hfed.partly hf) (.inr rfl)
    · cases h
  | stop =>
    simp only [SubprocessScribeLogger.step] at h
    split at h
    · obtain rfl := Option.some.inj h
      exact { hfed with inv := hinv, stopping := fun _ _ => rfl }
    · cases h
  | waited timeout =>
    simp only [SubprocessScribeLogger.step] at h
    split at h
    · obtain rfl := Option.some.inj h
      exact { hfed with inv := hinv }
    · cases h
  | join =>
    simp only [SubprocessScribeLogger.step] at h
    split at h
    · obtain rfl := Option.some.inj h
      exact { hfed with inv := hinv }
    · cases h

/-- The child's lines are whole messages, and a first part of those accepted. -/
theorem Fed.completeLines (hfed : Fed texts l) (hclean : ∀ message ∈ texts, newline ∉ message) :
    (completeLines l.written).Sublist texts ∧
      (l.failed = false → l.written = terminate newline (completeLines l.written)) ∧
      (l.failed = false → l.state.didStop = true → completeLines l.written = l.accepted) := by
  have hcut : ∀ {done : List Bytes} {torn : List UInt8}, done <+: l.accepted → newline ∉ torn →
      l.written = terminate newline done ++ torn → StructuredLogger.completeLines l.written = done := by
    intro done torn hpre htorn hwritten
    have htail : torn.splitOnP (fun b => b == newline) = [torn] :=
      List.splitOnP_eq_singleton fun x hx => beq_eq_false_iff_ne.2 fun heq => htorn (heq ▸ hx)
    rw [StructuredLogger.completeLines, hwritten,
      splitOnP_terminate_append (p := fun b => b == newline) (beq_self_eq_true newline), htail, List.dropLast_concat]
    intro message hmessage x hx
    have hmem := hclean message (hfed.accepted.subset (hpre.subset hmessage))
    exact beq_eq_false_iff_ne.2 fun heq => hmem (heq ▸ hx)
  cases hf : l.failed with
  | true =>
    obtain ⟨done, torn, hwritten, htorn, hpre⟩ := hfed.partly hf
    rw [hcut hpre htorn hwritten]
    exact ⟨hpre.sublist.trans hfed.accepted, nofun, nofun⟩
  | false =>
    obtain ⟨done, hdone, hwritten⟩ := hfed.order hf
    have hpre : done <+: l.accepted := by
      rw [← hdone, List.append_assoc]
      exact List.prefix_append _ _
    rw [hcut hpre List.not_mem_nil (by rw [List.append_nil, hwritten])]
    refine ⟨hpre.sublist.trans hfed.accepted, fun _ => hwritten, fun _ hdid => ?_⟩
    obtain ⟨hempty, hreturned⟩ := hfed.inv.stopped hdid
    rw [hempty, hreturned] at hdone
    simpa [SubprocessScribeLogger.Writer.current] using hdone

/-! ### Runs -/

/-- A number that is stored is finite. -/
theorem isfinite_of_value {v : BitVec 64} (h : c.value folly = some (.ok (.double v))) : isfinite v = true := by
  have hgroup := Call.group_value h
  cases c with
  | double name value =>
    simp only [Call.value] at h
    split at h
    · rename_i hfinite
      cases h
      exact hfinite
    · cases h
  | _ => cases hgroup

/-- **The check in `addDouble`** is what `folly::toJson` relies on. -/
theorem finite_document {time : BitVec 64} {type : Option Bytes} {event : Event} (henabled : logger.enabled_ = true)
    (h : logger.logEvent folly time type calls = some (.ok (some event))) : (document event).Finite := by
  rw [logEvent_eq folly henabled] at h
  obtain ⟨r, hr, hevent⟩ := Option.map_eq_some_iff.1 h
  cases r with
  | error e => cases hevent
  | ok event' =>
    cases hevent
    rintro m hm ⟨name, v⟩ hv
    have hmap : m = event.doubles_ := by
      simp only [document, ifAny] at hm
      split at hm
      · cases hm
      · exact (Option.some.inj hm).symm
    subst hmap
    have hlookup : event.doubles_.lookup name = some v := AList.mem_lookup_iff.2 hv
    have hfind : event.find (.double, name) = some (.double v) := by rw [Event.find, hlookup, Option.map_some]
    rcases (Event.find_populate hr _ _).1 hfind with hempty | ⟨c, -, -, hc⟩
    · rw [Event.find_empty] at hempty
      cases hempty
    · exact isfinite_of_value hc

/-- The documents of a run have texts, and these are lines. -/
theorem toJson_document (hjson : json.Lawful) (henabled : logger.enabled_ = true) {op : Op} {d : Document}
    (h : op.document folly logger = some d) : ∃ text, json.toJson d = some text ∧ newline ∉ text := by
  cases op with
  | scribe op => cases h
  | logEvent time type calls =>
    simp only [Op.document] at h
    split at h
    · rename_i event hevent
      cases h
      exact hjson _ (finite_document henabled hevent)
    · cases h

theorem not_mem_texts (hjson : json.Lawful) (henabled : logger.enabled_ = true) (ops : List Op) :
    ∀ message ∈ StructuredLogger.texts folly json logger ops, newline ∉ message := by
  intro message hmessage
  obtain ⟨d, hd, htext⟩ := List.mem_filterMap.1 hmessage
  obtain ⟨op, -, hop⟩ := List.mem_filterMap.1 hd
  obtain ⟨text, hjsontext, hclean⟩ := toJson_document hjson henabled hop
  rw [htext] at hjsontext
  cases hjsontext
  exact hclean

theorem texts_concat (folly : Unicode) (json : Json) (logger : StructuredLogger) (ops : List Op) (op : Op) :
    StructuredLogger.texts folly json logger (ops ++ [op]) =
      StructuredLogger.texts folly json logger ops ++ ((op.document folly logger).bind json.toJson).toList := by
  rw [StructuredLogger.texts, List.filterMap_append, List.filterMap_append, StructuredLogger.texts]
  cases hd : op.document folly logger with
  | none => simp [hd]
  | some d => cases ht : json.toJson d <;> simp [hd, ht]

theorem step_scribe {op : SubprocessScribeLogger.Op}
    (h : StructuredLogger.step folly json logger l (.scribe op) = some l') :
    (∀ message, op ≠ .log message) ∧ SubprocessScribeLogger.step l op = some l' := by
  cases op with
  | log message => cases h
  | _ =>
    refine ⟨?_, h⟩
    rintro message ⟨⟩

/-- **Steps.** A call of `logEvent` is a call of `log`, or changes nothing of the queue. -/
theorem Fed.sys_step (hjson : json.Lawful) (henabled : logger.enabled_ = true) {ops : List Op}
    (hfed : Fed (StructuredLogger.texts folly json logger ops) l) {op : Op}
    (h : StructuredLogger.step folly json logger l op = some l') :
    Fed (StructuredLogger.texts folly json logger (ops ++ [op])) l' := by
  rw [texts_concat]
  cases op with
  | scribe op =>
    rw [Op.document, Option.bind_none, Option.toList_none, List.append_nil]
    obtain ⟨hop, hscribe⟩ := step_scribe h
    exact hfed.step (not_mem_texts hjson henabled ops) hop hscribe
  | logEvent time type calls =>
    simp only [StructuredLogger.step] at h
    simp only [Op.document]
    generalize logger.logEvent folly time type calls = result at h ⊢
    -- only an event that has a text reaches the queue
    rcases result with - | ((- | - | e) | (- | event))
    · cases h
    · cases h
    · cases h
    · obtain rfl := Option.some.inj h
      simpa using hfed
    · obtain rfl := Option.some.inj h
      simpa using hfed
    · dsimp only at h ⊢
      rw [Option.bind_some]
      cases htext : json.toJson (document event) with
      | none =>
        rw [htext] at h
        obtain rfl := Option.some.inj h
        simpa using hfed
      | some message =>
        rw [htext] at h
        exact hfed.log message h

theorem fed_run (hjson : json.Lawful) (henabled : logger.enabled_ = true) (ops : List Op) :
    ∀ {l : Logger}, run (StructuredLogger.step folly json logger) start ops = some l →
      Fed (StructuredLogger.texts folly json logger ops) l := by
  induction ops using List.reverseRecOn with
  | nil =>
    intro l h
    obtain rfl := Option.some.inj h
    exact fed_start
  | append_singleton ops op ih =>
    intro l h
    rw [run_concat] at h
    obtain ⟨l₁, hrun, hstep⟩ := Option.bind_eq_some_iff.1 h
    exact (ih hrun).sys_step hjson henabled hstep

/-- Documents and their texts, where each has one. -/
theorem map_toJson_eq {documents : List Document} (h : ∀ d ∈ documents, ∃ text, json.toJson d = some text) :
    (documents.filterMap json.toJson).map some = documents.map json.toJson := by
  induction documents with
  | nil => rfl
  | cons d documents ih =>
    obtain ⟨text, htext⟩ := h d List.mem_cons_self
    rw [List.filterMap_cons_some htext, List.map_cons, List.map_cons, htext,
      ih fun d hd => h d (List.mem_cons_of_mem _ hd)]

/-- **What the child reads.** In every run the lines that the child has been sent are the texts of
documents of the calls, in the order of the calls and none twice. While no write has failed nothing
stands behind the last line, and if all the texts fit the queue then a clean stop leaves none out. -/
theorem child_reads_documents (folly : Unicode) (json : Json) (hjson : json.Lawful) (sessionId : BitVec 32)
    (sessionInfo : SessionInfo) (ops : List Op) (l : Logger)
    (hrun : run (StructuredLogger.step folly json (scuba sessionId sessionInfo)) start ops = some l) :
    let documents := ops.filterMap (Op.document folly (scuba sessionId sessionInfo))
    ∃ done, done.Sublist documents ∧ (StructuredLogger.completeLines l.written).map some = done.map json.toJson ∧
      (l.failed = false → l.written = terminate newline (StructuredLogger.completeLines l.written)) ∧
      (l.failed = false → l.state.didStop = true →
        ((documents.filterMap json.toJson).map List.length).sum ≤ kQueueLimitBytes → done = documents) := by
  intro documents
  have hfed := fed_run hjson rfl ops hrun
  have htexts : ∀ d ∈ documents, ∃ text, json.toJson d = some text := by
    intro d hd
    obtain ⟨op, -, hop⟩ := List.mem_filterMap.1 hd
    obtain ⟨text, htext, -⟩ := toJson_document hjson rfl hop
    exact ⟨text, htext⟩
  obtain ⟨hlines, hwhole, hstopped⟩ := hfed.completeLines (not_mem_texts hjson rfl ops)
  obtain ⟨done, hdone, heq⟩ := List.sublist_filterMap_iff.1 hlines
  have hdonetexts := map_toJson_eq fun d hd => htexts d (hdone.subset hd)
  refine ⟨done, hdone, by rw [heq, hdonetexts], hwhole, fun hf hdid hfits => ?_⟩
  -- every document has a text, so there are as many of those as of these
  apply hdone.eq_of_length
  have hall : done.filterMap json.toJson = documents.filterMap json.toJson := by
    rw [← heq, hstopped hf hdid]
    exact hfed.all hf hfits
  have hlength := congrArg List.length (map_toJson_eq htexts)
  rw [← hall, hdonetexts, List.length_map, List.length_map] at hlength
  exact hlength

/-! ### A serializer with these properties -/

def hexDigit (n : ℕ) : UInt8 := if n < 10 then .ofNat (0x30 + n) else .ofNat (0x57 + n)

/-- A byte of a text, control characters and what has a meaning in JSON escaped. -/
def escape (b : UInt8) : Bytes :=
  if b < 0x20 then ascii "\\u00" ++ [hexDigit (b.toNat / 16), hexDigit (b.toNat % 16)]
  else if b = 0x22 ∨ b = 0x5C then [0x5C, b]
  else [b]

def quoted (s : Bytes) : Bytes := 0x22 :: s.flatMap escape ++ [0x22]

def integer (v : BitVec 64) : Bytes := if v.msb then 0x2D :: decimal (-v).toNat else decimal v.toNat

/-- A power of 2 in front of a point is multiplied out, one behind it is one of 5 and one of 10. -/
def magnitude (significand exponent : ℕ) : Bytes :=
  if 1075 ≤ exponent then decimal (significand * 2 ^ (exponent - 1075))
  else decimal (significand * 5 ^ (1075 - exponent)) ++ ascii "e-" ++ decimal (1075 - exponent)

/-- The exact value. -/
def number (v : BitVec 64) : Bytes :=
  let exponent := (v.extractLsb' 52 11).toNat
  let fraction := (v.extractLsb' 0 52).toNat
  let text := if exponent = 0 then magnitude fraction 1 else magnitude (2 ^ 52 + fraction) exponent
  if v.msb then 0x2D :: text else text

/-- Pieces between brackets, with commas. -/
def enclosed (first last : UInt8) (pieces : List Bytes) : Bytes := first :: [0x2C].intercalate pieces ++ [last]

def object (entries : List (Bytes × Bytes)) : Bytes :=
  enclosed 0x7B 0x7D (entries.map fun e => quoted e.1 ++ 0x3A :: e.2)

def array (texts : List Bytes) : Bytes := enclosed 0x5B 0x5D (texts.map quoted)

def objectOf (text : α → Bytes) (m : UnorderedMap α) : Bytes := object (m.entries.map fun e => (e.1, text e.2))

def compactJson : Json where
  toJson d := some <| object <|
    d.int.toList.map (fun m => (ascii "int", objectOf integer m)) ++
    d.normal.toList.map (fun m => (ascii "normal", objectOf quoted m)) ++
    d.double.toList.map (fun m => (ascii "double", objectOf number m)) ++
    d.normvector.toList.map (fun m => (ascii "normvector", objectOf array m)) ++
    d.tags.toList.map (fun m => (ascii "tags", objectOf array m))

theorem newline_not_mem_escape : ∀ b : UInt8, newline ∉ escape b := forall_byte (by decide +kernel)

theorem newline_not_mem_decimal (n : ℕ) : newline ∉ decimal n :=
  fun h => absurd (isDigit_decimal h) (by decide)

theorem newline_not_mem_quoted (s : Bytes) : newline ∉ quoted s := by
  have hquote : newline ≠ 0x22 := by decide
  simp [quoted, newline_not_mem_escape, hquote]

theorem newline_not_mem_integer (v : BitVec 64) : newline ∉ integer v := by
  have hminus : newline ≠ 0x2D := by decide
  rw [integer]
  split
  · simp only [List.mem_cons, hminus, false_or]
    exact newline_not_mem_decimal _
  · exact newline_not_mem_decimal _

theorem newline_not_mem_magnitude (significand exponent : ℕ) : newline ∉ magnitude significand exponent := by
  have hpower : newline ∉ ascii "e-" := by decide
  rw [magnitude]
  split
  · exact newline_not_mem_decimal _
  · simp [hpower, newline_not_mem_decimal]

theorem newline_not_mem_number (v : BitVec 64) : newline ∉ number v := by
  have hminus : newline ≠ 0x2D := by decide
  simp only [number]
  split <;> split <;> simp [hminus, newline_not_mem_magnitude]

theorem newline_not_mem_enclosed {first last : UInt8} (hfirst : newline ≠ first) (hlast : newline ≠ last)
    {pieces : List Bytes} (h : ∀ piece ∈ pieces, newline ∉ piece) : newline ∉ enclosed first last pieces := by
  intro hmem
  simp only [enclosed, List.cons_append, List.mem_cons, List.mem_append, List.not_mem_nil, or_false] at hmem
  rcases hmem with hmem | hmem | hmem
  · exact hfirst hmem
  · rcases mem_intercalate hmem with hcomma | ⟨piece, hpiece, hnewline⟩
    · exact absurd hcomma (by decide)
    · exact h piece hpiece hnewline
  · exact hlast hmem

theorem newline_not_mem_object {entries : List (Bytes × Bytes)} (h : ∀ e ∈ entries, newline ∉ e.2) :
    newline ∉ object entries := by
  apply newline_not_mem_enclosed (by decide) (by decide)
  intro piece hpiece
  obtain ⟨e, he, rfl⟩ := List.mem_map.1 hpiece
  have hcolon : newline ≠ 0x3A := by decide
  simp [newline_not_mem_quoted, hcolon, h e he]

theorem newline_not_mem_array (texts : List Bytes) : newline ∉ array texts := by
  apply newline_not_mem_enclosed (by decide) (by decide)
  intro piece hpiece
  obtain ⟨text, -, rfl⟩ := List.mem_map.1 hpiece
  exact newline_not_mem_quoted text

theorem newline_not_mem_objectOf {text : α → Bytes} (h : ∀ v, newline ∉ text v) (m : UnorderedMap α) :
    newline ∉ objectOf text m := by
  apply newline_not_mem_object
  intro e he
  obtain ⟨entry, -, rfl⟩ := List.mem_map.1 he
  exact h entry.2

theorem compactJson_lawful : compactJson.Lawful := by
  intro d _
  refine ⟨_, rfl, newline_not_mem_object fun e he => ?_⟩
  simp only [List.mem_append, List.mem_map] at he
  rcases he with (((⟨m, -, rfl⟩ | ⟨m, -, rfl⟩) | ⟨m, -, rfl⟩) | ⟨m, -, rfl⟩) | ⟨m, -, rfl⟩
  · exact newline_not_mem_objectOf newline_not_mem_integer m
  · exact newline_not_mem_objectOf newline_not_mem_quoted m
  · exact newline_not_mem_objectOf newline_not_mem_number m
  · exact newline_not_mem_objectOf newline_not_mem_array m
  · exact newline_not_mem_objectOf newline_not_mem_array m

def exampleInfo : SessionInfo := ⟨ascii "user", ascii "host", ascii "Linux", ascii "6.1", none⟩

/-- An event is logged and written. Another one adds a default field for a second time, which reaches
its caller only. -/
theorem child_reads_documents_one :
    let ops : List Op := [
      .logEvent 1000 (some (ascii "fetch")) [.bool (ascii "ok") true, .double (ascii "ms") 0x3FF8000000000000],
      .scribe .dequeue, .logEvent 1001 none [.string (ascii "user") []], .scribe .writeSucceeds, .scribe .stop,
      .scribe .dequeue, .scribe (.waited false), .scribe .join]
    ∃ l, run (StructuredLogger.step skippingUnicode compactJson (scuba 7 exampleInfo)) start ops = some l ∧
      l.failed = false ∧ l.state.didStop = true ∧ (StructuredLogger.completeLines l.written).length = 1 ∧
      (StructuredLogger.completeLines l.written).map some =
        (ops.filterMap (Op.document skippingUnicode (scuba 7 exampleInfo))).map compactJson.toJson := by
  intro ops
  have hruns : (run (StructuredLogger.step skippingUnicode compactJson (scuba 7 exampleInfo)) start ops).isSome := by
    decide +kernel
  obtain ⟨l, hrun⟩ := Option.isSome_iff_exists.1 hruns
  have hend : ((run (StructuredLogger.step skippingUnicode compactJson (scuba 7 exampleInfo)) start ops).map fun l =>
      (l.failed, l.state.didStop, (StructuredLogger.completeLines l.written).length)) = some (false, true, 1) := by
    decide +kernel
  rw [hrun, Option.map_some, Option.some.injEq, Prod.mk.injEq, Prod.mk.injEq] at hend
  obtain ⟨done, -, hlines, -, hall⟩ :=
    child_reads_documents skippingUnicode compactJson compactJson_lawful 7 exampleInfo ops l hrun
  refine ⟨l, hrun, hend.1, hend.2.1, hend.2.2, ?_⟩
  rw [hlines, hall hend.1 hend.2.1 (by decide +kernel)]

end StructuredLogger

end EdenCommon
