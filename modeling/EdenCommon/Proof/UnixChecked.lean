import EdenCommon.Lib.Run
import EdenCommon.Proof.UnixLimits
import EdenCommon.Spec.UnixChecked

/-!
# The checks of the receiving end

While the header of a message is not complete, `tryReceiveOne` wants neither data nor files
on entry. Files come with the first byte of the header, and a `recvmsg` that returns that
byte need not return the other fifteen. The next read event then finds the files of the
message it is receiving and fails the check.

A call splits a header if it returns descriptors with less than the rest of the header
(`SplitHeader`). Behind such a call the header is not complete and there are files, and
there is no other way to get there (`Guarded`).

* `Checked.tryReceive_eq`: with the checks on entry the code is that without checks.
* `CheckedConnection.receive_checks_iff`: **no check fails exactly if no read event comes
  after a call that splits a header.**
-/

namespace EdenCommon

open Lib

variable {F κ : Type} {cfg : SocketConfig} {recvmsg : κ → ℕ → RecvOutcome F × κ} {s s' : Rx κ F}

/-- What `tryReceiveOne` checks on entry. -/
def EntryOk (r : Receiver F) : Prop :=
  r.headerBuffer.length < kHeaderLength → r.data.length = 0 ∧ r.files.length = 0

namespace Checked

/-! ### The code without checks -/

theorem processReceivedFiles_eq (files fds : List F) :
    processReceivedFiles files fds =
      if fds.isEmpty then .error (.threw .rightsTruncated) else .ok (files ++ fds) := by
  have hlen : cmsgLen fds - CMSG_LEN 0 = 4 * fds.length := by
    unfold cmsgLen CMSG_LEN
    omega
  have hempty : cmsgLen fds < CMSG_LEN 4 ↔ fds.isEmpty := by
    rw [List.isEmpty_iff_length_eq_zero]
    unfold cmsgLen CMSG_LEN
    omega
  unfold processReceivedFiles
  rw [hlen, Nat.mul_mod_right, Nat.mul_div_cancel_left _ (by omega), List.take_length]
  simp only [hempty, ne_eq, not_true_eq_false, if_false]

theorem processReceivedControlData_eq (files : List F) (control : List (ControlMsg F)) :
    processReceivedControlData files control =
      (EdenCommon.processReceivedControlData files control).mapError RecvStop.threw := by
  induction control generalizing files with
  | nil => rfl
  | cons c rest ih =>
    cases c with
    | other level type => exact ih files
    | rights fds =>
      unfold processReceivedControlData EdenCommon.processReceivedControlData
      rw [processReceivedFiles_eq]
      split_ifs
      · rfl
      · exact ih _

/-- One call of `recvmsg`, with and without checks. -/
theorem callRecvMsg_eq (len : ℕ) (s : Rx κ F) :
    callRecvMsg recvmsg len s = lift (EdenCommon.callRecvMsg recvmsg len s) := by
  unfold callRecvMsg EdenCommon.callRecvMsg
  match recvmsg s.kernel len with
  | (.wouldBlock, k) => rfl
  | (.failed errno, k) => rfl
  | (.received bytes flags control, k) =>
    dsimp only
    rw [processReceivedControlData_eq]
    split_ifs
    · rfl
    · cases EdenCommon.processReceivedControlData s.receiver.files control <;> rfl

/-- So is the header read, -/
theorem tryReceiveHeader_eq (s : Rx κ F) :
    tryReceiveHeader recvmsg s = lift (EdenCommon.tryReceiveHeader recvmsg s) := by
  unfold tryReceiveHeader EdenCommon.tryReceiveHeader
  rw [callRecvMsg_eq]
  match EdenCommon.callRecvMsg recvmsg (kHeaderLength - s.receiver.headerBuffer.length) s with
  | .error e s => rfl
  | .ok none s => rfl
  | .ok (some bytes) s =>
    dsimp only [lift]
    split_ifs <;> rfl

/-- the data, -/
theorem tryReceiveData_eq (s : Rx κ F) : tryReceiveData recvmsg s = lift (EdenCommon.tryReceiveData recvmsg s) := by
  unfold tryReceiveData EdenCommon.tryReceiveData
  dsimp only
  rw [callRecvMsg_eq]
  match EdenCommon.callRecvMsg recvmsg (s.receiver.header.dataSize - s.receiver.data.length) s with
  | .error e s => rfl
  | .ok none s => rfl
  | .ok (some bytes) s =>
    dsimp only [lift]
    split_ifs <;> rfl

/-- and the descriptors. -/
theorem tryReceiveFiles_eq (s : Rx κ F) : tryReceiveFiles recvmsg s = lift (EdenCommon.tryReceiveFiles recvmsg s) := by
  unfold tryReceiveFiles EdenCommon.tryReceiveFiles
  rw [callRecvMsg_eq]
  match EdenCommon.callRecvMsg recvmsg 1 s with
  | .error e s => rfl
  | .ok none s => rfl
  | .ok (some bytes) s =>
    dsimp only [lift]
    split_ifs <;> rfl

theorem andThen_lift (r : EStateM.Result RecvError (Rx κ F) Bool) {f : Rx κ F → EStateM.Result RecvStop (Rx κ F) Bool}
    {g : Rx κ F → EStateM.Result RecvError (Rx κ F) Bool} (h : ∀ s, f s = lift (g s)) :
    andThen (lift r) f = lift (EdenCommon.andThen r g) := by
  match r with
  | .error e s => rfl
  | .ok false s => rfl
  | .ok true s => exact h s

/-- **One message** is received as without the checks, as long as they hold at its beginning. -/
theorem tryReceiveOne_eq (h : EntryOk s.receiver) :
    tryReceiveOne cfg recvmsg s = lift (EdenCommon.tryReceiveOne cfg recvmsg s) := by
  have hheader : (if s.receiver.headerBuffer.length < kHeaderLength then receiveHeader cfg recvmsg s else .ok true s) =
      lift (if s.receiver.headerBuffer.length < kHeaderLength then
        EdenCommon.andThen (EdenCommon.tryReceiveHeader recvmsg s) (checkHeader cfg) else .ok true s) := by
    split_ifs with hlt
    · obtain ⟨hdata, hfiles⟩ := h hlt
      unfold receiveHeader
      rw [if_neg (not_not.2 hdata), if_neg (not_not.2 hfiles), tryReceiveHeader_eq]
      exact andThen_lift _ fun _ => rfl
    · rfl
  unfold tryReceiveOne EdenCommon.tryReceiveOne
  rw [hheader]
  refine andThen_lift _ fun s => ?_
  have hdata : (if s.receiver.data.length < s.receiver.header.dataSize then tryReceiveData recvmsg s else .ok true s) =
      lift (if s.receiver.data.length < s.receiver.header.dataSize then EdenCommon.tryReceiveData recvmsg s
        else .ok true s) := by
    split_ifs
    · exact tryReceiveData_eq s
    · rfl
  rw [hdata]
  refine andThen_lift _ fun s => ?_
  split_ifs
  · exact tryReceiveFiles_eq s
  · rfl

/-- The first message of a read event is the only one that a check can fail for: behind a
message that is handed over there is nothing. -/
theorem tryReceiveLoop_eq (n : ℕ) (h : EntryOk s.receiver) :
    tryReceiveLoop cfg recvmsg n s = lift (EdenCommon.tryReceiveLoop cfg recvmsg n s) := by
  induction n generalizing s with
  | zero => rfl
  | succ n ih =>
    unfold tryReceiveLoop EdenCommon.tryReceiveLoop
    rw [tryReceiveOne_eq h]
    cases EdenCommon.tryReceiveOne cfg recvmsg s with
    | error e s => rfl
    | ok done s =>
      cases done with
      | false => rfl
      | true => exact ih fun _ => ⟨rfl, rfl⟩

/-- **With the checks on entry the code is that without checks.** -/
theorem tryReceive_eq (h : EntryOk s.receiver) :
    tryReceive cfg recvmsg s = lift (EdenCommon.tryReceive cfg recvmsg s) :=
  tryReceiveLoop_eq 10 h

/-- Files in front of the header. -/
theorem tryReceive_noFiles (cfg : SocketConfig) (recvmsg : κ → ℕ → RecvOutcome F × κ)
    (hlt : s.receiver.headerBuffer.length < kHeaderLength) (hdata : s.receiver.data = [])
    (hfiles : s.receiver.files ≠ []) : tryReceive cfg recvmsg s = .error (.aborted .noFiles) s := by
  have hlen : s.receiver.files.length ≠ 0 := fun h => hfiles (List.length_eq_zero_iff.1 h)
  unfold tryReceive tryReceiveLoop tryReceiveOne receiveHeader
  rw [if_pos hlt, hdata, if_neg (by simp), if_pos hlen]
  rfl

end Checked

/-! ### Split headers -/

/-- `recvmsg` returns descriptors with less than the rest of the header. -/
def SplitHeader : Event F → Prop
  | .recvmsg before (.received bytes _ control) =>
    before.headerBuffer.length + bytes.length < kHeaderLength ∧ descriptors control ≠ []
  | _ => False

def NoSplit (trace : List (Event F)) : Prop := ∀ ev ∈ trace, ¬ SplitHeader ev

theorem noSplit_concat {trace : List (Event F)} {ev : Event F} :
    NoSplit (trace ++ [ev]) ↔ NoSplit trace ∧ ¬ SplitHeader ev := by
  unfold NoSplit
  simp only [List.mem_append, List.mem_singleton, or_imp, forall_and, forall_eq]

/-- The receive state between two calls of `tryReceiveOne`. -/
structure Guarded (r : Receiver F) (trace : List (Event F)) : Prop where
  data_nil : r.headerBuffer.length < kHeaderLength → r.data = []
  split : ¬ NoSplit trace ↔ r.headerBuffer.length < kHeaderLength ∧ r.files ≠ []

/-- Behind a header. -/
structure HeaderDone (s : Rx κ F) : Prop where
  length_le : kHeaderLength ≤ s.receiver.headerBuffer.length
  noSplit : NoSplit s.trace

theorem HeaderDone.guarded (h : HeaderDone s) : Guarded s.receiver s.trace where
  data_nil := fun hlt => absurd hlt (not_lt.2 h.length_le)
  split := iff_of_false (not_not.2 h.noSplit) fun hs => absurd hs.1 (not_lt.2 h.length_le)

/-- The checks on entry hold exactly if no call has split a header. -/
theorem Guarded.entryOk_iff {r : Receiver F} {trace : List (Event F)} (h : Guarded r trace) :
    EntryOk r ↔ NoSplit trace := by
  rw [← not_iff_not, h.split]
  unfold EntryOk
  constructor
  · intro hne
    obtain ⟨hlt, hor⟩ := Classical.not_imp.1 hne
    refine ⟨hlt, fun hfiles => hor ⟨?_, ?_⟩⟩
    · rw [h.data_nil hlt, List.length_nil]
    · rw [hfiles, List.length_nil]
  · rintro ⟨hlt, hfiles⟩ hok
    exact hfiles (List.length_eq_zero_iff.1 (hok hlt).2)

/-! ### One message -/

/-- `T` after a whole message and `W` after a return before its end. -/
def Ends (T W : Rx κ F → Prop) : EStateM.Result RecvError (Rx κ F) Bool → Prop
  | .ok true s => T s
  | .ok false s => W s
  | .error _ _ => True

theorem andThen_ends {T T' W : Rx κ F → Prop} {r : EStateM.Result RecvError (Rx κ F) Bool}
    {f : Rx κ F → EStateM.Result RecvError (Rx κ F) Bool} (hr : Ends T W r) (hf : ∀ s, T s → Ends T' W (f s)) :
    Ends T' W (andThen r f) := by
  match r with
  | .error e s => trivial
  | .ok false s => exact hr
  | .ok true s => exact hf s hr

variable (cfg recvmsg)

/-- How a call ends: with an exception, with `EAGAIN`, or with bytes and descriptors. -/
theorem callRecvMsg_cases (len : ℕ) (s : Rx κ F) :
    (∃ e s', callRecvMsg recvmsg len s = .error e s') ∨
      (∃ k, callRecvMsg recvmsg len s = .ok none ⟨s.receiver, k, s.trace ++ [.recvmsg s.receiver .wouldBlock]⟩) ∨
      ∃ k bytes flags control, callRecvMsg recvmsg len s = .ok (some bytes)
        ⟨{ s.receiver with files := s.receiver.files ++ descriptors control }, k,
          s.trace ++ [.recvmsg s.receiver (.received bytes flags control)]⟩ := by
  unfold callRecvMsg
  match recvmsg s.kernel len with
  | (.wouldBlock, k) => exact .inr (.inl ⟨k, rfl⟩)
  | (.failed errno, k) => exact .inl ⟨_, _, rfl⟩
  | (.received bytes flags control, k) =>
    dsimp only
    split_ifs
    · exact .inl ⟨_, _, rfl⟩
    · cases hfiles : processReceivedControlData s.receiver.files control with
      | error e => exact .inl ⟨_, _, rfl⟩
      | ok files =>
        rw [(processReceivedControlData_ok hfiles).1]
        exact .inr (.inr ⟨k, bytes, flags, control, rfl⟩)

/-- A call behind the header does not split one. -/
theorem HeaderDone.called (h : HeaderDone s) {r : Receiver F} (hr : r.headerBuffer = s.receiver.headerBuffer) (k : κ)
    (o : RecvOutcome F) : HeaderDone (⟨r, k, s.trace ++ [.recvmsg s.receiver o]⟩ : Rx κ F) := by
  have hle := h.length_le
  refine ⟨?_, noSplit_concat.2 ⟨h.noSplit, ?_⟩⟩
  · show kHeaderLength ≤ r.headerBuffer.length
    rw [hr]
    exact hle
  · cases o with
    | wouldBlock => exact id
    | failed errno => exact id
    | received bytes flags control =>
      rintro ⟨hlt, -⟩
      omega

/-- Behind the header it does not matter how the code returns. -/
theorem HeaderDone.ends (h : HeaderDone s) (done : Bool) :
    Ends HeaderDone (fun s => Guarded s.receiver s.trace) (.ok done s) := by
  cases done with
  | true => exact h
  | false => exact h.guarded

/-- The header ends complete, or leaves what the next call may find. -/
theorem tryReceiveHeader_ends (hdata : s.receiver.data = []) (hfiles : s.receiver.files = []) (hno : NoSplit s.trace) :
    Ends HeaderDone (fun s => Guarded s.receiver s.trace) (tryReceiveHeader recvmsg s) := by
  unfold tryReceiveHeader
  obtain ⟨e, s', hcall⟩ | ⟨k, hcall⟩ | ⟨k, bytes, flags, control, hcall⟩ :=
    callRecvMsg_cases recvmsg (kHeaderLength - s.receiver.headerBuffer.length) s
  · rw [hcall]
    trivial
  · rw [hcall]
    refine ⟨fun _ => hdata, ?_⟩
    exact iff_of_false (not_not.2 (noSplit_concat.2 ⟨hno, id⟩)) fun hs => hs.2 hfiles
  rw [hcall, hfiles, List.nil_append]
  dsimp only
  -- the call splits the header exactly if there are descriptors and bytes missing
  have hsplit : NoSplit (s.trace ++ [.recvmsg s.receiver (.received bytes flags control)]) ↔
      ¬ (s.receiver.headerBuffer.length + bytes.length < kHeaderLength ∧ descriptors control ≠ []) := by
    rw [noSplit_concat]
    exact and_iff_right hno
  by_cases hempty : bytes.isEmpty
  · rw [if_pos hempty]
    split_ifs
    · refine ⟨fun _ => hdata, ?_⟩
      show ¬ NoSplit (s.trace ++ [.recvmsg s.receiver (.received bytes flags control)] ++ [.eofReceived]) ↔
        s.receiver.headerBuffer.length < kHeaderLength ∧ descriptors control ≠ []
      have heof : ¬ SplitHeader (.eofReceived : Event F) := id
      rw [noSplit_concat, and_iff_left heof, hsplit, not_not, List.isEmpty_iff.1 hempty, List.length_nil, Nat.add_zero]
    · trivial
  · rw [if_neg hempty]
    by_cases hall : (s.receiver.headerBuffer ++ bytes).length = kHeaderLength
    · rw [decide_eq_true hall]
      rw [List.length_append] at hall
      refine ⟨?_, hsplit.2 fun hs => ?_⟩
      · show kHeaderLength ≤ (s.receiver.headerBuffer ++ bytes).length
        rw [List.length_append]
        omega
      · omega
    · rw [decide_eq_false hall]
      refine ⟨fun _ => hdata, ?_⟩
      show ¬ NoSplit _ ↔ (s.receiver.headerBuffer ++ bytes).length < kHeaderLength ∧ _
      rw [hsplit, not_not, List.length_append]

/-- So does its check, -/
theorem checkHeader_ends (h : HeaderDone s) :
    Ends HeaderDone (fun s => Guarded s.receiver s.trace) (checkHeader cfg s) := by
  unfold checkHeader
  dsimp only
  split_ifs
  · trivial
  · trivial
  · trivial
  · exact ⟨h.length_le, h.noSplit⟩
  · exact ⟨h.length_le, h.noSplit⟩

/-- the reading of the data, -/
theorem tryReceiveData_ends (h : HeaderDone s) :
    Ends HeaderDone (fun s => Guarded s.receiver s.trace) (tryReceiveData recvmsg s) := by
  unfold tryReceiveData
  dsimp only
  obtain ⟨e, s', hcall⟩ | ⟨k, hcall⟩ | ⟨k, bytes, flags, control, hcall⟩ :=
    callRecvMsg_cases recvmsg (s.receiver.header.dataSize - s.receiver.data.length) s
  · rw [hcall]
    trivial
  · rw [hcall]
    exact (h.called rfl k _).ends false
  · rw [hcall]
    dsimp only
    split_ifs
    · trivial
    · apply HeaderDone.ends
      apply h.called
      rfl

/-- and that of the descriptors. -/
theorem tryReceiveFiles_ends (h : HeaderDone s) :
    Ends HeaderDone (fun s => Guarded s.receiver s.trace) (tryReceiveFiles recvmsg s) := by
  unfold tryReceiveFiles
  obtain ⟨e, s', hcall⟩ | ⟨k, hcall⟩ | ⟨k, bytes, flags, control, hcall⟩ := callRecvMsg_cases recvmsg 1 s
  · rw [hcall]
    trivial
  · rw [hcall]
    exact (h.called rfl k _).ends false
  · rw [hcall]
    dsimp only
    split_ifs
    · trivial
    · trivial
    · apply HeaderDone.ends
      apply h.called
      rfl

/-- **One message** from a state in which the checks on entry hold. -/
theorem tryReceiveOne_ends (h : Guarded s.receiver s.trace) (hok : EntryOk s.receiver) :
    Ends HeaderDone (fun s => Guarded s.receiver s.trace) (tryReceiveOne cfg recvmsg s) := by
  have hno := h.entryOk_iff.1 hok
  refine andThen_ends (T := HeaderDone) ?_ fun s hs => andThen_ends (T := HeaderDone) ?_ fun s hs => ?_
  · split_ifs with hlt
    · obtain ⟨hdata, hfiles⟩ := hok hlt
      have hheader := tryReceiveHeader_ends recvmsg (List.length_eq_zero_iff.1 hdata)
        (List.length_eq_zero_iff.1 hfiles) hno
      exact andThen_ends hheader fun s hs => checkHeader_ends cfg hs
    · exact ⟨not_lt.1 hlt, hno⟩
  · split_ifs
    · exact tryReceiveData_ends recvmsg hs
    · exact hs
  · split_ifs
    · exact tryReceiveFiles_ends recvmsg hs
    · exact hs

/-- A read event. -/
theorem tryReceiveLoop_guarded (n : ℕ) (h : Guarded s.receiver s.trace) (hok : EntryOk s.receiver) :
    Post (fun s => Guarded s.receiver s.trace) (fun _ _ => True) (tryReceiveLoop cfg recvmsg n s) := by
  induction n generalizing s with
  | zero => exact h
  | succ n ih =>
    have hone := tryReceiveOne_ends cfg recvmsg h hok
    unfold tryReceiveLoop
    cases hr : tryReceiveOne cfg recvmsg s with
    | error e s' => trivial
    | ok done s' =>
      rw [hr] at hone
      cases done with
      | false => exact hone
      | true =>
        -- nothing is left of the message that is handed over
        have hdone : HeaderDone s' := hone
        have hno : NoSplit (deliver s').trace := noSplit_concat.2 ⟨hdone.noSplit, id⟩
        exact ih ⟨fun _ => rfl, iff_of_false (not_not.2 hno) fun hs => hs.2 rfl⟩ fun _ => ⟨rfl, rfl⟩

/-- **A read event with the checks**: it aborts on entry, or goes as without checks. -/
theorem checked_tryReceive_cases (h : Guarded s.receiver s.trace) :
    (EntryOk s.receiver ∧
        ((∃ r, Checked.tryReceive cfg recvmsg s = .ok () r ∧ Guarded r.receiver r.trace) ∨
          ∃ e r, Checked.tryReceive cfg recvmsg s = .error (.threw e) r)) ∨
      (¬ EntryOk s.receiver ∧ Checked.tryReceive cfg recvmsg s = .error (.aborted .noFiles) s) := by
  by_cases hok : EntryOk s.receiver
  · refine .inl ⟨hok, ?_⟩
    have hpost : Post (fun s => Guarded s.receiver s.trace) (fun _ _ => True) (tryReceive cfg recvmsg s) :=
      tryReceiveLoop_guarded cfg recvmsg 10 h hok
    rw [Checked.tryReceive_eq hok]
    cases hrun : tryReceive cfg recvmsg s with
    | ok _ r =>
      rw [hrun] at hpost
      exact .inl ⟨r, rfl, hpost⟩
    | error e r => exact .inr ⟨e, r, rfl⟩
  · obtain ⟨hlt, hfiles⟩ := h.split.1 fun hno => hok (h.entryOk_iff.2 hno)
    exact .inr ⟨hok, Checked.tryReceive_noFiles cfg recvmsg hlt (h.data_nil hlt) hfiles⟩

/-! ### Runs -/

namespace CheckedConnection

variable {cfg}

variable {s s' : CheckedConnection F} {op : ConnectionOp F}

/-- No read event comes after a call that splits a header. -/
def WholeHeaders (s : CheckedConnection F) (op : ConnectionOp F) : Prop :=
  ∀ choices, op = .readable choices → NoSplit s.connection.trace

def NoCheckFailed (s : CheckedConnection F) : Prop := ∀ check, s.stopped ≠ some (.aborted check)

/-- Until the receiving end stops. -/
def Inv (s : CheckedConnection F) : Prop :=
  s.stopped = none → Guarded s.connection.receiver s.connection.trace

theorem inv_new : (new : CheckedConnection F).Inv := by
  intro _
  have hno : NoSplit ([] : List (Event F)) := fun ev hev => absurd hev List.not_mem_nil
  exact ⟨fun _ => rfl, iff_of_false (not_not.2 hno) fun hs => hs.2 rfl⟩

/-- What a read event starts with. -/
def rx (s : CheckedConnection F) (choices : List (Option ℕ)) : Rx (Stream F) F :=
  ⟨s.connection.receiver, ⟨s.connection.cells, choices⟩, s.connection.trace⟩

/-- A step goes on with the receiving end as it is, or is a read event. -/
theorem step_cases (hs : step cfg s op = some s') : s.stopped = none ∧
    ((∃ choices, op = .readable choices ∧
        ((∃ r, Checked.tryReceive cfg streamRecvmsg (s.rx choices) = .ok () r ∧ s'.stopped = none ∧
            s'.connection.receiver = r.receiver ∧ s'.connection.trace = r.trace) ∨
          ∃ e r, Checked.tryReceive cfg streamRecvmsg (s.rx choices) = .error e r ∧ s'.stopped = some e)) ∨
      ((∀ choices, op ≠ .readable choices) ∧ s'.stopped = none ∧
        s'.connection.receiver = s.connection.receiver ∧ s'.connection.trace = s.connection.trace)) := by
  unfold step at hs
  split_ifs at hs with hstop
  refine ⟨Option.not_isSome_iff_eq_none.1 hstop, ?_⟩
  have hafter : ∀ {c : Connection F} {r : Except SendError (List (SendQueueEntry F) × Stream F)},
      (c.afterSend r).map (⟨·, none⟩) = some s' → s'.stopped = none ∧ s'.connection.receiver = c.receiver ∧
        s'.connection.trace = c.trace := by
    intro c r h
    obtain ⟨c', hc', rfl⟩ := Option.map_eq_some_iff.1 h
    cases r with
    | error e => cases hc'
    | ok r =>
      obtain rfl := Option.some.inj hc'
      exact ⟨rfl, rfl, rfl⟩
  cases op with
  | send message choices => exact .inr ⟨fun _ h => (by cases h), hafter hs⟩
  | writable choices => exact .inr ⟨fun _ h => (by cases h), hafter hs⟩
  | readable choices =>
    refine .inl ⟨choices, rfl, ?_⟩
    dsimp only at hs
    split at hs
    · rename_i r hr
      obtain rfl := Option.some.inj hs
      exact .inl ⟨r, hr, rfl, rfl, rfl⟩
    · rename_i e r hr
      obtain rfl := Option.some.inj hs
      exact .inr ⟨e, r, hr, rfl⟩

/-- Every step keeps the invariant. -/
theorem Inv.step (h : s.Inv) (hs : CheckedConnection.step cfg s op = some s') : s'.Inv := by
  obtain ⟨hnone, ⟨choices, rfl, ⟨r, hr, -, hrec, htr⟩ | ⟨e, r, -, hstop⟩⟩ | ⟨-, -, hrec, htr⟩⟩ := step_cases hs
  · intro _
    rw [hrec, htr]
    obtain ⟨-, ⟨r', hr', hguard⟩ | ⟨e, r', hr'⟩⟩ | ⟨-, hr'⟩ :=
      checked_tryReceive_cases cfg streamRecvmsg (s := s.rx choices) (h hnone)
    · rw [hr] at hr'
      cases hr'
      exact hguard
    · rw [hr] at hr'
      cases hr'
    · rw [hr] at hr'
      cases hr'
  · intro hnone'
    rw [hstop] at hnone'
    cases hnone'
  · intro _
    rw [hrec, htr]
    exact h hnone

theorem noCheckFailed_of_none (h : s.stopped = none) : s.NoCheckFailed := by
  intro check hcheck
  rw [h] at hcheck
  cases hcheck

/-- The steps at which a check fails. -/
theorem Inv.noCheckFailed_step (h : s.Inv) (hs : CheckedConnection.step cfg s op = some s') :
    s'.NoCheckFailed ↔ s.NoCheckFailed ∧ WholeHeaders s op := by
  obtain ⟨hnone, hcases⟩ := step_cases hs
  rw [and_iff_right (noCheckFailed_of_none hnone)]
  have hguard := h hnone
  obtain ⟨choices, rfl, hread⟩ | ⟨hop, hnone', -, -⟩ := hcases
  · have hwhole : WholeHeaders s (.readable choices) ↔ EntryOk s.connection.receiver := by
      rw [hguard.entryOk_iff]
      exact ⟨fun hw => hw choices rfl, fun hno _ _ => hno⟩
    rw [hwhole]
    obtain ⟨r, hr, hnone', -⟩ | ⟨e, r, hr, hstop⟩ := hread
    · refine iff_of_true (noCheckFailed_of_none hnone') ?_
      obtain ⟨hok, -⟩ | ⟨-, hr'⟩ := checked_tryReceive_cases cfg streamRecvmsg (s := s.rx choices) hguard
      · exact hok
      · rw [hr] at hr'
        cases hr'
    · obtain ⟨hok, ⟨r', hr', -⟩ | ⟨e', r', hr'⟩⟩ | ⟨hok, hr'⟩ :=
        checked_tryReceive_cases cfg streamRecvmsg (s := s.rx choices) hguard
      · rw [hr] at hr'
        cases hr'
      · -- an exception, as in the code without checks
        rw [hr] at hr'
        cases hr'
        refine iff_of_true (fun check hcheck => ?_) hok
        rw [hstop] at hcheck
        cases hcheck
      · rw [hr] at hr'
        cases hr'
        exact iff_of_false (fun hfine => hfine .noFiles hstop) hok
  · exact iff_of_true (noCheckFailed_of_none hnone') fun choices heq => absurd heq (hop choices)

/-- **No check of the receiving end fails** in exactly the runs in which no read event comes
after a call of `recvmsg` that returns descriptors with only a part of the header. -/
theorem receive_checks_iff (cfg : SocketConfig) (ops : List (ConnectionOp F)) (hrun : run (step cfg) new ops = some s) :
    s.NoCheckFailed ↔ AllSteps (step cfg) WholeHeaders new ops := by
  rw [run_iff (fun _ _ _ => Inv.step) (fun _ _ _ => Inv.noCheckFailed_step) ops inv_new hrun]
  have hnew : (new : CheckedConnection F).NoCheckFailed := fun check h => by cases h
  exact and_iff_right hnew

/-- A message with a descriptor whose header comes at once, and its data byte by byte. -/
theorem receive_checks_iff_whole :
    ∃ s : CheckedConnection ℕ,
      run (step ⟨1024, 4, 16, by decide, by decide, by decide⟩) new
          [.send ⟨[[104, 105]], [7]⟩ [some 17], .readable [some 16, some 1], .writable [some 40],
            .readable [some 1]] = some s ∧
        (s.NoCheckFailed ↔ AllSteps (step ⟨1024, 4, 16, by decide, by decide, by decide⟩) WholeHeaders new
          [.send ⟨[[104, 105]], [7]⟩ [some 17], .readable [some 16, some 1], .writable [some 40],
            .readable [some 1]]) :=
  ⟨_, rfl, receive_checks_iff _ _ rfl⟩

/-- A `sendmsg` that takes the descriptor with five bytes of the header: the second read
event aborts. -/
theorem receive_checks_split_header :
    ∃ s : CheckedConnection ℕ,
      run (step ⟨1024, 4, 16, by decide, by decide, by decide⟩) new
          [.send ⟨[[104, 105]], [7]⟩ [some 5], .readable [some 16], .writable [some 40], .readable [some 16]] = some s ∧
        s.stopped = some (.aborted .noFiles) ∧ ¬ s.NoCheckFailed :=
  ⟨_, rfl, rfl, fun h => h .noFiles rfl⟩

end CheckedConnection

end EdenCommon
