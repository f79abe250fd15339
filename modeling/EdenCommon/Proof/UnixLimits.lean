import EdenCommon.Proof.UnixReceive

/-!
# What a peer can make the receiver hand over

The peer is free: any bytes, any descriptors with any call, any errors. Every message
that is handed over has a header within the limits and exactly the data it announces, and
at least the files it announces. The number of files is only compared with the header in
`tryReceiveFiles`, so that it can be larger: descriptors that come with the header or the
data are not counted (`Overfull`).

`receive_limits_iff`: **a run is sound exactly when it has no such call.**
-/

namespace EdenCommon

variable {F : Type}

/-! ### Sound traces -/

/-- The limits that `tryReceiveOne` checks. -/
structure Accepted (cfg : SocketConfig) (h : Header) : Prop where
  protocolID_eq : h.protocolID = kProtocolID
  dataSize_le : h.dataSize ≤ cfg.maxDataLength
  numFiles_le : h.numFiles ≤ cfg.maxFiles

/-- The descriptors of some control messages. -/
def descriptors (control : List (ControlMsg F)) : List F :=
  control.flatMap fun
    | .rights fds => fds
    | .other _ _ => []

namespace Receiver

/-- The header of the message, if it is complete with the bytes of this call. -/
def headerWith (r : Receiver F) (bytes : Bytes) : Option Header :=
  if r.headerBuffer.length < kHeaderLength then
    if (r.headerBuffer ++ bytes).length = kHeaderLength then some (deserializeHeader (r.headerBuffer ++ bytes))
    else none
  else some r.header

/-- The data of the message with the bytes of this call. -/
def dataWith (r : Receiver F) (bytes : Bytes) : Bytes :=
  if r.headerBuffer.length < kHeaderLength then []
  else if r.data.length < r.header.dataSize then r.data ++ bytes
  else r.data

/-- Header and data are complete with this call, and more descriptors have come than the
header announces. -/
def TooMany (r : Receiver F) (bytes : Bytes) (control : List (ControlMsg F)) (h : Header) : Prop :=
  h.dataSize ≤ (r.dataWith bytes).length ∧ h.numFiles < (r.files ++ descriptors control).length

/-- The peer breaks the protocol with this call: it closes the connection partway through
a message, sends a header beyond the limits, or too many descriptors. -/
def Violates (cfg : SocketConfig) (r : Receiver F) : RecvOutcome F → Prop
  | .received bytes _ control =>
    (bytes = [] ∧ r.headerBuffer ≠ []) ∨
      ∃ h, r.headerWith bytes = some h ∧ (¬ Accepted cfg h ∨ r.TooMany bytes control h)
  | _ => False

/-- The call that goes wrong: it completes the header and the data of an acceptable
message, and there are too many descriptors by then. -/
def Overfull (cfg : SocketConfig) (r : Receiver F) : RecvOutcome F → Prop
  | .received bytes flags control =>
    flags ≠ MSG_CTRUNC ∧ .rights [] ∉ control ∧
      (r.headerBuffer.length < kHeaderLength ∨ r.data.length < r.header.dataSize) ∧
      ∃ h, r.headerWith bytes = some h ∧ Accepted cfg h ∧ r.TooMany bytes control h
  | _ => False

end Receiver

/-- A message that is handed over carries what its header says, within the limits. -/
def Exact (cfg : SocketConfig) (trace : List (Event F)) : Prop :=
  ∀ h data files, .messageReceived h data files ∈ trace →
    files.length = h.numFiles ∧ files.length ≤ cfg.maxFiles ∧
      data.length = h.dataSize ∧ data.length ≤ cfg.maxDataLength

/-- Every message is exact, and a call that breaks the protocol is followed by
`receiveError` and nothing else. -/
def Sound (cfg : SocketConfig) (trace : List (Event F)) : Prop :=
  Exact cfg trace ∧
    ∀ pre r o post, trace = pre ++ .recvmsg r o :: post → r.Violates cfg o → ∃ e, post = [.receiveError e]

/-! ### One call -/

/-- The receive state between two calls. -/
structure Receiver.Wf (cfg : SocketConfig) (r : Receiver F) : Prop where
  length_le : r.headerBuffer.length ≤ kHeaderLength
  data_nil : r.headerBuffer.length < kHeaderLength → r.data = []
  accepted : ¬ r.headerBuffer.length < kHeaderLength → Accepted cfg r.header
  data_le : ¬ r.headerBuffer.length < kHeaderLength → r.data.length ≤ r.header.dataSize
  not_complete : ¬ r.Complete

/-- What one call can lead to. -/
def Limits (cfg : SocketConfig) (r : Receiver F) (o : RecvOutcome F) : Progress F → Prop
  | .wait r' => r'.Wf cfg ∧ ¬ r.Violates cfg o
  | .more r' => r'.Wf cfg ∧ ¬ r.Violates cfg o
  | .eof r' => r'.Wf cfg ∧ ¬ r.Violates cfg o
  | .fail _ _ => ¬ r.Overfull cfg o
  | .done r' => Accepted cfg r'.header ∧ r'.data.length = r'.header.dataSize ∧
      r'.header.numFiles ≤ r'.files.length ∧
      (r.Violates cfg o ↔ r'.header.numFiles < r'.files.length) ∧
      (r.Overfull cfg o ↔ r'.header.numFiles < r'.files.length)

/-- Too many descriptors are a violation. -/
theorem Receiver.Overfull.violates {cfg : SocketConfig} {r : Receiver F} {o : RecvOutcome F} (h : r.Overfull cfg o) :
    r.Violates cfg o := by
  match o with
  | .wouldBlock => exact h
  | .failed _ => exact h
  | .received bytes flags control =>
    obtain ⟨-, -, -, hdr, hh, -, ht⟩ := h
    exact .inr ⟨hdr, hh, .inr ht⟩

/-- Control data without an empty message adds its descriptors. -/
theorem processReceivedControlData_ok {files files' : List F} {control : List (ControlMsg F)}
    (h : processReceivedControlData files control = .ok files') :
    files' = files ++ descriptors control ∧ .rights [] ∉ control := by
  induction control generalizing files with
  | nil =>
    have hf : files = files' := by simpa [processReceivedControlData] using h
    simp [hf, descriptors]
  | cons c rest ih =>
    cases c with
    | other level type =>
      obtain ⟨hf, hn⟩ := ih h
      exact ⟨by simpa [descriptors] using hf, by simpa using hn⟩
    | rights fds =>
      rw [processReceivedControlData] at h
      split_ifs at h with hempty
      obtain ⟨hf, hn⟩ := ih h
      refine ⟨by simpa [descriptors] using hf, ?_⟩
      simp only [List.mem_cons, not_or]
      refine ⟨?_, hn⟩
      intro heq
      cases heq
      exact hempty rfl

theorem processReceivedControlData_error {files : List F} {control : List (ControlMsg F)} {e : RecvError}
    (h : processReceivedControlData files control = .error e) : .rights [] ∈ control := by
  induction control generalizing files with
  | nil => simp [processReceivedControlData] at h
  | cons c rest ih =>
    cases c with
    | other level type => exact List.mem_cons_of_mem _ (ih h)
    | rights fds =>
      rw [processReceivedControlData] at h
      split_ifs at h with hempty
      · rw [List.isEmpty_iff.1 hempty]
        exact List.mem_cons_self
      · exact List.mem_cons_of_mem _ (ih h)

section Call

variable {cfg : SocketConfig} {r : Receiver F} {bytes : Bytes} {flags : ℕ} {control : List (ControlMsg F)}

/-- Behind the header or the data, the comparison with the number of files is missing. -/
theorem goOn_limits {r' : Receiver F} (hflags : flags ≠ MSG_CTRUNC) (hctl : .rights [] ∉ control)
    (hphase : r.headerBuffer.length < kHeaderLength ∨ r.data.length < r.header.dataSize) (hbytes : bytes ≠ [])
    (hh : r.headerWith bytes = some r'.header) (hacc : Accepted cfg r'.header)
    (hbuf : r'.headerBuffer.length = kHeaderLength) (hdata : r'.data = r.dataWith bytes)
    (hfiles : r'.files = r.files ++ descriptors control) (hle : r'.data.length ≤ r'.header.dataSize) :
    Limits cfg r (.received bytes flags control) r'.goOn := by
  have htoo : r.TooMany bytes control r'.header ↔
      r'.header.dataSize ≤ r'.data.length ∧ r'.header.numFiles < r'.files.length := by
    rw [Receiver.TooMany, hdata, hfiles]
  have hv : r.Violates cfg (.received bytes flags control) ↔ r.TooMany bytes control r'.header := by
    simp [Receiver.Violates, hbytes, hh, hacc]
  have ho : r.Overfull cfg (.received bytes flags control) ↔ r.TooMany bytes control r'.header := by
    simp [Receiver.Overfull, hflags, hctl, hphase, hh, hacc]
  have hfull : ¬ r'.headerBuffer.length < kHeaderLength := by omega
  unfold Receiver.goOn
  split_ifs with hmiss
  · refine ⟨⟨hbuf.le, fun h => absurd h hfull, fun _ => hacc, fun _ => hle, ?_⟩, ?_⟩
    · intro hc
      have := hc.2
      omega
    · rw [hv, htoo]
      omega
  · refine ⟨hacc, by omega, by omega, ?_, ?_⟩
    · rw [hv, htoo]
      omega
    · rw [ho, htoo]
      omega

/-- A header is accepted within the limits, or refused as a violation. -/
theorem acceptHeader_limits {files : List F} (hflags : flags ≠ MSG_CTRUNC) (hctl : .rights [] ∉ control)
    (hphase : r.headerBuffer.length < kHeaderLength ∨ r.data.length < r.header.dataSize) (hbytes : bytes ≠ [])
    (hw : r.headerWith bytes = some (deserializeHeader (r.headerBuffer ++ bytes)))
    (hl : (r.headerBuffer ++ bytes).length = kHeaderLength) (hdata : r.data = []) (hdw : r.dataWith bytes = [])
    (hfiles : files = r.files ++ descriptors control) :
    Limits cfg r (.received bytes flags control)
      ({ r with headerBuffer := r.headerBuffer ++ bytes, files }.acceptHeader cfg) := by
  have hreject : ¬ Accepted cfg (deserializeHeader (r.headerBuffer ++ bytes)) →
      ¬ r.Overfull cfg (.received bytes flags control) := by
    intro hacc ho
    obtain ⟨-, -, -, h, hsome, hacc', -⟩ := ho
    rw [hw, Option.some.injEq] at hsome
    rw [hsome] at hacc
    exact hacc hacc'
  unfold Receiver.acceptHeader
  dsimp only
  split_ifs with h1 h2 h3 h4
  · exact hreject fun hacc => h1 hacc.protocolID_eq
  · exact hreject fun hacc => absurd h2 (not_lt.2 hacc.dataSize_le)
  · exact hreject fun hacc => absurd h3 (not_lt.2 hacc.numFiles_le)
  · -- there is data to come
    apply goOn_limits hflags hctl hphase hbytes
    · exact hw
    · exact ⟨not_not.1 h1, not_lt.1 h2, not_lt.1 h3⟩
    · exact hl
    · exact hdw.symm
    · exact hfiles
    · exact Nat.zero_le _
  · apply goOn_limits hflags hctl hphase hbytes
    · exact hw
    · exact ⟨not_not.1 h1, not_lt.1 h2, not_lt.1 h3⟩
    · exact hl
    · exact hdata.trans hdw.symm
    · exact hfiles
    · rw [hdata]
      exact Nat.zero_le _

variable (hr : r.Wf cfg) (hflags : flags ≠ MSG_CTRUNC) (hctl : .rights [] ∉ control)

include hr hflags hctl

/-- **A part of the header** is taken within the limits. -/
theorem takeHeader_limits (hh : r.headerBuffer.length < kHeaderLength)
    (hlen : bytes.length ≤ kHeaderLength - r.headerBuffer.length) :
    Limits cfg r (.received bytes flags control)
      ({ r with files := r.files ++ descriptors control }.takeHeader cfg bytes) := by
  have hdata := hr.data_nil hh
  have hdw : r.dataWith bytes = [] := if_pos hh
  -- a header that is not complete says nothing yet
  have hnone : (r.headerBuffer ++ bytes).length ≠ kHeaderLength → r.headerWith bytes = none := by
    intro hl
    rw [Receiver.headerWith, if_pos hh, if_neg hl]
  unfold Receiver.takeHeader
  dsimp only
  split_ifs with hb hb' hl
  · rw [List.isEmpty_iff] at hb hb'
    have hw := hnone (by rw [hb, hb']; decide)
    refine ⟨⟨hr.length_le, hr.data_nil, hr.accepted, hr.data_le, ?_⟩, ?_⟩
    · intro hc
      exact absurd hh (not_lt.2 hc.1)
    · simp [Receiver.Violates, hb', hw]
  · rw [List.isEmpty_iff] at hb
    have hw := hnone (by rw [hb, List.append_nil]; omega)
    simp [Limits, Receiver.Overfull, hw]
  · have hw : r.headerWith bytes = some (deserializeHeader (r.headerBuffer ++ bytes)) := by
      rw [Receiver.headerWith, if_pos hh, if_pos hl]
    exact acceptHeader_limits hflags hctl (.inl hh) (by simpa using hb) hw hl hdata hdw rfl
  · have hw := hnone hl
    have hlt : (r.headerBuffer ++ bytes).length < kHeaderLength := by
      rw [List.length_append] at hl ⊢
      omega
    refine ⟨⟨hlt.le, fun _ => hdata, fun h => absurd hlt h, fun h => absurd hlt h, ?_⟩, ?_⟩
    · intro hc
      exact absurd hlt (not_lt.2 hc.1)
    · rw [List.isEmpty_iff] at hb
      simp [Receiver.Violates, hb, hw]

/-- **A part of the data** is taken within the limits. -/
theorem takeData_limits (hh : ¬ r.headerBuffer.length < kHeaderLength) (hd : r.data.length < r.header.dataSize)
    (hlen : bytes.length ≤ r.header.dataSize - r.data.length) :
    Limits cfg r (.received bytes flags control)
      ({ r with files := r.files ++ descriptors control }.takeData bytes) := by
  have hle := hr.length_le
  have hw : r.headerWith bytes = some r.header := if_neg hh
  have hdw : r.dataWith bytes = r.data ++ bytes := by rw [Receiver.dataWith, if_neg hh, if_pos hd]
  -- without the rest of the data, there are never too many descriptors yet
  have hfew : bytes.length ≠ r.header.dataSize - r.data.length → ¬ r.TooMany bytes control r.header := by
    intro hl htoo
    have := htoo.1
    rw [hdw, List.length_append] at this
    omega
  unfold Receiver.takeData
  dsimp only
  split_ifs with hb hl
  · rw [List.isEmpty_iff] at hb
    have hno := hfew (by rw [hb, List.length_nil]; omega)
    simp [Limits, Receiver.Overfull, hw, hno]
  · apply goOn_limits hflags hctl (.inr hd)
    · simpa using hb
    · exact hw
    · exact hr.accepted hh
    · show r.headerBuffer.length = kHeaderLength
      omega
    · exact hdw.symm
    · rfl
    · show (r.data ++ bytes).length ≤ r.header.dataSize
      rw [List.length_append]
      omega
  · have hno := hfew hl
    have hlt : (r.data ++ bytes).length < r.header.dataSize := by
      rw [List.length_append]
      omega
    refine ⟨⟨hle, fun h => absurd h hh, fun _ => hr.accepted hh, fun _ => hlt.le, ?_⟩, ?_⟩
    · intro hc
      exact absurd hlt (not_lt.2 hc.2.1)
    · rw [List.isEmpty_iff] at hb
      simp [Receiver.Violates, hb, hw, hno, hr.accepted hh]

omit hflags hctl in
/-- **Descriptors behind the data** are taken within the limits. -/
theorem takeFiles_limits (hh : ¬ r.headerBuffer.length < kHeaderLength) (hd : ¬ r.data.length < r.header.dataSize) :
    Limits cfg r (.received bytes flags control)
      ({ r with files := r.files ++ descriptors control }.takeFiles bytes) := by
  have hle := hr.data_le hh
  have hacc := hr.accepted hh
  have hw : r.headerWith bytes = some r.header := if_neg hh
  have hdw : r.dataWith bytes = r.data := by rw [Receiver.dataWith, if_neg hh, if_neg hd]
  -- the comparison is made here, so that no call is overfull
  have hno : ¬ r.Overfull cfg (.received bytes flags control) := by
    intro ho
    obtain ⟨-, -, hphase, -⟩ := ho
    rcases hphase with h | h
    · exact hh h
    · exact hd h
  have htoo : r.TooMany bytes control r.header ↔ r.header.numFiles < (r.files ++ descriptors control).length := by
    rw [Receiver.TooMany, hdw]
    omega
  have hviol : bytes ≠ [] → ¬ r.header.numFiles < (r.files ++ descriptors control).length →
      ¬ r.Violates cfg (.received bytes flags control) := by
    intro hb hn hv
    rcases hv with hv | ⟨h, hsome, hv⟩
    · exact hb hv.1
    · rw [hw, Option.some.injEq] at hsome
      subst hsome
      rcases hv with hv | hv
      · exact hv hacc
      · exact hn (htoo.1 hv)
  have hdata : r.data.length = r.header.dataSize := by omega
  unfold Receiver.takeFiles
  dsimp only
  split_ifs with hb hn he
  · exact hno
  · exact hno
  · exact ⟨hacc, hdata, he.ge, iff_of_false (hviol (by simpa using hb) hn) hn, iff_of_false hno hn⟩
  · refine ⟨⟨hr.length_le, fun h => absurd h hh, fun _ => hacc, fun _ => hle, ?_⟩, hviol (by simpa using hb) hn⟩
    intro hc
    exact he (le_antisymm (not_lt.1 hn) hc.2.2)

end Call

/-- **One call of a receiver in order**, with any result that is not longer than asked. -/
theorem absorb_limits {cfg : SocketConfig} {r : Receiver F} (hr : r.Wf cfg) (o : RecvOutcome F)
    (hlen : ∀ bytes flags control, o = .received bytes flags control → bytes.length ≤ r.want) :
    Limits cfg r o (r.absorb cfg o) := by
  match o with
  | .wouldBlock => exact ⟨hr, fun h => h⟩
  | .failed errno => exact fun h => h
  | .received bytes flags control =>
    have hl := hlen bytes flags control rfl
    unfold Receiver.absorb
    dsimp only
    by_cases hf : flags = MSG_CTRUNC
    · rw [if_pos hf]
      exact fun ho => ho.1 hf
    rw [if_neg hf]
    match hp : processReceivedControlData r.files control with
    | .error e => exact fun ho => ho.2.1 (processReceivedControlData_error hp)
    | .ok files =>
      obtain ⟨rfl, hctl⟩ := processReceivedControlData_ok hp
      show Limits cfg r _ (Receiver.take cfg { r with files := r.files ++ descriptors control } bytes)
      unfold Receiver.want at hl
      unfold Receiver.take
      dsimp only
      split_ifs at hl ⊢ with hh hd
      · exact takeHeader_limits hr hf hctl hh hl
      · exact takeData_limits hr hf hctl hh hd hl
      · exact takeFiles_limits hr hh hd

/-! ### Traces -/

/-- Every call of `recvmsg` satisfies `P`. -/
def AllCalls (P : Receiver F → RecvOutcome F → Prop) (trace : List (Event F)) : Prop :=
  ∀ r o, .recvmsg r o ∈ trace → P r o

def NoViolation (cfg : SocketConfig) : List (Event F) → Prop := AllCalls fun r o => ¬ r.Violates cfg o

def NoOverfull (cfg : SocketConfig) : List (Event F) → Prop := AllCalls fun r o => ¬ r.Overfull cfg o

/-- The trace of a socket that is open. -/
structure OpenTrace (cfg : SocketConfig) (trace : List (Event F)) : Prop where
  no_error : ∀ e, .receiveError e ∉ trace
  sound_iff : Exact cfg trace ∧ NoViolation cfg trace ↔ NoOverfull cfg trace

/-- The trace of a socket that an exception has closed. -/
def ClosedTrace (cfg : SocketConfig) (trace : List (Event F)) : Prop :=
  ∃ pre r o e, trace = pre ++ [.recvmsg r o, .receiveError e] ∧ OpenTrace cfg pre ∧ ¬ r.Overfull cfg o

variable {cfg : SocketConfig}

/-- What holds of all calls holds of both parts. -/
theorem allCalls_append (P : Receiver F → RecvOutcome F → Prop) (tr tr' : List (Event F)) :
    AllCalls P (tr ++ tr') ↔ AllCalls P tr ∧ AllCalls P tr' := by
  simp only [AllCalls, List.mem_append, or_imp, forall_and]

theorem exact_append (tr tr' : List (Event F)) : Exact cfg (tr ++ tr') ↔ Exact cfg tr ∧ Exact cfg tr' := by
  refine ⟨fun h => ⟨?_, ?_⟩, ?_⟩
  · intro hdr data files hm
    exact h hdr data files (List.mem_append_left _ hm)
  · intro hdr data files hm
    exact h hdr data files (List.mem_append_right _ hm)
  · intro h hdr data files hm
    rcases List.mem_append.1 hm with hm | hm
    · exact h.1 hdr data files hm
    · exact h.2 hdr data files hm

/-- Traces of an open socket may be put together. -/
theorem OpenTrace.append {tr tr' : List (Event F)} (h : OpenTrace cfg tr) (h' : OpenTrace cfg tr') :
    OpenTrace cfg (tr ++ tr') where
  no_error := by
    intro e hm
    rcases List.mem_append.1 hm with hm | hm
    · exact h.no_error e hm
    · exact h'.no_error e hm
  sound_iff := by
    rw [exact_append, NoViolation, NoOverfull, allCalls_append, allCalls_append]
    exact and_and_and_comm.trans (and_congr h.sound_iff h'.sound_iff)

/-- A call that breaks nothing. -/
theorem openTrace_recvmsg {r : Receiver F} {o : RecvOutcome F} (h : ¬ r.Violates cfg o) :
    OpenTrace cfg [.recvmsg r o] where
  no_error := by simp
  sound_iff := by
    have hno : ¬ r.Overfull cfg o := fun ho => h ho.violates
    simp [Exact, NoViolation, NoOverfull, AllCalls, h, hno]

theorem openTrace_nil : OpenTrace cfg ([] : List (Event F)) where
  no_error := by simp
  sound_iff := by simp [Exact, NoViolation, NoOverfull, AllCalls]

theorem openTrace_eof : OpenTrace cfg ([.eofReceived] : List (Event F)) where
  no_error := by simp
  sound_iff := by simp [Exact, NoViolation, NoOverfull, AllCalls]

/-- **A call that completes a message** is sound exactly when it is not overfull. -/
theorem openTrace_done {r r' : Receiver F} {o : RecvOutcome F} (h : Limits cfg r o (.done r')) :
    OpenTrace cfg [.recvmsg r o, .messageReceived r'.header r'.data r'.files] where
  no_error := by simp
  sound_iff := by
    obtain ⟨hacc, hdata, hfiles, hv, ho⟩ := h
    have hd := hacc.dataSize_le
    have hf := hacc.numFiles_le
    have hexact : Exact cfg [.recvmsg r o, .messageReceived r'.header r'.data r'.files] ↔
        r'.files.length = r'.header.numFiles := by
      refine ⟨fun h => (h r'.header r'.data r'.files (by simp)).1, ?_⟩
      intro heq h data files hm
      obtain ⟨rfl, rfl, rfl⟩ : h = r'.header ∧ data = r'.data ∧ files = r'.files := by simpa using hm
      omega
    have hviol : NoViolation cfg [.recvmsg r o, .messageReceived r'.header r'.data r'.files] ↔
        ¬ r.Violates cfg o := by simp [NoViolation, AllCalls]
    have hover : NoOverfull cfg [.recvmsg r o, .messageReceived r'.header r'.data r'.files] ↔
        ¬ r.Overfull cfg o := by simp [NoOverfull, AllCalls]
    rw [hexact, hviol, hover, hv, ho]
    omega

/-! ### Runs -/

/-- An open socket. -/
structure OpenRx (cfg : SocketConfig) {κ : Type} (s : Rx κ F) : Prop where
  receiver_wf : s.receiver.Wf cfg
  trace_open : OpenTrace cfg s.trace

/-- A socket after an exception, before it is reported. -/
def FailedRx (cfg : SocketConfig) {κ : Type} (s : Rx κ F) : Prop :=
  ∃ pre r o, s.trace = pre ++ [.recvmsg r o] ∧ OpenTrace cfg pre ∧ ¬ r.Overfull cfg o

/-- The kernel gives no more bytes than there is room for. -/
theorem scriptedRecvmsg_length {script : List (RecvOutcome F)} {len : ℕ} {bytes : Bytes} {flags : ℕ}
    {control : List (ControlMsg F)} (h : (scriptedRecvmsg script len).1 = .received bytes flags control) :
    bytes.length ≤ len := by
  match script with
  | [] => simp [scriptedRecvmsg] at h
  | .wouldBlock :: _ => simp [scriptedRecvmsg] at h
  | .failed _ :: _ => simp [scriptedRecvmsg] at h
  | .received b _ _ :: _ =>
    obtain ⟨rfl, -, -⟩ := RecvOutcome.received.inj h
    rw [List.length_take]
    exact min_le_left _ _

/-- In front of a message the receive state is in order. -/
theorem wf_of_nil {r : Receiver F} (hbuf : r.headerBuffer = []) (hdata : r.data = []) : r.Wf cfg := by
  have hlt : r.headerBuffer.length < kHeaderLength := by rw [hbuf]; decide
  exact ⟨hlt.le, fun _ => hdata, fun h => absurd hlt h, fun h => absurd hlt h, fun hc => absurd hlt (not_lt.2 hc.1)⟩

/-- **A step keeps an open socket open or ends in an exception**, and is sound exactly when
its call is not overfull. -/
theorem rx_step_limits {s : Rx (List (RecvOutcome F)) F} (h : OpenRx cfg s) :
    Post (OpenRx cfg) (fun _ => FailedRx cfg) (s.step cfg scriptedRecvmsg) := by
  have hlim := absorb_limits h.receiver_wf (scriptedRecvmsg s.kernel s.receiver.want).1
    fun _ _ _ => scriptedRecvmsg_length
  unfold Rx.step
  match hp : s.receiver.absorb cfg (scriptedRecvmsg s.kernel s.receiver.want).1 with
  | .wait r =>
    rw [hp] at hlim
    exact ⟨hlim.1, h.trace_open.append (openTrace_recvmsg hlim.2)⟩
  | .more r =>
    rw [hp] at hlim
    exact ⟨hlim.1, h.trace_open.append (openTrace_recvmsg hlim.2)⟩
  | .eof r =>
    rw [hp] at hlim
    exact ⟨hlim.1, (h.trace_open.append (openTrace_recvmsg hlim.2)).append openTrace_eof⟩
  | .fail e r =>
    rw [hp] at hlim
    exact ⟨s.trace, s.receiver, _, rfl, h.trace_open, hlim⟩
  | .done r =>
    rw [hp] at hlim
    refine ⟨wf_of_nil rfl rfl, ?_⟩
    have hopen := h.trace_open.append (openTrace_done hlim)
    show OpenTrace cfg (s.trace ++ [_] ++ [_])
    rw [List.append_assoc]
    exact hopen

/-- A socket with a free peer is open with a trace as above, or closed. -/
def SocketInv (cfg : SocketConfig) {κ : Type} (s : ReceiveSocket κ F) : Prop :=
  if s.closed then ClosedTrace cfg s.rx.trace else OpenRx cfg s.rx

/-- The invariant of a run. -/
theorem receiveRun_inv (cfg : SocketConfig) (script : List (RecvOutcome F)) (n : ℕ) :
    SocketInv cfg (receiveRun cfg script n) := by
  induction n with
  | zero => exact ⟨wf_of_nil rfl rfl, openTrace_nil⟩
  | succ n ih =>
    unfold receiveRun at ih ⊢
    rw [Function.iterate_succ_apply']
    generalize (handlerReadable cfg scriptedRecvmsg)^[n] ⟨⟨.new, script, []⟩, false⟩ = s at ih ⊢
    unfold handlerReadable
    by_cases hc : s.closed = true
    · rw [if_pos hc]
      exact ih
    · rw [if_neg hc]
      have hopen : OpenRx cfg s.rx := by simpa [SocketInv, hc] using ih
      have hpost := tryReceive_post (E := fun _ => FailedRx cfg)
        (fun s' hs' => ⟨hs'.receiver_wf.not_complete, rx_step_limits hs'⟩) s.rx
        hopen.receiver_wf.not_complete (rx_step_limits hopen)
      match hr : tryReceive cfg scriptedRecvmsg s.rx with
      | .ok _ rx => rw [hr] at hpost; exact hpost
      | .error e rx =>
        rw [hr] at hpost
        obtain ⟨pre, r, o, htr, hpre, hno⟩ := hpost
        refine ⟨pre, r, o, e, ?_, hpre, hno⟩
        simp [Rx.emit, htr]

/-- **An open socket** is within the limits exactly if no call was overfull. -/
theorem OpenTrace.sound {tr : List (Event F)} (h : OpenTrace cfg tr) : Sound cfg tr ↔ NoOverfull cfg tr := by
  rw [← h.sound_iff]
  refine and_congr_right fun _ => ⟨?_, ?_⟩
  · intro hs r o hm hv
    obtain ⟨pre, post, rfl⟩ := List.append_of_mem hm
    obtain ⟨e, rfl⟩ := hs pre r o post rfl hv
    exact h.no_error e (by simp)
  · intro hn pre r o post heq hv
    exact absurd hv (hn r o (by simp [heq]))

/-- **A closed one** as well. -/
theorem ClosedTrace.sound {tr : List (Event F)} (h : ClosedTrace cfg tr) : Sound cfg tr ↔ NoOverfull cfg tr := by
  obtain ⟨pre, r, o, e, rfl, hpre, hno⟩ := h
  have hexact : Exact cfg (pre ++ [.recvmsg r o, .receiveError e]) ↔ Exact cfg pre := by
    rw [exact_append]
    exact and_iff_left (by simp [Exact])
  have hover : NoOverfull cfg (pre ++ [.recvmsg r o, .receiveError e]) ↔ NoOverfull cfg pre := by
    rw [NoOverfull, allCalls_append]
    exact and_iff_left (by simpa [AllCalls] using hno)
  rw [hover, ← hpre.sound_iff, Sound, hexact]
  refine and_congr_right fun _ => ⟨?_, ?_⟩
  · -- a call before the last one is not followed by `receiveError`
    intro hs r' o' hm hv
    obtain ⟨a, b, rfl⟩ := List.append_of_mem hm
    obtain ⟨e', heq⟩ := hs a r' o' (b ++ [.recvmsg r o, .receiveError e]) (by simp) hv
    have hlen := congrArg List.length heq
    simp at hlen
  · intro hn a r' o' post heq hv
    rcases List.append_eq_append_iff.1 heq with ⟨t, ha, ht⟩ | ⟨t, hp, ht⟩
    · match t, ht with
      | [], ht => exact ⟨e, (List.cons.inj ht).2.symm⟩
      | [_], ht => simp at ht
      | _ :: _ :: _, ht => simp at ht
    · match t, ht with
      | [], ht => exact ⟨e, (List.cons.inj ht).2⟩
      | c :: t, ht =>
        have hc : .recvmsg r' o' = c := (List.cons.inj ht).1
        exact absurd hv (hn r' o' (by simp [hp, hc]))

/-- **The receiver is sound exactly as long as no call is overfull**, whatever the peer
sends and however it is cut. -/
theorem receive_limits_iff (cfg : SocketConfig) (script : List (RecvOutcome F)) (n : ℕ) :
    Sound cfg (receiveRun cfg script n).rx.trace ↔
      ∀ r o, .recvmsg r o ∈ (receiveRun cfg script n).rx.trace → ¬ r.Overfull cfg o := by
  have hinv := receiveRun_inv cfg script n
  unfold SocketInv at hinv
  split_ifs at hinv
  · exact hinv.sound
  · exact hinv.trace_open.sound

/-- A header that announces no data and no files, with a descriptor. -/
theorem receive_unannounced_file :
    ¬ Sound ⟨1024, 4, 16, by decide, by decide, by decide⟩
      (receiveRun (F := ℕ) ⟨1024, 4, 16, by decide, by decide, by decide⟩
        [.received (serializeHeader 0 0) 0 [.rights [7]]] 1).rx.trace := by
  intro hsound
  have hone : (1 : ℕ) = 0 :=
    (hsound.1 ⟨kProtocolID, 0, 0⟩ [] [7] (List.Mem.tail _ (List.Mem.head _))).1
  exact absurd hone (by decide)

end EdenCommon
