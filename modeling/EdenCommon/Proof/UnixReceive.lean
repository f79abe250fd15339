import Mathlib.Data.Nat.Basic
import Mathlib.Order.Basic
import Mathlib.Tactic.SplitIfs
import EdenCommon.Spec.UnixStream

/-!
# The receiver, one call at a time

`tryReceive` makes up to three calls of `recvmsg` for a message and goes on to the next
message. Each call is a step of a state machine on the receive state: `Receiver.want` is
the number of bytes it asks for, `Receiver.absorb` what its result leads to.

* `tryReceiveOne_eq`: the code makes one step, and goes on as after that step.
* `tryReceive_post`: **what every step keeps, `tryReceive` keeps.** The results about the
  receiver below are about one step and use this rule.
-/

namespace EdenCommon

variable {F κ : Type}

/-! ### The state machine -/

/-- What the result of one call leads to: the code returns and waits for the next read
event, reports the end of the stream, throws, makes another call, or has a message. -/
inductive Progress (F : Type)
  | wait (r : Receiver F)
  | eof (r : Receiver F)
  | fail (e : RecvError) (r : Receiver F)
  | more (r : Receiver F)
  | done (r : Receiver F)

namespace Receiver

/-- Nothing is missing, so that `tryReceiveOne` returns without a call. -/
def Complete (r : Receiver F) : Prop :=
  kHeaderLength ≤ r.headerBuffer.length ∧ r.header.dataSize ≤ r.data.length ∧
    r.header.numFiles ≤ r.files.length

/-- The bytes that the next call asks for. -/
def want (r : Receiver F) : ℕ :=
  if r.headerBuffer.length < kHeaderLength then kHeaderLength - r.headerBuffer.length
  else if r.data.length < r.header.dataSize then r.header.dataSize - r.data.length
  else 1

/-- Behind the header and behind the data. -/
def goOn (r : Receiver F) : Progress F :=
  if r.data.length < r.header.dataSize ∨ r.files.length < r.header.numFiles then .more r else .done r

/-- The checks of `tryReceiveOne` on a whole header. -/
def acceptHeader (cfg : SocketConfig) (r : Receiver F) : Progress F :=
  let header := deserializeHeader r.headerBuffer
  let r := { r with header }
  if header.protocolID ≠ kProtocolID then .fail (.unknownProtocolID header.protocolID) r
  else if cfg.maxDataLength < header.dataSize then .fail (.dataTooLarge header.dataSize) r
  else if cfg.maxFiles < header.numFiles then .fail (.tooManyFiles header.numFiles) r
  else if 0 < header.dataSize then goOn { r with data := [] }
  else goOn r

def takeHeader (cfg : SocketConfig) (r : Receiver F) (bytes : Bytes) : Progress F :=
  if bytes.isEmpty then if r.headerBuffer.isEmpty then .eof r else .fail .closedInHeader r
  else
    let r := { r with headerBuffer := r.headerBuffer ++ bytes }
    if r.headerBuffer.length = kHeaderLength then acceptHeader cfg r else .wait r

def takeData (r : Receiver F) (bytes : Bytes) : Progress F :=
  if bytes.isEmpty then .fail .closedInMessage r
  else
    let r' := { r with data := r.data ++ bytes }
    if bytes.length = r.header.dataSize - r.data.length then goOn r' else .wait r'

def takeFiles (r : Receiver F) (bytes : Bytes) : Progress F :=
  if bytes.isEmpty then .fail .closedInFiles r
  else if r.header.numFiles < r.files.length then
    .fail (.moreFilesThanIndicated r.files.length r.header.numFiles) r
  else if r.files.length = r.header.numFiles then .done r else .wait r

/-- The bytes of a call, after its descriptors. -/
def take (cfg : SocketConfig) (r : Receiver F) (bytes : Bytes) : Progress F :=
  if r.headerBuffer.length < kHeaderLength then r.takeHeader cfg bytes
  else if r.data.length < r.header.dataSize then r.takeData bytes
  else r.takeFiles bytes

/-- What the result of a call leads to. -/
def absorb (cfg : SocketConfig) (r : Receiver F) : RecvOutcome F → Progress F
  | .wouldBlock => .wait r
  | .failed errno => .fail (.recvmsgFailed errno) r
  | .received bytes flags control =>
    if flags = MSG_CTRUNC then .fail .controlTruncated r
    else match processReceivedControlData r.files control with
      | .error e => .fail e r
      | .ok files => { r with files }.take cfg bytes

end Receiver

variable (cfg : SocketConfig) (recvmsg : κ → ℕ → RecvOutcome F × κ)

/-- How `tryReceiveOne` ends after a call. -/
def Progress.resume (kernel : κ) (trace : List (Event F)) : Progress F → EStateM.Result RecvError (Rx κ F) Bool
  | .wait r => .ok false ⟨r, kernel, trace⟩
  | .eof r => .ok false ⟨r, kernel, trace ++ [.eofReceived]⟩
  | .fail e r => .error e ⟨r, kernel, trace⟩
  | .more r => tryReceiveOne cfg recvmsg ⟨r, kernel, trace⟩
  | .done r => .ok true ⟨r, kernel, trace⟩

theorem tryReceiveOne_files {s : Rx κ F} (hh : ¬ s.receiver.headerBuffer.length < kHeaderLength)
    (hd : ¬ s.receiver.data.length < s.receiver.header.dataSize) :
    tryReceiveOne cfg recvmsg s =
      if s.receiver.files.length < s.receiver.header.numFiles then tryReceiveFiles recvmsg s else .ok true s := by
  unfold tryReceiveOne
  rw [if_neg hh, andThen, if_neg hd]
  rfl

theorem tryReceiveOne_data {s : Rx κ F} (hh : ¬ s.receiver.headerBuffer.length < kHeaderLength)
    (hd : s.receiver.data.length < s.receiver.header.dataSize) :
    tryReceiveOne cfg recvmsg s = andThen (tryReceiveData recvmsg s) fun s =>
      if s.receiver.files.length < s.receiver.header.numFiles then tryReceiveFiles recvmsg s else .ok true s := by
  unfold tryReceiveOne
  rw [if_neg hh, andThen, if_pos hd]

theorem resume_goOn {r : Receiver F} (hh : ¬ r.headerBuffer.length < kHeaderLength) (k : κ) (tr : List (Event F)) :
    r.goOn.resume cfg recvmsg k tr = tryReceiveOne cfg recvmsg ⟨r, k, tr⟩ := by
  unfold Receiver.goOn
  split_ifs with h
  · rfl
  · rw [not_or] at h
    rw [tryReceiveOne_files cfg recvmsg hh h.1, if_neg h.2]
    rfl

/-- The kernel and the trace after a call. -/
def Rx.called (s : Rx κ F) : κ × List (Event F) :=
  ((recvmsg s.kernel s.receiver.want).2,
    s.trace ++ [.recvmsg s.receiver (recvmsg s.kernel s.receiver.want).1])

/-- The three places that call `recvmsg` differ in the number of bytes they ask for and in
what they do with what they get. -/
theorem absorb_resume (s : Rx κ F) :
    (s.receiver.absorb cfg (recvmsg s.kernel s.receiver.want).1).resume cfg recvmsg (s.called recvmsg).1
        (s.called recvmsg).2 =
      match callRecvMsg recvmsg s.receiver.want s with
      | .error e s => .error e s
      | .ok none s => .ok false s
      | .ok (some bytes) s => (s.receiver.take cfg bytes).resume cfg recvmsg s.kernel s.trace := by
  unfold callRecvMsg Receiver.absorb Rx.called
  match recvmsg s.kernel s.receiver.want with
  | (.wouldBlock, k) => rfl
  | (.failed errno, k) => rfl
  | (.received bytes flags control, k) =>
    by_cases hf : flags = MSG_CTRUNC
    · simp only [hf, if_true]; rfl
    · simp only [hf, if_false]
      cases processReceivedControlData s.receiver.files control <;> rfl

/-- A call by itself touches only the files. -/
theorem callRecvMsg_some {len : ℕ} {s s' : Rx κ F} {bytes : Bytes} (h : callRecvMsg recvmsg len s = .ok (some bytes) s') :
    ∃ files, s'.receiver = { s.receiver with files } := by
  unfold callRecvMsg at h
  match hr : recvmsg s.kernel len with
  | (.wouldBlock, k) => simp [hr] at h
  | (.failed errno, k) => simp [hr] at h
  | (.received b flags control, k) =>
    simp only [hr] at h
    split_ifs at h
    cases hp : processReceivedControlData s.receiver.files control with
    | error e => simp [hp] at h
    | ok files =>
      simp only [hp, EStateM.Result.ok.injEq] at h
      exact ⟨files, by rw [← h.2]⟩

/-- The files of a message, after a call. -/
theorem resume_takeFiles (s : Rx κ F) (bytes : Bytes) :
    (s.receiver.takeFiles bytes).resume cfg recvmsg s.kernel s.trace =
      if bytes.isEmpty then .error .closedInFiles s
      else if s.receiver.header.numFiles < s.receiver.files.length then
        .error (.moreFilesThanIndicated s.receiver.files.length s.receiver.header.numFiles) s
      else .ok (decide (s.receiver.files.length = s.receiver.header.numFiles)) s := by
  unfold Receiver.takeFiles
  split_ifs with h1 h2 h3
  · rfl
  · rfl
  · rw [decide_eq_true h3]; rfl
  · rw [decide_eq_false h3]; rfl

/-- The data of a message, after a call. -/
theorem resume_takeData {s : Rx κ F} (hh : ¬ s.receiver.headerBuffer.length < kHeaderLength)
    (hd : s.receiver.data.length < s.receiver.header.dataSize) (bytes : Bytes) :
    (s.receiver.takeData bytes).resume cfg recvmsg s.kernel s.trace =
      andThen
        (if bytes.isEmpty then .error .closedInMessage s
          else
            .ok (decide (bytes.length = s.receiver.header.dataSize - s.receiver.data.length))
              { s with receiver := { s.receiver with data := s.receiver.data ++ bytes } }) fun s =>
      if s.receiver.files.length < s.receiver.header.numFiles then tryReceiveFiles recvmsg s else .ok true s := by
  unfold Receiver.takeData
  split_ifs with h1 h2
  · rfl
  · -- the data is complete
    have hall : ¬ (s.receiver.data ++ bytes).length < s.receiver.header.dataSize := by
      rw [List.length_append]; omega
    rw [decide_eq_true h2]
    refine (resume_goOn cfg recvmsg ?_ _ _).trans (tryReceiveOne_files cfg recvmsg ?_ hall)
    · exact hh
    · exact hh
  · rw [decide_eq_false h2]; rfl

/-- The checks of a whole header. -/
theorem resume_acceptHeader {r : Receiver F} (hh : ¬ r.headerBuffer.length < kHeaderLength) (k : κ)
    (tr : List (Event F)) :
    (r.acceptHeader cfg).resume cfg recvmsg k tr =
      andThen (checkHeader cfg ⟨r, k, tr⟩) (tryReceiveOne cfg recvmsg) := by
  unfold Receiver.acceptHeader checkHeader
  dsimp only
  split_ifs
  · rfl
  · rfl
  · rfl
  · apply resume_goOn
    exact hh
  · apply resume_goOn
    exact hh

/-- The header of a message, after a call. -/
theorem resume_takeHeader (s : Rx κ F) (bytes : Bytes) :
    (s.receiver.takeHeader cfg bytes).resume cfg recvmsg s.kernel s.trace =
      andThen
        (andThen
          (if bytes.isEmpty then
            if s.receiver.headerBuffer.isEmpty then .ok false (s.emit .eofReceived) else .error .closedInHeader s
          else
            .ok (decide ((s.receiver.headerBuffer ++ bytes).length = kHeaderLength))
              { s with receiver := { s.receiver with headerBuffer := s.receiver.headerBuffer ++ bytes } })
          (checkHeader cfg)) (tryReceiveOne cfg recvmsg) := by
  unfold Receiver.takeHeader
  by_cases hb : bytes.isEmpty
  · simp only [hb, if_true]
    split_ifs <;> rfl
  · by_cases hl : (s.receiver.headerBuffer ++ bytes).length = kHeaderLength
    · -- the header is complete
      have hh : ¬ (s.receiver.headerBuffer ++ bytes).length < kHeaderLength := by omega
      simp only [hb, hl, if_true, decide_true]
      exact resume_acceptHeader cfg recvmsg hh _ _
    · simp only [hb, hl, decide_false]
      rfl

theorem andThen_congr {r : EStateM.Result RecvError (Rx κ F) Bool}
    {f g : Rx κ F → EStateM.Result RecvError (Rx κ F) Bool} (h : ∀ s, r = .ok true s → f s = g s) :
    andThen r f = andThen r g := by
  match r with
  | .ok true s => exact h s rfl
  | .ok false s => rfl
  | .error e s => rfl

theorem andThen_eq_true {r : EStateM.Result RecvError (Rx κ F) Bool}
    {f : Rx κ F → EStateM.Result RecvError (Rx κ F) Bool} {s' : Rx κ F} (h : andThen r f = .ok true s') :
    ∃ s, r = .ok true s ∧ f s = .ok true s' := by
  match r with
  | .ok true s => exact ⟨s, rfl, h⟩
  | .ok false s => simp [andThen] at h
  | .error e s => simp [andThen] at h

theorem tryReceiveHeader_true {s s' : Rx κ F} (h : tryReceiveHeader recvmsg s = .ok true s') :
    s'.receiver.headerBuffer.length = kHeaderLength := by
  unfold tryReceiveHeader at h
  split at h
  · cases h
  · cases h
  · split_ifs at h
    · cases h
    · simp only [EStateM.Result.ok.injEq, decide_eq_true_eq] at h
      rw [← h.2]
      exact h.1

theorem checkHeader_true {s s' : Rx κ F} (h : checkHeader cfg s = .ok true s') :
    s'.receiver.headerBuffer = s.receiver.headerBuffer := by
  unfold checkHeader at h
  dsimp only at h
  split_ifs at h
  · simp only [EStateM.Result.ok.injEq, true_and] at h
    rw [← h]
  · simp only [EStateM.Result.ok.injEq, true_and] at h
    rw [← h]

/-- `tryReceiveOne` at the start of a message: behind the header it goes on as it does when
it is called again. -/
theorem tryReceiveOne_header {s : Rx κ F} (hh : s.receiver.headerBuffer.length < kHeaderLength) :
    tryReceiveOne cfg recvmsg s =
      andThen (andThen (tryReceiveHeader recvmsg s) (checkHeader cfg)) (tryReceiveOne cfg recvmsg) := by
  rw [tryReceiveOne, if_pos hh]
  apply andThen_congr
  intro s' hs'
  obtain ⟨s₁, h1, h2⟩ := andThen_eq_true hs'
  have hlen : ¬ s'.receiver.headerBuffer.length < kHeaderLength := by
    rw [checkHeader_true cfg h2, tryReceiveHeader_true recvmsg h1]
    exact lt_irrefl _
  rw [tryReceiveOne, if_neg hlen]
  rfl

/-- **`tryReceiveOne` makes one step, and goes on as after that step.** -/
theorem tryReceiveOne_eq {s : Rx κ F} (h : ¬ s.receiver.Complete) :
    tryReceiveOne cfg recvmsg s =
      (s.receiver.absorb cfg (recvmsg s.kernel s.receiver.want).1).resume cfg recvmsg (s.called recvmsg).1
        (s.called recvmsg).2 := by
  rw [absorb_resume]
  by_cases hh : s.receiver.headerBuffer.length < kHeaderLength
  · have hw : s.receiver.want = kHeaderLength - s.receiver.headerBuffer.length := if_pos hh
    rw [hw, tryReceiveOne_header cfg recvmsg hh, tryReceiveHeader]
    match hc : callRecvMsg recvmsg (kHeaderLength - s.receiver.headerBuffer.length) s with
    | .error e s' => rfl
    | .ok none s' => rfl
    | .ok (some bytes) s' =>
      obtain ⟨files, hr⟩ := callRecvMsg_some recvmsg hc
      have hh' : s'.receiver.headerBuffer.length < kHeaderLength := by rw [hr]; exact hh
      simp only [Receiver.take, if_pos hh', resume_takeHeader]
  · by_cases hd : s.receiver.data.length < s.receiver.header.dataSize
    · have hw : s.receiver.want = s.receiver.header.dataSize - s.receiver.data.length := by
        rw [Receiver.want, if_neg hh, if_pos hd]
      rw [tryReceiveOne_data cfg recvmsg hh hd, hw, tryReceiveData]
      match hc : callRecvMsg recvmsg (s.receiver.header.dataSize - s.receiver.data.length) s with
      | .error e s' => rfl
      | .ok none s' => rfl
      | .ok (some bytes) s' =>
        obtain ⟨files, hr⟩ := callRecvMsg_some recvmsg hc
        have hh' : ¬ s'.receiver.headerBuffer.length < kHeaderLength := by rw [hr]; exact hh
        have hd' : s'.receiver.data.length < s'.receiver.header.dataSize := by rw [hr]; exact hd
        simp only [Receiver.take, if_neg hh', if_pos hd', resume_takeData cfg recvmsg hh' hd']
        rw [show s'.receiver.header.dataSize - s'.receiver.data.length =
          s.receiver.header.dataSize - s.receiver.data.length by rw [hr]]
    · have hw : s.receiver.want = 1 := by rw [Receiver.want, if_neg hh, if_neg hd]
      have hf : s.receiver.files.length < s.receiver.header.numFiles := by
        by_contra hf
        exact h ⟨not_lt.1 hh, not_lt.1 hd, not_lt.1 hf⟩
      rw [tryReceiveOne_files cfg recvmsg hh hd, if_pos hf, hw, tryReceiveFiles]
      match hc : callRecvMsg recvmsg 1 s with
      | .error e s' => rfl
      | .ok none s' => rfl
      | .ok (some bytes) s' =>
        obtain ⟨files, hr⟩ := callRecvMsg_some recvmsg hc
        have hh' : ¬ s'.receiver.headerBuffer.length < kHeaderLength := by rw [hr]; exact hh
        have hd' : ¬ s'.receiver.data.length < s'.receiver.header.dataSize := by rw [hr]; exact hd
        simp only [Receiver.take, if_neg hh', if_neg hd', resume_takeFiles]

/-! ### Runs -/

/-- The state after a step; a complete message is handed over. -/
def Progress.settle (kernel : κ) (trace : List (Event F)) : Progress F → EStateM.Result RecvError (Rx κ F) Unit
  | .wait r => .ok () ⟨r, kernel, trace⟩
  | .eof r => .ok () ⟨r, kernel, trace ++ [.eofReceived]⟩
  | .fail e r => .error e ⟨r, kernel, trace⟩
  | .more r => .ok () ⟨r, kernel, trace⟩
  | .done r => .ok () (deliver ⟨r, kernel, trace⟩)

/-- One step of the receiving end. -/
def Rx.step (s : Rx κ F) : EStateM.Result RecvError (Rx κ F) Unit :=
  (s.receiver.absorb cfg (recvmsg s.kernel s.receiver.want).1).settle (s.called recvmsg).1 (s.called recvmsg).2

/-- `J` holds after a return and `E` after an exception. -/
def Post {α : Type} (J : Rx κ F → Prop) (E : RecvError → Rx κ F → Prop) :
    EStateM.Result RecvError (Rx κ F) α → Prop
  | .ok _ s => J s
  | .error e s => E e s

namespace Receiver

/-- Header, data and files are received in this order. -/
def phase (r : Receiver F) : ℕ :=
  if r.headerBuffer.length < kHeaderLength then 2 else if r.data.length < r.header.dataSize then 1 else 0

variable {r r' : Receiver F}

theorem goOn_more (h : r.goOn = .more r') : r' = r := by
  unfold goOn at h
  split_ifs at h
  exact (Progress.more.inj h).symm

theorem phase_lt_two (h : ¬ r.headerBuffer.length < kHeaderLength) : r.phase < 2 := by
  unfold phase
  rw [if_neg h]
  split_ifs <;> omega

/-- A call is only made at once after another one when a phase has ended. -/
theorem phase_lt_of_take_more {bytes : Bytes} (h : r.take cfg bytes = .more r') : r'.phase < r.phase := by
  unfold take at h
  split_ifs at h with hh hd
  · -- the header is complete, and its bytes are kept
    have htwo : r.phase = 2 := if_pos hh
    unfold takeHeader at h
    dsimp only at h
    split_ifs at h with h1 h2 h3
    have hlen : r'.headerBuffer.length = kHeaderLength := by
      unfold acceptHeader at h
      dsimp only at h
      split_ifs at h
      · rw [goOn_more h]; exact h3
      · rw [goOn_more h]; exact h3
    rw [htwo]
    exact phase_lt_two (by rw [hlen]; exact lt_irrefl _)
  · -- the data is complete
    have hone : r.phase = 1 := by rw [phase, if_neg hh, if_pos hd]
    unfold takeData at h
    dsimp only at h
    split_ifs at h with h1 h2
    obtain rfl := goOn_more h
    have hall : ¬ (r.data ++ bytes).length < r.header.dataSize := by rw [List.length_append]; omega
    rw [hone, phase, if_neg hh, if_neg hall]
    exact Nat.zero_lt_one
  · unfold takeFiles at h
    split_ifs at h

theorem phase_lt_of_absorb_more {o : RecvOutcome F} (h : r.absorb cfg o = .more r') : r'.phase < r.phase := by
  match o with
  | .wouldBlock => simp [absorb] at h
  | .failed errno => simp [absorb] at h
  | .received bytes flags control =>
    simp only [absorb] at h
    split_ifs at h
    cases hp : processReceivedControlData r.files control with
    | error e => simp [hp] at h
    | ok files =>
      simp only [hp] at h
      have hlt := phase_lt_of_take_more cfg h
      exact hlt

end Receiver

section Rule

variable {cfg recvmsg} {J : Rx κ F → Prop} {E : RecvError → Rx κ F → Prop}

/-- The result of `tryReceiveOne`, with a complete message handed over. -/
theorem tryReceiveOne_post (hJ : ∀ s, J s → ¬ s.receiver.Complete ∧ Post J E (s.step cfg recvmsg)) (s : Rx κ F)
    (hc : ¬ s.receiver.Complete) (h0 : Post J E (s.step cfg recvmsg)) :
    match tryReceiveOne cfg recvmsg s with
    | .ok false s' => J s'
    | .ok true s' => J (deliver s')
    | .error e s' => E e s' := by
  -- the induction is on the phase, as another call is only made in a later one
  induction hn : s.receiver.phase using Nat.strong_induction_on generalizing s with
  | _ n ih =>
    rw [tryReceiveOne_eq cfg recvmsg hc]
    unfold Rx.step at h0
    match hp : s.receiver.absorb cfg (recvmsg s.kernel s.receiver.want).1 with
    | .wait r => rw [hp] at h0; exact h0
    | .eof r => rw [hp] at h0; exact h0
    | .fail e r => rw [hp] at h0; exact h0
    | .done r => rw [hp] at h0; exact h0
    | .more r =>
      rw [hp] at h0
      have hlt : r.phase < n := by
        rw [← hn]
        exact Receiver.phase_lt_of_absorb_more cfg hp
      obtain ⟨hc', h0'⟩ := hJ _ h0
      exact ih r.phase hlt _ hc' h0' rfl

theorem tryReceiveLoop_succ_post {n : ℕ} {s : Rx κ F}
    (hJ : ∀ s, J s → ¬ s.receiver.Complete ∧ Post J E (s.step cfg recvmsg)) (hc : ¬ s.receiver.Complete)
    (h0 : Post J E (s.step cfg recvmsg)) (hnext : ∀ s', J s' → Post J E (tryReceiveLoop cfg recvmsg n s')) :
    Post J E (tryReceiveLoop cfg recvmsg (n + 1) s) := by
  have hone := tryReceiveOne_post hJ s hc h0
  rw [tryReceiveLoop]
  match hr : tryReceiveOne cfg recvmsg s with
  | .ok false s' => rw [hr] at hone; exact hone
  | .ok true s' => rw [hr] at hone; exact hnext _ hone
  | .error e s' => rw [hr] at hone; exact hone

/-- **What holds after the first step and is kept by every further one holds after the
loop of `tryReceive`.** -/
theorem tryReceiveLoop_post (hJ : ∀ s, J s → ¬ s.receiver.Complete ∧ Post J E (s.step cfg recvmsg)) (n : ℕ)
    (s : Rx κ F) (hc : ¬ s.receiver.Complete) (h0 : Post J E (s.step cfg recvmsg)) :
    Post J E (tryReceiveLoop cfg recvmsg (n + 1) s) := by
  induction n generalizing s with
  | zero =>
    apply tryReceiveLoop_succ_post hJ hc h0
    intro s' hs'
    exact hs'
  | succ n ih =>
    apply tryReceiveLoop_succ_post hJ hc h0
    intro s' hs'
    obtain ⟨hc', h0'⟩ := hJ s' hs'
    exact ih s' hc' h0'

theorem tryReceive_post (hJ : ∀ s, J s → ¬ s.receiver.Complete ∧ Post J E (s.step cfg recvmsg)) (s : Rx κ F)
    (hc : ¬ s.receiver.Complete) (h0 : Post J E (s.step cfg recvmsg)) : Post J E (tryReceive cfg recvmsg s) :=
  tryReceiveLoop_post hJ 9 s hc h0

end Rule

end EdenCommon
