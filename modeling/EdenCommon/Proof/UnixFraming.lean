import EdenCommon.Lib.Run
import EdenCommon.Proof.UnixSend
import EdenCommon.Proof.UnixReceive

/-!
# Framing round trip

The receiver's position in the stream is a number `c` of cells of the message it is
receiving: `Receiver.At m c` says that the receive state is the one after the first `c`
cells of the wire form of `m`, in whichever calls they came. A step moves the position
(`absorb_at`), and no call crosses the end of a message.

Together with the sender's side, which only ever moves the wire forms of the messages
sent to the stream, this is an invariant of the whole connection (`Connection.Inv`).

* `Connection.run_inv`: every run keeps it, whatever the calls transfer.
* `Connection.run_fair`: a round in which both ends have a call that does not return
  `EAGAIN` leaves less to do.
* `framing_round_trip`: **what is sent is what is handed over.**
-/

namespace EdenCommon

open Lib

variable {F : Type} {cfg : SocketConfig} {m : Message F}

/-! ### The wire form by position -/

/-- The bytes of a message on the wire. -/
theorem wireOf_bytes (m : Message F) :
    m.wireOf.map Prod.fst =
      m.headerBytes ++ (m.bytes ++ (extraCells (m.files.drop kMaxFDs)).map Prod.fst) := by
  rw [Message.wireOf, List.map_append, map_fst_attach, List.append_assoc]

/-- The descriptors of the first `c` cells. -/
theorem wireOf_take_files (m : Message F) {c : ℕ} (hc : 0 < c) :
    (m.wireOf.take c).flatMap Prod.snd =
      m.files.take (kMaxFDs + (c - (kHeaderLength + m.bytes.length)) * kMaxFDs) := by
  have hne : (m.headerBytes ++ m.bytes).take c ≠ [] := by
    apply List.ne_nil_of_length_pos
    rw [List.length_take, List.length_append, length_headerBytes, kHeaderLength]
    omega
  rw [Message.wireOf, List.take_append, List.flatMap_append, attach_take, attach_files _ hne, length_attach,
    extraCells_take_files, List.length_append, length_headerBytes, ← List.take_add]

/-- Its descriptors. -/
theorem wireOf_files (m : Message F) : m.wireOf.flatMap Prod.snd = m.files := by
  have hlen := length_wireOf m
  have hall := lt_length_extraCells (extraCells (m.files.drop kMaxFDs)).length (m.files.drop kMaxFDs)
  have hpos : 0 < m.wireOf.length := List.length_pos_iff.2 (wireOf_ne_nil m)
  have htake := wireOf_take_files m hpos
  rw [List.take_length] at htake
  rw [htake]
  apply List.take_of_length_le
  rw [hlen, Nat.add_sub_cancel_left]
  rw [List.length_drop] at hall
  omega

/-- The cells up to position `c` carry all descriptors exactly when `c` is the end. -/
theorem wireOf_files_lt_iff (m : Message F) {c : ℕ} (hc : kHeaderLength + m.bytes.length ≤ c) :
    ((m.wireOf.take c).flatMap Prod.snd).length < m.files.length ↔ c < m.wireOf.length := by
  have hpos : 0 < c := lt_of_lt_of_le (by rw [kHeaderLength]; omega) hc
  have hcells := lt_length_extraCells (c - (kHeaderLength + m.bytes.length)) (m.files.drop kMaxFDs)
  rw [List.length_drop] at hcells
  rw [wireOf_take_files m hpos, List.length_take, length_wireOf]
  omega

/-- The bytes of a read inside the header. -/
theorem wireOf_read_header (m : Message F) {c g : ℕ} (h : c + g ≤ kHeaderLength) :
    m.headerBytes.take c ++ ((m.wireOf.drop c).take g).map Prod.fst = m.headerBytes.take (c + g) := by
  have hc : c ≤ m.headerBytes.length := by rw [length_headerBytes]; omega
  have hg : g ≤ (m.headerBytes.drop c).length := by rw [List.length_drop, length_headerBytes]; omega
  rw [List.map_take, List.map_drop, wireOf_bytes, List.drop_append_of_le_length hc,
    List.take_append_of_le_length hg, ← List.take_add]

/-- The bytes of a read inside the data. -/
theorem wireOf_read_data (m : Message F) {c g : ℕ} (hc : kHeaderLength ≤ c)
    (h : c + g ≤ kHeaderLength + m.bytes.length) :
    m.bytes.take (c - kHeaderLength) ++ ((m.wireOf.drop c).take g).map Prod.fst =
      m.bytes.take (c + g - kHeaderLength) := by
  have hdrop : (m.wireOf.map Prod.fst).drop c =
      m.bytes.drop (c - kHeaderLength) ++ (extraCells (m.files.drop kMaxFDs)).map Prod.fst := by
    rw [wireOf_bytes, List.drop_append, List.drop_of_length_le (by rw [length_headerBytes]; exact hc),
      length_headerBytes, List.nil_append, List.drop_append_of_le_length (by omega)]
  have hg : g ≤ (m.bytes.drop (c - kHeaderLength)).length := by rw [List.length_drop]; omega
  rw [List.map_take, List.map_drop, hdrop, List.take_append_of_le_length hg, ← List.take_add]
  congr 1
  omega

/-! ### The position of the receiver -/

/-- The receive state after the first `c` cells of the message `m`. -/
structure Receiver.At (m : Message F) (c : ℕ) (r : Receiver F) : Prop where
  headerBuffer_eq : r.headerBuffer = m.headerBytes.take c
  header_eq : kHeaderLength ≤ c → r.header = m.header
  data_eq : r.data = m.bytes.take (c - kHeaderLength)
  files_eq : r.files = (m.wireOf.take c).flatMap Prod.snd

namespace Receiver.At

variable {c : ℕ} {r : Receiver F}

/-- The header that has been read so far. -/
theorem length_headerBuffer (h : r.At m c) : r.headerBuffer.length = min c kHeaderLength := by
  rw [h.headerBuffer_eq, List.length_take, length_headerBytes]

/-- The data that has been read so far. -/
theorem length_data (h : r.At m c) : r.data.length = min (c - kHeaderLength) m.bytes.length := by
  rw [h.data_eq, List.length_take]

/-- Behind the header, something is missing exactly in front of the end. -/
theorem missing_iff (h : r.At m c) (hc : kHeaderLength ≤ c) :
    (r.data.length < r.header.dataSize ∨ r.files.length < r.header.numFiles) ↔ c < m.wireOf.length := by
  have hwire := length_wireOf m
  have hdata := h.length_data
  rw [h.header_eq hc, h.files_eq]
  change (r.data.length < m.bytes.length ∨ _ < m.files.length) ↔ _
  by_cases hd : kHeaderLength + m.bytes.length ≤ c
  · rw [wireOf_files_lt_iff m hd]
    omega
  · omega

/-- A message is not complete before its last cell. -/
theorem not_complete (h : r.At m c) (hc : c < m.wireOf.length) : ¬ r.Complete := by
  intro hcomp
  have hlen := h.length_headerBuffer
  have hh := hcomp.1
  have hmiss := (h.missing_iff (by omega)).2 hc
  have := hcomp.2
  omega

/-- A call never asks for more than the rest of the message. -/
theorem want_le (h : r.At m c) (hc : c < m.wireOf.length) : c + r.want ≤ m.wireOf.length := by
  have hwire := length_wireOf m
  have hh := h.length_headerBuffer
  have hd := h.length_data
  unfold Receiver.want
  split_ifs with h1 h2
  · omega
  · rw [h.header_eq (by omega)] at h2 ⊢
    change r.data.length < m.bytes.length at h2
    change c + (m.bytes.length - r.data.length) ≤ _
    omega
  · omega

/-- At the end the receiver has the whole message. -/
theorem content (h : r.At m m.wireOf.length) : (r.data, r.files) = m.content := by
  have hwire := length_wireOf m
  have hdata : r.data = m.bytes := by rw [h.data_eq, List.take_of_length_le (by omega)]
  have hfiles : r.files = m.files := by rw [h.files_eq, List.take_length, wireOf_files]
  rw [hdata, hfiles]
  rfl

theorem want_pos (r : Receiver F) : 0 < r.want := by
  unfold Receiver.want
  split_ifs <;> omega

end Receiver.At

/-- A step that ends at position `c`: without an exception, and with a message exactly at
the end of the wire form. -/
def Progress.At (m : Message F) (c : ℕ) : Progress F → Prop
  | .wait r => r.At m c ∧ c < m.wireOf.length
  | .more r => r.At m c ∧ c < m.wireOf.length
  | .done r => r.At m c ∧ c = m.wireOf.length
  | .eof _ => False
  | .fail _ _ => False

/-- Behind a complete header the data follows. -/
theorem goOn_at {r : Receiver F} {c : ℕ} (h : r.At m c) (hc : kHeaderLength ≤ c) (hle : c ≤ m.wireOf.length) :
    r.goOn.At m c := by
  unfold Receiver.goOn
  simp only [h.missing_iff hc]
  split_ifs with hlt
  · exact ⟨h, hlt⟩
  · exact ⟨h, by omega⟩

/-- The checks let the header of a message that fits pass. -/
theorem acceptHeader_fits (hfit : m.Fits cfg) {r : Receiver F} (hbuf : r.headerBuffer = m.headerBytes)
    (hdata : r.data = []) : r.acceptHeader cfg = { r with header := m.header }.goOn := by
  have hd : ¬ cfg.maxDataLength < m.header.dataSize := not_lt.2 hfit.data_le
  have hf : ¬ cfg.maxFiles < m.header.numFiles := not_lt.2 hfit.files_le
  have hid : ¬ m.header.protocolID ≠ kProtocolID := not_not.2 rfl
  unfold Receiver.acceptHeader
  simp only [hbuf, deserializeHeader_headerBytes hfit, hid, hd, hf, if_false, ← hdata, ite_self]

theorem processReceivedControlData_controlOf (files : List F) (cells : List (Cell F)) :
    processReceivedControlData files (controlOf cells) = .ok (files ++ cells.flatMap Prod.snd) := by
  unfold controlOf
  by_cases h : cells.flatMap Prod.snd = []
  · simp [h, processReceivedControlData]
  · simp [h, processReceivedControlData]

section Read

/-! A read of `g` cells at position `c`. The descriptors are stored first: `files` are
those of the receive state after that. -/

variable {r : Receiver F} {c g : ℕ} (h : r.At m c) (hg : 0 < g) (hle : c + g ≤ m.wireOf.length)

include hle in
theorem length_read : (((m.wireOf.drop c).take g).map Prod.fst).length = g := by
  rw [List.length_map, List.length_take, List.length_drop]
  omega

include hg hle in
theorem read_isEmpty : (((m.wireOf.drop c).take g).map Prod.fst).isEmpty = false := by
  have hlen := length_read hle
  rw [List.isEmpty_eq_false_iff]
  apply List.ne_nil_of_length_pos
  omega

include h hg hle

/-- **A part of the header**, and -/
theorem takeHeader_at (hfit : m.Fits cfg) (hw : c + g ≤ kHeaderLength) :
    ({ r with files := (m.wireOf.take (c + g)).flatMap Prod.snd }.takeHeader cfg
      (((m.wireOf.drop c).take g).map Prod.fst)).At m (c + g) := by
  have hwire := length_wireOf m
  have hbuf : r.headerBuffer ++ ((m.wireOf.drop c).take g).map Prod.fst = m.headerBytes.take (c + g) := by
    rw [h.headerBuffer_eq, wireOf_read_header m hw]
  have hlen : (m.headerBytes.take (c + g)).length = c + g := by
    rw [List.length_take, length_headerBytes]; omega
  have hdata : r.data = [] := by
    rw [h.data_eq, Nat.sub_eq_zero_of_le (by omega), List.take_zero]
  unfold Receiver.takeHeader
  simp only [read_isEmpty hg hle, Bool.false_eq_true, if_false, hbuf, hlen]
  by_cases hc : c + g = kHeaderLength
  · -- the header is complete, and is the one of the message
    have hall : m.headerBytes.take kHeaderLength = m.headerBytes := by
      rw [← length_headerBytes m, List.take_length]
    have hat : Receiver.At m kHeaderLength
        ⟨m.headerBytes, m.header, [], (m.wireOf.take kHeaderLength).flatMap Prod.snd⟩ :=
      ⟨hall.symm, fun _ => rfl, by simp, rfl⟩
    simp only [hc, if_true, hall, hdata]
    rw [acceptHeader_fits hfit rfl rfl]
    exact goOn_at hat (le_refl _) (hc ▸ hle)
  · simp only [hc, if_false]
    refine ⟨⟨rfl, fun hk => absurd hk (by omega), ?_, rfl⟩, by omega⟩
    rw [Nat.sub_eq_zero_of_le hw, List.take_zero]
    exact hdata

/-- **a part of the data**, and -/
theorem takeData_at (hc : kHeaderLength ≤ c) (hw : c + g ≤ kHeaderLength + m.bytes.length) :
    ({ r with files := (m.wireOf.take (c + g)).flatMap Prod.snd }.takeData
      (((m.wireOf.drop c).take g).map Prod.fst)).At m (c + g) := by
  have hwire := length_wireOf m
  have hlen := length_read hle
  have hdlen := h.length_data
  have hheader := h.header_eq hc
  have hdata : r.data ++ ((m.wireOf.drop c).take g).map Prod.fst = m.bytes.take (c + g - kHeaderLength) := by
    rw [h.data_eq, wireOf_read_data m hc hw]
  have hbuf : r.headerBuffer = m.headerBytes.take (c + g) := by
    rw [h.headerBuffer_eq, List.take_of_length_le (by rw [length_headerBytes]; exact hc),
      List.take_of_length_le (by rw [length_headerBytes]; omega)]
  have hat : Receiver.At m (c + g)
      ⟨r.headerBuffer, r.header, m.bytes.take (c + g - kHeaderLength), (m.wireOf.take (c + g)).flatMap Prod.snd⟩ :=
    ⟨hbuf, fun _ => hheader, rfl, rfl⟩
  unfold Receiver.takeData
  simp only [read_isEmpty hg hle, Bool.false_eq_true, if_false, hlen, hdata]
  split_ifs with hend
  · exact goOn_at hat (by omega) hle
  · refine ⟨hat, ?_⟩
    rw [hheader] at hend
    change ¬ g = m.bytes.length - r.data.length at hend
    omega

/-- **a part of the descriptors** bring the receiver to the next place in the message. -/
theorem takeFiles_at (hc : kHeaderLength + m.bytes.length ≤ c) :
    ({ r with files := (m.wireOf.take (c + g)).flatMap Prod.snd }.takeFiles
      (((m.wireOf.drop c).take g).map Prod.fst)).At m (c + g) := by
  have hheader := h.header_eq (by omega)
  have hmiss := wireOf_files_lt_iff m (show kHeaderLength + m.bytes.length ≤ c + g by omega)
  have hmax : ((m.wireOf.take (c + g)).flatMap Prod.snd).length ≤ m.files.length := by
    rw [wireOf_take_files m (by omega)]
    exact List.length_take_le' _ _
  have hbuf : r.headerBuffer = m.headerBytes.take (c + g) := by
    rw [h.headerBuffer_eq, List.take_of_length_le (by rw [length_headerBytes]; omega),
      List.take_of_length_le (by rw [length_headerBytes]; omega)]
  have hdata : r.data = m.bytes.take (c + g - kHeaderLength) := by
    rw [h.data_eq, List.take_of_length_le (by omega), List.take_of_length_le (by omega)]
  have hat : Receiver.At m (c + g) ⟨r.headerBuffer, r.header, r.data, (m.wireOf.take (c + g)).flatMap Prod.snd⟩ :=
    ⟨hbuf, fun _ => hheader, hdata, rfl⟩
  unfold Receiver.takeFiles
  simp only [read_isEmpty hg hle, Bool.false_eq_true, if_false]
  split_ifs with h2 h3
  · -- the wire form carries no more descriptors than the header says
    rw [hheader] at h2
    exact absurd h2 (not_lt.2 hmax)
  · rw [hheader] at h3
    change _ = m.files.length at h3
    exact ⟨hat, by omega⟩
  · rw [hheader] at h3
    change ¬ _ = m.files.length at h3
    exact ⟨hat, hmiss.1 (by omega)⟩

end Read

/-- **A step moves the position by what it has read.** -/
theorem absorb_at (hfit : m.Fits cfg) {r : Receiver F} {c g : ℕ} (h : r.At m c) (hc : c < m.wireOf.length)
    (hg : 0 < g) (hw : g ≤ r.want) :
    (r.absorb cfg (.received (((m.wireOf.drop c).take g).map Prod.fst) 0
      (controlOf ((m.wireOf.drop c).take g)))).At m (c + g) := by
  have hle : c + g ≤ m.wireOf.length := le_trans (by omega) (h.want_le hc)
  have hh := h.length_headerBuffer
  have hd := h.length_data
  have hfiles : r.files ++ ((m.wireOf.drop c).take g).flatMap Prod.snd = (m.wireOf.take (c + g)).flatMap Prod.snd := by
    rw [h.files_eq, ← List.flatMap_append, ← List.take_add]
  have hflags : ¬ (0 : ℕ) = MSG_CTRUNC := by decide
  simp only [Receiver.absorb, hflags, if_false, processReceivedControlData_controlOf, hfiles, Receiver.take]
  -- the call asked for the part of the message that `take` now adds to
  unfold Receiver.want at hw
  split_ifs at hw ⊢ with h1 h2
  · exact takeHeader_at h hg hle hfit (by omega)
  · have hk : kHeaderLength ≤ c := by omega
    rw [h.header_eq hk] at hw h2
    change g ≤ m.bytes.length - r.data.length at hw
    change r.data.length < m.bytes.length at h2
    exact takeData_at h hg hle hk (by omega)
  · have hk : kHeaderLength ≤ c := by omega
    rw [h.header_eq hk] at h2
    change ¬ r.data.length < m.bytes.length at h2
    exact takeFiles_at h hg hle (by omega)

/-! ### Reading from the stream -/

theorem oneLot_prefix (seen : Bool) (cells : List (Cell F)) : oneLot seen cells <+: cells := by
  induction cells generalizing seen with
  | nil => exact List.prefix_refl []
  | cons c cells ih =>
    rw [oneLot]
    split_ifs
    · exact List.cons_prefix_cons.2 ⟨rfl, ih seen⟩
    · exact List.nil_prefix
    · exact List.cons_prefix_cons.2 ⟨rfl, ih true⟩

theorem oneLot_eq_nil {cells : List (Cell F)} : oneLot false cells = [] ↔ cells = [] := by
  cases cells with
  | nil => simp [oneLot]
  | cons c cells => by_cases h : c.2 = [] <;> simp [oneLot, h]

/-- A call reads some of the cells in front, or returns `EAGAIN`. -/
theorem streamRecvmsg_spec (s : Stream F) {len : ℕ} (hlen : 0 < len) :
    (¬ (Ready s.choices ∧ s.cells ≠ []) ∧
        ∃ s', streamRecvmsg s len = (.wouldBlock, s') ∧ s'.cells = s.cells) ∨
      ∃ g s', streamRecvmsg s len =
          (.received ((s.cells.take g).map Prod.fst) 0 (controlOf (s.cells.take g)), s') ∧
        0 < g ∧ g ≤ len ∧ g ≤ s.cells.length ∧ s'.cells = s.cells.drop g := by
  unfold streamRecvmsg
  match h : s.choices with
  | [] => exact .inl ⟨by simp [Ready], s, rfl, rfl⟩
  | none :: rest => exact .inl ⟨by simp [Ready], _, rfl, rfl⟩
  | some n :: rest =>
    have hpre := oneLot_prefix false (s.cells.take (min (max 1 n) len))
    have hnil := @oneLot_eq_nil F (s.cells.take (min (max 1 n) len))
    by_cases hgot : oneLot false (s.cells.take (min (max 1 n) len)) = []
    · -- at least one cell is asked for, so none is there
      left
      have hcells : s.cells = [] := by
        rcases List.take_eq_nil_iff.1 (hnil.1 hgot) with h0 | h0
        · omega
        · exact h0
      simp only [hgot, List.isEmpty_nil, if_true]
      exact ⟨fun hr => hr.2 hcells, _, rfl, rfl⟩
    · right
      have hpos : 0 < (oneLot false (s.cells.take (min (max 1 n) len))).length := List.length_pos_iff.2 hgot
      have hle := hpre.length_le
      rw [List.length_take] at hle
      have htake : s.cells.take (oneLot false (s.cells.take (min (max 1 n) len))).length =
          oneLot false (s.cells.take (min (max 1 n) len)) :=
        (List.prefix_iff_eq_take.1 (hpre.trans (List.take_prefix _ _))).symm
      have hne : (oneLot false (s.cells.take (min (max 1 n) len))).isEmpty = false := by simpa using hgot
      refine ⟨_, ⟨s.cells.drop _, rest⟩, ?_, hpos, by omega, by omega, rfl⟩
      simp only [htake, hne]
      rfl

/-! ### The receiving end of a connection -/

/-- The receiver is in step with the stream: `stream` is what is left of the wire forms of
the messages `todo`, from the receiver's position on. -/
def Synced (r : Receiver F) (stream : List (Cell F)) : List (Message F) → Prop
  | [] => stream = [] ∧ r.headerBuffer = [] ∧ r.data = [] ∧ r.files = []
  | m :: rest => ∃ c, c < m.wireOf.length ∧ r.At m c ∧
      stream = m.wireOf.drop c ++ rest.flatMap Message.wireOf

/-- Between two messages the receiver is in step. -/
theorem synced_start {r : Receiver F} (hbuf : r.headerBuffer = []) (hdata : r.data = []) (hfiles : r.files = [])
    (todo : List (Message F)) : Synced r (todo.flatMap Message.wireOf) todo := by
  cases todo with
  | nil => exact ⟨rfl, hbuf, hdata, hfiles⟩
  | cons m rest =>
    refine ⟨0, List.length_pos_iff.2 (wireOf_ne_nil m), ⟨by simp [hbuf], ?_, by simp [hdata], by simp [hfiles]⟩, ?_⟩
    · intro h
      exact absurd h (by decide)
    · rw [List.drop_zero, List.flatMap_cons]

/-- A message that is sent is behind the others. -/
theorem Synced.append {r : Receiver F} {stream : List (Cell F)} {todo : List (Message F)} (h : Synced r stream todo)
    (m : Message F) : Synced r (stream ++ m.wireOf) (todo ++ [m]) := by
  cases todo with
  | nil =>
    obtain ⟨rfl, hbuf, hdata, hfiles⟩ := h
    have hs := synced_start hbuf hdata hfiles [m]
    simpa using hs
  | cons m' rest =>
    obtain ⟨c, hc, hat, rfl⟩ := h
    exact ⟨c, hc, hat, by simp⟩

theorem Synced.not_complete {r : Receiver F} {stream : List (Cell F)} {todo : List (Message F)}
    (h : Synced r stream todo) : ¬ r.Complete := by
  cases todo with
  | nil =>
    obtain ⟨-, hbuf, -, -⟩ := h
    intro hc
    have := hc.1
    rw [hbuf] at this
    exact absurd this (by decide)
  | cons m rest =>
    obtain ⟨c, hc, hat, -⟩ := h
    exact hat.not_complete hc

/-- The messages that have been handed over. -/
def delivered (trace : List (Event F)) : List (Bytes × List F) :=
  trace.filterMap fun
    | .messageReceived _ data files => some (data, files)
    | _ => none

/-- Of the messages `sent`, some have been handed over, and the receiver is in step with
what is left, in flight or `pend`ing. -/
def Progressed (sent : List (Message F)) (pend : List (Cell F)) (s : Rx (Stream F) F) : Prop :=
  ∃ done todo, sent = done ++ todo ∧ delivered s.trace = done.map Message.content ∧
    Synced s.receiver (s.kernel.cells ++ pend) todo

/-- A step that ends at position `c` of `m`, with the rest of the stream behind it. -/
theorem settle_progressed {sent done rest : List (Message F)} {pend : List (Cell F)} {p : Progress F} {c : ℕ}
    {k : Stream F} {tr : List (Event F)} (hp : p.At m c) (hsent : sent = done ++ m :: rest)
    (hdel : delivered tr = done.map Message.content)
    (hrest : k.cells ++ pend = m.wireOf.drop c ++ rest.flatMap Message.wireOf) :
    ∃ s', p.settle k tr = .ok () s' ∧ Progressed sent pend s' ∧ s'.kernel = k := by
  match p with
  | .eof r => exact absurd hp id
  | .fail e r => exact absurd hp id
  | .wait r => exact ⟨_, rfl, ⟨done, m :: rest, hsent, hdel, c, hp.2, hp.1, hrest⟩, rfl⟩
  | .more r => exact ⟨_, rfl, ⟨done, m :: rest, hsent, hdel, c, hp.2, hp.1, hrest⟩, rfl⟩
  | .done r =>
    -- the message is complete, and the receiver is in front of the next one
    obtain ⟨hat, rfl⟩ := hp
    refine ⟨_, rfl, ⟨done ++ [m], rest, by simp [hsent], ?_, ?_⟩, rfl⟩
    · have hone : (r.data, r.files) = m.content := hat.content
      rw [List.map_append, ← hdel]
      simp [deliver, delivered, ← hone]
    · rw [List.drop_length, List.nil_append] at hrest
      have hstart := synced_start (r := { r with headerBuffer := [], data := [], files := [] }) rfl rfl rfl rest
      rw [← hrest] at hstart
      exact hstart

/-- **A step of the receiver keeps it in step with the stream.** It does not throw, and
reads a cell if there is one and the call does not return `EAGAIN`. -/
theorem rx_step {sent : List (Message F)} {pend : List (Cell F)} (hfit : ∀ m ∈ sent, m.Fits cfg)
    {s : Rx (Stream F) F} (h : Progressed sent pend s) :
    ∃ s', s.step cfg streamRecvmsg = .ok () s' ∧ Progressed sent pend s' ∧
      s'.kernel.cells.length ≤ s.kernel.cells.length ∧
      (Ready s.kernel.choices → s.kernel.cells ≠ [] → s'.kernel.cells.length < s.kernel.cells.length) := by
  obtain ⟨done, todo, hsent, hdel, hsync⟩ := h
  have hquiet : ∀ o, delivered (s.trace ++ [.recvmsg s.receiver o]) = done.map Message.content := by
    intro o
    rw [← hdel]
    simp [delivered]
  unfold Rx.step Rx.called
  obtain ⟨hr, k, hk, hc⟩ | ⟨g, k, hk, hg, hw, hle, hc⟩ :=
    streamRecvmsg_spec s.kernel (Receiver.At.want_pos s.receiver)
  · rw [hk]
    refine ⟨_, rfl, ⟨done, todo, hsent, hquiet _, ?_⟩, by rw [hc], fun h1 h2 => absurd ⟨h1, h2⟩ hr⟩
    show Synced s.receiver (k.cells ++ pend) todo
    rwa [hc]
  · cases todo with
    | nil =>
      -- there is nothing to read
      have hnil : s.kernel.cells = [] := (List.append_eq_nil_iff.1 hsync.1).1
      rw [hnil] at hle
      exact absurd hg (not_lt.2 hle)
    | cons m rest =>
      obtain ⟨c, hlt, hat, hstream⟩ := hsync
      have hmax := hat.want_le hlt
      have hgap : g ≤ (m.wireOf.drop c).length := by rw [List.length_drop]; omega
      have hread : s.kernel.cells.take g = (m.wireOf.drop c).take g := by
        have := congrArg (List.take g) hstream
        rwa [List.take_append_of_le_length hle, List.take_append_of_le_length hgap] at this
      have hrest : k.cells ++ pend = m.wireOf.drop (c + g) ++ rest.flatMap Message.wireOf := by
        have := congrArg (List.drop g) hstream
        rwa [List.drop_append_of_le_length hle, List.drop_append_of_le_length hgap, List.drop_drop, ← hc] at this
      have hless : k.cells.length < s.kernel.cells.length := by rw [hc, List.length_drop]; omega
      have hstep := absorb_at (hfit m (by simp [hsent])) hat hlt hg hw
      rw [hk, hread]
      obtain ⟨s', hs', hp', hk'⟩ := settle_progressed hstep hsent (hquiet _) hrest
      rw [← hk'] at hless
      exact ⟨s', hs', hp', hless.le, fun _ _ => hless⟩

/-- `tryReceive` as a whole. -/
theorem tryReceive_stream {sent : List (Message F)} {pend : List (Cell F)} (hfit : ∀ m ∈ sent, m.Fits cfg)
    {s : Rx (Stream F) F} (h : Progressed sent pend s) :
    ∃ s', tryReceive cfg streamRecvmsg s = .ok () s' ∧ Progressed sent pend s' ∧
      s'.kernel.cells.length ≤ s.kernel.cells.length ∧
      (Ready s.kernel.choices → s.kernel.cells ≠ [] → s'.kernel.cells.length < s.kernel.cells.length) := by
  have hnot : ∀ s : Rx (Stream F) F, Progressed sent pend s → ¬ s.receiver.Complete := by
    intro s hs
    obtain ⟨_, _, _, _, hsync⟩ := hs
    exact hsync.not_complete
  obtain ⟨s₁, hs₁, hp₁, hle₁, hlt₁⟩ := rx_step hfit h
  -- the number of cells is at most the one after the first step
  have hpost : Post (fun s' => Progressed sent pend s' ∧ s'.kernel.cells.length ≤ s₁.kernel.cells.length)
      (fun _ _ => False) (tryReceive cfg streamRecvmsg s) := by
    apply tryReceive_post
    · intro s' hs'
      obtain ⟨s'', hs'', hp'', hle'', -⟩ := rx_step hfit hs'.1
      refine ⟨hnot s' hs'.1, ?_⟩
      rw [hs'']
      exact ⟨hp'', hle''.trans hs'.2⟩
    · exact hnot s h
    · rw [hs₁]
      exact ⟨hp₁, le_refl _⟩
  match hr : tryReceive cfg streamRecvmsg s with
  | .ok _ s' =>
    rw [hr] at hpost
    exact ⟨s', rfl, hpost.1, hpost.2.trans hle₁, fun h1 h2 => lt_of_le_of_lt hpost.2 (hlt₁ h1 h2)⟩
  | .error e s' => rw [hr] at hpost; exact absurd hpost id

/-! ### Connections -/

/-- The messages that a run has sent. -/
def sentMessages (ops : List (ConnectionOp F)) : List (Message F) :=
  ops.filterMap fun
    | .send message _ => some message
    | _ => none

theorem sentMessages_append (ops ops' : List (ConnectionOp F)) :
    sentMessages (ops ++ ops') = sentMessages ops ++ sentMessages ops' := List.filterMap_append

def ConnectionOp.isSend : ConnectionOp F → Bool
  | .send _ _ => true
  | _ => false

/-- Events of both ends, no `send` among them, in which each end has a first call that does
not return `EAGAIN`. -/
structure Fair (round : List (ConnectionOp F)) : Prop where
  no_send : ∀ op ∈ round, op.isSend = false
  writable : ∃ choices, Ready choices ∧ .writable choices ∈ round
  readable : ∃ choices, Ready choices ∧ .readable choices ∈ round

namespace Connection

/-- The invariant of a connection that has sent the messages `sent`. -/
structure Inv (sent : List (Message F)) (c : Connection F) : Prop where
  queue_ok : QueueOk c.sendQueue
  progressed : Progressed sent (pending c.sendQueue) ⟨c.receiver, ⟨c.cells, []⟩, c.trace⟩

theorem inv_new : Inv [] (Connection.new : Connection F) where
  queue_ok := by intro e he; cases he
  progressed := ⟨[], [], rfl, rfl, rfl, rfl, rfl, rfl⟩

variable {sent : List (Message F)} {c : Connection F}

/-- **A send** appends to what is to be delivered. -/
theorem step_send (h : Inv sent c) (m : Message F) (choices : List (Option ℕ)) :
    ∃ c', c.step cfg (.send m choices) = some c' ∧ Inv (sent ++ [m]) c' := by
  obtain ⟨q, s, hrun, hq, hcells⟩ := send_stream cfg ⟨c.cells, choices⟩ c.sendQueue h.queue_ok m
  obtain ⟨done, todo, hsent, hdel, hsync⟩ := h.progressed
  refine ⟨{ c with sendQueue := q, cells := s.cells }, by rw [step, hrun]; rfl, hq, done, todo ++ [m], ?_, hdel, ?_⟩
  · rw [hsent, List.append_assoc]
  · have hnext := hsync.append m
    rw [← hcells] at hnext
    exact hnext

/-- **A round of writes** moves cells to the stream. -/
theorem step_writable (h : Inv sent c) (choices : List (Option ℕ)) :
    ∃ c', c.step cfg (.writable choices) = some c' ∧ Inv sent c' ∧
      c'.cells.length + (pending c'.sendQueue).length = c.cells.length + (pending c.sendQueue).length ∧
      (pending c'.sendQueue).length ≤ (pending c.sendQueue).length ∧
      (Ready choices → c.sendQueue ≠ [] → (pending c'.sendQueue).length < (pending c.sendQueue).length) := by
  obtain ⟨q, s, hrun, hm⟩ := trySend_stream cfg ⟨c.cells, choices⟩ c.sendQueue h.queue_ok
  obtain ⟨done, todo, hsent, hdel, hsync⟩ := h.progressed
  have hlen := congrArg List.length hm.cells_eq
  rw [List.length_append, List.length_append] at hlen
  refine ⟨{ c with sendQueue := q, cells := s.cells }, by rw [step, hrun]; rfl,
    ⟨hm.queue_ok, done, todo, hsent, hdel, ?_⟩, hlen, hm.length_le, fun h1 h2 => hm.length_lt ⟨h2, h1⟩⟩
  show Synced c.receiver (s.cells ++ pending q) todo
  rw [hm.cells_eq]
  exact hsync

/-- **A round of reads** takes cells from it. -/
theorem step_readable (hfit : ∀ m ∈ sent, m.Fits cfg) (h : Inv sent c) (choices : List (Option ℕ)) :
    ∃ c', c.step cfg (.readable choices) = some c' ∧ Inv sent c' ∧ c'.sendQueue = c.sendQueue ∧
      c'.cells.length ≤ c.cells.length ∧ (Ready choices → c.cells ≠ [] → c'.cells.length < c.cells.length) := by
  have hp : Progressed sent (pending c.sendQueue) ⟨c.receiver, ⟨c.cells, choices⟩, c.trace⟩ := h.progressed
  obtain ⟨s, hrun, hp', hle, hlt⟩ := tryReceive_stream hfit hp
  exact ⟨{ c with cells := s.kernel.cells, receiver := s.receiver, trace := s.trace }, by rw [step, hrun],
    ⟨h.queue_ok, hp'⟩, rfl, hle, hlt⟩

/-- **Every run keeps the invariant**, and no end throws. -/
theorem run_inv (ops : List (ConnectionOp F)) (hfit : ∀ m ∈ sentMessages ops, m.Fits cfg) :
    ∃ c, run (step cfg) .new ops = some c ∧ Inv (sentMessages ops) c := by
  apply run_history (I := fun ops c => Inv (sentMessages ops) c)
    (G := fun pre op => ∀ m ∈ sentMessages (pre ++ [op]), m.Fits cfg)
  · exact inv_new
  · intro pre op c hi hg
    rw [sentMessages_append] at hg
    rw [sentMessages_append]
    cases op with
    | send m choices => exact step_send hi m choices
    | writable choices =>
      obtain ⟨c', hs, hi', -⟩ := @step_writable F cfg _ c hi choices
      exact ⟨c', hs, by simpa [sentMessages] using hi'⟩
    | readable choices =>
      obtain ⟨c', hs, hi', -⟩ := step_readable (fun m hm => hg m (List.mem_append_left _ hm)) hi choices
      exact ⟨c', hs, by simpa [sentMessages] using hi'⟩
  · intro pre op hp m hm
    obtain ⟨t, ht⟩ := hp
    apply hfit
    rw [← ht, sentMessages_append]
    exact List.mem_append_left _ hm

/-- **Nothing is lost**: with an empty queue and nothing in flight, everything has been
handed over. -/
theorem Inv.delivered_eq (h : Inv sent c) (hq : c.sendQueue = []) (hc : c.cells = []) :
    delivered c.trace = sent.map Message.content := by
  obtain ⟨done, todo, hsent, hdel, hsync⟩ := h.progressed
  have hstream : c.cells ++ pending c.sendQueue = [] := by rw [hq, hc]; rfl
  cases todo with
  | nil =>
    rw [List.append_nil] at hsent
    rw [hsent]
    exact hdel
  | cons m rest =>
    -- a message that is not complete has cells left
    obtain ⟨p, hp, -, heq⟩ := hsync
    have hnil : m.wireOf.drop p = [] := (List.append_eq_nil_iff.1 (heq.symm.trans hstream)).1
    have := List.drop_eq_nil_iff.1 hnil
    omega

/-- What is delivered is a first part of what was sent. -/
theorem Inv.delivered_prefix (h : Inv sent c) : delivered c.trace <+: sent.map Message.content := by
  obtain ⟨done, todo, rfl, hdel, -⟩ := h.progressed
  exact ⟨todo.map Message.content, by rw [List.map_append, ← hdel]⟩

/-! ### Progress -/

/-- Every cell of the queue has two moves left, and every cell in flight one. -/
def work (c : Connection F) : ℕ := 2 * (pending c.sendQueue).length + c.cells.length

/-- Events that changed nothing: no call had room for a cell that was waiting. -/
structure Stalled (round : List (ConnectionOp F)) (c c' : Connection F) : Prop where
  pending_eq : (pending c'.sendQueue).length = (pending c.sendQueue).length
  cells_eq : c'.cells.length = c.cells.length
  writable : ∀ choices, Ready choices → .writable choices ∈ round → (pending c.sendQueue).length = 0
  readable : ∀ choices, Ready choices → .readable choices ∈ round → c.cells.length = 0

theorem Stalled.append {round round' : List (ConnectionOp F)} {c c' c'' : Connection F} (h : Stalled round c c')
    (h' : Stalled round' c' c'') : Stalled (round ++ round') c c'' where
  pending_eq := h'.pending_eq.trans h.pending_eq
  cells_eq := h'.cells_eq.trans h.cells_eq
  writable := by
    intro choices hr hmem
    rcases List.mem_append.1 hmem with hm | hm
    · exact h.writable choices hr hm
    · rw [← h.pending_eq]
      exact h'.writable choices hr hm
  readable := by
    intro choices hr hmem
    rcases List.mem_append.1 hmem with hm | hm
    · exact h.readable choices hr hm
    · rw [← h.cells_eq]
      exact h'.readable choices hr hm

/-- An event other than a `send` moves something or changes nothing. -/
theorem step_event (hfit : ∀ m ∈ sent, m.Fits cfg) (h : Inv sent c) {op : ConnectionOp F} (hop : op.isSend = false) :
    ∃ c', c.step cfg op = some c' ∧ Inv sent c' ∧ (c'.work < c.work ∨ Stalled [op] c c') := by
  match op with
  | .send m choices => exact absurd hop Bool.noConfusion
  | .writable choices =>
    obtain ⟨c', hs, hi, hsum, hle, hlt⟩ := @step_writable F cfg sent c h choices
    have hnil := pending_eq_nil h.queue_ok
    refine ⟨c', hs, hi, ?_⟩
    by_cases heq : (pending c'.sendQueue).length = (pending c.sendQueue).length
    · right
      refine ⟨heq, by omega, ?_, fun ch _ hm => by simp at hm⟩
      intro ch hr hm
      obtain rfl : ch = choices := by simpa using hm
      by_contra hne
      have := hlt hr fun hq => hne (List.length_eq_zero_iff.2 (hnil.2 hq))
      omega
    · left
      unfold work
      omega
  | .readable choices =>
    obtain ⟨c', hs, hi, hq, hle, hlt⟩ := step_readable hfit h choices
    refine ⟨c', hs, hi, ?_⟩
    by_cases heq : c'.cells.length = c.cells.length
    · right
      refine ⟨by rw [hq], heq, fun ch _ hm => by simp at hm, ?_⟩
      intro ch hr hm
      obtain rfl : ch = choices := by simpa using hm
      by_contra hne
      have := hlt hr fun hnil => hne (List.length_eq_zero_iff.2 hnil)
      omega
    · left
      unfold work
      rw [hq]
      omega

theorem Stalled.work_eq {round : List (ConnectionOp F)} {c c' : Connection F} (h : Stalled round c c') :
    c'.work = c.work := by
  unfold work
  rw [h.pending_eq, h.cells_eq]

/-- Rounds without sends keep the invariant, and make progress or are stalled. -/
theorem run_events (hfit : ∀ m ∈ sent, m.Fits cfg) (h : Inv sent c) {round : List (ConnectionOp F)}
    (hround : ∀ op ∈ round, op.isSend = false) :
    ∃ c', run (step cfg) c round = some c' ∧ Inv sent c' ∧ (c'.work < c.work ∨ Stalled round c c') := by
  apply run_history (I := fun round c' => Inv sent c' ∧ (c'.work < c.work ∨ Stalled round c c'))
    (G := fun _ op => op.isSend = false)
  · exact ⟨h, .inr ⟨rfl, rfl, fun _ _ hm => absurd hm List.not_mem_nil, fun _ _ hm => absurd hm List.not_mem_nil⟩⟩
  · intro ops op c₁ hc₁ hop
    obtain ⟨c', hs, hi, hw⟩ := step_event hfit hc₁.1 hop
    refine ⟨c', hs, hi, ?_⟩
    -- work that was done before or is done now stays done
    rcases hc₁.2 with hdone | hst
    · left
      rcases hw with hw | hw
      · omega
      · rw [hw.work_eq]; exact hdone
    · rcases hw with hw | hw
      · left
        rw [hst.work_eq] at hw
        exact hw
      · right
        exact hst.append hw
  · intro pre op hp
    exact hround op (hp.subset (by simp))

/-- A fair round leaves less work. -/
theorem run_fair (hfit : ∀ m ∈ sent, m.Fits cfg) (h : Inv sent c) {round : List (ConnectionOp F)}
    (hround : Fair round) : ∃ c', run (step cfg) c round = some c' ∧ Inv sent c' ∧ c'.work ≤ c.work - 1 := by
  obtain ⟨c', hrun, hi, hw⟩ := run_events hfit h hround.no_send
  refine ⟨c', hrun, hi, ?_⟩
  rcases hw with hw | hw
  · omega
  · -- a fair round that changes nothing has nothing to do
    obtain ⟨ch, hr, hm⟩ := hround.writable
    obtain ⟨ch', hr', hm'⟩ := hround.readable
    have hp := hw.writable ch hr hm
    have hc := hw.readable ch' hr' hm'
    have hzero : c.work = 0 := by unfold work; omega
    rw [hw.work_eq, hzero]

/-- **Fair rounds**: each of them makes progress until nothing is left. -/
theorem run_rounds (hfit : ∀ m ∈ sent, m.Fits cfg) (rounds : List (List (ConnectionOp F)))
    (hrounds : ∀ round ∈ rounds, Fair round) (h : Inv sent c) :
    ∃ c', run (step cfg) c rounds.flatten = some c' ∧ Inv sent c' ∧ c'.work ≤ c.work - rounds.length := by
  induction rounds generalizing c with
  | nil => exact ⟨c, rfl, h, le_refl _⟩
  | cons round rounds ih =>
    obtain ⟨c₁, hrun, hi, hw⟩ := run_fair hfit h (hrounds round (by simp))
    obtain ⟨c', hrun', hi', hw'⟩ := ih (fun r hr => hrounds r (List.mem_cons_of_mem _ hr)) hi
    refine ⟨c', ?_, hi', ?_⟩
    · rw [List.flatten_cons, run_append, hrun]
      exact hrun'
    · rw [List.length_cons]
      omega

end Connection

/-- **Framing round trip.** Whatever messages are sent, however the calls of `sendmsg` and
`recvmsg` cut the stream and whichever of them return `EAGAIN`: no end throws, the receiver
hands over the messages in order with their data and files, and all of them once nothing is
left in the queue or in flight. A number of fair rounds is enough for that. -/
theorem framing_round_trip (cfg : SocketConfig) (ops : List (ConnectionOp F))
    (hfit : ∀ m ∈ sentMessages ops, m.Fits cfg) :
    ∃ c, run (Connection.step cfg) .new ops = some c ∧
      delivered c.trace <+: (sentMessages ops).map Message.content ∧
      (c.sendQueue = [] → c.cells = [] → delivered c.trace = (sentMessages ops).map Message.content) ∧
      ∃ k, ∀ rounds : List (List (ConnectionOp F)), (∀ round ∈ rounds, Fair round) → k ≤ rounds.length →
        ∃ c', run (Connection.step cfg) c rounds.flatten = some c' ∧
          delivered c'.trace = (sentMessages ops).map Message.content := by
  obtain ⟨c, hc, hi⟩ := Connection.run_inv ops hfit
  refine ⟨c, hc, hi.delivered_prefix, hi.delivered_eq, c.work, ?_⟩
  intro rounds hfair hlen
  obtain ⟨c', hrun', hi', hw⟩ := Connection.run_rounds hfit rounds hfair hi
  have hzero : 2 * (pending c'.sendQueue).length + c'.cells.length = 0 := by
    unfold Connection.work at hw hlen
    omega
  have hq : c'.sendQueue = [] := (pending_eq_nil hi'.queue_ok).1 (List.length_eq_zero_iff.1 (by omega))
  have hcells : c'.cells = [] := List.length_eq_zero_iff.1 (by omega)
  exact ⟨c', hrun', hi'.delivered_eq hq hcells⟩

/-- Two messages, one of them with a descriptor, in small pieces. -/
theorem framing_round_trip_two :
    ∃ c : Connection ℕ,
      run (Connection.step ⟨1024, 4, 16, by decide, by decide, by decide⟩) .new
          [.send ⟨[[104], [], [105]], [7]⟩ [some 3], .readable [some 2, some 9], .send ⟨[], []⟩ [], .writable [none],
            .writable [some 40, some 10], .readable [some 5, some 40], .readable [some 40, some 40, some 40],
            .writable [some 40], .readable [some 40]] = some c ∧
        delivered c.trace = [([104, 105], [7]), ([], [])] := by
  have hfit : ∀ m ∈ sentMessages [ConnectionOp.send ⟨[[104], [], [105]], [7]⟩ [some 3], .readable [some 2, some 9],
      .send ⟨[], []⟩ [], .writable [none], .writable [some 40, some 10], .readable [some 5, some 40],
      .readable [some 40, some 40, some 40], .writable [some 40], .readable [some 40]],
      m.Fits ⟨1024, 4, 16, by decide, by decide, by decide⟩ := by
    intro m hm
    simp only [sentMessages, List.filterMap_cons, List.filterMap_nil, List.mem_cons, List.not_mem_nil, or_false] at hm
    rcases hm with rfl | rfl <;> exact ⟨by decide, by decide⟩
  obtain ⟨c, hrun, -, hall, -⟩ := framing_round_trip ⟨1024, 4, 16, by decide, by decide, by decide⟩ _ hfit
  have hempty : (some c).map (fun c => (c.sendQueue.length, c.cells.length)) = some (0, 0) := by
    rw [← hrun]
    decide
  have hlen : c.sendQueue.length = 0 ∧ c.cells.length = 0 := by simpa using hempty
  exact ⟨c, hrun, hall (List.length_eq_zero_iff.1 hlen.1) (List.length_eq_zero_iff.1 hlen.2)⟩

end EdenCommon
