import EdenCommon.Spec.UnixStream

/-!
# The wire form of a message

The bytes that `trySendMessage` puts on the stream for one message when no call is cut
short: the header and the data with the first lot of descriptors on its first byte, then
a zero byte for each further lot (`wireOf`). Every other pattern of partial sends puts
the same cells on the stream (`Proof/UnixSend`).

* `attach_take`, `attach_drop` say how a partial send cuts a lot.
* `extraCells_take_files` counts the descriptors behind the data.
* `deserializeHeader_headerBytes` is the round trip of the header.
-/

namespace EdenCommon

open Lib

variable {F : Type}

/-! ### One `sendmsg` -/

@[simp] theorem length_attach (fds : List F) (bs : Bytes) : (attach fds bs).length = bs.length := by
  cases bs <;> simp [attach]

@[simp] theorem map_fst_attach (fds : List F) (bs : Bytes) : (attach fds bs).map Prod.fst = bs := by
  cases bs <;> simp [attach, Function.comp_def]

/-- Descriptors go with the first byte. -/
theorem attach_take (fds : List F) (bs : Bytes) (n : ℕ) : (attach fds bs).take n = attach fds (bs.take n) := by
  cases bs with
  | nil => simp [attach]
  | cons b bs => cases n <;> simp [attach]

/-- What is left after a part has been sent carries no descriptors. -/
theorem attach_drop (fds : List F) (bs : Bytes) {n : ℕ} (hn : 0 < n) :
    (attach fds bs).drop n = attach [] (bs.drop n) := by
  have hnil : ∀ cs : Bytes, attach ([] : List F) cs = cs.map (·, []) := by
    intro cs
    cases cs <;> rfl
  rw [hnil]
  obtain ⟨n, rfl⟩ : ∃ k, n = k + 1 := ⟨n - 1, by omega⟩
  cases bs <;> simp [attach]

theorem attach_eq_nil {fds : List F} {bs : Bytes} : attach fds bs = [] ↔ bs = [] := by
  cases bs <;> simp [attach]

/-- The descriptors of a lot are there as soon as one byte is. -/
theorem attach_files (fds : List F) {bs : Bytes} (hbs : bs ≠ []) : (attach fds bs).flatMap Prod.snd = fds := by
  obtain ⟨b, bs, rfl⟩ := List.exists_cons_of_ne_nil hbs
  have hrest : (bs.map fun b => ((b, []) : Cell F)).flatMap Prod.snd = [] := by
    simp [List.flatMap_eq_nil_iff]
  rw [attach, List.flatMap_cons, hrest, List.append_nil]

/-! ### The descriptors behind the data -/

/-- One zero byte for each lot of at most `kMaxFDs` descriptors. -/
def extraCells : List F → List (Cell F)
  | [] => []
  | f :: fs => (0, (f :: fs).take kMaxFDs) :: extraCells ((f :: fs).drop kMaxFDs)
termination_by files => files.length
decreasing_by simp only [List.length_drop, List.length_cons, kMaxFDs]; omega

@[simp] theorem extraCells_nil : extraCells ([] : List F) = [] := by rw [extraCells]

/-- More descriptors than fit go with bytes of their own. -/
theorem extraCells_of_ne_nil {files : List F} (h : files ≠ []) :
    extraCells files = (0, files.take kMaxFDs) :: extraCells (files.drop kMaxFDs) := by
  obtain ⟨f, fs, rfl⟩ := List.exists_cons_of_ne_nil h
  rw [extraCells]

theorem extraCells_eq_nil {files : List F} : extraCells files = [] ↔ files = [] := by
  by_cases h : files = []
  · simp [h]
  · simp [h, extraCells_of_ne_nil h]

/-- The first `j` cells carry the first `j * kMaxFDs` descriptors. -/
theorem extraCells_take_files (j : ℕ) (files : List F) :
    ((extraCells files).take j).flatMap Prod.snd = files.take (j * kMaxFDs) := by
  induction j generalizing files with
  | zero => simp
  | succ j ih =>
    by_cases h : files = []
    · simp [h]
    · have hsum : (j + 1) * kMaxFDs = kMaxFDs + j * kMaxFDs := by rw [Nat.add_mul]; omega
      rw [extraCells_of_ne_nil h, List.take_succ_cons, List.flatMap_cons, ih, hsum, List.take_add]

/-- There is a cell `j` exactly when there are descriptors left for it. -/
theorem lt_length_extraCells (j : ℕ) (files : List F) :
    j < (extraCells files).length ↔ j * kMaxFDs < files.length := by
  induction j generalizing files with
  | zero => rw [Nat.zero_mul, List.length_pos_iff, List.length_pos_iff, Ne, Ne, extraCells_eq_nil]
  | succ j ih =>
    by_cases h : files = []
    · simp [h]
    · have hrest := ih (files.drop kMaxFDs)
      have hsum : (j + 1) * kMaxFDs = kMaxFDs + j * kMaxFDs := by rw [Nat.add_mul]; omega
      rw [extraCells_of_ne_nil h, List.length_cons, Nat.add_lt_add_iff_right, hrest, List.length_drop, hsum]
      omega

/-! ### Whole messages -/

/-- The data of a message, as the receiver hands it over. -/
def Message.bytes (m : Message F) : Bytes := m.data.flatten

/-- What a receiver gets of a message. -/
def Message.content (m : Message F) : Bytes × List F := (m.bytes, m.files)

/-- The header that announces a message. -/
def Message.header (m : Message F) : Header := ⟨kProtocolID, m.bytes.length, m.files.length⟩

def Message.headerBytes (m : Message F) : Bytes := serializeHeader m.bytes.length m.files.length

def Message.wireOf (m : Message F) : List (Cell F) :=
  attach (m.files.take kMaxFDs) (m.headerBytes ++ m.bytes) ++ extraCells (m.files.drop kMaxFDs)

/-- The receiver's limits hold for the message. -/
structure Message.Fits (cfg : SocketConfig) (m : Message F) : Prop where
  data_le : m.bytes.length ≤ cfg.maxDataLength
  files_le : m.files.length ≤ cfg.maxFiles

@[simp] theorem length_headerBytes (m : Message F) : m.headerBytes.length = kHeaderLength := by
  simp [Message.headerBytes, serializeHeader, kHeaderLength]

/-- The three fields of a header are blocks of 8, 4 and 4 bytes. -/
theorem deserializeHeader_fields {d f : ℕ} (hd : d < 2 ^ 32) (hf : f < 2 ^ 32) :
    deserializeHeader (toBytesBE 8 kProtocolID ++ toBytesBE 4 d ++ toBytesBE 4 f) = ⟨kProtocolID, d, f⟩ := by
  have hid : ofBytesBE (toBytesBE 8 kProtocolID) = kProtocolID := ofBytesBE_toBytesBE 8 _ (by decide)
  have hdata : ofBytesBE (toBytesBE 4 d) = d := ofBytesBE_toBytesBE 4 d hd
  have hfiles : ofBytesBE (toBytesBE 4 f) = f := ofBytesBE_toBytesBE 4 f hf
  have h8 : (toBytesBE 8 kProtocolID ++ (toBytesBE 4 d ++ toBytesBE 4 f)).drop 8 = toBytesBE 4 d ++ toBytesBE 4 f :=
    List.drop_left' (length_toBytesBE _ _)
  have h12 : (toBytesBE 8 kProtocolID ++ (toBytesBE 4 d ++ toBytesBE 4 f)).drop 12 = toBytesBE 4 f := by
    rw [show 12 = 8 + 4 from rfl, ← List.drop_drop, h8]
    exact List.drop_left' (length_toBytesBE _ _)
  rw [List.append_assoc]
  unfold deserializeHeader
  rw [h8, h12, List.take_left' (length_toBytesBE _ _), List.take_left' (length_toBytesBE _ _),
    List.take_of_length_le (Nat.le_of_eq (length_toBytesBE _ _)), hid, hdata, hfiles]

/-- **The header is read back** up to multiples of `2 ^ 32`. -/
theorem deserializeHeader_serializeHeader (dataSize numFiles : ℕ) :
    deserializeHeader (serializeHeader dataSize numFiles) =
      ⟨kProtocolID, dataSize % 2 ^ 32, numFiles % 2 ^ 32⟩ :=
  deserializeHeader_fields (Nat.mod_lt _ (by decide)) (Nat.mod_lt _ (by decide))

/-- **The header of a message that fits is read back.** -/
theorem deserializeHeader_headerBytes {cfg : SocketConfig} {m : Message F} (h : m.Fits cfg) :
    deserializeHeader m.headerBytes = m.header := by
  have hd : m.bytes.length < 2 ^ 32 := Nat.lt_of_le_of_lt h.data_le cfg.maxDataLength_lt
  have hf : m.files.length < 2 ^ 32 := Nat.lt_of_le_of_lt h.files_le cfg.maxFiles_lt
  unfold Message.headerBytes Message.header
  rw [deserializeHeader_serializeHeader, Nat.mod_eq_of_lt hd, Nat.mod_eq_of_lt hf]

/-- The length of a message on the wire. -/
theorem length_wireOf (m : Message F) :
    m.wireOf.length = kHeaderLength + m.bytes.length + (extraCells (m.files.drop kMaxFDs)).length := by
  simp [Message.wireOf]

end EdenCommon
