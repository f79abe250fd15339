import EdenCommon.Proof.FileDescriptorFull
import EdenCommon.Spec.DoVecOp

/-!
# What a vectored operation on Windows transfers

The loop moves the bytes at `reached` one piece after the other (`VecOp.At`). A read ends when these or
the stream are at an end, and takes what lies behind them for the end of the file. A write with a
buffer that does not fit 32 bits comes to a piece of no bytes, and writes it for ever
(`doVecOp_transfers`).

* `VecOp.At.transferFile`: a call moves the next bytes.
* `VecOp.At.round`: a round ends the loop or moves the next bytes. It moves none and changes
  nothing only in a write, where what is left of a length has no lower 32 bits.
* `drive_doVecOpBody`, `drive_doVecOpBody_write`: the loop ends, or it does not; the two
  conditions are each other's negation.
-/

namespace EdenCommon

open Lib

namespace FileDescriptor

variable {isRead : Bool} {io : Io} {iov : List Iovec} {v : Iovec} {kIovMax n : ℕ} {outcomes rest : List Outcome}

theorem reached_cons_small (h : v.iov_len < dwordValues) : reached (v :: iov) = v.addresses ++ reached iov :=
  if_pos h

theorem reached_cons_large (h : dwordValues ≤ v.iov_len) :
    reached (v :: iov) = v.addresses.take (v.iov_len % dwordValues) :=
  if_neg (Nat.not_lt.2 h)

/-- Where all buffers fit 32 bits, all addresses are reached. -/
theorem reached_of_small (h : ∀ v ∈ iov, v.iov_len < dwordValues) : reached iov = addresses iov := by
  induction iov with
  | nil => rfl
  | cons v iov ih =>
    rw [reached_cons_small (h v List.mem_cons_self), ih fun w hw => h w (List.mem_cons_of_mem v hw)]
    rfl

theorem length_reached_le (iov : List Iovec) : (reached iov).length ≤ iov.length * dwordValues := by
  induction iov with
  | nil => exact Nat.zero_le _
  | cons v iov ih =>
    rw [List.length_cons, Nat.succ_mul]
    by_cases h : v.iov_len < dwordValues
    · rw [reached_cons_small h, List.length_append, Iovec.addresses, List.length_range']
      omega
    · have hmod : v.iov_len % dwordValues < dwordValues := Nat.mod_lt _ (by decide)
      rw [reached_cons_large (Nat.not_lt.1 h), List.length_take]
      omega

/-! ### A round -/

/-- The buffer that the loop is in, and those behind. -/
def VecOp.buffers (s : VecOp) : List Iovec := ⟨s.curBase, s.curLen⟩ :: s.iov

/-- The addresses that one call is given. -/
def VecOp.piece (s : VecOp) : List ℕ := List.range' s.curBase (s.curLen % dwordValues)

/-- A call is given the first of what is still reached. -/
theorem VecOp.piece_prefix (s : VecOp) : s.piece = (reached s.buffers).take (s.curLen % dwordValues) := by
  unfold VecOp.piece VecOp.buffers
  by_cases h : s.curLen < dwordValues
  · rw [reached_cons_small (v := ⟨s.curBase, s.curLen⟩) h, Nat.mod_eq_of_lt h, Iovec.addresses,
      List.take_left' (List.length_range')]
  · have hle := Nat.mod_le s.curLen dwordValues
    rw [reached_cons_large (v := ⟨s.curBase, s.curLen⟩) (Nat.not_lt.1 h), Iovec.addresses]
    rw [List.take_take, Nat.min_self]
    exact (List.take_range'_of_length_ge hle).symm

/-- What is reached behind `n` bytes of the current buffer. -/
theorem reached_drop {base len : ℕ} (hn : n ≤ len % dwordValues) :
    reached (⟨base + n, len - n⟩ :: iov) = (reached (⟨base, len⟩ :: iov)).drop n := by
  have hle := Nat.mod_le len dwordValues
  by_cases h : len < dwordValues
  · have hsmall : len - n < dwordValues := Nat.lt_of_le_of_lt (Nat.sub_le _ _) h
    have hdrop : n - len = 0 := by omega
    rw [reached_cons_small (v := ⟨base, len⟩) h, reached_cons_small (v := ⟨base + n, len - n⟩) hsmall, List.drop_append,
      Iovec.addresses, Iovec.addresses, List.length_range', hdrop, List.drop_zero, List.drop_range', Nat.mul_one]
  · have hlarge : dwordValues ≤ len - n := by
      unfold dwordValues at *
      omega
    have hmod : (len - n) % dwordValues = len % dwordValues - n := by
      unfold dwordValues at *
      omega
    rw [reached_cons_large (v := ⟨base, len⟩) (Nat.not_lt.1 h), reached_cons_large (v := ⟨base + n, len - n⟩) hlarge,
      hmod, List.drop_take, Iovec.addresses, Iovec.addresses, List.drop_range', Nat.mul_one]

theorem Io.room_take (isRead : Bool) (io : Io) (buf : List ℕ) (k : ℕ) :
    io.room isRead (buf.take k) = min k (io.room isRead buf) := by
  unfold Io.room
  rw [List.length_take]
  split <;> omega

theorem Io.moved_take {buf : List ℕ} {k : ℕ} (h : n ≤ k) : io.moved isRead (buf.take k) n = io.moved isRead buf n := by
  unfold Io.moved
  rw [List.take_take, Nat.min_eq_left h]

/-- From `io` on the bytes at `R` are to be moved, and the first ones have been. -/
structure VecOp.At (isRead : Bool) (io : Io) (R : List ℕ) (s : VecOp) : Prop where
  total : s.bytesProcessed ≤ io.room isRead R
  left : reached s.buffers = R.drop s.bytesProcessed
  io : s.io = io.moved isRead R s.bytesProcessed

/-- Some buffer that the loop has not left does not fit 32 bits. -/
def VecOp.Large (s : VecOp) : Prop := ∃ v ∈ s.buffers, dwordValues ≤ v.iov_len

def VecOp.measure (s : VecOp) : ℕ := (reached s.buffers).length + s.iov.length

variable {s s' : VecOp} {R : List ℕ}

/-- **A call** moves the next bytes. -/
theorem VecOp.At.transferFile (hs : s.At isRead io R) {most : ℕ}
    (hn : n = min (most + 1) (min (s.curLen % dwordValues) (io.room isRead R - s.bytesProcessed))) :
    FileDescriptor.transferFile isRead s.io s.curBase s.curLen (.moves most) =
      (.ok n, io.moved isRead R (s.bytesProcessed + n)) := by
  have hroom : s.io.room isRead s.piece = min (s.curLen % dwordValues) (io.room isRead R - s.bytesProcessed) := by
    rw [s.piece_prefix, Io.room_take, hs.left, hs.io, Io.room_moved hs.total]
  have hmoved : s.io.moved isRead s.piece n = io.moved isRead R (s.bytesProcessed + n) := by
    rw [s.piece_prefix, Io.moved_take (by omega), hs.left, hs.io, Io.moved_moved hs.total]
  have hcall : (if isRead then s.io.readv s.piece (.moves most) else s.io.writev s.piece (.moves most)) =
      (.ok n, s.io.moved isRead s.piece n) := transfer_moves most (by rw [hroom, hn])
  rw [← hmoved, ← hcall]
  unfold FileDescriptor.transferFile VecOp.piece
  cases isRead <;> rfl

/-- The states behind a piece that was moved. -/
theorem VecOp.At.advance (hs : s.At isRead io R) (hn : n ≤ s.curLen % dwordValues)
    (hroom : s.bytesProcessed + n ≤ io.room isRead R) :
    (⟨s.curBase + n, s.curLen - n, s.iov, s.bytesProcessed + n, io.moved isRead R (s.bytesProcessed + n)⟩ : VecOp).At
      isRead io R where
  total := hroom
  left := by
    show reached (⟨s.curBase + n, s.curLen - n⟩ :: s.iov) = _
    rw [reached_drop hn, ← List.drop_drop, ← hs.left]
    rfl
  io := rfl

theorem VecOp.At.measure (hs : s.At isRead io R) : s.measure = R.length - s.bytesProcessed + s.iov.length := by
  rw [VecOp.measure, hs.left, List.length_drop]

theorem VecOp.length_reached (s : VecOp) : (reached s.buffers).length =
    if s.curLen < dwordValues then s.curLen + (reached s.iov).length else s.curLen % dwordValues := by
  have hle := Nat.mod_le s.curLen dwordValues
  unfold VecOp.buffers
  split
  · rename_i h
    rw [reached_cons_small (v := ⟨s.curBase, s.curLen⟩) h, List.length_append, Iovec.addresses, List.length_range']
  · rename_i h
    rw [reached_cons_large (v := ⟨s.curBase, s.curLen⟩) (Nat.not_lt.1 h), List.length_take, Iovec.addresses,
      List.length_range', Nat.min_eq_left hle]

/-- **What a round does**, by the number of bytes that its call moves. -/
theorem VecOp.At.body_eq (hs : s.At isRead io R) (hR : R.length < ssizeValues) {most : ℕ}
    (hn : n = min (most + 1) (min (s.curLen % dwordValues) (io.room isRead R - s.bytesProcessed))) :
    doVecOpBody isRead s (.moves most) =
      if isRead ∧ n = 0 ∧ s.curLen ≠ 0 then
        .inr (.ok s.bytesProcessed, io.moved isRead R (s.bytesProcessed + n))
      else if n = s.curLen then
        nextBuffer s.iov (s.bytesProcessed + n) (io.moved isRead R (s.bytesProcessed + n))
      else
        .inl ⟨s.curBase + n, s.curLen - n, s.iov, s.bytesProcessed + n, io.moved isRead R (s.bytesProcessed + n)⟩ := by
  have htotal := hs.total
  have hroom := Io.room_le isRead io R
  -- so the count of bytes fits `ssize_t`
  have hcount : ¬ ssizeValues ≤ s.bytesProcessed + n := by omega
  unfold doVecOpBody
  rw [hs.transferFile hn]
  dsimp only
  rw [if_neg hcount]

/-- The state in front of the next buffer. -/
theorem VecOp.At.next (hs : s.At isRead io R) (hiov : s.iov = v :: iov) (hsmall : s.curLen < dwordValues)
    (hroom : s.bytesProcessed + s.curLen ≤ io.room isRead R) :
    let s' : VecOp :=
      ⟨v.iov_base, v.iov_len, iov, s.bytesProcessed + s.curLen, io.moved isRead R (s.bytesProcessed + s.curLen)⟩
    s'.At isRead io R ∧ (s'.Large ↔ s.Large) ∧ s'.measure < s.measure := by
  intro s'
  have hmod : s.curLen ≤ s.curLen % dwordValues := Nat.le_of_eq (Nat.mod_eq_of_lt hsmall).symm
  have hleft := (hs.advance hmod hroom).left
  -- nothing is left of the current buffer, so `hleft` is about those behind it
  have hempty : 0 < dwordValues := by decide
  rw [VecOp.buffers, Nat.sub_self, reached_cons_small hempty, Iovec.addresses, hiov] at hleft
  have hbehind : s'.At isRead io R := ⟨hroom, hleft, rfl⟩
  refine ⟨hbehind, ?_, ?_⟩
  · simp only [s', VecOp.Large, VecOp.buffers, hiov, List.mem_cons, exists_eq_or_imp, Nat.not_le.2 hsmall, false_or]
  · rw [hbehind.measure, hs.measure, hiov, List.length_cons]
    dsimp only [s']
    omega

/-- The state behind a part of the current buffer. -/
theorem VecOp.At.part (hs : s.At isRead io R) (hn : n ≤ s.curLen % dwordValues)
    (hroom : s.bytesProcessed + n ≤ io.room isRead R) :
    let s' : VecOp :=
      ⟨s.curBase + n, s.curLen - n, s.iov, s.bytesProcessed + n, io.moved isRead R (s.bytesProcessed + n)⟩
    (s'.Large ↔ s.Large) ∧ (0 < n → s'.measure < s.measure) := by
  intro s'
  constructor
  · -- the upper 32 bits of the length stay
    have hlarge : dwordValues ≤ s.curLen - n ↔ dwordValues ≤ s.curLen := by
      unfold dwordValues at *
      omega
    simp only [s', VecOp.Large, VecOp.buffers, List.mem_cons, exists_eq_or_imp, hlarge]
  · intro hpos
    have hle := Io.room_le isRead io R
    rw [(hs.advance hn hroom).measure, hs.measure]
    dsimp only [s']
    omega

/-- **A round** ends the loop with all there is room for, or moves the next bytes. It moves none and
changes nothing only in a write, where what is left of a length has no lower 32 bits. -/
theorem VecOp.At.round (hs : s.At isRead io R) (hR : R.length < ssizeValues) (most : ℕ) :
    (doVecOpBody isRead s (.moves most) = .inr (.ok (io.room isRead R), io.moved isRead R (io.room isRead R)) ∧
        (isRead = true ∨ ¬ s.Large)) ∨
      ∃ s', doVecOpBody isRead s (.moves most) = .inl s' ∧ s'.At isRead io R ∧ (s'.Large ↔ s.Large) ∧
        (s'.measure < s.measure ∨ isRead = false ∧ s.Large) := by
  obtain ⟨n, hn⟩ : ∃ n, n = min (most + 1) (min (s.curLen % dwordValues) (io.room isRead R - s.bytesProcessed)) :=
    ⟨_, rfl⟩
  have htotal := hs.total
  have hroom := Io.room_le isRead io R
  have hleft := congrArg List.length hs.left
  rw [List.length_drop] at hleft
  have hlength := s.length_reached
  rw [hs.body_eq hR hn]
  by_cases heof : isRead ∧ n = 0 ∧ s.curLen ≠ 0
  · -- the stream is at an end, or the piece is empty and all that is reached is behind
    obtain ⟨hread, hzero, hlen⟩ := heof
    rw [if_pos ⟨hread, hzero, hlen⟩]
    have hall : s.bytesProcessed = io.room isRead R := by
      unfold dwordValues at *
      split at hlength <;> omega
    rw [hzero, Nat.add_zero, hall]
    exact .inl ⟨rfl, .inl hread⟩
  rw [if_neg heof]
  have hmod := Nat.mod_le s.curLen dwordValues
  have hpiece : n ≤ s.curLen % dwordValues := by omega
  have hnew : s.bytesProcessed + n ≤ io.room isRead R := by omega
  by_cases hwhole : n = s.curLen
  · -- a call moves fewer than 2^32 bytes
    have hsmall : s.curLen < dwordValues := by
      have hmod : s.curLen % dwordValues < dwordValues := Nat.mod_lt _ (by decide)
      omega
    rw [if_pos hwhole, hwhole]
    rw [hwhole] at hnew
    rw [if_pos hsmall] at hlength
    cases hiov : s.iov with
    | nil =>
      -- the last buffer is done, and with it all that is reached
      rw [hiov] at hlength
      have hall : s.bytesProcessed + s.curLen = io.room isRead R := by
        have : (reached []).length = 0 := rfl
        omega
      rw [hall]
      refine .inl ⟨rfl, .inr ?_⟩
      rintro ⟨v, hv, hlarge⟩
      rw [VecOp.buffers, hiov, List.mem_singleton] at hv
      rw [hv] at hlarge
      exact Nat.not_lt.2 hlarge hsmall
    | cons v iov =>
      obtain ⟨hbehind, hlarge, hless⟩ := hs.next hiov hsmall hnew
      exact .inr ⟨_, rfl, hbehind, hlarge, .inl hless⟩
  · rw [if_neg hwhole]
    obtain ⟨hlarge, hless⟩ := hs.part hpiece hnew
    refine .inr ⟨_, rfl, hs.advance hpiece hnew, hlarge, ?_⟩
    rcases Nat.eq_zero_or_pos n with hzero | hpos
    · -- a write of no bytes that is not the end of a buffer
      have hwrite : isRead = false := by
        by_contra hread
        exact heof ⟨by simpa using hread, hzero, by omega⟩
      have hfull := Io.room_of_write io R hwrite
      have hlarge : dwordValues ≤ s.curLen := by
        by_contra hsmall
        rw [if_pos (Nat.not_le.1 hsmall)] at hlength
        rw [Nat.mod_eq_of_lt (Nat.not_le.1 hsmall)] at hn
        omega
      exact .inr ⟨hwrite, _, List.mem_cons_self, hlarge⟩
    · exact .inl (hless hpos)

/-! ### The loop -/

theorem eq_moves {o : Outcome} (h : o.succeeds = true) : ∃ most, o = .moves most := by
  cases o with
  | failed e => cases h
  | moves most => exact ⟨most, rfl⟩

/-- The loop in front of its first round. -/
def VecOp.first (io : Io) (v : Iovec) (iov : List Iovec) : VecOp := ⟨v.iov_base, v.iov_len, iov, 0, io⟩

theorem VecOp.at_first : (VecOp.first io v iov).At isRead io (reached (v :: iov)) where
  total := Nat.zero_le _
  left := List.drop_zero.symm
  io := Io.moved_zero.symm

theorem doVecOp_eq_drive {fdType : FDType} (hlen : (v :: iov).length ≤ kIovMax) :
    doVecOp kIovMax fdType none outcomes io (v :: iov) isRead =
      drive (doVecOpBody isRead) outcomes (VecOp.first io v iov) := by
  unfold doVecOp VecOp.first
  dsimp only
  rw [if_neg (Nat.not_lt.2 hlen)]
  simp only [ite_self]

/-- **The loop ends**, and has moved all there is room for, if it reads or all buffers fit 32 bits. -/
theorem drive_doVecOpBody (isRead : Bool) (io : Io) (hout : NoFailure outcomes)
    (hR : (reached (v :: iov)).length < ssizeValues) (hends : isRead = true ∨ ¬ (VecOp.first io v iov).Large) :
    ((reached (v :: iov)).length + iov.length < outcomes.length →
        (drive (doVecOpBody isRead) outcomes (VecOp.first io v iov)).isSome) ∧
      ∀ r rest, drive (doVecOpBody isRead) outcomes (VecOp.first io v iov) = some (r, rest) →
        r = (.ok (io.room isRead (reached (v :: iov))),
          io.moved isRead (reached (v :: iov)) (io.room isRead (reached (v :: iov)))) := by
  refine drive_total (I := fun s => s.At isRead io (reached (v :: iov)) ∧ (isRead = true ∨ ¬ s.Large)) VecOp.measure
    ⟨VecOp.at_first, hends⟩ hout fun s o hs ho => ?_
  obtain ⟨most, rfl⟩ := eq_moves ho
  rcases hs.1.round hR most with ⟨hbody, -⟩ | ⟨s', hbody, hs', hlarge, hprogress⟩
  · exact .inl ⟨_, hbody, rfl⟩
  · refine .inr ⟨s', hbody, ⟨hs', by rw [hlarge]; exact hs.2⟩, ?_⟩
    rcases hprogress with hless | ⟨hwrite, hstuck⟩
    · exact hless
    · rcases hs.2 with hread | hsmall
      · rw [hwrite] at hread
        cases hread
      · exact absurd hstuck hsmall

/-- **The loop does not end** if it writes and some buffer does not fit 32 bits. -/
theorem drive_doVecOpBody_write (hout : NoFailure outcomes) (hR : (reached (v :: iov)).length < ssizeValues)
    (hlarge : (VecOp.first io v iov).Large) :
    drive (doVecOpBody false) outcomes (VecOp.first io v iov) = none := by
  refine drive_eq_none (I := fun s => s.At false io (reached (v :: iov)) ∧ s.Large) ⟨VecOp.at_first, hlarge⟩ hout
    fun s o hs ho => ?_
  obtain ⟨most, rfl⟩ := eq_moves ho
  rcases hs.1.round hR most with ⟨-, hread | hsmall⟩ | ⟨s', hbody, hs', hlarge', -⟩
  · cases hread
  · exact absurd hs.2 hsmall
  · exact ⟨s', hbody, hs', hlarge'.2 hs.2⟩

/-- **Vectored operations on Windows**, while no call fails. A read stores the next bytes of the stream
at the addresses up to the first buffer of 2^32 bytes or more, and at so many of that one as its length
has in 32 bits, until they or the stream end. A write writes all buffers if none is that long, and
otherwise never returns. -/
theorem doVecOp_transfers (kIovMax : ℕ) (hk : kIovMax < 2147483648) (fdType : FDType) (outcomes : List Outcome)
    (hout : NoFailure outcomes) (io : Io) (iov : List Iovec) (hlen : iov.length ≤ kIovMax) :
    ((reached iov).length + iov.length < outcomes.length →
        (doVecOp kIovMax fdType none outcomes io iov true).isSome) ∧
    (∀ r rest, doVecOp kIovMax fdType none outcomes io iov true = some (r, rest) →
      r = (.ok (min (reached iov).length io.incoming.length),
        { io with
          memory := io.memory.storeAt (reached iov) io.incoming
          incoming := io.incoming.drop (reached iov).length })) ∧
    ((∀ v ∈ iov, v.iov_len < dwordValues) →
      ((addresses iov).length + iov.length < outcomes.length →
        (doVecOp kIovMax fdType none outcomes io iov false).isSome) ∧
      ∀ r rest, doVecOp kIovMax fdType none outcomes io iov false = some (r, rest) →
        r = (.ok (addresses iov).length, { io with written := io.written ++ io.memory.loadAt (addresses iov) })) ∧
    ((∃ v ∈ iov, dwordValues ≤ v.iov_len) → doVecOp kIovMax fdType none outcomes io iov false = none) := by
  cases iov with
  | nil =>
    -- no buffer, no call
    have hnil (isRead : Bool) : doVecOp kIovMax fdType none outcomes io [] isRead = some ((.ok 0, io), outcomes) := rfl
    simp [hnil, reached, addresses, Memory.loadAt]
  | cons v iov =>
    -- with at most `kIovMax` buffers the sum of what is reached fits `ssize_t`
    have hR : (reached (v :: iov)).length < ssizeValues := by
      have hle := length_reached_le (v :: iov)
      have hmul : (v :: iov).length * dwordValues ≤ kIovMax * dwordValues := Nat.mul_le_mul_right _ hlen
      unfold ssizeValues dwordValues at *
      omega
    simp only [doVecOp_eq_drive hlen]
    obtain ⟨hends, hmoves⟩ := drive_doVecOpBody true io hout hR (.inl rfl)
    refine ⟨fun h => hends ?_, fun r rest h => ?_, fun hsmall => ?_, fun hlarge => ?_⟩
    · rw [List.length_cons] at h
      omega
    · rw [hmoves r rest h]
      obtain ⟨hcount, hio⟩ := Prod.mk.inj (Io.moved_room_read io (reached (v :: iov)))
      rw [hio, Except.ok.inj hcount]
    · have hfits : ¬ (VecOp.first io v iov).Large := by
        rintro ⟨w, hw, hle⟩
        exact Nat.not_lt.2 hle (hsmall w hw)
      obtain ⟨hends, hmoves⟩ := drive_doVecOpBody false io hout hR (.inr hfits)
      rw [reached_of_small hsmall] at hends hmoves
      refine ⟨fun h => hends ?_, fun r rest h => ?_⟩
      · rw [List.length_cons] at h
        omega
      · rw [hmoves r rest h]
        obtain ⟨hcount, hio⟩ := Prod.mk.inj (Io.moved_room_write io (addresses (v :: iov)))
        rw [hio, Except.ok.inj hcount]
    · exact drive_doVecOpBody_write hout hR hlarge

/-- Two buffers of which the second one is empty, and of which the third one is not filled. -/
theorem doVecOp_transfers_three :
    let io : Io := ⟨fun _ => 0, [1, 2, 3, 4], []⟩
    ∃ rest, doVecOp 1024 .Pipe none (List.replicate 10 (.moves 1)) io [⟨16, 3⟩, ⟨32, 0⟩, ⟨48, 2⟩] true =
      some ((.ok 4, { io with memory := io.memory.storeAt [16, 17, 18, 48, 49] io.incoming, incoming := [] }), rest) := by
  intro io
  have hout : NoFailure (List.replicate 10 (.moves 1)) := fun o ho => by rw [List.eq_of_mem_replicate ho]; rfl
  obtain ⟨hends, hreads, -⟩ := doVecOp_transfers 1024 (by decide) .Pipe (List.replicate 10 (.moves 1)) hout io
    [⟨16, 3⟩, ⟨32, 0⟩, ⟨48, 2⟩] (by decide)
  obtain ⟨⟨r, rest⟩, hr⟩ := Option.isSome_iff_exists.1 (hends (by decide))
  refine ⟨rest, ?_⟩
  rw [hr, hreads r rest hr]
  rfl

end FileDescriptor

end EdenCommon
