import EdenCommon.Proof.FileDescriptorFull

/-!
# Which vectored transfers in full are complete

A round of the loop of `wrapvFull` transfers from a window of `kIovMax` buffers, and one that
transfers nothing ends the loop. `reach` is how much lies in front of the first window without
a byte: no window holds more (`window_le_reach`), and what a round consumes comes off it
(`reach_advance`). So a whole loop moves what is reached and there is room for
(`wrapvFull_returns`), which is everything exactly if no gap of `kIovMax` empty buffers comes
first (`wrapvFull_transfers_iff`).
-/

namespace EdenCommon

open Lib

namespace FileDescriptor

variable {isRead : Bool} {io : Io} {iov front : List Iovec} {kIovMax n j : ℕ} {outcomes rest : List Outcome}

/-! ### Addresses -/

@[simp] theorem addresses_nil : addresses [] = [] := rfl

@[simp] theorem addresses_cons (v : Iovec) (iov : List Iovec) :
    addresses (v :: iov) = List.range' v.iov_base v.iov_len ++ addresses iov := rfl

theorem addresses_append (iov iov' : List Iovec) : addresses (iov ++ iov') = addresses iov ++ addresses iov' :=
  List.flatMap_append

theorem addresses_eq_nil_iff : addresses iov = [] ↔ ∀ v ∈ iov, v.iov_len = 0 := by
  simp [addresses, Iovec.addresses, List.flatMap_eq_nil_iff]

/-- A window holds the first addresses. -/
theorem addresses_window (iov : List Iovec) (k : ℕ) :
    addresses (iov.take k) = (addresses iov).take (addresses (iov.take k)).length := by
  have hsplit : addresses iov = addresses (iov.take k) ++ addresses (iov.drop k) := by
    rw [← addresses_append, List.take_append_drop]
  rw [hsplit, List.take_left']
  rfl

theorem addresses_advance (n : ℕ) (iov : List Iovec) : addresses (advance n iov) = (addresses iov).drop n := by
  induction iov generalizing n with
  | nil => simp [advance]
  | cons v iov ih =>
    rw [advance]
    by_cases hz : n = 0
    · rw [if_pos hz, hz, List.drop_zero]
    · rw [if_neg hz]
      by_cases hle : v.iov_len ≤ n
      · have hnil : (List.range' v.iov_base v.iov_len).drop n = [] := List.drop_eq_nil_of_le (by simpa using hle)
        rw [if_pos hle, ih, addresses_cons, List.drop_append, List.length_range', hnil, List.nil_append]
      · have hsub : n - v.iov_len = 0 := by omega
        rw [if_neg hle, addresses_cons, addresses_cons, List.drop_append, List.length_range', hsub,
          List.drop_zero, List.drop_range', Nat.mul_one]

/-! ### What is reached -/

/-- The bytes in front of the first window that has none. -/
def reach (kIovMax : ℕ) : List Iovec → ℕ
  | [] => 0
  | v :: iov => if addresses ((v :: iov).take kIovMax) = [] then 0 else v.iov_len + reach kIovMax iov

theorem reach_of_window_empty (h : addresses (iov.take kIovMax) = []) : reach kIovMax iov = 0 := by
  cases iov with
  | nil => rfl
  | cons v iov => rw [reach, if_pos h]

theorem reach_le (kIovMax : ℕ) (iov : List Iovec) : reach kIovMax iov ≤ (addresses iov).length := by
  induction iov with
  | nil => simp [reach]
  | cons v iov ih =>
    rw [reach]
    split
    · omega
    · simp only [addresses_cons, List.length_append, List.length_range']
      omega

/-- A prefix of a window that has no byte has none. -/
theorem addresses_take_eq_nil (hj : j ≤ kIovMax) (h : addresses (iov.take kIovMax) = []) :
    addresses (iov.take j) = [] := by
  rw [addresses_eq_nil_iff] at h ⊢
  intro v hv
  apply h
  rw [← Nat.min_eq_left hj, ← List.take_take] at hv
  exact List.mem_of_mem_take hv

/-- **The window** does not go past what is reached. -/
theorem window_le_reach (hj : j ≤ kIovMax) : (addresses (iov.take j)).length ≤ reach kIovMax iov := by
  induction iov generalizing j with
  | nil => simp
  | cons v iov ih =>
    by_cases hempty : addresses ((v :: iov).take kIovMax) = []
    · rw [addresses_take_eq_nil hj hempty]
      exact Nat.zero_le _
    · rw [reach, if_neg hempty]
      cases j with
      | zero => simp
      | succ j =>
        have := @ih j (by omega)
        rw [List.take_succ_cons, addresses_cons, List.length_append, List.length_range']
        omega

/-- **What a round consumes** comes off what is reached. -/
theorem reach_advance (hk : 0 < kIovMax) (hn : n ≤ reach kIovMax iov) :
    reach kIovMax (advance n iov) = reach kIovMax iov - n := by
  induction iov generalizing n with
  | nil => simp [advance, reach]
  | cons v iov ih =>
    rw [advance]
    by_cases hz : n = 0
    · rw [if_pos hz, hz, Nat.sub_zero]
    · have hne : addresses ((v :: iov).take kIovMax) ≠ [] := by
        intro hempty
        have := reach_of_window_empty hempty
        omega
      rw [reach, if_neg hne] at hn
      rw [if_neg hz, reach, if_neg hne]
      by_cases hle : v.iov_len ≤ n
      · rw [if_pos hle, ih (by omega)]
        omega
      · -- what is left of the first buffer is in the next window
        have hne' : addresses ((⟨v.iov_base + n, v.iov_len - n⟩ :: iov).take kIovMax) ≠ [] := by
          intro hempty
          rw [addresses_eq_nil_iff] at hempty
          obtain ⟨k, rfl⟩ : ∃ k, kIovMax = k + 1 := ⟨kIovMax - 1, by omega⟩
          have hzero : v.iov_len - n = 0 := hempty ⟨v.iov_base + n, v.iov_len - n⟩ (by simp)
          omega
        rw [if_neg hle, reach, if_neg hne']
        simp only
        omega

/-- Nothing behind a gap is reached. -/
theorem reach_le_of_gap (h : GapBehind kIovMax iov front) : reach kIovMax iov ≤ (addresses front).length := by
  obtain ⟨gap, back, rfl, hlen, hgap, -⟩ := h
  induction front with
  | nil =>
    have hwindow : addresses (([] ++ gap ++ back).take kIovMax) = [] := by
      rw [List.nil_append, List.take_left' hlen, addresses_eq_nil_iff]
      exact hgap
    rw [reach_of_window_empty hwindow]
    exact Nat.zero_le _
  | cons v front ih =>
    rw [List.cons_append, List.cons_append, reach, addresses_cons, List.length_append, List.length_range']
    split <;> omega

/-- **What is not reached** lies behind a gap. -/
theorem gap_of_reach_lt (h : reach kIovMax iov < (addresses iov).length) :
    ∃ front, GapBehind kIovMax iov front ∧ (addresses front).length = reach kIovMax iov := by
  induction iov with
  | nil => simp at h
  | cons v iov ih =>
    by_cases hempty : addresses ((v :: iov).take kIovMax) = []
    · have hgap := addresses_eq_nil_iff.mp hempty
      have hback : addresses ((v :: iov).drop kIovMax) ≠ [] := by
        intro hdrop
        rw [← List.take_append_drop kIovMax (v :: iov), addresses_append, hempty, hdrop] at h
        simp at h
      have hlong : kIovMax ≤ (v :: iov).length := by
        by_contra hshort
        rw [List.drop_eq_nil_of_le (by omega)] at hback
        exact hback rfl
      refine ⟨[], ⟨(v :: iov).take kIovMax, (v :: iov).drop kIovMax, by simp, ?_, hgap, ?_⟩, ?_⟩
      · rw [List.length_take]
        omega
      · rw [Ne, addresses_eq_nil_iff] at hback
        push Not at hback
        exact hback
      · rw [reach_of_window_empty hempty]
        rfl
    · rw [reach, if_neg hempty] at h ⊢
      rw [addresses_cons, List.length_append, List.length_range'] at h
      obtain ⟨front, ⟨gap, back, rfl, hgap⟩, hfront⟩ := ih (by omega)
      refine ⟨v :: front, ⟨gap, back, rfl, hgap⟩, ?_⟩
      rw [addresses_cons, List.length_append, List.length_range', hfront]

/-! ### The rounds of `wrapvFull` -/

theorem wrapvFullBody_EINTR (s : VecCursor) :
    wrapvFullBody kIovMax isRead s (.failed .EINTR) =
      if s.iov ≠ [] then .inl s else .inr (.ok s.totalBytes, s.io) := by
  unfold wrapvFullBody
  simp only [transfer_failed]

theorem wrapvFullBody_moves (s : VecCursor) (most : ℕ)
    (hn : n = min (most + 1) (s.io.room isRead (addresses (s.iov.take kIovMax)))) :
    wrapvFullBody kIovMax isRead s (.moves most) =
      if n = 0 then .inr (.ok s.totalBytes, s.io)
      else if advance n s.iov = [] then .inr (.ok (s.totalBytes + n), s.io.moved isRead (addresses s.iov) n)
      else .inl ⟨advance n s.iov, s.totalBytes + n, s.io.moved isRead (addresses s.iov) n⟩ := by
  -- a transfer from the window is one of the first bytes of the array
  have hle : n ≤ (addresses (s.iov.take kIovMax)).length := by
    have := Io.room_le isRead s.io (addresses (s.iov.take kIovMax))
    omega
  have hmoved : s.io.moved isRead (addresses (s.iov.take kIovMax)) n = s.io.moved isRead (addresses s.iov) n := by
    unfold Io.moved
    rw [addresses_window, List.take_take, Nat.min_eq_left hle]
  unfold wrapvFullBody
  simp only [transfer_moves most hn, hmoved]
  by_cases hz : n = 0
  · rw [if_pos hz, if_pos hz, hz, Io.moved_zero]
  · rw [if_neg hz, if_neg hz]

/-- What the loop can still move: what is reached, as far as there is room for it. -/
def VecCursor.left (kIovMax : ℕ) (isRead : Bool) (s : VecCursor) : ℕ :=
  if isRead then min (reach kIovMax s.iov) s.io.incoming.length else reach kIovMax s.iov

theorem VecCursor.left_le_room (kIovMax : ℕ) (isRead : Bool) (s : VecCursor) :
    s.left kIovMax isRead ≤ s.io.room isRead (addresses s.iov) := by
  have := reach_le kIovMax s.iov
  unfold VecCursor.left Io.room
  split <;> omega

/-- A round stays within what is left. -/
theorem VecCursor.window_le_left (kIovMax : ℕ) (isRead : Bool) (s : VecCursor) :
    s.io.room isRead (addresses (s.iov.take kIovMax)) ≤ s.left kIovMax isRead := by
  have hwindow : (addresses (s.iov.take kIovMax)).length ≤ reach kIovMax s.iov := window_le_reach (Nat.le_refl kIovMax)
  unfold VecCursor.left Io.room
  split <;> omega

/-- A window that has no room leaves nothing. -/
theorem VecCursor.left_eq_zero {s : VecCursor} (h : s.io.room isRead (addresses (s.iov.take kIovMax)) = 0) :
    s.left kIovMax isRead = 0 := by
  unfold VecCursor.left Io.room at *
  by_cases hempty : addresses (s.iov.take kIovMax) = []
  · rw [reach_of_window_empty hempty]
    split <;> omega
  · have := List.length_pos_iff.mpr hempty
    split at h
    · rename_i hread
      rw [if_pos hread]
      omega
    · omega

/-- **A round that moves `n` bytes** takes them off what is left. -/
theorem VecCursor.left_advance (hk : 0 < kIovMax) {s : VecCursor} (hn : n ≤ s.left kIovMax isRead) :
    VecCursor.left kIovMax isRead ⟨advance n s.iov, s.totalBytes + n, s.io.moved isRead (addresses s.iov) n⟩ =
      s.left kIovMax isRead - n := by
  unfold VecCursor.left Io.moved at *
  cases isRead with
  | false => simpa using reach_advance hk (by simpa using hn)
  | true =>
    simp only [if_true, List.length_drop] at *
    rw [reach_advance hk (by omega)]
    omega

/-- `iov` is to be moved from `io` on, and the first bytes have been. -/
structure VecCursor.At (kIovMax : ℕ) (isRead : Bool) (io : Io) (iov : List Iovec) (s : VecCursor) : Prop where
  total : s.totalBytes ≤ io.room isRead (addresses iov)
  addr : addresses s.iov = (addresses iov).drop s.totalBytes
  left : s.totalBytes + s.left kIovMax isRead = VecCursor.left kIovMax isRead ⟨iov, 0, io⟩
  io : s.io = io.moved isRead (addresses iov) s.totalBytes

variable {s s' : VecCursor} {o : Outcome}

theorem VecCursor.At.moved (h : s.At kIovMax isRead io iov) :
    s.io.moved isRead (addresses s.iov) n = io.moved isRead (addresses iov) (s.totalBytes + n) := by
  rw [h.addr, h.io]
  exact Io.moved_moved h.total

/-- A round that goes on behind a transfer has moved something. -/
theorem wrapvFullBody_progress (ho : ∀ errcode, o ≠ .failed (.other errcode))
    (h : wrapvFullBody kIovMax isRead s o = .inl s') :
    o = .failed .EINTR ∧ s' = s ∨
      ∃ most n, o = .moves most ∧ 0 < n ∧ n ≤ s.left kIovMax isRead ∧
        s' = ⟨advance n s.iov, s.totalBytes + n, s.io.moved isRead (addresses s.iov) n⟩ := by
  obtain rfl | ⟨most, rfl⟩ := outcome_cases ho
  · rw [wrapvFullBody_EINTR] at h
    by_cases hnil : s.iov ≠ []
    · rw [if_pos hnil, Sum.inl.injEq] at h
      exact Or.inl ⟨rfl, h.symm⟩
    · rw [if_neg hnil] at h
      contradiction
  · obtain ⟨n, hn⟩ : ∃ n, n = min (most + 1) (s.io.room isRead (addresses (s.iov.take kIovMax))) := ⟨_, rfl⟩
    have hwindow := s.window_le_left kIovMax isRead
    rw [wrapvFullBody_moves s most hn] at h
    by_cases hz : n = 0
    · rw [if_pos hz] at h
      contradiction
    · by_cases hlast : advance n s.iov = []
      · rw [if_neg hz, if_pos hlast] at h
        contradiction
      · rw [if_neg hz, if_neg hlast, Sum.inl.injEq] at h
        exact Or.inr ⟨most, n, rfl, by omega, by omega, h.symm⟩

theorem wrapvFullBody_keeps (hk : 0 < kIovMax) (ho : ∀ errcode, o ≠ .failed (.other errcode))
    (hs : s.At kIovMax isRead io iov) (h : wrapvFullBody kIovMax isRead s o = .inl s') :
    s'.At kIovMax isRead io iov := by
  obtain ⟨-, rfl⟩ | ⟨most, n, -, -, hn, rfl⟩ := wrapvFullBody_progress ho h
  · exact hs
  · have hleft := hs.left
    have hroom := VecCursor.left_le_room kIovMax isRead ⟨iov, 0, io⟩
    refine ⟨?_, ?_, ?_, hs.moved⟩
    · simp only at hroom ⊢
      omega
    · simp only
      rw [addresses_advance, hs.addr, List.drop_drop]
    · rw [VecCursor.left_advance hk hn]
      simp only
      omega

/-- **The last round** leaves nothing that could be moved. -/
theorem wrapvFullBody_ends (ho : ∀ errcode, o ≠ .failed (.other errcode)) {r : Returned}
    (hs : s.At kIovMax isRead io iov) (h : wrapvFullBody kIovMax isRead s o = .inr r) :
    r = (.ok (VecCursor.left kIovMax isRead ⟨iov, 0, io⟩),
      io.moved isRead (addresses iov) (VecCursor.left kIovMax isRead ⟨iov, 0, io⟩)) := by
  have hleft := hs.left
  obtain rfl | ⟨most, rfl⟩ := outcome_cases ho
  · rw [wrapvFullBody_EINTR] at h
    by_cases hnil : s.iov ≠ []
    · rw [if_pos hnil] at h
      contradiction
    · have hzero : s.left kIovMax isRead = 0 := by
        apply VecCursor.left_eq_zero
        have := Io.room_le isRead s.io (addresses (s.iov.take kIovMax))
        simpa [not_not.mp hnil] using this
      rw [if_neg hnil, Sum.inr.injEq] at h
      rw [← h, hs.io, ← hleft, hzero, Nat.add_zero]
  · obtain ⟨n, hn⟩ : ∃ n, n = min (most + 1) (s.io.room isRead (addresses (s.iov.take kIovMax))) := ⟨_, rfl⟩
    have hwindow := s.window_le_left kIovMax isRead
    rw [wrapvFullBody_moves s most hn] at h
    by_cases hz : n = 0
    · have hzero : s.left kIovMax isRead = 0 := VecCursor.left_eq_zero (by omega)
      rw [if_pos hz, Sum.inr.injEq] at h
      rw [← h, hs.io, ← hleft, hzero, Nat.add_zero]
    · rw [if_neg hz] at h
      by_cases hlast : advance n s.iov = []
      · -- nothing is left of the array
        have hall : s.left kIovMax isRead = n := by
          have hdrop := addresses_advance n s.iov
          rw [hlast, addresses_nil, eq_comm, List.drop_eq_nil_iff] at hdrop
          have hroom := s.left_le_room kIovMax isRead
          have := Io.room_le isRead s.io (addresses s.iov)
          omega
        rw [if_pos hlast, Sum.inr.injEq] at h
        rw [← h, hs.moved, ← hleft, hall]
      · rw [if_neg hlast] at h
        contradiction

/-- **A vectored transfer** moves what is reached and there is room for, however it is cut up. -/
theorem wrapvFull_returns (hk : 0 < kIovMax) (isRead : Bool) (hok : OnlyEINTR outcomes) (io : Io) (iov : List Iovec) :
    Returns (addresses iov).length outcomes (wrapvFull kIovMax outcomes io iov isRead) fun r _ =>
      r = (.ok (VecCursor.left kIovMax isRead ⟨iov, 0, io⟩),
        io.moved isRead (addresses iov) (VecCursor.left kIovMax isRead ⟨iov, 0, io⟩)) := by
  constructor
  · intro henough
    refine drive_isSome (fun s => (addresses s.iov).length) Outcome.succeeds hok ?_ henough
    intro s o s' ho h
    obtain ⟨rfl, rfl⟩ | ⟨most, n, rfl, hpos, hn, rfl⟩ := wrapvFullBody_progress ho h
    · simp [Outcome.succeeds]
    · have hroom := s.left_le_room kIovMax isRead
      have hle := Io.room_le isRead s.io (addresses s.iov)
      simp only [Outcome.succeeds, if_true, addresses_advance, List.length_drop]
      omega
  · intro r rest hres
    have hstart : VecCursor.At kIovMax isRead io iov ⟨iov, 0, io⟩ := ⟨by simp, by simp, by simp, by simp⟩
    exact drive_result (P := fun r => r = (.ok (VecCursor.left kIovMax isRead ⟨iov, 0, io⟩),
        io.moved isRead (addresses iov) (VecCursor.left kIovMax isRead ⟨iov, 0, io⟩))) hstart hok
      (fun _ _ _ hs ho h => wrapvFullBody_keeps hk ho hs h) (fun _ _ _ hs ho h => wrapvFullBody_ends ho hs h) hres

/-! ### The members -/

theorem moved_writesAll_iff {m : ℕ} :
    io.WritesAll (addresses iov) (.ok m, io.moved false (addresses iov) m) ↔ m = (addresses iov).length := by
  constructor
  · intro h
    exact Except.ok.inj (Prod.mk.inj h).1
  · rintro rfl
    exact Io.moved_room_write io (addresses iov)

theorem moved_readsAll_iff {m : ℕ} :
    io.ReadsAll (addresses iov) (.ok m, io.moved true (addresses iov) m) ↔
      m = min (addresses iov).length io.incoming.length := by
  constructor
  · intro h
    exact Except.ok.inj (Prod.mk.inj h).1
  · rintro rfl
    exact Io.moved_room_read io (addresses iov)

/-- Everything is reached if there is no gap. -/
theorem reach_eq_iff : reach kIovMax iov = (addresses iov).length ↔ ∀ front, ¬GapBehind kIovMax iov front := by
  constructor
  · intro h front hgap
    obtain ⟨gap, back, rfl, -, hempty, hback⟩ := id hgap
    have hle := reach_le_of_gap hgap
    have hpos : addresses back ≠ [] := by
      rw [Ne, addresses_eq_nil_iff]
      push Not
      exact hback
    have := List.length_pos_iff.mpr hpos
    rw [addresses_append, addresses_append, addresses_eq_nil_iff.mpr hempty] at h
    simp only [List.append_nil, List.length_append] at h
    omega
  · intro hno
    by_contra hne
    have hle := reach_le kIovMax iov
    obtain ⟨front, hgap, -⟩ := gap_of_reach_lt (Nat.lt_of_le_of_ne hle ‹_›)
    exact hno front hgap

/-- The stream ends in what is reached if it ends in front of every gap. -/
theorem reach_min_eq_iff :
    min (reach kIovMax iov) n = min (addresses iov).length n ↔
      ∀ front, GapBehind kIovMax iov front → n ≤ (addresses front).length := by
  have hle := reach_le kIovMax iov
  constructor
  · intro h front hgap
    have hreach := reach_le_of_gap hgap
    have hne : reach kIovMax iov ≠ (addresses iov).length := fun heq => reach_eq_iff.mp heq front hgap
    omega
  · intro hall
    by_cases heq : reach kIovMax iov = (addresses iov).length
    · rw [heq]
    · obtain ⟨front, hgap, hfront⟩ := gap_of_reach_lt (Nat.lt_of_le_of_ne hle ‹_›)
      have := hall front hgap
      omega

/-- **Vectored transfers in full.** Over short transfers and interruptions `writevFull` writes
everything exactly if there is no gap of `kIovMax` empty buffers, and `readvFull` reads all it
can exactly if the stream ends in front of every gap. -/
theorem wrapvFull_transfers_iff (kIovMax : ℕ) (outcomes : List Outcome) (io : Io) (iov : List Iovec)
    (hk : 0 < kIovMax) (hok : OnlyEINTR outcomes) :
    Returns (addresses iov).length outcomes (writevFull kIovMax outcomes io iov) (fun r _ =>
        io.WritesAll (addresses iov) r ↔ ∀ front, ¬GapBehind kIovMax iov front) ∧
      Returns (addresses iov).length outcomes (readvFull kIovMax outcomes io iov) (fun r _ =>
        io.ReadsAll (addresses iov) r ↔
          ∀ front, GapBehind kIovMax iov front → io.incoming.length ≤ (addresses front).length) := by
  obtain ⟨hwret, hwall⟩ := wrapvFull_returns hk false hok io iov
  obtain ⟨hrret, hrall⟩ := wrapvFull_returns hk true hok io iov
  refine ⟨⟨hwret, fun r rest hres => ?_⟩, ⟨hrret, fun r rest hres => ?_⟩⟩
  · rw [hwall r rest hres]
    exact moved_writesAll_iff.trans reach_eq_iff
  · rw [hrall r rest hres]
    exact moved_readsAll_iff.trans reach_min_eq_iff

/-- Two buffers around an empty one, with the window of Linux. -/
theorem wrapvFull_transfers_three :
    (0 < 1024 ∧ OnlyEINTR [.moves 1, .failed .EINTR, .moves 1, .moves 0]) ∧
      Returns 3 [.moves 1, .failed .EINTR, .moves 1, .moves 0]
        (writevFull 1024 [.moves 1, .failed .EINTR, .moves 1, .moves 0] ⟨fun a => a.toUInt8, [], []⟩
          [⟨3, 1⟩, ⟨0, 0⟩, ⟨7, 2⟩])
        fun r _ => Io.WritesAll ⟨fun a => a.toUInt8, [], []⟩ (addresses [⟨3, 1⟩, ⟨0, 0⟩, ⟨7, 2⟩]) r := by
  have hok : OnlyEINTR [.moves 1, .failed .EINTR, .moves 1, .moves 0] := by simp [OnlyEINTR]
  obtain ⟨hret, hall⟩ := (wrapvFull_transfers_iff 1024 _ ⟨fun a => a.toUInt8, [], []⟩
    [⟨3, 1⟩, ⟨0, 0⟩, ⟨7, 2⟩] (by decide) hok).1
  refine ⟨⟨by decide, hok⟩, hret, fun r rest hres => (hall r rest hres).mpr ?_⟩
  rintro front ⟨gap, back, heq, hlen, -, -⟩
  have := congrArg List.length heq
  simp only [List.length_append, List.length_cons, List.length_nil] at this
  omega

theorem addresses_replicate_empty (k b : ℕ) : addresses (List.replicate k ⟨b, 0⟩) = [] := by
  rw [addresses_eq_nil_iff]
  intro v hv
  rw [List.eq_of_mem_replicate hv]

/-- A window of empty buffers ends the loop at once. -/
theorem wrapvFull_leading_gap (isRead : Bool) (outcomes : List Outcome) (io : Io) (k : ℕ) (iov : List Iovec)
    (most : ℕ) :
    wrapvFull k (.moves most :: outcomes) io (List.replicate k ⟨0, 0⟩ ++ iov) isRead =
      some ((.ok 0, io), outcomes) := by
  have htake : (List.replicate k (⟨0, 0⟩ : Iovec) ++ iov).take k = List.replicate k ⟨0, 0⟩ :=
    List.take_left' List.length_replicate
  have hwindow : addresses ((List.replicate k (⟨0, 0⟩ : Iovec) ++ iov).take k) = [] := by
    rw [htake, addresses_replicate_empty]
  have hn : 0 = min (most + 1) (io.room isRead (addresses ((List.replicate k (⟨0, 0⟩ : Iovec) ++ iov).take k))) := by
    rw [hwindow]
    have := Io.room_le isRead io []
    simp only [List.length_nil] at this
    omega
  apply drive_inr
  rw [wrapvFullBody_moves _ most hn, if_pos rfl]

/-- The byte behind 1024 empty buffers is not written. -/
theorem writevFull_gap :
    writevFull 1024 [.moves 0, .moves 0] ⟨fun _ => 0, [], []⟩ (List.replicate 1024 ⟨0, 0⟩ ++ [⟨0, 1⟩]) =
        some ((.ok 0, ⟨fun _ => 0, [], []⟩), [.moves 0]) ∧
      ¬Returns 1 [.moves 0, .moves 0]
        (writevFull 1024 [.moves 0, .moves 0] ⟨fun _ => 0, [], []⟩ (List.replicate 1024 ⟨0, 0⟩ ++ [⟨0, 1⟩]))
        fun r _ => Io.WritesAll ⟨fun _ => 0, [], []⟩ (addresses (List.replicate 1024 ⟨0, 0⟩ ++ [⟨0, 1⟩])) r := by
  have hres := wrapvFull_leading_gap false [.moves 0] ⟨fun _ => 0, [], []⟩ 1024 [⟨0, 1⟩] 0
  refine ⟨hres, ?_⟩
  rintro ⟨-, hcorrect⟩
  have hzero := congrArg Prod.fst (hcorrect _ _ hres)
  rw [addresses_append, addresses_replicate_empty] at hzero
  simp at hzero

end FileDescriptor

end EdenCommon
