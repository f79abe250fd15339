import EdenCommon.Spec.FileDescriptor
import Mathlib.Tactic.ByContra
import Mathlib.Tactic.Set

/-!
# Which transfers in full are complete

`Io.room` is how much a call can move at most, and `Io.moved` what a transfer of `n` bytes leaves
behind; transfers of neighbouring pieces are one transfer (`Io.moved_moved`). Every round of the
loop of `wrapFull` moves the next piece: `Cursor.At` is its invariant, and
`wrapFullBody_keeps` and `wrapFullBody_ends` say what the rounds do with it. An interrupted call
of no bytes ends the loop: `wrapFull_transfers_iff` says where that matters.

* `wrapFull_returns`: a transfer in full moves all there is room for, however the kernel
  cuts it up. A call that moves nothing is the end of the stream (`wrapFullBody_progress`).
* `oneOperation_iff`: the single-shot variants make one successful call, unless the first
  thing that happens to a call of no bytes is an interruption.
-/

namespace EdenCommon

open Lib

namespace FileDescriptor

/-- How many bytes can be moved to or from `buf`. -/
def Io.room (isRead : Bool) (io : Io) (buf : List ℕ) : ℕ :=
  if isRead then min buf.length io.incoming.length else buf.length

/-- The first `n` bytes are moved to or from `buf`. -/
def Io.moved (isRead : Bool) (io : Io) (buf : List ℕ) (n : ℕ) : Io :=
  if isRead then
    { io with memory := io.memory.storeAt (buf.take n) (io.incoming.take n), incoming := io.incoming.drop n }
  else { io with written := io.written ++ io.memory.loadAt (buf.take n) }

variable {isRead onlyOnce : Bool} {io io' : Io} {buf buf' : List ℕ} {n k : ℕ} {outcomes rest : List Outcome}

theorem Io.room_le (isRead : Bool) (io : Io) (buf : List ℕ) : io.room isRead buf ≤ buf.length := by
  unfold Io.room
  split <;> omega

theorem Io.room_read_le (io : Io) (buf : List ℕ) : io.room true buf ≤ io.incoming.length := by
  unfold Io.room
  rw [if_pos rfl]
  omega

theorem Io.room_of_write (io : Io) (buf : List ℕ) (h : isRead = false) : io.room isRead buf = buf.length := by
  rw [h]
  rfl

@[simp] theorem Io.moved_zero : io.moved isRead buf 0 = io := by
  unfold Io.moved
  split <;> simp [Memory.loadAt]

/-- What is left to move behind the first `n` bytes. -/
theorem Io.room_moved (hn : n ≤ io.room isRead buf) :
    (io.moved isRead buf n).room isRead (buf.drop n) = io.room isRead buf - n := by
  unfold Io.room Io.moved at *
  cases isRead with
  | false => simp
  | true =>
    simp only [if_true, List.length_drop] at *
    omega

/-- **Two pieces** that follow each other are one. -/
theorem Io.moved_moved (hn : n ≤ io.room isRead buf) :
    (io.moved isRead buf n).moved isRead (buf.drop n) k = io.moved isRead buf (n + k) := by
  cases isRead with
  | false => simp [Io.moved, Memory.loadAt, List.take_add]
  | true =>
    have hbuf := Nat.le_trans hn (Io.room_le true io buf)
    have hin := Nat.le_trans hn (Io.room_read_le io buf)
    have hlen : (buf.take n).length = (io.incoming.take n).length := by
      rw [List.length_take, List.length_take]
      omega
    simp [Io.moved, List.take_add, Memory.storeAt_append hlen]

/-- All there is room for is moved: everything is written, or read until one of the two ends. -/
theorem Io.moved_room_write (io : Io) (buf : List ℕ) :
    io.WritesAll buf (.ok (io.room false buf), io.moved false buf (io.room false buf)) := by
  simp [Io.WritesAll, Io.room, Io.moved]

theorem Io.moved_room_read (io : Io) (buf : List ℕ) :
    io.ReadsAll buf (.ok (io.room true buf), io.moved true buf (io.room true buf)) := by
  have hdrop : io.incoming.drop (min buf.length io.incoming.length) = io.incoming.drop buf.length := by
    rcases Nat.le_total buf.length io.incoming.length with hle | hle
    · rw [Nat.min_eq_left hle]
    · rw [Nat.min_eq_right hle, List.drop_length, List.drop_eq_nil_of_le hle]
  simp [Io.ReadsAll, Io.room, Io.moved, Memory.storeAt_take (Nat.le_refl _), hdrop]

/-! ### One system call -/

theorem transfer_failed (e : Errno) :
    (if isRead then io.readv buf (.failed e) else io.writev buf (.failed e)) = (.error e, io) := by
  cases isRead <;> simp [Io.readv, Io.writev]

theorem transfer_moves (most : ℕ) (hn : n = min (most + 1) (io.room isRead buf)) :
    (if isRead then io.readv buf (.moves most) else io.writev buf (.moves most)) =
      (.ok n, io.moved isRead buf n) := by
  rw [hn]
  cases isRead <;> simp [Io.readv, Io.writev, Io.room, Io.moved]

@[simp] theorem transfers_EINTR : transfers (.failed .EINTR :: outcomes) = transfers outcomes := by
  simp [transfers, Outcome.succeeds]

@[simp] theorem transfers_moves (most : ℕ) : transfers (.moves most :: outcomes) = transfers outcomes + 1 :=
  List.countP_cons_of_pos rfl

/-- An outcome is an interruption or a transfer. -/
theorem outcome_cases {o : Outcome} (h : ∀ errcode, o ≠ .failed (.other errcode)) :
    o = .failed .EINTR ∨ ∃ most, o = .moves most := by
  cases o with
  | failed e =>
    cases e with
    | EINTR => exact Or.inl rfl
    | other errcode => exact absurd rfl (h errcode)
  | moves most => exact Or.inr ⟨most, rfl⟩

/-! ### The rounds of `wrapFull` -/

theorem wrapFullBody_EINTR (s : Cursor) :
    wrapFullBody isRead onlyOnce s (.failed .EINTR) =
      if s.count ≠ 0 then .inl s else .inr (.ok s.totalBytes, s.io) := by
  unfold wrapFullBody
  simp only [transfer_failed]

theorem wrapFullBody_moves (s : Cursor) (most : ℕ)
    (hn : n = min (most + 1) (s.io.room isRead (List.range' s.b s.count))) :
    wrapFullBody isRead onlyOnce s (.moves most) =
      if isRead ∧ n = 0 then .inr (.ok s.totalBytes, s.io.moved isRead (List.range' s.b s.count) n)
      else if onlyOnce ∨ s.count - n = 0 then
        .inr (.ok (s.totalBytes + n), s.io.moved isRead (List.range' s.b s.count) n)
      else
        .inl ⟨s.b + n, s.count - n, s.totalBytes + n, s.io.moved isRead (List.range' s.b s.count) n⟩ := by
  unfold wrapFullBody
  simp only [transfer_moves most hn]

/-- A round that goes on behind a transfer has moved something. -/
theorem wrapFullBody_progress {s s' : Cursor} {o : Outcome} (ho : ∀ errcode, o ≠ .failed (.other errcode))
    (h : wrapFullBody isRead onlyOnce s o = .inl s') :
    o = .failed .EINTR ∧ s' = s ∨
      ∃ most n, o = .moves most ∧ n = min (most + 1) (s.io.room isRead (List.range' s.b s.count)) ∧
        0 < n ∧ n < s.count ∧ onlyOnce = false ∧
        s' = ⟨s.b + n, s.count - n, s.totalBytes + n, s.io.moved isRead (List.range' s.b s.count) n⟩ := by
  obtain rfl | ⟨most, rfl⟩ := outcome_cases ho
  · rw [wrapFullBody_EINTR] at h
    by_cases hc : s.count ≠ 0
    · rw [if_pos hc, Sum.inl.injEq] at h
      exact Or.inl ⟨rfl, h.symm⟩
    · rw [if_neg hc] at h
      contradiction
  · obtain ⟨n, hn⟩ : ∃ n, n = min (most + 1) (s.io.room isRead (List.range' s.b s.count)) := ⟨_, rfl⟩
    rw [wrapFullBody_moves s most hn] at h
    by_cases heof : isRead ∧ n = 0
    · rw [if_pos heof] at h
      contradiction
    · by_cases hlast : onlyOnce ∨ s.count - n = 0
      · rw [if_neg heof, if_pos hlast] at h
        contradiction
      · rw [if_neg heof, if_neg hlast, Sum.inl.injEq] at h
        have hpos : 0 < n := by
          apply Nat.pos_of_ne_zero
          intro hz
          have hf : isRead = false := by simpa [hz] using heof
          have hroom := Io.room_of_write s.io (List.range' s.b s.count) hf
          rw [List.length_range'] at hroom
          omega
        refine Or.inr ⟨most, n, rfl, hn, hpos, by omega, ?_, h.symm⟩
        simpa using (not_or.mp hlast).1

/-- `size` bytes at `buf` are to be moved from `io` on, and the first ones have been. -/
structure Cursor.At (isRead : Bool) (io : Io) (buf size : ℕ) (s : Cursor) : Prop where
  total : s.totalBytes ≤ io.room isRead (List.range' buf size)
  b : s.b = buf + s.totalBytes
  count : s.count = size - s.totalBytes
  io : s.io = io.moved isRead (List.range' buf size) s.totalBytes

variable {size : ℕ} {b : ℕ}

theorem Cursor.At.range {s : Cursor} (h : s.At isRead io b size) :
    List.range' s.b s.count = (List.range' b size).drop s.totalBytes := by
  rw [h.b, h.count]
  simp

/-- The room that is left. -/
theorem Cursor.At.room {s : Cursor} (h : s.At isRead io b size) :
    s.io.room isRead (List.range' s.b s.count) = io.room isRead (List.range' b size) - s.totalBytes := by
  rw [h.range, h.io]
  exact Io.room_moved h.total

/-- The first pieces and the next one. -/
theorem Cursor.At.moved {s : Cursor} (h : s.At isRead io b size) :
    s.io.moved isRead (List.range' s.b s.count) n = io.moved isRead (List.range' b size) (s.totalBytes + n) := by
  rw [h.range, h.io]
  exact Io.moved_moved h.total

theorem wrapFullBody_keeps {s s' : Cursor} {o : Outcome} (ho : ∀ errcode, o ≠ .failed (.other errcode))
    (hs : s.At isRead io b size) (h : wrapFullBody isRead onlyOnce s o = .inl s') : s'.At isRead io b size := by
  obtain ⟨-, rfl⟩ | ⟨most, n, -, hn, hpos, hlt, -, rfl⟩ := wrapFullBody_progress ho h
  · exact hs
  · have hb := hs.b
    have hc := hs.count
    have ht := hs.total
    rw [hs.room] at hn
    exact ⟨by simp only; omega, by simp only; omega, by simp only; omega, hs.moved⟩

/-- **The last round** of a transfer in full leaves nothing that there was room for. -/
theorem wrapFullBody_ends {s : Cursor} {o : Outcome} {r : Returned} (ho : ∀ errcode, o ≠ .failed (.other errcode))
    (hs : s.At isRead io b size) (h : wrapFullBody isRead false s o = .inr r) :
    r = (.ok (io.room isRead (List.range' b size)),
      io.moved isRead (List.range' b size) (io.room isRead (List.range' b size))) := by
  set room := io.room isRead (List.range' b size) with hroom
  have hle : room ≤ size := by simpa using Io.room_le isRead io (List.range' b size)
  have hb := hs.b
  have hc := hs.count
  have ht : s.totalBytes ≤ room := hs.total
  obtain rfl | ⟨most, rfl⟩ := outcome_cases ho
  · rw [wrapFullBody_EINTR] at h
    by_cases hz : s.count ≠ 0
    · rw [if_pos hz] at h
      contradiction
    · rw [if_neg hz, Sum.inr.injEq] at h
      rw [← h, hs.io, show s.totalBytes = room by omega]
  · obtain ⟨n, hn⟩ : ∃ n, n = min (most + 1) (s.io.room isRead (List.range' s.b s.count)) := ⟨_, rfl⟩
    rw [wrapFullBody_moves s most hn, hs.moved] at h
    rw [hs.room, ← hroom] at hn
    by_cases heof : isRead ∧ n = 0
    · rw [if_pos heof, Sum.inr.injEq] at h
      rw [← h, heof.2, Nat.add_zero, show s.totalBytes = room by omega]
    · rw [if_neg heof] at h
      by_cases hlast : s.count - n = 0
      · rw [if_pos (Or.inr hlast), Sum.inr.injEq] at h
        rw [← h, show s.totalBytes + n = room by omega]
      · rw [if_neg (by simpa using hlast)] at h
        contradiction

/-- **A transfer in full** moves all there is room for, however it is cut up. -/
theorem wrapFull_returns (isRead : Bool) (hok : OnlyEINTR outcomes) (io : Io) (b size : ℕ) :
    Returns size outcomes (wrapFull outcomes io b size isRead false) fun r _ =>
      r = (.ok (io.room isRead (List.range' b size)),
        io.moved isRead (List.range' b size) (io.room isRead (List.range' b size))) := by
  constructor
  · intro henough
    refine drive_isSome Cursor.count Outcome.succeeds hok ?_ henough
    intro s o s' ho h
    obtain ⟨rfl, rfl⟩ | ⟨most, n, rfl, hn, hpos, hlt, -, rfl⟩ := wrapFullBody_progress ho h
    · simp [Outcome.succeeds]
    · simp only [Outcome.succeeds, if_true]
      omega
  · intro r rest hres
    have hstart : Cursor.At isRead io b size ⟨b, size, 0, io⟩ := ⟨by simp, by simp, by simp, by simp⟩
    exact drive_result (P := fun r => r = (.ok (io.room isRead (List.range' b size)),
        io.moved isRead (List.range' b size) (io.room isRead (List.range' b size)))) hstart hok (fun _ _ _ hs ho h => wrapFullBody_keeps ho hs h)
      (fun _ _ _ hs ho h => wrapFullBody_ends ho hs h) hres

/-! ### The single-shot variants -/

/-- The rounds in front of the only transfer are interruptions. -/
theorem run_goesOn_once (hok : OnlyEINTR outcomes) {s s' : Cursor}
    (h : run (goesOn (wrapFullBody isRead true)) s outcomes = some s') : s' = s ∧ transfers outcomes = 0 := by
  induction outcomes with
  | nil => exact ⟨(Option.some.inj h).symm, rfl⟩
  | cons o outcomes ih =>
    obtain ⟨s₁, hs, hrun⟩ := run_cons_eq_some.mp h
    have ho := hok o List.mem_cons_self
    obtain ⟨rfl, rfl⟩ | ⟨most, n, -, -, -, -, hfalse, -⟩ := wrapFullBody_progress ho (goesOn_eq_some.mp hs)
    · rw [transfers_EINTR]
      exact ih (fun x hx => hok x (List.mem_cons_of_mem _ hx)) hrun
    · contradiction

/-- One operation, unless the first thing that happens to a call of no bytes is an interruption. -/
theorem oneOperation_iff (isRead : Bool) (hok : OnlyEINTR outcomes) (io : Io) (b size : ℕ) :
    Returns 0 outcomes (wrapFull outcomes io b size isRead true)
        (OneOperation
          (fun o => if isRead then io.readv (List.range' b size) o else io.writev (List.range' b size) o) outcomes) ↔
      size ≠ 0 ∨ outcomes.head? ≠ some (.failed .EINTR) := by
  set s : Cursor := ⟨b, size, 0, io⟩ with hs
  constructor
  · rintro ⟨-, hall⟩
    by_contra hcon
    simp only [ne_eq, not_or, not_not] at hcon
    obtain ⟨hz, hhead⟩ := hcon
    obtain ⟨tail, rfl⟩ := List.head?_eq_some_iff.mp hhead
    have hend : wrapFullBody isRead true s (.failed .EINTR) = .inr (.ok 0, io) := by
      rw [wrapFullBody_EINTR, if_neg (by simpa [hs] using hz)]
    obtain ⟨most, -, -, hcount⟩ := hall _ _ (drive_inr hend)
    rw [transfers_EINTR] at hcount
    omega
  · intro hc
    constructor
    · intro henough
      -- no round that goes on is a transfer
      refine drive_isSome (fun _ => 0) Outcome.succeeds hok ?_ henough
      intro s o s' ho h
      obtain ⟨rfl, rfl⟩ | ⟨most, n, -, -, -, -, hfalse, -⟩ := wrapFullBody_progress ho h
      · simp [Outcome.succeeds]
      · contradiction
    · intro r rest hres
      obtain ⟨pre, o, s', rfl, hrun, hend⟩ := drive_eq_some.mp hres
      obtain ⟨rfl, hpre⟩ := run_goesOn_once (fun x hx => hok x (List.mem_append_left _ hx)) hrun
      have hsplit : transfers (pre ++ o :: rest) = transfers (o :: rest) := by
        unfold transfers at *
        rw [List.countP_append, hpre, Nat.zero_add]
      obtain rfl | ⟨most, rfl⟩ := outcome_cases (hok o (by simp))
      · -- an interruption ends the call only if there is nothing to move, and then it is the first
        rw [wrapFullBody_EINTR] at hend
        by_cases hz : size = 0
        · cases pre with
          | nil => simp [hz] at hc
          | cons x pre =>
            obtain ⟨s₁, hx, -⟩ := run_cons_eq_some.mp hrun
            have hxo := hok x (by simp)
            obtain ⟨rfl, rfl⟩ | ⟨most, n, -, -, -, -, hfalse, -⟩ := wrapFullBody_progress hxo (goesOn_eq_some.mp hx)
            · simp [hz] at hc
            · contradiction
        · rw [if_pos (by simpa [hs] using hz)] at hend
          contradiction
      · refine ⟨most, by simp, ?_, ?_⟩
        · obtain ⟨n, hn⟩ : ∃ n, n = min (most + 1) (io.room isRead (List.range' b size)) := ⟨_, rfl⟩
          rw [wrapFullBody_moves s most hn] at hend
          simp only [transfer_moves most hn]
          by_cases heof : isRead ∧ n = 0
          · rw [if_pos heof, Sum.inr.injEq] at hend
            rw [← hend, heof.2]
          · rw [if_neg heof, if_pos (Or.inl rfl), Sum.inr.injEq] at hend
            rw [← hend, hs, Nat.zero_add]
        · rw [hsplit, transfers_moves]

/-! ### The members -/

theorem writeFull_returns (hok : OnlyEINTR outcomes) (io : Io) (b size : ℕ) :
    Returns size outcomes (writeFull outcomes io b size) fun r _ => io.WritesAll (List.range' b size) r := by
  obtain ⟨hret, hall⟩ := wrapFull_returns false hok io b size
  refine ⟨hret, fun r rest hres => ?_⟩
  rw [hall r rest hres]
  exact Io.moved_room_write io _

theorem readFull_returns (hok : OnlyEINTR outcomes) (io : Io) (b size : ℕ) :
    Returns size outcomes (readFull outcomes io b size) fun r _ => io.ReadsAll (List.range' b size) r := by
  obtain ⟨hret, hall⟩ := wrapFull_returns true hok io b size
  refine ⟨hret, fun r rest hres => ?_⟩
  rw [hall r rest hres]
  exact Io.moved_room_read io _

/-- **Transfers in full.** Over short transfers and interruptions `writeFull` and `readFull` move
everything, and the single-shot variants make one successful call unless the call of no bytes
is interrupted at once. -/
theorem wrapFull_transfers_iff (outcomes : List Outcome) (io : Io) (b size : ℕ) (hok : OnlyEINTR outcomes) :
    (Returns size outcomes (writeFull outcomes io b size) (fun r _ => io.WritesAll (List.range' b size) r) ∧
      Returns size outcomes (readFull outcomes io b size) (fun r _ => io.ReadsAll (List.range' b size) r) ∧
      Returns 0 outcomes (readNoInt outcomes io b size) (OneOperation (io.readv (List.range' b size)) outcomes) ∧
      Returns 0 outcomes (writeNoInt outcomes io b size) (OneOperation (io.writev (List.range' b size)) outcomes)) ↔
    size ≠ 0 ∨ outcomes.head? ≠ some (.failed .EINTR) := by
  have hread := oneOperation_iff true hok io b size
  have hwrite := oneOperation_iff false hok io b size
  constructor
  · rintro ⟨-, -, hone, -⟩
    exact hread.mp hone
  · intro hc
    exact ⟨writeFull_returns hok io b size, readFull_returns hok io b size, hread.mpr hc, hwrite.mpr hc⟩

/-- Two bytes written one at a time, with an interruption in between. -/
theorem wrapFull_transfers_two :
    OnlyEINTR [.moves 0, .failed .EINTR, .moves 0] ∧
      Returns 2 [.moves 0, .failed .EINTR, .moves 0]
        (writeFull [.moves 0, .failed .EINTR, .moves 0] ⟨fun a => a.toUInt8, [], []⟩ 5 2)
        fun r _ => Io.WritesAll ⟨fun a => a.toUInt8, [], []⟩ (List.range' 5 2) r :=
  have hok : OnlyEINTR [.moves 0, .failed .EINTR, .moves 0] := by simp [OnlyEINTR]
  ⟨hok, ((wrapFull_transfers_iff _ _ _ _ hok).mpr (by decide)).1⟩

/-- The write of no bytes is not made again. -/
theorem writeNoInt_interrupted :
    ¬Returns 0 [.failed .EINTR, .moves 0] (writeNoInt [.failed .EINTR, .moves 0] ⟨fun _ => 0, [], []⟩ 0 0)
      (OneOperation (Io.writev ⟨fun _ => 0, [], []⟩ (List.range' 0 0)) [.failed .EINTR, .moves 0]) := by
  have hres : writeNoInt [.failed .EINTR, .moves 0] ⟨fun _ => 0, [], []⟩ 0 0 =
      some ((.ok 0, ⟨fun _ => 0, [], []⟩), [.moves 0]) := rfl
  rintro ⟨-, hall⟩
  obtain ⟨most, -, -, hcount⟩ := hall _ _ hres
  rw [transfers_EINTR] at hcount
  omega

end FileDescriptor

end EdenCommon
