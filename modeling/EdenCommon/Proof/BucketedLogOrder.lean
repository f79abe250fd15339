import EdenCommon.Proof.BucketedLog

/-!
# The order in which `getAll` returns the window

The window ends with the clock, the latest time passed to the log, but `getAll` reads the
cells from that of `now + 1` on. So it reads each position of the window from the cell of
some position (`getAll_snd_eq`), and the buckets come in the order of time exactly if the
positions that are mixed up hold equal buckets. They are not mixed up when `now` is the clock.
-/

namespace EdenCommon

namespace BucketedLog

open Lib (slot)

variable {B α : Type*} [Bucket B α] {Size : ℕ} [NeZero Size] {log : BucketedLog B Size} {clock now : ℕ}

/-- The window starts `Size` times before the end that the clock gives it. -/
theorem Clocked.windowStart (hSize : Size < 2 ^ 64) (h : log.Clocked clock) :
    clock + 1 < 2 ^ 64 ∧ log.windowStart_ = clock + 1 - Size ∧ log.InRange := by
  have hpos := Nat.pos_of_neZero Size
  unfold InRange
  induction h with
  | new => exact ⟨by omega, by simp only [BucketedLog.new]; omega, by simpa [BucketedLog.new] using hSize⟩
  | @op log clock op _ hop ih =>
    obtain ⟨hc, hs, hr⟩ := ih
    cases op with
    | add now x =>
      have hnow := hop now rfl
      have hws : (log.add now x).windowStart_ = max log.windowStart_ (now + 1 - Size) :=
        add_windowStart hr hnow x
      simp only [LogOp.time, LogOp.apply, Option.elim_some]
      omega
    | getAll now =>
      have hnow := hop now rfl
      have hws : (log.getAll now).1.windowStart_ = max log.windowStart_ (now + 1 - Size) :=
        advanceWindow_windowStart hr (by omega)
      simp only [LogOp.time, LogOp.apply, Option.elim_some]
      omega
    | clear => exact ⟨hc, hs, hr⟩
  | merge _ _ ih ih' =>
    obtain ⟨hc, hs, hr⟩ := ih
    obtain ⟨hc', hs', hr'⟩ := ih'
    have hws := merge_windowStart hr hr'
    omega

/-- Calling `getAll` leaves the buckets of the window that ends with the new clock. -/
theorem windowBucket_getAll (hr : log.InRange) (hs : log.windowStart_ = clock + 1 - Size) (hn : now < 2 ^ 64)
    (i : Fin Size) :
    (log.getAll now).1.windowBucket (max clock now) i = log.windowBucket (max clock now) i := by
  have hi := i.isLt
  change (log.advanceWindow now).windowBucket (max clock now) i = _
  unfold windowBucket
  split_ifs with h
  · -- the first window is not left
    have hu : log.advanceWindow now = log := by
      unfold InRange at hr
      unfold advanceWindow
      rw [u64_of_lt hr, if_pos (by omega)]
    rw [hu]
  · rw [held_advanceWindow hr hn, if_neg (by omega)]

/-- The buckets of a window that ends with `clock` are in the cells behind that of `clock`. -/
theorem buckets_eq_windowBucket (hs : log.windowStart_ = clock + 1 - Size) (i : Fin Size) :
    log.buckets_ (slot Size (clock + 1 + i)) = log.windowBucket clock i := by
  have hi := i.isLt
  unfold windowBucket
  split_ifs with h
  · rfl
  · have hslot : slot Size (clock + 1 + i - Size) = slot Size (clock + 1 + i) := by
      have hmod : clock + 1 + i - Size + Size ≡ clock + 1 + i - Size [MOD Size] := Nat.add_mod_right _ Size
      rw [Nat.sub_add_cancel (by omega)] at hmod
      exact (Lib.slot_eq_iff.2 hmod).symm
    rw [held_of_inWindow (by unfold InWindow; omega), hslot]

/-- **What `getAll` reads**: position `i` comes from the cell of position `j`. -/
theorem getAll_snd_eq (hr : log.InRange) (hs : log.windowStart_ = clock + 1 - Size) (hn : now < 2 ^ 64)
    {i j : Fin Size} (hij : u64 (now + 1 + i) ≡ max clock now + 1 + j [MOD Size]) :
    (log.getAll now).2 i = log.windowBucket (max clock now) j := by
  have hws : (log.advanceWindow now).windowStart_ = max clock now + 1 - Size := by
    rw [advanceWindow_windowStart hr hn]
    omega
  change (log.advanceWindow now).buckets_ (slot Size (u64 (now + 1 + i))) = _
  rw [Lib.slot_eq_iff.2 hij, buckets_eq_windowBucket hws]
  exact windowBucket_getAll hr hs hn j

omit [NeZero Size] in
/-- At the latest time so far, the positions are not mixed up. -/
theorem eq_of_read (hle : clock ≤ now) (hn : now + Size < 2 ^ 64) {i j : Fin Size}
    (hij : u64 (now + 1 + i) ≡ max clock now + 1 + j [MOD Size]) : i = j := by
  have hi := i.isLt
  rw [u64_of_lt (by omega), max_eq_right hle] at hij
  have hmod : (i : ℕ) ≡ j [MOD Size] := Nat.ModEq.add_left_cancel' _ hij
  exact Fin.ext (Nat.ModEq.eq_of_lt_of_lt hmod hi j.isLt)

/-- **The window in order.** `getAll(now)` returns the buckets of the log's window from the
oldest to the most recent one if and only if either no later time than `now` was passed to
the log (and `now` is not among the last `Size` of all times), or any two positions of the
window of which one is read from the cell of the other hold equal buckets. -/
theorem getAll_inOrder_iff (hSize : Size < 2 ^ 64) (h : log.Clocked clock) (hn : now < 2 ^ 64) :
    (∀ i, (log.getAll now).2 i = (log.getAll now).1.windowBucket (max clock now) i) ↔
      (clock ≤ now ∧ now + Size < 2 ^ 64) ∨
      ∀ i j : Fin Size, u64 (now + 1 + i) ≡ max clock now + 1 + j [MOD Size] →
        log.windowBucket (max clock now) i = log.windowBucket (max clock now) j := by
  obtain ⟨-, hs, hr⟩ := h.windowStart hSize
  constructor
  · intro hall
    refine .inr fun i j hij => ?_
    rw [← windowBucket_getAll hr hs hn, ← hall i, getAll_snd_eq hr hs hn hij]
  · rintro hcond i
    -- every cell is that of one position of the window
    obtain ⟨t, h1, h2, ht⟩ := Lib.exists_slot (max clock now + 1) (slot Size (u64 (now + 1 + i)))
    obtain ⟨j, rfl⟩ : ∃ j : Fin Size, max clock now + 1 + j = t := ⟨⟨t - (max clock now + 1), by omega⟩, by simp; omega⟩
    have hij := (Lib.slot_eq_iff.1 ht).symm
    rw [windowBucket_getAll hr hs hn, getAll_snd_eq hr hs hn hij]
    rcases hcond with ⟨hle, hlast⟩ | hequal
    · rw [eq_of_read hle hlast hij]
    · exact (hequal i j hij).symm

/-- At the latest time. -/
theorem getAll_inOrder_latest :
    ((BucketedLog.new : BucketedLog Counter 3).add 4 1).Clocked 4 ∧
      ∀ i, (((BucketedLog.new : BucketedLog Counter 3).add 4 1).getAll 5).2 i =
        (((BucketedLog.new : BucketedLog Counter 3).add 4 1).getAll 5).1.windowBucket 5 i := by
  have h : ((BucketedLog.new : BucketedLog Counter 3).add 4 1).Clocked 4 := .op (.add 4 1) .new (by decide)
  exact ⟨h, (getAll_inOrder_iff (by decide) h (by decide)).2 (.inl (by decide))⟩

/-- At an older time the most recent bucket comes first. -/
theorem getAll_rotated :
    (((BucketedLog.new : BucketedLog Counter 3).add 4 1).add 5 2).Clocked 5 ∧
      (List.finRange 3).map ((((BucketedLog.new : BucketedLog Counter 3).add 4 1).add 5 2).getAll 4).2 =
        [⟨2⟩, ⟨0⟩, ⟨1⟩] ∧
      ¬ ∀ i, ((((BucketedLog.new : BucketedLog Counter 3).add 4 1).add 5 2).getAll 4).2 i =
        ((((BucketedLog.new : BucketedLog Counter 3).add 4 1).add 5 2).getAll 4).1.windowBucket (max 5 4) i :=
  ⟨.op (.add 5 2) (.op (.add 4 1) .new (by decide)) (by decide), by decide, by decide⟩

end BucketedLog

end EdenCommon
