import EdenCommon.Lib.Run
import EdenCommon.Spec.BucketedLog

/-!
# `BucketedLog` is an exact sliding window

Everything is said through `held`, the bucket of each time: a log is determined by its
window start and by what it holds (`ext_held`), and each operation is one equation for
both.

* `held_advanceWindow`: a jump of any size drops exactly the times it leaves behind.
* `held_add`, `held_clear`, `held_merge`: the other operations.
* `apply_accumulates`: one operation keeps "the log holds what was added".
* `getAll_exact`: what `getAll` returns after any run.
-/

namespace EdenCommon

namespace BucketedLog

open Lib (slot)

variable {B α : Type*} [Bucket B α] {Size : ℕ} [NeZero Size] {a b log : BucketedLog B Size}
  {now t : ℕ}

theorem u64_of_lt {n : ℕ} (h : n < 2 ^ 64) : u64 n = n := Nat.mod_eq_of_lt h

theorem u64_sub {m n : ℕ} (hm : m < 2 ^ 64) (h : n ≤ m) : u64 (m + 2 ^ 64 - n) = m - n := by
  unfold u64
  rw [show m + 2 ^ 64 - n = m - n + 2 ^ 64 by omega, Nat.add_mod_right,
    Nat.mod_eq_of_lt (by omega)]

/-- The start of the window that ends with `now`. -/
theorem u64_newWindowStart (hn : now < 2 ^ 64) (h : Size ≤ now + 1) :
    u64 (u64 (now + 1) + 2 ^ 64 - Size) = now + 1 - Size := by
  have hpos := Nat.pos_of_neZero Size
  rcases Nat.lt_or_ge (now + 1) (2 ^ 64) with hlt | hge
  · rw [u64_of_lt hlt, u64_sub hlt h]
  · -- the sum wraps to zero, and the difference wraps back
    obtain rfl : now = 2 ^ 64 - 1 := by omega
    rw [show u64 (2 ^ 64 - 1 + 1) = 0 from rfl, u64_of_lt (by omega)]
    omega

/-- The window ends before `2 ^ 64`. -/
def InRange (log : BucketedLog B Size) : Prop := log.windowStart_ + Size < 2 ^ 64

theorem held_of_inWindow (h : log.InWindow t) : log.held t = log.buckets_ (slot Size t) := if_pos h

theorem held_of_not_inWindow (h : ¬ log.InWindow t) : log.held t = Bucket.empty := if_neg h

/-- A log is its window start and what it holds in its window. -/
theorem ext_held (hs : a.windowStart_ = b.windowStart_)
    (hh : ∀ t, a.InWindow t → a.held t = b.held t) : a = b := by
  refine BucketedLog.ext (funext fun i => ?_) hs
  obtain ⟨t, h1, h2, rfl⟩ := Lib.exists_slot a.windowStart_ i
  have ha : a.InWindow t := ⟨h1, h2⟩
  have hb : b.InWindow t := by unfold InWindow at ha ⊢; rw [← hs]; exact ha
  rw [← held_of_inWindow ha, ← held_of_inWindow hb]
  exact hh t ha

/-- The window start after the clock has reached `now`. -/
theorem advanceWindow_windowStart (hr : log.InRange) (hn : now < 2 ^ 64) :
    (log.advanceWindow now).windowStart_ = max log.windowStart_ (now + 1 - Size) := by
  unfold InRange at hr
  unfold advanceWindow
  rw [u64_of_lt hr]
  split_ifs with h
  · omega
  · change u64 (u64 (now + 1) + 2 ^ 64 - Size) = _
    rw [u64_newWindowStart hn (by omega)]
    omega

/-- **Advancing the window** by any distance empties the times it leaves behind and
keeps the others; the times it gains are empty. -/
theorem held_advanceWindow (hr : log.InRange) (hn : now < 2 ^ 64) (t : ℕ) :
    (log.advanceWindow now).held t = if t < now + 1 - Size then Bucket.empty else log.held t := by
  have hs := advanceWindow_windowStart hr hn
  unfold InRange at hr
  rcases Nat.lt_or_ge now (log.windowStart_ + Size) with h | h
  · have hu : log.advanceWindow now = log := by
      unfold advanceWindow; rw [u64_of_lt hr, if_pos h]
    rw [hu]
    split_ifs with ht
    · exact held_of_not_inWindow fun hw => by have := hw.1; omega
    · rfl
  · -- the loop clears the cells of the last `toClear` times before the new window
    set start := now + 1 - Size with hstart
    set toClear := min Size (start - log.windowStart_) with hclear
    have hu : (log.advanceWindow now).buckets_ =
        Lib.mapRange (fun _ => Bucket.clear) log.buckets_ (start - toClear) toClear := by
      have hnot : ¬ now < u64 (log.windowStart_ + Size) := by rw [u64_of_lt hr]; omega
      unfold advanceWindow
      rw [if_neg hnot]
      have hsize := Nat.pos_of_neZero Size
      simp only [u64_newWindowStart hn (show Size ≤ now + 1 by omega), ← hstart,
        u64_sub (show start < 2 ^ 64 by omega) (show log.windowStart_ ≤ start by omega), ← hclear,
        u64_sub (show start < 2 ^ 64 by omega) (show toClear ≤ start by omega)]
      rw [show start - (start - toClear) = toClear by omega]
    rw [max_eq_right (by omega)] at hs
    by_cases hw : start ≤ t ∧ t < start + Size
    · rw [held_of_inWindow (by unfold InWindow; rw [hs]; exact hw), hu, if_neg (by omega)]
      by_cases hold : t < log.windowStart_ + Size
      · -- still in the old window: no cleared time shares the cell of `t`
        rw [held_of_inWindow ⟨by omega, hold⟩]
        refine Lib.mapRange_of_forall_ne _ _ fun p h1 h2 he => ?_
        have := Lib.slot_inj (a := log.windowStart_) ⟨by omega, by omega⟩ ⟨by omega, hold⟩ he
        omega
      · -- new in the window: its cell is that of a time `t - Size` that was cleared
        rw [held_of_not_inWindow fun h' => hold h'.2]
        have hp : slot Size (t - Size) = slot Size t := by
          have hm : t - Size + Size ≡ t - Size [MOD Size] := Nat.add_mod_right _ Size
          rw [Nat.sub_add_cancel (by omega)] at hm
          exact Lib.slot_eq_iff.2 hm.symm
        rw [← hp, Lib.mapRange_slot _ _ (by omega) (by omega) (by omega), Bucket.clear_eq]
    · rw [held_of_not_inWindow (by unfold InWindow; rw [hs]; exact hw)]
      split_ifs with ht
      · rfl
      · exact (held_of_not_inWindow fun h' => by unfold InWindow at h'; omega).symm

/-! ### One equation for each operation -/

theorem add_windowStart (hr : log.InRange) (hn : now + 1 < 2 ^ 64) (x : α) :
    (log.add now x).windowStart_ = max log.windowStart_ (now + 1 - Size) := by
  have := Nat.pos_of_neZero Size
  unfold add
  split_ifs with h
  · omega
  · exact advanceWindow_windowStart hr (by omega)

/-- A stale value is dropped; any other is added to the bucket of its time, and the
window moves on. -/
theorem held_add (hr : log.InRange) (hn : now + 1 < 2 ^ 64) (x : α)
    (ht : (log.add now x).windowStart_ ≤ t) :
    (log.add now x).held t = if t = now then Bucket.add (log.held t) x else log.held t := by
  have hpos := Nat.pos_of_neZero Size
  have hs := add_windowStart hr hn x
  rw [hs] at ht
  by_cases h : now < log.windowStart_
  · have hu : log.add now x = log := by unfold add; rw [if_pos h]
    rw [hu, if_neg (by omega)]
  have hadv : ∀ t, now + 1 - Size ≤ t → (log.advanceWindow now).held t = log.held t := by
    intro t h'
    rw [held_advanceWindow hr (by omega), if_neg (by omega)]
  have hw := advanceWindow_windowStart hr (show now < 2 ^ 64 by omega)
  have hu : log.add now x = { log.advanceWindow now with
      buckets_ := Function.update (log.advanceWindow now).buckets_ (slot Size now)
        (Bucket.add ((log.advanceWindow now).buckets_ (slot Size now)) x) } := by
    unfold add; rw [if_neg h]
  have hnow : (log.advanceWindow now).InWindow now := by unfold InWindow; rw [hw]; omega
  rw [hu]
  split_ifs with he
  · subst he
    rw [← hadv t (by omega), held_of_inWindow hnow, held_of_inWindow (by exact hnow)]
    exact Function.update_self _ _ _
  · rw [← hadv t (by omega)]
    by_cases hin : (log.advanceWindow now).InWindow t
    · have hne : slot Size t ≠ slot Size now := fun h' => he (Lib.slot_inj hin hnow h')
      rw [held_of_inWindow hin, held_of_inWindow (by exact hin)]
      exact Function.update_of_ne hne _ _
    · rw [held_of_not_inWindow hin, held_of_not_inWindow (by exact hin)]

theorem held_clear (log : BucketedLog B Size) (t : ℕ) : log.clear.held t = Bucket.empty := by
  unfold held clear
  split_ifs
  · exact Bucket.clear_eq _
  · rfl

/-- `getAll` finds the bucket of time `now - Size + 1 + i` in cell `i` of its answer. -/
theorem getAll_snd (hr : log.InRange) (hn : now + Size < 2 ^ 64) (hs : log.windowStart_ ≤ now + 1 - Size)
    (i : Fin Size) :
    (log.getAll now).2 i =
      (log.advanceWindow now).held (if now + 1 + i < Size then now + 1 + i else now + 1 + i - Size) := by
  have hi := i.isLt
  have hw := advanceWindow_windowStart hr (show now < 2 ^ 64 by omega)
  rw [max_eq_right hs] at hw
  have hu : (log.getAll now).2 i = (log.advanceWindow now).buckets_ (slot Size (now + 1 + i)) := by
    change (log.advanceWindow now).buckets_ (slot Size (u64 (now + 1 + i))) = _
    rw [u64_of_lt (by omega)]
  rw [hu]
  split_ifs with h
  · rw [held_of_inWindow (by unfold InWindow; omega)]
  · have hm : now + 1 + i - Size + Size ≡ now + 1 + i - Size [MOD Size] := Nat.add_mod_right _ Size
    rw [Nat.sub_add_cancel (by omega)] at hm
    rw [held_of_inWindow (by unfold InWindow; omega), Lib.slot_eq_iff.2 hm]

theorem merge_windowStart (ha : a.InRange) (hb : b.InRange) :
    (a.merge b).windowStart_ = max a.windowStart_ b.windowStart_ := by
  have := Nat.pos_of_neZero Size
  unfold InRange at hb
  change (a.advanceWindow (u64 (b.windowStart_ + Size - 1))).windowStart_ = _
  rw [u64_of_lt (by omega), advanceWindow_windowStart ha (by omega)]
  omega

/-- **Merging** joins the buckets of the times that both windows have and leaves the
others of the new window as they were. -/
theorem held_merge (ha : a.InRange) (hb : b.InRange) (ht : (a.merge b).InWindow t) :
    (a.merge b).held t =
      if b.InWindow t then Bucket.merge (a.held t) (b.held t) else a.held t := by
  have hpos := Nat.pos_of_neZero Size
  have hs := merge_windowStart ha hb
  have ht' := ht
  unfold InWindow at ht'
  rw [hs] at ht'
  unfold InRange at ha hb
  set log := a.advanceWindow (b.windowStart_ + Size - 1) with hlog
  have hlogS : log.windowStart_ = max a.windowStart_ b.windowStart_ := by
    rw [hlog, advanceWindow_windowStart ha (by omega)]
    omega
  have hu : (a.merge b).buckets_ = Lib.mapRange
      (fun i bucket => if i ≥ b.windowStart_ ∧ i < b.windowStart_ + Size then
        Bucket.merge bucket (b.buckets_ (slot Size i)) else bucket)
      log.buckets_ log.windowStart_ Size := by
    unfold merge
    simp only [u64_of_lt (show b.windowStart_ + Size - 1 < 2 ^ 64 by omega), ← hlog, u64_of_lt hb,
      u64_of_lt (show log.windowStart_ + Size < 2 ^ 64 by omega), Nat.add_sub_cancel_left]
  have hin : log.InWindow t := by unfold InWindow; rw [hlogS]; exact ht'
  have hold : log.buckets_ (slot Size t) = a.held t := by
    rw [← held_of_inWindow hin, hlog, held_advanceWindow ha (by omega), if_neg (by omega)]
  rw [held_of_inWindow ht, hu, Lib.mapRange_slot _ _ le_rfl hin.1 hin.2, hold]
  by_cases h : b.InWindow t
  · rw [if_pos h, held_of_inWindow h, if_pos ⟨h.1, h.2⟩]
  · rw [if_neg h, if_neg fun h' => h ⟨h'.1, h'.2⟩]

/-- A time that the merged window has is in the other window, or that log holds nothing
for it. -/
theorem held_of_merge (ha : a.InRange) (hb : b.InRange) (hm : ∀ x : B, Bucket.merge x Bucket.empty = x)
    (ht : (a.merge b).InWindow t) : (a.merge b).held t = Bucket.merge (a.held t) (b.held t) := by
  rw [held_merge ha hb ht]
  split_ifs with h
  · rfl
  · rw [held_of_not_inWindow h, hm]

/-! ### Runs -/

/-- The log holds, for every time its window has not left behind, what `adds` put there. -/
def Accumulates (log : BucketedLog B Size) (adds : List (ℕ × α)) : Prop :=
  ∀ t, log.windowStart_ ≤ t → log.held t = accumulate B adds t

theorem accumulate_concat (adds : List (ℕ × α)) (s : ℕ) (x : α) (t : ℕ) :
    accumulate B (adds ++ [(s, x)]) t =
      if t = s then Bucket.add (accumulate B adds t) x else accumulate B adds t := by
  unfold accumulate
  rw [List.filter_append]
  by_cases h : t = s
  · simp [h]
  · simp [h, Ne.symm h]

theorem apply_windowStart (hr : log.InRange) (hSize : Size < 2 ^ 64) {op : LogOp α} (hop : op.Timely Size) :
    (op.apply log).windowStart_ = max log.windowStart_ (op.time.elim 0 fun t => t + 1 - Size) := by
  have hpos := Nat.pos_of_neZero Size
  cases op with
  | add now x =>
    have := hop now rfl
    exact add_windowStart hr (by omega) x
  | getAll now =>
    have := hop now rfl
    exact advanceWindow_windowStart hr (by omega)
  | clear => exact (Nat.max_eq_left (Nat.zero_le _)).symm

theorem InRange.apply (hr : log.InRange) (hSize : Size < 2 ^ 64) {op : LogOp α} (hop : op.Timely Size) :
    (op.apply log).InRange := by
  have hpos := Nat.pos_of_neZero Size
  have hs := apply_windowStart hr hSize hop
  unfold InRange at hr ⊢
  rw [hs]
  cases h : op.time with
  | none => simpa using hr
  | some t =>
    have := hop t h
    simp only [Option.elim_some]
    omega

/-- **One operation.** What a log holds follows the adds since the last `clear`. -/
theorem apply_accumulates (hr : log.InRange) (hSize : Size < 2 ^ 64) {op : LogOp α} (hop : op.Timely Size)
    {adds : List (ℕ × α)} (hacc : log.Accumulates adds) : (op.apply log).Accumulates (op.addsAfter adds) := by
  have hpos := Nat.pos_of_neZero Size
  have hs := apply_windowStart hr hSize hop
  intro t ht
  have hle : log.windowStart_ ≤ t := by omega
  cases op with
  | add now x =>
    have := hop now rfl
    change (log.add now x).held t = accumulate B (adds ++ [(now, x)]) t
    rw [held_add hr (by omega) x ht, accumulate_concat, hacc t hle]
  | getAll now =>
    have := hop now rfl
    have hnow : now + 1 - Size ≤ t := by simp [LogOp.time] at hs; omega
    change (log.advanceWindow now).held t = accumulate B adds t
    rw [held_advanceWindow hr (by omega), if_neg (by omega), hacc t hle]
  | clear => exact held_clear log t

end BucketedLog

open BucketedLog

variable {B α : Type*} [Bucket B α] {Size : ℕ} [NeZero Size]

theorem LogOp.addsSinceClear_concat (ops : List (LogOp α)) (op : LogOp α) :
    addsSinceClear (ops ++ [op]) = op.addsAfter (addsSinceClear ops) := by
  unfold addsSinceClear
  rw [List.foldl_append]
  rfl

/-- The timestamps of the adds since the last `clear` were passed by an operation. -/
theorem LogOp.time_of_mem_addsSinceClear {ops : List (LogOp α)} {e : ℕ × α} (he : e ∈ addsSinceClear ops) :
    ∃ op ∈ ops, e.1 ∈ op.time := by
  induction ops using List.reverseRecOn with
  | nil => cases he
  | append_singleton ops op ih =>
    rw [addsSinceClear_concat] at he
    have hold : e ∈ addsSinceClear ops → ∃ op' ∈ ops ++ [op], e.1 ∈ op'.time := by
      intro h
      obtain ⟨op', h1, h2⟩ := ih h
      exact ⟨op', List.mem_append_left _ h1, h2⟩
    cases op with
    | add now x =>
      rcases List.mem_append.1 he with h | h
      · exact hold h
      · rw [List.mem_singleton] at h
        exact ⟨.add now x, by simp, by rw [h]; rfl⟩
    | getAll now => exact hold he
    | clear => cases he

/-- What every run keeps: the window starts no later than the latest timestamp allows,
and the log holds what was added since the last `clear`. -/
theorem run_accumulates (hSize : Size < 2 ^ 64) {ops : List (LogOp α)} (hops : ∀ op ∈ ops, op.Timely Size) :
    let log := ops.foldl LogOp.apply (.new : BucketedLog B Size)
    log.InRange ∧ log.Accumulates (LogOp.addsSinceClear ops) ∧
      ∀ now, (∀ op ∈ ops, ∀ t ∈ op.time, t ≤ now) → log.windowStart_ ≤ now + 1 - Size := by
  induction ops using List.reverseRecOn with
  | nil =>
    refine ⟨by simpa [InRange, BucketedLog.new] using hSize, ?_, ?_⟩
    · intro t _
      unfold held BucketedLog.new
      split_ifs <;> rfl
    · intro now _
      exact Nat.zero_le _
  | append_singleton ops op ih =>
    obtain ⟨hr, hacc, hws⟩ := ih fun o ho => hops o (List.mem_append_left _ ho)
    have hop := hops op (by simp)
    rw [List.foldl_append, LogOp.addsSinceClear_concat]
    refine ⟨hr.apply hSize hop, apply_accumulates hr hSize hop hacc, fun now hnow => ?_⟩
    have h1 := hws now fun o ho => hnow o (List.mem_append_left _ ho)
    have h2 := apply_windowStart hr hSize hop
    simp only [List.foldl_cons, List.foldl_nil]
    rw [h2]
    cases h : op.time with
    | none => simpa using h1
    | some t =>
      have := hnow op (by simp) t h
      simp only [Option.elim_some]
      omega

/-- **The exact sliding window.** After any run of `add`, `getAll` and `clear`, in any
time order, `getAll(now)` at the latest time so far answers, in cell `i`, the in-order
accumulation of the values added since the last `clear` for time `now - Size + 1 + i`,
and an empty bucket where this time would be negative. -/
theorem getAll_exact (hSize : Size < 2 ^ 64) (ops : List (LogOp α)) (hops : ∀ op ∈ ops, op.Timely Size)
    (now : ℕ) (hnow : now ≤ 2 ^ 64 - 1 - Size) (hlast : ∀ op ∈ ops, ∀ t ∈ op.time, t ≤ now)
    (i : Fin Size) :
    ((ops.foldl LogOp.apply (.new : BucketedLog B Size)).getAll now).2 i =
      if now + 1 + i < Size then Bucket.empty
      else accumulate B (LogOp.addsSinceClear ops) (now + 1 + i - Size) := by
  have hpos := Nat.pos_of_neZero Size
  obtain ⟨hr, hacc, hws⟩ := run_accumulates (B := B) hSize hops
  set log := ops.foldl LogOp.apply (.new : BucketedLog B Size)
  have hle := hws now hlast
  rw [getAll_snd hr (by omega) hle, held_advanceWindow hr (by omega)]
  split_ifs with h
  · rfl
  · -- a cell of a time later than `now`: nothing was added there
    rw [hacc _ (by omega)]
    unfold accumulate
    rw [List.filter_eq_nil_iff.2]
    · rfl
    · intro e he
      obtain ⟨op, hop, ht⟩ := LogOp.time_of_mem_addsSinceClear he
      have := hlast op hop e.1 ht
      simp only [decide_eq_true_eq]
      omega
  · omega
  · exact hacc _ (by omega)

/-- A bucket that counts: `add` and `merge` are addition. -/
structure Counter where
  total : ℕ
  deriving DecidableEq, Repr

instance : Bucket Counter ℕ where
  empty := ⟨0⟩
  add b x := ⟨b.total + x⟩
  merge b b' := ⟨b.total + b'.total⟩
  clear _ := ⟨0⟩
  clear_eq _ := rfl

/-- Two buckets: of the adds at times 4, 6, 5 and 3, in this order, the last is stale. -/
theorem getAll_exact_counter :
    ((([.add 4 1, .add 6 2, .add 5 3, .add 3 4] : List (LogOp ℕ)).foldl LogOp.apply
      (.new : BucketedLog Counter 2)).getAll 6).2 0 = ⟨3⟩ := by
  rw [getAll_exact (by decide) _ (by decide) 6 (by decide) (by decide) 0]
  decide

end EdenCommon
