import EdenCommon.Proof.BucketedLog

/-!
# `BucketedLog::merge` merges sliding windows

`merge` first brings the window up to the other log's, then joins the buckets of the
times that both windows have. Where `Bucket::merge` is a commutative monoid whose
identity is the cleared bucket, so is the merge of logs. A merge is not a replay of the
other log's adds alone: the other window may be ahead of every add that it retains, and
`Bucket::add` need not be a merge with one value. With the window advanced first and such
an `add` it is (`merge_eq_replay`).
-/

namespace EdenCommon

namespace BucketedLog

open Lib (slot)

variable {B α : Type*} [Bucket B α] {Size : ℕ} [NeZero Size] {a b c log : BucketedLog B Size}
  {adds xs ys zs : List (ℕ × α)}

theorem InRange.merge (ha : a.InRange) (hb : b.InRange) : (a.merge b).InRange := by
  have hs := merge_windowStart ha hb
  unfold InRange at ha hb ⊢
  omega

theorem Reachable.inRange (hSize : Size < 2 ^ 64) (h : log.Reachable adds) : log.InRange := by
  induction h with
  | new => simpa [InRange, BucketedLog.new] using hSize
  | op op _ hop ih => exact ih.apply hSize hop
  | merge _ _ iha ihb => exact iha.merge ihb

/-- No add lies beyond the window. -/
theorem Reachable.lt_end (hSize : Size < 2 ^ 64) (h : log.Reachable adds) :
    ∀ e ∈ adds, e.1 < log.windowStart_ + Size := by
  induction h with
  | new => simp
  | @op log adds op hlog hop ih =>
    intro e he
    have hs := apply_windowStart (hlog.inRange hSize) hSize hop
    have hold : e ∈ adds → e.1 < (op.apply log).windowStart_ + Size := by
      intro he; have := ih e he; omega
    cases op with
    | add now x =>
      rcases List.mem_append.1 he with h | h
      · exact hold h
      · rw [List.mem_singleton] at h
        simp only [LogOp.time, Option.elim_some] at hs
        rw [h]; change now < _; omega
    | getAll now => exact hold he
    | clear => cases he
  | merge ha hb iha ihb =>
    intro e he
    rw [merge_windowStart (ha.inRange hSize) (hb.inRange hSize)]
    rcases List.mem_append.1 he with h | h
    · have := iha e h; omega
    · have := ihb e h; omega

/-! ### The laws of merging -/

theorem merge_comm (hB : Bucket.IsCommMonoid B) (ha : a.InRange) (hb : b.InRange) :
    a.merge b = b.merge a := by
  have hs : (a.merge b).windowStart_ = (b.merge a).windowStart_ := by
    rw [merge_windowStart ha hb, merge_windowStart hb ha, max_comm]
  refine ext_held hs fun t ht => ?_
  have ht' : (b.merge a).InWindow t := by unfold InWindow; rw [← hs]; exact ht
  rw [held_of_merge ha hb hB.merge_empty ht, held_of_merge hb ha hB.merge_empty ht', hB.comm]

/-- What a merge holds for a time that a later window has. -/
theorem held_merge_of_le (hm : ∀ x : B, Bucket.merge x Bucket.empty = x) (ha : a.InRange) (hb : b.InRange)
    {t : ℕ} (ht : (a.merge b).windowStart_ ≤ t) :
    (a.merge b).held t = Bucket.merge (a.held t) (b.held t) := by
  by_cases h : (a.merge b).InWindow t
  · exact held_of_merge ha hb hm h
  · -- `t` is past both windows
    have hs := merge_windowStart ha hb
    have hend : ¬ t < (a.merge b).windowStart_ + Size := fun h' => h ⟨ht, h'⟩
    have h1 : ¬ a.InWindow t := fun h' => by have := h'.2; omega
    have h2 : ¬ b.InWindow t := fun h' => by have := h'.2; omega
    rw [held_of_not_inWindow h, held_of_not_inWindow h1, held_of_not_inWindow h2, hm]

theorem merge_assoc (hB : Bucket.IsCommMonoid B) (ha : a.InRange) (hb : b.InRange) (hc : c.InRange) :
    (a.merge b).merge c = a.merge (b.merge c) := by
  have hm := hB.merge_empty
  have hab := merge_windowStart ha hb
  have hbc := merge_windowStart hb hc
  have h1 := merge_windowStart (ha.merge hb) hc
  have h2 := merge_windowStart ha (hb.merge hc)
  have hs : ((a.merge b).merge c).windowStart_ = (a.merge (b.merge c)).windowStart_ := by omega
  refine ext_held hs fun t ht => ?_
  have hle := ht.1
  rw [held_merge_of_le hm (ha.merge hb) hc hle, held_merge_of_le hm ha hb (by omega),
    held_merge_of_le hm ha (hb.merge hc) (by omega), held_merge_of_le hm hb hc (by omega), hB.assoc]

/-! ### Replaying the adds of the other log -/

/-- Adding values one by one is one merge with all of them. -/
theorem foldl_add (hB : Bucket.IsCommMonoid B)
    (hadd : ∀ (x : B) (e : α), Bucket.add x e = Bucket.merge x (Bucket.add Bucket.empty e)) (x : B) (es : List α) :
    es.foldl Bucket.add x = Bucket.merge x (es.foldl Bucket.add Bucket.empty) := by
  induction es using List.reverseRecOn with
  | nil => exact (hB.merge_empty x).symm
  | append_singleton es e ih =>
    simp only [List.foldl_append, List.foldl_cons, List.foldl_nil]
    calc Bucket.add (es.foldl Bucket.add x) e
        = Bucket.merge (Bucket.merge x (es.foldl Bucket.add Bucket.empty)) (Bucket.add Bucket.empty e) := by
          rw [hadd, ih]
      _ = Bucket.merge x (Bucket.add (es.foldl Bucket.add Bucket.empty) e) := by
          rw [hB.assoc, ← hadd]

/-- The values added for time `t` in a list of adds. -/
def valuesAt (adds : List (ℕ × α)) (t : ℕ) : List α := (adds.filter fun e => e.1 = t).map Prod.snd

theorem valuesAt_append (xs ys : List (ℕ × α)) (t : ℕ) :
    valuesAt (xs ++ ys) t = valuesAt xs t ++ valuesAt ys t := by
  unfold valuesAt
  rw [List.filter_append, List.map_append]

/-- The log of any history holds its retained adds. -/
theorem Reachable.accumulates (hSize : Size < 2 ^ 64) (hB : Bucket.IsCommMonoid B)
    (hadd : ∀ (x : B) (e : α), Bucket.add x e = Bucket.merge x (Bucket.add Bucket.empty e))
    (h : log.Reachable adds) : log.Accumulates adds := by
  induction h with
  | new =>
    intro t _
    unfold held BucketedLog.new
    split_ifs <;> rfl
  | op op hlog hop ih => exact apply_accumulates (hlog.inRange hSize) hSize hop ih
  | @merge log adds other adds' ha hb iha ihb =>
    intro t ht
    have hs := merge_windowStart (ha.inRange hSize) (hb.inRange hSize)
    rw [held_merge_of_le hB.merge_empty (ha.inRange hSize) (hb.inRange hSize) ht, iha t (by omega),
      ihb t (by omega)]
    change _ = (valuesAt (adds ++ adds') t).foldl Bucket.add Bucket.empty
    rw [valuesAt_append, List.foldl_append]
    exact (foldl_add hB hadd _ _).symm

/-- Replaying adds that lie before the end of the window leaves the window in place and
adds, in order, those that the window has. -/
theorem replay_spec (hr : log.InRange) {es : List (ℕ × α)} (hes : ∀ e ∈ es, e.1 < log.windowStart_ + Size) :
    (log.replay es).windowStart_ = log.windowStart_ ∧
      ∀ t, log.windowStart_ ≤ t →
        (log.replay es).held t = (valuesAt es t).foldl Bucket.add (log.held t) := by
  have hpos := Nat.pos_of_neZero Size
  induction es using List.reverseRecOn with
  | nil => exact ⟨rfl, fun _ _ => rfl⟩
  | append_singleton es e ih =>
    obtain ⟨hs, hh⟩ := ih fun e' he' => hes e' (List.mem_append_left _ he')
    have he := hes e (by simp)
    have hr' : (log.replay es).InRange := by unfold InRange; rw [hs]; exact hr
    have hn : e.1 + 1 < 2 ^ 64 := by unfold InRange at hr; omega
    have hu : log.replay (es ++ [e]) = (log.replay es).add e.1 e.2 := by
      unfold replay; rw [List.foldl_append]; rfl
    have hs' : ((log.replay es).add e.1 e.2).windowStart_ = log.windowStart_ := by
      rw [add_windowStart hr' hn, hs]; omega
    rw [hu]
    refine ⟨hs', fun t ht => ?_⟩
    rw [held_add hr' hn e.2 (by omega), hh t ht, valuesAt_append, List.foldl_append]
    by_cases h : t = e.1
    · simp [valuesAt, h]
    · simp [valuesAt, h, Ne.symm h]

/-- **A merge is a replay** of the other log's retained adds into this log, once its
window has been advanced to the other's. -/
theorem merge_eq_replay (hSize : Size < 2 ^ 64) (hB : Bucket.IsCommMonoid B)
    (hadd : ∀ (x : B) (e : α), Bucket.add x e = Bucket.merge x (Bucket.add Bucket.empty e))
    (ha : a.InRange) (hb : b.Reachable ys) :
    a.merge b = (a.getAll (b.windowStart_ + Size - 1)).1.replay (b.retained ys) := by
  have hpos := Nat.pos_of_neZero Size
  have hbr := hb.inRange hSize
  have hbr' := hbr
  unfold InRange at hbr'
  have hs := merge_windowStart ha hbr
  set adv := (a.getAll (b.windowStart_ + Size - 1)).1 with hadv
  have hadvS : adv.windowStart_ = max a.windowStart_ b.windowStart_ := by
    rw [hadv]
    change (a.advanceWindow _).windowStart_ = _
    rw [advanceWindow_windowStart ha (by omega)]
    omega
  have hadvR : adv.InRange := by unfold InRange at ha ⊢; omega
  have hlt : ∀ e ∈ b.retained ys, e.1 < adv.windowStart_ + Size := by
    intro e he
    have := hb.lt_end hSize e (List.mem_filter.1 he).1
    omega
  obtain ⟨hrs, hrh⟩ := replay_spec hadvR hlt
  refine ext_held (by omega) fun t ht => ?_
  have hle := ht.1
  rw [held_merge_of_le hB.merge_empty ha hbr hle, hrh t (by omega), foldl_add hB hadd]
  congr 1
  -- advancing the window does not touch the buckets that it keeps
  · rw [hadv]
    change _ = (a.advanceWindow _).held t
    rw [held_advanceWindow ha (by omega), if_neg (by omega)]
  · rw [hb.accumulates hSize hB hadd t (by omega)]
    -- the values for `t` are those of the retained adds, since the window has `t`
    unfold accumulate valuesAt retained
    rw [List.filter_filter]
    congr 2
    refine List.filter_congr fun e _ => ?_
    by_cases h : e.1 = t
    · simp [h]; omega
    · simp [h]

end BucketedLog

open BucketedLog

variable {B α : Type*} [Bucket B α] {Size : ℕ} [NeZero Size]

/-- **Merging sliding windows.** The merged window starts where the later one does. For
every time of it the bucket is the merge of both buckets where the other window has this
time, else the one that this log held; where the cleared bucket is an identity this is
the merge of what both held. Merging is then commutative and associative, and it is the
replay of the other log's retained adds after the window has been advanced to the
other's, if adding a value is merging with a bucket of this value alone. -/
theorem merge_windows (hSize : Size < 2 ^ 64) (a b : BucketedLog B Size) (xs ys : List (ℕ × α))
    (ha : a.Reachable xs) (hb : b.Reachable ys) :
    (a.merge b).windowStart_ = max a.windowStart_ b.windowStart_ ∧
    (∀ t, (a.merge b).InWindow t →
      (a.merge b).held t = if b.InWindow t then Bucket.merge (a.held t) (b.held t) else a.held t) ∧
    ((∀ x : B, Bucket.merge x Bucket.empty = x) → ∀ t, (a.merge b).InWindow t →
      (a.merge b).held t = Bucket.merge (a.held t) (b.held t)) ∧
    (Bucket.IsCommMonoid B →
      a.merge b = b.merge a ∧
      (∀ (c : BucketedLog B Size) (zs : List (ℕ × α)), c.Reachable zs →
        (a.merge b).merge c = a.merge (b.merge c)) ∧
      ((∀ (x : B) (e : α), Bucket.add x e = Bucket.merge x (Bucket.add Bucket.empty e)) →
        a.merge b = (a.getAll (b.windowStart_ + Size - 1)).1.replay (b.retained ys))) := by
  have har := ha.inRange hSize
  have hbr := hb.inRange hSize
  refine ⟨merge_windowStart har hbr, fun t ht => held_merge har hbr ht,
    fun hm t ht => held_of_merge har hbr hm ht, fun hB => ⟨merge_comm hB har hbr, ?_, ?_⟩⟩
  · intro c zs hc
    exact merge_assoc hB har hbr (hc.inRange hSize)
  · intro hadd
    exact merge_eq_replay hSize hB hadd har hb

theorem Counter.isCommMonoid : Bucket.IsCommMonoid Counter where
  comm a b := congrArg Counter.mk (Nat.add_comm a.total b.total)
  assoc a b c := congrArg Counter.mk (Nat.add_assoc a.total b.total c.total)
  merge_empty _ := rfl

theorem Counter.add_eq (x : Counter) (e : ℕ) : Bucket.add x e = Bucket.merge x (Bucket.add Bucket.empty e) :=
  congrArg (fun n => Counter.mk (x.total + n)) (Nat.zero_add e).symm

/-- Two overlapping windows of two buckets: the one of times 0 and 1, the other of times
1 and 2. -/
theorem merge_windows_counter :
    let a := (BucketedLog.new : BucketedLog Counter 2).add 1 5
    let b := (BucketedLog.new : BucketedLog Counter 2).add 2 7
    (a.merge b).windowStart_ = 1 ∧ (a.merge b).held 1 = ⟨5⟩ ∧ (a.merge b).held 2 = ⟨7⟩ ∧
      a.merge b = (a.getAll 2).1.replay [(2, 7)] := by
  have ha : ((BucketedLog.new : BucketedLog Counter 2).add 1 5).Reachable [(1, 5)] :=
    Reachable.op (.add 1 5) .new (by decide)
  have hb : ((BucketedLog.new : BucketedLog Counter 2).add 2 7).Reachable [(2, 7)] :=
    Reachable.op (.add 2 7) .new (by decide)
  obtain ⟨h1, h2, -, h4⟩ := merge_windows (by decide) _ _ _ _ ha hb
  refine ⟨h1, ?_, ?_, (h4 Counter.isCommMonoid).2.2 Counter.add_eq⟩
  · rw [h2 1 (by decide)]; decide
  · rw [h2 2 (by decide)]; decide

/-- A bucket that adds values up but merges by the larger total. -/
structure Peak where
  total : ℕ
  deriving DecidableEq, Repr

instance : Bucket Peak ℕ where
  empty := ⟨0⟩
  add b x := ⟨b.total + x⟩
  merge b b' := ⟨max b.total b'.total⟩
  clear _ := ⟨0⟩
  clear_eq _ := rfl

theorem Peak.isCommMonoid : Bucket.IsCommMonoid Peak where
  comm a b := congrArg Peak.mk (Nat.max_comm a.total b.total)
  assoc a b c := congrArg Peak.mk (Nat.max_assoc a.total b.total c.total)
  merge_empty a := congrArg Peak.mk (Nat.max_eq_left (Nat.zero_le a.total))

/-- A bucket that counts its merges. -/
structure Tally where
  total : ℕ
  deriving DecidableEq, Repr

instance : Bucket Tally ℕ where
  empty := ⟨0⟩
  add b x := ⟨b.total + x⟩
  merge b b' := ⟨b.total + b'.total + 1⟩
  clear _ := ⟨0⟩
  clear_eq _ := rfl

/-- A merge is not a replay of the retained adds: the other window may be ahead of them,
and `add` may differ from a merge. Nor does it merge with an empty bucket for a time
outside the other window. -/
theorem merge_is_not_replay :
    (let a := (BucketedLog.new : BucketedLog Counter 2).add 0 1
     let b := ((BucketedLog.new : BucketedLog Counter 2).getAll 5).1
     Bucket.IsCommMonoid Counter ∧ a.Reachable [(0, 1)] ∧ b.Reachable [] ∧
       a.merge b ≠ a.replay (b.retained ([] : List (ℕ × ℕ))) ∧
       (a.merge b).held 0 = ⟨0⟩ ∧ (a.replay (b.retained ([] : List (ℕ × ℕ)))).held 0 = ⟨1⟩) ∧
    (let a := (BucketedLog.new : BucketedLog Peak 2).add 0 1
     Bucket.IsCommMonoid Peak ∧ a.Reachable [(0, 1)] ∧ a.merge a ≠ a.replay (a.retained [(0, 1)])) ∧
    (let a := ((BucketedLog.new : BucketedLog Tally 2).getAll 5).1
     let b := (BucketedLog.new : BucketedLog Tally 2)
     a.Reachable [] ∧ b.Reachable [] ∧ (a.merge b).InWindow 4 ∧
       (a.merge b).held 4 ≠ Bucket.merge (a.held 4) (b.held 4)) := by
  refine ⟨⟨Counter.isCommMonoid, Reachable.op (.add 0 1) .new (by decide),
    Reachable.op (.getAll 5) .new (by decide), fun h => ?_, by decide, by decide⟩,
    ⟨Peak.isCommMonoid, Reachable.op (.add 0 1) .new (by decide), fun h => ?_⟩,
    ⟨Reachable.op (.getAll 5) .new (by decide), .new, by decide, by decide⟩⟩
  · exact absurd (congrArg BucketedLog.windowStart_ h) (by decide)
  · exact absurd (congrArg (fun log => log.buckets_ 0) h) (by decide)

end EdenCommon
