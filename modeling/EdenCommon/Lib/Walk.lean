import Mathlib.Data.List.Induction
import Mathlib.Order.Lattice
import Mathlib.Algebra.Order.Group.Nat

/-!
# Walks in a tree of names

A walk is a list of moves: stay, go up, go down to a name. `walk` follows it from a
position, given as the names below the root; going up at the root stays there.

* `net`: what a walk amounts to without its starting point, some moves up and then
  some moves down.
* `walk_eq`: following a walk is following its net.
* `net_up_le`, `exists_net_up`: the moves up of the net are the largest lead the
  moves up take over the moves down.
-/

namespace Lib

variable {α : Type*}

inductive Move (α : Type*)
  | stay
  | up
  | down (a : α)

/-- One move from a position. -/
def move (pos : List α) : Move α → List α
  | .stay => pos
  | .up => pos.dropLast
  | .down a => pos ++ [a]

/-- The position reached from `pos`. -/
def walk (pos : List α) (ms : List (Move α)) : List α := ms.foldl move pos

/-- One move added to a net of `n.1` moves up and then the moves down `n.2`. -/
def netMove (n : ℕ × List α) : Move α → ℕ × List α
  | .stay => n
  | .up => if n.2 = [] then (n.1 + 1, []) else (n.1, n.2.dropLast)
  | .down a => (n.1, n.2 ++ [a])

/-- The net of a walk: moves up, then moves down. -/
def net (ms : List (Move α)) : ℕ × List α := ms.foldl netMove (0, [])

/-- The number of moves up, and of moves down. -/
def ups (ms : List (Move α)) : ℕ := ms.countP fun m => match m with | .up => true | _ => false
def downs (ms : List (Move α)) : ℕ := ms.countP fun m => match m with | .down _ => true | _ => false

theorem netMove_up (n : ℕ × List α) :
    netMove n .up = if n.2 = [] then (n.1 + 1, []) else (n.1, n.2.dropLast) := rfl

theorem net_concat (ms : List (Move α)) (m : Move α) : net (ms ++ [m]) = netMove (net ms) m := by
  simp [net, List.foldl_append]

theorem walk_concat (pos : List α) (ms : List (Move α)) (m : Move α) :
    walk pos (ms ++ [m]) = move (walk pos ms) m := by simp [walk, List.foldl_append]

theorem walk_append (pos : List α) (ms ms' : List (Move α)) :
    walk pos (ms ++ ms') = walk (walk pos ms) ms' := List.foldl_append

/-- **Following a walk is following its net.** -/
theorem walk_eq (pos : List α) (ms : List (Move α)) :
    walk pos ms = pos.take (pos.length - (net ms).1) ++ (net ms).2 := by
  induction ms using List.reverseRecOn with
  | nil => simp [walk, net]
  | append_singleton ms m ih =>
    rw [walk_concat, net_concat, ih]
    cases m with
    | stay => rfl
    | down a => simp [move, netMove]
    | up =>
      rw [netMove_up]
      show List.dropLast (_ ++ _) = _
      by_cases h : (net ms).2 = []
      · rw [if_pos h, h, List.append_nil, List.append_nil, List.dropLast_eq_take, List.take_take,
          List.length_take]
        congr 1; omega
      · rw [if_neg h, List.dropLast_append_of_ne_nil h]

/-- The walk of a net that goes up nowhere, from the root. -/
theorem walk_nil_eq (ms : List (Move α)) : walk [] ms = (net ms).2 := by rw [walk_eq]; simp

@[simp] theorem ups_concat (ms : List (Move α)) (m : Move α) :
    ups (ms ++ [m]) = ups ms + match m with | .up => 1 | _ => 0 := by
  unfold ups; rw [List.countP_append, List.countP_singleton]; cases m <;> rfl

@[simp] theorem downs_concat (ms : List (Move α)) (m : Move α) :
    downs (ms ++ [m]) = downs ms + match m with | .down _ => 1 | _ => 0 := by
  unfold downs; rw [List.countP_append, List.countP_singleton]; cases m <;> rfl

/-- A walk and its net go up and down by the same difference. -/
theorem net_balance (ms : List (Move α)) : ups ms + (net ms).2.length = downs ms + (net ms).1 := by
  induction ms using List.reverseRecOn with
  | nil => simp [ups, downs, net]
  | append_singleton ms m ih =>
    rw [net_concat, ups_concat, downs_concat]
    cases m with
    | stay => simpa [netMove] using ih
    | down a => simp only [netMove, List.length_append, List.length_singleton]; omega
    | up =>
      rw [netMove_up]
      by_cases h : (net ms).2 = []
      · rw [if_pos h]; rw [h] at ih; simp only [List.length_nil] at ih ⊢; omega
      · have := List.length_pos_iff.2 h
        rw [if_neg h]; simp only [List.length_dropLast]; omega

theorem net_up_mono (ms : List (Move α)) (m : Move α) : (net ms).1 ≤ (net (ms ++ [m])).1 := by
  rw [net_concat]
  cases m with
  | stay => exact le_rfl
  | down a => exact le_rfl
  | up => rw [netMove_up]; split <;> simp

/-- At no point do the moves up lead the moves down by more than the net goes up. -/
theorem net_up_le (ms : List (Move α)) : ∀ pre, pre <+: ms → ups pre ≤ downs pre + (net ms).1 := by
  induction ms using List.reverseRecOn with
  | nil => intro pre hp; rw [List.prefix_nil.1 hp]; simp [ups]
  | append_singleton ms m ih =>
    intro pre hp
    rcases List.prefix_concat_iff.1 hp with rfl | hp
    · have := net_balance (ms ++ [m]); omega
    · have h1 := ih pre hp
      have h2 := net_up_mono ms m
      omega

/-- At some point they lead by exactly that. -/
theorem exists_net_up (ms : List (Move α)) : ∃ pre, pre <+: ms ∧ ups pre = downs pre + (net ms).1 := by
  induction ms using List.reverseRecOn with
  | nil => exact ⟨[], List.prefix_refl _, by simp [ups, downs, net]⟩
  | append_singleton ms m ih =>
    obtain ⟨pre, hp, hpre⟩ := ih
    by_cases h : (net (ms ++ [m])).1 = (net ms).1
    · exact ⟨pre, hp.trans (List.prefix_append _ _), by rw [h, hpre]⟩
    · -- the net goes further up only when nothing is left to cancel
      refine ⟨ms ++ [m], List.prefix_refl _, ?_⟩
      have hb := net_balance (ms ++ [m])
      have h0 : (net (ms ++ [m])).2 = [] := by
        rw [net_concat] at h ⊢
        cases m with
        | stay => exact absurd rfl h
        | down a => exact absurd rfl h
        | up =>
          rw [netMove_up] at h ⊢
          split
          · rfl
          · rename_i hne; rw [if_neg hne] at h; exact absurd rfl h
      rw [h0] at hb; simp only [List.length_nil] at hb; omega

/-- The net goes up at most `k` exactly when the moves up never lead by more. -/
theorem net_up_le_iff (ms : List (Move α)) (k : ℕ) :
    (net ms).1 ≤ k ↔ ∀ pre, pre <+: ms → ups pre ≤ downs pre + k := by
  constructor
  · intro h pre hp
    have := net_up_le ms pre hp; omega
  · intro h
    obtain ⟨pre, hp, heq⟩ := exists_net_up ms
    have := h pre hp; omega

/-- Every name of a net is a name of the walk. -/
theorem mem_net {ms : List (Move α)} {a : α} (h : a ∈ (net ms).2) : Move.down a ∈ ms := by
  induction ms using List.reverseRecOn with
  | nil => simp [net] at h
  | append_singleton ms m ih =>
    rw [net_concat] at h
    rw [List.mem_append]
    cases m with
    | stay => exact Or.inl (ih h)
    | down b =>
      rcases List.mem_append.1 h with h | h
      · exact Or.inl (ih h)
      · right; simpa using h
    | up =>
      rw [netMove_up] at h
      split at h
      · simp at h
      · exact Or.inl (ih (List.dropLast_subset _ h))

end Lib
