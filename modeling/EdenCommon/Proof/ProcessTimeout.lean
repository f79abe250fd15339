import EdenCommon.Spec.ProcessTimeout
import Mathlib.Algebra.Order.Ring.Int
import Mathlib.Tactic.Linarith

/-!
# The intervals of `ProcessTimeout`

`timeoutExpired` schedules the interval it finds and leaves it as it is
(`timeoutExpired_running`), so a run schedules the same one over and over
(`run_timeoutExpired_running`). The interval is doubled once, in `initialize`, behind the
first call: `future_wait_backoff_iff` says how far that agrees with a doubling at every poll.

* `future_wait_polls_scheduled`: the whole schedule is the interval as given and, from then
  on, always the one that is twice as long.
* `min_double_eq_iff`: from the second poll on, twice the interval is all of the back-off
  only at the maximum. This decides `future_wait_backoff_iff`.
-/

namespace EdenCommon

open Lib SpawnedProcess

namespace ProcessTimeout

variable {t t' : ProcessTimeout}

theorem timeoutExpired_running (hd : t.deleted = false) :
    t.timeoutExpired false = some { t with scheduled := t.scheduled ++ [t.pollEveryMs_] } := by
  simp [timeoutExpired, scheduleTimeout, hd]

/-- **As long as the process runs** every poll schedules one more of the same interval. -/
theorem run_timeoutExpired_running (k : ℕ) (hd : t.deleted = false) :
    run timeoutExpired t (List.replicate k false) =
      some { t with scheduled := t.scheduled ++ List.replicate k t.pollEveryMs_ } := by
  induction k generalizing t with
  | zero => simp
  | succ k ih =>
    have hd' : ({ t with scheduled := t.scheduled ++ [t.pollEveryMs_] } : ProcessTimeout).deleted = false := hd
    rw [List.replicate_succ, run_cons (timeoutExpired_running hd), ih hd']
    simp [List.replicate_succ]

end ProcessTimeout

variable {p m : ℤ}

theorem future_wait_of_lt (hp : 0 < p) (hlt : p * 2 < 2 ^ 63) :
    future_wait p m = some ⟨min (p * 2) m, m, false, [p]⟩ := by
  have htwice : ProcessTimeout.twice p = some (p * 2) := if_pos ⟨by omega, hlt⟩
  have hmin : (if p * 2 > m then m else p * 2) = min (p * 2) m := by
    rw [min_def]
    split <;> split <;> omega
  simp [future_wait, ProcessTimeout.initializeTimeout, ProcessTimeout.scheduleTimeout, htwice, hmin]

theorem future_wait_of_ge (hge : 2 ^ 63 ≤ p * 2) : future_wait p m = none := by
  have htwice : ProcessTimeout.twice p = none := if_neg (by omega)
  simp [future_wait, ProcessTimeout.initializeTimeout, ProcessTimeout.scheduleTimeout, htwice]

/-- **The schedule**: one interval as given, and from then on always the one that is twice as long. -/
theorem future_wait_polls_scheduled (hp : 0 < p) (hlt : p * 2 < 2 ^ 63) (k : ℕ) :
    future_wait_polls p m (List.replicate k false) =
      some ⟨min (p * 2) m, m, false, p :: List.replicate k (min (p * 2) m)⟩ := by
  unfold future_wait_polls
  rw [future_wait_of_lt hp hlt, Option.bind_some, ProcessTimeout.run_timeoutExpired_running k rfl]
  rfl

/-- From the second poll on, twice the interval is all of the back-off only at the maximum. -/
theorem min_double_eq_iff (hp : 0 < p) (k : ℕ) :
    min (p * 2) m = min (p * 2 ^ (k + 1)) m ↔ k = 0 ∨ m ≤ p * 2 := by
  obtain rfl | hk := Nat.eq_zero_or_pos k
  · simp
  · obtain ⟨j, rfl⟩ : ∃ j, k = j + 1 := ⟨k - 1, by omega⟩
    have hpow : (1 : ℤ) ≤ 2 ^ j := one_le_pow₀ (by omega)
    have hbig : p * 4 ≤ p * 2 ^ (j + 1 + 1) := by
      rw [pow_succ, pow_succ]
      nlinarith
    omega

end EdenCommon
