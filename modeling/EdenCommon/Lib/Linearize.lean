import EdenCommon.Lib.Run

/-!
# Linearization

Calls that overlap act as if each of them took place at one point: there is an order of
the calls, and calls made one after the other in this order leave the same state and give
the same answers. `Linearizes` is kept by a step that no one sees and by a step that is the
point of one call.
-/

namespace Lib

variable {σ κ ρ : Type*}

/-- One more call, behind the others. -/
theorem exec_concat (step : σ → κ → σ × ρ) (s : σ) (ops : List κ) (op : κ) :
    exec step s (ops ++ [op]) =
      ((step (exec step s ops).1 op).1, (exec step s ops).2 ++ [(step (exec step s ops).1 op).2]) := by
  induction ops generalizing s with
  | nil => rfl
  | cons x ops ih =>
    rw [List.cons_append, exec, ih, exec]
    rfl

theorem exec_length (step : σ → κ → σ × ρ) (s : σ) (ops : List κ) : (exec step s ops).2.length = ops.length := by
  induction ops generalizing s with
  | nil => rfl
  | cons x ops ih => rw [exec, List.length_cons, ih, List.length_cons]

/-- The calls of `order`, made one after the other from `s₀`, lead to `s` and give the answers of
`answered`; the other calls have not taken place. -/
structure Linearizes (atomic : σ → κ → σ × ρ) (s₀ s : σ) (order : List κ) (answered : κ → Option ρ) : Prop where
  state : (exec atomic s₀ order).1 = s
  nodup : order.Nodup
  answers : ∀ i t, answered i = some t ↔ (i, t) ∈ order.zip (exec atomic s₀ order).2

variable {atomic : σ → κ → σ × ρ} {s₀ s : σ} {order : List κ} {answered : κ → Option ρ}

/-- Before the first call has come to its result. -/
theorem Linearizes.nil (atomic : σ → κ → σ × ρ) (s₀ : σ) : Linearizes atomic s₀ s₀ [] fun _ => none :=
  ⟨rfl, List.nodup_nil, fun _ _ => by simp⟩

theorem Linearizes.congr {answered' : κ → Option ρ} (h : Linearizes atomic s₀ s order answered)
    (hsame : ∀ i, answered' i = answered i) : Linearizes atomic s₀ s order answered' :=
  ⟨h.state, h.nodup, fun i t => by rw [hsame, h.answers]⟩

/-- The calls in the order are those that have an answer. -/
theorem Linearizes.mem_iff (h : Linearizes atomic s₀ s order answered) {i : κ} :
    i ∈ order ↔ (answered i).isSome := by
  rw [Option.isSome_iff_exists]
  constructor
  · intro hi
    obtain ⟨k, hk, rfl⟩ := List.mem_iff_getElem.1 hi
    have hk' : k < (exec atomic s₀ order).2.length := by rwa [exec_length]
    have hzip : k < (order.zip (exec atomic s₀ order).2).length := by
      rw [List.length_zip]
      exact Nat.lt_min.2 ⟨hk, hk'⟩
    refine ⟨(exec atomic s₀ order).2[k], (h.answers _ _).2 ?_⟩
    rw [← List.getElem_zip (h := hzip)]
    exact List.getElem_mem hzip
  · rintro ⟨t, ht⟩
    exact (List.of_mem_zip ((h.answers i t).1 ht)).1

/-- **The point of a call**: it acts on the state as the atomic call does and has its answer. -/
theorem Linearizes.point [DecidableEq κ] (h : Linearizes atomic s₀ s order answered) {i : κ} (hi : answered i = none)
    {answered' : κ → Option ρ} (hpoint : answered' i = some (atomic s i).2)
    (hrest : ∀ j, j ≠ i → answered' j = answered j) :
    Linearizes atomic s₀ (atomic s i).1 (order ++ [i]) answered' := by
  have hnew : i ∉ order := by
    rw [h.mem_iff, hi]
    exact Bool.false_ne_true
  refine ⟨by rw [exec_concat, h.state], ?_, fun j t => ?_⟩
  · rw [List.nodup_append]
    refine ⟨h.nodup, by simp, fun x hx y hy => ?_⟩
    obtain rfl := List.mem_singleton.1 hy
    rintro rfl
    exact hnew hx
  · rw [exec_concat, h.state, List.zip_append (exec_length atomic s₀ order).symm, List.mem_append, ← h.answers]
    simp only [List.zip_cons_cons, List.zip_nil_right, List.mem_singleton, Prod.mk.injEq]
    by_cases hj : j = i
    · rw [hj, hpoint, hi]
      simp [eq_comm]
    · rw [hrest j hj]
      simp [hj]

/-- What came before an item that was new is what was there already. -/
theorem mem_before {order' before after : List κ} {i j : κ} (hle : order <+: order') (hi : i ∈ order) (hj : j ∉ order)
    (h : order' = before ++ j :: after) : i ∈ before := by
  obtain ⟨ext, hext⟩ := hle
  rw [h] at hext
  obtain ⟨rest, hrest, -⟩ | ⟨rest, hrest, hcons⟩ := List.append_eq_append_iff.1 hext
  · rw [hrest]
    exact List.mem_append_left _ hi
  · cases rest with
    | nil =>
      rw [List.append_nil] at hrest
      rwa [← hrest]
    | cons x rest =>
      obtain ⟨rfl, -⟩ := List.cons.inj hcons
      exact absurd (hrest ▸ List.mem_append_right _ List.mem_cons_self) hj

end Lib
