import Mathlib.Data.Nat.Notation

/-!
# Weakest preconditions of programs with state and exceptions

A program is an `EStateM ε σ α`: it ends with a value or with an exception, and the
state it reached is kept in both cases. `wp m Q E s` says that `m` started in `s` ends
with a value and a state in `Q`, or with an exception and a state in `E`. Programs are
total functions, so this is total correctness, and `E := fun _ _ => False` excludes
exceptions.

A larger state is a pair: `onFst` runs a program on the first part, and `withSnd` runs
a program on the pair with a second part of its own.
-/

namespace Lib

variable {ε σ τ α β : Type}

/-- The weakest precondition of `m` for `Q` on values and `E` on exceptions. -/
def wp (m : EStateM ε σ α) (Q : α → σ → Prop) (E : ε → σ → Prop) (s : σ) : Prop :=
  match m s with
  | .ok a s' => Q a s'
  | .error e s' => E e s'

variable {m : EStateM ε σ α} {k : α → EStateM ε σ β} {Q Q' : α → σ → Prop} {E E' : ε → σ → Prop} {s : σ}

/-- **Consequence.** -/
theorem wp.mono (h : wp m Q' E' s) (hQ : ∀ a s', Q' a s' → Q a s') (hE : ∀ e s', E' e s' → E e s') :
    wp m Q E s := by
  unfold wp at h ⊢
  cases hm : m s with
  | ok a s' => rw [hm] at h; exact hQ a s' h
  | error e s' => rw [hm] at h; exact hE e s' h

/-- **Sequencing.** What `m` may throw is weakened to the exceptions of the whole. -/
theorem wp.bind {R : β → σ → Prop} (h : wp m Q E' s) (hE : ∀ e s', E' e s' → E e s')
    (hk : ∀ a s', Q a s' → wp (k a) R E s') : wp (m >>= k) R E s := by
  change wp (EStateM.bind m k) R E s
  unfold wp at h ⊢
  unfold EStateM.bind
  cases hm : m s with
  | ok a s' => rw [hm] at h; exact hk a s' h
  | error e s' => rw [hm] at h; exact hE e s' h

-- not stated as definitional unfoldings: the kernel would evaluate whole programs to check them
@[simp] theorem wp_pure (a : α) : wp (pure a : EStateM ε σ α) Q E s ↔ Q a s := by rw [wp]; rfl

@[simp] theorem wp_throw (e : ε) : wp (throw e : EStateM ε σ α) Q E s ↔ E e s := by rw [wp]; rfl

@[simp] theorem wp_get {Q : σ → σ → Prop} : wp (get : EStateM ε σ σ) Q E s ↔ Q s s := by rw [wp]; rfl

@[simp] theorem wp_modify (f : σ → σ) {Q : PUnit → σ → Prop} :
    wp (modify f : EStateM ε σ PUnit) Q E s ↔ Q ⟨⟩ (f s) := by rw [wp]; rfl

@[simp] theorem wp_bind {R : β → σ → Prop} :
    wp (m >>= k) R E s ↔ wp m (fun a s' => wp (k a) R E s') E s := by
  change wp (EStateM.bind m k) R E s ↔ _
  unfold wp EStateM.bind
  cases hm : m s with
  | ok a s' => rfl
  | error e s' => rfl

/-- **Handlers** start in the state the exception left. -/
@[simp] theorem wp_tryCatch {h : ε → EStateM ε σ α} :
    wp (tryCatch m h) Q E s ↔ wp m Q (fun e s' => wp (h e) Q E s') s := by
  change wp (EStateM.tryCatch m h) Q E s ↔ _
  unfold wp EStateM.tryCatch
  cases hm : m s with
  | ok a s' => rfl
  | error e s' => rfl

/-- What holds of every end holds. -/
theorem wp.of_forall (hQ : ∀ a s', Q a s') (hE : ∀ e s', E e s') : wp m Q E s := by
  unfold wp
  cases m s with
  | ok a s' => exact hQ a s'
  | error e s' => exact hE e s'

/-- **Conjunction.** There is one end, so what is known of it may be put together. -/
theorem wp.and (h : wp m Q E s) (h' : wp m Q' E' s) :
    wp m (fun a s' => Q a s' ∧ Q' a s') (fun e s' => E e s' ∧ E' e s') s := by
  unfold wp at h h' ⊢
  cases hm : m s with
  | ok a s' => rw [hm] at h h'; exact ⟨h, h'⟩
  | error e s' => rw [hm] at h h'; exact ⟨h, h'⟩

/-- What holds of every run holds of a given one. -/
theorem wp.ok {a : α} {s' : σ} (h : wp m Q E s) (hm : m s = .ok a s') : Q a s' := by
  unfold wp at h; rwa [hm] at h

theorem wp.error {e : ε} {s' : σ} (h : wp m Q E s) (hm : m s = .error e s') : E e s' := by
  unfold wp at h; rwa [hm] at h

/-- **Total correctness**: without exceptions there is a value. -/
theorem wp.exists_ok (h : wp m Q (fun _ _ => False) s) : ∃ a s', m s = .ok a s' ∧ Q a s' := by
  unfold wp at h
  cases hm : m s with
  | ok a s' => rw [hm] at h; exact ⟨a, s', rfl, h⟩
  | error e s' => rw [hm] at h; exact h.elim

/-! ### Larger states -/

/-- Run on the first part of the state. -/
def onFst (m : EStateM ε σ α) : EStateM ε (σ × τ) α := fun s =>
  match m s.1 with
  | .ok a s' => .ok a (s', s.2)
  | .error e s' => .error e (s', s.2)

/-- Run with `t` as the second part; its last value is returned. -/
def withSnd (t : τ) (m : EStateM ε (σ × τ) α) : EStateM ε σ τ := fun s =>
  match m (s, t) with
  | .ok _ s' => .ok s'.2 s'.1
  | .error e s' => .error e s'.1

@[simp] theorem wp_onFst {Q : α → σ × τ → Prop} {E : ε → σ × τ → Prop} {s : σ × τ} :
    wp (onFst m) Q E s ↔ wp m (fun a s' => Q a (s', s.2)) (fun e s' => E e (s', s.2)) s.1 := by
  unfold wp onFst
  cases hm : m s.1 with
  | ok a s' => rfl
  | error e s' => rfl

@[simp] theorem wp_withSnd {t : τ} {m : EStateM ε (σ × τ) α} {Q : τ → σ → Prop} :
    wp (withSnd t m) Q E s ↔ wp m (fun _ s' => Q s'.2 s'.1) (fun e s' => E e s'.1) (s, t) := by
  unfold wp withSnd
  cases hm : m (s, t) with
  | ok a s' => rfl
  | error e s' => rfl

end Lib
