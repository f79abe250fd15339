import Mathlib.Algebra.GroupWithZero.Nat

/-!
# Byte memories

A memory gives a byte at every address. A block of `n` bytes and a little-endian
number of `n` bytes are loaded from and stored at an address; a store changes no byte
outside its range. Bytes are also loaded from and stored at a list of addresses, one after the
other.
-/

namespace Lib

/-- A byte at every address. -/
abbrev Memory := ℕ → UInt8

namespace Memory

variable {m m' : Memory} {off n : ℕ}

/-- `m` and `m'` have the same bytes at `off, …, off + n - 1`. -/
def Agree (m m' : Memory) (off n : ℕ) : Prop := ∀ a, off ≤ a → a < off + n → m a = m' a

/-- Memories that agree on a block agree on each part of it. -/
theorem Agree.sub {off' n' : ℕ} (h : Agree m m' off n) (hl : off ≤ off') (hu : off' + n' ≤ off + n) :
    Agree m m' off' n' := fun a h1 h2 => h a (by omega) (by omega)

/-! ### Blocks -/

def loadBlock (m : Memory) (off n : ℕ) : Fin n → UInt8 := fun k => m (off + k)

def storeBlock (m : Memory) (off : ℕ) (b : Fin n → UInt8) : Memory := fun a =>
  if h : off ≤ a ∧ a < off + n then b ⟨a - off, by omega⟩ else m a

theorem Agree.loadBlock_eq (h : Agree m m' off n) : m.loadBlock off n = m'.loadBlock off n := by
  funext k
  exact h _ (by omega) (by omega)

@[simp] theorem loadBlock_storeBlock (b : Fin n → UInt8) : (m.storeBlock off b).loadBlock off n = b := by
  funext k
  have hk : off ≤ off + k.val ∧ off + k.val < off + n := ⟨by omega, by omega⟩
  simp [loadBlock, storeBlock, hk]

/-- A store outside of a block leaves it alone. -/
theorem storeBlock_agree (b : Fin n → UInt8) {off' n' : ℕ} (h : off' + n' ≤ off ∨ off + n ≤ off') :
    Agree (m.storeBlock off b) m off' n' := by
  intro a h1 h2
  have ha : ¬ (off ≤ a ∧ a < off + n) := by omega
  simp [storeBlock, ha]

/-! ### Little-endian numbers -/

def loadLE (m : Memory) (off : ℕ) : ℕ → ℕ
  | 0 => 0
  | n + 1 => (m off).toNat + 256 * loadLE m (off + 1) n

/-- The `n` low bytes of `v`. -/
def storeLE (m : Memory) (off n v : ℕ) : Memory := fun a =>
  if off ≤ a ∧ a < off + n then UInt8.ofNat (v / 256 ^ (a - off)) else m a

/-- A number depends on its bytes only. -/
theorem Agree.loadLE_eq (h : Agree m m' off n) : m.loadLE off n = m'.loadLE off n := by
  induction n generalizing off with
  | zero => rfl
  | succ n ih => rw [loadLE, loadLE, h off (by omega) (by omega), ih (h.sub (by omega) (by omega))]

/-- Zero bytes are the number zero. -/
theorem loadLE_eq_zero (h : ∀ a, off ≤ a → a < off + n → m a = 0) : m.loadLE off n = 0 := by
  induction n generalizing off with
  | zero => rfl
  | succ n ih =>
    rw [loadLE, h off (by omega) (by omega), ih fun a h1 h2 => h a (by omega) (by omega)]
    rfl

/-- A number determines its bytes. -/
theorem agree_of_loadLE_eq (h : m.loadLE off n = m'.loadLE off n) : Agree m m' off n := by
  induction n generalizing off with
  | zero =>
    intro a h1 h2
    omega
  | succ n ih =>
    rw [loadLE, loadLE] at h
    have hb := (m off).toNat_lt
    have hb' := (m' off).toNat_lt
    intro a h1 h2
    by_cases ha : a = off
    · subst ha
      exact UInt8.toNat_inj.1 (by omega)
    · exact @ih (off + 1) (by omega) a (by omega) (by omega)

theorem storeLE_of_outside (v : ℕ) {a : ℕ} (h : a < off ∨ off + n ≤ a) : m.storeLE off n v a = m a := by
  have ha : ¬ (off ≤ a ∧ a < off + n) := by omega
  simp [storeLE, ha]

/-- A number that is stored outside of a block leaves it alone. -/
theorem storeLE_agree (v : ℕ) {off' n' : ℕ} (h : off' + n' ≤ off ∨ off + n ≤ off') :
    Agree (m.storeLE off n v) m off' n' := by
  intro a h1 h2
  apply storeLE_of_outside
  omega

theorem loadLE_storeLE_of_disjoint (v : ℕ) {off' n' : ℕ} (h : off' + n' ≤ off ∨ off + n ≤ off') :
    (m.storeLE off n v).loadLE off' n' = m.loadLE off' n' := (storeLE_agree v h).loadLE_eq

/-- A number is cut off to its bytes. -/
theorem loadLE_storeLE (v : ℕ) : (m.storeLE off n v).loadLE off n = v % 256 ^ n := by
  induction n generalizing m off v with
  | zero => simp [loadLE, Nat.mod_one]
  | succ n ih =>
    have h0 : (m.storeLE off (n + 1) v) off = UInt8.ofNat v := by simp [storeLE]
    -- the bytes after the first are those of `v / 256`
    have hrest : Agree (m.storeLE off (n + 1) v) (m.storeLE (off + 1) n (v / 256)) (off + 1) n := by
      intro a h1 h2
      have ha : off ≤ a ∧ a < off + (n + 1) := by omega
      have ha' : off + 1 ≤ a ∧ a < off + 1 + n := by omega
      obtain ⟨d, rfl⟩ : ∃ d, a = off + 1 + d := ⟨a - (off + 1), by omega⟩
      have hd : off + 1 + d - off = d + 1 := by omega
      have hd' : off + 1 + d - (off + 1) = d := by omega
      simp only [storeLE, ha, ha', and_self, if_true, hd, hd', Nat.div_div_eq_div_mul, Nat.pow_succ, Nat.mul_comm]
    have hbyte : (UInt8.ofNat v).toNat = v % 256 := by simp
    rw [loadLE, h0, hrest.loadLE_eq, ih, hbyte, Nat.pow_succ, Nat.mul_comm (256 ^ n) 256, Nat.mod_mul]

/-! ### Lists of addresses -/

def loadAt (m : Memory) (as : List ℕ) : List UInt8 := as.map m

/-- The bytes `bs`, each at its address, the first one first. -/
def storeAt (m : Memory) : List ℕ → List UInt8 → Memory
  | a :: as, b :: bs => storeAt (fun x => if x = a then b else m x) as bs
  | _, _ => m

@[simp] theorem storeAt_nil (bs : List UInt8) : m.storeAt [] bs = m := by
  simp [storeAt]

@[simp] theorem storeAt_nil_right (as : List ℕ) : m.storeAt as [] = m := by
  simp [storeAt]

/-- Stores behind one another are one store. -/
theorem storeAt_append {as as' : List ℕ} {bs bs' : List UInt8} (h : as.length = bs.length) :
    m.storeAt (as ++ as') (bs ++ bs') = (m.storeAt as bs).storeAt as' bs' := by
  induction as generalizing m bs with
  | nil =>
    rw [List.length_nil, eq_comm, List.length_eq_zero_iff] at h
    rw [h]
    simp
  | cons a as ih =>
    obtain ⟨b, bs, rfl⟩ := List.exists_cons_of_length_eq_add_one h.symm
    rw [List.cons_append, List.cons_append, storeAt, storeAt]
    apply ih
    simpa using h

/-- The shorter list ends the stores. -/
theorem storeAt_take {as : List ℕ} {bs : List UInt8} {n : ℕ} (h : min as.length bs.length ≤ n) :
    m.storeAt (as.take n) (bs.take n) = m.storeAt as bs := by
  induction as generalizing m bs n with
  | nil => simp
  | cons a as ih =>
    cases bs with
    | nil => simp
    | cons b bs =>
      simp only [List.length_cons] at h
      obtain ⟨k, rfl⟩ : ∃ k, n = k + 1 := ⟨n - 1, by omega⟩
      rw [List.take_succ_cons, List.take_succ_cons, storeAt, storeAt]
      apply ih
      omega

/-- Only the addresses of the list change. -/
theorem storeAt_of_notMem {as : List ℕ} {bs : List UInt8} {a : ℕ} (h : a ∉ as) : m.storeAt as bs a = m a := by
  induction as generalizing m bs with
  | nil => simp
  | cons x as ih =>
    rw [List.mem_cons, not_or] at h
    cases bs with
    | nil => simp
    | cons b bs => rw [storeAt, ih h.2, if_neg h.1]

/-- What was stored at a list of different addresses is there. -/
theorem loadAt_storeAt {as : List ℕ} {bs : List UInt8} (hd : as.Nodup) (h : as.length = bs.length) :
    (m.storeAt as bs).loadAt as = bs := by
  unfold loadAt
  induction as generalizing m bs with
  | nil =>
    rw [List.length_nil, eq_comm, List.length_eq_zero_iff] at h
    simp [h]
  | cons a as ih =>
    obtain ⟨b, bs, rfl⟩ := List.exists_cons_of_length_eq_add_one h.symm
    rw [List.nodup_cons] at hd
    have hlen : as.length = bs.length := by simpa using h
    rw [storeAt, List.map_cons, ih hd.2 hlen, storeAt_of_notMem hd.1, if_pos rfl]

end Memory

end Lib
