import EdenCommon.Lib.Memory
import EdenCommon.Lib.Split
import Mathlib.Data.List.Basic

/-!
# Strings in memory

A list of bytes lies in memory at an address (`HoldsAt`). A string is read up to its NUL, and a byte
is looked for in it; both read what lies there and nothing behind it, provided that they may go that
far. Their first argument is the number of bytes that they may read.

* `cstr_eq_some`, `strchr_eq_some`: what they find in a string that lies there.
-/

namespace Lib

namespace Memory

variable {m m' : Memory} {a n : ℕ} {b c : UInt8} {bs cs : List UInt8}

/-- `bs` lies at `a, a + 1, …`. -/
def HoldsAt (m : Memory) : ℕ → List UInt8 → Prop
  | _, [] => True
  | a, b :: bs => m a = b ∧ HoldsAt m (a + 1) bs

/-- The bytes `bs`, written at `a, a + 1, …`. -/
def memcpy (m : Memory) (a : ℕ) (bs : List UInt8) : Memory := m.storeAt (List.range' a bs.length) bs

/-- The string at an address, without its NUL. -/
def cstr (m : Memory) : ℕ → ℕ → Option (List UInt8)
  | 0, _ => none
  | n + 1, a => if m a = 0 then some [] else (m.cstr n (a + 1)).map (m a :: ·)

/-- The address of the first `c` in the string at an address; the inner `none` is the null pointer. -/
def strchr (m : Memory) (c : UInt8) : ℕ → ℕ → Option (Option ℕ)
  | 0, _ => none
  | n + 1, a => if m a = c then some (some a) else if m a = 0 then some none else m.strchr c n (a + 1)

@[simp] theorem holdsAt_nil : m.HoldsAt a [] := trivial

theorem holdsAt_cons : m.HoldsAt a (b :: bs) ↔ m a = b ∧ m.HoldsAt (a + 1) bs := Iff.rfl

/-- Two texts behind one another. -/
theorem holdsAt_append : m.HoldsAt a (bs ++ cs) ↔ m.HoldsAt a bs ∧ m.HoldsAt (a + bs.length) cs := by
  induction bs generalizing a with
  | nil => simp
  | cons b bs ih =>
    rw [List.cons_append, holdsAt_cons, holdsAt_cons, ih, and_assoc, List.length_cons, Nat.add_assoc,
      Nat.add_comm 1]

/-- What lies there depends on those bytes only. -/
theorem HoldsAt.congr (h : m.HoldsAt a bs) (hm : Agree m' m a bs.length) : m'.HoldsAt a bs := by
  induction bs generalizing a with
  | nil => trivial
  | cons b bs ih =>
    rw [List.length_cons] at hm
    rw [holdsAt_cons] at h ⊢
    refine ⟨?_, ih h.2 (hm.sub (by omega) (by omega))⟩
    rw [hm a (by omega) (by omega)]
    exact h.1

/-- What lies there is what is loaded from there. -/
theorem HoldsAt.loadAt (h : m.HoldsAt a bs) : m.loadAt (List.range' a bs.length) = bs := by
  induction bs generalizing a with
  | nil => rfl
  | cons b bs ih =>
    rw [holdsAt_cons] at h
    have hrest := ih h.2
    unfold Memory.loadAt at hrest ⊢
    rw [List.length_cons, List.range'_succ, List.map_cons, h.1, hrest]

theorem holdsAt_of_loadAt (h : m.loadAt (List.range' a bs.length) = bs) : m.HoldsAt a bs := by
  induction bs generalizing a with
  | nil => trivial
  | cons b bs ih =>
    unfold Memory.loadAt at h ih
    rw [List.length_cons, List.range'_succ, List.map_cons, List.cons.injEq] at h
    exact ⟨h.1, ih h.2⟩

/-! ### Copies -/

/-- **A copy** lies where it was put, -/
theorem holdsAt_memcpy (bs : List UInt8) : (m.memcpy a bs).HoldsAt a bs := by
  apply holdsAt_of_loadAt
  apply loadAt_storeAt List.nodup_range'
  exact List.length_range'

/-- and changes no byte outside of its range. -/
theorem memcpy_of_outside (bs : List UInt8) {x : ℕ} (h : x < a ∨ a + bs.length ≤ x) : m.memcpy a bs x = m x := by
  apply storeAt_of_notMem
  rw [List.mem_range'_1]
  omega

theorem memcpy_agree (bs : List UInt8) {off : ℕ} (h : off + n ≤ a ∨ a + bs.length ≤ off) :
    Agree (m.memcpy a bs) m off n := by
  intro x hx hx'
  apply memcpy_of_outside
  omega

/-- Copies behind one another. -/
theorem memcpy_append (bs cs : List UInt8) : m.memcpy a (bs ++ cs) = (m.memcpy a bs).memcpy (a + bs.length) cs := by
  unfold memcpy
  rw [List.length_append, ← storeAt_append (by rw [List.length_range']), List.range'_append_1]

/-! ### Strings behind one another -/

theorem length_terminate_take_succ {ls : List (List UInt8)} {i : ℕ} (h : i < ls.length) :
    (terminate 0 (ls.take (i + 1))).length = (terminate 0 (ls.take i)).length + ls[i].length + 1 := by
  rw [List.take_succ_eq_append_getElem h, terminate_append, terminate_cons, terminate_nil, List.length_append,
    List.length_append, List.length_singleton, Nat.add_assoc]

/-- Fewer strings take no more bytes. -/
theorem length_terminate_take_le (ls : List (List UInt8)) (i : ℕ) :
    (terminate 0 (ls.take i)).length ≤ (terminate 0 ls).length := by
  have h := congrArg (fun l => (terminate 0 l).length) (List.take_append_drop i ls)
  simp only [terminate_append, List.length_append] at h
  omega

/-- The `i`-th of the strings is behind those in front of it. -/
theorem HoldsAt.terminate_getElem {ls : List (List UInt8)} (h : m.HoldsAt a (terminate 0 ls)) {i : ℕ}
    (hi : i < ls.length) : m.HoldsAt (a + (terminate 0 (ls.take i)).length) (ls[i] ++ [0]) := by
  have hcut : terminate 0 ls = terminate 0 (ls.take i) ++ (ls[i] ++ [0] ++ terminate 0 (ls.drop (i + 1))) := by
    conv_lhs => rw [← List.take_append_drop i ls, List.drop_eq_getElem_cons hi]
    rw [terminate_append, terminate_cons, List.append_assoc, List.singleton_append]
  rw [hcut, holdsAt_append, holdsAt_append] at h
  exact h.2.1

/-! ### Reading a string -/

/-- **Reading** gives the bytes in front of the first NUL. -/
theorem cstr_eq_some (h : m.HoldsAt a (bs ++ [0])) (h0 : 0 ∉ bs) (hn : bs.length < n) : m.cstr n a = some bs := by
  induction bs generalizing a n with
  | nil =>
    obtain ⟨n, rfl⟩ : ∃ k, n = k + 1 := ⟨n - 1, by omega⟩
    rw [cstr, if_pos h.1]
  | cons b bs ih =>
    rw [List.length_cons] at hn
    obtain ⟨n, rfl⟩ : ∃ k, n = k + 1 := ⟨n - 1, by omega⟩
    rw [List.cons_append, holdsAt_cons] at h
    rw [List.mem_cons, not_or] at h0
    have hb : m a ≠ 0 := by
      rw [h.1]
      exact Ne.symm h0.1
    rw [cstr, if_neg hb, ih h.2 h0.2 (by omega), h.1]
    rfl

/-- The first `c` is behind bytes that are neither `c` nor NUL. -/
theorem strchr_eq_some (h : m.HoldsAt a (bs ++ [c])) (hc : c ∉ bs) (h0 : 0 ∉ bs) (hn : bs.length < n) :
    m.strchr c n a = some (some (a + bs.length)) := by
  induction bs generalizing a n with
  | nil =>
    obtain ⟨n, rfl⟩ : ∃ k, n = k + 1 := ⟨n - 1, by omega⟩
    rw [strchr, if_pos h.1]
    rfl
  | cons b bs ih =>
    rw [List.length_cons] at hn ⊢
    obtain ⟨n, rfl⟩ : ∃ k, n = k + 1 := ⟨n - 1, by omega⟩
    rw [List.cons_append, holdsAt_cons] at h
    rw [List.mem_cons, not_or] at hc h0
    have hb : m a ≠ c := by
      rw [h.1]
      exact Ne.symm hc.1
    have hb0 : m a ≠ 0 := by
      rw [h.1]
      exact Ne.symm h0.1
    rw [strchr, if_neg hb, if_neg hb0, ih h.2 hc.2 h0.2 (by omega), Nat.add_assoc, Nat.add_comm 1]

end Memory

end Lib
