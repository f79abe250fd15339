import Mathlib.Data.Nat.Notation

/-!
# Pipes

A pipe holds at most `capacity` bytes. A read blocks while the pipe is empty and some process
can still write to it; when nobody can, it is at the end. A write blocks while the pipe is full.
-/

namespace Lib

structure Pipe (α : Type) where
  data : List α
  readEnd : Bool
  writeEnd : Bool
  deriving DecidableEq, Repr

namespace Pipe

variable {α : Type} {p p' : Pipe α} {x rest : List α} {max capacity : ℕ}

/-- An empty pipe with both ends open. -/
def fresh : Pipe α := ⟨[], true, true⟩

/-- No result: the read blocks. Nothing read: the end. -/
def read (max : ℕ) (p : Pipe α) : Option (List α × Pipe α) :=
  if p.data ≠ [] ∨ max = 0 then some (p.data.take max, { p with data := p.data.drop max })
  else if p.writeEnd then none
  else some ([], p)

/-- Put in what fits; no result: the write blocks. The rest is still to be written. -/
def push (capacity : ℕ) (x : List α) (p : Pipe α) : Option (List α × Pipe α) :=
  if p.data.length < capacity then
    some (x.drop (capacity - p.data.length), { p with data := p.data ++ x.take (capacity - p.data.length) })
  else none

theorem read_eq_none (h : p.read max = none) : p.data = [] ∧ p.writeEnd = true := by
  unfold read at h
  split at h
  · cases h
  · rename_i hempty
    rw [not_or, Decidable.not_not] at hempty
    split at h
    · rename_i hopen
      exact ⟨hempty.1, hopen⟩
    · cases h

/-- What is read was in front, and the ends stay as they are. -/
theorem read_eq_some (h : p.read max = some (x, p')) :
    p.data = x ++ p'.data ∧ p'.readEnd = p.readEnd ∧ p'.writeEnd = p.writeEnd := by
  unfold read at h
  split at h
  · cases h
    exact ⟨(List.take_append_drop max p.data).symm, rfl, rfl⟩
  · split at h
    · cases h
    · cases h
      exact ⟨rfl, rfl, rfl⟩

/-- **The end** is read only where nothing is left and nothing can come. -/
theorem read_end (hmax : max ≠ 0) (h : p.read max = some ([], p')) : p.data = [] ∧ p.writeEnd = false ∧ p' = p := by
  unfold read at h
  split at h
  · rename_i hdata
    exfalso
    have htake : p.data.take max = [] := congrArg Prod.fst (Option.some.inj h)
    obtain h0 | h0 := List.take_eq_nil_iff.1 htake
    · exact hmax h0
    · exact hdata.elim (fun hne => hne h0) hmax
  · rename_i hempty
    rw [not_or, Decidable.not_not] at hempty
    split at h
    · cases h
    · rename_i hclosed
      cases h
      exact ⟨hempty.1, by simpa using hclosed, rfl⟩

theorem push_eq_none (h : p.push capacity x = none) : capacity ≤ p.data.length := by
  unfold push at h
  split at h
  · cases h
  · omega

/-- What is put in goes behind the rest, and something goes in if there is something. -/
theorem push_eq_some (h : p.push capacity x = some (rest, p')) :
    (∃ y, x = y ++ rest ∧ p'.data = p.data ++ y) ∧ p'.readEnd = p.readEnd ∧ p'.writeEnd = p.writeEnd ∧
      (x ≠ [] → rest.length < x.length) := by
  unfold push at h
  split at h
  · rename_i hroom
    cases h
    refine ⟨⟨x.take (capacity - p.data.length), (List.take_append_drop _ x).symm, rfl⟩, rfl, rfl, fun hne => ?_⟩
    have := List.length_pos_iff.2 hne
    rw [List.length_drop]
    omega
  · cases h

end Pipe

end Lib
