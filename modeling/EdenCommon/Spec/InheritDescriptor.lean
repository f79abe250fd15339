import EdenCommon.Lib.Drive
import EdenCommon.Spec.SpawnOptions

/-!
# The loops of `inheritDescriptor`

Both `do … while (conflict)` loops of `inheritDescriptor`, round by round, where nothing but
a limit of rounds keeps them from going on for ever. A round of the first one that finds a
conflict takes the next answer of `duplicate`.
-/

namespace EdenCommon

namespace SpawnedProcess.Options

open Lib Parent

variable {File : Type*}

/-- A round of the first stage. An answer that is open already has no outcome. -/
def sourceRound (file : File) (x : Parent File × ℕ × List ℕ) (dup : ℕ) :
    (Parent File × ℕ × List ℕ) ⊕ Option (Parent File × ℕ × List ℕ) :=
  let (s, fd, tempFds) := x
  if s.descriptors_.any fun d => d.1 = fd then
    ((s.opened dup file).map fun s => (s, dup, fd :: tempFds)).elim (.inr none) .inl
  else .inr (some x)

/-- A round of the second stage. -/
def targetRound (s : Parent File) (fd target : ℕ) (_ : Unit) : ℕ ⊕ ℕ :=
  if target = fd then .inl (target + 1)
  else if s.descriptors_.any fun d => d.1 = target || d.2 = target then .inl (target + 1)
  else .inr target

/-- The first answers of `duplicate`. -/
def answers (dups : ℕ → ℕ) (rounds : ℕ) : List ℕ := (List.range rounds).map dups

/-- `inheritDescriptor`, for at most `rounds` rounds of each loop: `none` if one of them has
not ended by then. -/
def inheritDescriptorFor (rounds : ℕ) (s : Parent File) (fd : ℕ) (dups : ℕ → ℕ) : Option (Parent File × ℕ) :=
  (s.given fd).bind fun file =>
    (drive (sourceRound file) (answers dups rounds) (s, fd, [])).bind fun x =>
      x.1.bind fun (s, fd, tempFds) =>
        (drive (targetRound s fd) (List.replicate rounds ()) 5).map fun (target, _) =>
          (tempFds.foldl closed (emplace s target fd file), target)

/-- `duplicate` answers with numbers that are not open: neither before the call, nor since an
earlier answer, which `tempFds` keeps open. -/
def Unopened (s : Parent File) (dups : ℕ → ℕ) : Prop :=
  ∀ k, s.table (dups k) = none ∧ ∀ j, j < k → dups j ≠ dups k

/-- The call has recorded a copy from `fd'` to `target` that clashes with none before it.
There are numbers enough for the target to stay small. -/
structure SafelyAdded (s s' : Parent File) (target fd' : ℕ) : Prop where
  added : s'.descriptors_ = (target, fd') :: s.descriptors_
  five_le : 5 ≤ target
  target_le : target ≤ 2 * s.descriptors_.length + 6
  target_not_target : target ∉ s.targets
  target_not_source : target ∉ s.sources
  target_ne : target ≠ fd'
  source_not_target : fd' ∉ s.targets

end SpawnedProcess.Options

end EdenCommon
