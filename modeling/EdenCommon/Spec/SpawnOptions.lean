import EdenCommon.Lib.Run
import EdenCommon.Lib.Copies
import Mathlib.Algebra.GroupWithZero.Nat

/-!
# The descriptors of `SpawnedProcess::Options`

The calls of `SpawnedProcess.cpp` (POSIX) that fill `descriptors_` and `pipes_`, in a
process with a descriptor table. The kernel answers `open`, `pipe` and `dup` with any
numbers that are not open; a call carries the answers it gets. Between the calls the rest
of the process opens and closes descriptors of its own.

A call has no outcome if one of its answers is open already or the descriptor given to it
is not, and `requests`, which nothing reads, keeps what the calls have asked for.
-/

namespace EdenCommon

namespace SpawnedProcess.Options

variable {File : Type*}

/-- `file` is to be `target` in the child; `fd` is the descriptor that went to `emplace`. -/
structure Request (File : Type*) where
  target : ℕ
  fd : ℕ
  file : File
  deriving DecidableEq, Repr

/-- The options, and the descriptor table of the process that fills them. -/
structure Parent (File : Type*) where
  table : ℕ → Option File
  /-- The descriptors to pass to the child: target and source. -/
  descriptors_ : List (ℕ × ℕ)
  /-- The parent side of any pipes configured. -/
  pipes_ : List (ℕ × ℕ)
  /-- record -/
  requests : List (Request File)

def start (table : ℕ → Option File) : Parent File := ⟨table, [], [], []⟩

namespace Parent

def targets (s : Parent File) : List ℕ := s.descriptors_.map Prod.fst

def sources (s : Parent File) : List ℕ := s.descriptors_.map Prod.snd

/-- The descriptors that the options own. -/
def owned (s : Parent File) : List ℕ := s.sources ++ s.pipes_.map Prod.snd

/-- The file behind a `FileDescriptor` that the caller gives away. -/
def given (s : Parent File) (fd : ℕ) : Option File := if fd ∈ s.owned then none else s.table fd

/-- The kernel gives out the number `fd`. -/
def opened (s : Parent File) (fd : ℕ) (file : File) : Option (Parent File) :=
  if (s.table fd).isSome then none else some { s with table := Function.update s.table fd (some file) }

def closed (s : Parent File) (fd : ℕ) : Parent File := { s with table := Function.update s.table fd none }

end Parent

open Parent

/-- `descriptors_.emplace(targetFd, std::move(fd))`. A target that is a key already keeps
its descriptor, and the new one is closed. -/
def emplace (s : Parent File) (targetFd fd : ℕ) (file : File) : Parent File :=
  let s := { s with requests := ⟨targetFd, fd, file⟩ :: s.requests }
  if targetFd ∈ s.targets then s.closed fd
  else { s with descriptors_ := (targetFd, fd) :: s.descriptors_ }

/-- `dup` is the answer to `fd.duplicate()`; the assignment closes the old number. -/
def dup2 (s : Parent File) (fd targetFd dup : ℕ) : Option (Parent File) :=
  match s.given fd with
  | none => none
  | some file =>
    if targetFd = fd then (s.opened dup file).map fun s => emplace (s.closed fd) targetFd dup file
    else some (emplace s targetFd fd file)

/-- The first stage of `inheritDescriptor`: duplicates the descriptor until its number is
no existing target. `tempFds` keeps the duplicates that are. -/
def avoidTargets (file : File) : List ℕ → Parent File → ℕ → List ℕ → Option (Parent File × ℕ × List ℕ)
  | [], s, fd, tempFds => if fd ∈ s.targets then none else some (s, fd, tempFds)
  | dup :: dups, s, fd, tempFds =>
    if fd ∈ s.targets then (s.opened dup file).bind fun s => avoidTargets file dups s dup (fd :: tempFds)
    else some (s, fd, tempFds)

/-- The check of the second stage. -/
def conflict (s : Parent File) (fd target : ℕ) : Bool :=
  target = fd || s.descriptors_.any fun d => d.1 = target || d.2 = target

/-- The second stage: counts up from `target` to the first number without a conflict, for
at most `rounds` rounds. -/
def findTarget (s : Parent File) (fd : ℕ) : ℕ → ℕ → ℕ
  | 0, target => target
  | rounds + 1, target => if conflict s fd target then findTarget s fd rounds (target + 1) else target

/-- No number from here on is in conflict. -/
def conflictBound (s : Parent File) (fd : ℕ) : ℕ := (fd :: (s.targets ++ s.sources)).sum + 1

/-- Returns the number in the child. The intermediate duplicates are closed at the end. -/
def inheritDescriptor (s : Parent File) (fd : ℕ) (dups : List ℕ) : Option (Parent File × ℕ) :=
  match s.given fd with
  | none => none
  | some file =>
    (avoidTargets file dups s fd []).map fun (s, fd, tempFds) =>
      let target := findTarget s fd (conflictBound s fd) 5
      (tempFds.foldl closed (emplace s target fd file), target)

/-- `open`: opens a path and makes it `targetFd`. -/
def openPath (s : Parent File) (targetFd fd : ℕ) (file : File) (dup : ℕ) : Option (Parent File) :=
  (s.opened fd file).bind fun s => dup2 s fd targetFd dup

/-- The kernel's answer to `pipe`. -/
structure Pipe (File : Type*) where
  read : ℕ
  write : ℕ
  readFile : File
  writeFile : File
  deriving DecidableEq, Repr

/-- The end that goes to the child. -/
def Pipe.child (p : Pipe File) (childRead : Bool) : ℕ := if childRead then p.read else p.write

def Pipe.parent (p : Pipe File) (childRead : Bool) : ℕ := if childRead then p.write else p.read

def pipe (s : Parent File) (targetFd : ℕ) (childRead : Bool) (p : Pipe File) (dup : ℕ) :
    Option (Except String (Parent File)) :=
  if targetFd ∈ s.pipes_.map Prod.fst then some (.error "targetFd is already present in pipes map")
  else
    ((s.opened p.read p.readFile).bind fun s => s.opened p.write p.writeFile).bind fun s =>
      (dup2 { s with pipes_ := (targetFd, p.parent childRead) :: s.pipes_ } (p.child childRead) targetFd dup).map .ok

def STDIN_FILENO : ℕ := 0
def STDOUT_FILENO : ℕ := 1
def STDERR_FILENO : ℕ := 2

def pipeStdin (s : Parent File) : Pipe File → ℕ → Option (Except String (Parent File)) :=
  pipe s STDIN_FILENO true

def pipeStdout (s : Parent File) : Pipe File → ℕ → Option (Except String (Parent File)) :=
  pipe s STDOUT_FILENO false

def pipeStderr (s : Parent File) : Pipe File → ℕ → Option (Except String (Parent File)) :=
  pipe s STDERR_FILENO false

def nullStdin (s : Parent File) : ℕ → File → ℕ → Option (Parent File) := openPath s STDIN_FILENO
def nullStdout (s : Parent File) : ℕ → File → ℕ → Option (Parent File) := openPath s STDOUT_FILENO
def nullStderr (s : Parent File) : ℕ → File → ℕ → Option (Parent File) := openPath s STDERR_FILENO

/-- A call, with the kernel's answers, or something the rest of the process does. -/
inductive Call (File : Type*)
  | dup2 (fd targetFd dup : ℕ)
  | openPath (targetFd fd : ℕ) (file : File) (dup : ℕ)
  | pipe (targetFd : ℕ) (childRead : Bool) (p : Pipe File) (dup : ℕ)
  | pipeStdin (p : Pipe File) (dup : ℕ)
  | pipeStdout (p : Pipe File) (dup : ℕ)
  | pipeStderr (p : Pipe File) (dup : ℕ)
  | nullStdin (fd : ℕ) (file : File) (dup : ℕ)
  | nullStdout (fd : ℕ) (file : File) (dup : ℕ)
  | nullStderr (fd : ℕ) (file : File) (dup : ℕ)
  | inheritDescriptor (fd : ℕ) (dups : List ℕ)
  | opened (fd : ℕ) (file : File)
  | closed (fd : ℕ)
  deriving DecidableEq, Repr

/-- A call that throws leaves everything as it is. -/
def settle (s : Parent File) : Except String (Parent File) → Parent File
  | .ok s' => s'
  | .error _ => s

def step (s : Parent File) : Call File → Option (Parent File)
  | .dup2 fd targetFd dup => dup2 s fd targetFd dup
  | .openPath targetFd fd file dup => openPath s targetFd fd file dup
  | .pipe targetFd childRead p dup => (pipe s targetFd childRead p dup).map (settle s)
  | .pipeStdin p dup => (pipeStdin s p dup).map (settle s)
  | .pipeStdout p dup => (pipeStdout s p dup).map (settle s)
  | .pipeStderr p dup => (pipeStderr s p dup).map (settle s)
  | .nullStdin fd file dup => nullStdin s fd file dup
  | .nullStdout fd file dup => nullStdout s fd file dup
  | .nullStderr fd file dup => nullStderr s fd file dup
  | .inheritDescriptor fd dups => (inheritDescriptor s fd dups).map Prod.fst
  | .opened fd file => s.opened fd file
  | .closed fd => if fd ∈ s.owned then none else some (s.closed fd)

/-- The target that a call names. -/
def Call.explicitTarget : Call File → Option ℕ
  | .dup2 _ targetFd _ => some targetFd
  | .openPath targetFd .. => some targetFd
  | .pipe targetFd .. => some targetFd
  | .pipeStdin .. => some STDIN_FILENO
  | .pipeStdout .. => some STDOUT_FILENO
  | .pipeStderr .. => some STDERR_FILENO
  | .nullStdin .. => some STDIN_FILENO
  | .nullStdout .. => some STDOUT_FILENO
  | .nullStderr .. => some STDERR_FILENO
  | .inheritDescriptor .. => none
  | .opened .. => none
  | .closed .. => none

/-- **The plan works out.** The child starts with the table of the parent and executes the
descriptor actions in some order. -/
structure PlanHolds (s : Parent File) : Prop where
  refers : ∀ actions, actions.Perm s.descriptors_ → ∀ r ∈ s.requests,
    Lib.copies s.table actions r.target = some r.file
  intact : ∀ actions, actions.Perm s.descriptors_ → Lib.Intact actions
  /-- No request is dropped. -/
  kept : ∀ r ∈ s.requests, (r.target, r.fd) ∈ s.descriptors_

/-! ### What `dup2` does not check -/

/-- The source that `dup2(fd, targetFd)` records. -/
def recordedFd (fd targetFd dup : ℕ) : ℕ := if targetFd = fd then dup else fd

/-- The target is in use neither as a target nor as a source, and the source is no target. -/
def Clear (s : Parent File) (fd targetFd dup : ℕ) : Prop :=
  targetFd ∉ s.targets ∧ targetFd ∉ s.sources ∧ recordedFd fd targetFd dup ∉ s.targets

/-- A pipe that is refused reaches no `dup2`. -/
def PipeClear (s : Parent File) (targetFd : ℕ) (childRead : Bool) (p : Pipe File) (dup : ℕ) : Prop :=
  targetFd ∈ s.pipes_.map Prod.fst ∨ Clear s (p.child childRead) targetFd dup

def Call.IsClear (s : Parent File) : Call File → Prop
  | .dup2 fd targetFd dup => Clear s fd targetFd dup
  | .openPath targetFd fd _ dup => Clear s fd targetFd dup
  | .pipe targetFd childRead p dup => PipeClear s targetFd childRead p dup
  | .pipeStdin p dup => PipeClear s STDIN_FILENO true p dup
  | .pipeStdout p dup => PipeClear s STDOUT_FILENO false p dup
  | .pipeStderr p dup => PipeClear s STDERR_FILENO false p dup
  | .nullStdin fd _ dup => Clear s fd STDIN_FILENO dup
  | .nullStdout fd _ dup => Clear s fd STDOUT_FILENO dup
  | .nullStderr fd _ dup => Clear s fd STDERR_FILENO dup
  | .inheritDescriptor .. => True
  | .opened .. => True
  | .closed .. => True

end SpawnedProcess.Options

end EdenCommon
