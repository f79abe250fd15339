import Mathlib.Data.Nat.ModEq
import Mathlib.Logic.Function.Basic

/-!
# `generateUniqueID`

Threads that call `generateUniqueID` of `IDGen.cpp`. Only `global.counter` is shared, so a
call is at most three steps: it reads `localCounter`, takes a range from `global.counter` if
its own is used up, and stores and returns the next number. Counters are 64 bits wide.
-/

namespace EdenCommon

namespace IDGen

def kRangeSize : ℕ := 2048

/-- `++x` and `x + n` of 64-bit counters. -/
def addU64 (x n : ℕ) : ℕ := (x + n) % 2 ^ 64

/-- Where a thread stands. -/
inductive Pc
  /-- In no call. -/
  | idle
  /-- In front of `fetch_add`. -/
  | fetchAdd
  /-- In front of `++current`. -/
  | increment (current : ℕ)
  deriving DecidableEq, Repr

structure Sys (Tid : Type) where
  /-- `global.counter` -/
  counter : ℕ
  localCounter : Tid → ℕ
  pc : Tid → Pc
  /-- record: the calls that have returned, oldest first. -/
  returned : List (Tid × ℕ)

variable {Tid : Type} [DecidableEq Tid]

/-- `current = localCounter`, and the test whether the range is used up. -/
def Sys.load (s : Sys Tid) (t : Tid) : Sys Tid :=
  let current := s.localCounter t
  let pc := if current % kRangeSize = 0 then .fetchAdd else .increment current
  { s with pc := Function.update s.pc t pc }

/-- `current = global.counter.fetch_add(kRangeSize)` -/
def Sys.fetchAdd (s : Sys Tid) (t : Tid) : Sys Tid :=
  { s with
    counter := addU64 s.counter kRangeSize
    pc := Function.update s.pc t (.increment s.counter) }

/-- `++current`, which is stored and returned. -/
def Sys.increment (s : Sys Tid) (t : Tid) (current : ℕ) : Sys Tid :=
  let current := addU64 current 1
  { s with
    localCounter := Function.update s.localCounter t current
    pc := Function.update s.pc t .idle
    returned := s.returned ++ [(t, current)] }

/-- The next step of thread `t`, which makes a call when it is in none. -/
def step (s : Sys Tid) (t : Tid) : Option (Sys Tid) :=
  match s.pc t with
  | .idle => some (s.load t)
  | .fetchAdd => some (s.fetchAdd t)
  | .increment current => some (s.increment t current)

/-- `return current` of a call that is in front of `++current`. -/
def Sys.ret (s : Sys Tid) (t : Tid) : Option (ℕ × Sys Tid) :=
  match s.pc t with
  | .increment current => some (addU64 current 1, s.increment t current)
  | _ => none

/-- A whole call with no step of another thread in it; `none` if the thread is in one. -/
def generateUniqueID (s : Sys Tid) (t : Tid) : Option (ℕ × Sys Tid) :=
  match s.pc t with
  | .idle =>
    let s := s.load t
    match s.pc t with
    | .fetchAdd => (s.fetchAdd t).ret t
    | _ => s.ret t
  | _ => none

def start (Tid : Type) : Sys Tid := ⟨0, fun _ => 0, fun _ => .idle, []⟩

/-- The IDs that calls have returned. -/
def Sys.ids (s : Sys Tid) : List ℕ := s.returned.map Prod.snd

/-- The step does not wrap `global.counter`. -/
def NoWrap (s : Sys Tid) (t : Tid) : Prop := s.pc t = .fetchAdd → s.counter + kRangeSize < 2 ^ 64

instance (s : Sys Tid) (t : Tid) : Decidable (NoWrap s t) := inferInstanceAs (Decidable (_ → _))

end IDGen

end EdenCommon
