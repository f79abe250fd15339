import EdenCommon.Lib.Ring

/-!
# `BucketedLog`

A circular buffer of `Size` buckets: the bucket of time `t` is `buckets_[t % Size]`,
and `[windowStart_, windowStart_ + Size)` is the sliding window. The `Bucket` type is a
parameter; of it the code relies on what the class comment asks for: `clear` empties a
bucket, so that a cleared bucket is a default-constructed one. `Size` is positive (`now %
Size` has no meaning otherwise) and, as a `size_t`, below `2 ^ 64`. Times are `uint64_t`:
sums and differences are taken modulo `2 ^ 64`.

`held` is what the log is for: the bucket of each time, empty outside the window.
-/

namespace EdenCommon

/-- The requirements on `Bucket`: a default constructor and the methods `add`, `merge`
and `clear`, the last of which empties the bucket. -/
class Bucket (B : Type*) (α : outParam Type*) where
  empty : B
  add : B → α → B
  merge : B → B → B
  clear : B → B
  clear_eq : ∀ b, clear b = empty

/-- The value of an unsigned 64-bit expression. -/
def u64 (n : ℕ) : ℕ := n % 2 ^ 64

@[ext] structure BucketedLog (B : Type*) (Size : ℕ) where
  buckets_ : Fin Size → B
  windowStart_ : ℕ

namespace BucketedLog

open Lib (slot)

variable {B α : Type*} [Bucket B α] {Size : ℕ} [NeZero Size]

def new : BucketedLog B Size := ⟨fun _ => Bucket.empty, 0⟩

def advanceWindow (log : BucketedLog B Size) (now : ℕ) : BucketedLog B Size :=
  if now < u64 (log.windowStart_ + Size) then log
  else
    let newWindowStart := u64 (u64 (now + 1) + 2 ^ 64 - Size)
    let toClear := min Size (u64 (newWindowStart + 2 ^ 64 - log.windowStart_))
    let p := u64 (newWindowStart + 2 ^ 64 - toClear)
    { buckets_ := Lib.mapRange (fun _ => Bucket.clear) log.buckets_ p (newWindowStart - p)
      windowStart_ := newWindowStart }

def add (log : BucketedLog B Size) (now : ℕ) (x : α) : BucketedLog B Size :=
  -- values from before this window are ignored
  if now < log.windowStart_ then log
  else
    let log := log.advanceWindow now
    { log with
      buckets_ := Function.update log.buckets_ (slot Size now)
        (Bucket.add (log.buckets_ (slot Size now)) x) }

/-- `getAll`: the log with its window advanced, and the returned array. -/
def getAll (log : BucketedLog B Size) (now : ℕ) : BucketedLog B Size × (Fin Size → B) :=
  let log := log.advanceWindow now
  (log, fun i => log.buckets_ (slot Size (u64 (now + 1 + i))))

def merge (log other : BucketedLog B Size) : BucketedLog B Size :=
  let log := log.advanceWindow (u64 (other.windowStart_ + Size - 1))
  { log with
    buckets_ := Lib.mapRange
      (fun i bucket =>
        if i ≥ other.windowStart_ ∧ i < u64 (other.windowStart_ + Size) then
          Bucket.merge bucket (other.buckets_ (slot Size i))
        else bucket)
      log.buckets_ log.windowStart_ (u64 (log.windowStart_ + Size) - log.windowStart_) }

def clear (log : BucketedLog B Size) : BucketedLog B Size :=
  { log with buckets_ := fun i => Bucket.clear (log.buckets_ i) }

/-! ### What the log is for -/

/-- `t` lies in the sliding window. -/
def InWindow (log : BucketedLog B Size) (t : ℕ) : Prop :=
  log.windowStart_ ≤ t ∧ t < log.windowStart_ + Size

instance (log : BucketedLog B Size) (t : ℕ) : Decidable (log.InWindow t) :=
  inferInstanceAs (Decidable (_ ∧ _))

/-- What the log holds for time `t`: its bucket, or an empty one outside the window. -/
def held (log : BucketedLog B Size) (t : ℕ) : B :=
  if log.InWindow t then log.buckets_ (slot Size t) else Bucket.empty

end BucketedLog

/-- The operations on one log. -/
inductive LogOp (α : Type*)
  | add (now : ℕ) (x : α)
  | getAll (now : ℕ)
  | clear
  deriving DecidableEq, Repr

namespace LogOp

variable {B α : Type*} [Bucket B α] {Size : ℕ} [NeZero Size]

/-- The log after an operation. -/
def apply (log : BucketedLog B Size) : LogOp α → BucketedLog B Size
  | .add now x => log.add now x
  | .getAll now => (log.getAll now).1
  | .clear => log.clear

/-- The timestamp that an operation passes. -/
def time : LogOp α → Option ℕ
  | .add now _ => some now
  | .getAll now => some now
  | .clear => none

/-- The adds since the last `clear`, in order, after one more operation. -/
def addsAfter (adds : List (ℕ × α)) : LogOp α → List (ℕ × α)
  | .add now x => adds ++ [(now, x)]
  | .getAll _ => adds
  | .clear => []

/-- The adds since the last `clear` of a run, in order. -/
def addsSinceClear (ops : List (LogOp α)) : List (ℕ × α) := ops.foldl addsAfter []

/-- The timestamp, if any, is at most `2 ^ 64 - 1 - Size`. -/
def Timely (Size : ℕ) (op : LogOp α) : Prop := ∀ t ∈ op.time, t ≤ 2 ^ 64 - 1 - Size

instance (op : LogOp α) : Decidable (op.Timely Size) :=
  inferInstanceAs (Decidable (∀ t ∈ op.time, t ≤ 2 ^ 64 - 1 - Size))

end LogOp

/-- The in-order accumulation, in an empty bucket, of the values added for time `t`. -/
def accumulate {α : Type*} (B : Type*) [Bucket B α] (adds : List (ℕ × α)) (t : ℕ) : B :=
  ((adds.filter fun e => e.1 = t).map Prod.snd).foldl Bucket.add Bucket.empty

/-- **Reachable logs**, with the adds since their last `clear`: those of a new log after
any operations, where a merge brings in the adds of the other log. -/
inductive BucketedLog.Reachable {B α : Type*} [Bucket B α] {Size : ℕ} [NeZero Size] :
    BucketedLog B Size → List (ℕ × α) → Prop
  | new : Reachable .new []
  | op {log adds} (op : LogOp α) : Reachable log adds → op.Timely Size →
      Reachable (op.apply log) (op.addsAfter adds)
  | merge {log adds other adds'} : Reachable log adds → Reachable other adds' →
      Reachable (log.merge other) (adds ++ adds')

/-- **Reachable logs** with their clock, the latest time passed to them. Their window ends
with it: it is the last `Size` times. No time passed is `2 ^ 64 - 1`, behind which the
window would have no end. -/
inductive BucketedLog.Clocked {B α : Type*} [Bucket B α] {Size : ℕ} [NeZero Size] : BucketedLog B Size → ℕ → Prop
  | new : Clocked .new 0
  | op {log clock} (op : LogOp α) : Clocked log clock → (∀ t ∈ op.time, t + 1 < 2 ^ 64) →
      Clocked (op.apply log) (op.time.elim clock (max clock))
  | merge {log clock other clock'} : Clocked log clock → Clocked other clock' →
      Clocked (log.merge other) (max clock clock')

/-- The bucket of the `i`-th time of the window that ends with `clock`, the time
`clock - Size + 1 + i`; a time below zero has the cell that it has modulo `Size`. -/
def BucketedLog.windowBucket {B α : Type*} [Bucket B α] {Size : ℕ} [NeZero Size] (log : BucketedLog B Size)
    (clock : ℕ) (i : Fin Size) : B :=
  if clock + 1 + i < Size then log.buckets_ (Lib.slot Size (clock + 1 + i)) else log.held (clock + 1 + i - Size)

/-- The adds that a log still retains: those whose time its window has not left behind. -/
def BucketedLog.retained {B α : Type*} {Size : ℕ} (log : BucketedLog B Size) (adds : List (ℕ × α)) :
    List (ℕ × α) :=
  adds.filter fun e => log.windowStart_ ≤ e.1

/-- Replaying adds into a log. -/
def BucketedLog.replay {B α : Type*} [Bucket B α] {Size : ℕ} [NeZero Size] (log : BucketedLog B Size)
    (adds : List (ℕ × α)) : BucketedLog B Size :=
  adds.foldl (fun log e => log.add e.1 e.2) log

/-- `Bucket::merge` is commutative and associative with the cleared bucket as identity. -/
structure Bucket.IsCommMonoid (B : Type*) {α : Type*} [Bucket B α] : Prop where
  comm : ∀ a b : B, Bucket.merge a b = Bucket.merge b a
  assoc : ∀ a b c : B, Bucket.merge (Bucket.merge a b) c = Bucket.merge a (Bucket.merge b c)
  merge_empty : ∀ a : B, Bucket.merge a Bucket.empty = a

end EdenCommon
