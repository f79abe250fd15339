import Mathlib.Data.Nat.ModEq

/-!
# `LeaseCache`

`set`, `erase` and `get` of `LeaseCache.h`. The section under `lock_` of each call is one
step; a `get` that has published an entry calls `fetcher_` in a step of its own and the
continuation that fulfils the entry runs in a third. The `EvictingCacheMap` may evict any
key at any time.

Entries are `SharedPromise`s on the heap, numbered in the order they are made. A `get`
returns the future of its entry, which receives what the entry's promise is given.
-/

namespace EdenCommon

namespace LeaseCache

variable {K V E : Type}

/-- Who made an entry. -/
inductive Origin (V : Type)
  | set (val : V)
  /-- The `get` with this number. -/
  | get (call : ℕ)
  deriving DecidableEq, Repr

structure Entry (K V E : Type) where
  /-- record: the key that the entry was made for, and who made it. -/
  key : K
  origin : Origin V
  /-- The `Try` that the promise was given. -/
  promise : Option (Except E V)

/-- `setTry`; a promise that has a result throws and keeps it. -/
def Entry.setTry (entry : Entry K V E) (t : Except E V) : Entry K V E :=
  { entry with promise := entry.promise.or (some t) }

/-- Where a `get` stands behind its locked section. -/
inductive Pc
  /-- It found its entry and returned the entry's future. -/
  | found
  /-- It published its entry and is in front of `fetcher_(key)`. -/
  | inserted
  /-- `fetcher_` gave it a future that has not completed. -/
  | fetching
  /-- The continuation of that future has run. -/
  | fetched
  /-- `fetcher_` threw out of `get`. -/
  | threw
  deriving DecidableEq, Repr

structure Call (K : Type) where
  key : K
  entry : ℕ
  pc : Pc
  deriving DecidableEq, Repr

structure Sys (K V E : Type) where
  /-- `cache_` -/
  cache : K → Option ℕ
  entries : ℕ → Option (Entry K V E)
  nextEntry : ℕ
  /-- The calls of `get`, numbered in the order of their locked sections. -/
  calls : ℕ → Option (Call K)
  nextCall : ℕ
  /-- record: the entries that `fetcher_` was called for, each with the argument. -/
  fetches : List (ℕ × K)
  /-- record: the entries whose fetch has completed, each with the result. -/
  completions : List (ℕ × Except E V)

inductive Op (K V E : Type)
  | set (key : K) (val : V)
  | erase (key : K)
  | evict (key : K)
  | get (key : K)
  /-- The `get` with this number calls `fetcher_`, which returns a future. -/
  | fetch (call : ℕ)
  /-- It calls `fetcher_`, which throws. -/
  | fetchThrows (call : ℕ)
  /-- The future that `fetcher_` returned to it completes. -/
  | complete (call : ℕ) (t : Except E V)

def start : Sys K V E := ⟨fun _ => none, fun _ => none, 0, fun _ => none, 0, [], []⟩

variable [DecidableEq K]

/-- `make_shared` of a promise and `cache_.set(key, entry)`. -/
def Sys.publish (s : Sys K V E) (entry : Entry K V E) : Sys K V E :=
  { s with
    cache := Function.update s.cache entry.key (some s.nextEntry)
    entries := Function.update s.entries s.nextEntry (some entry)
    nextEntry := s.nextEntry + 1 }

/-- `cache_.erase(key)` -/
def Sys.drop (s : Sys K V E) (key : K) : Sys K V E := { s with cache := Function.update s.cache key none }

omit [DecidableEq K] in
def Sys.addCall (s : Sys K V E) (call : Call K) : Sys K V E :=
  { s with calls := Function.update s.calls s.nextCall (some call), nextCall := s.nextCall + 1 }

/-- The section of `get` under the lock. -/
def Sys.lookup (s : Sys K V E) (key : K) : Sys K V E :=
  match s.cache key with
  | some entry => s.addCall ⟨key, entry, .found⟩
  | none => (s.publish ⟨key, .get s.nextCall, none⟩).addCall ⟨key, s.nextEntry, .inserted⟩

omit [DecidableEq K] in
/-- `fetcher_(key)`, after which the call stands at `pc`. -/
def Sys.callFetcher (s : Sys K V E) (i : ℕ) (call : Call K) (pc : Pc) : Sys K V E :=
  { s with
    calls := Function.update s.calls i (some { call with pc := pc })
    fetches := s.fetches ++ [(call.entry, call.key)] }

omit [DecidableEq K] in
/-- The continuation `entry->setTry(std::move(t))`. -/
def Sys.continuation (s : Sys K V E) (i : ℕ) (call : Call K) (t : Except E V) : Sys K V E :=
  { s with
    entries := Function.update s.entries call.entry ((s.entries call.entry).map (·.setTry t))
    calls := Function.update s.calls i (some { call with pc := .fetched })
    completions := s.completions ++ [(call.entry, t)] }

/-- One step; `none` if the call is not at that place. -/
def step (s : Sys K V E) : Op K V E → Option (Sys K V E)
  | .set key val => some (s.publish ⟨key, .set val, some (.ok val)⟩)
  | .erase key => some (s.drop key)
  | .evict key => some (s.drop key)
  | .get key => some (s.lookup key)
  | .fetch i =>
    match s.calls i with
    | some ⟨key, entry, .inserted⟩ => some (s.callFetcher i ⟨key, entry, .inserted⟩ .fetching)
    | _ => none
  | .fetchThrows i =>
    match s.calls i with
    | some ⟨key, entry, .inserted⟩ => some (s.callFetcher i ⟨key, entry, .inserted⟩ .threw)
    | _ => none
  | .complete i t =>
    match s.calls i with
    | some ⟨key, entry, .fetching⟩ => some (s.continuation i ⟨key, entry, .fetching⟩ t)
    | _ => none

/-- The arguments of the calls of `fetcher_` for an entry. -/
def Sys.fetchesOf (s : Sys K V E) (entry : ℕ) : List K := (s.fetches.filter (·.1 = entry)).map Prod.snd

/-- The results of the fetches for an entry. -/
def Sys.resultsOf (s : Sys K V E) (entry : ℕ) : List (Except E V) :=
  (s.completions.filter (·.1 = entry)).map Prod.snd

end LeaseCache

end EdenCommon
