import EdenCommon.Lib.CString
import EdenCommon.Lib.Split
import EdenCommon.Spec.Utf8
import Mathlib.Algebra.GroupWithZero.Nat

/-!
# `SpawnedProcess::Environment`

`asEnviron`, which puts an environment into one block of memory, and the constructor that reads
`environ`. A pointer is an address and takes 8 bytes. What `malloc` gives is a parameter; no result is
`std::bad_alloc`. A string is not read beyond the end of the address space. The loops over
`environ` have the number of rounds as their first argument: a loop that needs more has not ended.

The indices of the constructor are `uint32_t`.
-/

namespace EdenCommon

open Lib

/-- `unordered_map<string, string> map_`, in the order of an iteration. -/
structure Environment where
  map : List (Bytes × Bytes)
  nodup : (map.map Prod.fst).Nodup

namespace Environment

def empty : Environment := ⟨[], List.nodup_nil⟩

theorem nodup_assign {map : List (Bytes × Bytes)} (h : (map.map Prod.fst).Nodup) (key val : Bytes) :
    ((map.map fun it => if it.1 = key then (key, val) else it).map Prod.fst).Nodup := by
  have hkeys : (map.map fun it => if it.1 = key then (key, val) else it).map Prod.fst = map.map Prod.fst := by
    rw [List.map_map]
    apply List.map_congr_left
    intro it _
    rw [Function.comp_apply]
    split
    · rename_i heq
      exact heq.symm
    · rfl
  rwa [hkeys]

theorem nodup_append {map : List (Bytes × Bytes)} (h : (map.map Prod.fst).Nodup) {key : Bytes} (val : Bytes)
    (hnew : key ∉ map.map Prod.fst) : ((map ++ [(key, val)]).map Prod.fst).Nodup := by
  rw [List.map_append, List.nodup_append]
  refine ⟨h, by simp, fun x hx y hy => ?_⟩
  have hy : y = key := by simpa using hy
  rw [hy]
  rintro rfl
  exact hnew hx

/-- `map_[key] = val`. -/
def set (e : Environment) (key val : Bytes) : Environment :=
  if h : key ∈ e.map.map Prod.fst then
    ⟨e.map.map fun it => if it.1 = key then (key, val) else it, nodup_assign e.nodup key val⟩
  else ⟨e.map ++ [(key, val)], nodup_append e.nodup val h⟩

/-! ### `asEnviron` -/

/-- The pass that computes `len`, a `size_t`. -/
def computeLen (e : Environment) : ℕ :=
  e.map.foldl (fun len it => (len + (it.1.length + 1 + it.2.length + 1)) % 2 ^ 64) ((1 + e.map.length) * 8 % 2 ^ 64)

/-- The variables of the pass that populates the block. -/
structure Populate where
  memory : Memory
  buf : ℕ
  i : ℕ

/-- One entry: its pointer, and `key=value\0`. -/
def populate (envp : ℕ) (s : Populate) (it : Bytes × Bytes) : Populate :=
  let m := s.memory.storeLE (envp + 8 * s.i) 8 s.buf
  let m := m.memcpy s.buf it.1
  let buf := s.buf + it.1.length
  let m := m.memcpy buf [61]
  let buf := buf + 1
  let m := m.memcpy buf it.2
  let buf := buf + it.2.length
  let m := m.memcpy buf [0]
  ⟨m, buf + 1, s.i + 1⟩

/-- The block, the memory with it, and `buf` at the end. -/
structure Environ where
  envp : ℕ
  len : ℕ
  memory : Memory
  buf : ℕ

def asEnviron (malloc : ℕ → Option ℕ) (memory : Memory) (e : Environment) : Option Environ := do
  let len := e.computeLen
  let envp ← malloc len
  let s := e.map.foldl (populate envp) ⟨memory, envp + 8 * (e.map.length + 1), 0⟩
  some ⟨envp, len, s.memory.storeLE (envp + 8 * e.map.length) 8 0, s.buf⟩

/-! ### `Environment()` -/

/-- `environ[i]`. -/
def ptr (m : Memory) (environ i : ℕ) : ℕ := m.loadLE (environ + 8 * i) 8

/-- The loop that counts the entries. -/
def count (m : Memory) (environ : ℕ) : ℕ → ℕ → ℕ → Option ℕ
  | 0, _, _ => none
  | n + 1, i, nenv =>
    if ptr m environ i = 0 then some nenv else count m environ n ((i + 1) % 2 ^ 32) ((nenv + 1) % 2 ^ 32)

/-- One string of `environ`. -/
def loadEntry (m : Memory) (ent : ℕ) (e : Environment) : Option Environment := do
  let eq ← m.strchr 61 (2 ^ 64 - ent) ent
  match eq with
  | none => some e
  | some eq =>
    let key := m.loadAt (List.range' ent (eq - ent))
    let val ← m.cstr (2 ^ 64 - (eq + 1)) (eq + 1)
    some (e.set key val)

/-- The loop over the strings. -/
def load (m : Memory) (environ : ℕ) : ℕ → ℕ → Environment → Option Environment
  | 0, _, _ => none
  | n + 1, i, e => do
    let ent := ptr m environ i
    if ent = 0 then some e
    else
      let e ← loadEntry m ent e
      load m environ n ((i + 1) % 2 ^ 32) e

/-- The constructor, over at most `n` rounds of each loop. -/
def ofEnviron (n : ℕ) (m : Memory) (environ : ℕ) : Option Environment := do
  let _ ← count m environ n 0 0
  load m environ n 0 empty

/-! ### The round trip -/

/-- No `=` and no NUL in a key, no NUL in a value. -/
def Valid (e : Environment) : Prop := ∀ it ∈ e.map, 61 ∉ it.1 ∧ 0 ∉ it.1 ∧ 0 ∉ it.2

/-- `key=value`. -/
def text (it : Bytes × Bytes) : Bytes := it.1 ++ 61 :: it.2

/-- The bytes that the array and its strings take. -/
def totalSize (e : Environment) : ℕ := 8 * (e.map.length + 1) + (terminate 0 (e.map.map text)).length

/-- The array and its strings fill the block. -/
structure LaidOut (e : Environment) (memory : Memory) (out : Environ) : Prop where
  /-- The last byte that is written is the last one of the block. -/
  buf : out.buf = out.envp + out.len
  /-- The bytes that are written are as many as computed. -/
  len : out.len = e.totalSize
  inside : ∀ a, a < out.envp ∨ out.envp + out.len ≤ a → out.memory a = memory a
  /-- The strings stand behind one another between the array and the end of the block. -/
  area : out.memory.HoldsAt (out.envp + 8 * (e.map.length + 1)) (terminate 0 (e.map.map text))
  /-- Each pointer leads to the string of its entry, in the block. -/
  strings : ∀ i (h : i < e.map.length), ptr out.memory out.envp i ≠ 0 ∧
    out.envp + 8 * (e.map.length + 1) ≤ ptr out.memory out.envp i ∧
    ptr out.memory out.envp i + (text e.map[i]).length + 1 ≤ out.envp + out.len ∧
    out.memory.HoldsAt (ptr out.memory out.envp i) (text e.map[i] ++ [0])
  null : ptr out.memory out.envp e.map.length = 0

/-- The constructor gives the same map. -/
def ReadsBack (e : Environment) (out : Environ) : Prop :=
  ∃ n e', ofEnviron n out.memory out.envp = some e' ∧ e'.map.Perm e.map

/-! ### Edits

What the callers do to an environment before a process is spawned with it. -/

/-- `map_.erase(key)`. -/
def unset (e : Environment) (key : Bytes) : Environment where
  map := e.map.filter fun it => it.1 != key
  nodup := e.nodup.sublist (List.filter_sublist.map Prod.fst)

def clear (_ : Environment) : Environment := empty

/-- `set` of an `initializer_list`. -/
def setAll (e : Environment) (pairs : List (Bytes × Bytes)) : Environment :=
  pairs.foldl (fun e pair => e.set pair.1 pair.2) e

inductive Edit
  | set (key val : Bytes)
  | setAll (pairs : List (Bytes × Bytes))
  | unset (key : Bytes)
  | clear

def edit (e : Environment) : Edit → Environment
  | .set key val => e.set key val
  | .setAll pairs => e.setAll pairs
  | .unset key => e.unset key
  | .clear => e.clear

/-- The value of a variable. -/
def find (e : Environment) (key : Bytes) : Option Bytes := e.map.lookup key

/-- What an edit means, for variables as a function. -/
def Edit.apply (vars : Bytes → Option Bytes) : Edit → Bytes → Option Bytes
  | .set key val => fun k => if k = key then some val else vars k
  | .setAll pairs => pairs.foldl (fun vars pair k => if k = pair.1 then some pair.2 else vars k) vars
  | .unset key => fun k => if k = key then none else vars k
  | .clear => fun _ => none

/-! ### `asWin32EnvBlock` -/

/-- The string; one more NUL stands behind what a `std::string` holds. -/
def asWin32EnvBlock (e : Environment) : Bytes :=
  e.map.foldl (fun block it => block ++ it.1 ++ [61] ++ it.2 ++ [0]) []

/-- The name of a variable and its value. -/
def nameValue (string : Bytes) : Bytes × Bytes :=
  (string.takeWhile fun b => b != 61, (string.dropWhile fun b => b != 61).tail)

/-- What a process finds in its block: strings that end with a NUL, up to the first empty one. -/
def win32Variables (block : Bytes) : List (Bytes × Bytes) :=
  ((block.splitOnP fun b => b == 0).takeWhile fun string => !string.isEmpty).map nameValue

end Environment

end EdenCommon
