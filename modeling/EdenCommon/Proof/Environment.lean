import EdenCommon.Spec.Environment
import Mathlib.Data.List.Basic
import Mathlib.Data.List.Nodup
import Mathlib.Tactic.Set
import Mathlib.Tactic.ByContra

/-!
# The environment in one block

The two passes of `asEnviron` agree for every map whose block fits into the address space
(`laidOut`): the pass that populates keeps `Populated`, from one entry to the next. The constructor
reads the same entries in the same order, as long as their number is below `2 ^ 32`
(`readsBack`). From there on the index of its loops is back at zero before it gets to the null
pointer, and they do not end (`not_readsBack`).
-/

namespace EdenCommon

open Lib

namespace Environment

variable {e : Environment} {memory : Memory} {out : Environ} {envp : ℕ} {s : Populate} {it : Bytes × Bytes}
  {items items' : List (Bytes × Bytes)}

/-! ### The two passes -/

theorem length_terminate_cons (it : Bytes × Bytes) (items : List (Bytes × Bytes)) :
    (terminate 0 ((it :: items).map text)).length =
      it.1.length + 1 + it.2.length + 1 + (terminate 0 (items.map text)).length := by
  rw [List.map_cons, terminate_cons, List.length_append, List.length_cons, text, List.length_append, List.length_cons]
  omega

/-- **The first pass** computes the size, as a `size_t`. -/
theorem computeLen_eq (e : Environment) : e.computeLen = e.totalSize % 2 ^ 64 := by
  have hfold : ∀ (items : List (Bytes × Bytes)) (len : ℕ),
      items.foldl (fun len it => (len + (it.1.length + 1 + it.2.length + 1)) % 2 ^ 64) (len % 2 ^ 64) =
        (len + (terminate 0 (items.map text)).length) % 2 ^ 64 := by
    intro items
    induction items with
    | nil => exact fun len => rfl
    | cons it items ih =>
      intro len
      rw [List.foldl_cons, Nat.mod_add_mod, ih, length_terminate_cons, Nat.add_assoc]
  unfold computeLen totalSize
  rw [hfold, Nat.add_comm 1, Nat.mul_comm]

/-- **One entry** is a pointer and one string. -/
theorem populate_eq (envp : ℕ) (s : Populate) (it : Bytes × Bytes) : populate envp s it =
    ⟨(s.memory.storeLE (envp + 8 * s.i) 8 s.buf).memcpy s.buf (text it ++ [0]), s.buf + (text it).length + 1,
      s.i + 1⟩ := by
  have htext : text it ++ [0] = it.1 ++ ([61] ++ (it.2 ++ [0])) := by
    simp [text]
  have hlen : s.buf + (text it).length = s.buf + it.1.length + 1 + it.2.length := by
    rw [text, List.length_append, List.length_cons]
    omega
  unfold populate
  rw [htext, Memory.memcpy_append, Memory.memcpy_append, Memory.memcpy_append, List.length_singleton, hlen]

/-- What the second pass has done when `items` are placed, in an array for `n` of them. -/
structure Populated (memory : Memory) (envp n : ℕ) (items : List (Bytes × Bytes)) (s : Populate) : Prop where
  i : s.i = items.length
  buf : s.buf = envp + 8 * (n + 1) + (terminate 0 (items.map text)).length
  area : s.memory.HoldsAt (envp + 8 * (n + 1)) (terminate 0 (items.map text))
  ptrs : ∀ i < items.length,
    ptr s.memory envp i = envp + 8 * (n + 1) + (terminate 0 ((items.map text).take i)).length
  inside : ∀ a, a < envp ∨ s.buf ≤ a → s.memory a = memory a

theorem Populated.start (memory : Memory) (envp n : ℕ) :
    Populated memory envp n [] ⟨memory, envp + 8 * (n + 1), 0⟩ := by
  refine ⟨rfl, rfl, trivial, fun i hi => ?_, fun a _ => rfl⟩
  simp at hi

theorem Populated.populate {n : ℕ} (h : Populated memory envp n items s) (hn : items.length < n)
    (hbuf : s.buf < 2 ^ 64) : Populated memory envp n (items ++ [it]) (populate envp s it) := by
  have hstart := h.buf
  have hi := h.i
  rw [populate_eq]
  have hlen : (text it ++ [0]).length = (text it).length + 1 := by simp
  -- the new string starts behind the array and the strings that are there
  have hold : ∀ off len, envp + 8 * (n + 1) ≤ off → off + len ≤ s.buf →
      Memory.Agree ((s.memory.storeLE (envp + 8 * s.i) 8 s.buf).memcpy s.buf (text it ++ [0])) s.memory off len := by
    intro off len hoff hend a ha ha'
    rw [Memory.memcpy_agree _ (Or.inl hend) a ha ha']
    exact Memory.storeLE_of_outside s.buf (by omega)
  have hslot : ∀ i < n, Memory.Agree ((s.memory.storeLE (envp + 8 * s.i) 8 s.buf).memcpy s.buf (text it ++ [0]))
      (s.memory.storeLE (envp + 8 * s.i) 8 s.buf) (envp + 8 * i) 8 := by
    intro i hi
    exact Memory.memcpy_agree _ (Or.inl (by omega))
  constructor
  · rw [List.length_append, List.length_singleton]
    simp only [hi]
  · rw [List.map_append, terminate_append, List.length_append, List.map_singleton, terminate_cons, terminate_nil]
    simp only [hstart, List.length_append, List.length_singleton]
    omega
  · rw [List.map_append, terminate_append, List.map_singleton, terminate_cons, terminate_nil, Memory.holdsAt_append,
      ← hstart]
    exact ⟨h.area.congr (hold _ _ le_rfl hstart.ge), Memory.holdsAt_memcpy _⟩
  · intro i hlt
    rw [List.length_append, List.length_singleton] at hlt
    have hagree := hslot i (by omega)
    unfold ptr
    simp only
    rw [hagree.loadLE_eq]
    have htake : ((items ++ [it]).map text).take i = (items.map text).take i := by
      rw [List.map_append, List.take_append_of_le_length]
      rw [List.length_map]
      omega
    rw [htake]
    by_cases heq : i = s.i
    · rw [heq, Memory.loadLE_storeLE, Nat.mod_eq_of_lt (by omega), hi, List.take_of_length_le (by simp), ← hstart]
    · rw [Memory.loadLE_storeLE_of_disjoint _ (by omega)]
      exact h.ptrs i (by omega)
  · intro a ha
    simp only at ha ⊢
    rw [Memory.memcpy_of_outside _ (by omega), Memory.storeLE_of_outside s.buf (by omega)]
    exact h.inside a (by omega)

/-- **The second pass.** -/
theorem Populated.run {n : ℕ} (h : Populated memory envp n items s) (hn : (items ++ items').length ≤ n)
    (hend : envp + 8 * (n + 1) + (terminate 0 ((items ++ items').map text)).length ≤ 2 ^ 64) :
    Populated memory envp n (items ++ items') (items'.foldl (Environment.populate envp) s) := by
  induction items' generalizing items s with
  | nil =>
    rw [List.append_nil, List.foldl_nil]
    exact h
  | cons it items' ih =>
    have hnext : items ++ it :: items' = items ++ [it] ++ items' := by simp
    have hbuf := h.buf
    rw [List.foldl_cons, hnext]
    apply ih
    · apply h.populate
      · rw [List.length_append, List.length_cons] at hn
        omega
      · rw [List.map_append, terminate_append, List.length_append, length_terminate_cons] at hend
        omega
    · rwa [← hnext]
    · rwa [← hnext]

/-- The variables at the end of the second pass. -/
def populated (memory : Memory) (envp : ℕ) (e : Environment) : Populate :=
  e.map.foldl (populate envp) ⟨memory, envp + 8 * (e.map.length + 1), 0⟩

theorem asEnviron_eq_some {malloc : ℕ → Option ℕ} : asEnviron malloc memory e = some out ↔
    ∃ envp, malloc e.computeLen = some envp ∧
      ⟨envp, e.computeLen, (populated memory envp e).memory.storeLE (envp + 8 * e.map.length) 8 0,
        (populated memory envp e).buf⟩ = out := by
  unfold asEnviron
  rw [Option.bind_eq_bind, Option.bind_eq_some_iff]
  simp only [Option.some.injEq]
  rfl

theorem populated_populate (h : envp + e.totalSize ≤ 2 ^ 64) :
    Populated memory envp e.map.length e.map (populated memory envp e) := by
  have hrun : Populated memory envp e.map.length ([] ++ e.map) (populated memory envp e) := by
    apply (Populated.start memory envp e.map.length).run
    · rfl
    · rw [List.nil_append, Nat.add_assoc]
      exact h
  rwa [List.nil_append] at hrun

/-- **The block** is filled, if its size is a `size_t`. -/
theorem laidOut {malloc : ℕ → Option ℕ} (hmalloc : ∀ len envp, malloc len = some envp → 0 < envp ∧ envp + len ≤ 2 ^ 64)
    (h : asEnviron malloc memory e = some out) (hsize : e.totalSize < 2 ^ 64) : LaidOut e memory out := by
  obtain ⟨envp, hm, rfl⟩ := asEnviron_eq_some.mp h
  obtain ⟨hpos, hend⟩ := hmalloc _ _ hm
  have hlen : e.computeLen = e.totalSize := by rw [computeLen_eq, Nat.mod_eq_of_lt hsize]
  rw [hlen] at hend
  have hp := @populated_populate e memory envp hend
  generalize populated memory envp e = s at hp
  have hbuf := hp.buf
  rw [totalSize] at hend
  have hptr : ∀ i < e.map.length, ptr (s.memory.storeLE (envp + 8 * e.map.length) 8 0) envp i =
      envp + 8 * (e.map.length + 1) + (terminate 0 ((e.map.map text).take i)).length := by
    intro i hi
    unfold ptr
    rw [Memory.loadLE_storeLE_of_disjoint _ (by omega)]
    exact hp.ptrs i hi
  have harea : (s.memory.storeLE (envp + 8 * e.map.length) 8 0).HoldsAt (envp + 8 * (e.map.length + 1))
      (terminate 0 (e.map.map text)) := hp.area.congr (Memory.storeLE_agree 0 (by omega))
  constructor
  · simp only [hlen, totalSize, hbuf]
    omega
  · exact hlen
  · intro a ha
    simp only [hlen, totalSize] at ha ⊢
    rw [Memory.storeLE_of_outside 0 (by omega)]
    exact hp.inside a (by omega)
  · exact harea
  · intro i hi
    have hlt : i < (e.map.map text).length := by rwa [List.length_map]
    have hstring := harea.terminate_getElem hlt
    have hnext := Memory.length_terminate_take_succ hlt
    have hle := Memory.length_terminate_take_le (e.map.map text) (i + 1)
    rw [List.getElem_map] at hstring hnext
    simp only [hlen, totalSize]
    rw [hptr i hi]
    exact ⟨by omega, by omega, by omega, hstring⟩
  · unfold ptr
    rw [Memory.loadLE_storeLE]
    rfl

/-- A size that is no `size_t` is not the one that was computed. -/
theorem LaidOut.totalSize_lt {malloc : ℕ → Option ℕ} (hl : LaidOut e memory out)
    (h : asEnviron malloc memory e = some out) : e.totalSize < 2 ^ 64 := by
  obtain ⟨envp, -, rfl⟩ := asEnviron_eq_some.mp h
  rw [← hl.len]
  simp only [computeLen_eq]
  exact Nat.mod_lt _ (by omega)

/-! ### The constructor -/

theorem set_of_notMem {key : Bytes} (val : Bytes) (h : key ∉ e.map.map Prod.fst) :
    (e.set key val).map = e.map ++ [(key, val)] := by
  rw [set, dif_neg h]

/-- **One string** that lies in the address space is cut at its first `=`. -/
theorem loadEntry_eq {m : Memory} {ent : ℕ} (h : m.HoldsAt ent (text it ++ [0]))
    (hend : ent + (text it).length + 1 ≤ 2 ^ 64) (hkey : 61 ∉ it.1) (hkey0 : 0 ∉ it.1) (hval : 0 ∉ it.2)
    (e : Environment) : loadEntry m ent e = some (e.set it.1 it.2) := by
  have hlen : (text it).length = it.1.length + 1 + it.2.length := by
    rw [text, List.length_append, List.length_cons]
    omega
  have hcut : text it ++ [0] = (it.1 ++ [61]) ++ (it.2 ++ [0]) := by simp [text]
  rw [hcut, Memory.holdsAt_append] at h
  have heq : m.strchr 61 (2 ^ 64 - ent) ent = some (some (ent + it.1.length)) :=
    Memory.strchr_eq_some h.1 hkey hkey0 (by omega)
  have hload : m.loadAt (List.range' ent (ent + it.1.length - ent)) = it.1 := by
    rw [Nat.add_sub_cancel_left]
    exact (Memory.holdsAt_append.mp h.1).1.loadAt
  have hcstr : m.cstr (2 ^ 64 - (ent + it.1.length + 1)) (ent + it.1.length + 1) = some it.2 := by
    apply Memory.cstr_eq_some _ hval (by omega)
    have hrest := h.2
    rwa [List.length_append, List.length_singleton, ← Nat.add_assoc] at hrest
  unfold loadEntry
  rw [heq]
  simp only [Option.bind_eq_bind, Option.bind_some, hload, hcstr]

/-- The loops end at the null pointer. -/
theorem count_isSome {m : Memory} {environ n : ℕ} (hlt : n < 2 ^ 32) (hnull : ptr m environ n = 0) (d i nenv : ℕ)
    (hd : i + d = n) : (count m environ (d + 1) i nenv).isSome := by
  induction d generalizing i nenv with
  | zero =>
    rw [Nat.add_zero] at hd
    rw [count, hd, if_pos hnull]
    rfl
  | succ d ih =>
    rw [count]
    split
    · rfl
    · rw [Nat.mod_eq_of_lt (by omega : i + 1 < 2 ^ 32)]
      exact ih (i + 1) _ (by omega)

/-- They do not end if the index wraps in front of it. -/
theorem count_eq_none {m : Memory} {environ : ℕ} (h : ∀ i < 2 ^ 32, ptr m environ i ≠ 0) (n i nenv : ℕ)
    (hi : i < 2 ^ 32) : count m environ n i nenv = none := by
  induction n generalizing i nenv with
  | zero => rfl
  | succ n ih =>
    rw [count, if_neg (h i hi)]
    exact ih _ _ (Nat.mod_lt _ (by omega))

/-- The entries that are left are loaded behind those that are there. -/
theorem load_eq {m : Memory} {environ : ℕ} (hlt : e.map.length < 2 ^ 32) (hnull : ptr m environ e.map.length = 0)
    (hptr : ∀ i < e.map.length, ptr m environ i ≠ 0)
    (hentry : ∀ i (h : i < e.map.length), ∀ e₀, loadEntry m (ptr m environ i) e₀ = some (e₀.set e.map[i].1 e.map[i].2))
    (d i : ℕ) (hd : i + d = e.map.length) (e₀ : Environment) (he₀ : e₀.map = e.map.take i) :
    ∃ e', load m environ (d + 1) i e₀ = some e' ∧ e'.map = e.map := by
  induction d generalizing i e₀ with
  | zero =>
    rw [Nat.add_zero] at hd
    refine ⟨e₀, ?_, ?_⟩
    · simp only [load, hd, hnull, if_true]
    · rw [he₀, hd, List.take_length]
  | succ d ih =>
    have hi : i < e.map.length := by omega
    have hnew : e.map[i].1 ∉ e₀.map.map Prod.fst := by
      rw [he₀]
      intro hmem
      have hnodup := e.nodup
      rw [← List.take_append_drop i e.map, List.drop_eq_getElem_cons hi, List.map_append, List.map_cons,
        List.nodup_append] at hnodup
      exact hnodup.2.2 _ hmem _ List.mem_cons_self rfl
    obtain ⟨e', he', hmap⟩ := ih (i + 1) (by omega) (e₀.set e.map[i].1 e.map[i].2)
      (by rw [set_of_notMem _ hnew, he₀, List.take_succ_eq_append_getElem hi])
    refine ⟨e', ?_, hmap⟩
    rw [load]
    simp only [if_neg (hptr i hi), hentry i hi, Option.bind_eq_bind, Option.bind_some]
    rw [Nat.mod_eq_of_lt (by omega : i + 1 < 2 ^ 32)]
    exact he'

/-- **The same map** is read back. -/
theorem readsBack (hv : e.Valid) (hl : LaidOut e memory out) (hend : out.envp + out.len ≤ 2 ^ 64)
    (hlt : e.map.length < 2 ^ 32) : ReadsBack e out := by
  have hcount := count_isSome hlt hl.null e.map.length 0 0 (Nat.zero_add _)
  have hentry : ∀ i (h : i < e.map.length), ∀ e₀,
      loadEntry out.memory (ptr out.memory out.envp i) e₀ = some (e₀.set e.map[i].1 e.map[i].2) := by
    intro i hi e₀
    obtain ⟨-, -, hin, hstring⟩ := hl.strings i hi
    obtain ⟨hkey, hkey0, hval⟩ := hv e.map[i] (List.getElem_mem hi)
    exact loadEntry_eq hstring (by omega) hkey hkey0 hval e₀
  obtain ⟨e', he', hmap⟩ := load_eq hlt hl.null (fun i hi => (hl.strings i hi).1) hentry e.map.length 0
    (Nat.zero_add _) empty rfl
  refine ⟨e.map.length + 1, e', ?_, by rw [hmap]⟩
  obtain ⟨nenv, hnenv⟩ := Option.isSome_iff_exists.mp hcount
  unfold ofEnviron
  rw [hnenv, he']
  rfl

/-- **From `2 ^ 32` entries on** nothing is read back. -/
theorem not_readsBack (hl : LaidOut e memory out) (hlen : 2 ^ 32 ≤ e.map.length) : ¬ ReadsBack e out := by
  rintro ⟨n, e', h, -⟩
  have hcount := count_eq_none (fun i hi => (hl.strings i (by omega)).1) n 0 0 (by omega)
  unfold ofEnviron at h
  rw [hcount] at h
  contradiction

/-- **The round trip** holds exactly if the number of entries is a `uint32_t` and the size of the block
a `size_t`. -/
theorem asEnviron_roundTrip_iff (e : Environment) (hv : e.Valid) (memory : Memory) (malloc : ℕ → Option ℕ)
    (hmalloc : ∀ len envp, malloc len = some envp → 0 < envp ∧ envp + len ≤ 2 ^ 64) (out : Environ)
    (h : asEnviron malloc memory e = some out) :
    LaidOut e memory out ∧ ReadsBack e out ↔ e.map.length < 2 ^ 32 ∧ e.totalSize < 2 ^ 64 := by
  have hend : out.envp + out.len ≤ 2 ^ 64 := by
    obtain ⟨envp, hm, rfl⟩ := asEnviron_eq_some.mp h
    exact (hmalloc _ _ hm).2
  constructor
  · rintro ⟨hl, hr⟩
    refine ⟨?_, hl.totalSize_lt h⟩
    by_contra hlen
    exact not_readsBack hl (by omega) hr
  · rintro ⟨hlen, hsize⟩
    have hl := laidOut hmalloc h hsize
    exact ⟨hl, readsBack hv hl hend hlen⟩

/-- A `malloc` whose block is at `envp`. -/
def mallocAt (envp len : ℕ) : Option ℕ := if envp + len ≤ 2 ^ 64 then some envp else none

theorem mallocAt_eq_some {len envp' : ℕ} : mallocAt envp len = some envp' ↔ envp + len ≤ 2 ^ 64 ∧ envp = envp' := by
  simp [mallocAt]

theorem mallocAt_block (hpos : 0 < envp) :
    ∀ len envp', mallocAt envp len = some envp' → 0 < envp' ∧ envp' + len ≤ 2 ^ 64 := by
  intro len envp' h
  obtain ⟨hend, rfl⟩ := mallocAt_eq_some.mp h
  exact ⟨hpos, hend⟩

theorem asEnviron_mallocAt (memory : Memory) (h : envp + e.totalSize ≤ 2 ^ 64) :
    ∃ out, asEnviron (mallocAt envp) memory e = some out := by
  refine ⟨_, asEnviron_eq_some.mpr ⟨envp, mallocAt_eq_some.mpr ⟨?_, rfl⟩, rfl⟩⟩
  rw [computeLen_eq]
  exact le_trans (Nat.add_le_add_left (Nat.mod_le _ _) envp) h

/-- An empty key with the value `=`, and an empty value. -/
theorem asEnviron_roundTrip_two :
    ∃ out, asEnviron (mallocAt 4096) (fun _ => 0) ⟨[([], [61]), ([65], [])], by decide⟩ = some out ∧
      LaidOut ⟨[([], [61]), ([65], [])], by decide⟩ (fun _ => 0) out ∧
        ReadsBack ⟨[([], [61]), ([65], [])], by decide⟩ out := by
  obtain ⟨out, h⟩ := @asEnviron_mallocAt ⟨[([], [61]), ([65], [])], by decide⟩ 4096 (fun _ => 0) (by decide)
  refine ⟨out, h, ?_⟩
  rw [asEnviron_roundTrip_iff _ (by simp [Valid]) _ _ (mallocAt_block (by omega)) out h]
  decide

/-- The last 32 binary digits of a number. -/
def digits (i : ℕ) : Bytes := (List.range 32).map fun b => if i.testBit b then 49 else 48

theorem digits_injOn {i j : ℕ} (hi : i < 2 ^ 32) (hj : j < 2 ^ 32) (h : digits i = digits j) : i = j := by
  apply Nat.eq_of_testBit_eq
  intro b
  by_cases hb : b < 32
  · have hbit := List.map_inj_left.mp h b (List.mem_range.mpr hb)
    cases hti : i.testBit b <;> cases htj : j.testBit b <;> simp [hti, htj] at hbit ⊢
  · have hpow : 2 ^ 32 ≤ 2 ^ b := Nat.pow_le_pow_right (by omega) (by omega)
    rw [Nat.testBit_lt_two_pow (by omega), Nat.testBit_lt_two_pow (by omega)]

/-- `n` entries with different keys and no values. -/
def numbered (n : ℕ) (h : n ≤ 2 ^ 32) : Environment where
  map := (List.range n).map fun i => (digits i, [])
  nodup := by
    rw [List.map_map]
    apply List.Nodup.map_on _ List.nodup_range
    intro i hi j hj heq
    rw [List.mem_range] at hi hj
    exact digits_injOn (by omega) (by omega) heq

theorem numbered_valid {n : ℕ} (h : n ≤ 2 ^ 32) : (numbered n h).Valid := by
  intro it hit
  obtain ⟨i, -, rfl⟩ := List.mem_map.mp hit
  have hdigit : ∀ c ∈ digits i, c = 49 ∨ c = 48 := by
    intro c hc
    obtain ⟨b, -, rfl⟩ := List.mem_map.mp hc
    split <;> simp
  refine ⟨fun hc => ?_, fun hc => ?_, List.not_mem_nil⟩
  · have := hdigit 61 hc
    simp at this
  · have := hdigit 0 hc
    simp at this

theorem length_terminate_of_forall {k : ℕ} (h : ∀ it ∈ items, (text it).length = k) :
    (terminate 0 (items.map text)).length = items.length * (k + 1) := by
  induction items with
  | nil => simp
  | cons it items ih =>
    rw [List.forall_mem_cons] at h
    rw [List.map_cons, terminate_cons, List.length_append, List.length_cons, h.1, ih h.2, List.length_cons,
      Nat.add_mul]
    omega

theorem numbered_totalSize {n : ℕ} (h : n ≤ 2 ^ 32) : (numbered n h).totalSize = 8 * (n + 1) + n * 34 := by
  have htext : ∀ it ∈ (numbered n h).map, (text it).length = 33 := by
    intro it hit
    obtain ⟨i, -, rfl⟩ := List.mem_map.mp hit
    simp [text, digits]
  have hlen : (numbered n h).map.length = n := by simp [numbered]
  rw [totalSize, length_terminate_of_forall htext, hlen]

/-- With `2 ^ 32` entries the block is right and the constructor does not end. -/
theorem asEnviron_wraps :
    (numbered (2 ^ 32) le_rfl).Valid ∧
      ∃ out, asEnviron (mallocAt 4096) (fun _ => 0) (numbered (2 ^ 32) le_rfl) = some out ∧
        LaidOut (numbered (2 ^ 32) le_rfl) (fun _ => 0) out ∧ ¬ ReadsBack (numbered (2 ^ 32) le_rfl) out := by
  have hsize := numbered_totalSize (le_refl (2 ^ 32))
  have hlen : (numbered (2 ^ 32) le_rfl).map.length = 2 ^ 32 := by
    unfold numbered
    rw [List.length_map, List.length_range]
  obtain ⟨out, h⟩ := @asEnviron_mallocAt (numbered (2 ^ 32) le_rfl) 4096 (fun _ => 0) (by omega)
  have hl := laidOut (mallocAt_block (by omega)) h (by omega)
  exact ⟨numbered_valid le_rfl, out, h, hl, not_readsBack hl hlen.ge⟩

end Environment

end EdenCommon
