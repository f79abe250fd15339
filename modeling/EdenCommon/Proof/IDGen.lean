import EdenCommon.Lib.Run
import EdenCommon.Lib.Ownership
import EdenCommon.Lib.Threads
import EdenCommon.Spec.IDGen

/-!
# Unique IDs

A thread's last ID says which IDs are left of the range that it took last (`left`), and a
last ID that ends its range leaves none. The ranges lie below `global.counter` and do not
meet, so each ID is held by one thread at most until it is returned.

* `Inv.step`: every step of a call keeps the ranges apart, as long as it does not wrap
  `global.counter`. A load reserves nothing, an increment gives up the ID that it returns
  and a reservation takes a fresh range.
* `run_calls`: one thread alone generates the IDs in their order, so its range is used up
  when the 64 bits are.
* `generateUniqueID_unique`: as long as the counter does not wrap, the IDs that any threads'
  calls return are not zero and differ.
-/

namespace EdenCommon

namespace IDGen

open Lib

/-- The IDs behind `current` in its range. -/
def left (current : ℕ) : Set ℕ := {id | current < id ∧ id ≤ current / kRangeSize * kRangeSize + kRangeSize}

/-- The IDs that a thread has reserved and not yet returned. -/
def Pc.reserved (localCounter : ℕ) : Pc → Set ℕ
  | .idle => if localCounter % kRangeSize = 0 then ∅ else left localCounter
  | .fetchAdd => ∅
  | .increment current => left current

variable {Tid : Type} [DecidableEq Tid] {s s' : Sys Tid} {t : Tid}

def Sys.reserved (s : Sys Tid) (t : Tid) : Set ℕ := (s.pc t).reserved (s.localCounter t)

structure Inv (s : Sys Tid) : Prop where
  aligned : kRangeSize ∣ s.counter
  below : s.counter < 2 ^ 64
  exclusive : Exclusive s.reserved s.ids
  reserved_le : ∀ t, ∀ id ∈ s.reserved t, id ≤ s.counter
  ids_le : ∀ id ∈ s.ids, 0 < id ∧ id ≤ s.counter

theorem addU64_of_lt {x n : ℕ} (h : x + n < 2 ^ 64) : addU64 x n = x + n := Nat.mod_eq_of_lt h

theorem succ_mem_left (current : ℕ) : current + 1 ∈ left current := by
  refine ⟨Nat.lt_succ_self _, ?_⟩
  have := Nat.lt_div_mul_add (a := current) (b := kRangeSize) (by decide)
  omega

/-- The range of a fresh reservation. -/
theorem left_of_dvd {counter : ℕ} (h : kRangeSize ∣ counter) :
    left counter = {id | counter < id ∧ id ≤ counter + kRangeSize} := by
  rw [left, Nat.div_mul_cancel h]

/-- Behind the ID that a call returns are those that were left, without it. -/
theorem reserved_succ (current : ℕ) {id : ℕ} (h : id ∈ Pc.idle.reserved (current + 1)) :
    id ∈ left current ∧ id ≠ current + 1 := by
  by_cases hmod : (current + 1) % kRangeSize = 0
  · simp [Pc.reserved, hmod] at h
  · rw [Pc.reserved, if_neg hmod] at h
    -- the next ID does not end the range, so it is in the same one
    have hdiv : (current + 1) / kRangeSize = current / kRangeSize :=
      Nat.succ_div_of_not_dvd fun hd => hmod (Nat.mod_eq_zero_of_dvd hd)
    obtain ⟨h1, h2⟩ := h
    rw [hdiv] at h2
    exact ⟨⟨by omega, h2⟩, by omega⟩

omit [DecidableEq Tid] in
theorem inv_start : Inv (start Tid) where
  aligned := Nat.dvd_zero _
  below := Nat.two_pow_pos 64
  exclusive := Exclusive.empty.mono fun t id h => by simp [Sys.reserved, start, Pc.reserved] at h
  reserved_le := fun t id h => by simp [Sys.reserved, start, Pc.reserved] at h
  ids_le := by simp [Sys.ids, start]

theorem counter_load : (s.load t).counter = s.counter := rfl

theorem counter_fetchAdd : (s.fetchAdd t).counter = addU64 s.counter kRangeSize := rfl

theorem ids_load : (s.load t).ids = s.ids := by simp only [Sys.ids, Sys.load]

theorem ids_fetchAdd : (s.fetchAdd t).ids = s.ids := by simp only [Sys.ids, Sys.fetchAdd]

/-- A call that begins reserves nothing and gives nothing up. -/
theorem reserved_load (hpc : s.pc t = .idle) (u : Tid) : (s.load t).reserved u = s.reserved u := by
  simp only [Sys.load, Sys.reserved]
  rcases eq_or_ne u t with rfl | hu
  · rw [Function.update_self, hpc]
    by_cases h : s.localCounter u % kRangeSize = 0 <;> simp [Pc.reserved, h]
  · rw [Function.update_of_ne hu]

theorem Inv.load (hinv : Inv s) (hpc : s.pc t = .idle) : Inv (s.load t) where
  aligned := hinv.aligned
  below := hinv.below
  exclusive := hinv.exclusive.mono fun u => (reserved_load hpc u).subset
  reserved_le := fun u id hid => hinv.reserved_le u id ((reserved_load hpc u).subset hid)
  ids_le := hinv.ids_le

theorem reserved_fetchAdd_self (hinv : Inv s) :
    (s.fetchAdd t).reserved t = {id | s.counter < id ∧ id ≤ s.counter + kRangeSize} := by
  simp only [Sys.fetchAdd, Sys.reserved]
  rw [Function.update_self, Pc.reserved, left_of_dvd hinv.aligned]

theorem reserved_fetchAdd_of_ne {u : Tid} (hu : u ≠ t) : (s.fetchAdd t).reserved u = s.reserved u := by
  simp only [Sys.fetchAdd, Sys.reserved]
  rw [Function.update_of_ne hu]

theorem Inv.fetchAdd (hinv : Inv s) (hlt : s.counter + kRangeSize < 2 ^ 64) : Inv (s.fetchAdd t) := by
  have hcounter : (s.fetchAdd t).counter = s.counter + kRangeSize := by
    rw [counter_fetchAdd, addU64_of_lt hlt]
  have hids : (s.fetchAdd t).ids = s.ids := ids_fetchAdd
  exact {
    aligned := by
      rw [hcounter]
      exact Nat.dvd_add hinv.aligned dvd_rfl
    below := by
      rw [hcounter]
      exact hlt
    exclusive := by
      rw [hids]
      refine hinv.exclusive.acquire (i := t) (fun u hu => (reserved_fetchAdd_of_ne hu).subset) fun id hid => ?_
      rw [reserved_fetchAdd_self hinv] at hid
      -- all that was reserved or returned before lies at or below the counter
      refine ⟨fun hout => ?_, fun u _ hu => ?_⟩
      · exact absurd (hinv.ids_le id hout).2 (Nat.not_le.2 hid.1)
      · exact absurd (hinv.reserved_le u id hu) (Nat.not_le.2 hid.1)
    reserved_le := by
      intro u id hid
      rw [hcounter]
      rcases eq_or_ne u t with rfl | hu
      · rw [reserved_fetchAdd_self hinv] at hid
        exact hid.2
      · rw [reserved_fetchAdd_of_ne hu] at hid
        exact (hinv.reserved_le u id hid).trans (Nat.le_add_right _ _)
    ids_le := by
      rw [hids, hcounter]
      intro id hid
      have h := hinv.ids_le id hid
      exact ⟨h.1, h.2.trans (Nat.le_add_right _ _)⟩ }

/-- A call that returns gives up the ID that it returns. -/
theorem reserved_increment {current : ℕ} (hpc : s.pc t = .increment current)
    (hnext : addU64 current 1 = current + 1) (u : Tid) :
    (s.increment t current).reserved u ⊆ s.reserved u ∧
      (u = t → current + 1 ∉ (s.increment t current).reserved u) := by
  unfold Sys.increment Sys.reserved
  simp only [hnext]
  rcases eq_or_ne u t with rfl | hu
  · rw [Function.update_self, Function.update_self, hpc]
    exact ⟨fun id hid => (reserved_succ current hid).1, fun _ hid => (reserved_succ current hid).2 rfl⟩
  · rw [Function.update_of_ne hu, Function.update_of_ne hu]
    exact ⟨subset_rfl, fun h => absurd h hu⟩

theorem Inv.increment (hinv : Inv s) {current : ℕ} (hpc : s.pc t = .increment current) :
    Inv (s.increment t current) := by
  have hmem : current + 1 ∈ s.reserved t := by
    unfold Sys.reserved
    rw [hpc]
    exact succ_mem_left current
  -- the ID is reserved, hence at most the counter, and the addition does not wrap
  have hle := hinv.reserved_le t _ hmem
  have hnext : addU64 current 1 = current + 1 := addU64_of_lt (hle.trans_lt hinv.below)
  have hres := reserved_increment hpc hnext
  have hids : (s.increment t current).ids = s.ids ++ [current + 1] := by
    simp [Sys.ids, Sys.increment, hnext]
  exact {
    aligned := hinv.aligned
    below := hinv.below
    exclusive := by
      rw [hids]
      exact hinv.exclusive.handOut hmem (fun u => (hres u).1) ((hres t).2 rfl)
    reserved_le := fun u id hid => hinv.reserved_le u id ((hres u).1 hid)
    ids_le := by
      rw [hids]
      intro id hid
      rcases List.mem_append.1 hid with hold | hnew
      · exact hinv.ids_le id hold
      · obtain rfl := List.mem_singleton.1 hnew
        exact ⟨Nat.succ_pos _, hle⟩ }

theorem Inv.step (hinv : Inv s) (hwrap : NoWrap s t) (h : step s t = some s') : Inv s' := by
  unfold IDGen.step at h
  split at h <;> rename_i hpc <;> obtain rfl := Option.some.inj h
  · exact hinv.load hpc
  · exact hinv.fetchAdd (hwrap hpc)
  · exact hinv.increment hpc

/-! ### Whole calls -/

theorem counter_ret {id : ℕ} (h : s.ret t = some (id, s')) : s'.counter = s.counter := by
  unfold Sys.ret at h
  split at h
  · obtain ⟨-, rfl⟩ := Prod.mk.inj (Option.some.inj h)
    rfl
  · cases h

theorem Inv.ret (hinv : Inv s) {id : ℕ} (h : s.ret t = some (id, s')) :
    Inv s' ∧ s'.ids = s.ids ++ [id] ∧ id ≠ 0 := by
  unfold Sys.ret at h
  split at h
  · rename_i current hpc
    obtain ⟨rfl, rfl⟩ := Prod.mk.inj (Option.some.inj h)
    have hinv' := hinv.increment hpc
    have hids : (s.increment t current).ids = s.ids ++ [addU64 current 1] := by
      simp [Sys.ids, Sys.increment]
    refine ⟨hinv', hids, ?_⟩
    have hmem : addU64 current 1 ∈ (s.increment t current).ids := by simp [hids]
    exact (hinv'.ids_le _ hmem).1.ne'
  · cases h

/-- A call leaves `global.counter` or takes one range from it. -/
theorem counter_generateUniqueID {id : ℕ} (h : generateUniqueID s t = some (id, s')) :
    s'.counter = s.counter ∨ s'.counter = addU64 s.counter kRangeSize := by
  unfold generateUniqueID at h
  split at h
  · simp only at h
    split at h
    · right
      rw [counter_ret h, counter_fetchAdd, counter_load]
    · left
      rw [counter_ret h, counter_load]
  · cases h

theorem addU64_lt_of_le {counter : ℕ} (hlt : counter < 2 ^ 64) (hle : counter ≤ addU64 counter kRangeSize) :
    counter + kRangeSize < 2 ^ 64 := by
  unfold addU64 at hle
  unfold kRangeSize at hle ⊢
  omega

/-- **A call returns a new ID**, unless it wraps `global.counter`. -/
theorem Inv.generateUniqueID (hinv : Inv s) {id : ℕ} (h : IDGen.generateUniqueID s t = some (id, s'))
    (hle : s.counter ≤ s'.counter) : Inv s' ∧ s'.ids = s.ids ++ [id] ∧ id ∉ s.ids ∧ id ≠ 0 := by
  have hret : Inv s' ∧ s'.ids = s.ids ++ [id] ∧ id ≠ 0 := by
    unfold IDGen.generateUniqueID at h
    split at h
    · rename_i hpc
      have hload := hinv.load hpc
      simp only at h
      split at h
      · rw [counter_ret h, counter_fetchAdd, counter_load] at hle
        have hlt : (s.load t).counter + kRangeSize < 2 ^ 64 := by
          rw [counter_load]
          exact addU64_lt_of_le hinv.below hle
        have hret := (hload.fetchAdd (t := t) hlt).ret h
        rw [ids_fetchAdd, ids_load] at hret
        exact hret
      · have hret := hload.ret h
        rw [ids_load] at hret
        exact hret
    · cases h
  obtain ⟨hinv', hids, hid⟩ := hret
  have hnodup := hinv'.exclusive.nodup
  rw [hids] at hnodup
  exact ⟨hinv', hids, fun hmem => (List.nodup_append.1 hnodup).2.2 id hmem id (by simp) rfl, hid⟩

theorem generateUniqueID_of_mod_ne (hpc : s.pc t = .idle) (hmod : s.localCounter t % kRangeSize ≠ 0) :
    generateUniqueID s t = some (addU64 (s.localCounter t) 1, (s.load t).increment t (s.localCounter t)) := by
  simp [generateUniqueID, hpc, Sys.load, Sys.ret, hmod]

theorem generateUniqueID_of_mod_eq (hpc : s.pc t = .idle) (hmod : s.localCounter t % kRangeSize = 0) :
    generateUniqueID s t = some (addU64 s.counter 1, ((s.load t).fetchAdd t).increment t s.counter) := by
  simp [generateUniqueID, hpc, Sys.load, Sys.fetchAdd, Sys.ret, hmod]

/-- **A whole call is a run of its steps.** -/
theorem generateUniqueID_run {id : ℕ} (h : generateUniqueID s t = some (id, s')) :
    ∃ schedule, run step s schedule = some s' := by
  have hpc : s.pc t = .idle := by
    unfold generateUniqueID at h
    split at h
    · assumption
    · cases h
  have hload : step s t = some (s.load t) := by
    unfold step
    rw [hpc]
  by_cases hmod : s.localCounter t % kRangeSize = 0
  · rw [generateUniqueID_of_mod_eq hpc hmod] at h
    obtain ⟨-, rfl⟩ := Prod.mk.inj (Option.some.inj h)
    refine ⟨[t, t, t], ?_⟩
    rw [run_cons hload]
    simp [run, step, Sys.load, Sys.fetchAdd, hmod]
  · rw [generateUniqueID_of_mod_ne hpc hmod] at h
    obtain ⟨-, rfl⟩ := Prod.mk.inj (Option.some.inj h)
    refine ⟨[t, t], ?_⟩
    rw [run_cons hload]
    simp [run, step, Sys.load, hmod]

/-- One thread alone generates the IDs in their order, so that its range is used up when the
64 bits are. -/
theorem run_calls (n : ℕ) (hn : n < 2 ^ 64) :
    ∃ schedule, ∃ s : Sys Unit, run step (start Unit) schedule = some s ∧ s.pc () = .idle ∧
      s.localCounter () = n ∧ s.counter = (n + (kRangeSize - 1)) / kRangeSize * kRangeSize % 2 ^ 64 := by
  induction n with
  | zero => exact ⟨[], start Unit, rfl, rfl, rfl, rfl⟩
  | succ n ih =>
    obtain ⟨schedule, s, hrun, hpc, hlocal, hcounter⟩ := ih (by omega)
    have hcall : ∃ id s', generateUniqueID s () = some (id, s') ∧ s'.pc () = .idle ∧ s'.localCounter () = n + 1 ∧
        s'.counter = (n + 1 + (kRangeSize - 1)) / kRangeSize * kRangeSize % 2 ^ 64 := by
      by_cases hmod : s.localCounter () % kRangeSize = 0
      · refine ⟨_, _, generateUniqueID_of_mod_eq hpc hmod, by simp [Sys.increment], ?_, ?_⟩
        · simp only [Sys.increment, Function.update_self]
          rw [hlocal] at hmod
          rw [hcounter]
          unfold addU64
          unfold kRangeSize at hmod ⊢
          omega
        · rw [show (((s.load ()).fetchAdd ()).increment () s.counter).counter = addU64 s.counter kRangeSize from rfl]
          rw [hlocal] at hmod
          rw [hcounter]
          unfold addU64
          unfold kRangeSize at hmod ⊢
          omega
      · refine ⟨_, _, generateUniqueID_of_mod_ne hpc hmod, by simp [Sys.increment], ?_, ?_⟩
        · simp only [Sys.increment, Function.update_self]
          rw [hlocal]
          unfold addU64
          omega
        · rw [show ((s.load ()).increment () (s.localCounter ())).counter = s.counter from rfl]
          rw [hlocal] at hmod
          rw [hcounter]
          unfold kRangeSize at hmod ⊢
          omega
    obtain ⟨id, s', hgen, hpc', hlocal', hcounter'⟩ := hcall
    obtain ⟨call, hrun'⟩ := generateUniqueID_run hgen
    refine ⟨schedule ++ call, s', ?_, hpc', hlocal', hcounter'⟩
    rw [run_append, hrun]
    exact hrun'

/-- Other steps of a call. -/
theorem mem_ids_step {id : ℕ} (h : IDGen.step s t = some s') (hid : id ∈ s.ids) : id ∈ s'.ids := by
  unfold IDGen.step at h
  split at h <;> obtain rfl := Option.some.inj h
  · exact hid
  · rw [ids_fetchAdd]
    exact hid
  · simp only [Sys.ids, Sys.increment, List.map_append, List.mem_append]
    exact .inl hid

theorem Inv.noWrap_step (hinv : Inv s) (h : IDGen.step s t = some s') (hle : s.counter ≤ s'.counter) : NoWrap s t := by
  intro hpc
  unfold IDGen.step at h
  rw [hpc] at h
  obtain rfl := Option.some.inj h
  rw [counter_fetchAdd] at hle
  exact addU64_lt_of_le hinv.below hle

/-- **No ID twice.** As long as `global.counter` does not wrap, the IDs that any threads'
calls return are not zero and differ. -/
theorem generateUniqueID_unique (schedule : List Tid) (s : Sys Tid)
    (hrun : run step (start Tid) schedule = some s) (hwrap : AllSteps step NoWrap (start Tid) schedule) :
    (∀ id ∈ s.ids, id ≠ 0) ∧ s.ids.Nodup := by
  have hinv : Inv s := run_guarded (fun _ _ _ hi hg hs => hi.step hg hs) schedule inv_start hwrap hrun
  exact ⟨fun id hid => (hinv.ids_le id hid).1.ne', hinv.exclusive.nodup⟩

/-- Two threads in their first calls, and a second call of one. -/
theorem generateUniqueID_unique_two :
    ∃ s : Sys Bool, run step (start Bool) [true, false, false, true, true, false, true, true] = some s ∧
      s.ids = [2049, 1, 2050] ∧ (∀ id ∈ s.ids, id ≠ 0) ∧ s.ids.Nodup := by
  refine ⟨_, rfl, rfl, generateUniqueID_unique [true, false, false, true, true, false, true, true] _ rfl ?_⟩
  iterate 8 rw [allSteps_cons rfl]
  exact ⟨by decide, by decide, by decide, by decide, by decide, by decide, by decide, by decide, trivial⟩

end IDGen

end EdenCommon
