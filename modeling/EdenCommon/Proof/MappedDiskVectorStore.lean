import EdenCommon.Proof.MappedDiskVectorOpen
import EdenCommon.Lib.Run

/-!
# The vector as a stored list

A session opens a vector, works on it, closes it and opens it again, and any call on the
way may fail. It refines a list: `ListModel` says what each operation answers and makes
of the list, and that one that throws makes nothing of it. The invariant is `Holds`
while the vector is open and `Restores` while it is closed.

* `reopen_stored`, `reopen_restores`, `reopen_complete`: a closed file is opened again with
  its entries, unless a call fails.
* `Keeps.step`, `run_keeps`: one step refines the list, and so does every run.
* `Blames.step`: what an operation throws is owed to a call that failed in the same
  operation.
* `store_refines`: the answers of every session are those of a list, and nothing is thrown
  before a call has failed.
-/

namespace EdenCommon

open Lib

-- the goals below are never to be evaluated
attribute [local irreducible] wp

namespace MappedDiskVector

/-! ### The abstract list -/

/-- One operation on a list, with its answer. -/
inductive ListModel.Step {R : RecordType} : List R.Value → Op R → Answer R → List R.Value → Prop
  | reopen (l : List R.Value) : Step l .reopen .done l
  | reopenThrew (l : List R.Value) (e : Error) (h : e.isException = true) : Step l .reopen (.threw e) l
  | emplaceBack (l : List R.Value) (x : R.Value) : Step l (.emplaceBack x) .done (l ++ [x])
  | emplaceBackThrew (l : List R.Value) (x : R.Value) (e : Error) (h : e.isException = true) :
      Step l (.emplaceBack x) (.threw e) l
  | popBack (l : List R.Value) (h : l ≠ []) : Step l .popBack .done l.dropLast
  | get (l : List R.Value) (i : ℕ) (h : i < l.length) : Step l (.get i) (.value l[i]) l
  | set (l : List R.Value) (i : ℕ) (x : R.Value) (h : i < l.length) : Step l (.set i x) .done (l.set i x)
  | close (l : List R.Value) : Step l .close .done l

/-- The list after the logged operations, from the empty one. -/
inductive ListModel.Run {R : RecordType} : List (Op R × Answer R) → List R.Value → Prop
  | nil : Run [] []
  | snoc {log : List (Op R × Answer R)} {l l' : List R.Value} {op : Op R} {a : Answer R} (h : Run log l)
      (hstep : Step l op a l') : Run (log ++ [(op, a)]) l'

theorem ListModel.Step.threw {R : RecordType} {l l' : List R.Value} {op : Op R} {e : Error}
    (h : Step l op (.threw e) l') : e.isException = true := by
  cases h with
  | reopenThrew e he => exact he
  | emplaceBackThrew x e he => exact he

/-- Whatever was thrown is an exception: no check failed. -/
theorem ListModel.Run.threw {R : RecordType} {log : List (Op R × Answer R)} {l : List R.Value} (h : Run log l)
    {op : Op R} {e : Error} (hmem : (op, Answer.threw e) ∈ log) : e.isException = true := by
  induction h with
  | nil => simp at hmem
  | snoc _ hstep ih =>
    rcases List.mem_append.1 hmem with hmem | hmem
    · exact ih hmem
    · rw [List.mem_singleton, Prod.mk.injEq] at hmem
      obtain ⟨rfl, rfl⟩ := hmem
      exact hstep.threw

/-- The answer is an exception. -/
def Threw {R : RecordType} (a : Answer R) : Prop := ∃ e, a = .threw e

variable {T : TableType} {path : String} {d : Disk} {l : List T.Value}

/-! ### Opening and opening again -/

theorem distinct_nil : (T.VERSION :: (OldVersions.nil (R := T.toRecordType)).types.map (·.VERSION)).Nodup := by
  simp [OldVersions.types]

/-- **Reopening.** A stored vector is opened with its entries unless a call fails. -/
theorem reopen_stored {f : File} (hf : d.files path = some f) (hs : Stored T.toRecordType f l) :
    wp (open' T .nil path none) (fun v d' => v.file_ = path ∧ Holds d' v l) (fun e d' => Failed d e d') d := by
  refine wp_open_stored hf hs ?_ fun e d' _ hfail => hfail
  intro d₁ hf₁ hd₁
  refine (openAs_primary distinct_nil hf₁ hs leavesFiles_none).mono ?_ ?_
  · rintro v d' ⟨hv, hvfile, _⟩
    exact ⟨hvfile, hv⟩
  · rintro e d' ⟨_, hfail⟩
    exact hfail.of_failures hd₁

/-- A closed file is opened with its entries, or it is still such a file. -/
theorem reopen_restores (h : Restores T.toRecordType (d.file path) l) :
    wp (open' T .nil path none) (fun v d' => (v.file_ = path ∧ Holds d' v l) ∧ d'.failures = d.failures)
      (fun e d' => (e.isException = true ∧ Restores T.toRecordType (d'.file path) l) ∧ d.failures ≤ d'.failures) d := by
  refine wp_open (fun h0 d₁ hfiles hd₁ => ?_) (fun h0 hvalid d₁ hfiles hd₁ => ?_) fun e d' hfiles he hcause =>
    ⟨⟨he, ?_⟩, hcause.elim le_of_lt fun h => h.1.ge⟩
  · -- an empty file holds the empty list
    obtain ⟨_, rfl⟩ : (d.file path).size = 0 ∧ l = [] := h.resolve_right fun h => h.1 h0
    refine (initializeFromScratch_spec T (Disk.files_self hfiles) h0).mono ?_ ?_
    · rintro v d' ⟨hv, hvfile, _, hd'⟩
      exact ⟨⟨hvfile, hv⟩, hd'.trans hd₁⟩
    · rintro e d' ⟨⟨f', hf', hrestores⟩, _, hfail⟩
      exact ⟨⟨hfail.isException, by rw [Disk.file_of_files hf']; exact hrestores⟩,
        (hfail.of_failures hd₁).counted.le⟩
  · -- a header of `T` that passes is a complete one
    have hf := Disk.files_self hfiles
    obtain ⟨_, hstored⟩ := h.resolve_left fun h => h0 h.1
    refine openAs_cases hvalid (fun hdistinct es hs => ?_) (fun _ i V g xs hg _ => nomatch hg) fun e he => ?_
    · have hs := hstored ⟨_, hs.header⟩
      refine (openAs_primary hdistinct hf hs leavesFiles_none).mono ?_ ?_
      · rintro v d' ⟨hv, hvfile, _, hd'⟩
        exact ⟨⟨hvfile, hv⟩, hd'.trans hd₁⟩
      · rintro e d' ⟨⟨f', hf', hext, _⟩, hfail⟩
        exact ⟨⟨hfail.isException, by rw [Disk.file_of_files hf']; exact (hs.extends hext).restores⟩,
          (hfail.of_failures hd₁).counted.le⟩
    · exact ⟨⟨he, by rw [Disk.file_of_files hf]; exact h⟩, hd₁.ge⟩
  · have hfile : d'.file path = d.file path := by
      rcases hfiles with hfiles | hfiles
      · exact Disk.file_congr hfiles
      · exact Disk.file_of_files (Disk.files_self hfiles)
    rw [hfile]
    exact h

/-- Neither the header nor the entries of the closed file were cut off. -/
def Complete (T : TableType) (path : String) (d : Disk) (l : List T.Value) : Prop :=
  (d.file path).size = 0 ∨ Stored T.toRecordType (d.file path) l

/-- Such a file is opened unless a call fails. -/
theorem reopen_complete (h : Complete T path d l) :
    wp (open' T .nil path none) (fun _ _ => True) (fun _ d' => d.failures < d'.failures) d := by
  refine wp_open (fun h0 d₁ hfiles hd₁ => ?_) (fun h0 _ d₁ hfiles hd₁ => ?_) fun e d' _ _ hcause => ?_
  · refine (initializeFromScratch_spec T (Disk.files_self hfiles) h0).mono (fun _ _ _ => trivial) ?_
    rintro e d' ⟨_, _, hfail⟩
    exact (hfail.of_failures hd₁).counted
  · have hs := h.resolve_left h0
    refine (openAs_primary distinct_nil (Disk.files_self hfiles) hs leavesFiles_none).mono (fun _ _ _ => trivial) ?_
    rintro e d' ⟨_, hfail⟩
    exact (hfail.of_failures hd₁).counted
  · obtain hlt | ⟨_, h0, hinvalid⟩ := hcause
    · exact hlt
    · rw [(h.resolve_left h0).valid] at hinvalid
      exact absurd hinvalid Bool.false_ne_true

/-! ### One operation -/

/-- The session holds the list `l`, in the open vector or in the closed file. -/
structure Keeps (path : String) (s : Session T) (l : List T.Value) : Prop where
  opened : ∀ v, s.vec = some v → v.file_ = path ∧ Holds s.disk v l
  closed : s.vec = none → Restores T.toRecordType (s.disk.file path) l

/-- An open vector keeps its list. -/
theorem Holds.keeps {v : MappedDiskVector T.toRecordType} (h : Holds d v l) (hfile : v.file_ = path) :
    Keeps path (⟨d, some v⟩ : Session T) l :=
  ⟨fun v' hv' => by obtain rfl : v = v' := Option.some.inj hv'; exact ⟨hfile, h⟩, fun h => nomatch h⟩

/-- A closed file keeps it as well. -/
theorem Restores.keeps (h : Restores T.toRecordType (d.file path) l) : Keeps path (⟨d, none⟩ : Session T) l where
  opened := by
    intro v hv
    cases hv
  closed := fun _ => h

/-- What an operation with the answer `a` has to do with failed calls: an exception is owed to one, unless an
earlier one has cut off the file, and without an exception the file is complete. -/
structure Counts (path : String) (s s' : Session T) (l l' : List T.Value) (a : Answer T.toRecordType) : Prop where
  le : s.disk.failures ≤ s'.disk.failures
  owed : (s.vec = none → Complete T path s.disk l) → Threw a → s.disk.failures < s'.disk.failures
  complete : ¬ Threw a → s'.vec = none → Complete T path s'.disk l'

/-- A method of the open vector: its answer and the list it leaves. -/
theorem answer_step {α : Type} {m : Method T.toRecordType α} {v : MappedDiskVector T.toRecordType}
    {g : α → Answer T.toRecordType} {op : Op T.toRecordType} {s s' : Session T} {a : Answer T.toRecordType}
    (hm : wp m (fun x s => (∃ l', After d v l' s ∧ ListModel.Step l op (g x) l') ∧ s.1.failures = d.failures)
      (fun e s => (After d v l s ∧ ListModel.Step l op (.threw e) l) ∧ d.failures < s.1.failures) (d, v))
    (hg : ∀ x, ¬ Threw (g x)) (hfile : v.file_ = path) (h : answer g (m (d, v)) = (s', a))
    (hs : d.failures = s.disk.failures) :
    ∃ l', ListModel.Step l op a l' ∧ Keeps path s' l' ∧ Counts path s s' l l' a := by
  rw [hs] at hm
  cases hr : m (d, v) with
  | ok x r =>
    rw [hr] at h
    obtain ⟨rfl, rfl⟩ := Prod.mk.inj h
    obtain ⟨⟨l', ha, hstep⟩, hd⟩ := hm.ok hr
    exact ⟨l', hstep, ha.holds.keeps (ha.file_.trans hfile), hd.ge, fun _ hthrew => absurd hthrew (hg x),
      fun _ hnone => nomatch hnone⟩
  | error e r =>
    rw [hr] at h
    obtain ⟨rfl, rfl⟩ := Prod.mk.inj h
    obtain ⟨⟨ha, hstep⟩, hd⟩ := hm.error hr
    exact ⟨l, hstep, ha.holds.keeps (ha.file_.trans hfile), hd.le, fun _ _ => hd, fun _ hnone => nomatch hnone⟩

theorem not_threw_done : ¬ Threw (.done : Answer T.toRecordType) := by
  rintro ⟨e, h⟩
  cases h

theorem not_threw_value (x : T.Value) : ¬ Threw (.value x : Answer T.toRecordType) := by
  rintro ⟨e, h⟩
  cases h

/-- Reopening a closed file answers and leaves what the list says. -/
theorem reopen_step {disk : Disk} {s' : Session T} {outcomes : List Outcome} {a : Answer T.toRecordType}
    (h : Restores T.toRecordType (disk.file path) l) (hstep : step T path ⟨disk, none⟩ .reopen outcomes = some (s', a)) :
    ∃ l', ListModel.Step l .reopen a l' ∧ Keeps path s' l' ∧ Counts path ⟨disk, none⟩ s' l l' a := by
  have hclosed : Restores T.toRecordType (Disk.file { disk with outcomes := outcomes } path) l := h
  have hspec := reopen_restores hclosed
  simp only [MappedDiskVector.step] at hstep
  cases hr : open' T .nil path none { disk with outcomes := outcomes } with
  | ok v d =>
    rw [hr] at hstep
    obtain ⟨rfl, rfl⟩ := Prod.mk.inj (Option.some.inj hstep)
    obtain ⟨⟨hfile, hv⟩, hd⟩ := hspec.ok hr
    exact ⟨l, .reopen l, hv.keeps hfile, hd.ge, fun _ hthrew => absurd hthrew not_threw_done,
      fun _ hnone => nomatch hnone⟩
  | error e d =>
    rw [hr] at hstep
    obtain ⟨rfl, rfl⟩ := Prod.mk.inj (Option.some.inj hstep)
    obtain ⟨⟨he, hrestores⟩, hd⟩ := hspec.error hr
    refine ⟨l, .reopenThrew l e he, hrestores.keeps, hd, fun hcomplete _ => ?_, fun hdone => absurd ⟨e, rfl⟩ hdone⟩
    have hcomplete : Complete T path { disk with outcomes := outcomes } l := hcomplete rfl
    exact (reopen_complete hcomplete).error hr

/-- So does closing an open vector: what the mapping shows is in the file. -/
theorem close_step {disk : Disk} {v : MappedDiskVector T.toRecordType} {s' : Session T} {outcomes : List Outcome}
    {a : Answer T.toRecordType} (hfile : v.file_ = path) (hv : Holds disk v l)
    (hstep : step T path ⟨disk, some v⟩ .close outcomes = some (s', a)) :
    ∃ l', ListModel.Step l .close a l' ∧ Keeps path s' l' ∧ Counts path ⟨disk, some v⟩ s' l l' a := by
  obtain ⟨rfl, rfl⟩ := Prod.mk.inj (Option.some.inj hstep)
  obtain ⟨f, hf, hs, _⟩ := hv
  rw [hfile] at hf
  have hstored : Stored T.toRecordType (Disk.file { disk with outcomes := outcomes } path) l := by
    rw [Disk.file_of_files (d := { disk with outcomes := outcomes }) hf]
    exact hs
  exact ⟨l, .close l, hstored.restores.keeps, le_refl _, fun _ hthrew => absurd hthrew not_threw_done,
    fun _ _ => Or.inr hstored⟩

/-- **One step refines the list**, and what it throws is owed to a call. -/
theorem Keeps.step {s s' : Session T} {op : Op T.toRecordType} {outcomes : List Outcome} {a : Answer T.toRecordType}
    (h : Keeps path s l) (hstep : step T path s op outcomes = some (s', a)) :
    ∃ l', ListModel.Step l op a l' ∧ Keeps path s' l' ∧ Counts path s s' l l' a := by
  obtain ⟨disk, vec⟩ := s
  cases vec with
  | none =>
    cases op with
    | reopen => exact reopen_step (h.closed rfl) hstep
    | emplaceBack | popBack | get | set | close => cases hstep
  | some v =>
    obtain ⟨hfile, hheld⟩ := h.opened v rfl
    -- how the calls of this operation will end does not matter to what is held
    have hv : Holds { disk with outcomes := outcomes } v l := hheld.congr rfl
    cases op with
    | reopen => cases hstep
    | emplaceBack x =>
      refine answer_step ((emplaceBack_spec hv T.fits x).mono ?_ ?_) (fun _ => not_threw_done) hfile
        (Option.some.inj hstep) rfl
      · rintro _ s ⟨ha, hd⟩
        exact ⟨⟨l ++ [x], ha, .emplaceBack l x⟩, hd⟩
      · rintro e s ⟨ha, hfail⟩
        exact ⟨⟨ha, .emplaceBackThrew l x e hfail.isException⟩, hfail.counted⟩
    | popBack =>
      simp only [MappedDiskVector.step] at hstep
      by_cases h0 : v.size = 0
      · rw [if_pos h0] at hstep
        cases hstep
      · rw [if_neg h0] at hstep
        have hne : l ≠ [] := fun h => h0 (hv.size_eq.trans (by rw [h]; rfl))
        refine answer_step ((popBack_spec hv hne (E := fun _ _ => False)).mono ?_ fun _ _ h => h.elim)
          (fun _ => not_threw_done) hfile (Option.some.inj hstep) rfl
        rintro _ s ⟨ha, hd⟩
        exact ⟨⟨l.dropLast, ha, .popBack l hne⟩, hd⟩
    | get i =>
      simp only [MappedDiskVector.step] at hstep
      by_cases hi : i < v.size
      · rw [if_pos hi] at hstep
        have hi : i < l.length := hv.size_eq ▸ hi
        refine answer_step ?_ not_threw_value hfile (Option.some.inj hstep) rfl
        rw [wp_onFst]
        refine (entry_spec hv hi (E := fun _ _ => False)).mono ?_ fun _ _ h => h.elim
        rintro _ d' ⟨rfl, hd'⟩
        exact ⟨⟨l, hv.after hd'.files, .get l i hi⟩, hd'.failures⟩
      · rw [if_neg hi] at hstep
        cases hstep
    | set i x =>
      simp only [MappedDiskVector.step] at hstep
      by_cases hi : i < v.size
      · rw [if_pos hi] at hstep
        have hi : i < l.length := hv.size_eq ▸ hi
        refine answer_step ?_ (fun _ => not_threw_done) hfile (Option.some.inj hstep) rfl
        rw [wp_onFst]
        refine (setEntry_spec hv hi x (E := fun _ _ => False)).mono ?_ fun _ _ h => h.elim
        rintro _ d' ⟨ha, hd'⟩
        exact ⟨⟨l.set i x, ha, .set l i x hi⟩, hd'⟩
      · rw [if_neg hi] at hstep
        cases hstep
    | close => exact close_step hfile hheld hstep

/-! ### Whole sessions -/

/-- The state of an open vector that holds `l`: its list of entries, its header, its
mapping. -/
structure Sound (path : String) (v : MappedDiskVector T.toRecordType) (d : Disk) (l : List T.Value) (f : File) :
    Prop where
  files : d.files path = some f
  size_eq : v.size = l.length
  entries : ∀ i (h : i < l.length), f.byte.loadBlock (sizeofHeader + i * T.sizeof) T.sizeof = l[i]
  entryCount_eq : (Header.load f.byte).entryCount = v.size
  map_pos : 0 < v.mapSizeInBytes_
  pages : kPageSize ∣ v.mapSizeInBytes_
  inside : sizeofHeader + v.size * T.sizeof ≤ v.mapSizeInBytes_
  mapped : v.mapSizeInBytes_ ≤ f.size

/-- What is held is what is claimed of an open vector. -/
theorem Holds.sound {v : MappedDiskVector T.toRecordType} (h : Holds d v l) (hfile : v.file_ = path) :
    ∃ f, Sound path v d l f := by
  obtain ⟨f, hf, hs, hm⟩ := h
  rw [hfile] at hf
  have hin := hm.inside
  rw [hm.end_eq] at hin
  have hpos : 0 < v.mapSizeInBytes_ := by unfold sizeofHeader at hin; omega
  refine ⟨f, hf, hm.size_eq, hs.entries, ?_, hpos, hm.pages, ?_, hm.mapped⟩
  · rw [hm.size_eq]; exact hs.entryCount_eq
  · rw [hm.size_eq]; exact hin

/-- As long as no call has failed, nothing was thrown and a closed file is complete. -/
structure Blames (path : String) (d : Disk) (s : Session T) (log : List (Op T.toRecordType × Answer T.toRecordType))
    (l : List T.Value) : Prop where
  le : d.failures ≤ s.disk.failures
  complete : s.disk.failures = d.failures → s.vec = none → Complete T path s.disk l
  owed : ∀ op a, (op, a) ∈ log → Threw a → d.failures < s.disk.failures

/-- **One more operation** in the log. -/
theorem Blames.step {s s' : Session T} {log : List (Op T.toRecordType × Answer T.toRecordType)} {l' : List T.Value}
    {op : Op T.toRecordType} {a : Answer T.toRecordType} (h : Blames path d s log l) (hc : Counts path s s' l l' a) :
    Blames path d s' (log ++ [(op, a)]) l' := by
  -- an exception is owed to a call of this operation, or to the earlier one that has cut off the file
  have howed : Threw a → d.failures < s'.disk.failures := by
    intro hthrew
    obtain heq | hlt := h.le.eq_or_lt
    · rw [heq]
      exact hc.owed (h.complete heq.symm) hthrew
    · exact hlt.trans_le hc.le
  refine ⟨h.le.trans hc.le, fun heq hnone => ?_, fun op' a' hmem hthrew => ?_⟩
  · refine hc.complete (fun hthrew => ?_) hnone
    have := howed hthrew
    omega
  · rcases List.mem_append.1 hmem with hmem | hmem
    · exact (h.owed op' a' hmem hthrew).trans_le hc.le
    · rw [List.mem_singleton, Prod.mk.injEq] at hmem
      rw [hmem.2] at hthrew
      exact howed hthrew

/-- **Every run** refines a list, and blames what is thrown on a call. -/
theorem run_keeps {d : Disk} (hd : (d.file path).size = 0) (calls : List (Op T.toRecordType × List Outcome))
    {s : Session T} {log : List (Op T.toRecordType × Answer T.toRecordType)}
    (hrun : run (logStep T path) (⟨d, none⟩, []) calls = some (s, log)) :
    ∃ l, ListModel.Run log l ∧ Keeps path s l ∧ Blames path d s log l := by
  have hinit : Blames path d (⟨d, none⟩ : Session T) [] [] :=
    ⟨le_refl _, fun _ _ => Or.inl hd, fun _ _ hmem => absurd hmem List.not_mem_nil⟩
  refine run_invariant (I := fun r => ∃ l, ListModel.Run r.2 l ∧ Keeps path r.1 l ∧ Blames path d r.1 r.2 l)
    ⟨[], .nil, Restores.keeps (Or.inl ⟨hd, rfl⟩), hinit⟩ ?_ calls hrun
  rintro ⟨s, log⟩ ⟨op, outcomes⟩ r ⟨l, hlog, hkeeps, hblames⟩ hstep
  obtain ⟨⟨s', a⟩, hs', rfl⟩ := Option.map_eq_some_iff.1 hstep
  obtain ⟨l', hl', hkeeps', hcounts⟩ := hkeeps.step hs'
  exact ⟨l', hlog.snoc hl', hkeeps', hblames.step hcounts⟩

/-- **The store refines a list.** Of every session that starts from an empty file, the
answers are those of a list, and what was thrown are exceptions. Nothing is thrown before a call has
failed, and `emplace_back` throws only if one of its own calls fails. While the vector is
open it is that list, and if it is closed and opened again it is the same list, unless a
call fails. -/
theorem store_refines (T : TableType) (path : String) (d : Disk) (hd : (d.file path).size = 0)
    (calls : List (Op T.toRecordType × List Outcome)) (s : Session T)
    (log : List (Op T.toRecordType × Answer T.toRecordType))
    (hrun : run (logStep T path) (⟨d, none⟩, []) calls = some (s, log)) :
    ∃ l, ListModel.Run log l ∧
      (∀ op e, (op, Answer.threw e) ∈ log → e.isException = true ∧ d.failures < s.disk.failures) ∧
      ∀ v, s.vec = some v → (∃ f, Sound path v s.disk l f) ∧
        (∀ x outcomes s' e, step T path s (.emplaceBack x) outcomes = some (s', .threw e) →
          s.disk.failures < s'.disk.failures) ∧
        ∀ closed, step T path s .close [] = some (closed, .done) → ∀ outcomes s' a,
          step T path closed .reopen outcomes = some (s', a) →
            (∃ v' f', a = .done ∧ s'.vec = some v' ∧ Sound path v' s'.disk l f') ∨
              s.disk.failures < s'.disk.failures := by
  obtain ⟨l, hlog, hkeeps, hblames⟩ := run_keeps hd calls hrun
  refine ⟨l, hlog, fun op e hmem => ⟨hlog.threw hmem, hblames.owed op _ hmem ⟨e, rfl⟩⟩, fun v hv => ?_⟩
  obtain ⟨hfile, hholds⟩ := hkeeps.opened v hv
  refine ⟨hholds.sound hfile, fun x outcomes s' e hstep => ?_, fun closed hclose outcomes s' a hstep => ?_⟩
  · obtain ⟨l', -, -, hcounts⟩ := hkeeps.step hstep
    exact hcounts.owed (fun hnone => by rw [hv] at hnone; cases hnone) ⟨e, rfl⟩
  obtain ⟨disk, vec⟩ := s
  obtain rfl : vec = some v := hv
  obtain ⟨rfl, _⟩ := Prod.mk.inj (Option.some.inj hclose)
  obtain ⟨f, hf, hs, _⟩ := hholds
  rw [hfile] at hf
  have hspec : wp (open' T .nil path none) _ _ { disk with outcomes := outcomes } := reopen_stored hf hs
  simp only [MappedDiskVector.step] at hstep
  cases hr : open' T .nil path none { disk with outcomes := outcomes } with
  | ok v' d' =>
    rw [hr] at hstep
    obtain ⟨rfl, rfl⟩ := Prod.mk.inj (Option.some.inj hstep)
    obtain ⟨hfile', hv'⟩ := hspec.ok hr
    obtain ⟨f', hf'⟩ := hv'.sound hfile'
    exact Or.inl ⟨v', f', rfl, rfl, hf'⟩
  | error e d' =>
    rw [hr] at hstep
    obtain ⟨rfl, rfl⟩ := Prod.mk.inj (Option.some.inj hstep)
    exact Or.inr (hspec.error hr).counted

/-- A session with an `emplace_back` that finds the disk full, a pop, and a second opening. -/
theorem store_refines_reopened :
    ∃ s log, run (logStep V1 "test.mdv") (⟨⟨fun _ => none, [], 0⟩, none⟩, [])
      [(.reopen, []), (.emplaceBack fun _ => 7, []), (.emplaceBack fun _ => 8, [.fail .other]),
        (.emplaceBack fun _ => 9, []), (.set 0 fun _ => 1, []), (.popBack, []), (.close, []), (.reopen, []),
        (.get 0, [])] = some (s, log) ∧ ∃ l, ListModel.Run log l := by
  have h : (run (logStep V1 "test.mdv") (⟨⟨fun _ => none, [], 0⟩, none⟩, [])
      [(.reopen, []), (.emplaceBack fun _ => 7, []), (.emplaceBack fun _ => 8, [.fail .other]),
        (.emplaceBack fun _ => 9, []), (.set 0 fun _ => 1, []), (.popBack, []), (.close, []), (.reopen, []),
        (.get 0, [])]).isSome = true := by decide +kernel
  obtain ⟨⟨s, log⟩, hrun⟩ := Option.isSome_iff_exists.1 h
  obtain ⟨l, hl, _⟩ := store_refines V1 "test.mdv" _ rfl _ s log hrun
  exact ⟨s, log, hrun, l, hl⟩

end MappedDiskVector

end EdenCommon
