import EdenCommon.Proof.MappedDiskVectorOpen

/-!
# What a creation that failed leaves

`open` creates a vector in steps: it extends the empty file, writes the header and maps
the file. A call that fails ends the creation, and so does the end of the process in
front of a call, which leaves the same file. The next `open` starts afresh only if the
file is still empty; otherwise it reads the header.

* `open_leaves`: the file is empty, or it has its initial size and as much of the header
  as was written.
* `create_restartable_iff`: the next `open` gives an empty vector exactly if the file is
  empty, or all bytes of the header that are not zero are written.
-/

namespace EdenCommon

open Lib

/-! ### Calls with a given outcome -/

namespace Disk

variable {α : Type} {d : Disk} {path : String} {E : Error → Disk → Prop}

/-- The disk behind a call that changed nothing. -/
def tick (d : Disk) : Disk := { d with outcomes := d.outcomes.tail }

/-- The next outcome is the first of the list, and success when that is empty. -/
theorem wp_next_iff {Q : Outcome → Disk → Prop} : wp (next : Sys Outcome) Q E d ↔ Q (d.outcomes.headD .ok) d.tick := by
  obtain ⟨files, outcomes, failures⟩ := d
  unfold wp next tick
  cases outcomes with
  | nil => rfl
  | cons o rest => rfl

theorem file_tick : d.tick.file path = d.file path := rfl

theorem tick_of_nil (h : d.outcomes = []) : d.tick = d := by
  obtain ⟨files, outcomes, failures⟩ := d
  obtain rfl : outcomes = [] := h
  rfl

/-- The disk behind a call that failed. -/
def counted (d : Disk) : Disk := { d with failures := d.failures + 1 }

theorem wp_count {Q : Unit → Disk → Prop} : wp (count : Sys Unit) Q E d ↔ Q () d.counted := by
  rw [count, wp_modify]
  rfl

/-- A call that fails is counted. -/
theorem wp_failed_iff {x : Errno} {Q : Except Errno α → Disk → Prop} :
    wp (failed x : Sys (Except Errno α)) Q E d ↔ Q (.error x) d.counted := by
  rw [failed, wp_bind, wp_count, wp_pure]

/-- A file that was put there is found. -/
theorem file_put (f : File) : (d.put path (some f)).file path = f := file_of_files (files_self rfl)

/-- The call gives `a` and leaves `d₁` if it succeeds, and fails otherwise. -/
def Plain (m : Sys (Except Errno α)) (a : α) (d d₁ : Disk) : Prop :=
  wp m (fun r d' => d.outcomes.headD .ok = .ok ∧ r = .ok a ∧ d' = d₁ ∨
    d.outcomes.headD .ok ≠ .ok ∧ (∃ x, r = .error x) ∧ d'.files = d.files) (fun _ _ => False) d

theorem call_plain : Plain call () d d.tick := by
  unfold Plain
  rw [call, wp_bind, wp_next_iff]
  cases d.outcomes.headD .ok with
  | ok =>
    exact Or.inl ⟨rfl, rfl, rfl⟩
  | fail | short | throws => exact Or.inr ⟨(fun h => by cases h), ⟨_, rfl⟩, rfl⟩

/-- `open` makes the file where it is missing. -/
theorem openFile_plain : Plain (openFile path false) () d (d.tick.put path (some (d.file path))) := by
  unfold Plain
  rw [openFile, wp_bind, wp_next_iff]
  cases d.outcomes.headD .ok with
  | ok => exact Or.inl ⟨rfl, rfl, rfl⟩
  | fail | short | throws => exact Or.inr ⟨(fun h => by cases h), ⟨_, rfl⟩, rfl⟩

theorem fstat_plain : Plain (fstat path) (d.file path).size d d.tick := by
  unfold Plain
  rw [fstat, wp_bind, wp_next_iff]
  cases d.outcomes.headD .ok with
  | ok => exact Or.inl ⟨rfl, rfl, rfl⟩
  | fail | short | throws => exact Or.inr ⟨(fun h => by cases h), ⟨_, rfl⟩, rfl⟩

/-- `ftruncate` gives the file its size. -/
theorem ftruncate_plain {n : ℕ} (h : n < 2 ^ 63) :
    Plain (ftruncate path n) () d (d.tick.put path (some ((d.file path).resize n h))) := by
  unfold Plain
  rw [ftruncate, wp_bind, wp_next_iff]
  cases d.outcomes.headD .ok with
  | ok =>
    rw [dif_pos h]
    exact Or.inl ⟨rfl, rfl, rfl⟩
  | fail | short | throws => exact Or.inr ⟨(fun h => by cases h), ⟨_, rfl⟩, rfl⟩

end Disk

-- the goals below are never to be evaluated
attribute [local irreducible] wp

namespace MappedDiskVector

/-! ### How far a creation gets -/

/-- What comes of the calls behind one that has to succeed. -/
def afterOk (outcomes : List Outcome) (k : List Outcome → Option Outcome) : Option Outcome :=
  match outcomes.headD .ok with
  | .ok => k outcomes.tail
  | _ => none

/-- What comes of the calls behind `extendFile`: `fallocate`, and `ftruncate` where it is not supported. -/
def afterExtend (outcomes : List Outcome) (k : List Outcome → Option Outcome) : Option Outcome :=
  match outcomes.headD .ok with
  | .ok => k outcomes.tail
  | .fail .notSupported => afterOk outcomes.tail k
  | _ => none

/-- How the write of the first header ends, if `open` on an empty file gets there: `open`, `flock`,
`fstat` and `extendFile` come before. -/
def headerWrite (outcomes : List Outcome) : Option Outcome :=
  afterOk outcomes fun outcomes => afterOk outcomes fun outcomes => afterOk outcomes fun outcomes =>
    afterExtend outcomes fun outcomes => some (outcomes.headD .ok)

/-- The bytes of the header that are then in the file. -/
def written : Outcome → ℕ
  | .ok => sizeofHeader
  | .short k => min k (sizeofHeader - 1)
  | _ => 0

theorem written_le (o : Outcome) : written o ≤ sizeofHeader := by
  cases o with
  | ok => exact Nat.le_refl _
  | short n => exact Nat.le_trans (Nat.min_le_right _ _) (Nat.sub_le _ _)
  | fail | throws => exact Nat.zero_le _

theorem written_lt (o : Outcome) : written o < 2 ^ 63 := Nat.lt_of_le_of_lt (written_le o) (by decide)

/-- The creation did not get to its header, or the header has all its bytes but zeros and the
versions can be told apart. -/
def Restartable (T : TableType) (old : OldVersions T.toRecordType) (outcomes : List Outcome) : Prop :=
  match headerWrite outcomes with
  | none => True
  | some o => (∀ a, written o ≤ a → a < sizeofHeader → (Header.of T.toRecordType 0).bytes a = 0) ∧
      (T.VERSION :: old.types.map (·.VERSION)).Nodup

/-- The file that a creation leaves, of which the header was written with this outcome. -/
def Leaves (T : TableType) (f : File) : Option Outcome → Prop
  | none => f.size = 0
  | some o => f.size = initialSize ∧
      ∀ a, a < sizeofHeader → f.byte a = if a < written o then (Header.of T.toRecordType 0).bytes a else 0

variable {T : TableType} {old : OldVersions T.toRecordType} {f : File} {d : Disk} {path : String}
  {afterMmap : Option (Sys Unit)}

/-- **A checked call** does its plain effect, or throws as its outcome says. -/
theorem wp_orThrow_plain {α : Type} {e : Error} {m : Sys (Except Disk.Errno α)} {a : α} {d₁ : Disk}
    {Q : α → Disk → Prop} {E : Error → Disk → Prop} (hm : Disk.Plain m a d d₁)
    (hQ : d.outcomes.headD .ok = .ok → Q a d₁)
    (hE : d.outcomes.headD .ok ≠ .ok → ∀ d', d'.files = d.files → E e d') : wp (orThrow e m) Q E d := by
  rw [orThrow]
  refine wp.bind hm (fun _ _ h => h.elim) ?_
  rintro _ d' (⟨h, rfl, rfl⟩ | ⟨h, ⟨x, rfl⟩, hfiles⟩)
  · rw [wp_pure]
    exact hQ h
  · rw [wp_throw]
    exact hE h d' hfiles

/-! ### The file left behind -/

section Rules

variable {k : List Outcome → Option Outcome} {e : Error} {E : Error → Disk → Prop}

theorem afterOk_of_eq (h : d.outcomes.headD .ok = .ok) : afterOk d.outcomes k = k d.tick.outcomes := by
  rw [afterOk, h]
  rfl

/-- Behind a call that fails there are no others. -/
theorem afterOk_of_ne (h : d.outcomes.headD .ok ≠ .ok) : afterOk d.outcomes k = none := by
  unfold afterOk
  cases ho : d.outcomes.headD .ok with
  | ok => exact absurd ho h
  | fail | short | throws => rfl

/-- An empty file is extended by zeros. -/
theorem extendFile_outcomes (k : List Outcome → Option Outcome) {Q : Unit → Disk → Prop} {n : ℕ} (hn : 0 < n) (hlt : n < 2 ^ 63) (hsize : (d.file path).size = 0)
    (hQ : ∀ d₁, (d₁.file path).size = n → (∀ a, (d₁.file path).byte a = 0) → afterExtend d.outcomes k = k d₁.outcomes →
      Q () d₁)
    (hE : ∀ e d', d'.files = d.files → afterExtend d.outcomes k = none → E e d') :
    wp (extendFile path n) Q E d := by
  have hzero : ∀ (m : ℕ) (h : m < 2 ^ 63) (a : ℕ), ((d.file path).resize m h).byte a = 0 := by
    intro m h a
    exact if_neg (by omega)
  rw [extendFile, wp_bind, Disk.fallocate, wp_bind, Disk.wp_next_iff]
  cases ho : d.outcomes.headD .ok with
  | ok =>
    dsimp only
    rw [dif_pos ⟨hn, hlt⟩, wp_bind, wp_modify, wp_pure, wp_pure]
    apply hQ
    · rw [Disk.file_put]
      show max (d.file path).size n = n
      omega
    · rw [Disk.file_put]
      exact hzero _ _
    · rw [afterExtend, ho]
      rfl
  | fail x =>
    cases x with
    | notSupported =>
      have hextend : afterExtend d.outcomes k = afterOk d.tick.outcomes k := by
        rw [afterExtend, ho]
        rfl
      dsimp only
      rw [wp_pure]
      refine wp_orThrow_plain (Disk.ftruncate_plain hlt) (fun h => ?_) fun h d' hfiles => ?_
      · apply hQ
        · rw [Disk.file_put]
          rfl
        · rw [Disk.file_put]
          exact hzero _ _
        · rw [hextend, afterOk_of_eq h]
          rfl
      · exact hE _ d' hfiles (hextend.trans (afterOk_of_ne h))
    | invalid | other =>
      dsimp only
      rw [Disk.wp_failed_iff, wp_throw]
      refine hE _ _ rfl ?_
      rw [afterExtend, ho]
  | short | throws =>
    dsimp only
    rw [Disk.wp_failed_iff, wp_throw]
    refine hE _ _ rfl ?_
    rw [afterExtend, ho]

/-- The write of the header, of which some bytes may arrive. -/
theorem pwrite_outcomes {Q : ℕ → Disk → Prop} {m : Memory}
    (hQ : ∀ d₁ (h : written (d.outcomes.headD .ok) < 2 ^ 63),
      d₁.files path = some ((d.file path).write m (written (d.outcomes.headD .ok)) h) → Q (written (d.outcomes.headD .ok)) d₁)
    (hE : ∀ e d', d'.files = d.files → written (d.outcomes.headD .ok) = 0 → E e d') :
    wp (orThrow e (Disk.pwrite path m sizeofHeader (by decide))) Q E d := by
  rw [orThrow, wp_bind, Disk.pwrite, wp_bind, Disk.wp_next_iff]
  cases ho : d.outcomes.headD .ok with
  | ok =>
    rw [ho] at hQ
    dsimp only
    rw [wp_bind, wp_modify, wp_pure, wp_pure]
    exact hQ _ (written_lt _) (Disk.files_self rfl)
  | short n =>
    rw [ho] at hQ
    dsimp only
    rw [wp_bind, Disk.wp_count, wp_bind, wp_modify, wp_pure, wp_pure]
    exact hQ _ (written_lt _) (Disk.files_self rfl)
  | fail | throws =>
    dsimp only
    rw [Disk.wp_failed_iff, wp_throw]
    refine hE _ _ rfl ?_
    rw [ho]
    rfl

end Rules

/-- The first bytes of the header over a file of zeros. -/
theorem leaves_write {o : Outcome} (h : written o < 2 ^ 63) (hsize : f.size = initialSize) (hzero : ∀ a, f.byte a = 0) :
    Leaves T (f.write (Header.of T.toRecordType 0).bytes (written o) h) (some o) := by
  have hinit : initialSize = 2 ^ 20 := by decide
  have hheader : sizeofHeader = 32 := rfl
  have hle := written_le o
  refine ⟨?_, fun a ha => ?_⟩
  · show max f.size (written o) = initialSize
    omega
  · show (if a < written o then _ else if a < f.size then f.byte a else 0) = _
    rw [hzero a, ite_self]

/-- What a creation leaves depends on the file only. -/
theorem Leaves.padded {o : Outcome} (h : Leaves T f (some o)) (hpad : Padded path f d) :
    Leaves T (d.file path) (some o) := by
  have hround : roundUpToNonzeroPageSize initialSize = initialSize := by decide
  have hinit : initialSize = 2 ^ 20 := by decide
  have hheader : sizeofHeader = 32 := rfl
  obtain ⟨f', hf', hext, hsize⟩ := hpad
  rw [h.1, hround, or_self] at hsize
  rw [Disk.file_of_files hf']
  exact ⟨hsize, fun a ha => (hext.agree a (Nat.zero_le a) (by rw [h.1]; omega)).trans (h.2 a ha)⟩

/-- A file with a whole header is one of an empty vector. -/
theorem Leaves.stored {o : Outcome} (h : Leaves T f (some o))
    (hall : ∀ a, written o ≤ a → a < sizeofHeader → (Header.of T.toRecordType 0).bytes a = 0) :
    Stored T.toRecordType f [] := by
  have hinit : initialSize = 2 ^ 20 := by decide
  have hheader : sizeofHeader = 32 := rfl
  refine stored_nil ((Header.load_congr fun a _ ha => ?_).trans (Header.load_of T)) (by rw [h.1]; omega)
  rw [h.2 a (by omega)]
  by_cases hw : a < written o
  · rw [if_pos hw]
  · rw [if_neg hw, hall a (by omega) (by omega)]

/-- **A creation that fails** leaves what its outcomes say. -/
theorem initializeFromScratch_leaves (hsize : (d.file path).size = 0) :
    wp (initializeFromScratch T path) (fun _ _ => True)
      (fun _ d' => Leaves T (d'.file path) (afterExtend d.outcomes fun outcomes => some (outcomes.headD .ok))) d := by
  have hinit : initialSize = 2 ^ 20 := by decide
  have hheader : sizeofHeader = 32 := rfl
  rw [initializeFromScratch, wp_bind]
  refine extendFile_outcomes (fun outcomes => some (outcomes.headD .ok)) (by decide) (by decide) hsize (fun d₁ hsize₁ hzero hafter => ?_) fun e d' hfiles hafter => ?_
  · rw [hafter, wp_bind]
    refine pwrite_outcomes (fun d₂ h hfile => ?_) fun e d' hfiles hw => ?_
    · have hleft := leaves_write (T := T) (o := d₁.outcomes.headD .ok) h hsize₁ hzero
      rw [wp_bind]
      refine wp_throwIf (fun _ => by rwa [Disk.file_of_files hfile]) fun hfull => ?_
      -- the constructor does not change a file of this size
      have hfull : written (d₁.outcomes.headD .ok) = sizeofHeader := not_not.1 (of_decide_eq_false hfull)
      have hstored := hleft.stored fun a h1 h2 => absurd h2 (by omega)
      have hspec := construct_spec hfile hstored leavesFiles_none
      rw [hleft.1] at hspec
      exact hspec.mono (fun _ _ _ => trivial) fun e d' h => hleft.padded h.1
    · refine ⟨?_, fun a ha => ?_⟩
      · rw [Disk.file_congr hfiles]
        exact hsize₁
      · rw [Disk.file_congr hfiles, hzero, hw, if_neg (Nat.not_lt_zero a)]
  · rw [hafter, Disk.file_congr hfiles]
    exact hsize

/-- **What a failed creation leaves.** -/
theorem open_leaves (hsize : (d.file path).size = 0) :
    wp (open' T old path afterMmap) (fun _ _ => True)
      (fun _ d' => Leaves T (d'.file path) (headerWrite d.outcomes)) d := by
  rw [open', wp_bind, openLocked, wp_bind, headerWrite]
  refine wp_orThrow_plain Disk.openFile_plain (fun h₁ => ?_) fun h₁ d' hfiles => ?_
  rotate_left
  · rw [afterOk_of_ne h₁, Disk.file_congr hfiles]
    exact hsize
  rw [afterOk_of_eq h₁]
  -- the file may be new; it is empty in any case
  have hempty : ((d.tick.put path (some (d.file path))).file path).size = 0 := by rw [Disk.file_put]; exact hsize
  have houtcomes : d.tick.outcomes = (d.tick.put path (some (d.file path))).outcomes := rfl
  rw [houtcomes]
  generalize d.tick.put path (some (d.file path)) = d₁ at hempty
  refine wp_orThrow_plain Disk.call_plain (fun h₂ => ?_) fun h₂ d' hfiles => ?_
  rotate_left
  · rw [afterOk_of_ne h₂, Disk.file_congr hfiles]
    exact hempty
  rw [afterOk_of_eq h₂, wp_bind]
  refine wp_orThrow_plain Disk.fstat_plain (fun h₃ => ?_) fun h₃ d' hfiles => ?_
  rotate_left
  · rw [afterOk_of_ne h₃, Disk.file_congr hfiles]
    exact hempty
  rw [afterOk_of_eq h₃, Disk.file_tick, if_pos hempty]
  exact initializeFromScratch_leaves hempty

/-! ### An open in which nothing fails -/

/-- The callback returns, and does nothing to the disk. -/
def Quiet (afterMmap : Option (Sys Unit)) : Prop := ∀ d, wp (afterMmap.getD (pure ())) (fun _ d' => d' = d) (fun _ _ => False) d

theorem quiet_none : Quiet none := by
  intro d
  rw [Option.getD_none, wp_pure]

theorem Quiet.leavesFiles (h : Quiet afterMmap) : LeavesFiles afterMmap := by
  intro d
  refine (h d).mono ?_ fun _ _ h => h.elim
  rintro _ d' rfl
  exact ⟨rfl, rfl⟩

section Nothing

variable {E : Error → Disk → Prop} (hd : d.outcomes = [])

include hd

/-- A checked call without failures does its plain effect. -/
theorem wp_orThrow_quiet {α : Type} {e : Error} {m : Sys (Except Disk.Errno α)} {a : α} {d₁ : Disk}
    {Q : α → Disk → Prop} (hm : Disk.Plain m a d d₁) (hQ : Q a d₁) : wp (orThrow e m) Q E d :=
  wp_orThrow_plain hm (fun _ => hQ) fun h => absurd (by rw [hd]; rfl) h

theorem extendFile_quiet {n : ℕ} (hn : 0 < n) (hlt : n < 2 ^ 63) :
    wp (extendFile path n) (fun _ d' => d'.outcomes = []) E d := by
  rw [extendFile, wp_bind, Disk.fallocate, wp_bind, Disk.wp_next_iff, hd]
  show wp (dite _ _ _) _ _ _
  rw [dif_pos ⟨hn, hlt⟩, wp_bind, wp_modify, wp_pure, wp_pure]
  show d.tick.outcomes = []
  rwa [Disk.tick_of_nil hd]

theorem populateForWrite_quiet {addr length : ℕ} (h : addr + length < 2 ^ 64) :
    wp (populateForWrite addr length) (fun _ d' => d'.outcomes = []) E d := by
  rw [populateForWrite, wp_bind]
  refine wp_xcheck (decide_eq_true (by rw [Nat.mod_eq_of_lt h]; omega)) ?_
  rw [wp_bind, Disk.madvise, wp_bind, Disk.wp_next_iff, hd]
  show wp (pure _) _ _ _
  rw [wp_pure, wp_pure]
  rwa [Disk.tick_of_nil hd]

/-- The constructor on a file of the initial size. -/
theorem construct_quiet {R : RecordType} {n : ℕ} (hquiet : Quiet afterMmap) (hn : sizeofHeader + n * R.sizeof ≤ initialSize) :
    wp (construct R path initialSize n afterMmap) (fun _ _ => True) (fun _ _ => False) d := by
  have hround : roundUpToNonzeroPageSize initialSize = initialSize := by decide
  have hinit : initialSize = 2 ^ 20 := by decide
  rw [construct, hround, wp_bind, if_neg (not_not.2 rfl), wp_pure, wp_bind]
  refine wp_orThrow_quiet hd Disk.call_plain ?_
  rw [Disk.tick_of_nil hd, wp_bind]
  refine (hquiet d).mono ?_ fun _ _ h => h
  rintro _ d₁ rfl
  rw [wp_bind]
  refine (populateForWrite_quiet hd (by omega)).mono ?_ fun _ _ h => h
  rintro _ d₂ -
  have hmod : (sizeofHeader + n * R.sizeof) % 2 ^ 64 = sizeofHeader + n * R.sizeof := Nat.mod_eq_of_lt (by omega)
  rw [hmod, wp_bind]
  refine wp_xcheck (decide_eq_true hn) ?_
  rw [wp_pure]
  trivial

/-- A creation without failures does not throw. -/
theorem initializeFromScratch_quiet :
    wp (initializeFromScratch T path) (fun _ _ => True) (fun _ _ => False) d := by
  rw [initializeFromScratch, wp_bind]
  refine (extendFile_quiet hd (by decide) (by decide)).mono ?_ fun _ _ h => h
  rintro _ d₁ hd₁
  rw [wp_bind, orThrow, wp_bind, Disk.pwrite, wp_bind, Disk.wp_next_iff, hd₁]
  show wp (_ >>= _) _ _ _
  rw [wp_bind, wp_modify, wp_pure, wp_pure, wp_bind]
  refine wp_throwIf (fun h => absurd rfl (of_decide_eq_true h)) fun _ => ?_
  refine construct_quiet ?_ quiet_none ?_
  · show d₁.tick.outcomes = []
    rwa [Disk.tick_of_nil hd₁]
  · show sizeofHeader + 0 * _ ≤ initialSize
    rw [Nat.zero_mul]
    decide

/-- The calls of `open` in front of the choice by the size. -/
theorem open_quiet {Q : MappedDiskVector T.toRecordType → Disk → Prop}
    (hempty : (d.file path).size = 0 → wp (initializeFromScratch T path) Q E (d.put path (some (d.file path))))
    (hopen : (d.file path).size ≠ 0 → wp (readHeader path (d.file path).size >>= openAs T old path afterMmap (d.file path).size)
      Q E (d.put path (some (d.file path)))) :
    wp (open' T old path afterMmap) Q E d := by
  rw [open', wp_bind, openLocked, wp_bind]
  refine wp_orThrow_quiet hd Disk.openFile_plain ?_
  rw [Disk.tick_of_nil hd]
  have hd₁ : (d.put path (some (d.file path))).outcomes = [] := hd
  refine wp_orThrow_quiet hd₁ Disk.call_plain ?_
  rw [Disk.tick_of_nil hd₁, wp_bind]
  refine wp_orThrow_quiet hd₁ Disk.fstat_plain ?_
  rw [Disk.tick_of_nil hd₁, Disk.file_put]
  by_cases h0 : (d.file path).size = 0
  · rw [if_pos h0]
    exact hempty h0
  · rw [if_neg h0]
    exact hopen h0

/-- A stored vector in a file of the initial size. -/
theorem readHeader_quiet {es : List T.Value} (hquiet : Quiet afterMmap) (hf : d.files path = some f) (hsize : f.size = initialSize)
    (hs : Stored T.toRecordType f es) (hdistinct : (T.VERSION :: old.types.map (·.VERSION)).Nodup) :
    wp (readHeader path initialSize >>= openAs T old path afterMmap initialSize) (fun _ _ => True) (fun _ _ => False) d := by
  have hinit : initialSize = 2 ^ 20 := by decide
  have hheader : sizeofHeader = 32 := rfl
  have hvalid := hs.valid
  rw [hsize] at hvalid
  have hread : min sizeofHeader f.size = sizeofHeader := by omega
  rw [wp_bind, readHeader, wp_bind, orThrow, wp_bind, Disk.pread, wp_bind, wp_get, wp_bind, Disk.wp_next_iff, hd,
    Disk.file_of_files hf, hread]
  show wp (pure _) _ _ _
  rw [wp_pure, wp_pure, Disk.tick_of_nil hd, wp_bind]
  refine wp_throwIf (fun h => absurd rfl (of_decide_eq_true h)) fun _ => ?_
  rw [wp_bind, wp_get, Disk.file_of_files hf, wp_bind]
  refine wp_throwIf (fun h => absurd (hvalid.symm.trans h) Bool.false_ne_true) fun _ => ?_
  rw [wp_pure, openAs, duplicateVersion_eq_none.2 hdistinct]
  dsimp only
  rw [if_pos hs.recordVersion_eq.symm, hs.recordSize_eq, hs.entryCount_eq, wp_bind]
  refine wp_throwIf (fun h => absurd rfl (of_decide_eq_true h)) fun _ => ?_
  have hin := hs.inside
  rw [hsize] at hin
  exact construct_quiet hd hquiet hin

end Nothing

/-! ### Opening again -/

/-- An empty vector is opened where an empty file is, or one of an empty vector. -/
theorem open_again (hd : d.outcomes = []) (hquiet : Quiet afterMmap)
    (h : (d.file path).size = 0 ∨ (d.file path).size = initialSize ∧ Stored T.toRecordType (d.file path) [] ∧
      (T.VERSION :: old.types.map (·.VERSION)).Nodup) :
    ∃ v d', open' T old path afterMmap d = .ok v d' ∧ v.file_ = path ∧ Holds d' v [] := by
  rcases h with h0 | ⟨hsize, hs, hdistinct⟩
  · have hok : wp (open' T old path afterMmap) (fun _ _ => True) (fun _ _ => False) d :=
      open_quiet hd (fun _ => initializeFromScratch_quiet hd) fun h => absurd h0 h
    have hspec : wp (open' T old path afterMmap) (fun v d' => v.file_ = path ∧ Holds d' v []) (fun _ _ => True) d := by
      refine wp_open (fun _ d₁ hfiles _ => ?_) (fun h => absurd h0 h) fun _ _ _ _ _ => trivial
      refine (initializeFromScratch_spec T (Disk.files_self hfiles) h0).mono ?_ fun _ _ _ => trivial
      rintro v d' ⟨hv, hfile, -⟩
      exact ⟨hfile, hv⟩
    obtain ⟨v, d', hr, -⟩ := hok.exists_ok
    exact ⟨v, d', hr, hspec.ok hr⟩
  · have hinit : initialSize = 2 ^ 20 := by decide
    have hok : wp (open' T old path afterMmap) (fun _ _ => True) (fun _ _ => False) d := by
      refine open_quiet hd (fun h => by omega) fun _ => ?_
      have hd₁ : (d.put path (some (d.file path))).outcomes = [] := hd
      rw [hsize]
      exact readHeader_quiet hd₁ hquiet (Disk.files_self rfl) hsize hs hdistinct
    have hspec : wp (open' T old path afterMmap) (fun v d' => v.file_ = path ∧ Holds d' v []) (fun _ _ => True) d := by
      refine wp_open (fun h => by omega) (fun _ _ d₁ hfiles _ => ?_) fun _ _ _ _ _ => trivial
      refine (openAs_primary hdistinct (Disk.files_self hfiles) hs hquiet.leavesFiles).mono ?_ fun _ _ _ => trivial
      rintro v d' ⟨hv, hfile, -⟩
      exact ⟨hfile, hv⟩
    obtain ⟨v, d', hr, -⟩ := hok.exists_ok
    exact ⟨v, d', hr, hspec.ok hr⟩

/-- **A torn header.** A file whose header lacks a byte that is not zero is not opened. -/
theorem open_torn {o : Outcome} (h : Leaves T (d.file path) (some o)) {a : ℕ} (hw : written o ≤ a) (ha : a < sizeofHeader)
    (hbyte : (Header.of T.toRecordType 0).bytes a ≠ 0) :
    wp (open' T old path afterMmap) (fun _ _ => False) (fun _ _ => True) d := by
  have hinit : initialSize = 2 ^ 20 := by decide
  have hheader : sizeofHeader = 32 := rfl
  obtain ⟨hsize, hbytes⟩ := h
  have hlow : a < 16 := by
    by_contra hle
    exact hbyte (Header.bytes_eq_zero (by omega) ha)
  have hlt := (d.file path).size_lt
  refine wp_open (fun h0 => by omega) (fun _ hvalid d₁ _ _ => ?_) fun _ _ _ _ _ => trivial
  have hpos := (Header.valid hvalid (by omega)).2.2.1
  by_cases h12 : written o ≤ 12
  · -- nothing is there of the record size
    refine absurd (Memory.loadLE_eq_zero fun b h1 h2 => ?_) hpos
    rw [hbytes b (by omega), if_neg (by omega)]
  · have hload := Header.load_of T
    have hversion : (Header.load (d.file path).byte).recordVersion = T.VERSION := by
      have hagree : (d.file path).byte.Agree (Header.of T.toRecordType 0).bytes 8 4 := fun b h1 h2 =>
        (hbytes b (by omega)).trans (if_pos (by omega))
      exact hagree.loadLE_eq.trans (congrArg Header.recordVersion hload)
    have hrecord : (Header.load (d.file path).byte).recordSize ≠ T.sizeof := by
      intro heq
      have hagree := Memory.agree_of_loadLE_eq (heq.trans (congrArg Header.recordSize hload).symm)
      have hzero := hbytes a ha
      rw [if_neg (by omega)] at hzero
      exact hbyte ((hagree a (by omega) (by omega)).symm.trans hzero)
    refine openAs_cases hvalid (fun _ es hs => absurd hs.recordSize_eq hrecord) (fun hdistinct i V g xs hg hs => ?_)
      fun _ _ => trivial
    have heq : V.VERSION = T.VERSION := hs.recordVersion_eq.symm.trans hversion
    exact absurd (heq ▸ List.mem_map.2 ⟨V, List.mem_of_getElem? hg.types, rfl⟩) (List.nodup_cons.1 hdistinct).1

/-- Two versions of one number are refused. -/
theorem open_duplicate (h : (d.file path).size ≠ 0) (hdup : ¬ (T.VERSION :: old.types.map (·.VERSION)).Nodup) :
    wp (open' T old path afterMmap) (fun _ _ => False) (fun _ _ => True) d := by
  refine wp_open (fun h0 => absurd h0 h) (fun _ hvalid d₁ _ _ => ?_) fun _ _ _ _ _ => trivial
  exact openAs_cases hvalid (fun hdistinct => absurd hdistinct hdup) (fun hdistinct => absurd hdistinct hdup)
    fun _ _ => trivial

/-- **Restarting.** A creation failed, by any pattern of failures. An open in which nothing fails
then gives an empty vector exactly if the creation had not got to its header, or had written
all bytes of it that are not zero. -/
theorem create_restartable_iff (T : TableType) (old : OldVersions T.toRecordType) (path : String)
    (afterMmap again : Option (Sys Unit)) (hquiet : Quiet again) (d : Disk) (hempty : (d.file path).size = 0)
    (outcomes : List Outcome) (e : Error) (d' : Disk)
    (hfail : open' T old path afterMmap { d with outcomes := outcomes } = .error e d') :
    (∃ v d'', open' T old path again { d' with outcomes := [] } = .ok v d'' ∧ v.file_ = path ∧ Holds d'' v []) ↔
      Restartable T old outcomes := by
  have hspec : wp (open' T old path afterMmap) (fun _ _ => True)
      (fun _ d' => Leaves T (d'.file path) (headerWrite outcomes)) { d with outcomes := outcomes } :=
    open_leaves (d := { d with outcomes := outcomes }) hempty
  have hleft := hspec.error hfail
  have hnever : ∀ d₁ : Disk, wp (open' T old path again) (fun _ _ => False) (fun _ _ => True) d₁ →
      ¬ ∃ v d'', open' T old path again d₁ = .ok v d'' ∧ v.file_ = path ∧ Holds d'' v [] := by
    rintro d₁ h ⟨v, d'', hr, -⟩
    exact h.ok hr
  unfold Restartable
  cases hw : headerWrite outcomes with
  | none =>
    rw [hw] at hleft
    exact ⟨fun _ => trivial, fun _ => open_again rfl hquiet (.inl hleft)⟩
  | some o =>
    rw [hw] at hleft
    have hne : (d'.file path).size ≠ 0 := by
      rw [hleft.1]
      decide
    constructor
    · intro hagain
      refine ⟨fun a hwa ha => ?_, ?_⟩
      · by_contra hbyte
        exact hnever _ (open_torn (d := { d' with outcomes := [] }) hleft hwa ha hbyte) hagain
      · by_contra hdup
        exact hnever _ (open_duplicate (d := { d' with outcomes := [] }) hne hdup) hagain
    · rintro ⟨hall, hdistinct⟩
      exact open_again rfl hquiet (.inr ⟨hleft.1, hleft.stored hall, hdistinct⟩)

/-- The disk is full when the file is extended. -/
theorem create_restartable_iff_full :
    ∃ e d', open' V1 .nil "test.mdv" none ⟨fun _ => none, [.ok, .ok, .ok, .fail .other], 0⟩ = .error e d' ∧
      ((∃ v d'', open' V1 .nil "test.mdv" none { d' with outcomes := [] } = .ok v d'' ∧ v.file_ = "test.mdv" ∧ Holds d'' v []) ↔
        Restartable V1 .nil [.ok, .ok, .ok, .fail .other]) := by
  have hfails : (match open' V1 .nil "test.mdv" none ⟨fun _ => none, [.ok, .ok, .ok, .fail .other], 0⟩ with
      | .ok _ _ => false
      | .error _ _ => true) = true := by decide +kernel
  cases hr : open' V1 .nil "test.mdv" none ⟨fun _ => none, [.ok, .ok, .ok, .fail .other], 0⟩ with
  | ok v d' =>
    rw [hr] at hfails
    exact absurd hfails Bool.false_ne_true
  | error e d' =>
    exact ⟨e, d', rfl, create_restartable_iff V1 .nil "test.mdv" none none quiet_none ⟨fun _ => none, [], 0⟩ rfl _ e d' hr⟩

/-- **A file of zeros.** The file was extended and the header not written; no later open
accepts the file. -/
theorem create_leaves_zeros :
    ∃ e d' d'', open' V1 .nil "test.mdv" none ⟨fun _ => none, [.ok, .ok, .ok, .ok, .fail .other], 0⟩ = .error e d' ∧
      open' V1 .nil "test.mdv" none { d' with outcomes := [] } =
        .error (.runtime "Invalid header: this is probably not a MappedDiskVector file") d'' := by
  have hthrown : (match open' V1 .nil "test.mdv" none ⟨fun _ => none, [.ok, .ok, .ok, .ok, .fail .other], 0⟩ with
      | .ok _ _ => none
      | .error _ d' =>
        match open' V1 .nil "test.mdv" none { d' with outcomes := [] } with
        | .ok _ _ => none
        | .error e _ => some e) =
      some (.runtime "Invalid header: this is probably not a MappedDiskVector file") := by decide +kernel
  cases hr : open' V1 .nil "test.mdv" none ⟨fun _ => none, [.ok, .ok, .ok, .ok, .fail .other], 0⟩ with
  | ok v d' =>
    rw [hr] at hthrown
    cases hthrown
  | error e d' =>
    rw [hr] at hthrown
    cases hr' : open' V1 .nil "test.mdv" none { d' with outcomes := [] } with
    | ok v d'' =>
      simp only [hr'] at hthrown
      cases hthrown
    | error e' d'' =>
      simp only [hr'] at hthrown
      obtain rfl := Option.some.inj hthrown
      exact ⟨e, d', d'', rfl, hr'⟩

end MappedDiskVector

end EdenCommon
