import EdenCommon.Spec.MappedDiskVector
import EdenCommon.Lib.Wp

/-!
# What the calls on files guarantee

One rule for each call of `MappedDiskVector` on the kernel, whatever the call's
outcome. A call that reports success has its documented effect and counts no failure;
one that makes the code throw has left the files as they were and is counted.

* `fstat_spec` to `unlink_spec`: the rule of each call, read off its model in `Spec/Disk`.
* `wp_orThrow`: a checked call throws what its own failure is owed to, with the files as
  they were; this is where every exception of the container comes from.
* `extendFile_spec`, `populateForWrite_spec`: the two helpers that choose among the calls,
  by what the platform supports.
-/

namespace EdenCommon

open Lib

/-- The file was only made longer, by zeros. -/
structure File.Extends (f' f : File) : Prop where
  size_le : f.size ≤ f'.size
  agree : f'.byte.Agree f.byte 0 f.size
  zeros : ∀ a, f.size ≤ a → a < f'.size → f'.byte a = 0

theorem File.Extends.refl (f : File) : f.Extends f :=
  ⟨Nat.le_refl _, fun _ _ _ => rfl, fun _ h1 h2 => absurd h2 (by omega)⟩

/-- A file that is made longer keeps its bytes, and the new ones are zero. -/
theorem File.resize_extends (f : File) {n : ℕ} (h : n < 2 ^ 63) (hn : f.size ≤ n) : (f.resize n h).Extends f := by
  refine ⟨hn, fun a _ ha => ?_, fun a ha _ => ?_⟩
  · have ha' : a < f.size := by omega
    exact if_pos ha'
  · exact if_neg (by omega)

/-- An exception that is owed to a call that failed. -/
structure Failed (d : Disk) (e : Error) (d' : Disk) : Prop where
  isException : e.isException = true
  counted : d.failures < d'.failures

/-- An exception counts from the beginning of a program if no call before it has failed. -/
theorem Failed.of_failures {d d₁ d' : Disk} {e : Error} (h : Failed d₁ e d') (hd : d₁.failures = d.failures) :
    Failed d e d' := ⟨h.isException, hd ▸ h.counted⟩

/-- The same, and no file has changed. -/
structure Thrown (d : Disk) (e : Error) (d' : Disk) : Prop extends Failed d e d' where
  files : d'.files = d.files

theorem Thrown.of_unchanged {d d₁ d' : Disk} {e : Error} (h : Thrown d₁ e d') (hf : d₁.files = d.files)
    (hd : d₁.failures = d.failures) : Thrown d e d' := ⟨h.toFailed.of_failures hd, h.files.trans hf⟩

/-- Nothing happened to the files, and no call failed. -/
structure Unchanged (d d' : Disk) : Prop where
  files : d'.files = d.files
  failures : d'.failures = d.failures

namespace Disk

variable {α : Type} {d : Disk} {path : String}

theorem files_self {d' : Disk} {f : Option File} (h : d'.files = Function.update d.files path f) :
    d'.files path = f := by rw [h, Function.update_self]

/-- An update of one file is none of the others. -/
theorem files_of_ne {d' : Disk} {f : Option File} (h : d'.files = Function.update d.files path f) {q : String}
    (hq : q ≠ path) : d'.files q = d.files q := by rw [h, Function.update_of_ne hq]

/-- A file that is there is the one that a call finds. -/
theorem file_of_files {f : File} (h : d.files path = some f) : d.file path = f := by simp [file, h]

theorem file_congr {d' : Disk} (h : d'.files = d.files) : d'.file path = d.file path := by rw [file, file, h]

variable {E : Error → Disk → Prop}

/-- The next call may end in any way. -/
theorem wp_next {Q : Outcome → Disk → Prop} (h : ∀ o rest, Q o { d with outcomes := rest }) :
    wp (next : Sys Outcome) Q E d := by
  unfold wp next
  cases d.outcomes with
  | nil => exact h .ok d.outcomes
  | cons o rest => exact h o rest

/-- What a call that reports an errno guarantees: `Q` if it succeeds. If it fails, no
file has changed, and the failure is counted unless the errno is one the code handles. -/
def Reports (handled : Errno → Prop) (Q : α → Disk → Prop) (d : Disk) (r : Except Errno α) (d' : Disk) : Prop :=
  match r with
  | .ok a => Q a d'
  | .error e => d'.files = d.files ∧ (d.failures < d'.failures ∧ ¬ handled e ∨ d'.failures = d.failures ∧ handled e)

/-- What a call that fails reports: an error of its caller's, or one that the caller handles and no one
counts. -/
theorem wp_failed {handled : Errno → Prop} {Q : α → Disk → Prop} {e : Errno} (he : ¬ handled e)
    (rest : List Outcome) :
    wp (failed e : Sys (Except Errno α)) (Reports handled Q d) E { d with outcomes := rest } :=
  ⟨rfl, Or.inl ⟨Nat.lt_succ_self _, he⟩⟩

/-- **A system call** that has no effect on files. -/
theorem call_spec : wp (call : Sys _) (Reports (fun _ => False) (fun _ => Unchanged d) d) E d := by
  rw [call, wp_bind]
  apply wp_next
  intro o rest
  cases o with
  | ok => exact ⟨rfl, rfl⟩
  | fail | short | throws => exact wp_failed (fun h => h) rest

/-- `open` makes the file if it is missing, and empties it if it is to be truncated. -/
theorem openFile_spec (truncate : Bool) :
    wp (openFile path truncate : Sys _) (Reports (fun _ => False) (fun _ d' =>
      d'.files = Function.update d.files path (some (if truncate then .empty else d.file path)) ∧
        d'.failures = d.failures) d) E d := by
  rw [openFile, wp_bind]
  apply wp_next
  intro o rest
  cases o with
  | ok => exact ⟨rfl, rfl⟩
  | fail | short | throws => exact wp_failed (fun h => h) rest

/-- `fstat` finds the size and changes nothing. -/
theorem fstat_spec :
    wp (fstat path : Sys _) (Reports (fun _ => False) (fun n d' => n = (d.file path).size ∧ Unchanged d d') d) E d := by
  rw [fstat, wp_bind]
  apply wp_next
  intro o rest
  cases o with
  | ok => exact ⟨rfl, rfl, rfl⟩
  | fail | short | throws => exact wp_failed (fun h => h) rest

/-- `pread` gives fewer bytes than it is asked for at the end of the file, or where it counts as a
failure. -/
theorem pread_spec {n : ℕ} (hn : 0 < n) :
    wp (pread path n : Sys _) (Reports (fun _ => False) (fun k d' => d'.files = d.files ∧
      (k = min n (d.file path).size ∧ d'.failures = d.failures ∨ k < n ∧ d.failures < d'.failures)) d) E d := by
  rw [pread, wp_bind, wp_get, wp_bind]
  apply wp_next
  intro o rest
  cases o with
  | ok => exact ⟨rfl, Or.inl ⟨rfl, rfl⟩⟩
  | short k =>
    have hlt : min k (min n (d.file path).size - 1) < n := by omega
    exact ⟨rfl, Or.inr ⟨hlt, Nat.lt_succ_self _⟩⟩
  | fail | throws => exact wp_failed (fun h => h) rest

/-- `pwrite` writes all the bytes, or fewer of them, which counts as a failure. -/
theorem pwrite_spec (m : Memory) {n : ℕ} (hn : 0 < n) (h : n < 2 ^ 63) :
    wp (pwrite path m n h : Sys _) (Reports (fun _ => False) (fun k d' => ∃ hk : k ≤ n,
      d'.files = Function.update d.files path (some ((d.file path).write m k (Nat.lt_of_le_of_lt hk h))) ∧
        (k = n ∧ d'.failures = d.failures ∨ k < n ∧ d.failures < d'.failures)) d) E d := by
  rw [pwrite, wp_bind]
  apply wp_next
  intro o rest
  cases o with
  | ok => exact ⟨Nat.le_refl n, rfl, Or.inl ⟨rfl, rfl⟩⟩
  | short k => exact ⟨by omega, rfl, Or.inr ⟨by omega, Nat.lt_succ_self _⟩⟩
  | fail | throws => exact wp_failed (fun h => h) rest

/-- `fallocate` makes the file longer and never shorter. Its caller handles that it is not supported. -/
theorem fallocate_spec (n : ℕ) :
    wp (fallocate path n : Sys _) (Reports (· = .notSupported) (fun _ d' => ∃ h : max (d.file path).size n < 2 ^ 63,
      d'.files = Function.update d.files path (some ((d.file path).resize (max (d.file path).size n) h)) ∧
        d'.failures = d.failures) d) E d := by
  rw [fallocate, wp_bind]
  apply wp_next
  intro o rest
  cases o with
  | ok =>
    by_cases h : 0 < n ∧ n < 2 ^ 63
    · rw [dif_pos h]
      exact ⟨Nat.max_lt.2 ⟨(d.file path).size_lt, h.2⟩, rfl, rfl⟩
    · rw [dif_neg h]
      exact wp_failed nofun rest
  | fail e =>
    cases e with
    | notSupported => exact ⟨rfl, Or.inr ⟨rfl, rfl⟩⟩
    | invalid | other => exact wp_failed nofun rest
  | short | throws => exact wp_failed nofun rest

/-- `ftruncate` gives the file exactly the size it is asked for. -/
theorem ftruncate_spec (n : ℕ) :
    wp (ftruncate path n : Sys _) (Reports (fun _ => False) (fun _ d' => ∃ h : n < 2 ^ 63,
      d'.files = Function.update d.files path (some ((d.file path).resize n h)) ∧
        d'.failures = d.failures) d) E d := by
  rw [ftruncate, wp_bind]
  apply wp_next
  intro o rest
  cases o with
  | ok =>
    by_cases h : n < 2 ^ 63
    · rw [dif_pos h]
      exact ⟨h, rfl, rfl⟩
    · rw [dif_neg h]
      exact wp_failed (fun h => h) rest
  | fail | short | throws => exact wp_failed (fun h => h) rest

/-- `madvise` changes no file, and its caller handles that a kernel does not know the advice. -/
theorem madvise_spec : wp (madvise : Sys _) (Reports (· = .invalid) (fun _ => Unchanged d) d) E d := by
  rw [madvise, wp_bind]
  apply wp_next
  intro o rest
  cases o with
  | ok => exact ⟨rfl, rfl⟩
  | fail e =>
    cases e with
    | invalid => exact ⟨rfl, Or.inr ⟨rfl, rfl⟩⟩
    | notSupported | other => exact wp_failed nofun rest
  | short | throws => exact wp_failed nofun rest

/-- `rename` puts the source in the place of the target. -/
theorem rename_spec (source target : String) :
    wp (rename source target : Sys _) (Reports (fun _ => False) (fun _ d' =>
      d'.files = Function.update (Function.update d.files target (d.files source)) source none ∧
        d'.failures = d.failures) d) E d := by
  rw [rename, wp_bind]
  apply wp_next
  intro o rest
  cases o with
  | ok => exact ⟨rfl, rfl⟩
  | fail | short | throws => exact wp_failed (fun h => h) rest

/-- Only the file itself may go away, and a failure stays counted. -/
theorem unlink_spec :
    wp (unlink path : Sys _) (fun _ d' => (∀ q, q ≠ path → d'.files q = d.files q) ∧ d.failures ≤ d'.failures)
      E d := by
  rw [unlink, wp_bind]
  apply wp_next
  intro o rest
  cases o with
  | ok => exact ⟨fun q hq => files_of_ne rfl hq, Nat.le_refl _⟩
  | fail | short | throws => exact ⟨fun _ _ => rfl, Nat.le_succ _⟩

/-- Code of the user changes no file, and counts as a failure if it throws. -/
theorem userCode_spec :
    wp (userCode : Sys _) (fun r d' => d'.files = d.files ∧
      (r = none ∧ d'.failures = d.failures ∨ (∃ t, r = some t) ∧ d.failures < d'.failures)) E d := by
  rw [userCode, wp_bind]
  apply wp_next
  intro o rest
  cases o with
  | throws std scratch => exact ⟨rfl, Or.inr ⟨⟨_, rfl⟩, Nat.lt_succ_self _⟩⟩
  | ok | fail | short => exact ⟨rfl, Or.inl ⟨rfl, rfl⟩⟩

end Disk

/-! ### The helpers of the code -/

variable {α : Type} {d : Disk} {path : String}

/-- **A checked call** throws what its failure is owed to, with the files as they were. -/
theorem wp_orThrow {e : Error} {m : Sys (Except Disk.Errno α)} {Q : α → Disk → Prop} (he : e.isException = true)
    (h : wp m (Disk.Reports (fun _ => False) Q d) (fun _ _ => False) d) : wp (orThrow e m) Q (Thrown d) d := by
  rw [orThrow]
  refine h.bind (fun _ _ hf => hf.elim) fun r d' hr => ?_
  cases r with
  | ok a => exact hr
  | error x =>
    obtain ⟨hfiles, hcount⟩ := hr
    exact ⟨⟨he, (hcount.resolve_right fun h => h.2).1⟩, hfiles⟩

/-- A check that throws, split on what it finds. -/
theorem wp_throwIf {p : Bool} {e : Error} {Q : Unit → Disk → Prop} {E : Error → Disk → Prop}
    (hp : p = true → E e d) (hn : p = false → Q () d) : wp (throwIf p e) Q E d := by
  cases p with
  | true => exact hp rfl
  | false => exact hn rfl

theorem wp_xcheck {p : Bool} {Q : Unit → Disk → Prop} {E : Error → Disk → Prop} (hp : p = true) (h : Q () d) :
    wp (xcheck p) Q E d := by
  subst hp
  exact h

/-- A file is extended with zeros, by `fallocate` or by `ftruncate`. -/
theorem extendFile_spec {f : File} {n : ℕ} (hf : d.files path = some f) (hn : f.size ≤ n) :
    wp (extendFile path n) (fun _ d' => ∃ f' : File, d'.files = Function.update d.files path (some f') ∧
      f'.Extends f ∧ f'.size = n ∧ d'.failures = d.failures) (Thrown d) d := by
  have hfile := Disk.file_of_files hf
  rw [extendFile]
  refine (Disk.fallocate_spec n (E := fun _ _ => False)).bind (fun _ _ h => h.elim) fun r d₁ hr => ?_
  rw [hfile] at hr
  match r, hr with
  | .ok (), ⟨h, hfiles, hd⟩ =>
    have hmax : max f.size n = n := Nat.max_eq_right hn
    exact ⟨_, hfiles, f.resize_extends h (Nat.le_max_left _ _), hmax, hd⟩
  | .error .notSupported, ⟨hfiles, hcount⟩ =>
    -- `EOPNOTSUPP` is no failure yet: `ftruncate` is tried
    have hd₁ : d₁.failures = d.failures := (hcount.resolve_left fun h => h.2 rfl).1
    have hfile₁ : d₁.file path = f := (Disk.file_congr hfiles).trans hfile
    refine (wp_orThrow rfl (Disk.ftruncate_spec n)).mono ?_ fun e d' h => h.of_unchanged hfiles hd₁
    rintro _ d' ⟨h, hfiles', hd'⟩
    rw [hfile₁, hfiles] at hfiles'
    exact ⟨_, hfiles', f.resize_extends h hn, rfl, hd'.trans hd₁⟩
  | .error .invalid, ⟨hfiles, hcount⟩ =>
    exact ⟨⟨rfl, (hcount.resolve_right fun h => nomatch h.2).1⟩, hfiles⟩
  | .error .other, ⟨hfiles, hcount⟩ =>
    exact ⟨⟨rfl, (hcount.resolve_right fun h => nomatch h.2).1⟩, hfiles⟩

/-- Pre-faulting a range changes nothing in the files, or throws. -/
theorem populateForWrite_spec {addr length : ℕ} (h : addr + length < 2 ^ 64) :
    wp (populateForWrite addr length) (fun _ => Unchanged d) (Thrown d) d := by
  rw [populateForWrite]
  have hcheck : (addr + length) % 2 ^ 64 ≥ addr := by rw [Nat.mod_eq_of_lt h]; omega
  rw [wp_bind]
  refine wp_xcheck (decide_eq_true hcheck) ?_
  refine (Disk.madvise_spec (E := fun _ _ => False)).bind (fun _ _ h => h.elim) fun r d₁ hr => ?_
  match r, hr with
  | .ok (), hd => exact hd
  -- a kernel without `MADV_POPULATE_WRITE`: nothing is populated
  | .error .invalid, ⟨hfiles, hcount⟩ => exact ⟨hfiles, (hcount.resolve_left fun h => h.2 rfl).1⟩
  | .error .notSupported, ⟨hfiles, hcount⟩ =>
    exact ⟨⟨rfl, (hcount.resolve_right fun h => nomatch h.2).1⟩, hfiles⟩
  | .error .other, ⟨hfiles, hcount⟩ => exact ⟨⟨rfl, (hcount.resolve_right fun h => nomatch h.2).1⟩, hfiles⟩

end EdenCommon
