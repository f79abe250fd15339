import EdenCommon.Lib.Linearize
import EdenCommon.Lib.Threads
import EdenCommon.Spec.FileUtils
import Mathlib.Data.Option.Basic

/-!
# Replacing a file at once

A file that is being written has a name that no call asks for, and once it has its own name no one
writes to it again. `Inv` says so, and the point of a call is where the name comes to stand for
another file or where the file is opened. `writeFileAtomic_linearizable`: in every interleaving,
with any failures, the calls act on the files as if each were made in one piece, and what is
read is what one of them wrote.
-/

namespace EdenCommon

namespace FileUtils

open Lib

variable {isTemp : AbsolutePath → Bool} {calls : ℕ → Call} {call : Call} {fs fs' : FileSystem}

/-! ### The files -/

/-- No file has two names if one of them is that of a temporary file. -/
structure FileSystem.Wf (isTemp : AbsolutePath → Bool) (fs : FileSystem) : Prop where
  old : ∀ path f, fs.entries path = some f → f < fs.next
  own : ∀ tmpFile f path, isTemp tmpFile = true → fs.entries tmpFile = some f → fs.entries path = some f → path = tmpFile

/-- No one will write to the file any more. -/
structure FileSystem.Public (isTemp : AbsolutePath → Bool) (fs : FileSystem) (f : FileId) : Prop where
  old : f < fs.next
  name : ∀ tmpFile, isTemp tmpFile = true → fs.entries tmpFile ≠ some f

/-- A file that is found under a public name is in no temporary place. -/
theorem FileSystem.Wf.public (hwf : fs.Wf isTemp) {path : AbsolutePath} {f : FileId} (hpath : isTemp path = false)
    (h : fs.entries path = some f) : fs.Public isTemp f := by
  refine ⟨hwf.old path f h, fun tmpFile ht hentry => ?_⟩
  obtain rfl := hwf.own tmpFile f path ht hentry h
  rw [ht] at hpath
  cases hpath

/-- What a thread does to the files, which works on the temporary file `own` if it has one. -/
structure Keeps (isTemp : AbsolutePath → Bool) (own : Option AbsolutePath) (fs fs' : FileSystem) : Prop where
  wf : fs'.Wf isTemp
  temps : ∀ tmpFile f, isTemp tmpFile = true → own ≠ some tmpFile → fs.entries tmpFile = some f →
    fs'.entries tmpFile = some f ∧ fs'.files f = fs.files f
  pub : ∀ f, fs.Public isTemp f → fs'.Public isTemp f ∧ fs'.files f = fs.files f

/-- A step that leaves the files alone keeps everything. -/
theorem Keeps.refl (hwf : fs.Wf isTemp) (own : Option AbsolutePath) : Keeps isTemp own fs fs :=
  ⟨hwf, fun _ _ _ _ h => ⟨h, rfl⟩, fun _ h => ⟨h, rfl⟩⟩

theorem entries_create (path : AbsolutePath) :
    (fs.create path).entries = Function.update fs.entries path (some fs.next) := rfl

theorem entries_rename (old new : AbsolutePath) (f : FileId) :
    (fs.rename old new f).entries = Function.update (Function.update fs.entries new (some f)) old none := rfl

theorem files_store (f : FileId) (content : Bytes) : (fs.store f content).files f = content :=
  Function.update_self _ _ _

theorem files_rename (old new : AbsolutePath) (f : FileId) : (fs.rename old new f).files = fs.files := rfl

section Create

variable {tmpFile : AbsolutePath} (hwf : fs.Wf isTemp) (ht : isTemp tmpFile = true)
  (hnew : fs.entries tmpFile = none)

/-- A file that is there is not changed by the making of another. -/
theorem files_create_of_lt {f : FileId} (h : f < fs.next) (path : AbsolutePath) :
    (fs.create path).files f = fs.files f :=
  Function.update_of_ne (Nat.ne_of_lt h) _ _

theorem entries_create_of_ne {path path' : AbsolutePath} (h : path' ≠ path) :
    (fs.create path).entries path' = fs.entries path' :=
  Function.update_of_ne h _ _

include hwf hnew

/-- **A temporary file is made**, and no other file or name changes. -/
theorem keeps_create (own : Option AbsolutePath) : Keeps isTemp own fs (fs.create tmpFile) := by
  have hentry : ∀ path f, (fs.create tmpFile).entries path = some f →
      (path = tmpFile ∧ f = fs.next) ∨ (path ≠ tmpFile ∧ fs.entries path = some f) := by
    intro path f h
    by_cases hp : path = tmpFile
    · subst hp
      rw [entries_create, Function.update_self] at h
      exact Or.inl ⟨rfl, (Option.some.inj h).symm⟩
    · rw [entries_create_of_ne hp] at h
      exact Or.inr ⟨hp, h⟩
  refine ⟨⟨fun path f h => ?_, fun t f path hti h hpath => ?_⟩, fun t f _ _ h => ?_, fun f h => ⟨⟨?_, fun t hti hentryt => ?_⟩, ?_⟩⟩
  · obtain ⟨-, rfl⟩ | ⟨-, hold⟩ := hentry path f h
    · exact Nat.lt_succ_self _
    · exact Nat.lt_succ_of_lt (hwf.old path f hold)
  · obtain ⟨rfl, rfl⟩ | ⟨-, hold⟩ := hentry t f h <;> obtain ⟨rfl, hf⟩ | ⟨-, hold'⟩ := hentry path _ hpath
    · rfl
    · exact absurd (hwf.old _ _ hold') (Nat.lt_irrefl _)
    · exact absurd (hwf.old _ _ (hf ▸ hold)) (Nat.lt_irrefl _)
    · exact hwf.own t f path hti hold hold'
  · have hne : t ≠ tmpFile := by
      rintro rfl
      rw [hnew] at h
      cases h
    rw [entries_create_of_ne hne]
    exact ⟨h, files_create_of_lt (hwf.old t f h) tmpFile⟩
  · exact Nat.lt_succ_of_lt h.old
  · obtain ⟨-, rfl⟩ | ⟨-, hold⟩ := hentry t f hentryt
    · exact Nat.lt_irrefl _ h.old
    · exact h.name t hti hold
  · exact files_create_of_lt h.old tmpFile

include ht

/-- What is seen under the public names stays. -/
theorem visible_create : (fs.create tmpFile).visible isTemp = fs.visible isTemp := by
  funext path
  unfold FileSystem.visible
  by_cases hp : isTemp path = true
  · rw [if_pos hp, if_pos hp]
  · have hne : path ≠ tmpFile := by
      rintro rfl
      exact hp ht
    rw [if_neg hp, if_neg hp, entries_create_of_ne hne]
    cases h : fs.entries path with
    | none => rfl
    | some f => exact congrArg some (files_create_of_lt (hwf.old path f h) tmpFile)

end Create

section Own

variable {tmpFile : AbsolutePath} {f : FileId} (hwf : fs.Wf isTemp) (ht : isTemp tmpFile = true)
  (hown : fs.entries tmpFile = some f)
include hwf ht hown

/-- **A temporary file is written**, which no other thread has a name for. -/
theorem keeps_store (content : Bytes) : Keeps isTemp (some tmpFile) fs (fs.store f content) := by
  refine ⟨⟨hwf.old, hwf.own⟩, fun t g hti hne h => ⟨h, Function.update_of_ne ?_ _ _⟩,
    fun g h => ⟨⟨h.old, h.name⟩, Function.update_of_ne ?_ _ _⟩⟩
  · rintro rfl
    exact hne (congrArg some (hwf.own t g tmpFile hti h hown))
  · rintro rfl
    exact h.name tmpFile ht hown

/-- No one sees what is written into a temporary file. -/
theorem visible_store (content : Bytes) : (fs.store f content).visible isTemp = fs.visible isTemp := by
  funext path
  unfold FileSystem.visible
  by_cases hp : isTemp path = true
  · rw [if_pos hp, if_pos hp]
  · rw [if_neg hp, if_neg hp]
    show (fs.entries path).map (Function.update fs.files f content) = _
    cases h : fs.entries path with
    | none => rfl
    | some g =>
      have hne : g ≠ f := by
        rintro rfl
        rw [hwf.own tmpFile g path ht hown h] at hp
        exact hp ht
      exact congrArg some (Function.update_of_ne hne _ _)

variable {path : AbsolutePath} (hpath : isTemp path = false)
include hpath

omit hwf hown in
/-- A public name is not that of the temporary file. -/
theorem temp_ne : path ≠ tmpFile := by
  rintro rfl
  rw [ht] at hpath
  cases hpath

/-- **The temporary file is moved** to the public name. -/
theorem keeps_rename : Keeps isTemp (some tmpFile) fs (fs.rename tmpFile path f) := by
  have hentry : ∀ p g, (fs.rename tmpFile path f).entries p = some g →
      p ≠ tmpFile ∧ ((p = path ∧ g = f) ∨ fs.entries p = some g) := by
    intro p g h
    rw [entries_rename, Function.update_apply] at h
    split at h
    · cases h
    · rename_i hne
      rw [Function.update_apply] at h
      split at h
      · rename_i hp
        exact ⟨hne, Or.inl ⟨hp, (Option.some.inj h).symm⟩⟩
      · exact ⟨hne, Or.inr h⟩
  have htemp : ∀ t, isTemp t = true → t ≠ tmpFile → (fs.rename tmpFile path f).entries t = fs.entries t := by
    intro t hti hne
    have hne' : t ≠ path := by
      rintro rfl
      rw [hti] at hpath
      cases hpath
    rw [entries_rename, Function.update_of_ne hne, Function.update_of_ne hne']
  refine ⟨⟨fun p g h => ?_, fun t g p hti h hp => ?_⟩, fun t g hti hne h => ⟨?_, rfl⟩,
    fun g h => ⟨⟨h.old, fun t hti hentryt => ?_⟩, rfl⟩⟩
  · obtain ⟨-, ⟨-, rfl⟩ | hold⟩ := hentry p g h
    · exact hwf.old tmpFile g hown
    · exact hwf.old p g hold
  · obtain ⟨hne, -⟩ := hentry t g h
    rw [htemp t hti hne] at h
    obtain ⟨-, ⟨-, rfl⟩ | hold⟩ := hentry p g hp
    · exact absurd (hwf.own tmpFile g t ht hown h) hne
    · exact hwf.own t g p hti h hold
  · have hne' : t ≠ tmpFile := fun he => hne (congrArg some he.symm)
    rw [htemp t hti hne', h]
  · obtain ⟨hne, -⟩ := hentry t g hentryt
    rw [htemp t hti hne] at hentryt
    exact h.name t hti hentryt

omit hwf in
/-- The move is seen, with the whole content at once. -/
theorem visible_rename : (fs.rename tmpFile path f).visible isTemp =
    Function.update (fs.visible isTemp) path (some (fs.files f)) := by
  funext p
  by_cases hp : p = path
  · subst hp
    rw [Function.update_self, FileSystem.visible, hpath, entries_rename, Function.update_of_ne (temp_ne ht hpath),
      Function.update_self]
    rfl
  · rw [Function.update_of_ne hp]
    unfold FileSystem.visible
    by_cases hpt : isTemp p = true
    · rw [if_pos hpt, if_pos hpt]
    · have hne : p ≠ tmpFile := by
        rintro rfl
        exact hpt ht
      rw [if_neg hpt, if_neg hpt, entries_rename, files_rename, Function.update_of_ne hne, Function.update_of_ne hp]

end Own

/-! ### The threads -/

/-- The temporary file that a thread works on. -/
def Thread.temp? : Thread → Option AbsolutePath
  | .openTemp tmpFile => some tmpFile
  | .write tmpFile _ => some tmpFile
  | .move tmpFile => some tmpFile
  | _ => none

/-- What a thread relies on where it stands. -/
def Good (isTemp : AbsolutePath → Bool) (fs : FileSystem) (call : Call) (found : Option (Option Bytes)) : Thread → Prop
  | .idle => found = none
  | .openTemp tmpFile => isTemp tmpFile = true ∧ (∃ f, fs.entries tmpFile = some f) ∧ found = none
  | .write tmpFile fileHandle =>
    isTemp tmpFile = true ∧ (fs.entries tmpFile = some fileHandle ∧ fs.files fileHandle = []) ∧ found = none
  | .move tmpFile => isTemp tmpFile = true ∧
    (∃ path f, fs.entries tmpFile = some f ∧ call = .writeFileAtomic path (fs.files f)) ∧ found = none
  | .getSize f => fs.Public isTemp f ∧ found = some (some (fs.files f)) ∧
    ∀ path num_bytes, call = .readFile path num_bytes → num_bytes = kSizeMax
  | .read f n => fs.Public isTemp f ∧ found = some (some (fs.files f)) ∧
    ∀ path num_bytes, call = .readFile path num_bytes → (fs.files f).take n = (fs.files f).take num_bytes
  | .returned result => result.Fits found call

/-- The temporary file of a call that is under way is there. -/
theorem Good.temp {found : Option (Option Bytes)} {t : Thread} (h : Good isTemp fs call found t) {tmpFile : AbsolutePath}
    (ht : t.temp? = some tmpFile) : isTemp tmpFile = true ∧ ∃ f, fs.entries tmpFile = some f := by
  cases t with
  | openTemp t =>
    obtain rfl := Option.some.inj ht
    exact ⟨h.1, h.2.1⟩
  | write t fileHandle =>
    obtain rfl := Option.some.inj ht
    exact ⟨h.1, fileHandle, h.2.1.1⟩
  | move t =>
    obtain rfl := Option.some.inj ht
    obtain ⟨hti, ⟨-, f, hf, -⟩, -⟩ := h
    exact ⟨hti, f, hf⟩
  | _ => cases ht

/-- What the others do does not disturb a thread. -/
theorem Good.keep {found : Option (Option Bytes)} {own : Option AbsolutePath} {t : Thread}
    (h : Good isTemp fs call found t) (hkeep : Keeps isTemp own fs fs') (hown : ∀ tmpFile, t.temp? = some tmpFile → own ≠ some tmpFile) :
    Good isTemp fs' call found t := by
  cases t with
  | idle => exact h
  | openTemp tmpFile =>
    obtain ⟨hti, ⟨f, hf⟩, hfound⟩ := h
    exact ⟨hti, ⟨f, (hkeep.temps tmpFile f hti (hown _ rfl) hf).1⟩, hfound⟩
  | write tmpFile f =>
    obtain ⟨hti, ⟨hf, hempty⟩, hfound⟩ := h
    obtain ⟨hentry, hfile⟩ := hkeep.temps tmpFile f hti (hown _ rfl) hf
    exact ⟨hti, ⟨hentry, hfile.trans hempty⟩, hfound⟩
  | move tmpFile =>
    obtain ⟨hti, ⟨path, f, hf, hcall⟩, hfound⟩ := h
    obtain ⟨hentry, hfile⟩ := hkeep.temps tmpFile f hti (hown _ rfl) hf
    exact ⟨hti, ⟨path, f, hentry, by rw [hfile]; exact hcall⟩, hfound⟩
  | getSize f =>
    obtain ⟨hpub, hfile⟩ := hkeep.pub f h.1
    exact ⟨hpub, by rw [hfile]; exact h.2.1, h.2.2⟩
  | read f n =>
    obtain ⟨hpub, hfile⟩ := hkeep.pub f h.1
    exact ⟨hpub, by rw [hfile]; exact h.2.1, by rw [hfile]; exact h.2.2⟩
  | returned result => exact h

/-! ### The calls in one piece -/

structure Inv (isTemp : AbsolutePath → Bool) (calls : ℕ → Call) (contents₀ : AbsolutePath → Option Bytes) (s : Machine) :
    Prop where
  wf : s.fs.Wf isTemp
  good : ∀ i t, s.threads[i]? = some t → Good isTemp s.fs (calls i) (s.found i) t
  distinct : ∀ (i j : ℕ) (t u : Thread) (tmpFile : AbsolutePath), s.threads[i]? = some t → s.threads[j]? = some u →
    t.temp? = some tmpFile → u.temp? = some tmpFile → i = j
  linearizes : Linearizes (fun contents i => (calls i).atomic contents) contents₀ (s.fs.visible isTemp) s.order s.found

variable {contents₀ : AbsolutePath → Option Bytes} {s s' : Machine} {i : ℕ} {t t' : Thread}

/-- Before the first step nothing has been done. -/
theorem inv_init (calls : ℕ → Call) (hwf : fs.Wf isTemp) (n : ℕ) :
    Inv isTemp calls (fs.visible isTemp) (Machine.init fs n) := by
  have hidle : ∀ (i : ℕ) (t : Thread), (Machine.init fs n).threads[i]? = some t → t = .idle := by
    intro i t ht
    rw [Machine.init, List.getElem?_replicate] at ht
    split at ht
    · exact (Option.some.inj ht).symm
    · cases ht
  refine ⟨hwf, fun i t ht => ?_, fun i j t u tmpFile ht _ htemp => ?_, Linearizes.nil _ _⟩
  · obtain rfl := hidle i t ht
    rfl
  · obtain rfl := hidle i t ht
    cases htemp

/-- The invariant behind a step of thread `i`, from what the thread does to the files. -/
theorem Inv.next (hinv : Inv isTemp calls contents₀ s) (hi : s.threads[i]? = some t)
    (hthreads : s'.threads = s.threads.set i t') (hkeep : Keeps isTemp t.temp? s.fs s'.fs)
    (hfound : ∀ j, j ≠ i → s'.found j = s.found j)
    (htemp : ∀ tmpFile, t'.temp? = some tmpFile → t.temp? = some tmpFile ∨ s.fs.entries tmpFile = none)
    (hgood : Good isTemp s'.fs (calls i) (s'.found i) t')
    (hlin : Linearizes (fun contents i => (calls i).atomic contents) contents₀ (s'.fs.visible isTemp) s'.order s'.found) :
    Inv isTemp calls contents₀ s' := by
  have hself : s'.threads[i]? = some t' := by
    rw [hthreads, List.getElem?_set_self (List.getElem?_eq_some_iff.1 hi).1]
  have hother : ∀ j, j ≠ i → s'.threads[j]? = s.threads[j]? := by
    intro j hj
    rw [hthreads, List.getElem?_set_ne (Ne.symm hj)]
  -- no other thread works on a file that thread `i` works on now
  have halone : ∀ j u tmpFile, j ≠ i → s.threads[j]? = some u → u.temp? = some tmpFile → t'.temp? ≠ some tmpFile := by
    intro j u tmpFile hj hu hutemp ht'
    obtain htt | hnone := htemp tmpFile ht'
    · exact hj (hinv.distinct j i u t tmpFile hu hi hutemp htt)
    · obtain ⟨-, f, hf⟩ := (hinv.good j u hu).temp hutemp
      rw [hnone] at hf
      cases hf
  refine ⟨hkeep.wf, fun j u hu => ?_, fun j k u v tmpFile hu hv hutemp hvtemp => ?_, hlin⟩
  · by_cases hj : j = i
    · subst hj
      rw [hself] at hu
      obtain rfl := Option.some.inj hu
      exact hgood
    · rw [hother j hj] at hu
      rw [hfound j hj]
      exact (hinv.good j u hu).keep hkeep fun tmpFile hutemp ht => hj (hinv.distinct j i u t tmpFile hu hi hutemp ht)
  · by_cases hj : j = i <;> by_cases hk : k = i
    · rw [hj, hk]
    · rw [hj, hself] at hu
      rw [hother k hk] at hv
      obtain rfl := Option.some.inj hu
      exact absurd hutemp (halone k v tmpFile hk hv hvtemp)
    · rw [hother j hj] at hu
      rw [hk, hself] at hv
      obtain rfl := Option.some.inj hv
      exact absurd hvtemp (halone j u tmpFile hj hu hutemp)
    · rw [hother j hj] at hu
      rw [hother k hk] at hv
      exact hinv.distinct j k u v tmpFile hu hv hutemp hvtemp

/-- What a step keeps. -/
structure Goes (isTemp : AbsolutePath → Bool) (calls : ℕ → Call) (contents₀ : AbsolutePath → Option Bytes)
    (s s' : Machine) : Prop where
  inv : Inv isTemp calls contents₀ s'
  order : s.order <+: s'.order

/-- A step that no call sees. -/
theorem Inv.silent (hinv : Inv isTemp calls contents₀ s) (hi : s.threads[i]? = some t)
    (hkeep : Keeps isTemp t.temp? s.fs fs') (hvisible : fs'.visible isTemp = s.fs.visible isTemp)
    (htemp : ∀ tmpFile, t'.temp? = some tmpFile → t.temp? = some tmpFile ∨ s.fs.entries tmpFile = none)
    (hgood : Good isTemp fs' (calls i) (s.found i) t') :
    Goes isTemp calls contents₀ s { s.setThread i t' with fs := fs' } := by
  refine ⟨hinv.next hi rfl hkeep (fun _ _ => rfl) htemp hgood ?_, List.prefix_refl _⟩
  show Linearizes _ _ (fs'.visible isTemp) s.order s.found
  rw [hvisible]
  exact hinv.linearizes

/-- A step that leaves the files alone. -/
theorem Inv.quiet (hinv : Inv isTemp calls contents₀ s) (hi : s.threads[i]? = some t)
    (htemp : ∀ tmpFile, t'.temp? = some tmpFile → t.temp? = some tmpFile)
    (hgood : Good isTemp s.fs (calls i) (s.found i) t') : Goes isTemp calls contents₀ s (s.setThread i t') :=
  hinv.silent hi (Keeps.refl hinv.wf _) rfl (fun tmpFile h => Or.inl (htemp tmpFile h)) hgood

/-- The step to the point of a call. -/
theorem Inv.at_point (hinv : Inv isTemp calls contents₀ s) (hi : s.threads[i]? = some t) (hnone : s.found i = none)
    {content : Option Bytes} (hkeep : Keeps isTemp t.temp? s.fs fs')
    (hatomic : (calls i).atomic (s.fs.visible isTemp) = (fs'.visible isTemp, content)) (htemp : t'.temp? = none)
    (hgood : Good isTemp fs' (calls i) (some content) t') :
    Goes isTemp calls contents₀ s { (s.point i content).setThread i t' with fs := fs' } := by
  have hself : Function.update s.found i (some content) i = some content := Function.update_self _ _ _
  refine ⟨hinv.next hi rfl hkeep (fun j hj => Function.update_of_ne hj _ _) (fun tmpFile h => ?_) ?_ ?_,
    List.prefix_append _ _⟩
  · rw [htemp] at h
    cases h
  · show Good isTemp fs' (calls i) (Function.update s.found i (some content) i) t'
    rw [hself]
    exact hgood
  · have hafter : Function.update s.found i (some content) i = some ((calls i).atomic (s.fs.visible isTemp)).2 := by
      rw [hself, hatomic]
    have hpoint := hinv.linearizes.point hnone hafter fun j hj => Function.update_of_ne hj _ _
    rwa [hatomic] at hpoint

/-- **A file is opened for reading**: this is the point of the call, as far as it comes to a result. -/
theorem Inv.openRead (hinv : Inv isTemp calls contents₀ s) (hi : s.threads[i]? = some .idle)
    {path : AbsolutePath} (hpath : isTemp path = false) {answer : Answer} {next : FileId → Thread}
    (hcall : ∀ contents, (calls i).atomic contents = (contents, contents path))
    (herror : ∀ e found, Result.Fits found (calls i) (.error e))
    (htemp : ∀ f, (next f).temp? = none)
    (hgood : ∀ f, s.fs.Public isTemp f → Good isTemp s.fs (calls i) (some (some (s.fs.files f))) (next f))
    (h : FileUtils.openRead s i path answer next = some s') : Goes isTemp calls contents₀ s s' := by
  cases answer with
  | named tmpFile => cases h
  | fails code written =>
    obtain rfl := Option.some.inj h
    exact hinv.quiet hi (fun tmpFile h => by cases h) (herror _ _)
  | succeeds =>
    obtain ⟨f, hf, rfl⟩ := Option.map_eq_some_iff.1 h
    refine hinv.at_point hi (hinv.good i _ hi) (Keeps.refl hinv.wf _) ?_ (htemp f) (hgood f (hinv.wf.public hpath hf))
    rw [hcall, FileSystem.visible, hpath, hf]
    rfl

/-- A read has no temporary file. -/
theorem readSized_temp (f : FileId) (n : ℕ) : (readSized f n).temp? = none := by
  unfold readSized
  split <;> rfl

/-- What `readFile` goes on with is right if the length is. -/
theorem good_readSized {path : AbsolutePath} {num_bytes n : ℕ} {f : FileId} (hpub : fs.Public isTemp f)
    (htake : n ≤ kDwordMax → (fs.files f).take n = (fs.files f).take num_bytes) :
    Good isTemp fs (.readFile path num_bytes) (some (some (fs.files f))) (readSized f n) := by
  unfold readSized
  split
  · trivial
  · rename_i hle
    refine ⟨hpub, rfl, fun path' num_bytes' hcall => ?_⟩
    obtain ⟨-, rfl⟩ := Call.readFile.inj hcall
    exact htake (Nat.le_of_not_lt hle)

/-- A file that is there is emptied, and keeps its number. -/
theorem openWrite_eq {tmpFile : AbsolutePath} {f : FileId} (hf : fs.entries tmpFile = some f) :
    openWrite fs tmpFile = (fs.store f [], f) := by
  unfold openWrite
  rw [hf]

section Step

variable {answer : Answer} (hinv : Inv isTemp calls contents₀ s) (hi : s.threads[i]? = some t)
include hinv hi

/-- **The steps of a write.** The point of the call is the rename; a call that fails has none. -/
theorem Inv.writeFileAtomic {path : AbsolutePath} {data : Bytes} (hcall : calls i = .writeFileAtomic path data)
    (hpath : isTemp path = false) (h : proceed isTemp s i (.writeFileAtomic path data) answer t = some s') :
    Goes isTemp calls contents₀ s s' := by
  have hgood := hinv.good i t hi
  rw [hcall] at hgood
  -- a call that fails has done nothing to the files that are asked for
  have hfail : ∀ {e : Error}, s.found i = none → Good isTemp s.fs (calls i) (s.found i) (.returned (.error e)) := by
    intro e hnone
    rw [hcall, hnone]
    rfl
  cases t with
  | idle =>
    cases answer with
    | succeeds => cases h
    | fails code written =>
      obtain rfl := Option.some.inj h
      exact hinv.quiet hi (fun _ h => by cases h) (hfail hgood)
    | named tmpFile =>
      rw [proceed, Option.ite_none_right_eq_some] at h
      obtain ⟨⟨hti, hnew⟩, h⟩ := h
      obtain rfl := Option.some.inj h
      refine hinv.silent hi (keeps_create hinv.wf hnew _) (visible_create hinv.wf hti hnew) ?_ ⟨hti, ⟨s.fs.next, ?_⟩, hgood⟩
      · intro tmpFile' h
        obtain rfl := Option.some.inj h
        exact Or.inr hnew
      · rw [entries_create, Function.update_self]
  | openTemp tmpFile =>
    obtain ⟨hti, ⟨f, hf⟩, hnone⟩ := hgood
    cases answer with
    | named tmpFile' => cases h
    | fails code written =>
      obtain rfl := Option.some.inj h
      exact hinv.quiet hi (fun _ h => by cases h) (hfail hnone)
    | succeeds =>
      rw [proceed, openWrite_eq hf] at h
      obtain rfl := Option.some.inj h
      exact hinv.silent hi (keeps_store hinv.wf hti hf []) (visible_store hinv.wf hti hf []) (fun _ h => Or.inl h)
        ⟨hti, ⟨hf, Function.update_self _ _ _⟩, hnone⟩
  | write tmpFile f =>
    obtain ⟨hti, ⟨hf, hempty⟩, hnone⟩ := hgood
    by_cases hbig : kDwordMax < data.length
    · have hquiet : some (s.setThread i (.returned (.error
          (.invalidArgument "files over 4GB can't be written to, size=" data.length)))) = some s' := by
        cases answer <;> simpa only [proceed, if_pos hbig] using h
      obtain rfl := Option.some.inj hquiet
      exact hinv.quiet hi (fun _ h => by cases h) (hfail hnone)
    · cases answer with
      | named tmpFile' =>
        rw [proceed, if_neg hbig] at h
        cases h
      | fails code written =>
        rw [proceed, if_neg hbig] at h
        obtain rfl := Option.some.inj h
        refine hinv.silent hi (keeps_store hinv.wf hti hf _) (visible_store hinv.wf hti hf _) (fun _ h => by cases h) ?_
        exact hfail hnone
      | succeeds =>
        rw [proceed, if_neg hbig] at h
        obtain rfl := Option.some.inj h
        refine hinv.silent hi (keeps_store hinv.wf hti hf _) (visible_store hinv.wf hti hf _) (fun _ h => Or.inl h)
          ⟨hti, ⟨path, f, hf, ?_⟩, hnone⟩
        rw [hcall, files_store, hempty, List.drop_nil, List.append_nil]
  | move tmpFile =>
    obtain ⟨hti, ⟨path', f, hf, hdata⟩, hnone⟩ := hgood
    obtain ⟨-, rfl⟩ := Call.writeFileAtomic.inj hdata
    cases answer with
    | named tmpFile' => cases h
    | fails code written =>
      obtain rfl := Option.some.inj h
      exact hinv.quiet hi (fun _ h => by cases h) (hfail hnone)
    | succeeds =>
      rw [proceed, hf] at h
      obtain rfl := Option.some.inj h
      refine hinv.at_point hi hnone (keeps_rename hinv.wf hti hf hpath) ?_ rfl ?_
      · rw [hcall, visible_rename hti hf hpath]
        rfl
      · rw [hcall]
        rfl
  | getSize f => cases answer <;> cases h
  | read f n => cases answer <;> cases h
  | returned result => cases answer <;> cases h

/-- **The steps of a read.** Its content is that of the moment when it was opened. -/
theorem Inv.readFile {path : AbsolutePath} {num_bytes : ℕ} (hcall : calls i = .readFile path num_bytes)
    (hpath : isTemp path = false) (h : proceed isTemp s i (.readFile path num_bytes) answer t = some s') :
    Goes isTemp calls contents₀ s s' := by
  have hgood := hinv.good i t hi
  have herror : ∀ e found, Result.Fits found (calls i) (.error e) := by
    intro e found
    rw [hcall]
    trivial
  cases t with
  | idle =>
    rw [proceed] at h
    refine hinv.openRead hi hpath (by rw [hcall]; exact fun _ => rfl) herror (fun f => ?_) (fun f hpub => ?_) h
    · split
      · rfl
      · exact readSized_temp f num_bytes
    · rw [hcall]
      split
      · rename_i hmax
        refine ⟨hpub, rfl, fun path' num_bytes' h => ?_⟩
        obtain ⟨-, rfl⟩ := Call.readFile.inj h
        exact hmax
      · exact good_readSized hpub fun _ => rfl
  | getSize f =>
    obtain ⟨hpub, hfound, hmax⟩ := hgood
    cases answer with
    | named tmpFile => cases h
    | fails code written =>
      obtain rfl := Option.some.inj h
      exact hinv.quiet hi (fun _ h => by cases h) (herror _ _)
    | succeeds =>
      obtain rfl := Option.some.inj h
      refine hinv.quiet hi (fun tmpFile h => ?_) ?_
      · rw [readSized_temp] at h
        cases h
      · rw [hcall, hfound]
        refine good_readSized hpub fun hle => ?_
        have hlen : (s.fs.files f).length ≤ num_bytes := by
          rw [hmax path num_bytes hcall, kSizeMax]
          rw [kDwordMax] at hle
          omega
        rw [List.take_length, List.take_of_length_le hlen]
  | read f n =>
    obtain ⟨hpub, hfound, htake⟩ := hgood
    cases answer with
    | named tmpFile => cases h
    | fails code written =>
      obtain rfl := Option.some.inj h
      exact hinv.quiet hi (fun _ h => by cases h) (herror _ _)
    | succeeds =>
      obtain rfl := Option.some.inj h
      refine hinv.quiet hi (fun _ h => by cases h) ?_
      rw [hcall, hfound]
      exact ⟨s.fs.files f, rfl, htake path num_bytes hcall⟩
  | openTemp tmpFile => cases answer <;> cases h
  | write tmpFile f => cases answer <;> cases h
  | move tmpFile => cases answer <;> cases h
  | returned result => cases answer <;> cases h

/-- **The steps of a query for the size.** -/
theorem Inv.getMaterializedFileSize {path : AbsolutePath} (hcall : calls i = .getMaterializedFileSize path)
    (hpath : isTemp path = false) (h : proceed isTemp s i (.getMaterializedFileSize path) answer t = some s') :
    Goes isTemp calls contents₀ s s' := by
  have hgood := hinv.good i t hi
  have herror : ∀ e found, Result.Fits found (calls i) (.error e) := by
    intro e found
    rw [hcall]
    trivial
  cases t with
  | idle =>
    rw [proceed] at h
    refine hinv.openRead hi hpath (by rw [hcall]; exact fun _ => rfl) herror (fun f => rfl) (fun f hpub => ?_) h
    rw [hcall]
    exact ⟨hpub, rfl, fun path' num_bytes h => by cases h⟩
  | getSize f =>
    obtain ⟨-, hfound, -⟩ := hgood
    cases answer with
    | named tmpFile => cases h
    | fails code written =>
      obtain rfl := Option.some.inj h
      exact hinv.quiet hi (fun _ h => by cases h) (herror _ _)
    | succeeds =>
      obtain rfl := Option.some.inj h
      refine hinv.quiet hi (fun _ h => by cases h) ?_
      rw [hcall, hfound]
      exact ⟨s.fs.files f, rfl, rfl⟩
  | openTemp tmpFile => cases answer <;> cases h
  | write tmpFile f => cases answer <;> cases h
  | move tmpFile => cases answer <;> cases h
  | read f n => cases answer <;> cases h
  | returned result => cases answer <;> cases h

end Step

/-- Every step of every thread keeps the invariant, and appends to the order at most. -/
theorem Inv.step (hinv : Inv isTemp calls contents₀ s) (hpaths : ∀ i, isTemp (calls i).path = false) {op : ℕ × Answer}
    (h : FileUtils.step isTemp calls s op = some s') : Goes isTemp calls contents₀ s s' := by
  obtain ⟨i, answer⟩ := op
  obtain ⟨t, hi, h⟩ := Option.bind_eq_some_iff.1 h
  have hpath := hpaths i
  dsimp only at h
  cases hcall : calls i with
  | writeFileAtomic path data =>
    rw [hcall] at h hpath
    exact hinv.writeFileAtomic hi hcall hpath h
  | readFile path num_bytes =>
    rw [hcall] at h hpath
    exact hinv.readFile hi hcall hpath h
  | getMaterializedFileSize path =>
    rw [hcall] at h hpath
    exact hinv.getMaterializedFileSize hi hcall hpath h

/-- So does every run. -/
theorem run_goes (hpaths : ∀ i, isTemp (calls i).path = false) (hinv : Inv isTemp calls contents₀ s)
    (ops : List (ℕ × Answer)) (h : run (FileUtils.step isTemp calls) s ops = some s') :
    Goes isTemp calls contents₀ s s' := by
  refine run_invariant (I := Goes isTemp calls contents₀ s) ⟨hinv, List.prefix_refl _⟩ (fun _ _ _ hgoes hs => ?_) ops h
  have hstep := hgoes.inv.step hpaths hs
  exact ⟨hstep.inv, hgoes.order.trans hstep.order⟩

/-- **Files are replaced at once.** In every interleaving, with any failures, what the files hold
and what the calls find is as if the calls that took place were made in one piece, one after the
other in some order. A write that returns an error has not taken place, and a call that took
place and returned before another begins comes before it. -/
theorem writeFileAtomic_linearizable (isTemp : AbsolutePath → Bool) (calls : ℕ → Call) (fs : FileSystem) (n : ℕ)
    (ops ops' : List (ℕ × Answer)) (s s' : Machine) (hpaths : ∀ i, isTemp (calls i).path = false)
    (hwf : fs.Wf isTemp) (h : run (FileUtils.step isTemp calls) (Machine.init fs n) ops = some s)
    (h' : run (FileUtils.step isTemp calls) s ops' = some s') :
    Linearizes (fun contents i => (calls i).atomic contents) (fs.visible isTemp) (s'.fs.visible isTemp) s'.order s'.found ∧
      (∀ (i : ℕ) (result : Result), s'.threads[i]? = some (.returned result) → result.Fits (s'.found i) (calls i)) ∧
      ∀ (i j : ℕ) (result : Result) (before after : List ℕ), s.threads[i]? = some (.returned result) → (s.found i).isSome →
        s.threads[j]? = some .idle → s'.order = before ++ j :: after → i ∈ before := by
  have hinv := (run_goes hpaths (inv_init calls hwf n) ops h).inv
  obtain ⟨hinv', horder⟩ := run_goes hpaths hinv ops' h'
  refine ⟨hinv'.linearizes, fun i result hi => hinv'.good i _ hi, fun i j result before after _ hi hj hsplit => ?_⟩
  have hidle : s.found j = none := hinv.good j _ hj
  refine mem_before horder (hinv.linearizes.mem_iff.2 hi) (fun hmem => ?_) hsplit
  have hsome := hinv.linearizes.mem_iff.1 hmem
  rw [hidle] at hsome
  cases hsome

def atomicPath : AbsolutePath := ⟨[0x2F, 0x61]⟩

def atomicTemp (k : UInt8) : AbsolutePath := ⟨[0x2F, 0x7E, k]⟩

/-- The names that begin with a tilde are those of temporary files. -/
def tildeNames (path : AbsolutePath) : Bool := path.path_[1]? = some 0x7E

def atomicFiles : FileSystem where
  files := fun _ => [1]
  entries := fun path => if path = atomicPath then some 0 else none
  next := 1

/-- A write, a read in the middle of it, a write that fails, and a read. -/
def atomicCalls : ℕ → Call
  | 0 => .writeFileAtomic atomicPath [2, 3]
  | 1 => .readFile atomicPath kSizeMax
  | 2 => .writeFileAtomic atomicPath [4]
  | _ => .readFile atomicPath 1

def atomicRun : List (ℕ × Answer) :=
  [(0, .named (atomicTemp 0)), (0, .succeeds), (1, .succeeds), (0, .succeeds), (0, .succeeds), (1, .succeeds),
    (1, .succeeds), (2, .named (atomicTemp 0)), (2, .succeeds)]

theorem atomicFiles_wf : atomicFiles.Wf tildeNames := by
  have hentry : ∀ path f, atomicFiles.entries path = some f → path = atomicPath ∧ f = 0 := by
    intro path f h
    rw [atomicFiles] at h
    dsimp only at h
    split at h
    · rename_i hp
      exact ⟨hp, (Option.some.inj h).symm⟩
    · cases h
  refine ⟨fun path f h => ?_, fun t f path ht h hpath => ?_⟩
  · obtain ⟨-, rfl⟩ := hentry path f h
    exact Nat.one_pos
  · rw [(hentry t f h).1, (hentry path f hpath).1]

theorem atomicCalls_path (i : ℕ) : tildeNames (atomicCalls i).path = false := by
  match i with
  | 0 | 1 | 2 | n + 3 => rfl

theorem atomicRun_linearizable : ∃ s s',
    run (FileUtils.step tildeNames atomicCalls) (Machine.init atomicFiles 4) atomicRun = some s ∧
      run (FileUtils.step tildeNames atomicCalls) s [(2, .fails 5 0), (3, .succeeds), (3, .succeeds)] = some s' ∧
      s'.threads = [.returned .done, .returned (.bytes [1]),
        .returned (.error (.win32 5 "couldn't write " (atomicTemp 0))), .returned (.bytes [2])] ∧
      Linearizes (fun contents i => (atomicCalls i).atomic contents) (atomicFiles.visible tildeNames)
        (s'.fs.visible tildeNames) s'.order s'.found := by
  refine ⟨_, _, rfl, rfl, by decide +kernel, ?_⟩
  exact (writeFileAtomic_linearizable tildeNames atomicCalls atomicFiles 4 atomicRun
    [(2, .fails 5 0), (3, .succeeds), (3, .succeeds)] _ _ atomicCalls_path atomicFiles_wf rfl rfl).1

end FileUtils

end EdenCommon
