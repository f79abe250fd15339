import EdenCommon.Proof.MappedDiskVector

/-!
# Creating and migrating vectors

The constructor maps a file that it only pads to whole pages. A new vector is empty. A
migration builds the vector of the converted entries in the temporary file, one entry
after the other, and renames it over the original, which is not touched before: what
fails on the way leaves a file that stores the same entries.

* `initializeFromScratch_spec`, `createOrOverwrite_spec`: a new vector is empty and takes
  the place of whatever was there.
* `migrateEntries_spec`: the loop, with the first `i` entries converted.
* `migrateFirst_spec`, `cleanup_spec`: one migration, and the handler that a failure on the
  way comes to.
* `migrateFrom_spec`: the chain of migrators from any old version, one level after the
  other.
-/

namespace EdenCommon

open Lib

-- the goals below are never to be evaluated
attribute [local irreducible] wp

namespace MappedDiskVector

variable {R : RecordType} {f f' : File} {es : List R.Value} {d d' : Disk} {path : String}

/-! ### The constructor -/

/-- The callback of `open` does not touch the files; what it throws is counted. -/
def LeavesFiles (afterMmap : Option (Sys Unit)) : Prop :=
  ∀ d, wp (afterMmap.getD (pure ())) (fun _ => Unchanged d) (Thrown d) d

theorem leavesFiles_none : LeavesFiles none := by
  intro d
  rw [Option.getD_none, wp_pure]
  exact ⟨rfl, rfl⟩

/-- The file `f` at `path` is as it was, or was padded to whole pages. -/
def Padded (path : String) (f : File) (d : Disk) : Prop :=
  ∃ f', d.files path = some f' ∧ f'.Extends f ∧ (f'.size = f.size ∨ f'.size = roundUpToNonzeroPageSize f.size)

theorem Padded.refl (hf : d.files path = some f) : Padded path f d := ⟨f, hf, .refl f, Or.inl rfl⟩

/-- Padding is a matter of the one file. -/
theorem Padded.congr (h : Padded path f d) (hd : d'.files path = d.files path) : Padded path f d' := by
  obtain ⟨f', hf', hext, hsize⟩ := h
  exact ⟨f', hd.trans hf', hext, hsize⟩

/-- The other files are as they were. -/
def Frame (path : String) (d d' : Disk) : Prop := ∀ q, q ≠ path → d'.files q = d.files q

theorem Frame.of_files (h : d'.files = d.files) : Frame path d d' := fun q _ => congrFun h q

/-- Other files stay the same over two steps. -/
theorem Frame.trans {d₁ : Disk} (h : Frame path d d₁) (h' : Frame path d₁ d') : Frame path d d' :=
  fun q hq => (h' q hq).trans (h q hq)

/-- A vector on another file is not touched. -/
theorem Holds.of_frame {v : MappedDiskVector R} (h : Holds d v es) (hframe : Frame path d d') (hne : v.file_ ≠ path) :
    Holds d' v es := by
  obtain ⟨f, hf, hs, hm⟩ := h
  exact ⟨f, (hframe _ hne).trans hf, hs, hm⟩

/-- The file is padded if it is not a number of pages yet. -/
theorem pad_spec (hf : d.files path = some f) :
    wp (if f.size ≠ roundUpToNonzeroPageSize f.size then extendFile path (roundUpToNonzeroPageSize f.size)
      else pure ())
      (fun _ d' => ∃ f' : File, d'.files path = some f' ∧ f'.Extends f ∧ f'.size = roundUpToNonzeroPageSize f.size ∧
        Frame path d d' ∧ d'.failures = d.failures)
      (Thrown d) d := by
  by_cases hsize : f.size = roundUpToNonzeroPageSize f.size
  · rw [if_neg (not_not.2 hsize), wp_pure]
    exact ⟨f, hf, .refl f, hsize, Frame.of_files rfl, rfl⟩
  · rw [if_pos hsize]
    refine (extendFile_spec hf (roundUp_spec f.size_lt).2.2.1).mono ?_ fun _ _ h => h
    rintro _ d' ⟨f', hfiles, hext, hsize', hd'⟩
    exact ⟨f', Disk.files_self hfiles, hext, hsize', fun q hq => Disk.files_of_ne hfiles hq, hd'⟩

/-- **The constructor** maps the padded file. If it throws, the file may have been padded. -/
theorem construct_spec {afterMmap : Option (Sys Unit)} (hf : d.files path = some f) (hs : Stored R f es)
    (hcb : LeavesFiles afterMmap) :
    wp (construct R path f.size es.length afterMmap)
      (fun v d' => Holds d' v es ∧ v.file_ = path ∧ Padded path f d' ∧ Frame path d d' ∧ d'.failures = d.failures)
      (fun e d' => Padded path f d' ∧ Frame path d d' ∧ Failed d e d') d := by
  obtain ⟨hpages, _, hle, hmax, _⟩ := roundUp_spec f.size_lt
  have hin := hs.inside
  rw [construct]
  refine (pad_spec hf).bind (fun e d' ht => ⟨(Padded.refl hf).congr (congrFun ht.files path), Frame.of_files ht.files,
    ht.toFailed⟩) ?_
  rintro _ d₁ ⟨f₁, hf₁, hext, hsize, hframe, hd₁⟩
  have hpad : Padded path f d₁ := ⟨f₁, hf₁, hext, Or.inr hsize⟩
  -- nothing below changes a file any more
  have herr : ∀ d₂ e d', d₂.files = d₁.files → d₂.failures = d.failures → Thrown d₂ e d' →
      Padded path f d' ∧ Frame path d d' ∧ Failed d e d' := by
    intro d₂ e d' hfiles hd ht
    have hfiles' := ht.files.trans hfiles
    exact ⟨hpad.congr (congrFun hfiles' path), hframe.trans (Frame.of_files hfiles'), ht.toFailed.of_failures hd⟩
  refine (wp_orThrow rfl Disk.call_spec).bind (fun e d' ht => herr d₁ e d' rfl hd₁ ht) ?_
  rintro _ d₂ ⟨hfiles₂, hd₂⟩
  refine (hcb d₂).bind (fun e d' ht => herr d₂ e d' hfiles₂ (hd₂.trans hd₁) ht) ?_
  rintro _ d₃ ⟨hfiles₃, hd₃⟩
  refine (populateForWrite_spec (by omega)).bind
    (fun e d' ht => herr d₃ e d' (hfiles₃.trans hfiles₂) (hd₃.trans (hd₂.trans hd₁)) ht) ?_
  rintro _ d₄ ⟨hfiles₄, hd₄⟩
  have hfiles : d₄.files = d₁.files := hfiles₄.trans (hfiles₃.trans hfiles₂)
  have hmod : (sizeofHeader + es.length * R.sizeof) % 2 ^ 64 = sizeofHeader + es.length * R.sizeof :=
    Nat.mod_eq_of_lt (by have := f.size_lt; omega)
  rw [hmod, wp_bind]
  refine wp_xcheck (decide_eq_true (Nat.le_trans hin hle)) ?_
  rw [wp_pure]
  refine ⟨⟨f₁, (congrFun hfiles path).trans hf₁, hs.extends hext, ?_⟩, rfl, hpad.congr (congrFun hfiles path),
    hframe.trans (Frame.of_files hfiles), hd₄.trans (hd₃.trans (hd₂.trans hd₁))⟩
  exact ⟨rfl, rfl, Nat.le_trans hin hle, Nat.le_of_eq hsize.symm, hpages, by rw [hsize]; exact Nat.le_add_right _ _⟩

/-! ### New vectors -/

/-- A file that `open` as a vector of `R` reads as `es`, unless its header keeps it from
being opened: a file that is still empty, or one whose first header was cut off. -/
def Restores (R : RecordType) (f : File) (es : List R.Value) : Prop :=
  f.size = 0 ∧ es = [] ∨ f.size ≠ 0 ∧ ((∃ n, Header.load f.byte = Header.of R n) → Stored R f es)

/-- A stored vector can be opened again. -/
theorem Stored.restores (h : Stored R f es) : Restores R f es := by
  have hin := h.inside
  unfold sizeofHeader at hin
  exact Or.inr ⟨by omega, fun _ => h⟩

/-- A header that counts nothing stores the empty list. -/
theorem stored_nil (hheader : Header.load f.byte = Header.of R 0) (hsize : sizeofHeader ≤ f.size) : Stored R f [] :=
  ⟨hheader, by rw [List.length_nil, Nat.zero_mul]; exact hsize, fun i hi => absurd hi (Nat.not_lt_zero i)⟩

/-- The bytes of the initial header from the entry count on are zero. -/
theorem Header.bytes_eq_zero {a : ℕ} (h1 : 16 ≤ a) (h2 : a < sizeofHeader) : (Header.of R 0).bytes a = 0 := by
  unfold sizeofHeader at h2
  have hzero : ∀ k, UInt8.ofNat (0 / 256 ^ k) = 0 := by
    intro k
    rw [Nat.zero_div]
    rfl
  unfold Header.bytes Header.of
  -- `unused` or `entryCount`
  by_cases h24 : 24 ≤ a
  · rw [Memory.storeLE, if_pos (by omega)]
    exact hzero _
  · rw [Memory.storeLE, if_neg (by omega), Memory.storeLE, if_pos (by omega)]
    exact hzero _

theorem Header.load_of (T : TableType) : Header.load (Header.of T.toRecordType 0).bytes = Header.of T.toRecordType 0 := by
  have hsize := T.fits
  have hversion := T.version_lt
  have hinit : initialSize = 2 ^ 20 := by decide
  refine Header.load_bytes _ (by change kMagic < 2 ^ 32; decide) (by change 1 < 2 ^ 32; decide) ?_ ?_
    (by change 0 < 2 ^ 64; decide) (by change 0 < 2 ^ 64; decide)
  · change T.VERSION < 2 ^ 32; omega
  · change T.sizeof < 2 ^ 32; omega

/-- A file whose header counts no entries stores none, whatever else the header says. -/
theorem restores_nil (hcount : (Header.load f.byte).entryCount = 0) (hsize : sizeofHeader ≤ f.size) :
    Restores R f [] := by
  refine Or.inr ⟨by unfold sizeofHeader at hsize; omega, ?_⟩
  rintro ⟨n, hn⟩
  have hn0 : n = 0 := by rw [hn] at hcount; exact hcount
  subst hn0
  exact stored_nil hn hsize

/-- So does a file of zeros over which the first `k` bytes of a header were written. -/
theorem restores_write {k : ℕ} (hk : k < 2 ^ 63) (hzero : ∀ a, a < f.size → f.byte a = 0)
    (hsize : sizeofHeader ≤ f.size) : Restores R (f.write (Header.of R 0).bytes k hk) [] := by
  refine restores_nil (Memory.loadLE_eq_zero fun a h1 h2 => ?_) (Nat.le_trans hsize (Nat.le_max_left _ _))
  have ha : a < sizeofHeader := by unfold sizeofHeader; omega
  change (if a < k then (Header.of R 0).bytes a else if a < f.size then f.byte a else 0) = 0
  by_cases hak : a < k
  · rw [if_pos hak]; exact Header.bytes_eq_zero h1 ha
  · rw [if_neg hak, if_pos (by omega)]; exact hzero a (by omega)

/-- A new header stores the empty list. -/
theorem stored_write (T : TableType) (hsize : sizeofHeader ≤ f.size) (h : sizeofHeader < 2 ^ 63) :
    Stored T.toRecordType (f.write (Header.of T.toRecordType 0).bytes sizeofHeader h) [] := by
  refine stored_nil ?_ (Nat.le_trans hsize (Nat.le_max_left _ _))
  refine (Header.load_congr fun a _ ha => ?_).trans (Header.load_of T)
  exact if_pos (by omega)

/-- **A new vector** is empty. If the call throws, the file still stores nothing. -/
theorem initializeFromScratch_spec (T : TableType) (hf : d.files path = some f) (hsize : f.size = 0) :
    wp (initializeFromScratch T path)
      (fun v d' => Holds d' v [] ∧ v.file_ = path ∧ Frame path d d' ∧ d'.failures = d.failures)
      (fun e d' => (∃ f', d'.files path = some f' ∧ Restores T.toRecordType f' []) ∧ Frame path d d' ∧ Failed d e d')
      d := by
  have hinit : initialSize = 2 ^ 20 := by decide
  have hheader : sizeofHeader = 32 := rfl
  rw [initializeFromScratch]
  refine (extendFile_spec hf (by omega)).bind (fun e d' ht =>
    ⟨⟨f, (congrFun ht.files path).trans hf, Or.inl ⟨hsize, rfl⟩⟩, Frame.of_files ht.files, ht.toFailed⟩) ?_
  rintro _ d₁ ⟨f₁, hfiles₁, hext, hsize₁, hd₁⟩
  have hf₁ := Disk.files_self hfiles₁
  have hframe₁ : Frame path d d₁ := fun q hq => Disk.files_of_ne hfiles₁ hq
  have hzero : ∀ a, a < f₁.size → f₁.byte a = 0 := fun a ha => hext.zeros a (by omega) ha
  refine (wp_orThrow rfl (Disk.pwrite_spec _ (by decide) (by decide))).bind (fun e d' ht =>
    ⟨⟨f₁, (congrFun ht.files path).trans hf₁, restores_nil (Memory.loadLE_eq_zero fun a _ h2 => hzero a (by omega))
      (by omega)⟩, hframe₁.trans (Frame.of_files ht.files), ht.toFailed.of_failures hd₁⟩) ?_
  -- the header is written over zeros
  rintro written d₂ ⟨hk, hfiles₂, hcount⟩
  rw [Disk.file_of_files hf₁] at hfiles₂
  have hf₂ := Disk.files_self hfiles₂
  have hframe₂ : Frame path d d₂ := hframe₁.trans fun q hq => Disk.files_of_ne hfiles₂ hq
  rw [wp_bind]
  rcases hcount with ⟨rfl, hd₂⟩ | ⟨hlt, hd₂⟩
  · refine wp_throwIf (fun h => absurd rfl (of_decide_eq_true h)) fun _ => ?_
    have hs₂ := stored_write T (f := f₁) (by omega) (by decide)
    have hsize₂ : (f₁.write (Header.of T.toRecordType 0).bytes sizeofHeader (by decide)).size = initialSize :=
      (Nat.max_eq_left (by omega)).trans hsize₁
    have hspec := construct_spec hf₂ hs₂ leavesFiles_none
    rw [hsize₂] at hspec
    refine hspec.mono ?_ ?_
    · rintro v d' ⟨hv, hfile, _, hframe, hd'⟩
      exact ⟨hv, hfile, hframe₂.trans hframe, hd'.trans (hd₂.trans hd₁)⟩
    · rintro e d' ⟨⟨f', hf', hext', _⟩, hframe, hfail⟩
      exact ⟨⟨f', hf', (hs₂.extends hext').restores⟩, hframe₂.trans hframe, hfail.of_failures (hd₂.trans hd₁)⟩
  · -- a short write is a failure, and a header that was cut off counts no entries
    refine wp_throwIf (fun _ => ?_) fun h => absurd (not_not.1 (of_decide_eq_false h)) (Nat.ne_of_lt hlt)
    exact ⟨⟨_, hf₂, restores_write _ hzero (by omega)⟩, hframe₂, rfl, by omega⟩

/-! ### Opening a file by name -/

/-- **Opening by name** with a lock. -/
theorem openLocked_spec (truncate : Bool) :
    wp (openLocked path truncate)
      (fun _ d' => d'.files = Function.update d.files path (some (if truncate then .empty else d.file path)) ∧
        d'.failures = d.failures)
      (fun e d' => (d'.files = d.files ∨
        d'.files = Function.update d.files path (some (if truncate then .empty else d.file path))) ∧ Failed d e d')
      d := by
  rw [openLocked]
  refine (wp_orThrow rfl (Disk.openFile_spec truncate)).bind (fun e d' ht => ⟨Or.inl ht.files, ht.toFailed⟩) ?_
  rintro _ d₁ ⟨hfiles₁, hd₁⟩
  refine (wp_orThrow rfl Disk.call_spec).mono ?_ fun e d' ht =>
    ⟨Or.inr (ht.files.trans hfiles₁), ht.toFailed.of_failures hd₁⟩
  rintro _ d₂ ⟨hfiles₂, hd₂⟩
  exact ⟨hfiles₂.trans hfiles₁, hd₂.trans hd₁⟩

/-- **A new vector** takes the place of whatever was there. -/
theorem createOrOverwrite_spec (T : TableType) :
    wp (createOrOverwrite T path)
      (fun v d' => Holds d' v [] ∧ v.file_ = path ∧ Frame path d d' ∧ d'.failures = d.failures)
      (fun e d' => Frame path d d' ∧ Failed d e d') d := by
  rw [createOrOverwrite]
  refine (openLocked_spec true).bind ?_ ?_
  · rintro e d' ⟨hfiles | hfiles, hfail⟩
    · exact ⟨Frame.of_files hfiles, hfail⟩
    · exact ⟨fun q hq => Disk.files_of_ne hfiles hq, hfail⟩
  · rintro _ d₁ ⟨hfiles₁, hd₁⟩
    have hframe₁ : Frame path d d₁ := fun q hq => Disk.files_of_ne hfiles₁ hq
    refine (initializeFromScratch_spec T (Disk.files_self hfiles₁) rfl).mono ?_ ?_
    · rintro v d' ⟨hv, hfile, hframe, hd'⟩
      exact ⟨hv, hfile, hframe₁.trans hframe, hd'.trans hd₁⟩
    · rintro e d' ⟨_, hframe, hfail⟩
      exact ⟨hframe₁.trans hframe, hfail.of_failures hd₁⟩

/-! ### Migration -/

section Migration

variable {First : RecordType} {T : TableType} {g : First.Value → T.Value} {original : MappedDiskVector First}
  {xs : List First.Value}

/-- **The loop.** With the first `i` entries converted, it appends the others. Only the
file of the new vector changes. -/
theorem migrateEntries_spec {v : MappedDiskVector T.toRecordType} {remaining i : ℕ}
    (horiginal : Holds d original xs) (hv : Holds d v ((xs.take i).map g)) (hne : original.file_ ≠ v.file_)
    (hi : i + remaining = xs.length) :
    wp (migrateEntries T g original remaining i v)
      (fun v' d' => Holds d' v' (xs.map g) ∧ v'.file_ = v.file_ ∧ Frame v.file_ d d' ∧ d'.failures = d.failures)
      (fun e d' => Frame v.file_ d d' ∧ Failed d e d') d := by
  induction remaining generalizing i v d with
  | zero =>
    rw [migrateEntries, wp_pure]
    rw [List.take_of_length_le (by omega)] at hv
    exact ⟨hv, rfl, Frame.of_files rfl, rfl⟩
  | succ remaining ih =>
    have hilt : i < xs.length := by omega
    rw [migrateEntries]
    refine (entry_spec horiginal hilt (E := fun _ _ => False)).bind (fun _ _ h => h.elim) ?_
    rintro _ d₁ ⟨rfl, hfiles₁, hd₁⟩
    refine (Disk.userCode_spec (E := fun _ _ => False)).bind (fun _ _ h => h.elim) ?_
    rintro r d₂ ⟨hfiles₂, hr⟩
    have hfiles : d₂.files = d.files := hfiles₂.trans hfiles₁
    -- the constructor of the new record may throw
    rcases hr with ⟨rfl, hd₂⟩ | ⟨⟨⟨std, scratch⟩, rfl⟩, hd₂⟩
    · have hd : d₂.failures = d.failures := hd₂.trans hd₁
      rw [wp_bind, wp_withSnd]
      refine (emplaceBack_spec (hv.congr hfiles) T.fits (g xs[i])).mono ?_ ?_
      · rintro _ ⟨d₃, v₃⟩ ⟨ha, hd₃⟩
        have hfile : v₃.file_ = v.file_ := ha.file_
        have hframe : Frame v.file_ d d₃ := fun q hq => (ha.frame q hq).trans (congrFun hfiles q)
        -- the original is another file, so it still holds its entries
        have horiginal₃ : Holds d₃ original xs := horiginal.of_frame hframe hne
        have htake : (xs.take i).map g ++ [g xs[i]] = (xs.take (i + 1)).map g := by
          rw [List.take_add_one, List.getElem?_eq_getElem hilt, List.map_append]
          rfl
        have hv₃ : Holds d₃ v₃ ((xs.take (i + 1)).map g) := htake ▸ ha.holds
        refine (ih horiginal₃ hv₃ (by rw [hfile]; exact hne) (by omega)).mono ?_ ?_
        · rintro v' d' ⟨hv', hfile', hframe', hd'⟩
          rw [hfile] at hfile' hframe'
          exact ⟨hv', hfile', hframe.trans hframe', hd'.trans (Eq.trans hd₃ hd)⟩
        · rintro e d' ⟨hframe', hfail⟩
          rw [hfile] at hframe'
          exact ⟨hframe.trans hframe', hfail.of_failures (Eq.trans hd₃ hd)⟩
      · rintro e ⟨d₃, v₃⟩ ⟨ha, hfail⟩
        exact ⟨fun q hq => (ha.frame q hq).trans (congrFun hfiles q), hfail.of_failures hd⟩
    · rw [wp_throw]
      exact ⟨Frame.of_files hfiles, rfl, by omega⟩

theorem tmp_ne (path : String) : path ++ ".tmp" ≠ path := by
  intro h
  have := congrArg String.length h
  rw [String.length_append] at this
  have h4 : ".tmp".length = 4 := rfl
  omega

/-- The files after `rename(tmpPath, path)`. -/
theorem renamed {tmp : String} (hne : tmp ≠ path)
    (h : d'.files = Function.update (Function.update d.files path (d.files tmp)) tmp none) :
    d'.files path = d.files tmp := by
  rw [h, Function.update_of_ne hne.symm, Function.update_self]

/-- The handler of `migrateFrom` does not touch the original. -/
theorem cleanup_spec {α : Type} {tmp : String} {e : Error} {Q : α → Disk → Prop} (hne : path ≠ tmp)
    (hpad : Padded path f d') (hfail : Failed d e d') :
    wp (do
      let _ ← (if e.isStdException then Disk.unlink tmp else pure (.ok ()))
      throw e : Sys α) Q (fun e d' => Padded path f d' ∧ Failed d e d') d' := by
  have hunlink : wp (if e.isStdException then Disk.unlink tmp else pure (.ok ()) : Sys (Except Disk.Errno Unit))
      (fun _ d'' => Frame tmp d' d'' ∧ d'.failures ≤ d''.failures) (fun _ _ => False) d' := by
    by_cases h : e.isStdException = true
    · rw [if_pos h]; exact Disk.unlink_spec
    · rw [if_neg h, wp_pure]; exact ⟨Frame.of_files rfl, Nat.le_refl _⟩
  refine hunlink.bind (fun _ _ h => h.elim) ?_
  rintro _ d'' ⟨hframe, hle⟩
  rw [wp_throw]
  exact ⟨hpad.congr (hframe path hne), hfail.isException, Nat.lt_of_lt_of_le hfail.counted hle⟩

/-- **One migration.** The file at `path` holds the converted entries, or it is the
original, which was at most padded. -/
theorem migrateFirst_spec (hf : d.files path = some f) (hs : Stored First f xs) :
    wp (migrateFirst T g path f.size xs.length)
      (fun v d' => Holds d' v (xs.map g) ∧ v.file_ = path ∧ d'.failures = d.failures)
      (fun e d' => Padded path f d' ∧ Failed d e d') d := by
  have hne := tmp_ne path
  rw [migrateFirst]
  refine (construct_spec hf hs leavesFiles_none).bind (fun e d' h => ⟨h.1, h.2.2⟩) ?_
  rintro original d₁ ⟨horiginal, hfile, hpad, _, hd₁⟩
  refine (createOrOverwrite_spec T).bind (fun e d' h =>
    ⟨hpad.congr (h.1 path hne.symm), h.2.of_failures hd₁⟩) ?_
  rintro v d₂ ⟨hv, hvfile, hframe₂, hd₂⟩
  have horiginal₂ : Holds d₂ original xs := horiginal.of_frame hframe₂ (by rw [hfile]; exact hne.symm)
  have hpad₂ : Padded path f d₂ := hpad.congr (hframe₂ path hne.symm)
  have hd : d₂.failures = d.failures := hd₂.trans hd₁
  rw [wp_tryCatch, wp_bind]
  refine (migrateEntries_spec horiginal₂ hv (by rw [hfile, hvfile]; exact hne.symm) ?_).mono ?_ ?_
  · rw [Nat.zero_add]
    exact horiginal.size_eq
  · rintro v₃ d₃ ⟨hv₃, hvfile₃, hframe₃, hd₃⟩
    rw [hvfile] at hvfile₃ hframe₃
    rw [wp_bind]
    refine (wp_orThrow rfl (Disk.rename_spec _ _)).mono ?_ fun e d' ht => ?_
    · -- the mapping of the new vector goes on under the name of the original
      rintro _ d₄ ⟨hfiles₄, hd₄⟩
      rw [wp_pure]
      obtain ⟨f₃, hf₃, hs₃, hm₃⟩ := hv₃
      rw [hvfile₃] at hf₃
      refine ⟨⟨f₃, (renamed hne hfiles₄).trans hf₃, hs₃, ?_⟩, rfl, hd₄.trans (hd₃.trans hd)⟩
      exact ⟨hm₃.begin_eq, hm₃.end_eq, hm₃.inside, hm₃.mapped, hm₃.pages, hm₃.tail⟩
    · exact cleanup_spec hne.symm ((hpad₂.congr (hframe₃ path hne.symm)).congr (congrFun ht.files path))
        (ht.toFailed.of_failures (hd₃.trans hd))
  · rintro e d' ⟨hframe₃, hfail⟩
    rw [hvfile] at hframe₃
    exact cleanup_spec hne.symm (hpad₂.congr (hframe₃ path hne.symm)) (hfail.of_failures hd)

end Migration

end MappedDiskVector

/-! ### Chains of versions -/

/-- Old version number `i` is `V`, and `g` is the composition of the constructors from
`V` on: for `T` with the old versions `V₁, V₂, …` it is `fun x => T{V₁{V₂{…{x}}}}`. -/
inductive OldVersions.Converts : {R : RecordType} → OldVersions R → ℕ → (V : RecordType) → (V.Value → R.Value) → Prop
  | first {R First : RecordType} {construct : First.Value → R.Value} {rest : OldVersions First} :
      Converts (.cons First construct rest) 0 First construct
  | older {R First V : RecordType} {construct : First.Value → R.Value} {rest : OldVersions First} {i : ℕ}
      {g : V.Value → First.Value} (h : Converts rest i V g) :
      Converts (.cons First construct rest) (i + 1) V fun x => construct (g x)

namespace OldVersions

variable {R V : RecordType} {old : OldVersions R} {i : ℕ}

/-- A version that is converted from is one of the old ones. -/
theorem Converts.types {g : V.Value → R.Value} (h : old.Converts i V g) : old.types[i]? = some V := by
  induction h with
  | first => rfl
  | older h ih => exact ih

/-- Every old version has a composed conversion. -/
theorem exists_converts (h : old.types[i]? = some V) : ∃ g, old.Converts i V g := by
  induction old generalizing i with
  | nil => simp [types] at h
  | cons First construct rest ih =>
    cases i with
    | zero =>
      obtain rfl : First = V := by simpa [types] using h
      exact ⟨construct, .first⟩
    | succ i =>
      obtain ⟨g, hg⟩ := ih (i := i) (by simpa [types] using h)
      exact ⟨_, .older hg⟩

end OldVersions

namespace MappedDiskVector

variable {T : TableType} {f : File} {d : Disk} {path : String}

/-- **`migrateFrom`** finds version `i` of the chain and converts with the composition. -/
theorem migrateFrom_spec {R V : RecordType} {old : OldVersions R} {i : ℕ} {g : V.Value → R.Value}
    (hg : old.Converts i V g) {xs : List V.Value} (hf : d.files path = some f) (hs : Stored V f xs)
    (convert : R.Value → T.Value) :
    wp (migrateFrom T path f.size xs.length old i convert)
      (fun v d' => Holds d' v (xs.map fun x => convert (g x)) ∧ v.file_ = path ∧ d'.failures = d.failures)
      (fun e d' => Padded path f d' ∧ Failed d e d') d := by
  induction hg with
  | first => exact migrateFirst_spec hf hs
  | older h ih => exact ih hs _

end MappedDiskVector

end EdenCommon
