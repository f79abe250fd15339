import EdenCommon.Spec.DirectoryEntries

/-!
# What listing a directory on Windows finds

`direntLoop_layout`: the loop over a buffer visits the entries that the system laid out, one after
the other, and reads nothing outside of the buffer. `listing_names`: a directory is listed as the
names of its entries but for `.` and `..`, in order, however the entries are divided into batches
and padded.

* `direntLoop_entry`: one turn of the loop at an entry. `direntLoop_layout` is the induction
  on what is left of the buffer.
* `direntLoop_ends`: whatever the memory holds the loop ends, since every turn moves on in
  it.
* `queryLoop_listing`: the names of the batches from the `k`-th on, of which `listing_names`
  is the case of the first.
-/

namespace EdenCommon

open Lib

namespace Directory

/-! ### The fields of an entry -/

theorem length_wideBytes (name : List WCHAR) : (wideBytes name).length = 2 * name.length := by
  induction name with
  | nil => rfl
  | cons c name ih =>
    rw [wideBytes, List.flatMap_cons, List.length_append, length_toBytesLE, ← wideBytes, ih, List.length_cons]
    omega

/-- A name is read from its bytes again. -/
theorem wideOf_wideBytes (name : List WCHAR) : wideOf (wideBytes name) = name := by
  induction name with
  | nil => rfl
  | cons c name ih =>
    have hc := ofBytesLE_toBytesLE 2 c.toNat (by simpa using c.toNat_lt)
    simp only [toBytesLE, ofBytesLE, List.foldr_cons, List.foldr_nil, Nat.zero_mul, Nat.add_zero] at hc
    show wideOf (UInt8.ofNat c.toNat :: UInt8.ofNat (c.toNat / 256) :: wideBytes name) = _
    rw [wideOf, hc, ih, UInt16.ofNat_toNat]

/-- An entry has the size that it is laid out with. -/
theorem length_bytes (d : Dirent) (n : ℕ) : (d.bytes n).length = d.size := by
  simp only [Dirent.bytes, Dirent.size, List.length_append, length_toBytesLE, length_wideBytes]

/-- A number of four bytes is read where it lies. -/
theorem readULONG_at (pre post : Bytes) {mem : Bytes} {pos v : ℕ} (hmem : mem = pre ++ toBytesLE 4 v ++ post)
    (hpos : pos = pre.length) (hv : v < 2 ^ 32) : readULONG mem pos = some v := by
  unfold readULONG
  rw [readBytes_at pre post hmem hpos (length_toBytesLE 4 v).symm, Option.map_some, ofBytesLE_toBytesLE 4 v (by omega)]

section Entry

variable (d : Dirent) (pre post : Bytes) (n : ℕ)

/-- The first field of an entry is the offset of the next one. -/
theorem readULONG_nextEntryOffset (hn : n < 2 ^ 32) :
    readULONG (pre ++ d.bytes n ++ post) pre.length = some n := by
  refine readULONG_at pre (toBytesLE 4 d.FileIndex.toNat ++ toBytesLE 4 (2 * d.FileName.length) ++
    wideBytes d.FileName ++ d.padding ++ post) ?_ rfl hn
  simp only [Dirent.bytes, List.append_assoc]

/-- The third one is the length of its name in bytes. -/
theorem readULONG_fileNameLength (hd : d.size < 2 ^ 32) :
    readULONG (pre ++ d.bytes n ++ post) (pre.length + 8) = some (2 * d.FileName.length) := by
  have hlt : 2 * d.FileName.length < 2 ^ 32 := by
    unfold Dirent.size at hd
    omega
  refine readULONG_at (pre ++ toBytesLE 4 n ++ toBytesLE 4 d.FileIndex.toNat)
    (wideBytes d.FileName ++ d.padding ++ post) ?_ ?_ hlt
  · simp only [Dirent.bytes, List.append_assoc]
  · simp only [List.length_append, length_toBytesLE]

/-- The name lies behind the fields. -/
theorem readWide_fileName :
    readWide (pre ++ d.bytes n ++ post) (pre.length + 12) d.FileName.length = some d.FileName := by
  have hread : readBytes (pre ++ d.bytes n ++ post) (pre.length + 12) (2 * d.FileName.length) =
      some (wideBytes d.FileName) := by
    refine readBytes_at (pre ++ toBytesLE 4 n ++ toBytesLE 4 d.FileIndex.toNat ++
      toBytesLE 4 (2 * d.FileName.length)) (d.padding ++ post) ?_ ?_ (length_wideBytes _).symm
    · simp only [Dirent.bytes, List.append_assoc]
    · simp only [List.length_append, length_toBytesLE]
  rw [readWide, hread, Option.map_some, wideOf_wideBytes]

end Entry

/-! ### The entries of a buffer -/

/-- The components for these names, put behind the ones there are. -/
def collect (W : Windows) (names : List (List WCHAR)) (acc : List PathComponent) :
    Except Thrown (List PathComponent) :=
  (names.mapM (componentOfWide W)).map (acc ++ ·)

/-- Whether `win_name` is listed. -/
def listed (n : List WCHAR) : Bool := n ≠ wideDot ∧ n ≠ wideDotDot

theorem collect_nil (W : Windows) (acc : List PathComponent) : collect W [] acc = .ok acc := by
  simp [collect, pure, Except.pure, Except.map]

theorem collect_cons (W : Windows) (n : List WCHAR) (names : List (List WCHAR)) (acc : List PathComponent) :
    collect W (n :: names) acc =
      (componentOfWide W n).map (fun c => acc ++ [c]) >>= collect W names := by
  unfold collect
  rw [List.mapM_cons]
  cases componentOfWide W n with
  | error e => rfl
  | ok c => cases names.mapM (componentOfWide W) <;> simp [bind, Except.bind, Except.map, pure, Except.pure]

/-- Names are collected one after the other, up to the first that is no component. -/
theorem collect_append (W : Windows) (names names' : List (List WCHAR)) (acc : List PathComponent) :
    collect W (names ++ names') acc = collect W names acc >>= collect W names' := by
  induction names generalizing acc with
  | nil => rw [collect_nil, List.nil_append]; rfl
  | cons n names ih =>
    rw [List.cons_append, collect_cons, collect_cons, bind_assoc]
    exact bind_congr fun acc' => ih acc'

/-- An entry adds its name, unless that is `.` or `..`. -/
theorem addEntry_eq (W : Windows) (acc : List PathComponent) (n : List WCHAR) :
    addEntry W acc n = collect W ([n].filter listed) acc := by
  unfold addEntry
  by_cases hl : n ≠ wideDot ∧ n ≠ wideDotDot
  · rw [if_pos hl, List.filter_cons_of_pos (by simpa [listed] using hl), List.filter_nil, collect_cons]
    cases componentOfWide W n with
    | error e => rfl
    | ok c => exact (collect_nil W _).symm
  · rw [if_neg hl, List.filter_cons_of_neg (by simpa [listed] using hl), List.filter_nil, collect_nil]

/-- One turn of the loop at an entry. -/
theorem direntLoop_entry (W : Windows) (d : Dirent) (pre post : Bytes) (n fuel : ℕ) (acc : List PathComponent)
    (hn : n < 2 ^ 32) (hd : d.size < 2 ^ 32) :
    direntLoop W (pre ++ d.bytes n ++ post) (fuel + 1) pre.length acc =
      collect W ([d.FileName].filter listed) acc >>= fun acc =>
        if n = 0 then .ok acc else direntLoop W (pre ++ d.bytes n ++ post) fuel (pre.length + n) acc := by
  have hhalf : 2 * d.FileName.length / 2 = d.FileName.length := by omega
  rw [direntLoop, readULONG_fileNameLength d pre post n hd]
  simp only [hhalf, readWide_fileName, readULONG_nextEntryOffset d pre post n hn, addEntry_eq]
  refine bind_congr (m := Except Thrown) fun acc' => ?_
  cases n with
  | zero => rfl
  | succ n => rfl

/-- **The loop visits the entries that were laid out.** The induction moves the entry that was
visited into the part in front of `dirent`. -/
theorem direntLoop_layout (W : Windows) (ds : List Dirent) (hds : ds ≠ []) :
    ∀ (pre post : Bytes) (fuel : ℕ) (acc : List PathComponent), (layout ds).length < 2 ^ 32 → ds.length ≤ fuel →
      direntLoop W (pre ++ layout ds ++ post) fuel pre.length acc =
        collect W ((ds.map Dirent.FileName).filter listed) acc := by
  induction ds with
  | nil => exact absurd rfl hds
  | cons d ds ih =>
    intro pre post fuel acc hsize hfuel
    obtain ⟨fuel, rfl⟩ : ∃ k, fuel = k + 1 := ⟨fuel - 1, by simp only [List.length_cons] at hfuel; omega⟩
    cases ds with
    | nil =>
      rw [layout, length_bytes] at hsize
      rw [layout, direntLoop_entry W d pre post 0 fuel acc (by omega) hsize]
      simp only [if_true, List.map_cons, List.map_nil]
      exact bind_pure _
    | cons d' ds =>
      rw [layout, List.length_append, length_bytes] at hsize
      have hmem : pre ++ layout (d :: d' :: ds) ++ post =
          pre ++ d.bytes d.size ++ (layout (d' :: ds) ++ post) := by
        simp only [layout, List.append_assoc]
      have hnext : pre.length + d.size = (pre ++ d.bytes d.size).length := by
        rw [List.length_append, length_bytes]
      have hpos : d.size ≠ 0 := by
        unfold Dirent.size
        omega
      have hnames : collect W (((d :: d' :: ds).map Dirent.FileName).filter listed) acc =
          collect W ([d.FileName].filter listed) acc >>=
            collect W (((d' :: ds).map Dirent.FileName).filter listed) := by
        rw [← collect_append, ← List.filter_append]
        rfl
      rw [hmem, direntLoop_entry W d pre _ d.size fuel acc (by omega) (by omega), hnames]
      refine bind_congr (m := Except Thrown) fun acc' => ?_
      rw [if_neg hpos, hnext, ← List.append_assoc]
      exact ih (List.cons_ne_nil _ _) _ post fuel acc' (by omega) (by simp only [List.length_cons] at hfuel ⊢; omega)

/-- There are at least as many bytes as entries, so the turns suffice. -/
theorem length_le_layout (ds : List Dirent) : ds.length ≤ (layout ds).length := by
  induction ds with
  | nil => exact Nat.zero_le _
  | cons d ds ih =>
    have hd : 12 ≤ d.size := by
      unfold Dirent.size
      omega
    cases ds with
    | nil => simp only [layout, length_bytes, List.length_cons, List.length_nil]; omega
    | cons d' ds => simp only [layout, List.length_append, length_bytes, List.length_cons] at ih ⊢; omega

/-- **One batch**: the loop over a buffer collects the names of its entries and no others, whatever is
behind them. -/
theorem direntLoop_batch (W : Windows) (b : Batch) (acc : List PathComponent) :
    direntLoop W b.answer.buffer (kBufferSize + 1) 0 acc =
      collect W ((b.entries.map Dirent.FileName).filter listed) acc := by
  have hsize := b.size
  rw [List.length_append, kBufferSize] at hsize
  have hlen := length_le_layout b.entries
  exact direntLoop_layout W b.entries b.ne_nil [] b.rest _ acc (by omega) (by rw [kBufferSize]; omega)

/-! ### Memory that holds anything -/

theorem wideToMultibyteString_ne_running (W : Windows) (n : List WCHAR) :
    wideToMultibyteString W n ≠ .error .running := by
  unfold wideToMultibyteString
  intro h
  split at h
  · simp at h
  · dsimp only at h
    split at h <;> simp at h

/-- No name keeps the loop from ending. -/
theorem componentOfWide_ne_running (W : Windows) (n : List WCHAR) : componentOfWide W n ≠ .error .running := by
  intro h
  unfold componentOfWide at h
  cases hw : wideToMultibyteString W n with
  | error e =>
    rw [hw] at h
    exact wideToMultibyteString_ne_running W n (hw.trans (by simpa [bind, Except.bind] using h))
  | ok path_ =>
    rw [hw] at h
    simp only [bind, Except.bind] at h
    split at h <;> simp at h

theorem addEntry_ne_running (W : Windows) (acc : List PathComponent) (n : List WCHAR) :
    addEntry W acc n ≠ .error .running := by
  intro h
  unfold addEntry at h
  split at h
  · cases hc : componentOfWide W n with
    | error e =>
      rw [hc] at h
      exact componentOfWide_ne_running W n (hc.trans (by simpa [Except.map] using h))
    | ok c => simp [hc, Except.map] at h
  · simp at h

/-- **The loop ends, whatever the memory holds**: every turn moves on in it. -/
theorem direntLoop_ends (W : Windows) (buffer : Bytes) (fuel : ℕ) :
    ∀ (dirent : ℕ) (acc : List PathComponent), buffer.length < fuel + dirent → 0 < fuel →
      direntLoop W buffer fuel dirent acc ≠ .error .running := by
  induction fuel with
  | zero => exact fun _ _ _ h => absurd h (Nat.lt_irrefl 0)
  | succ fuel ih =>
    intro dirent acc hroom _ h
    rw [direntLoop] at h
    split at h
    · simp at h
    split at h
    · simp at h
    cases hadd : addEntry W acc _ with
    | error e =>
      rw [hadd] at h
      exact addEntry_ne_running W acc _ (hadd.trans (by simpa [bind, Except.bind] using h))
    | ok acc' =>
      rw [hadd] at h
      simp only [bind, Except.bind] at h
      cases hnext : readULONG buffer dirent with
      | none => simp [hnext] at h
      | some next =>
        obtain ⟨bs, hread, -⟩ := Option.map_eq_some_iff.1 hnext
        have hin := readBytes_isSome hread
        rw [hnext] at h
        cases next with
        | zero => simp at h
        | succ next => exact ih (dirent + (next + 1)) acc' (by omega) (by omega) h

/-! ### The batches -/

section Listing

variable (W : Windows) (path : AbsolutePath) (batches : List Batch) (last : Answer)

/-- The first answers are the batches, in order. -/
theorem listing_lt {k : ℕ} (hk : k < batches.length) : listing batches last k = batches[k].answer := by
  rw [listing, List.getElem?_eq_getElem hk]

theorem listing_length : listing batches last batches.length = last := by
  rw [listing, List.getElem?_eq_none (Nat.le_refl _)]

/-- What the last call's status makes of the names. -/
def ending (names : List PathComponent) : Except SystemError (List PathComponent) :=
  if last.status = STATUS_NO_MORE_FILES then .ok names else .error (couldntIterate path last.status)

/-- The names of the batches from the `k`-th on. -/
theorem queryLoop_listing (hlast : last.status ≠ 0) :
    ∀ (todo k fuel : ℕ) (acc : List PathComponent), k + todo = batches.length → todo < fuel →
      queryLoop W path (listing batches last) fuel k acc =
        (collect W (entryNames (batches.drop k)) acc).map (ending path last) := by
  intro todo
  induction todo with
  | zero =>
    intro k fuel acc hk hfuel
    obtain rfl : k = batches.length := by omega
    obtain ⟨fuel, rfl⟩ : ∃ f, fuel = f + 1 := ⟨fuel - 1, by omega⟩
    have hnone : entryNames (batches.drop batches.length) = [] := by simp [entryNames]
    rw [queryLoop, listing_length, if_pos hlast, hnone, collect_nil, Except.map, ending]
    split <;> rfl
  | succ todo ih =>
    intro k fuel acc hk hfuel
    obtain ⟨fuel, rfl⟩ : ∃ f, fuel = f + 1 := ⟨fuel - 1, by omega⟩
    have hlt : k < batches.length := by omega
    have hnames : entryNames (batches.drop k) =
        (batches[k].entries.map Dirent.FileName).filter listed ++ entryNames (batches.drop (k + 1)) := by
      rw [List.drop_eq_getElem_cons hlt, entryNames, List.flatMap_cons, List.map_append, List.filter_append]
      rfl
    rw [queryLoop, listing_lt batches last hlt, if_neg (by exact fun h => h rfl), direntLoop_batch, hnames,
      collect_append]
    cases collect W ((batches[k].entries.map Dirent.FileName).filter listed) acc with
    | error e => rfl
    | ok acc' => exact ih (k + 1) fuel acc' (by omega) (by omega)

/-- **A directory is listed as the names of its entries**, in order and without `.` and `..`,
however the system divides them into batches and pads them, unless a name is no component; and a
call that fails is an error whatever was read before. -/
theorem listing_names (hlast : last.status ≠ 0) (hopen : W.createFile path = .ok ()) (fuel : ℕ)
    (hfuel : batches.length < fuel) :
    getAllDirectoryEntryNames W path (listing batches last) fuel =
      ((entryNames batches).mapM (componentOfWide W)).map fun names =>
        if last.status = STATUS_NO_MORE_FILES then .ok names else .error (couldntIterate path last.status) := by
  rw [getAllDirectoryEntryNames, hopen]
  show queryLoop W path (listing batches last) fuel 0 [] = _
  rw [queryLoop_listing W path batches last hlast batches.length 0 fuel [] (by omega) hfuel, List.drop_zero, collect]
  cases (entryNames batches).mapM (componentOfWide W) with
  | error e => rfl
  | ok names => rfl

end Listing

/-- A system with ASCII names only. -/
def asciiWindows : Windows := ⟨fun w => .ok (w.map fun c => UInt8.ofNat c.toNat), fun _ => .ok ()⟩

/-- The entries, and zeros behind them. -/
def zeroedBatch (entries : List Dirent) (hne : entries ≠ []) (hsize : (layout entries).length ≤ kBufferSize) : Batch where
  entries := entries
  rest := List.replicate (kBufferSize - (layout entries).length) 0
  ne_nil := hne
  size := by rw [List.length_append, List.length_replicate]; omega

/-- Two batches, the first with the directory itself and a padded name. -/
theorem listing_names_batches :
    getAllDirectoryEntryNames asciiWindows ⟨[0x5C, 0x5C, 0x3F, 0x5C]⟩
      (listing [zeroedBatch [⟨0, [0x2E], [0, 0]⟩, ⟨0, [0x61, 0x62], []⟩] (by decide) (by decide),
        zeroedBatch [⟨0, [0x2E, 0x63], []⟩] (by decide) (by decide)]
        ⟨STATUS_NO_MORE_FILES, List.replicate kBufferSize 0, List.length_replicate⟩) 3 =
      .ok (.ok [⟨[0x61, 0x62]⟩, ⟨[0x2E, 0x63]⟩]) :=
  (listing_names asciiWindows _ _ _ (by decide) rfl 3 (by decide)).trans (by rfl)

end Directory

end EdenCommon
