import EdenCommon.Proof.MappedDiskVectorMigration
import Mathlib.Data.Fintype.Basic

/-!
# Opening a file of any content

The header check of `open` computes without wrap-around and lets only headers pass
whose entries lie inside the file. So a file that passes stores entries of the record
type that its version selects: they are mapped as they are, or converted into a new
file. Everything else is an exception.

* `readHeader_spec`: the header that is read is the one in the file, and passed the check.
* `openAs_primary`, `openAs_old`: a file of the current record type is mapped, one of an old
  version is migrated.
* `open_safe`: whatever the file holds and whatever fails, opening throws or returns a
  vector that lies inside its file.
* `migrate_open`: a file of an old version becomes the vector of the converted entries, in
  their order.
-/

namespace EdenCommon

open Lib

-- the goals below are never to be evaluated
attribute [local irreducible] wp

namespace MappedDiskVector

variable {R : RecordType} {T : TableType} {old : OldVersions T.toRecordType} {f : File} {d : Disk} {path : String}
  {afterMmap : Option (Sys Unit)}

/-! ### The header check -/

/-- **No wrap-around.** A header that passes the check has its entries inside the file,
computed in exact arithmetic, and the subtraction in `size_t` is exact. -/
theorem Header.valid {header : Header} {st_size : ℤ} (h : header.invalid st_size = false) (hmax : st_size < 2 ^ 63) :
    header.magic = kMagic ∧ header.version = 1 ∧ header.recordSize ≠ 0 ∧ header.unused = 0 ∧
      (sizeofHeader : ℤ) ≤ st_size ∧ (st_size - sizeofHeader) % 2 ^ 64 = st_size - sizeofHeader ∧
      (sizeofHeader : ℤ) + header.entryCount * header.recordSize ≤ st_size := by
  simp only [Header.invalid, Bool.or_eq_false_iff, decide_eq_false_iff_not, not_not, not_lt, gt_iff_lt] at h
  obtain ⟨⟨⟨⟨⟨hmagic, hversion⟩, hsize⟩, hrecord⟩, hcount⟩, hunused⟩ := h
  have hmod : (st_size - sizeofHeader) % 2 ^ 64 = st_size - sizeofHeader := Int.emod_eq_of_lt (by omega) (by omega)
  rw [hmod, Nat.le_div_iff_mul_le (Nat.pos_of_ne_zero hrecord)] at hcount
  have hexact : (header.entryCount * header.recordSize : ℤ) ≤ st_size - sizeofHeader := by
    have h1 : ((header.entryCount * header.recordSize : ℕ) : ℤ) ≤ ((st_size - sizeofHeader).toNat : ℤ) := by
      exact_mod_cast hcount
    rw [Int.toNat_of_nonneg (by omega)] at h1
    exact_mod_cast h1
  exact ⟨hmagic.symm, hversion, hrecord, hunused, hsize, hmod, by omega⟩

/-- The header of a stored vector passes. -/
theorem Stored.valid {es : List R.Value} (h : Stored R f es) : (Header.load f.byte).invalid f.size = false := by
  have hin := h.inside
  have hlt := f.size_lt
  have hmod : ((f.size : ℤ) - sizeofHeader) % 2 ^ 64 = ((f.size - sizeofHeader : ℕ) : ℤ) := by
    rw [Int.emod_eq_of_lt (by omega) (by omega)]
    omega
  have hcount : es.length ≤ (f.size - sizeofHeader) / R.sizeof := by
    rw [Nat.le_div_iff_mul_le R.sizeof_pos]
    omega
  have hpos := R.sizeof_pos
  rw [h.header, Header.invalid, hmod, Int.toNat_natCast]
  simp only [Header.of, Bool.or_eq_false_iff]
  exact ⟨⟨⟨⟨⟨decide_eq_false (not_not.2 rfl), decide_eq_false (not_not.2 rfl)⟩, decide_eq_false (by omega)⟩,
    decide_eq_false (Nat.ne_of_gt hpos)⟩, decide_eq_false (Nat.not_lt.2 hcount)⟩, decide_eq_false (not_not.2 rfl)⟩

/-- A header that passes and names `R` is the header of a stored vector. -/
theorem exists_stored (h : (Header.load f.byte).invalid f.size = false)
    (hversion : (Header.load f.byte).recordVersion = R.VERSION) (hsize : (Header.load f.byte).recordSize = R.sizeof) :
    ∃ es, Stored R f es := by
  have hlt := f.size_lt
  obtain ⟨hmagic, hone, _, hunused, _, _, hin⟩ := Header.valid h (by omega)
  rw [hsize] at hin
  refine ⟨List.ofFn fun i : Fin (Header.load f.byte).entryCount =>
    f.byte.loadBlock (sizeofHeader + i * R.sizeof) R.sizeof, ?_, ?_, fun i hi => ?_⟩
  · rw [List.length_ofFn, Header.of, ← hmagic, ← hone, ← hversion, ← hsize, ← hunused]
  · rw [List.length_ofFn]
    exact_mod_cast hin
  · rw [List.getElem_ofFn]

/-! ### The versions -/

theorem duplicateVersion_eq_none {versions : List ℕ} : duplicateVersion versions = none ↔ versions.Nodup := by
  induction versions with
  | nil => simp [duplicateVersion]
  | cons version versions ih =>
    rw [duplicateVersion, List.nodup_cons]
    by_cases h : version ∈ versions
    · simp [h]
    · simp [h, ih]

/-- The search finds the position of a version that occurs once. -/
theorem find_version {types : List RecordType} (hdistinct : (types.map (·.VERSION)).Nodup) {i : ℕ} {V : RecordType}
    (hi : types[i]? = some V) (k : ℕ) :
    (types.zipIdx k).find? (fun p => p.1.VERSION == V.VERSION) = some (V, k + i) := by
  induction types generalizing i k with
  | nil => simp at hi
  | cons U types ih =>
    rw [List.map_cons, List.nodup_cons] at hdistinct
    rw [List.zipIdx_cons]
    cases i with
    | zero =>
      obtain rfl : U = V := by simpa using hi
      exact List.find?_cons_of_pos (by simp)
    | succ i =>
      have hV : types[i]? = some V := by simpa using hi
      have hne : U.VERSION ≠ V.VERSION := fun h =>
        hdistinct.1 (h ▸ List.mem_map.2 ⟨V, List.mem_of_getElem? hV, rfl⟩)
      rw [List.find?_cons_of_neg (by simpa using hne), ih hdistinct.2 hV (k + 1)]
      congr 2
      omega

/-- What the search finds is an old version with that number. -/
theorem found_version {types : List RecordType} {version : ℕ} {V : RecordType} {i : ℕ}
    (h : types.zipIdx.find? (fun p => p.1.VERSION == version) = some (V, i)) :
    types[i]? = some V ∧ V.VERSION = version := by
  have hmem := List.mem_of_find?_eq_some h
  have hpred := List.find?_some h
  refine ⟨?_, by simpa using hpred⟩
  have := List.mem_zipIdx_iff_getElem?.1 hmem
  exact this

/-! ### The record type -/

/-- A file of `T`s is mapped. -/
theorem openAs_primary (hdistinct : (T.VERSION :: old.types.map (·.VERSION)).Nodup) {es : List T.Value}
    (hf : d.files path = some f) (hs : Stored T.toRecordType f es) (hcb : LeavesFiles afterMmap) :
    wp (openAs T old path afterMmap f.size (Header.load f.byte))
      (fun v d' => Holds d' v es ∧ v.file_ = path ∧ Padded path f d' ∧ d'.failures = d.failures)
      (fun e d' => Padded path f d' ∧ Failed d e d') d := by
  rw [openAs, duplicateVersion_eq_none.2 hdistinct]
  dsimp only
  rw [if_pos hs.recordVersion_eq.symm, hs.recordSize_eq, hs.entryCount_eq, wp_bind]
  refine wp_throwIf (fun h => absurd rfl (of_decide_eq_true h)) fun _ => ?_
  refine (construct_spec hf hs hcb).mono ?_ ?_
  · rintro v d' ⟨hv, hfile, hpad, _, hd'⟩
    exact ⟨hv, hfile, hpad, hd'⟩
  · rintro e d' ⟨hpad, _, hfail⟩
    exact ⟨hpad, hfail⟩

/-- A file of an old version is migrated. -/
theorem openAs_old (hdistinct : (T.VERSION :: old.types.map (·.VERSION)).Nodup) {V : RecordType} {i : ℕ}
    {g : V.Value → T.Value} (hg : old.Converts i V g) {xs : List V.Value} (hf : d.files path = some f)
    (hs : Stored V f xs) :
    wp (openAs T old path afterMmap f.size (Header.load f.byte))
      (fun v d' => Holds d' v (xs.map g) ∧ v.file_ = path ∧ d'.failures = d.failures)
      (fun e d' => Padded path f d' ∧ Failed d e d') d := by
  have hV := hg.types
  have hne : T.VERSION ≠ (Header.load f.byte).recordVersion := by
    rw [hs.recordVersion_eq]
    intro h
    exact (List.nodup_cons.1 hdistinct).1 (h ▸ List.mem_map.2 ⟨V, List.mem_of_getElem? hV, rfl⟩)
  have hfind := find_version (List.nodup_cons.1 hdistinct).2 hV 0
  rw [Nat.zero_add] at hfind
  rw [openAs, duplicateVersion_eq_none.2 hdistinct]
  dsimp only
  rw [if_neg hne, hs.recordVersion_eq, hfind]
  dsimp only
  rw [hs.recordSize_eq, hs.entryCount_eq, wp_bind]
  refine wp_throwIf (fun h => absurd rfl (of_decide_eq_true h)) fun _ => ?_
  exact migrateFrom_spec hg hf hs _

/-! ### The whole call -/

/-- The header of any file: it is the one in the file and passed the check. -/
theorem readHeader_spec (hf : d.files path = some f) :
    wp (readHeader path f.size)
      (fun header d' => header = Header.load f.byte ∧ header.invalid f.size = false ∧ Unchanged d d')
      (fun e d' => d'.files = d.files ∧ e.isException = true ∧
        (d.failures < d'.failures ∨ d'.failures = d.failures ∧ (Header.load f.byte).invalid f.size = true)) d := by
  rw [readHeader]
  refine (wp_orThrow rfl (Disk.pread_spec (by decide))).bind
    (fun e d' ht => ⟨ht.files, ht.isException, Or.inl ht.counted⟩) ?_
  rintro readBytes d₁ ⟨hfiles₁, hread⟩
  rw [Disk.file_of_files hf] at hread
  have hf₁ : d₁.files path = some f := (congrFun hfiles₁ path).trans hf
  rw [wp_bind]
  refine wp_throwIf (fun hshort => ⟨hfiles₁, rfl, ?_⟩) fun hfull => ?_
  · rcases hread with ⟨hread, hd₁⟩ | ⟨_, hd₁⟩
    · -- the file is shorter than a header, which the check would refuse too
      have hne : readBytes ≠ sizeofHeader := of_decide_eq_true hshort
      refine Or.inr ⟨hd₁, ?_⟩
      by_contra hvalid
      have hlt := f.size_lt
      have hle := (Header.valid (Bool.eq_false_iff.2 hvalid) (by omega)).2.2.2.2.1
      omega
    · exact Or.inl hd₁
  · have heq : readBytes = sizeofHeader := not_not.1 (of_decide_eq_false hfull)
    have hd₁ : d₁.failures = d.failures := by
      rcases hread with ⟨_, hd₁⟩ | ⟨hlt, _⟩
      · exact hd₁
      · omega
    rw [wp_bind, wp_get, Disk.file_of_files hf₁, wp_bind]
    refine wp_throwIf (fun h => ⟨hfiles₁, rfl, Or.inr ⟨hd₁, h⟩⟩) fun h => ?_
    rw [wp_pure]
    exact ⟨rfl, h, hfiles₁, hd₁⟩

/-- **Opening**, by what the file at `path` is: an empty file is initialized, one with a
valid header is opened as its version says, and what is thrown before that is owed to a
failed call or to an invalid header. -/
theorem wp_open {Q : MappedDiskVector T.toRecordType → Disk → Prop} {E : Error → Disk → Prop}
    (hscratch : (d.file path).size = 0 → ∀ d₁, d₁.files = Function.update d.files path (some (d.file path)) →
      d₁.failures = d.failures → wp (initializeFromScratch T path) Q E d₁)
    (hopen : (d.file path).size ≠ 0 → (Header.load (d.file path).byte).invalid (d.file path).size = false →
      ∀ d₁, d₁.files = Function.update d.files path (some (d.file path)) → d₁.failures = d.failures →
        wp (openAs T old path afterMmap (d.file path).size (Header.load (d.file path).byte)) Q E d₁)
    (herr : ∀ e d', (d'.files = d.files ∨ d'.files = Function.update d.files path (some (d.file path))) →
      e.isException = true → (d.failures < d'.failures ∨ d'.failures = d.failures ∧
        (d.file path).size ≠ 0 ∧ (Header.load (d.file path).byte).invalid (d.file path).size = true) → E e d') :
    wp (open' T old path afterMmap) Q E d := by
  rw [open']
  refine (openLocked_spec false).bind (fun e d' h => herr e d' h.1 h.2.isException (Or.inl h.2.counted)) ?_
  rintro _ d₁ ⟨hfiles₁, hd₁⟩
  have hfile₁ : d₁.file path = d.file path := Disk.file_of_files (Disk.files_self hfiles₁)
  refine (wp_orThrow rfl Disk.fstat_spec).bind (fun e d' ht =>
    herr e d' (Or.inr (ht.files.trans hfiles₁)) ht.isException (Or.inl (hd₁ ▸ ht.counted))) ?_
  rintro st_size d₂ ⟨hsize, hfiles₂, hd₂⟩
  rw [hfile₁] at hsize
  subst hsize
  have hfiles : d₂.files = Function.update d.files path (some (d.file path)) := hfiles₂.trans hfiles₁
  have hd : d₂.failures = d.failures := hd₂.trans hd₁
  by_cases h0 : (d.file path).size = 0
  · rw [if_pos h0]
    exact hscratch h0 d₂ hfiles hd
  · rw [if_neg h0]
    refine (readHeader_spec (Disk.files_self hfiles)).bind ?_ ?_
    · rintro e d' ⟨hfiles', he, hcause⟩
      refine herr e d' (Or.inr (hfiles'.trans hfiles)) he ?_
      rcases hcause with hcause | hcause
      · exact Or.inl (by omega)
      · exact Or.inr ⟨hcause.1.trans hd, h0, hcause.2⟩
    · rintro _ d₃ ⟨rfl, hvalid, hfiles₃, hd₃⟩
      exact hopen h0 hvalid d₃ (hfiles₃.trans hfiles) (hd₃.trans hd)

/-- A stored vector, of whatever version, is opened as its header says, unless a call
fails before. -/
theorem wp_open_stored {Q : MappedDiskVector T.toRecordType → Disk → Prop} {E : Error → Disk → Prop} {xs : List R.Value}
    (hf : d.files path = some f) (hs : Stored R f xs)
    (hopen : ∀ d₁, d₁.files path = some f → d₁.failures = d.failures →
      wp (openAs T old path afterMmap f.size (Header.load f.byte)) Q E d₁)
    (herr : ∀ e d', d'.files path = some f → Failed d e d' → E e d') :
    wp (open' T old path afterMmap) Q E d := by
  have hfile := Disk.file_of_files hf
  refine wp_open (fun h0 => ?_) (fun _ _ d₁ hfiles hd₁ => ?_) fun e d' hd' he hcause => ?_
  · -- it has a header, so it is not empty
    have hheader : sizeofHeader = 32 := rfl
    have hin := hs.inside
    rw [hfile] at h0
    omega
  · rw [hfile] at hfiles ⊢
    exact hopen d₁ (Disk.files_self hfiles) hd₁
  · rw [hfile] at hd' hcause
    refine herr e d' ?_ ⟨he, hcause.resolve_right ?_⟩
    · rcases hd' with hd' | hd'
      · exact (congrFun hd' path).trans hf
      · exact Disk.files_self hd'
    · rintro ⟨_, _, hinvalid⟩
      rw [hs.valid] at hinvalid
      exact Bool.false_ne_true hinvalid

/-- A valid header is opened as `T` or as an old version, or refused. -/
theorem openAs_cases {Q : MappedDiskVector T.toRecordType → Disk → Prop} {E : Error → Disk → Prop}
    (hvalid : (Header.load f.byte).invalid f.size = false)
    (hprimary : (T.VERSION :: old.types.map (·.VERSION)).Nodup → ∀ es, Stored T.toRecordType f es →
      wp (openAs T old path afterMmap f.size (Header.load f.byte)) Q E d)
    (hold : (T.VERSION :: old.types.map (·.VERSION)).Nodup → ∀ i V g xs, old.Converts i V g → Stored V f xs →
      wp (openAs T old path afterMmap f.size (Header.load f.byte)) Q E d)
    (herr : ∀ e, e.isException = true → E e d) :
    wp (openAs T old path afterMmap f.size (Header.load f.byte)) Q E d := by
  cases hdup : duplicateVersion (T.VERSION :: old.types.map (·.VERSION)) with
  | some version =>
    rw [openAs, hdup, wp_throw]
    exact herr _ rfl
  | none =>
    have hdistinct := duplicateVersion_eq_none.1 hdup
    by_cases hT : T.VERSION = (Header.load f.byte).recordVersion
    · -- a file of `T`s, or one whose records have another size
      by_cases hsize : T.sizeof = (Header.load f.byte).recordSize
      · obtain ⟨es, hs⟩ := exists_stored (R := T.toRecordType) hvalid hT.symm hsize.symm
        exact hprimary hdistinct es hs
      · rw [openAs, hdup]
        dsimp only
        rw [if_pos hT, wp_bind]
        exact wp_throwIf (fun _ => herr _ rfl) fun h => absurd (not_not.1 (of_decide_eq_false h)) hsize
    · cases hfind : old.types.zipIdx.find? fun p => p.1.VERSION == (Header.load f.byte).recordVersion with
      | none =>
        rw [openAs, hdup]
        dsimp only
        rw [if_neg hT, hfind, wp_throw]
        exact herr _ rfl
      | some p =>
        -- a file of an old version, again if the size is right
        obtain ⟨V, i⟩ := p
        obtain ⟨hV, hversion⟩ := found_version hfind
        by_cases hsize : V.sizeof = (Header.load f.byte).recordSize
        · obtain ⟨xs, hs⟩ := exists_stored (R := V) hvalid hversion.symm hsize.symm
          obtain ⟨g, hg⟩ := old.exists_converts hV
          exact hold hdistinct i V g xs hg hs
        · rw [openAs, hdup]
          dsimp only
          rw [if_neg hT, hfind]
          dsimp only
          rw [wp_bind]
          exact wp_throwIf (fun _ => herr _ rfl) fun h => absurd (not_not.1 (of_decide_eq_false h)) hsize

/-- Where the file of an opened vector comes from: it was empty before, it is the
original, or it replaced one that held an old version. -/
def Origin (T : TableType) (old : OldVersions T.toRecordType) (original f : File) : Prop :=
  original.size = 0 ∨ f.Extends original ∨
    ∃ i V, ∃ g : V.Value → T.Value, ∃ xs, old.Converts i V g ∧ Stored V original xs ∧
      Stored T.toRecordType f (xs.map g)

/-- The vector `v` lies in the file `f` at `path`, whose header is one of `T`. -/
structure Opened (T : TableType) (path : String) (v : MappedDiskVector T.toRecordType) (d : Disk) (f : File) : Prop where
  file_ : v.file_ = path
  files : d.files path = some f
  header : Header.load f.byte = Header.of T.toRecordType v.size
  begin_eq : v.begin_ = sizeofHeader
  end_eq : v.end_ = v.begin_ + v.size * T.sizeof
  mapped : v.end_ ≤ v.mapSizeInBytes_
  inside : v.mapSizeInBytes_ ≤ f.size

theorem Holds.opened {v : MappedDiskVector T.toRecordType} {es : List T.Value} (h : Holds d v es) (hfile : v.file_ = path) :
    ∃ f, Opened T path v d f ∧ Stored T.toRecordType f es := by
  obtain ⟨f, hf, hs, hm⟩ := h
  rw [hfile] at hf
  refine ⟨f, ⟨hfile, hf, ?_, hm.begin_eq, ?_, hm.inside, hm.mapped⟩, hs⟩
  · rw [hm.size_eq]; exact hs.header
  · rw [hm.size_eq, hm.begin_eq]; exact hm.end_eq

/-- **Opening is safe** whatever the file holds and whatever fails: it throws an
exception, or it returns a vector of `T` that lies inside its file. The header check is
exact for every header it lets pass. -/
theorem open_safe (T : TableType) (old : OldVersions T.toRecordType) (path : String) (afterMmap : Option (Sys Unit))
    (hcb : LeavesFiles afterMmap) :
    (∀ d, wp (open' T old path afterMmap)
      (fun v d' => ∃ f, Opened T path v d' f ∧ Origin T old (d.file path) f) (fun e _ => e.isException = true) d) ∧
    ∀ (header : Header) (st_size : ℤ), st_size < 2 ^ 63 → header.invalid st_size = false →
      0 ≤ st_size - sizeofHeader ∧ (st_size - sizeofHeader) % 2 ^ 64 = st_size - sizeofHeader ∧
      (sizeofHeader : ℤ) + header.entryCount * header.recordSize ≤ st_size := by
  refine ⟨fun d => ?_, fun header st_size hmax h => ?_⟩
  · refine wp_open (fun h0 d₁ hfiles _ => ?_) (fun _ hvalid d₁ hfiles _ => ?_) fun _ _ _ he _ => he
    · -- an empty file gets a new vector
      refine (initializeFromScratch_spec T (Disk.files_self hfiles) h0).mono ?_ fun _ _ h => h.2.2.isException
      rintro v d' ⟨hv, hfile, _, _⟩
      obtain ⟨f, hopened, _⟩ := hv.opened hfile
      exact ⟨f, hopened, Or.inl h0⟩
    · have hf := Disk.files_self hfiles
      refine openAs_cases hvalid (fun hdistinct es hs => ?_) (fun hdistinct i V g xs hg hs => ?_) fun _ he => he
      · refine (openAs_primary hdistinct hf hs hcb).mono ?_ fun _ _ h => h.2.isException
        rintro v d' ⟨hv, hfile, ⟨f', hf', hext, _⟩, _⟩
        obtain ⟨f, hopened, _⟩ := hv.opened hfile
        -- the file mapped is the original, padded
        have heq : f = f' := Option.some.inj (hopened.files.symm.trans hf')
        exact ⟨f, hopened, Or.inr (Or.inl (heq ▸ hext))⟩
      · refine (openAs_old hdistinct hg hf hs).mono ?_ fun _ _ h => h.2.isException
        rintro v d' ⟨hv, hfile, _⟩
        obtain ⟨f, hopened, hs'⟩ := hv.opened hfile
        exact ⟨f, hopened, Or.inr (Or.inr ⟨i, V, g, xs, hg, hs, hs'⟩)⟩
  · obtain ⟨_, _, _, _, hle, hmod, hin⟩ := Header.valid h hmax
    exact ⟨by omega, hmod, hin⟩

/-! Versions as in the tests: two numbers each, of 1, 2 and 4 bytes; the constructors
widen the first and count in the second. -/

def V1 : TableType :=
  { VERSION := 1, sizeof := 2, version_lt := by decide, sizeof_pos := by decide, fits := by decide }

def V2 : RecordType := ⟨2, 4, by decide, by decide⟩

def V3 : TableType :=
  { VERSION := 3, sizeof := 8, version_lt := by decide, sizeof_pos := by decide, fits := by decide }

def widen (R : RecordType) {S : RecordType} (width : ℕ) (old : S.Value) : R.Value :=
  let m := Memory.storeBlock (fun _ => 0) 0 old
  ((Memory.storeLE (fun _ => 0) 0 (2 * width) (m.loadLE 0 width)).storeLE (2 * width) (2 * width)
    (m.loadLE width width + 1)).loadBlock 0 R.sizeof

/-- The old versions of `MappedDiskVector<V3>::open<V2, V1>`. -/
def v2v1 : OldVersions V3.toRecordType := .cons V2 (widen _ 2) (.cons V1.toRecordType (widen _ 1) .nil)

/-- A file of two `V1` records, with the numbers `1, 0` and `2, 0`. -/
def v1File : File := ⟨36, ((Header.of V1.toRecordType 2).bytes.storeLE 32 2 1).storeLE 34 2 2, by decide⟩

def v1Disk : Disk := ⟨fun path => if path = "test.mdv" then some v1File else none, [], 0⟩

theorem open_safe_v1 :
    LeavesFiles none ∧ wp (open' V3 v2v1 "test.mdv" none)
      (fun v d' => ∃ f, Opened V3 "test.mdv" v d' f ∧ Origin V3 v2v1 (v1Disk.file "test.mdv") f)
      (fun e _ => e.isException = true) v1Disk :=
  ⟨leavesFiles_none, (open_safe V3 v2v1 "test.mdv" none leavesFiles_none).1 v1Disk⟩

/-- **Migration.** A file of version `V` becomes the vector of the converted entries, in
their order. An exception is owed to a call that failed; it leaves the original header
and entries, at most padded, and opening again does the same. -/
theorem migrate_open (T : TableType) (old : OldVersions T.toRecordType)
    (hdistinct : (T.VERSION :: old.types.map (·.VERSION)).Nodup) {V : RecordType} {i : ℕ} {g : V.Value → T.Value}
    (hg : old.Converts i V g) (path : String) (afterMmap : Option (Sys Unit)) (f : File) (xs : List V.Value)
    (hs : Stored V f xs) (d : Disk) (hf : d.files path = some f) :
    wp (open' T old path afterMmap) (fun v d' => v.size = xs.length ∧ v.file_ = path ∧ Holds d' v (xs.map g))
      (fun e d' => e.isException = true ∧ d.failures < d'.failures ∧
        ∃ f', d'.files path = some f' ∧ f'.Extends f ∧ (f'.size = f.size ∨ f'.size = roundUpToNonzeroPageSize f.size) ∧
          Stored V f' xs ∧
          ∀ d₁, d₁.files path = some f' → wp (open' T old path afterMmap)
            (fun v d₂ => v.size = xs.length ∧ v.file_ = path ∧ Holds d₂ v (xs.map g))
            (fun _ d₂ => d₁.failures < d₂.failures) d₁) d := by
  -- one attempt, on any file that stores the entries
  have hattempt : ∀ d₁ f₁, Stored V f₁ xs → d₁.files path = some f₁ →
      wp (open' T old path afterMmap) (fun v d' => v.size = xs.length ∧ v.file_ = path ∧ Holds d' v (xs.map g))
        (fun e d' => Padded path f₁ d' ∧ Failed d₁ e d') d₁ := by
    intro d₁ f₁ hs₁ hf₁
    refine wp_open_stored hf₁ hs₁ ?_ fun e d' hf' hfail => ⟨Padded.refl hf', hfail⟩
    intro d₂ hf₂ hd₂
    refine (openAs_old hdistinct hg hf₂ hs₁).mono ?_ ?_
    · rintro v d' ⟨hv, hvfile, _⟩
      exact ⟨hv.size_eq.trans (List.length_map _), hvfile, hv⟩
    · rintro e d' ⟨hpad, hfail⟩
      exact ⟨hpad, hfail.of_failures hd₂⟩
  refine (hattempt d f hs hf).mono (fun _ _ h => h) ?_
  rintro e d' ⟨⟨f', hf', hext, hsize⟩, hfail⟩
  have hs' := hs.extends hext
  refine ⟨hfail.isException, hfail.counted, f', hf', hext, hsize, hs', fun d₁ hf₁ => ?_⟩
  exact (hattempt d₁ f' hs' hf₁).mono (fun _ _ h => h) fun _ _ h => h.2.counted

theorem v1File_stored : Stored V1.toRecordType v1File
    [fun k => if k.val = 0 then 1 else 0, fun k => if k.val = 0 then 2 else 0] :=
  ⟨by decide +kernel, by decide +kernel, by decide +kernel⟩

/-- The two records of a `V1` file, and a run in which nothing fails. -/
theorem migrate_open_v1 :
    wp (open' V3 v2v1 "test.mdv" none)
      (fun v d' => v.size = 2 ∧ v.file_ = "test.mdv" ∧
        Holds d' v [fun k => if k.val = 0 then 1 else if k.val = 4 then 2 else 0,
          fun k => if k.val = 0 then 2 else if k.val = 4 then 2 else 0])
      (fun _ d' => v1Disk.failures < d'.failures) v1Disk ∧
    (match open' V3 v2v1 "test.mdv" none v1Disk with
      | .ok v _ => v.size
      | .error _ _ => 0) = 2 := by
  refine ⟨?_, by decide +kernel⟩
  have hwiden : [fun k => if k.val = 0 then 1 else if k.val = 4 then 2 else 0,
      fun k => if k.val = 0 then 2 else if k.val = 4 then 2 else 0] =
      List.map (fun x => widen V3.toRecordType 2 (widen V2 1 x))
        ([fun k => if k.val = 0 then 1 else 0, fun k => if k.val = 0 then 2 else 0] : List V1.Value) := by
    decide +kernel
  rw [hwiden]
  exact (migrate_open V3 v2v1 (by decide) (.older .first) "test.mdv" none v1File _ v1File_stored v1Disk rfl).mono
    (fun _ _ h => h) fun _ _ h => h.2.1

end MappedDiskVector

end EdenCommon
