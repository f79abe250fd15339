import EdenCommon.Spec.Disk
import Mathlib.Algebra.Group.Int.Defs

/-!
# `MappedDiskVector`

A vector of fixed-size records in a memory-mapped file, from `MappedDiskVector.h`, as it
is built for Linux. A record is its object representation, `sizeof(T)` bytes. Pointers
into the mapping are kept relative to `map_` and wrap around at `2 ^ 64`; the kernel
places a mapping so that `map_ + mapSizeInBytes_` itself does not wrap.

An access through the mapping outside of it, or beyond the end of the file, ends the
process with a signal; so does a failed `XCHECK`. Both are exceptions here, of which
`Error.isException` is false.
-/

namespace EdenCommon

open Lib

/-- What ends a call other than a return. -/
inductive Error
  | system (msg : String)   -- `folly::throwSystemError`, `folly::checkUnixError`
  | file (path : String)    -- the constructor of `folly::File`
  | runtime (msg : String)
  | logic (msg : String)
  | user (std : Bool)       -- thrown by user code, an `std::exception` or not
  | bug (msg : String)      -- `EDEN_BUG`
  | checkFailed             -- `XCHECK`, `XDCHECK`
  | signal                  -- `SIGBUS`, `SIGSEGV`
deriving DecidableEq

namespace Error

/-- The error is a C++ exception, and not the end of the process. -/
def isException : Error → Bool
  | bug _ | checkFailed | signal => false
  | _ => true

/-- What `catch (const std::exception&)` catches. -/
def isStdException : Error → Bool
  | user std => std
  | e => e.isException

end Error

/-- Code that works on the disk and may throw. -/
abbrev Sys (α : Type) := EStateM Error Disk α

/-- `RecordTypeRequirements`. -/
structure RecordType where
  VERSION : ℕ
  sizeof : ℕ
  version_lt : VERSION < 2 ^ 32 - 1
  sizeof_pos : 0 < sizeof

/-- The object representation of a record. -/
abbrev RecordType.Value (R : RecordType) := Fin R.sizeof → UInt8

def kPageSize : ℕ := 4096

def growthInPages : ℕ := 256

/-- `GROWTH_IN_PAGES * detail::kPageSize`. -/
def growth : ℕ := growthInPages * kPageSize

/-- `initialSize` of `initializeFromScratch`. -/
def initialSize : ℕ := growthInPages * kPageSize

def kMagic : ℕ := 0x0056444d

/-- `sizeof(Header)`. -/
def sizeofHeader : ℕ := 32

/-- A type of which vectors are created: `initializeFromScratch` asserts that the header
and one record fit into the initial file. (`emplace_back` asserts a stronger bound.) -/
structure TableType extends RecordType where
  fits : sizeofHeader + sizeof ≤ initialSize

/-- `detail::roundUpToNonzeroPageSize`, in 64-bit arithmetic. -/
def roundUpToNonzeroPageSize (s : ℕ) : ℕ :=
  max kPageSize ((s + (kPageSize - 1)) % 2 ^ 64 &&& (2 ^ 64 - kPageSize))

structure MappedDiskVector.Header where
  magic : ℕ
  version : ℕ
  recordVersion : ℕ
  recordSize : ℕ
  entryCount : ℕ
  unused : ℕ
deriving DecidableEq

namespace MappedDiskVector.Header

/-- The fields as they lie in memory: four 32-bit and two 64-bit numbers. -/
def load (m : Memory) : Header :=
  ⟨m.loadLE 0 4, m.loadLE 4 4, m.loadLE 8 4, m.loadLE 12 4, m.loadLE 16 8, m.loadLE 24 8⟩

def bytes (h : Header) : Memory :=
  (((((Memory.storeLE (fun _ => 0) 0 4 h.magic).storeLE 4 4 h.version).storeLE 8 4 h.recordVersion).storeLE
    12 4 h.recordSize).storeLE 16 8 h.entryCount).storeLE 24 8 h.unused

/-- The header of a vector of `R` with `n` entries. -/
def of (R : RecordType) (n : ℕ) : Header := ⟨kMagic, 1, R.VERSION, R.sizeof, n, 0⟩

/-- The check of `open`. `st_size` is an `off_t`; it is compared with `sizeof(header)` as
such, and converted to `size_t` for the subtraction. -/
def invalid (header : Header) (st_size : ℤ) : Bool :=
  kMagic ≠ header.magic || header.version ≠ 1 || (sizeofHeader : ℤ) > st_size || header.recordSize = 0 ||
    header.entryCount > ((st_size - sizeofHeader) % 2 ^ 64).toNat / header.recordSize || header.unused ≠ 0

end MappedDiskVector.Header

/-- The members of a `MappedDiskVector<R>`. -/
structure MappedDiskVector (R : RecordType) where
  file_ : String
  begin_ : ℕ
  end_ : ℕ
  mapSizeInBytes_ : ℕ

/-- `XCHECK` and its kin. -/
def xcheck (p : Bool) : Sys Unit := if p then pure () else throw .checkFailed

def throwIf (p : Bool) (e : Error) : Sys Unit := if p then throw e else pure ()

/-- Throw if a call failed. -/
def orThrow {α : Type} (e : Error) (m : Sys (Except Disk.Errno α)) : Sys α := do
  match ← m with
  | .ok a => pure a
  | .error _ => throw e

def extendFile (file : String) (newSize : ℕ) : Sys Unit := do
  match ← Disk.fallocate file newSize with
  | .ok () => pure ()
  | .error .notSupported => orThrow (.system "failed to extend file") (Disk.ftruncate file newSize)
  | .error _ => throw (.system "fallocate failed when extending file")

/-- `populateForWrite`: the pages that cover the range. Which pages these are is up to
the page size of the system, and `madvise` leaves the bytes as they are. -/
def populateForWrite (addr length : ℕ) : Sys Unit := do
  xcheck ((addr + length) % 2 ^ 64 ≥ addr)
  match ← Disk.madvise with
  | .ok () => pure ()
  | .error .invalid => pure ()
  | .error _ => throw (.system "failed to populate MappedDiskVector pages (disk full?)")

namespace MappedDiskVector

variable {R : RecordType}

def size (v : MappedDiskVector R) : ℕ := (v.end_ - v.begin_) / R.sizeof

def capacity (v : MappedDiskVector R) : ℕ := (v.mapSizeInBytes_ - sizeofHeader) / R.sizeof

def hasRoom (v : MappedDiskVector R) (amount : ℕ) : Bool :=
  (v.end_ + amount * R.sizeof) % 2 ^ 64 ≤ v.mapSizeInBytes_

/-- Read `n` bytes at `off` through the mapping. -/
def peek {α : Type} (v : MappedDiskVector R) (off n : ℕ) (g : Memory → α) : Sys α := do
  let f := (← get).file v.file_
  if off + n ≤ v.mapSizeInBytes_ ∧ off + n ≤ f.size then pure (g f.byte) else throw .signal

/-- Write `n` bytes at `off` through the mapping. -/
def poke (v : MappedDiskVector R) (off n : ℕ) (g : Memory → Memory) : Sys Unit := do
  let f := (← get).file v.file_
  if off + n ≤ v.mapSizeInBytes_ ∧ off + n ≤ f.size then
    modify fun d => d.put v.file_ (some { f with byte := g f.byte })
  else throw .signal

/-- Assign to `header().entryCount`. -/
def updateEntryCount (v : MappedDiskVector R) (g : ℕ → ℕ) : Sys Unit :=
  v.poke 16 8 fun m => m.storeLE 16 8 (g (m.loadLE 16 8))

/-- `operator[]`, read. -/
def entry (v : MappedDiskVector R) (index : ℕ) : Sys R.Value :=
  v.peek (v.begin_ + index * R.sizeof) R.sizeof fun m => m.loadBlock (v.begin_ + index * R.sizeof) R.sizeof

/-- `operator[]`, assigned to. -/
def setEntry (v : MappedDiskVector R) (index : ℕ) (x : R.Value) : Sys Unit :=
  v.poke (v.begin_ + index * R.sizeof) R.sizeof fun m => m.storeBlock (v.begin_ + index * R.sizeof) x

def front (v : MappedDiskVector R) : Sys R.Value := do
  xcheck (v.end_ > v.begin_)
  v.entry 0

def back (v : MappedDiskVector R) : Sys R.Value := do
  xcheck (v.end_ > v.begin_)
  v.peek (v.end_ - R.sizeof) R.sizeof fun m => m.loadBlock (v.end_ - R.sizeof) R.sizeof

def populateEntryForWrite (v : MappedDiskVector R) (index : ℕ) : Sys Unit := do
  xcheck (index < v.size)
  populateForWrite (v.begin_ + index * R.sizeof) R.sizeof

/-- The constructor that maps the file. -/
def construct (R : RecordType) (file : String) (fileSize currentEntryCount : ℕ)
    (afterMmap : Option (Sys Unit)) : Sys (MappedDiskVector R) := do
  let desiredSize := roundUpToNonzeroPageSize fileSize
  (if fileSize ≠ desiredSize then extendFile file desiredSize else pure ())
  orThrow (.system "mmap failed on file open") Disk.call
  afterMmap.getD (pure ())
  populateForWrite 0 desiredSize
  let end_ := (sizeofHeader + currentEntryCount * R.sizeof) % 2 ^ 64
  xcheck (end_ ≤ desiredSize)
  return ⟨file, sizeofHeader, end_, desiredSize⟩

/-! ### Appending and removing -/

/-- A method that changes the vector; what it changed stays when it throws. -/
abbrev Method (R : RecordType) (α : Type) := EStateM Error (Disk × MappedDiskVector R) α

def this : Method R (MappedDiskVector R) := do return (← get).2

def assign (v : MappedDiskVector R) : Method R Unit := modify fun s => (s.1, v)

/-- The growth branch of `emplace_back`. -/
def grow : Method R Unit := do
  let v ← this
  let oldSize := v.size
  let newFileSize := (v.mapSizeInBytes_ + growth) % 2 ^ 64
  onFst (xcheck (newFileSize % kPageSize = 0))
  onFst (extendFile v.file_ newFileSize)
  onFst (orThrow (.system ("mremap failed when growing capacity from " ++ toString v.mapSizeInBytes_ ++ " to " ++
    toString newFileSize)) Disk.call)
  assign ⟨v.file_, sizeofHeader, (sizeofHeader + oldSize * R.sizeof) % 2 ^ 64, newFileSize⟩
  onFst (populateForWrite (newFileSize - growth) growth)

/-- `emplace_back` once there is room. -/
def constructBack (x : R.Value) : Method R Unit := do
  let v ← this
  let out := v.end_
  onFst (populateForWrite out R.sizeof)
  match ← onFst Disk.userCode with
  | some (std, scratch) =>
    -- the constructor threw and may have written to the slot
    onFst (v.poke out R.sizeof fun m => m.storeBlock out (scratch.loadBlock 0 R.sizeof))
    throw (.user std)
  | none =>
    onFst (v.poke out R.sizeof fun m => m.storeBlock out x)
    assign { v with end_ := (out + R.sizeof) % 2 ^ 64 }
    onFst (v.updateEntryCount (· + 1))

/-- `emplace_back` of the arguments from which the record `x` is constructed. -/
def emplaceBack (x : R.Value) : Method R Unit := do
  let v ← this
  (if v.hasRoom 1 then pure () else grow)
  constructBack x

def popBack : Method R Unit := do
  let v ← this
  onFst (xcheck (v.end_ > v.begin_))
  assign { v with end_ := v.end_ - R.sizeof }
  onFst (v.updateEntryCount (· + (2 ^ 64 - 1)))

/-! ### Opening -/

def initializeFromScratch (T : TableType) (file : String) : Sys (MappedDiskVector T.toRecordType) := do
  extendFile file initialSize
  let header := Header.of T.toRecordType 0
  let written ← orThrow (.system "Failed to write initial header")
    (Disk.pwrite file header.bytes sizeofHeader (by decide))
  throwIf (written ≠ sizeofHeader) (.runtime "Failed to write complete initial header")
  construct T.toRecordType file initialSize header.entryCount none

/-- The constructor of `folly::File` and `try_lock`. -/
def openLocked (path : String) (truncate : Bool) : Sys Unit := do
  orThrow (.file path) (Disk.openFile path truncate)
  orThrow (.system ("failed to acquire lock on " ++ path)) Disk.call

def createOrOverwrite (T : TableType) (path : String) : Sys (MappedDiskVector T.toRecordType) := do
  openLocked path true
  initializeFromScratch T path

end MappedDiskVector

/-- The types `OldVersions...` of `open`, newest first, each with the constructor that
makes a record of the type before it. -/
inductive OldVersions : RecordType → Type
  | nil {R : RecordType} : OldVersions R
  | cons {R : RecordType} (First : RecordType) (construct : First.Value → R.Value) (rest : OldVersions First) :
      OldVersions R

def OldVersions.types {R : RecordType} : OldVersions R → List RecordType
  | .nil => []
  | .cons First _ rest => First :: rest.types

namespace MappedDiskVector

/-- The loop of `migrateFrom` from entry `i` on, with `remaining` entries to go. -/
def migrateEntries {First : RecordType} (T : TableType) (convert : First.Value → T.Value)
    (original : MappedDiskVector First) :
    (remaining i : ℕ) → MappedDiskVector T.toRecordType → Sys (MappedDiskVector T.toRecordType)
  | 0, _, newVector => pure newVector
  | remaining + 1, i, newVector => do
    let entry ← original.entry i
    match ← Disk.userCode with
    | some (std, _) => throw (.user std)
    | none =>
      let newVector ← withSnd newVector (emplaceBack (convert entry))
      migrateEntries T convert original remaining (i + 1) newVector

/-- The first branch of `migrateFrom`. After the rename the descriptor of `newVector` is
the file at `path`. -/
def migrateFirst {First : RecordType} (T : TableType) (convert : First.Value → T.Value) (path : String)
    (fileSize currentEntryCount : ℕ) : Sys (MappedDiskVector T.toRecordType) := do
  let original ← construct First path fileSize currentEntryCount none
  let tmpPath := path ++ ".tmp"
  let newVector ← createOrOverwrite T tmpPath
  tryCatch
    (do
      let newVector ← migrateEntries T convert original original.size 0 newVector
      orThrow (.system "rename() failed while migrating MDV formats") (Disk.rename tmpPath path)
      return { newVector with file_ := path })
    fun e => do
      let _ ← (if e.isStdException then Disk.unlink tmpPath else pure (.ok ()))
      throw e

/-- `Migrator<T, First, Rest...>::migrateFrom`. `convert` makes a `T` of a record of the
type before `First`; the generic lambda of the source makes one of a `First`. -/
def migrateFrom (T : TableType) (path : String) (fileSize currentEntryCount : ℕ) {R : RecordType} :
    OldVersions R → (oldVersionIndex : ℕ) → (convert : R.Value → T.Value) → Sys (MappedDiskVector T.toRecordType)
  | .nil, _, _ => throw (.bug "oldVersionIndex >= sizeof...(OldVersions)")
  | .cons _ construct _, 0, convert =>
    migrateFirst T (fun entry => convert (construct entry)) path fileSize currentEntryCount
  | .cons _ construct rest, oldVersionIndex + 1, convert =>
    migrateFrom T path fileSize currentEntryCount rest oldVersionIndex fun entry => convert (construct entry)

/-- The first of `versions` that comes again. -/
def duplicateVersion : List ℕ → Option ℕ
  | [] => none
  | version :: versions => if version ∈ versions then some version else duplicateVersion versions

/-- `open`, the header of a file that is not empty. -/
def readHeader (path : String) (st_size : ℕ) : Sys Header := do
  let readBytes ← orThrow (.system "failed to read MappedDiskVector header") (Disk.pread path sizeofHeader)
  throwIf (readBytes ≠ sizeofHeader) (.runtime "Incomplete MappedDiskVector header")
  let header := Header.load ((← get).file path).byte
  throwIf (header.invalid st_size)
    (.runtime "Invalid header: this is probably not a MappedDiskVector file")
  return header

/-- `open`, the choice of the record type by the header. -/
def openAs (T : TableType) (old : OldVersions T.toRecordType) (path : String) (afterMmap : Option (Sys Unit))
    (st_size : ℕ) (header : Header) : Sys (MappedDiskVector T.toRecordType) :=
  match duplicateVersion (T.VERSION :: old.types.map (·.VERSION)) with
  | some version => throw (.logic ("Duplicate VERSION detected in record types: " ++ toString version))
  | none =>
    if T.VERSION = header.recordVersion then do
      throwIf (T.sizeof ≠ header.recordSize)
        (.runtime ("Record size does not match size recorded in file. Expected " ++ toString T.sizeof ++
          " but file has " ++ toString header.recordSize))
      construct T.toRecordType path st_size header.entryCount afterMmap
    else
      match old.types.zipIdx.find? fun p => p.1.VERSION == header.recordVersion with
      | some (V, i) => do
        throwIf (V.sizeof ≠ header.recordSize)
          (.runtime ("Record version matches old record type but record size differs. Expected " ++
            toString V.sizeof ++ " but file has " ++ toString header.recordSize))
        migrateFrom T path st_size header.entryCount old i fun entry => entry
      | none =>
        throw (.runtime ("Unexpected record size and version. Expected size=" ++ toString T.sizeof ++ ", version=" ++
          toString T.VERSION ++ " but got size=" ++ toString header.recordSize ++ ", version=" ++
          toString header.recordVersion))

/-- `open<OldVersions...>`. -/
def open' (T : TableType) (old : OldVersions T.toRecordType) (path : String)
    (afterMmap : Option (Sys Unit)) : Sys (MappedDiskVector T.toRecordType) := do
  openLocked path false
  let st_size ← orThrow (.system ("fstat failed on MappedDiskVector path " ++ path)) (Disk.fstat path)
  if st_size = 0 then initializeFromScratch T path
  else
    let header ← readHeader path st_size
    openAs T old path afterMmap st_size header

/-! ### Sessions -/

/-- What a user of the vector does. -/
inductive Op (R : RecordType)
  | reopen
  | emplaceBack (x : R.Value)
  | popBack
  | get (index : ℕ)
  | set (index : ℕ) (x : R.Value)
  | close

inductive Answer (R : RecordType)
  | done
  | value (x : R.Value)
  | threw (e : Error)

/-- The disk, and the vector while it is open. -/
structure Session (T : TableType) where
  disk : Disk
  vec : Option (MappedDiskVector T.toRecordType)

/-- How a method of an open vector ends. -/
def answer {T : TableType} {α : Type} (f : α → Answer T.toRecordType) :
    EStateM.Result Error (Disk × MappedDiskVector T.toRecordType) α → Session T × Answer T.toRecordType
  | .ok a s => (⟨s.1, some s.2⟩, f a)
  | .error e s => (⟨s.1, some s.2⟩, .threw e)

/-- One operation, of which the calls end as `outcomes` says; `none` for those that are
not allowed: to open twice, to use a closed vector, to index out of range, or to pop an
empty one. The destructor unmaps the file and closes it. -/
def step (T : TableType) (path : String) (s : Session T) (op : Op T.toRecordType) (outcomes : List Outcome) :
    Option (Session T × Answer T.toRecordType) :=
  let disk := { s.disk with outcomes := outcomes }
  match op, s.vec with
  | .reopen, none =>
    match open' T .nil path none disk with
    | .ok v d => some (⟨d, some v⟩, .done)
    | .error e d => some (⟨d, none⟩, .threw e)
  | .emplaceBack x, some v => some (answer (fun _ => .done) (emplaceBack x (disk, v)))
  | .popBack, some v => if v.size = 0 then none else some (answer (fun _ => .done) (popBack (disk, v)))
  | .get i, some v => if i < v.size then some (answer .value (onFst (v.entry i) (disk, v))) else none
  | .set i x, some v =>
    if i < v.size then some (answer (fun _ => .done) (onFst (v.setEntry i x) (disk, v))) else none
  | .close, some _ => some (⟨disk, none⟩, .done)
  | _, _ => none

/-- A step that keeps a log of the operations and their answers. -/
def logStep (T : TableType) (path : String) (s : Session T × List (Op T.toRecordType × Answer T.toRecordType))
    (call : Op T.toRecordType × List Outcome) :
    Option (Session T × List (Op T.toRecordType × Answer T.toRecordType)) :=
  (step T path s.1 call.1 call.2).map fun r => (r.1, s.2 ++ [(call.1, r.2)])

end MappedDiskVector

end EdenCommon
