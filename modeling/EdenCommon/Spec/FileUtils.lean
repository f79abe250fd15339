import EdenCommon.Lib.Run
import EdenCommon.Spec.Path

/-!
# Files that are replaced and read at the same time

`writeFileAtomic`, `readFile` and `getMaterializedFileSize` of `FileUtils.cpp` on Windows, in any
number of threads on one file system. Every call of Windows is a step, and any of them may fail.
`isTemp` says which names `GetTempFileNameW` makes up; it makes up a name that does not exist
and creates the file. A `WriteFile` that succeeds has written everything.

The last two fields of `Machine` record which calls have come to their point, and what the file
held there, and are read by nothing.
-/

namespace EdenCommon

namespace FileUtils

abbrev FileId := ℕ

/-- `std::numeric_limits<size_t>::max()`. -/
def kSizeMax : ℕ := 18446744073709551615

/-- `std::numeric_limits<DWORD>::max()`. -/
def kDwordMax : ℕ := 4294967295

inductive Call
  | writeFileAtomic (path : AbsolutePath) (data : Bytes)
  | readFile (path : AbsolutePath) (num_bytes : ℕ)
  | getMaterializedFileSize (path : AbsolutePath)
  deriving DecidableEq, Repr

inductive Error
  /-- `makeWin32ErrorExplicit` with the text and the path behind it. -/
  | win32 (code : ℕ) (what : String) (path : AbsolutePath)
  /-- `std::invalid_argument` with the text and the size behind it. -/
  | invalidArgument (what : String) (size : ℕ)
  deriving DecidableEq, Repr

inductive Result
  | done
  | bytes (ret : Bytes)
  | size (fileSize : ℕ)
  | error (e : Error)
  deriving DecidableEq, Repr

/-- Where a thread stands. -/
inductive Thread
  /-- In front of the first call of Windows. -/
  | idle
  /-- `writeFileAtomic` in front of `openHandle(tmpFilePath, OpenMode::WRITE)`. -/
  | openTemp (tmpFile : AbsolutePath)
  /-- In front of `writeToHandle`. -/
  | write (tmpFile : AbsolutePath) (fileHandle : FileId)
  /-- In front of `MoveFileExW`. The handle is closed. -/
  | move (tmpFile : AbsolutePath)
  /-- In front of `getHandleFileSize`. -/
  | getSize (fileHandle : FileId)
  /-- In front of `ReadFile`. -/
  | read (fileHandle : FileId) (num_bytes : ℕ)
  | returned (result : Result)
  deriving DecidableEq, Repr

/-- How Windows answers. -/
inductive Answer
  | succeeds
  /-- `GetTempFileNameW` with the name it made up. -/
  | named (tmpFile : AbsolutePath)
  /-- A `WriteFile` that fails has written this many bytes. -/
  | fails (code : ℕ) (written : ℕ)
  deriving DecidableEq, Repr

structure FileSystem where
  files : FileId → Bytes
  entries : AbsolutePath → Option FileId
  next : FileId

namespace FileSystem

/-- A new empty file. -/
def create (fs : FileSystem) (path : AbsolutePath) : FileSystem where
  files := Function.update fs.files fs.next []
  entries := Function.update fs.entries path (some fs.next)
  next := fs.next + 1

def store (fs : FileSystem) (f : FileId) (content : Bytes) : FileSystem :=
  { fs with files := Function.update fs.files f content }

/-- `MOVEFILE_REPLACE_EXISTING`. -/
def rename (fs : FileSystem) (old new : AbsolutePath) (f : FileId) : FileSystem :=
  { fs with entries := Function.update (Function.update fs.entries new (some f)) old none }

/-- What the files hold that are no temporary files. -/
def visible (isTemp : AbsolutePath → Bool) (fs : FileSystem) (path : AbsolutePath) : Option Bytes :=
  if isTemp path then none else (fs.entries path).map fs.files

end FileSystem

structure Machine where
  fs : FileSystem
  threads : List Thread
  order : List ℕ
  found : ℕ → Option (Option Bytes)

namespace Machine

def init (fs : FileSystem) (threads : ℕ) : Machine := ⟨fs, List.replicate threads .idle, [], fun _ => none⟩

def setThread (s : Machine) (i : ℕ) (t : Thread) : Machine := { s with threads := s.threads.set i t }

def fail (s : Machine) (i : ℕ) (code : ℕ) (what : String) (path : AbsolutePath) : Machine :=
  s.setThread i (.returned (.error (.win32 code what path)))

/-- The call is at its point and finds this. -/
def point (s : Machine) (i : ℕ) (content : Option Bytes) : Machine :=
  { s with order := s.order ++ [i], found := Function.update s.found i (some content) }

end Machine

/-- `readFile` once it knows how much to read. -/
def readSized (fileHandle : FileId) (num_bytes : ℕ) : Thread :=
  if kDwordMax < num_bytes then
    .returned (.error (.invalidArgument "files over 4GB can't be read, filesize=" num_bytes))
  else .read fileHandle num_bytes

/-- `openHandle(path, OpenMode::READ)` in thread `i`, which goes on at the last argument. -/
def openRead (s : Machine) (i : ℕ) (path : AbsolutePath) : Answer → (FileId → Thread) → Option Machine
  | .fails code _, _ => some (s.fail i code "couldn't open " path)
  | .named _, _ => none
  | .succeeds, next => (s.fs.entries path).map fun f => (s.point i (some (s.fs.files f))).setThread i (next f)

/-- `openHandle(tmpFile, OpenMode::WRITE)`: a file that exists is emptied. -/
def openWrite (fs : FileSystem) (tmpFile : AbsolutePath) : FileSystem × FileId :=
  match fs.entries tmpFile with
  | some f => (fs.store f [], f)
  | none => (fs.create tmpFile, fs.next)

/-- The next step of thread `i`, which stands at the last argument. -/
def proceed (isTemp : AbsolutePath → Bool) (s : Machine) (i : ℕ) : Call → Answer → Thread → Option Machine
  | .writeFileAtomic path _, .fails code _, .idle =>
    some (s.fail i code "couldn't create a temporary file for " path)
  | .writeFileAtomic _ _, .named tmpFile, .idle =>
    if isTemp tmpFile ∧ s.fs.entries tmpFile = none then
      some { s.setThread i (.openTemp tmpFile) with fs := s.fs.create tmpFile }
    else none
  | .writeFileAtomic _ _, .fails code _, .openTemp tmpFile => some (s.fail i code "couldn't open " tmpFile)
  | .writeFileAtomic _ _, .succeeds, .openTemp tmpFile =>
    some { s.setThread i (.write tmpFile (openWrite s.fs tmpFile).2) with fs := (openWrite s.fs tmpFile).1 }
  | .writeFileAtomic _ data, answer, .write tmpFile fileHandle =>
    if kDwordMax < data.length then
      some (s.setThread i (.returned (.error (.invalidArgument "files over 4GB can't be written to, size=" data.length))))
    else
      match answer with
      | .named _ => none
      | .fails code written =>
        some { s.fail i code "couldn't write " tmpFile with fs := s.fs.store fileHandle (data.take written) }
      | .succeeds => some { s.setThread i (.move tmpFile) with
          fs := s.fs.store fileHandle (data ++ (s.fs.files fileHandle).drop data.length) }
  | .writeFileAtomic path _, .fails code _, .move _ => some (s.fail i code "couldn't replace " path)
  | .writeFileAtomic path _, .succeeds, .move tmpFile =>
    (s.fs.entries tmpFile).map fun f =>
      { (s.point i none).setThread i (.returned .done) with fs := s.fs.rename tmpFile path f }
  | .readFile path num_bytes, answer, .idle =>
    openRead s i path answer fun f => if num_bytes = kSizeMax then .getSize f else readSized f num_bytes
  | .readFile path _, .fails code _, .getSize _ => some (s.fail i code "couldn't obtain the file size of " path)
  | .readFile _ _, .succeeds, .getSize f => some (s.setThread i (readSized f (s.fs.files f).length))
  | .readFile path _, .fails code _, .read _ _ => some (s.fail i code "couldn't read " path)
  | .readFile _ _, .succeeds, .read f num_bytes =>
    some (s.setThread i (.returned (.bytes ((s.fs.files f).take num_bytes))))
  | .getMaterializedFileSize path, answer, .idle => openRead s i path answer .getSize
  | .getMaterializedFileSize path, .fails code _, .getSize _ =>
    some (s.fail i code "couldn't obtain the file size of " path)
  | .getMaterializedFileSize _, .succeeds, .getSize f =>
    some (s.setThread i (.returned (.size (s.fs.files f).length)))
  | _, _, _ => none

/-- One step of a thread. -/
def step (isTemp : AbsolutePath → Bool) (calls : ℕ → Call) (s : Machine) (op : ℕ × Answer) : Option Machine :=
  s.threads[op.1]?.bind (proceed isTemp s op.1 (calls op.1) op.2)

/-! ### What the functions are for -/

/-- The call as it would be in one piece: it replaces a file, or finds one. -/
def Call.atomic (contents : AbsolutePath → Option Bytes) :
    Call → (AbsolutePath → Option Bytes) × Option Bytes
  | .writeFileAtomic path data => (Function.update contents path (some data), none)
  | .readFile path _ => (contents, contents path)
  | .getMaterializedFileSize path => (contents, contents path)

def Call.path : Call → AbsolutePath
  | .writeFileAtomic path _ => path
  | .readFile path _ => path
  | .getMaterializedFileSize path => path

/-- A result that fits what the call did in one piece, if it did anything. -/
def Result.Fits (found : Option (Option Bytes)) : Call → Result → Prop
  | .writeFileAtomic _ _, .done => found = some none
  | .writeFileAtomic _ _, .error _ => found = none
  | .readFile _ num_bytes, .bytes ret => ∃ content, found = some (some content) ∧ ret = content.take num_bytes
  | .readFile _ _, .error _ => True
  | .getMaterializedFileSize _, .size fileSize => ∃ content, found = some (some content) ∧ fileSize = content.length
  | .getMaterializedFileSize _, .error _ => True
  | _, _ => False

end FileUtils

end EdenCommon
