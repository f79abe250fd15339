import EdenCommon.Lib.LittleEndian
import EdenCommon.Spec.Path

/-!
# Listing a directory on Windows

`getAllDirectoryEntryNames` of `FileUtils.cpp` and the conversion of `StringConv.cpp`. The
Windows calls are parameters. `NtQueryDirectoryFile` answers every call with a status and 16 KiB
of memory; a read outside of them is undefined. The entries in them are chained by offsets, and
`Batch` is how the system lays them out.
-/

namespace EdenCommon

open Lib

namespace Directory

abbrev WCHAR := UInt16

/-- The bits of the `LONG`. -/
abbrev NTSTATUS := UInt32

def STATUS_NO_MORE_FILES : NTSTATUS := 0x80000006

def FACILITY_NT_BIT : UInt32 := 0x10000000

def HRESULT_FROM_NT (status : NTSTATUS) : UInt32 := status ||| FACILITY_NT_BIT

structure Windows where
  /-- What `CP_UTF8` makes of a wide string, or the error. -/
  utf8 : List WCHAR → Except UInt32 Bytes
  /-- `CreateFileW`. -/
  createFile : AbsolutePath → Except UInt32 Unit

/-- `std::system_error`; the flag is for the category of `HRESULT`s. -/
structure SystemError where
  hresult : Bool
  code : UInt32
  what : List (String ⊕ Bytes)
  deriving DecidableEq, Repr

/-- What leaves a function other than by `return`. -/
inductive Thrown
  | systemError (e : SystemError)
  | path (e : PathError)
  /-- A read outside of the buffer. -/
  | outOfBounds
  /-- The turns of the model are used up. -/
  | running
  deriving DecidableEq, Repr

/-! ### Wide strings -/

/-- `WideCharToMultiByte`: the number of bytes, 0 when it fails, and the bytes. Without room it
only counts. -/
def WideCharToMultiByte (W : Windows) (wide : List WCHAR) (room : Option ℕ) : ℕ × Bytes :=
  match W.utf8 wide, room with
  | .error _, _ => (0, [])
  | .ok bs, none => (bs.length, [])
  | .ok bs, some n => if bs.length ≤ n then (bs.length, bs) else (0, [])

def GetLastError (W : Windows) (wide : List WCHAR) : UInt32 :=
  match W.utf8 wide with
  | .error e => e
  | .ok _ => 0

def wideToMultibyteString (W : Windows) (wideCharPiece : List WCHAR) : Except Thrown Bytes :=
  if wideCharPiece = [] then .ok []
  else
    let size := (WideCharToMultiByte W wideCharPiece none).1
    let result := WideCharToMultiByte W wideCharPiece (some size)
    if 0 < size ∧ size = result.1 then .ok result.2
    else .error (.systemError ⟨false, GetLastError W wideCharPiece, [.inl "Failed to convert wide char to char"]⟩)

/-- `PathComponent(std::wstring_view)`. -/
def componentOfWide (W : Windows) (src : List WCHAR) : Except Thrown PathComponent := do
  let path_ ← wideToMultibyteString W src
  match pathComponentSanityCheck .windows path_ nulTerminator with
  | .ok () => .ok ⟨path_⟩
  | .error e => .error (.path e)

/-! ### The buffer -/

def kBufferSize : ℕ := 16 * 1024

def readULONG (buffer : Bytes) (pos : ℕ) : Option ℕ := (readBytes buffer pos 4).map ofBytesLE

def wideOf : Bytes → List WCHAR
  | lo :: hi :: bs => UInt16.ofNat (lo.toNat + hi.toNat * 256) :: wideOf bs
  | _ => []

def readWide (buffer : Bytes) (pos n : ℕ) : Option (List WCHAR) := (readBytes buffer pos (2 * n)).map wideOf

/-- `L"."` and `L".."`. -/
def wideDot : List WCHAR := [0x2E]
def wideDotDot : List WCHAR := [0x2E, 0x2E]

/-- The entries of the directory itself and of its parent are left out. -/
def addEntry (W : Windows) (direntNames : List PathComponent) (win_name : List WCHAR) :
    Except Thrown (List PathComponent) :=
  if win_name ≠ wideDot ∧ win_name ≠ wideDotDot then
    (componentOfWide W win_name).map fun name => direntNames ++ [name]
  else .ok direntNames

/-- The loop over the entries of a buffer, from the one at `dirent` on. -/
def direntLoop (W : Windows) (buffer : Bytes) : ℕ → ℕ → List PathComponent → Except Thrown (List PathComponent)
  | 0, _, _ => .error .running
  | fuel + 1, dirent, direntNames =>
    match readULONG buffer (dirent + 8) with
    | none => .error .outOfBounds
    | some fileNameLength =>
      match readWide buffer (dirent + 12) (fileNameLength / 2) with
      | none => .error .outOfBounds
      | some win_name => do
        let direntNames ← addEntry W direntNames win_name
        match readULONG buffer dirent with
        | none => .error .outOfBounds
        | some 0 => .ok direntNames
        | some nextEntryOffset => direntLoop W buffer fuel (dirent + nextEntryOffset) direntNames

/-- What a call of `NtQueryDirectoryFile` leaves behind. -/
structure Answer where
  status : NTSTATUS
  buffer : Bytes
  size : buffer.length = kBufferSize

/-- `fmt::format("couldn't iterate on {}, {:x}", path, status)`. -/
def couldntIterate (path : AbsolutePath) (status : NTSTATUS) : SystemError :=
  ⟨true, HRESULT_FROM_NT status, [.inl "couldn't iterate on ", .inr path.path_, .inl ", ",
    .inl (String.ofList (Nat.toDigits 16 status.toNat))]⟩

/-- The calls from the `k`-th on. Every turn of `direntLoop` moves on in the buffer, so its size
bounds them. -/
def queryLoop (W : Windows) (path : AbsolutePath) (answers : ℕ → Answer) :
    ℕ → ℕ → List PathComponent → Except Thrown (Except SystemError (List PathComponent))
  | 0, _, _ => .error .running
  | fuel + 1, k, direntNames =>
    if (answers k).status ≠ 0 then
      if (answers k).status = STATUS_NO_MORE_FILES then .ok (.ok direntNames)
      else .ok (.error (couldntIterate path (answers k).status))
    else do
      let direntNames ← direntLoop W (answers k).buffer (kBufferSize + 1) 0 direntNames
      queryLoop W path answers fuel (k + 1) direntNames

def getAllDirectoryEntryNames (W : Windows) (path : AbsolutePath) (answers : ℕ → Answer) (fuel : ℕ) :
    Except Thrown (Except SystemError (List PathComponent)) :=
  match W.createFile path with
  | .error code => .ok (.error ⟨false, code, [.inl "couldn't open ", .inr path.path_]⟩)
  | .ok () => queryLoop W path answers fuel 0 []

/-! ### How the system lays out the entries -/

/-- A `FILE_NAMES_INFORMATION`, and what stands between it and the next one. -/
structure Dirent where
  FileIndex : UInt32
  FileName : List WCHAR
  padding : Bytes
  deriving DecidableEq, Repr

def wideBytes (name : List WCHAR) : Bytes := name.flatMap fun c => toBytesLE 2 c.toNat

def Dirent.size (d : Dirent) : ℕ := 12 + 2 * d.FileName.length + d.padding.length

def Dirent.bytes (d : Dirent) (nextEntryOffset : ℕ) : Bytes :=
  toBytesLE 4 nextEntryOffset ++ toBytesLE 4 d.FileIndex.toNat ++ toBytesLE 4 (2 * d.FileName.length) ++
    wideBytes d.FileName ++ d.padding

/-- Every entry says how far away the next one is; the last one says 0. -/
def layout : List Dirent → Bytes
  | [] => []
  | [d] => d.bytes 0
  | d :: d' :: ds => d.bytes d.size ++ layout (d' :: ds)

/-- What a call that finds entries fills the buffer with. -/
structure Batch where
  entries : List Dirent
  /-- What was in the rest of the buffer before. -/
  rest : Bytes
  ne_nil : entries ≠ []
  size : (layout entries ++ rest).length = kBufferSize

def Batch.answer (b : Batch) : Answer := ⟨0, layout b.entries ++ b.rest, b.size⟩

/-- A directory that is read in these batches. -/
def listing (batches : List Batch) (last : Answer) (k : ℕ) : Answer :=
  match batches[k]? with
  | some b => b.answer
  | none => last

/-- The names of the entries that are files. -/
def entryNames (batches : List Batch) : List (List WCHAR) :=
  ((batches.flatMap Batch.entries).map Dirent.FileName).filter fun n => n ≠ wideDot ∧ n ≠ wideDotDot

end Directory

end EdenCommon
