import EdenCommon.Spec.MappedDiskVector

/-!
# The mapping of a `MappedDiskVector`

The member `map_`, and beside the object the mapping that the kernel keeps for it. The
pointers into the mapping are relative to `map_` in the model of the vector, so this is
where it matters that `mremap` may move the mapping: the members are right as long as
they are those of the kernel (`Live`). An access otherwise is a signal, and `mremap`
fails on anything but a mapping.
-/

namespace EdenCommon

open Lib

namespace MappedDiskVector

/-- A vector, the address of its mapping, and the address and length of the kernel's mapping. -/
structure Mapped (R : RecordType) where
  vec : MappedDiskVector R
  map_ : ℕ
  mapping : Option (ℕ × ℕ)

namespace Mapped

variable {R : RecordType}

/-- The members describe the mapping that there is. -/
def Live (m : Mapped R) : Prop := m.mapping = some (m.map_, m.vec.mapSizeInBytes_)

instance (m : Mapped R) : Decidable m.Live := inferInstanceAs (Decidable (_ = _))

abbrev Method (R : RecordType) (α : Type) := EStateM Error (Disk × Mapped R) α

def this : Method R (MappedDiskVector R) := do return (← get).2.vec

/-- A method that accesses the mapping at `map_` and leaves the mapping where it is. -/
def onVec {α : Type} (m : MappedDiskVector.Method R α) : Method R α := fun s =>
  if s.2.Live then
    match m (s.1, s.2.vec) with
    | .ok a s' => .ok a (s'.1, { s.2 with vec := s'.2 })
    | .error e s' => .error e (s'.1, { s.2 with vec := s'.2 })
  else .error .signal s

/-- `mremap(map_, mapSizeInBytes_, newFileSize, MREMAP_MAYMOVE)`, which gives `newMap`. -/
def mremap (e : Error) (newFileSize newMap : ℕ) : Method R Unit := do
  onFst (orThrow e Disk.call)
  let s ← get
  if s.2.Live then modify fun s => (s.1, { s.2 with mapping := some (newMap, newFileSize) }) else throw e

/-- The growth branch of `emplace_back`. -/
def grow (newMap : ℕ) : Method R Unit := do
  let v ← this
  let oldSize := v.size
  let newFileSize := (v.mapSizeInBytes_ + growth) % 2 ^ 64
  onFst (xcheck (newFileSize % kPageSize = 0))
  onFst (extendFile v.file_ newFileSize)
  mremap (.system ("mremap failed when growing capacity from " ++ toString v.mapSizeInBytes_ ++ " to " ++
    toString newFileSize)) newFileSize newMap
  modify fun s => (s.1, { s.2 with
    map_ := newMap
    vec := ⟨v.file_, sizeofHeader, (sizeofHeader + oldSize * R.sizeof) % 2 ^ 64, newFileSize⟩ })
  onFst (populateForWrite (newFileSize - growth) growth)

def emplaceBack (newMap : ℕ) (x : R.Value) : Method R Unit := do
  let v ← this
  (if v.hasRoom 1 then pure () else grow newMap)
  onVec (constructBack x)

/-! ### Sessions -/

structure Session (T : TableType) where
  disk : Disk
  vec : Option (Mapped T.toRecordType)

def answer {T : TableType} {α : Type} (f : α → Answer T.toRecordType) :
    EStateM.Result Error (Disk × Mapped T.toRecordType) α → Session T × Answer T.toRecordType
  | .ok a s => (⟨s.1, some s.2⟩, f a)
  | .error e s => (⟨s.1, some s.2⟩, .threw e)

/-- One operation; `address` is where the kernel puts the mapping if it makes or moves one. The
constructor maps as many bytes as it keeps in `mapSizeInBytes_`. -/
def step (T : TableType) (old : OldVersions T.toRecordType) (path : String) (s : Session T) (op : Op T.toRecordType)
    (outcomes : List Outcome) (address : ℕ) : Option (Session T × Answer T.toRecordType) :=
  let disk := { s.disk with outcomes := outcomes }
  match op, s.vec with
  | .reopen, none =>
    match open' T old path none disk with
    | .ok v d => some (⟨d, some ⟨v, address, some (address, v.mapSizeInBytes_)⟩⟩, .done)
    | .error e d => some (⟨d, none⟩, .threw e)
  | .emplaceBack x, some m => some (answer (fun _ => .done) (emplaceBack address x (disk, m)))
  | .popBack, some m => if m.vec.size = 0 then none else some (answer (fun _ => .done) (onVec popBack (disk, m)))
  | .get i, some m => if i < m.vec.size then some (answer .value (onVec (onFst (m.vec.entry i)) (disk, m))) else none
  | .set i x, some m =>
    if i < m.vec.size then some (answer (fun _ => .done) (onVec (onFst (m.vec.setEntry i x)) (disk, m))) else none
  | .close, some _ => some (⟨disk, none⟩, .done)
  | _, _ => none

/-- An operation, how its calls end, and where its mapping is put. -/
structure Call (R : RecordType) where
  op : Op R
  outcomes : List Outcome
  address : ℕ

/-- A step that keeps a log. -/
def logStep (T : TableType) (old : OldVersions T.toRecordType) (path : String)
    (s : Session T × List (Op T.toRecordType × Answer T.toRecordType)) (call : Call T.toRecordType) :
    Option (Session T × List (Op T.toRecordType × Answer T.toRecordType)) :=
  (step T old path s.1 call.op call.outcomes call.address).map fun r => (r.1, s.2 ++ [(call.op, r.2)])

end Mapped

end MappedDiskVector

end EdenCommon
