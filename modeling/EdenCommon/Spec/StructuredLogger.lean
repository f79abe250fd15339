import EdenCommon.Lib.Run
import EdenCommon.Lib.Split
import EdenCommon.Spec.DynamicEventInts
import EdenCommon.Spec.SubprocessScribeLogger
import Mathlib.Data.List.AList
import Mathlib.Data.List.Dedup

/-!
# From an event to the lines that the logger's child reads

`StructuredLogger::logEvent`, `populateDefaultFields`, the whole of `DynamicEvent`, and
`ScubaStructuredLogger::logDynamicEvent` in front of the queue of `SubprocessScribeLogger`. What an
event's `populate` does is a list of calls (`Call`). Events are built by the thread that logs them, so
a call of `logEvent` is one step, that of `log`.

A `double` is its IEEE 754 pattern. `folly::toJson` is not part of this repository: `Json` stands
for it and `Json.Lawful` says what is documented of it. No result depends on the
order of the entries of a map.
-/

namespace EdenCommon

open Lib

namespace StructuredLogger

/-! ### `DynamicEvent` -/

/-- A `std::unordered_map` with texts for keys. -/
abbrev UnorderedMap (α : Type) := AList fun _ : Bytes => α

variable {α : Type}

/-- `emplace`, which inserts nothing if the name is taken, and what follows it in the members of
`DynamicEvent`. -/
def emplaceOrThrow (text : String) (m : UnorderedMap α) (name : Bytes) (value : α) :
    Except IntFailure (UnorderedMap α) :=
  if name ∈ m then .error (.logicError ⟨text, name⟩) else .ok (m.insert name value)

/-- `DynamicEvent`, with all its maps. -/
structure Event where
  ints_ : UnorderedMap (BitVec 64)
  strings_ : UnorderedMap Bytes
  doubles_ : UnorderedMap (BitVec 64)
  stringVecs_ : UnorderedMap (List Bytes)
  stringSets_ : UnorderedMap (List Bytes)

def Event.empty : Event := ⟨∅, ∅, ∅, ∅, ∅⟩

/-- `std::isfinite`: the exponent is not all ones. -/
def isfinite (value : BitVec 64) : Bool := value.extractLsb' 52 11 != 0x7FF#11

/-- What `addTruncatedInt` keeps of a value. -/
def truncated (value : BitVec 64) (bits_to_keep : ℕ) : Except IntFailure (BitVec 64) :=
  if 64 < bits_to_keep then .error .checkFailed
  else do
    let highest := 64 - (← builtinClzll value)
    if highest ≤ bits_to_keep then .ok value
    else
      let one ← shiftLeft64 1#64 bits_to_keep
      let mask ← shiftLeft64 (one - 1#64) (highest - bits_to_keep)
      .ok (value &&& mask)

namespace Event

def addInt (ev : Event) (name : Bytes) (value : BitVec 64) : Except IntFailure Event :=
  (emplaceOrThrow "Attempted to insert duplicate int: " ev.ints_ name value).map fun ints_ => { ev with ints_ }

def addTruncatedInt (ev : Event) (name : Bytes) (value : BitVec 64) (bits_to_keep : ℕ) : Except IntFailure Event :=
  (truncated value bits_to_keep).bind (ev.addInt name)

def addBool (ev : Event) (name : Bytes) (value : Bool) : Except IntFailure Event :=
  ev.addInt name (if value then 1#64 else 0#64)

def addString (folly : Unicode) (ev : Event) (name value : Bytes) : Option (Except IntFailure Event) :=
  (ensureValidUtf8String folly value).map fun validatedValue =>
    (emplaceOrThrow "Attempted to insert duplicate string: " ev.strings_ name validatedValue).map
      fun strings_ => { ev with strings_ }

def addDouble (ev : Event) (name : Bytes) (value : BitVec 64) : Except IntFailure Event :=
  if isfinite value then
    (emplaceOrThrow "Attempted to insert duplicate double: " ev.doubles_ name value).map
      fun doubles_ => { ev with doubles_ }
  else .error .checkFailed

def addStringVec (folly : Unicode) (ev : Event) (name : Bytes) (value : List Bytes) :
    Option (Except IntFailure Event) :=
  (value.mapM (ensureValidUtf8Piece folly)).map fun validatedValue =>
    (emplaceOrThrow "Attempted to insert duplicate string vector: " ev.stringVecs_ name validatedValue).map
      fun stringVecs_ => { ev with stringVecs_ }

/-- The texts of a set may be the same once they are cleaned. -/
def validatedSet (folly : Unicode) (value : List Bytes) : Option (List Bytes) :=
  (value.mapM (ensureValidUtf8Piece folly)).map List.dedup

def addStringSet (folly : Unicode) (ev : Event) (name : Bytes) (value : List Bytes) :
    Option (Except IntFailure Event) :=
  (validatedSet folly value).map fun validatedValue =>
    (emplaceOrThrow "Attempted to insert duplicate string set: " ev.stringSets_ name validatedValue).map
      fun stringSets_ => { ev with stringSets_ }

end Event

/-- A call of a member that adds a field. -/
inductive Call
  | int (name : Bytes) (value : BitVec 64)
  | truncatedInt (name : Bytes) (value : BitVec 64) (bits_to_keep : ℕ)
  | bool (name : Bytes) (value : Bool)
  | string (name value : Bytes)
  | double (name : Bytes) (value : BitVec 64)
  | stringVec (name : Bytes) (value : List Bytes)
  | stringSet (name : Bytes) (value : List Bytes)

def Event.call (folly : Unicode) (ev : Event) : Call → Option (Except IntFailure Event)
  | .int name value => some (ev.addInt name value)
  | .truncatedInt name value bits_to_keep => some (ev.addTruncatedInt name value bits_to_keep)
  | .bool name value => some (ev.addBool name value)
  | .string name value => ev.addString folly name value
  | .double name value => some (ev.addDouble name value)
  | .stringVec name value => ev.addStringVec folly name value
  | .stringSet name value => ev.addStringSet folly name value

/-- The calls that `populate` makes. The first one that fails is the last. -/
def Event.populate (folly : Unicode) : Event → List Call → Option (Except IntFailure Event)
  | ev, [] => some (.ok ev)
  | ev, c :: calls =>
    match ev.call folly c with
    | some (.ok ev') => ev'.populate folly calls
    | failed => failed

end StructuredLogger

/-! ### `StructuredLogger` -/

/-- What `populateDefaultFields` uses of `SessionInfo`. -/
structure SessionInfo where
  username : Bytes
  hostname : Bytes
  os : Bytes
  osVersion : Bytes
  /-- On Apple systems only. -/
  systemArchitecture : Option Bytes

structure StructuredLogger where
  enabled_ : Bool
  sessionId_ : BitVec 32
  sessionInfo_ : SessionInfo

namespace StructuredLogger

def ascii (s : String) : Bytes := s.toList.map fun c => UInt8.ofNat c.toNat

/-- The calls of `populateDefaultFields`; `time` is what the clock says. -/
def defaultFields (logger : StructuredLogger) (time : BitVec 64) (type : Option Bytes) : List Call :=
  [.int (ascii "time") time, .int (ascii "session_id") (logger.sessionId_.setWidth 64)] ++
  type.toList.map (.string (ascii "type")) ++
  [.string (ascii "user") logger.sessionInfo_.username, .string (ascii "host") logger.sessionInfo_.hostname,
    .string (ascii "os") logger.sessionInfo_.os, .string (ascii "osver") logger.sessionInfo_.osVersion] ++
  logger.sessionInfo_.systemArchitecture.toList.map (.string (ascii "system_architecture"))

def populateDefaultFields (folly : Unicode) (logger : StructuredLogger) (time : BitVec 64) (type : Option Bytes) :
    Option (Except IntFailure Event) :=
  Event.empty.populate folly (logger.defaultFields time type)

/-- What `logEvent` hands to `logDynamicEvent`, if it does. The type is that of a `TypedEvent`. -/
def logEvent (folly : Unicode) (logger : StructuredLogger) (time : BitVec 64) (type : Option Bytes)
    (calls : List Call) : Option (Except IntFailure (Option Event)) :=
  if logger.enabled_ then
    match logger.populateDefaultFields folly time type with
    | some (.ok de) => (de.populate folly calls).map (Except.map some)
    | some (.error e) => some (.error e)
    | none => none
  else some (.ok none)

/-! ### `ScubaStructuredLogger` -/

/-- The object that `logDynamicEvent` builds. -/
structure Document where
  int : Option (UnorderedMap (BitVec 64))
  normal : Option (UnorderedMap Bytes)
  double : Option (UnorderedMap (BitVec 64))
  normvector : Option (UnorderedMap (List Bytes))
  tags : Option (UnorderedMap (List Bytes))

/-- A map that is not empty. -/
def ifAny (m : UnorderedMap α) : Option (UnorderedMap α) := if m.entries.isEmpty then none else some m

/-- The document of `logDynamicEvent`. -/
def document (event : Event) : Document where
  int := ifAny event.ints_
  normal := ifAny event.strings_
  double := ifAny event.doubles_
  normvector := ifAny event.stringVecs_
  tags := ifAny event.stringSets_

/-- All its numbers have a text in JSON. -/
def Document.Finite (d : Document) : Prop := ∀ m, d.double = some m → ∀ e ∈ m.entries, isfinite e.2 = true

structure Json where
  /-- `folly::toJson`, with no result if it throws. -/
  toJson : Document → Option Bytes

/-- Finite numbers are written, and control characters are escaped. -/
def Json.Lawful (json : Json) : Prop :=
  ∀ d : Document, d.Finite → ∃ text, json.toJson d = some text ∧ SubprocessScribeLogger.newline ∉ text

/-- The constructor of `ScubaStructuredLogger`. -/
def scuba (sessionId : BitVec 32) (sessionInfo : SessionInfo) : StructuredLogger where
  enabled_ := true
  sessionId_ := sessionId
  sessionInfo_ := sessionInfo

/-! ### Runs -/

inductive Op
  | logEvent (time : BitVec 64) (type : Option Bytes) (calls : List Call)
  /-- The writer and the destructor of the `SubprocessScribeLogger`. -/
  | scribe (op : SubprocessScribeLogger.Op)

/-- One step of a `ScubaStructuredLogger` over its queue. An exception reaches the caller of
`logEvent` and a failed check ends the program. Only `logEvent` calls `log`. -/
def step (folly : Unicode) (json : Json) (logger : StructuredLogger) (l : SubprocessScribeLogger.Logger) :
    Op → Option SubprocessScribeLogger.Logger
  | .logEvent time type calls =>
    match logger.logEvent folly time type calls with
    | some (.ok (some event)) =>
      match json.toJson (document event) with
      | some message => SubprocessScribeLogger.step l (.log message)
      | none => some l
    | some (.ok none) => some l
    | some (.error (.logicError _)) => some l
    | some (.error _) => none
    | none => none
  | .scribe (.log _) => none
  | .scribe op => SubprocessScribeLogger.step l op

/-- The document that a step hands to the queue. -/
def Op.document (folly : Unicode) (logger : StructuredLogger) : Op → Option Document
  | .logEvent time type calls =>
    match logger.logEvent folly time type calls with
    | some (.ok (some event)) => some (StructuredLogger.document event)
    | _ => none
  | .scribe _ => none

/-- The texts of the documents that the calls of a run hand to the queue. -/
def texts (folly : Unicode) (json : Json) (logger : StructuredLogger) (ops : List Op) : List Bytes :=
  (ops.filterMap (Op.document folly logger)).filterMap json.toJson

/-- What the child takes for messages. -/
def completeLines (bytes : List UInt8) : List Bytes :=
  (bytes.splitOnP fun b => b == SubprocessScribeLogger.newline).dropLast

/-! ### What a document says

Names are told apart within a group only, and the value of a field says which group it is in. -/

inductive Group
  | int
  | normal
  | double
  | normvector
  | tags
  deriving DecidableEq, Repr

inductive Value
  | int (value : BitVec 64)
  | normal (value : Bytes)
  | double (value : BitVec 64)
  | normvector (value : List Bytes)
  | tags (value : List Bytes)
  deriving DecidableEq, Repr

def Value.group : Value → Group
  | .int _ => .int
  | .normal _ => .normal
  | .double _ => .double
  | .normvector _ => .normvector
  | .tags _ => .tags

def Group.duplicateText : Group → String
  | .int => "Attempted to insert duplicate int: "
  | .normal => "Attempted to insert duplicate string: "
  | .double => "Attempted to insert duplicate double: "
  | .normvector => "Attempted to insert duplicate string vector: "
  | .tags => "Attempted to insert duplicate string set: "

/-- The group and the name that a call adds. -/
def Call.slot : Call → Group × Bytes
  | .int name _ => (.int, name)
  | .truncatedInt name _ _ => (.int, name)
  | .bool name _ => (.int, name)
  | .string name _ => (.normal, name)
  | .double name _ => (.double, name)
  | .stringVec name _ => (.normvector, name)
  | .stringSet name _ => (.tags, name)

/-- The value that a call stores, or how it ends without one. -/
def Call.value (folly : Unicode) : Call → Option (Except IntFailure Value)
  | .int _ value => some (.ok (.int value))
  | .truncatedInt _ value bits_to_keep => some ((truncated value bits_to_keep).map .int)
  | .bool _ value => some (.ok (.int (if value then 1#64 else 0#64)))
  | .string _ value => (ensureValidUtf8String folly value).map fun text => .ok (.normal text)
  | .double _ value => some (if isfinite value then .ok (.double value) else .error .checkFailed)
  | .stringVec _ value => (value.mapM (ensureValidUtf8Piece folly)).map fun texts => .ok (.normvector texts)
  | .stringSet _ value => (Event.validatedSet folly value).map fun texts => .ok (.tags texts)

/-- The call does not fail by itself. -/
def Call.Sound (folly : Unicode) (c : Call) : Prop := ∃ v, c.value folly = some (.ok v)

def Document.find (d : Document) : Group × Bytes → Option Value
  | (.int, name) => d.int.bind fun m => (m.lookup name).map .int
  | (.normal, name) => d.normal.bind fun m => (m.lookup name).map .normal
  | (.double, name) => d.double.bind fun m => (m.lookup name).map .double
  | (.normvector, name) => d.normvector.bind fun m => (m.lookup name).map .normvector
  | (.tags, name) => d.tags.bind fun m => (m.lookup name).map .tags

end StructuredLogger

end EdenCommon
