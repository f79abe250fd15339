import EdenCommon.Spec.IDGen
import EdenCommon.Spec.Tracing

/-!
# `TraceBlock`

The constructors, the move assignment, `close` and the destructor of the `TraceBlock`s of one
request, and `Tracer::getRequestData`, of `Tracing.h`. Tracing is enabled and disabled, and
IDs are generated by all threads, at any time in between.

What the blocks trace is recorded as it is handed to `ThreadLocalTracePoints::trace`.
-/

namespace EdenCommon

namespace Tracing

namespace Nest

structure TraceRequestData where
  traceId : ℕ
  blockId : ℕ
  deriving DecidableEq, Repr

structure TraceBlock where
  blockId_ : ℕ
  parentBlockId_ : ℕ
  deriving DecidableEq, Repr

/-- A block that has been created and not ended. -/
structure OpenBlock (Obj : Type) where
  /-- The object that has it now. -/
  owner : Obj
  /-- Its ID, if tracing was enabled when it was created. -/
  id : Option ℕ
  deriving DecidableEq, Repr

structure Sys (Tid Obj : Type) where
  enabled_ : Bool
  /-- The data of the request, made at its first use. -/
  requestData : Option TraceRequestData
  ids : IDGen.Sys Tid
  /-- The live objects. -/
  blocks : Obj → Option TraceBlock
  /-- record: the points traced, oldest first. -/
  tracePoints : List CompactTracePoint
  /-- record: the blocks still open, innermost first. -/
  opened : List (OpenBlock Obj)

inductive Op (Tid Obj : Type)
  | enable
  | disable
  /-- A thread makes a step of a call of `generateUniqueID` for something else. -/
  | generate (t : Tid)
  | construct (t : Tid) (a : Obj) (name : String) (timestamp : ℤ)
  | moveConstruct (a other : Obj)
  | moveAssign (a other : Obj) (timestamp : ℤ)
  | close (a : Obj) (timestamp : ℤ)
  | destroy (a : Obj) (timestamp : ℤ)
  deriving DecidableEq, Repr

variable {Tid Obj : Type} [DecidableEq Tid] [DecidableEq Obj]

def start (Tid Obj : Type) : Sys Tid Obj := ⟨false, none, IDGen.start Tid, fun _ => none, [], []⟩

omit [DecidableEq Tid] [DecidableEq Obj] in
/-- `getRequestData`, which makes the data if there is none. -/
def Sys.getRequestData (s : Sys Tid Obj) : TraceRequestData := s.requestData.getD ⟨0, 0⟩

omit [DecidableEq Obj] in
/-- The request's trace ID, which is generated if it has none. -/
def Sys.getTraceId (s : Sys Tid Obj) (ids : IDGen.Sys Tid) (t : Tid) : Option (ℕ × IDGen.Sys Tid) :=
  let traceId := s.getRequestData.traceId
  if traceId = 0 then IDGen.generateUniqueID ids t else some (traceId, ids)

/-- `TraceBlock(name)`; `none` if the thread is in the middle of another call. -/
def Sys.construct (s : Sys Tid Obj) (t : Tid) (a : Obj) (name : String) (timestamp : ℤ) : Option (Sys Tid Obj) :=
  if s.enabled_ then
    match IDGen.generateUniqueID s.ids t with
    | some (blockId_, ids) =>
      match s.getTraceId ids t with
      | some (traceId, ids) =>
        let parentBlockId_ := s.getRequestData.blockId
        some { s with
          ids := ids
          requestData := some ⟨traceId, blockId_⟩
          blocks := Function.update s.blocks a (some ⟨blockId_, parentBlockId_⟩)
          tracePoints := s.tracePoints ++ [⟨timestamp, traceId, blockId_, parentBlockId_, some name, true, false⟩]
          opened := ⟨a, some blockId_⟩ :: s.opened }
      | none => none
    | none => none
  else
    some { s with
      blocks := Function.update s.blocks a (some ⟨0, 0⟩)
      opened := ⟨a, none⟩ :: s.opened }

omit [DecidableEq Tid] in
/-- `close()` of the object `a`. -/
def Sys.close (s : Sys Tid Obj) (a : Obj) (block : TraceBlock) (timestamp : ℤ) : Sys Tid Obj :=
  let opened := s.opened.filter (·.owner ≠ a)
  if block.blockId_ ≠ 0 then
    let reqData := s.getRequestData
    { s with
      requestData := some { reqData with blockId := block.parentBlockId_ }
      blocks := Function.update s.blocks a (some { block with blockId_ := 0 })
      tracePoints := s.tracePoints ++
        [⟨timestamp, reqData.traceId, block.blockId_, block.parentBlockId_, none, false, true⟩]
      opened := opened }
  else { s with opened := opened }

omit [DecidableEq Tid] in
/-- `a` takes what `other` has; an object that takes what it has itself loses it. -/
def Sys.take (s : Sys Tid Obj) (a other : Obj) (block : TraceBlock) : Sys Tid Obj :=
  { s with
    blocks := Function.update (Function.update s.blocks a (some block)) other (some { block with blockId_ := 0 })
    opened := s.opened.map fun b => if b.owner = other then { b with owner := a } else b }

/-- One operation; `none` if it is on an object that is not live, or makes one that is. -/
def step (s : Sys Tid Obj) : Op Tid Obj → Option (Sys Tid Obj)
  | .enable => some { s with enabled_ := true }
  | .disable => some { s with enabled_ := false }
  | .generate t => (IDGen.step s.ids t).map fun ids => { s with ids := ids }
  | .construct t a name timestamp =>
    match s.blocks a with
    | none => s.construct t a name timestamp
    | some _ => none
  | .moveConstruct a other =>
    match s.blocks a, s.blocks other with
    | none, some block => some (s.take a other block)
    | _, _ => none
  | .moveAssign a other timestamp =>
    match s.blocks a with
    | some block =>
      let s := s.close a block timestamp
      (s.blocks other).map (s.take a other)
    | none => none
  | .close a timestamp => (s.blocks a).map fun block => s.close a block timestamp
  | .destroy a timestamp =>
    (s.blocks a).map fun block =>
      let s := s.close a block timestamp
      { s with blocks := Function.update s.blocks a none }

/-- The step does not wrap `global.counter` of `generateUniqueID`. -/
def NoWrap (s : Sys Tid Obj) (op : Op Tid Obj) : Prop :=
  ∀ s', step s op = some s' → s.ids.counter ≤ s'.ids.counter

instance (s : Sys Tid Obj) (op : Op Tid Obj) : Decidable (NoWrap s op) :=
  decidable_of_iff (∀ s' ∈ step s op, s.ids.counter ≤ s'.ids.counter) Iff.rfl

/-! ### What is wanted -/

omit [DecidableEq Tid] [DecidableEq Obj]

/-- The open blocks that were created while tracing was enabled, innermost first: the object
that has it and its ID. -/
def Sys.tracedOpen (s : Sys Tid Obj) : List (Obj × ℕ) := s.opened.filterMap fun b => b.id.map (b.owner, ·)

def Sys.openIds (s : Sys Tid Obj) : List ℕ := s.tracedOpen.map Prod.snd

/-- The ID of the innermost of them, 0 if there is none. -/
def Sys.innermost (s : Sys Tid Obj) : ℕ := s.openIds.headD 0

/-- The object whose block ends. -/
def Op.closes : Op Tid Obj → Option Obj
  | .moveAssign a _ _ | .close a _ | .destroy a _ => some a
  | _ => none

/-- Of the blocks created while tracing was enabled, the operation ends none but the innermost. -/
def WellNested (s : Sys Tid Obj) (op : Op Tid Obj) : Prop :=
  ∀ a, op.closes = some a → ∀ id, (a, id) ∈ s.tracedOpen → s.tracedOpen.head? = some (a, id)

instance {Tid Obj : Type} [DecidableEq Obj] (s : Sys Tid Obj) (op : Op Tid Obj) : Decidable (WellNested s op) :=
  decidable_of_iff (∀ x ∈ s.tracedOpen, op.closes = some x.1 → s.tracedOpen.head? = some x)
    ⟨fun h a ha id hid => h (a, id) hid ha, fun h x hx ha => h x.1 ha x.2 hx⟩

/-- The operation creates a block while tracing is disabled, or ends one so created. -/
def Untraced (s : Sys Tid Obj) (op : Op Tid Obj) : Prop :=
  (s.enabled_ = false ∧ ∃ t a name timestamp, op = .construct t a name timestamp) ∨
    ∃ a, op.closes = some a ∧ ⟨a, none⟩ ∈ s.opened

/-- The points of one block, oldest first. -/
def pointsOf (tracePoints : List CompactTracePoint) (id : ℕ) : List CompactTracePoint :=
  tracePoints.filter (·.blockId = id)

/-- A start point, and the stop point of the same block. -/
structure Matches (p q : CompactTracePoint) : Prop where
  start : p.start = true ∧ p.stop = false
  stop : q.start = false ∧ q.stop = true
  blockId : q.blockId = p.blockId
  parentBlockId : q.parentBlockId = p.parentBlockId
  traceId : q.traceId = p.traceId

/-- A block that is open has traced its start, and one that has ended its start and then its
stop. -/
def Paired (tracePoints : List CompactTracePoint) (openIds : List ℕ) (id : ℕ) : Prop :=
  if id ∈ openIds then ∃ p, pointsOf tracePoints id = [p] ∧ p.start = true ∧ p.stop = false
  else ∃ p q, pointsOf tracePoints id = [p, q] ∧ Matches p q

end Nest

end Tracing

end EdenCommon
