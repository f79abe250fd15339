import EdenCommon.Lib.Run
import EdenCommon.Spec.ProcessInfoCache

/-!
# What has happened to a `ProcessInfoCache`

A history is recorded beside a run: the entries of `infos` that were created, the calls of
`getAllProcessInfos`, the references to nodes of `infos` and the nodes that were cleared.
Nothing reads it.
-/

namespace EdenCommon

namespace ProcessInfoCache

variable {Info : Type}

/-! ### What a step does -/

/-- `recordAccess` on a node, with a reading of the clock. -/
def Op.accesses (s : Sys Info) : Op Info → Option (PromiseId × Time)
  | .lookup _ now (some node) => some (node, now)
  | .proceed i =>
    match s.callers[i]? with
    | some (.add pid now) => (s.state_.find pid).map fun node => (node.info_, now)
    | some (.addUpdate pid now) => (s.state_.find pid).map fun node => (node.info_, now)
    | _ => none
  | _ => none

/-- `lookup` finds a node in `infos`. -/
def Op.finds (s : Sys Info) : Op Info → Option (PromiseId × Time)
  | .proceed i =>
    match s.callers[i]? with
    | some (.lookup pid now) => (s.state_.find pid).map fun node => (node.info_, now)
    | _ => none
  | _ => none

/-- `lookup` or `add` creates an entry and queues its request. -/
def Op.creates (s : Sys Info) : Op Info → Option (Pid × PromiseId × Time)
  | .proceed i =>
    match s.callers[i]? with
    | some (.lookup pid now) => if (s.state_.find pid).isNone then some (pid, s.nextPromise, now) else none
    | some (.addUpdate pid now) => if (s.state_.find pid).isNone then some (pid, s.nextPromise, now) else none
    | _ => none
  | _ => none

/-- `getAllProcessInfos` queues its request. -/
def Op.asks (s : Sys Info) : Op Info → Option PromiseId
  | .proceed i =>
    match s.callers[i]? with
    | some .getAll => some s.nextPromise
    | _ => none
  | _ => none

/-- `clearExpired` with a reading of the clock. -/
def Op.clears (s : Sys Info) : Op Info → Option Time
  | .expire now =>
    match s.worker with
    | .reading [] size _ currentNamesSize => if currentNamesSize < s.waterLevel + 2 * size then some now else none
    | _ => none
  | .collect =>
    match s.worker with
    | .collecting now _ => some now
    | _ => none
  | _ => none

/-! ### Histories -/

/-- A node that `clearExpired` has removed. -/
structure Cleared where
  info_ : PromiseId
  lastAccess_ : Time
  now : Time
  deriving DecidableEq, Repr

structure History where
  /-- The entries, in the order of their requests. -/
  created : List (Pid × PromiseId)
  /-- The calls of `getAllProcessInfos`, with the number of entries created before. -/
  asked : List (PromiseId × ℕ)
  /-- The references to nodes of `infos`. -/
  references : List (PromiseId × Time)
  cleared : List Cleared

def State.holds (st : State) (p : PromiseId) : Bool := st.infos.any fun e => e.2.info_ = p

/-- The nodes that `clearExpired` removes. -/
def State.expired (st : State) (expiry now : Time) : List Cleared :=
  (st.infos.filter fun e => expiry ≤ now - e.2.lastAccess_).map fun e => ⟨e.2.info_, e.2.lastAccess_, now⟩

def History.record (expiry : Time) (s : Sys Info) (h : History) (op : Op Info) : History where
  created := h.created ++ (op.creates s).toList.map fun x => (x.1, x.2.1)
  asked := h.asked ++ (op.asks s).toList.map fun p => (p, h.created.length)
  references := h.references ++
    (((op.accesses s).toList ++ (op.finds s).toList).filter fun x => s.state_.holds x.1) ++
    (op.creates s).toList.map Prod.snd
  cleared := h.cleared ++ (op.clears s).toList.flatMap fun now => s.state_.expired expiry now

/-- A step, recorded. -/
def recorded (expiry : Time) : Sys Info × History → Op Info → Option (Sys Info × History) :=
  Lib.recorded (step expiry) (History.record expiry)

def initRecorded : Sys Info × History := (init, ⟨[], [], [], []⟩)

/-! ### The water level -/

structure Water where
  /-- The lookups answered since the last prune by the water level. -/
  processed : ℕ
  /-- The `currentNamesSize` of the last iteration. -/
  sampled : ℕ
  /-- The size of `infos` behind the last such prune. -/
  retained : ℕ
  /-- The last iteration made such a prune. -/
  pruned : Bool
  deriving DecidableEq, Repr

def Water.record (expiry : Time) (s : Sys Info) (w : Water) (op : Op Info) : Water :=
  match op with
  | .swap => { w with sampled := s.state_.infos.length }
  | .readInfo _ => { w with processed := w.processed + 1 }
  | .expire _ =>
    match op.clears s with
    | some now =>
      { w with processed := 0, retained := (s.state_.clearExpired expiry now).infos.length, pruned := true }
    | none => { w with pruned := false }
  | _ => w

/-- A step, with the record of the water level. -/
def measured (expiry : Time) : Sys Info × Water → Op Info → Option (Sys Info × Water) :=
  Lib.recorded (step expiry) (Water.record expiry)

def initMeasured : Sys Info × Water := (init, ⟨0, 0, 0, false⟩)

end ProcessInfoCache

end EdenCommon
