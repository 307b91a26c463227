import PerfCounters.RecordBuffer
import PerfCounters.Service.Error
import PerfCounters.Telemetry

/-!
A logical buffer: two record buffers, one that takes records and one that is drained. A drain takes
over the records of one side while the other side goes on; at most one drain is in flight.
-/

namespace PerfCounters

/-- What becomes of a record for which there is no room. -/
inductive Policy where
  /-- It is dropped and counted. -/
  | discard
  /-- The caller drains the buffer until there is room. -/
  | lossless
deriving DecidableEq, Repr, Inhabited

/-- The settings of a logical buffer. -/
structure Settings where
  /-- The label of its telemetry; its number if empty. -/
  name : String := ""
  context : Nat := 0
  /-- The bytes of each side. -/
  size : Nat := 0
  /-- The bytes in use from which on a drain is started; 0 for never. -/
  watermark : Nat := 0
  policy : Policy := .discard
  /-- Handed on with every batch. -/
  user : Nat := 0
deriving DecidableEq, Repr

namespace Settings

/-- What is wrong with the settings. -/
def fault? (s : Settings) : Option SettingsError :=
  if s.size = 0 then some .sizeNotPositive
  else if s.watermark > s.size then some (.watermarkExceedsSize s.watermark s.size)
  else none

/-- The label of the telemetry of buffer `id`. -/
def label (s : Settings) (id : BufferId) : String := if s.name.isEmpty then toString id else s.name

end Settings

/-- The records that one drain hands to the consumer. -/
structure Batch (α : Type) where
  buffer : BufferId
  context : Nat
  user : Nat
  /-- The records the buffer had dropped by then. -/
  drops : Nat
  records : List (Record α)
deriving Repr

/-- One of the two sides of a buffer. -/
inductive Side where
  | left
  | right
deriving DecidableEq, Repr, Inhabited

/-- The opposite side. -/
def Side.other : Side → Side
  | .left => .right
  | .right => .left

/-- A drain in flight: the side it empties and, from when it has begun to deliver, its batch. -/
structure Drain (α : Type) where
  side : Side
  batch : Option (Batch α) := none

/-- A configured buffer. -/
structure Buffer (α : Type) where
  id : BufferId
  settings : Settings
  left : RecordBuffer α
  right : RecordBuffer α
  /-- The side that takes records. -/
  side : Side := .left
  drops : Nat := 0
  drain : Option (Drain α) := none
  handles : SeriesHandles

namespace Buffer

variable {α : Type}

/-- The thread that drains. -/
def worker : Thread := 1

/-- A buffer without records. -/
def ofSettings (id : BufferId) (settings : Settings) (handles : SeriesHandles) : Buffer α :=
  { id, settings, handles
    left := RecordBuffer.ofCapacity settings.size
    right := RecordBuffer.ofCapacity settings.size }

/-- The label of its telemetry. -/
def label (b : Buffer α) : String := b.settings.label b.id

/-- The record buffer of a side. -/
def store (b : Buffer α) : Side → RecordBuffer α
  | .left => b.left
  | .right => b.right

/-- Changes the record buffer of a side. -/
def modifyStore (b : Buffer α) (side : Side) (f : RecordBuffer α → RecordBuffer α) : Buffer α :=
  match side with
  | .left => { b with left := f b.left }
  | .right => { b with right := f b.right }

/-- The record buffer that takes records. -/
def current (b : Buffer α) : RecordBuffer α := b.store b.side

/-- A record of this type fits a side that is empty. -/
def canHold (b : Buffer α) (t : RecordType) : Bool := b.left.canHold t

/-- The bytes in use on the side that takes records. -/
def pending (b : Buffer α) : Nat := b.current.count

/-- The side that takes records has reached the watermark. -/
def atWatermark (b : Buffer α) : Bool :=
  0 < b.settings.watermark && b.settings.watermark ≤ b.pending

/-- A drain is in flight. -/
def isBusy (b : Buffer α) : Bool := b.drain.isSome

/-- Stores a record on the current side if there is room; says whether it did. Where records may be
dropped the call does not wait for the gate. -/
def push (b : Buffer α) (r : Record α) : Buffer α × Bool :=
  let (store, stored) := match b.settings.policy with
    | .discard => b.current.tryEmplace r
    | .lossless => (b.current.emplace? r).getD (b.current, false)
  (b.modifyStore b.side fun _ => store, stored)

/-! ### Drains -/

/-- Starts a drain of the current side; records go to the other side from now on. -/
def startDrain (b : Buffer α) : Buffer α :=
  { b with side := b.side.other, drain := some { side := b.side } }

/-- What a drain of a side would deliver now. -/
def batch (b : Buffer α) (side : Side) : Batch α :=
  { buffer := b.id, context := b.settings.context, user := b.settings.user, drops := b.drops
    records := (b.store side).records }

/-- The drain in flight takes the gate and begins to deliver, if it has not begun. -/
def enterDrain (b : Buffer α) : Buffer α :=
  match b.drain with
  | some { side, batch := none } =>
    let locked := b.modifyStore side fun store => (store.lock? worker).getD store
    { locked with drain := some { side, batch := some (b.batch side) } }
  | _ => b

/-- The batch that is being delivered. -/
def delivering? (b : Buffer α) : Option (Batch α) := b.drain.bind Drain.batch

/-- Ends the drain in flight. A delivered batch leaves the buffer; a refused one stays. -/
def endDrain (b : Buffer α) (delivered : Bool) : Buffer α :=
  match b.drain with
  | none => b
  | some d =>
    let emptied := b.modifyStore d.side fun store =>
      (if delivered then store.empty else store).unlock worker
    { emptied with drain := none }

end Buffer

end PerfCounters
