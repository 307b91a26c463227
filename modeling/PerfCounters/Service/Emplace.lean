import PerfCounters.Service.Flush

/-!
Storing records through the service. A stored record that brings its side to the watermark starts a
drain in the background. For a record without room the policy decides: it is dropped, or the caller
drains until there is room.
-/

namespace PerfCounters

/-- What became of a record. -/
inductive Outcome where
  | stored
  | dropped
deriving DecidableEq, Repr

namespace Service

variable {α : Type}

/-- Counts a stored record. -/
def countStored (s : Service α) (b : Buffer α) : Service α :=
  { s with telemetry := s.telemetry.addEmplaced b.handles.emplaced 1 }.setBuffer b

/-- Starts a drain of a buffer that has reached its watermark, unless one is in flight. -/
def checkWatermark (s : Service α) (b : Buffer α) : Service α :=
  if b.atWatermark then (s.flushBuffer b false).1 else s

/-- Counts a stored record, and starts a drain at the watermark unless one is in flight. -/
def afterStore (s : Service α) (b : Buffer α) : Service α := (s.countStored b).checkWatermark b

/-- Counts a dropped record. -/
def afterDrop (s : Service α) (b : Buffer α) : Service α :=
  { s with telemetry := s.telemetry.addDropped b.handles.dropped 1 }.setBuffer
    { b with drops := b.drops + 1 }

/-- Stores a record in at most `attempts` tries, each but the first after a drain. -/
def emplaceWithin : Nat → Service α → BufferId → Record α → Service α × Except BufferError Outcome
  | 0, s, id, _ => (s, .error (.flushAborted id))
  | attempts + 1, s, id, r =>
    match s.configured id with
    | .error e => (s, .error e)
    | .ok b =>
      match b.push r with
      | (b, true) => (s.afterStore b, .ok .stored)
      | (_, false) =>
        match b.settings.policy with
        | .discard => (s.afterDrop b, .ok .dropped)
        | .lossless =>
          match s.flushBuffer b true with
          | (s, .error e) => (s, .error e)
          | (s, .ok ()) => emplaceWithin attempts s id r

/-- The number of tries that is always enough: two drains empty both sides, and a record that fits an
empty side fits after that. -/
def maxAttempts : Nat := 3

/-- Stores a record in a buffer. -/
def emplace (s : Service α) (id : BufferId) (r : Record α) :
    Service α × Except BufferError Outcome :=
  match s.configured id with
  | .error e => (s, .error e)
  | .ok b =>
    if b.canHold r.type then emplaceWithin maxAttempts s id r
    else (s, .error (.recordTooLarge id r.type.size b.settings.size))

end Service

end PerfCounters
