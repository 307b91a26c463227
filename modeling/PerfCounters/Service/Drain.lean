import PerfCounters.Service

/-!
How drains go on. A drain enters: it takes the gate of its side and hands the batch to the consumer.
Then it ends: the consumer has taken the batch, which leaves the buffer, or has failed, and the batch
stays. A side without records is drained without the consumer.
-/

namespace PerfCounters.Service

variable {α : Type}

/-- Starts a drain of a buffer that has none in flight. -/
def start (s : Service α) (b : Buffer α) : Service α :=
  { s with inFlight := s.inFlight ++ [b.id] }.setBuffer b.startDrain

/-- The drain of a buffer begins to deliver. -/
def enter (s : Service α) (id : BufferId) : Service α :=
  match s.buffer? id with
  | none => s
  | some b => s.setBuffer b.enterDrain

/-- The consumer answers a batch; one without records does not reach it. -/
def answer (s : Service α) (batch : Batch α) : Service α × Reply :=
  if batch.records.isEmpty then (s, {})
  else
    let reply := s.replies.headD {}
    ({ s with replies := s.replies.tail, log := s.log ++ [⟨batch, reply.accepted⟩] }, reply)

/-- Ends the drain of `b`, which is delivering `batch`; says whether it was delivered. -/
def leave (s : Service α) (b : Buffer α) (batch : Batch α) : Service α × Bool :=
  let (s, reply) := s.answer batch
  let telemetry := if reply.accepted
    then s.telemetry.countDrain b.handles batch.records.length reply.seconds
    else s.telemetry
  ({ s with telemetry, inFlight := s.inFlight.erase b.id }.setBuffer (b.endDrain reply.accepted),
    reply.accepted)

/-- The drain of a buffer goes on to its end; says whether its batch was delivered. -/
def finish (s : Service α) (id : BufferId) : Service α × Bool :=
  let s := s.enter id
  match s.buffer? id with
  | none => (s, true)
  | some b =>
    match b.delivering? with
    | none => (s, true)
    | some batch => s.leave b batch

/-- The consumer is at a batch of a buffer. -/
def isDelivering (s : Service α) (id : BufferId) : Bool :=
  match (s.buffer? id).bind Buffer.delivering? with
  | some batch => !batch.records.isEmpty
  | none => false

/-- Runs drains one after the other; a consumer that stalls stops at the first batch it is handed. -/
def runDrains (stalled : Bool) : List BufferId → Service α → Service α
  | [], s => s
  | id :: rest, s =>
    let s := s.enter id
    if stalled && s.isDelivering id then s else runDrains stalled rest (s.finish id).1

/-- Runs the drains in flight, oldest first. -/
def settle (s : Service α) (stalled : Bool) : Service α := runDrains stalled s.inFlight s

end PerfCounters.Service
