import PerfCounters.Service.Buffer

/-!
The service: a registry of logical buffers, the drains in flight and the consumer of their batches.

Calls come from one caller. Drains are run by workers: a drain that was started ends at a later step,
on its own or because a call waits for it. The consumer answers each batch; what it will answer is
part of the state, so that a run is determined by its steps.
-/

namespace PerfCounters

/-- What the consumer does with a batch: it takes it or fails, after some time. -/
structure Reply where
  accepted : Bool := true
  seconds : Float := 0
deriving Repr, Inhabited

/-- A batch that was handed to the consumer, and whether it took it. -/
structure Delivery (α : Type) where
  batch : Batch α
  accepted : Bool
deriving Repr

/-- The buffers, the drains in flight and what the consumer has seen. -/
structure Service (α : Type) where
  nextId : BufferId := 1
  /-- The allocated numbers in ascending order, with their buffers once configured. -/
  registry : List (BufferId × Option (Buffer α)) := []
  /-- The buffers with a drain in flight, in the order in which the drains were started. -/
  inFlight : List BufferId := []
  /-- How the consumer answers the next batches; after these it takes every batch at once. -/
  replies : List Reply := []
  /-- The batches the consumer was handed, oldest first. -/
  log : List (Delivery α) := []
  telemetry : Telemetry Nat := {}

namespace Service

variable {α : Type}

/-! ### The registry -/

/-- The allocated numbers, in ascending order. -/
def ids (s : Service α) : List BufferId := s.registry.map Prod.fst

/-- What is known of a number: nothing, that it is allocated, or its buffer. -/
def lookup? (s : Service α) (id : BufferId) : Option (Option (Buffer α)) :=
  (s.registry.find? fun entry => entry.1 == id).map Prod.snd

/-- The configured buffer with a number. -/
def buffer? (s : Service α) (id : BufferId) : Option (Buffer α) := (s.lookup? id).join

/-- The configured buffer with a number, or why there is none. -/
def configured (s : Service α) (id : BufferId) : Except BufferError (Buffer α) :=
  match s.lookup? id with
  | none => .error (.unknownBuffer id)
  | some none => .error (.notConfigured id)
  | some (some b) => .ok b

/-- Puts a buffer under an allocated number. -/
def setBuffer (s : Service α) (b : Buffer α) : Service α :=
  { s with registry := s.registry.map fun entry =>
      if entry.1 == b.id then (entry.1, some b) else entry }

/-- Allocates the next number. -/
def allocate (s : Service α) : Service α × BufferId :=
  ({ s with nextId := s.nextId + 1, registry := s.registry ++ [(s.nextId, none)] }, s.nextId)

/-- Makes the buffer of an allocated number. -/
def configure (s : Service α) (id : BufferId) (settings : Settings) :
    Service α × Except BufferError Unit :=
  match settings.fault? with
  | some cause => (s, .error (.invalidSettings id cause))
  | none =>
    match s.lookup? id with
    | none => (s, .error (.unknownBuffer id))
    | some (some _) => (s, .error (.alreadyConfigured id))
    | some none =>
      let (telemetry, handles) := s.telemetry.ofBuffer (settings.label id)
      ({ s with telemetry }.setBuffer (Buffer.ofSettings id settings handles), .ok ())

/-- The records a buffer has dropped. -/
def dropCount (s : Service α) (id : BufferId) : Except BufferError Nat :=
  (s.configured id).map Buffer.drops

/-- The number of sides of a buffer. -/
def bufferCount (s : Service α) (id : BufferId) : Except BufferError Nat :=
  (s.configured id).map fun _ => 2

/-- The bytes in use on the side of a buffer that takes records. -/
def pendingBytes (s : Service α) (id : BufferId) : Except BufferError Nat :=
  (s.configured id).map Buffer.pending

end Service

end PerfCounters
