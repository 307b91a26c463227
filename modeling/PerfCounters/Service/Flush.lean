import PerfCounters.Service.Drain

/-!
Flushing: starting drains and waiting for them.

A call that waits ends the drain in flight first, if there is one, whatever becomes of it, then starts
its own and ends that. Drains of other buffers that end while a call waits could as well have ended
before it.
-/

namespace PerfCounters.Service

variable {α : Type}

/-- Starts a drain of a configured buffer; with `wait` it returns when its batch is delivered. -/
def flushBuffer (s : Service α) (b : Buffer α) (wait : Bool) : Service α × Except BufferError Unit :=
  if wait then
    let s := if b.isBusy then (s.finish b.id).1 else s
    match s.buffer? b.id with
    | none => (s, .error (.unknownBuffer b.id))
    | some b =>
      match (s.start b).finish b.id with
      | (s, true) => (s, .ok ())
      | (s, false) => (s, .error (.flushAborted b.id))
  else if b.isBusy then (s, .error (.busy b.id))
  else (s.start b, .ok ())

/-- Starts a drain of a buffer; with `wait` it returns when its batch is delivered. -/
def flush (s : Service α) (id : BufferId) (wait : Bool) : Service α × Except BufferError Unit :=
  match s.configured id with
  | .error e => (s, .error e)
  | .ok b => s.flushBuffer b wait

/-- Drains both sides of a buffer, up to the first batch that is not delivered. -/
def drainBoth (s : Service α) (id : BufferId) : Service α × Except BufferError Unit :=
  match s.flush id true with
  | (s, .error e) => (s, .error e)
  | (s, .ok ()) => s.flush id true

/-- Flushes one of all buffers: with `wait` both sides, else the current one unless it is busy. -/
def flushOne (s : Service α) (id : BufferId) (wait : Bool) : Service α × Except BufferError Unit :=
  if wait then s.drainBoth id
  else match s.flush id false with
    | (s, .error (.busy _)) => (s, .ok ())
    | result => result

/-- Flushes buffers in order. A failure does not keep the next ones from being flushed; the first one
is the answer. -/
def flushEach (wait : Bool) : List BufferId → Service α → Service α × Except BufferError Unit
  | [], s => (s, .ok ())
  | id :: rest, s =>
    match s.flushOne id wait with
    | (s, .ok ()) => flushEach wait rest s
    | (s, .error e) => ((flushEach wait rest s).1, .error e)

/-- Flushes every configured buffer. -/
def flushAll (s : Service α) (wait : Bool) : Service α × Except BufferError Unit :=
  flushEach wait (s.ids.filter fun id => (s.buffer? id).isSome) s

/-- Forgets a number. -/
def unregister (s : Service α) (id : BufferId) : Service α :=
  { s with registry := s.registry.filter fun entry => entry.1 != id }

/-- Delivers what a buffer holds and forgets it. Its telemetry is removed when all was delivered. -/
def destroy (s : Service α) (id : BufferId) : Service α × Except BufferError Unit :=
  match s.lookup? id with
  | none => (s, .error (.unknownBuffer id))
  | some none => (s.unregister id, .ok ())
  | some (some b) =>
    match s.drainBoth id with
    | (s, .error e) => (s.unregister id, .error e)
    | (s, .ok ()) =>
      ({ s with telemetry := s.telemetry.removeBuffer b.label }.unregister id, .ok ())

end PerfCounters.Service
