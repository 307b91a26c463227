import PerfCounters.CommandLine.Failure
import PerfCounters.Evaluator
import PerfCounters.Service.Emplace

/-!
Delivering results: metrics are evaluated in order, their samples are stored in a buffer of a service
of its own, and the consumer gets them in batches.

Drains go on in the background between two stores. How far they get is left open: a schedule says it.
-/

namespace PerfCounters.CommandLine

/-- What a drain in flight does in the background. -/
inductive Progress where
  /-- Nothing. -/
  | wait
  /-- It begins to deliver. -/
  | enter
  /-- It goes on to its end. -/
  | finish
deriving DecidableEq, Repr

/-- What a drain in flight does after each store, by the number of stores before it. -/
abbrev Schedule := Nat → Progress

/-- Drains end before anything else is done. -/
def Schedule.prompt : Schedule := fun _ => .finish

/-- The type of samples as records. -/
def sampleType : RecordType := ⟨"sample", 40, 8⟩

/-- The category of samples in batches. -/
def sampleCategory : Nat := 1

/-- A sample of a metric as a record. -/
def sampleRecord (metric : Nat) (s : Sample Float) : Record (Sample Float) :=
  ⟨sampleCategory, metric, sampleType, s⟩

/-- A service, and the number of stores so far. -/
structure Delivering where
  service : Service (Sample Float)
  stores : Nat := 0

namespace Delivering

/-- Lets the drain of a buffer go on as far as the schedule says. -/
def progress (schedule : Schedule) (id : BufferId) (d : Delivering) : Service (Sample Float) :=
  match schedule d.stores with
  | .wait => d.service
  | .enter => d.service.enter id
  | .finish => (d.service.finish id).1

/-- Stores records one after the other. -/
def storeAll (schedule : Schedule) (id : BufferId) :
    List (Record (Sample Float)) → Delivering → Except BufferError Delivering
  | [], d => .ok d
  | r :: rest, d =>
    match d.service.emplace id r with
    | (_, .error e) => .error e
    | (service, .ok _) =>
      storeAll schedule id rest ⟨progress schedule id ⟨service, d.stores⟩, d.stores + 1⟩

/-- Evaluates metrics and stores their samples. -/
def storeMetrics (schedule : Schedule) (id : BufferId) (e : Evaluator) (base : BaseSamples) :
    List String → Delivering → Except Failure Delivering
  | [], d => .ok d
  | name :: rest, d => do
    let m ← (e.metric name).mapError Failure.ofEval
    let samples ← (e.evaluate name base).mapError Failure.ofEval
    let d ← (storeAll schedule id (samples.map (sampleRecord m.id)) d).mapError Failure.ofBuffer
    storeMetrics schedule id e base rest d

end Delivering

/-- What was delivered. -/
structure Delivered where
  /-- The samples with the numbers of their metrics, in the order of delivery. -/
  samples : List (Nat × Sample Float)
  drops : Nat
  telemetry : Telemetry Nat

/-- The samples of the batches that the consumer took. -/
def Delivered.samplesOf (log : List (Delivery (Sample Float))) : List (Nat × Sample Float) :=
  (log.filter fun d => d.accepted).flatMap fun d =>
    d.batch.records.filterMap fun r => (r.payload? sampleType).map fun s => (r.kind, s)

/-- Evaluates metrics and delivers their samples through a buffer with these settings. -/
def deliver (schedule : Schedule) (settings : Settings) (e : Evaluator) (base : BaseSamples)
    (metrics : List String) : Except Failure Delivered := do
  let (service, id) := ({} : Service (Sample Float)).allocate
  let (service, configured) := service.configure id settings
  configured.mapError Failure.ofBuffer
  let d ← Delivering.storeMetrics schedule id e base metrics ⟨service, 0⟩
  let drops ← (d.service.dropCount id).mapError Failure.ofBuffer
  let (service, destroyed) := d.service.destroy id
  destroyed.mapError Failure.ofBuffer
  return ⟨Delivered.samplesOf service.log, drops, service.telemetry⟩

end PerfCounters.CommandLine
