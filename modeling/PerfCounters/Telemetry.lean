import PerfCounters.Telemetry.Histogram
import PerfCounters.Telemetry.SeriesTable

/-!
What is counted of every buffer: records stored, records dropped, drains, the sizes of their batches
and the time they took.
-/

namespace PerfCounters

/-- The counts of all buffers, by label. -/
structure Telemetry (κ : Type) where
  emplaced : SeriesTable κ := {}
  dropped : SeriesTable κ := {}
  flushes : SeriesTable κ := {}
  batchSizes : SeriesTable (Histogram κ) := {}
  durations : SeriesTable (Histogram Float) := {}

/-- The places of the series of one buffer. -/
structure SeriesHandles where
  emplaced : Nat
  dropped : Nat
  flushes : Nat
  batchSize : Nat
  duration : Nat
deriving DecidableEq, Repr, Inhabited

namespace Telemetry

variable {κ : Type} [Amount κ]

/-- The bounds of batch sizes, in records. -/
def batchSizeBounds : List κ := [1, 10, 100, 1000, 10000, 100000].map Amount.ofNat

/-- The bounds of durations, in seconds. -/
def durationBounds : List Float := [0.0001, 0.0005, 0.001, 0.005, 0.01, 0.05, 0.1, 0.5, 1.0]

/-- A histogram of batch sizes that has seen nothing. -/
def freshBatchSizes : Histogram κ := Histogram.ofBounds batchSizeBounds

/-- A histogram of durations that has seen nothing. -/
def freshDurations : Histogram Float := Histogram.ofBounds durationBounds

/-- The series of a buffer, made where its label has none. -/
def ofBuffer (t : Telemetry κ) (label : String) : Telemetry κ × SeriesHandles :=
  let (emplaced, e) := t.emplaced.resolve label Amount.zero
  let (dropped, d) := t.dropped.resolve label Amount.zero
  let (flushes, f) := t.flushes.resolve label Amount.zero
  let (batchSizes, b) := t.batchSizes.resolve label freshBatchSizes
  let (durations, s) := t.durations.resolve label freshDurations
  ({ emplaced, dropped, flushes, batchSizes, durations }, ⟨e, d, f, b, s⟩)

/-- Shows the series of a label no more. -/
def removeBuffer (t : Telemetry κ) (label : String) : Telemetry κ :=
  { emplaced := t.emplaced.remove label
    dropped := t.dropped.remove label
    flushes := t.flushes.remove label
    batchSizes := t.batchSizes.remove label
    durations := t.durations.remove label }

/-- Counts `n` more stored records. -/
def addEmplaced (t : Telemetry κ) (place : Nat) (n : κ) : Telemetry κ :=
  { t with emplaced := t.emplaced.modify place fun m => Amount.add m n }

/-- Counts `n` more dropped records. -/
def addDropped (t : Telemetry κ) (place : Nat) (n : κ) : Telemetry κ :=
  { t with dropped := t.dropped.modify place fun m => Amount.add m n }

/-- Counts `n` more drains. -/
def addFlushes (t : Telemetry κ) (place : Nat) (n : κ) : Telemetry κ :=
  { t with flushes := t.flushes.modify place fun m => Amount.add m n }

/-- Takes in the size of a batch. -/
def observeBatch (t : Telemetry κ) (place : Nat) (size : κ) : Telemetry κ :=
  { t with batchSizes := t.batchSizes.modify place fun h => h.observe size }

/-- Takes in how long a drain took. -/
def observeDuration (t : Telemetry κ) (place : Nat) (seconds : Float) : Telemetry κ :=
  { t with durations := t.durations.modify place fun h => h.observe seconds }

/-- Counts a drain that delivered `size` records. -/
def countDrain (t : Telemetry κ) (handles : SeriesHandles) (size : Nat) (seconds : Float) :
    Telemetry κ :=
  ((t.addFlushes handles.flushes (Amount.ofNat 1)).observeBatch handles.batchSize
    (Amount.ofNat size)).observeDuration handles.duration seconds

end Telemetry

/-- Why telemetry could not be registered: another one is. -/
inductive RegistrationError where
  | alreadyRegistered
deriving DecidableEq, Repr

/-- Makes the telemetry of a registry, which can have one only. -/
def Telemetry.register {κ : Type} (present : Option (Telemetry κ)) :
    Except RegistrationError (Telemetry κ) :=
  match present with
  | none => .ok {}
  | some _ => .error .alreadyRegistered

end PerfCounters
