/-!
What goes wrong with a buffer.
-/

namespace PerfCounters

/-- The number of a buffer. -/
abbrev BufferId := Nat

/-- What is wrong with the settings of a buffer. -/
inductive SettingsError where
  | sizeNotPositive
  | watermarkExceedsSize (watermark size : Nat)
deriving DecidableEq, Repr

/-- What is said of faulty settings. -/
def SettingsError.message : SettingsError → String
  | .sizeNotPositive => "size must be positive"
  | .watermarkExceedsSize watermark size => s!"watermark {watermark} exceeds size {size}"

/-- Why a call to the service failed. -/
inductive BufferError where
  | unknownBuffer (id : BufferId)
  | notConfigured (id : BufferId)
  | alreadyConfigured (id : BufferId)
  /-- A drain is in flight and the caller does not wait. -/
  | busy (id : BufferId)
  | recordTooLarge (id : BufferId) (size capacity : Nat)
  | invalidSettings (id : BufferId) (cause : SettingsError)
  /-- The consumer failed on the batch the caller waited for. -/
  | flushAborted (id : BufferId)
deriving DecidableEq, Repr

/-- What a failed call says. -/
def BufferError.message : BufferError → String
  | .unknownBuffer id => s!"unknown buffer {id}"
  | .notConfigured id => s!"buffer {id} is not configured"
  | .alreadyConfigured id => s!"buffer {id} is already configured"
  | .busy id => s!"buffer {id} is already flushing"
  | .recordTooLarge id size capacity =>
    s!"record of {size} bytes can never fit buffer {id} of {capacity} bytes"
  | .invalidSettings id cause => s!"invalid buffer config: buffer {id}: {cause.message}"
  | .flushAborted id => s!"flush of buffer {id} did not complete"

end PerfCounters
