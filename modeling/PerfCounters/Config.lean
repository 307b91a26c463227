import PerfCounters.Agent
import PerfCounters.Duration
import PerfCounters.FilePath
import PerfCounters.Service.Buffer
import PerfCounters.Yaml.Decode

/-!
The configuration: where the definitions are, how drains are run, which buffers there are, and the
agents. It is read from YAML and checked; the first thing that is wrong is reported.
-/

namespace PerfCounters

/-- How drains are run. -/
structure FlushConfig where
  workers : Nat := 2
  /-- The time between two looks at a buffer that is busy. -/
  poll : Duration := ⟨100000⟩
deriving DecidableEq, Repr

/-- A record buffer. -/
structure BufferEntry where
  name : String
  size : Nat := 1048576
  watermark : Nat := 0
  policy : Policy := .discard
deriving DecidableEq, Repr

/-- The settings of the buffer for a context. -/
def BufferEntry.settings (b : BufferEntry) (context : Nat) : Settings :=
  { name := b.name, context, size := b.size, watermark := b.watermark, policy := b.policy }

/-- A configuration. -/
structure Config where
  logLevel : String := "info"
  metricDefinitions : String := ""
  flush : FlushConfig := {}
  buffers : List BufferEntry := []
  agents : List Agent := []
deriving DecidableEq, Repr

/-- What is wrong with a configuration. -/
inductive ConfigError where
  | definitionsMissing
  | workersNotPositive
  | pollNotPositive
  | bufferNameMissing
  | duplicateBuffer (name : String)
  | bufferSettings (name : String) (cause : SettingsError)
  | agentNameMissing
  | duplicateAgent (name : String)
  | architectureMissing (agent : String)
deriving DecidableEq, Repr

/-- What is said about a faulty configuration. -/
def ConfigError.message : ConfigError → String
  | .definitionsMissing => "metric_definitions is required"
  | .workersNotPositive => "flush.workers must be positive"
  | .pollNotPositive => "flush.busy_poll_interval must be positive"
  | .bufferNameMissing => "buffer name is required"
  | .duplicateBuffer name => s!"duplicate buffer name: {name}"
  | .bufferSettings name cause => s!"buffer {name}: {cause.message}"
  | .agentNameMissing => "agent name is required"
  | .duplicateAgent name => s!"duplicate agent name: {name}"
  | .architectureMissing agent => s!"agent {agent}: architecture is required"

namespace Config

/-! ### Checking -/

/-- What is wrong with a buffer after those called `seen`. -/
def bufferFault? (seen : List String) (b : BufferEntry) : Option ConfigError :=
  if b.name.isEmpty then some .bufferNameMissing
  else if seen.contains b.name then some (.duplicateBuffer b.name)
  else (b.settings 0).fault?.map (.bufferSettings b.name)

/-- What is wrong with an agent after those called `seen`. -/
def agentFault? (seen : List String) (a : Agent) : Option ConfigError :=
  if a.name.isEmpty then some .agentNameMissing
  else if seen.contains a.name then some (.duplicateAgent a.name)
  else if a.architecture.isEmpty then some (.architectureMissing a.name)
  else none

/-- The first fault of some entries, each looked at after the names before it. -/
def firstFault? {α : Type} (name : α → String) (fault? : List String → α → Option ConfigError) :
    List String → List α → Option ConfigError
  | _, [] => none
  | seen, a :: rest =>
    match fault? seen a with
    | some e => some e
    | none => firstFault? name fault? (name a :: seen) rest

/-- What is wrong with a configuration. -/
def fault? (c : Config) : Option ConfigError :=
  if c.metricDefinitions.isEmpty then some .definitionsMissing
  else if c.flush.workers = 0 then some .workersNotPositive
  else if c.flush.poll.nanoseconds = 0 then some .pollNotPositive
  else match firstFault? BufferEntry.name bufferFault? [] c.buffers with
    | some e => some e
    | none => firstFault? Agent.name agentFault? [] c.agents

/-- The configuration, unless something is wrong with it. -/
def validate (c : Config) : Except ConfigError Config :=
  match c.fault? with
  | some e => .error e
  | none => .ok c

/-! ### Looking up -/

/-- The agent called `name`. -/
def agent? (c : Config) (name : String) : Option Agent := c.agents.find? fun a => a.name == name

/-- The buffer called `name`. -/
def buffer? (c : Config) (name : String) : Option BufferEntry :=
  c.buffers.find? fun b => b.name == name

/-- The configuration with its definitions seen from the directory of the file at `path`, unless their path is absolute. -/
def resolve (c : Config) (path : String) : Config :=
  if FilePath.isRelative c.metricDefinitions then
    match FilePath.parent? path with
    | some directory => { c with metricDefinitions := FilePath.join directory c.metricDefinitions }
    | none => c
  else c

end Config

end PerfCounters
