import PerfCounters.Definitions.Document
import PerfCounters.Definitions.Error
import PerfCounters.Evaluator
import PerfCounters.Text.Blank

/-!
Loading a definition document into a catalog. Blocks come first, then the metrics in order, each under
its keys in order and under each architecture that a key names. A catalog is accepted only if the
evaluator of each of its architectures can be built, so that what is asked of it later has an answer.
-/

namespace PerfCounters

namespace DefinitionDocument

/-! ### Blocks -/

/-- The axes of a block; each has to fit an instance id. -/
def axes (architecture block : String) : List (Dimension × Nat) → Except DefinitionError Layout
  | [] => .ok []
  | (dimension, size) :: rest =>
    let axis : Axis := ⟨dimension, size⟩
    if axis.encodable then (axes architecture block rest).map fun l => axis :: l
    else .error (.invalidBlockDimension architecture block axis)

/-- Registers the blocks of an architecture. -/
def registerBlocks (architecture : String) :
    List (String × List (Dimension × Nat)) → Catalog → Except DefinitionError Catalog
  | [], c => .ok c
  | (name, sizes) :: rest, c => do
    let layout ← axes architecture name sizes
    registerBlocks architecture rest (c.registerBlock ⟨architecture, name, layout⟩)

/-- Registers the blocks of all architectures. -/
def registerAllBlocks :
    List (String × List (String × List (Dimension × Nat))) → Catalog → Except DefinitionError Catalog
  | [], c => .ok c
  | (architecture, blocks) :: rest, c => do
    registerAllBlocks rest (← registerBlocks architecture blocks c)

/-! ### Metrics -/

/-- The architectures that a key names. -/
def architecturesOf (key : String) : List String :=
  ((Text.split '/' key).map Text.trim).filter fun a => !a.isEmpty

/-- The definition of a metric on an architecture. -/
def definition (m : MetricEntry) (e : ArchitectureEntry) (architecture : String) : Definition where
  name := m.name
  architecture := architecture
  block := e.block
  event := e.event
  expression := Text.trim e.expression
  constant := Text.trim e.constant
  description := e.description.getD m.description

/-- Registers a metric under the architectures of a key. -/
def registerKey (m : MetricEntry) (key : String) (e : ArchitectureEntry) (c : Catalog) :
    Except DefinitionError Catalog :=
  let constant := Text.trim e.constant
  if constant != "" && !Agent.hasProperty constant then
    .error (.catalog (.propertyNotFound constant))
  else
    match c.registerAll ((architecturesOf key).map (definition m e)) with
    | (_, some cause) => .error (.catalog cause)
    | (c, none) => .ok c

/-- Registers a metric under keys, in order. -/
def registerKeys (m : MetricEntry) :
    List (String × ArchitectureEntry) → Catalog → Except DefinitionError Catalog
  | [], c => .ok c
  | (key, e) :: rest, c => do registerKeys m rest (← registerKey m key e c)

/-- Registers metrics, in order; each needs a key. -/
def registerMetrics : List MetricEntry → Catalog → Except DefinitionError Catalog
  | [], c => .ok c
  | m :: rest, c =>
    if m.architectures.isEmpty then .error (.noArchitectures m.name)
    else do registerMetrics rest (← registerKeys m m.architectures c)

/-! ### Catalogs -/

/-- The evaluator of each of these architectures can be built. -/
def check (c : Catalog) : List String → Except DefinitionError Unit
  | [] => .ok ()
  | architecture :: rest =>
    match Evaluator.ofCatalog c architecture with
    | .ok _ => check c rest
    | .error cause => .error (.expression architecture cause)

/-- The catalog of a document. -/
def catalog (d : DefinitionDocument) : Except DefinitionError Catalog := do
  let c ← registerMetrics d.metrics (← registerAllBlocks d.blocks Catalog.empty)
  check c c.architectures
  return c

end DefinitionDocument

/-- The catalog of a definition document in YAML. -/
def Catalog.ofText (text : String) : Except DefinitionError Catalog :=
  match DefinitionDocument.ofText? text with
  | none => .error .malformed
  | some d => d.catalog

end PerfCounters
