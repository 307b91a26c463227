import PerfCounters.Tree.Error

/-!
Why a definition document is refused.
-/

namespace PerfCounters

/-- The first thing that stands against a document. -/
inductive DefinitionError where
  /-- The text is not YAML, or not of the form of a definition document. -/
  | malformed
  | catalog (cause : CatalogError)
  | noArchitectures (metric : String)
  | invalidBlockDimension (architecture block : String) (axis : Axis)
  /-- The metrics of an architecture do not fit together. -/
  | expression (architecture : String) (cause : EvalError)
deriving DecidableEq, Repr

namespace DefinitionError

/-- What is said about a refused document. -/
def message : DefinitionError → String
  | .malformed => "parsing metric definitions: malformed document"
  | .catalog cause => cause.message
  | .noArchitectures metric => s!"metric {metric} has no architectures"
  | .invalidBlockDimension architecture block axis =>
    s!"block {block} on {architecture}: {axis.dimension.name} size {axis.size} outside 1..=64"
  | .expression architecture cause =>
    s!"invalid definitions for {architecture}: {cause.message}"

/-- What lies behind an error, outermost first. -/
def causes : DefinitionError → List String
  | .malformed => ["malformed document"]
  | .expression _ cause => cause.message :: cause.causes
  | _ => []

end DefinitionError

end PerfCounters
