/-!
Metrics: what is measured on an architecture, and how. A hardware counter names a block and an
event; a derived metric has an expression over other metrics; a constant names a property of the
agent.
-/

namespace PerfCounters

/-- A metric as a document defines it, before it has a number. -/
structure Definition where
  name : String
  architecture : String
  block : String := ""
  event : Option Nat := none
  expression : String := ""
  constant : String := ""
  description : String := ""
deriving DecidableEq, Repr, Inhabited

/-- A registered metric: a definition with its number. -/
structure Metric extends Definition where
  id : Nat
deriving DecidableEq, Repr, Inhabited

namespace Metric

/-- The value is computed from other metrics. -/
def isDerived (m : Metric) : Bool := m.expression != ""

/-- The value is a property of the agent. -/
def isConstant (m : Metric) : Bool := m.constant != ""

end Metric

/-- Why the catalog, or an agent, refused a metric. -/
inductive CatalogError where
  | duplicateName (architecture name : String)
  | propertyNotFound (name : String)
  | idSpaceExhausted
deriving DecidableEq, Repr

/-- What a refusal says. -/
def CatalogError.message : CatalogError → String
  | .duplicateName architecture name => s!"metric {name} already registered for {architecture}"
  | .propertyNotFound name => s!"agent property not found: {name}"
  | .idSpaceExhausted => "metric id space exhausted after 65535 metrics"

end PerfCounters
