import PerfCounters.Expr.Error
import PerfCounters.InstanceId
import PerfCounters.Metric

/-!
Why a metric cannot be built or evaluated.
-/

namespace PerfCounters

/-- The first thing that stands against a metric. -/
inductive EvalError where
  /-- The expression of a metric is not one. -/
  | faultyMetric (metric : String) (cause : SyntaxError)
  /-- A text given directly is not an expression. -/
  | faultyText (cause : SyntaxError)
  | unknownMetric (architecture name : String)
  /-- A metric is defined by itself; the chain ends with the name that occurs twice. -/
  | cyclicDefinition (chain : List String)
  | dimensionMismatch (lhs rhs : Layout)
  | missingBaseCounter (metric : String) (id : Nat)
  | sizeMismatch (lhs rhs : Nat)
  | instanceCountOverflow (metric : String)
  | dimension (cause : DimensionError)
  | catalog (cause : CatalogError)
deriving DecidableEq, Repr

namespace EvalError

/-- What is said about a metric that cannot be built or evaluated. -/
def message : EvalError → String
  | .faultyMetric metric cause => s!"invalid expression for metric {metric}: {cause.message}"
  | .faultyText cause => cause.message
  | .unknownMetric architecture name => s!"unknown metric {name} for architecture {architecture}"
  | .cyclicDefinition chain => s!"cyclic metric definition: " ++ " -> ".intercalate chain
  | .dimensionMismatch lhs rhs => s!"dimension mismatch: {lhs.text} vs {rhs.text}"
  | .missingBaseCounter metric id => s!"missing samples for base counter {metric} (id {id})"
  | .sizeMismatch lhs rhs => s!"operand size mismatch: {lhs} vs {rhs}"
  | .instanceCountOverflow metric => s!"instance count of metric {metric} overflows"
  | .dimension cause => cause.message
  | .catalog cause => cause.message

/-- What lies behind an error, outermost first. -/
def causes : EvalError → List String
  | .faultyMetric _ cause => [cause.message]
  | _ => []

end EvalError

end PerfCounters
