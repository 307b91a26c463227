import PerfCounters.Expr.Parser
import PerfCounters.Tree.Basic
import PerfCounters.Tree.Error

/-!
From expressions to trees: looking up the names of an expression, left to right, among the metrics
of one architecture.
-/

namespace PerfCounters.Tree

/-- The metric of an architecture called `name`. -/
def lookUp (c : Catalog) (architecture name : String) : Except EvalError Metric :=
  match c.byName? architecture name with
  | some m => .ok m
  | none => .error (.unknownMetric architecture name)

/-- The tree of an expression. -/
def ofExpr (c : Catalog) (architecture : String) : Expr → Except EvalError Tree
  | .number v => .ok (.number {} v)
  | .metric name => do return .reference {} (← lookUp c architecture name)
  | .accumulate name mode => do return .accumulate {} (← lookUp c architecture name) mode
  | .binary op lhs rhs => do
    let l ← ofExpr c architecture lhs
    let r ← ofExpr c architecture rhs
    return .binary {} op l r
  | .reduce child op ds => do return .reduce {} (← ofExpr c architecture child) op ds
  | .select child filters => do return .select {} (← ofExpr c architecture child) filters

/-- The tree of an expression text. -/
def ofText (c : Catalog) (architecture text : String) : Except EvalError Tree :=
  match Expr.ofText text with
  | .ok e => ofExpr c architecture e
  | .error cause => .error (.faultyText cause)

/-- The tree of a metric: of its expression if it is derived, and a reference to it otherwise. -/
def ofMetric (c : Catalog) (m : Metric) : Except EvalError Tree :=
  if m.isDerived then
    match Expr.ofText m.expression with
    | .ok e => ofExpr c m.architecture e
    | .error cause => .error (.faultyMetric m.name cause)
  else .ok (.reference {} m)

end PerfCounters.Tree
