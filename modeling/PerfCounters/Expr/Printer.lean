import PerfCounters.Expr.Basic
import PerfCounters.Decimal.Text

/-!
The text of an expression: arithmetic always in parentheses, calls with their arguments separated by
a comma and a space.
-/

namespace PerfCounters

/-- Texts separated by a comma and a space. -/
def listed (items : List String) : String := ", ".intercalate items

/-- The text of filters. -/
def Filters.text (filters : Filters) : String :=
  listed (filters.map fun f => s!"{f.1.name}=[{listed (f.2.map toString)}]")

/-- The text of an expression. -/
def Expr.text : Expr → String
  | .number v => Decimal.write v
  | .metric name => name
  | .accumulate counter mode => s!"accumulate({counter}, {mode.name})"
  | .binary op lhs rhs => s!"({lhs.text} {op.symbol} {rhs.text})"
  | .reduce child op [] => s!"reduce({child.text}, {op.name})"
  | .reduce child op ds => s!"reduce({child.text}, {op.name}, [{listed (ds.map Dimension.name)}])"
  | .select child filters => s!"select({child.text}, [{filters.text}])"

end PerfCounters
