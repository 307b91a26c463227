import PerfCounters.Catalog
import PerfCounters.InstanceId
import PerfCounters.Expr.Basic

/-!
Expression trees: expressions whose names have been looked up in a catalog.

Every node carries the layout inferred for it, empty until then, and may carry a counter number that
its results are tagged with.
-/

namespace PerfCounters

/-- What is noted on a node of a tree. -/
structure Note where
  layout : Layout := []
  outId : Option Nat := none
deriving DecidableEq, Repr, Inhabited

/-- An expression over the metrics of a catalog. -/
inductive Tree where
  | number (note : Note) (value : Float)
  | reference (note : Note) (metric : Metric)
  | accumulate (note : Note) (metric : Metric) (mode : AccumulateMode)
  | binary (note : Note) (op : BinaryOp) (lhs rhs : Tree)
  | reduce (note : Note) (child : Tree) (op : ReduceOp) (dimensions : List Dimension)
  | select (note : Note) (child : Tree) (filters : Filters)
deriving Repr, Inhabited

namespace Tree

/-- The note on the root. -/
def note : Tree → Note
  | .number n _ => n
  | .reference n _ => n
  | .accumulate n _ _ => n
  | .binary n _ _ _ => n
  | .reduce n _ _ _ => n
  | .select n _ _ => n

/-- The tree with another note on its root. -/
def withNote (n : Note) : Tree → Tree
  | .number _ v => .number n v
  | .reference _ m => .reference n m
  | .accumulate _ m mode => .accumulate n m mode
  | .binary _ op lhs rhs => .binary n op lhs rhs
  | .reduce _ child op ds => .reduce n child op ds
  | .select _ child filters => .select n child filters

/-- The layout inferred for the root. -/
def layout (t : Tree) : Layout := t.note.layout

/-- The counter number the results are tagged with. -/
def outId (t : Tree) : Option Nat := t.note.outId

/-- Tags the results with `counter`. -/
def setOutId (t : Tree) (counter : Nat) : Except DimensionError Tree :=
  if counter > maxCounterId then .error (.counterIdOverflow counter)
  else .ok (t.withNote { t.note with outId := some counter })

/-- The metrics read through `accumulate`, each once, with the mode it occurs with first. -/
def accumulated : Tree → List (Metric × AccumulateMode) → List (Metric × AccumulateMode)
  | .number _ _, found => found
  | .reference _ _, found => found
  | .accumulate _ m mode, found =>
    if found.any fun f => f.1.id == m.id then found else found ++ [(m, mode)]
  | .binary _ _ lhs rhs, found => rhs.accumulated (lhs.accumulated found)
  | .reduce _ child _ _, found => child.accumulated found
  | .select _ child _, found => child.accumulated found

end Tree

end PerfCounters
