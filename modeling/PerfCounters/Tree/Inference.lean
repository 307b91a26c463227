import PerfCounters.Tree.Basic
import PerfCounters.Tree.Error

/-!
The layout of every node of a tree, worked out from the leaves up.

A literal and a constant exist once; a hardware counter has the layout of its block. Arithmetic joins
the layouts of its operands, a reduction and a selection take dimensions away.
-/

namespace PerfCounters

/-- The layout of the results of arithmetic: equal layouts stay, and a value that exists once, or
    along one axis only, is repeated along the other operand. -/
def Layout.join (l r : Layout) : Except EvalError Layout :=
  if l = r then .ok l
  else if l = scalar ∨ (l.length = 1 ∧ 1 < r.length) then .ok r
  else if r = scalar ∨ (r.length = 1 ∧ 1 < l.length) then .ok l
  else .error (.dimensionMismatch l r)

namespace Tree

/-- The layout of the samples of a metric. -/
def metricLayout (c : Catalog) (m : Metric) : Layout :=
  if m.isConstant then Layout.scalar else c.blockLayout m.architecture m.block

/-- The layout of a reduction. -/
def reducedLayout (l : Layout) (ds : List Dimension) : Layout :=
  if ds = [] then Layout.scalar else l.without ds.contains

/-- The layout of a selection. -/
def selectedLayout (l : Layout) (filters : Filters) : Layout := l.without filters.dimensions.contains

/-- Notes the layout of every node; answers with the layout of the root. Where layouts cannot be
    joined, the nodes above keep the notes they had. -/
def infer (c : Catalog) : Tree → Tree × Except EvalError Layout
  | .number n v => (.number { n with layout := Layout.scalar } v, .ok Layout.scalar)
  | .reference n m => (.reference { n with layout := metricLayout c m } m, .ok (metricLayout c m))
  | .accumulate n m mode =>
    (.accumulate { n with layout := metricLayout c m } m mode, .ok (metricLayout c m))
  | .binary n op lhs rhs =>
    match infer c lhs with
    | (lhs, .error e) => (.binary n op lhs rhs, .error e)
    | (lhs, .ok l) =>
      match infer c rhs with
      | (rhs, .error e) => (.binary n op lhs rhs, .error e)
      | (rhs, .ok r) =>
        match l.join r with
        | .error e => (.binary n op lhs rhs, .error e)
        | .ok joined => (.binary { n with layout := joined } op lhs rhs, .ok joined)
  | .reduce n child op ds =>
    match infer c child with
    | (child, .error e) => (.reduce n child op ds, .error e)
    | (child, .ok l) =>
      (.reduce { n with layout := reducedLayout l ds } child op ds, .ok (reducedLayout l ds))
  | .select n child filters =>
    match infer c child with
    | (child, .error e) => (.select n child filters, .error e)
    | (child, .ok l) =>
      (.select { n with layout := selectedLayout l filters } child filters,
        .ok (selectedLayout l filters))

end Tree

end PerfCounters
