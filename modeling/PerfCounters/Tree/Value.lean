import PerfCounters.Records
import PerfCounters.Tree.Basic
import PerfCounters.Tree.Error

/-!
The value of a tree over the samples of base metrics: what each node stands for, without a thought
for where intermediate lists are kept.
-/

namespace PerfCounters

/-- Samples by metric number, in ascending order of numbers. -/
abbrev BaseSamples := List (Nat × Records Float)

namespace BaseSamples

/-- The samples of the metric numbered `id`. -/
def get? (base : BaseSamples) (id : Nat) : Option (Records Float) := base.lookup id

/-- Sets the samples of a metric. -/
def set (id : Nat) (records : Records Float) : BaseSamples → BaseSamples
  | [] => [(id, records)]
  | (k, v) :: rest =>
    if id < k then (id, records) :: (k, v) :: rest
    else if id = k then (id, records) :: rest
    else (k, v) :: set id records rest

/-- Removes the samples of a metric. -/
def erase (base : BaseSamples) (id : Nat) : BaseSamples := base.filter fun p => p.1 != id

end BaseSamples

namespace Tree

/-- Arithmetic on two lists of samples. -/
def combine (op : BinaryOp) (lhs rhs : Records Float) : Except EvalError (Records Float) :=
  match Records.zipValues? op.apply lhs rhs with
  | some records => .ok records
  | none => .error (.sizeMismatch lhs.length rhs.length)

/-- The samples of a literal: one, of no counter. -/
def literal (v : Float) : Records Float := [{ id := .zero, value := v }]

/-- Tags results with the number noted on a node, if there is one. -/
def retag (n : Note) (records : Records Float) : Except EvalError (Records Float) :=
  match n.outId with
  | none => .ok records
  | some counter => (Records.tag counter records).mapError .dimension

/-- The samples of a base metric. -/
def leaf (base : BaseSamples) (m : Metric) : Except EvalError (Records Float) :=
  match base.get? m.id with
  | some records => .ok records
  | none => .error (.missingBaseCounter m.name m.id)

/-- The value of a tree. -/
def value (base : BaseSamples) : Tree → Except EvalError (Records Float)
  | .number n v => retag n (literal v)
  | .reference n m => do retag n (← leaf base m)
  | .accumulate n m _ => do retag n (← leaf base m)
  | .binary n op lhs rhs => do
    let l ← value base lhs
    let r ← value base rhs
    retag n (← combine op l r)
  | .reduce n child op ds => do retag n ((← value base child).reduce op.reduction ds)
  | .select n child filters => do retag n ((← value base child).select filters)

end Tree

end PerfCounters
