import PerfCounters.Tree.Value

/-!
Evaluation in a cache. Every list that evaluation makes is kept in the cache, where callers may read
it; the samples of base metrics are read in place. A failure takes back what it added.
-/

namespace PerfCounters

/-- The lists made so far, oldest first. -/
abbrev Cache := Array (Records Float)

/-- Where the value of a node lies. -/
inductive Place where
  | base (id : Nat)
  | cached (index : Nat)
deriving DecidableEq, Repr

/-- A step of evaluation; it may fail, and keeps the cache as it is then. -/
abbrev Evaluation (α : Type) := ExceptT EvalError (StateM Cache) α

namespace Evaluation

/-- The samples at a place. -/
def read (base : BaseSamples) (cache : Cache) : Place → Records Float
  | .base id => (base.get? id).getD []
  | .cached index => cache.getD index []

/-- The samples at a place of the present cache. -/
def fetch (base : BaseSamples) (place : Place) : Evaluation (Records Float) := do
  return read base (← get) place

/-- Keeps a list. -/
def keep (records : Records Float) : Evaluation Place :=
  modifyGet fun cache => (.cached cache.size, cache.push records)

/-- Takes the samples at a place to change them. Those of the cache leave nothing behind; those of a base metric are
copied. -/
def takeOut (base : BaseSamples) : Place → Evaluation (Records Float)
  | .base id => fetch base (.base id)
  | .cached index => modifyGet fun cache => (cache.getD index [], cache.setIfInBounds index [])

/-- Puts changed samples where they were taken out; a copy is kept as one list more. -/
def putBack (records : Records Float) : Place → Evaluation Place
  | .base _ => keep records
  | .cached index => do
    modify fun cache => cache.setIfInBounds index records
    return .cached index

/-- Tags the samples at a place with the number noted on a node, if there is one. -/
def retagAt (base : BaseSamples) (n : Note) (place : Place) : Evaluation Place :=
  match n.outId with
  | none => return place
  | some counter => do
    match Records.tag counter (← takeOut base place) with
    | .error e => throw (.dimension e)
    | .ok records => putBack records place

/-- The place of a base metric. -/
def leafAt (base : BaseSamples) (m : Metric) : Evaluation Place :=
  match base.get? m.id with
  | some _ => return .base m.id
  | none => throw (.missingBaseCounter m.name m.id)

/-- Evaluates a tree; answers with the place of its value. -/
def ofTree (base : BaseSamples) : Tree → Evaluation Place
  | .number n v => do retagAt base n (← keep (Tree.literal v))
  | .reference n m => do retagAt base n (← leafAt base m)
  | .accumulate n m _ => do retagAt base n (← leafAt base m)
  | .binary n op lhs rhs => do
    let l ← ofTree base lhs
    let r ← ofTree base rhs
    match Tree.combine op (← fetch base l) (← fetch base r) with
    | .error e => throw e
    | .ok records => retagAt base n (← keep records)
  | .reduce n child op ds => do
    let place ← ofTree base child
    retagAt base n (← keep ((← fetch base place).reduce op.reduction ds))
  | .select n child filters => do
    let place ← ofTree base child
    retagAt base n (← keep ((← fetch base place).select filters))

end Evaluation

/-- Evaluates a tree in a cache; answers with the cache afterwards. -/
def Tree.evaluate (base : BaseSamples) (cache : Cache) (t : Tree) :
    Cache × Except EvalError (Records Float) :=
  match ExceptT.run (Evaluation.ofTree base t) cache with
  | (.ok place, cache') => (cache', .ok (Evaluation.read base cache' place))
  | (.error e, cache') => (cache'.take cache.size, .error e)

end PerfCounters
