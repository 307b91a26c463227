import PerfCounters.Expr.Basic
import PerfCounters.Sample
import Std.Data.HashMap

/-!
Arithmetic on lists of samples: value by value, by reduction over positions, and by selection of
positions. Reductions are stated over any type of values and any way to combine two of them.
-/

namespace PerfCounters

/-- The samples of a metric, in the order of its layout. -/
abbrev Records (α : Type) := List (Sample α)

/-- How a reduction makes one value of many: it combines them from the first on, and then finishes
    with the number of values combined. -/
structure Reduction (α : Type) where
  combine : α → α → α
  finish : α → Nat → α

/-- The smaller of two values; the second one of equal values, which tells zeros of either sign apart. A
    value that is not a number gives way to the other one. -/
def smaller (x y : Float) : Float :=
  if y.isNaN then x else if x < y then x else y

/-- The larger of two values; the second one of equal values, which tells zeros of either sign apart. A
    value that is not a number gives way to the other one. -/
def larger (x y : Float) : Float :=
  if y.isNaN then x else if y < x then x else y

/-- The reduction an operator stands for. -/
def ReduceOp.reduction : ReduceOp → Reduction Float
  | .min => ⟨smaller, fun x _ => x⟩
  | .max => ⟨larger, fun x _ => x⟩
  | .sum => ⟨fun x y => x + y, fun x _ => x⟩
  | .avg => ⟨fun x y => x + y, fun x n => x / n.toUInt64.toFloat⟩

namespace Records

variable {α : Type}

/-- Applies `f` to the values of two lists. Lists of one length are paired up; otherwise a list of
    one sample is repeated along the other one, whose ids and attribution the results keep. Other
    lists do not fit. -/
def zipValues? (f : α → α → α) (lhs rhs : Records α) : Option (Records α) :=
  if lhs.length = rhs.length then
    some (lhs.zipWith (fun l r => { l with value := f l.value r.value }) rhs)
  else match lhs, rhs with
    | [l], _ => some (rhs.map fun r => { r with value := f l.value r.value })
    | _, [r] => some (lhs.map fun l => { l with value := f l.value r.value })
    | _, _ => none

/-- The value of all samples of `first :: rest` together. -/
def total (op : Reduction α) (first : Sample α) (rest : Records α) : α :=
  op.finish (rest.foldl (fun acc r => op.combine acc r.value) first.value) (rest.length + 1)

/-- Samples combined so far under one id, and their number. -/
structure Group (α : Type) where
  sample : Sample α
  size : Nat

/-- The group with one more sample. -/
def Group.add (op : Reduction α) (r : Sample α) (g : Group α) : Group α :=
  ⟨{ g.sample with value := op.combine g.sample.value r.value }, g.size + 1⟩

/-- The groups made so far, and where the group of each id is among them. -/
structure Grouping (α : Type) where
  groups : Array (Group α) := #[]
  index : Std.HashMap InstanceId Nat := {}

/-- Combines a sample into the group of its id; a new id starts a group behind the others. -/
def Grouping.insert (op : Reduction α) (g : Grouping α) (r : Sample α) : Grouping α :=
  match g.index[r.id]? with
  | some i => { g with groups := g.groups.modify i (Group.add op r) }
  | none => { groups := g.groups.push ⟨r, 1⟩, index := g.index.insert r.id g.groups.size }

/-- The sample with its id moved to position 0 along `ds`. -/
def cleared (ds : List Dimension) (r : Sample α) : Sample α := { r with id := r.id.clearAll ds }

/-- The groups of samples that differ along `ds` only, in the order of their first samples. -/
def grouping (op : Reduction α) (ds : List Dimension) (records : Records α) : Grouping α :=
  records.foldl (fun g r => g.insert op (cleared ds r)) {}

/-- Reduces over the dimensions `ds`, or over everything if there are none. -/
def reduce (op : Reduction α) (ds : List Dimension) : Records α → Records α
  | [] => []
  | first :: rest =>
    if ds = [] then [{ first with id := first.id.clear .none, value := total op first rest }]
    else (grouping op ds (first :: rest)).groups.toList.map fun g =>
      { g.sample with value := op.finish g.sample.value g.size }

/-- Keeps the samples at allowed positions, and moves them to position 0 along the filtered
    dimensions. -/
def select (filters : Filters) (records : Records α) : Records α :=
  (records.filter fun r => filters.all fun f => f.2.contains (r.id.position f.1)).map
    (cleared filters.dimensions)

/-- Tags every sample with a counter number. -/
def tag (counter : Nat) (records : Records α) : Except DimensionError (Records α) :=
  records.mapM fun r => do return { r with id := ← r.id.setCounter counter }

end Records

end PerfCounters
