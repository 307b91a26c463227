import PerfCounters.InstanceId

/-!
Samples: the value of one counter instance, with the dispatch, user datum and agent it is attributed
to. A list of values becomes a list of samples by laying it out over a layout, row by row.
-/

namespace PerfCounters

/-- The value of one counter instance. -/
structure Sample (α : Type) where
  id : InstanceId
  value : α
  dispatch : Nat := 0
  user : Nat := 0
  agent : Nat := 0
deriving Repr

namespace Layout

/-- The positions of the `index`-th record, read off the axes from the last to the first. The first
    axis takes what the others leave, so records past the end of the layout spill into it. -/
def positionsBackwards : Layout → Nat → List (Dimension × Nat)
  | [], _ => []
  | [a], index => [(a.dimension, index)]
  | a :: more, index =>
    (a.dimension, index % max a.size 1) :: positionsBackwards more (index / max a.size 1)

/-- The positions of the `index`-th record of a layout, the last axis varying fastest. -/
def positions (l : Layout) (index : Nat) : List (Dimension × Nat) :=
  positionsBackwards l.reverse index

end Layout

/-- The values of `counter` as samples over a layout. -/
def Sample.layOut {α : Type} (counter : Nat) (l : Layout) (values : List α) :
    Except DimensionError (List (Sample α)) :=
  values.zipIdx.mapM fun (value, index) => do
    return { id := ← InstanceId.pack counter (l.positions index), value }

end PerfCounters
