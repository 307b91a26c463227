/-!
Sets of code points as tables of ranges.
-/

namespace PerfCounters.Text

/-- Whether one of the ranges from number `low` up to number `high` holds `code`, found by halving. The
ranges are closed, apart and in ascending order. -/
def inRanges (ranges : Array (Nat × Nat)) (code low high : Nat) : Bool :=
  if low < high then
    let mid := (low + high) / 2
    match ranges[mid]? with
    | none => false
    | some (first, last) =>
      if code < first then inRanges ranges code low mid
      else if last < code then inRanges ranges code (mid + 1) high
      else true
  else false
termination_by high - low

end PerfCounters.Text
