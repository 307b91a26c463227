import PerfCounters.Telemetry.Amount

/-!
Histograms: how many values were seen up to each bound, and their sum.
-/

namespace PerfCounters

/-- The values seen so far, by the first bound they do not exceed. -/
structure Histogram (κ : Type) where
  /-- Ascending bounds, each with the number of values it is the first bound of. -/
  buckets : List (κ × Nat)
  sum : κ
  count : Nat
deriving Repr

namespace Histogram

variable {κ : Type} [Amount κ]

/-- The histogram over these bounds that has seen nothing. -/
def ofBounds (bounds : List κ) : Histogram κ :=
  { buckets := bounds.map fun b => (b, 0), sum := Amount.zero, count := 0 }

/-- Counts `value` in the first bucket it fits; a value above every bound is in none. -/
def fill (value : κ) : List (κ × Nat) → List (κ × Nat)
  | [] => []
  | (bound, n) :: rest =>
    if Amount.atMost value bound then (bound, n + 1) :: rest else (bound, n) :: fill value rest

/-- Takes a value in. -/
def observe (h : Histogram κ) (value : κ) : Histogram κ :=
  { buckets := fill value h.buckets, sum := Amount.add h.sum value, count := h.count + 1 }

/-- Each bound with the number of values up to it, where `below` values are under the first one. -/
def accumulate (below : Nat) : List (κ × Nat) → List (κ × Nat)
  | [] => []
  | (bound, n) :: rest => (bound, below + n) :: accumulate (below + n) rest

/-- Each bound with the number of values up to it. -/
def cumulative (h : Histogram κ) : List (κ × Nat) := accumulate 0 h.buckets

end Histogram

end PerfCounters
