/-!
How deeply the parts of a pattern are nested. Several things in a row are a level of their own.
-/

namespace PerfCounters.Pattern

/-- The levels of things in a row. -/
structure Row where
  size : Nat := 0
  /-- The levels of the deepest of them. -/
  deepest : Nat := 0
deriving DecidableEq, Repr

namespace Row

/-- A further thing of so many levels. -/
def add (r : Row) (levels : Nat) : Row := ⟨r.size + 1, max r.deepest levels⟩

/-- One of the things has so many levels. -/
def deepen (r : Row) (levels : Nat) : Row := { r with deepest := max r.deepest levels }

/-- The levels of the row. -/
def levels (r : Row) : Nat := if r.size ≤ 1 then r.deepest else r.deepest + 1

end Row

/-- The most levels that a pattern may have. -/
def maxLevels : Nat := 250

end PerfCounters.Pattern
