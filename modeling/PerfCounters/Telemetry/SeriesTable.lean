/-!
Series of one kind, found by label. A holder keeps the place of a series, so it goes on writing to it
after the label was removed; what a removed series counts is not shown any more, and the label starts
again from nothing when it is asked for anew.
-/

namespace PerfCounters

/-- Every series that was ever made, and the places of those that are shown. -/
structure SeriesTable (σ : Type) where
  cells : Array σ := #[]
  /-- The place of the series of a label, each label once. -/
  shown : List (String × Nat) := []
deriving Repr

namespace SeriesTable

variable {σ : Type}

/-- The place of the shown series of a label. -/
def place? (t : SeriesTable σ) (label : String) : Option Nat :=
  (t.shown.find? fun entry => entry.1 == label).map Prod.snd

/-- The series at a place. -/
def at? (t : SeriesTable σ) (place : Nat) : Option σ := t.cells[place]?

/-- The place of the series of a label, which starts as `fresh` if none is shown. -/
def resolve (t : SeriesTable σ) (label : String) (fresh : σ) : SeriesTable σ × Nat :=
  match t.place? label with
  | some place => (t, place)
  | none =>
    ({ cells := t.cells.push fresh, shown := t.shown ++ [(label, t.cells.size)] }, t.cells.size)

/-- Changes the series at a place. -/
def modify (t : SeriesTable σ) (place : Nat) (f : σ → σ) : SeriesTable σ :=
  { t with cells := t.cells.modify place f }

/-- Shows the series of a label no more. -/
def remove (t : SeriesTable σ) (label : String) : SeriesTable σ :=
  { t with shown := t.shown.filter fun entry => entry.1 != label }

/-- The shown series with their labels, in the order of labels. -/
def rows (t : SeriesTable σ) : List (String × σ) :=
  let entries := t.shown.mergeSort fun a b => decide (a.1 ≤ b.1)
  entries.filterMap fun entry => (t.at? entry.2).map fun series => (entry.1, series)

end SeriesTable

end PerfCounters
