import PerfCounters.Ring
import Std.Data.HashMap

/-!
A ring with contents: what was last written into the slot at each offset. Retrieving and clearing move
cursors alone, so a value stays until a later slot at its offset is written.
-/

namespace PerfCounters

/-- A ring and the value last written at each offset. -/
structure Arena (α : Type) where
  ring : Ring
  cells : Std.HashMap Nat α := {}

namespace Arena

variable {α : Type}

/-- An empty arena of `capacity` bytes, one at the least. -/
def ofCapacity (capacity : Nat) : Arena α := { ring := Ring.ofCapacity capacity }

/-- What was last written at an offset. -/
def get? (a : Arena α) (offset : Nat) : Option α := a.cells[offset]?

/-- Reserves a slot and writes `value` into it. -/
def put (a : Arena α) (length align : Nat) (wrap : Bool) (value : α) : Arena α × Option Slot :=
  match a.ring.request length align wrap with
  | (_, none) => (a, none)
  | (ring, some slot) => ({ ring, cells := a.cells.insert slot.offset value }, some slot)

/-- Takes back a slot with what was written into it. -/
def take (a : Arena α) (length align : Nat) : Arena α × Option (Slot × Option α) :=
  match a.ring.retrieve length align with
  | (_, none) => (a, none)
  | (ring, some slot) => ({ a with ring }, some (slot, a.get? slot.offset))

end Arena

end PerfCounters
