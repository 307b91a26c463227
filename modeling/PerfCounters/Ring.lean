/-!
A ring of bytes. Both cursors only grow; the byte under a cursor is the cursor modulo the capacity, so
the bytes in use are those between the cursors, skipped ones included.

A slot never crosses the physical end. One that would is refused, or it starts over at offset 0 and
leaves the tail unused.
-/

namespace PerfCounters

/-- The bytes at `offset`, `length` of them. -/
structure Slot where
  offset : Nat
  length : Nat
deriving DecidableEq, Repr

/-- Why a ring was not cleared. -/
inductive RingError where
  | readsOutstanding (read : Nat)
deriving DecidableEq, Repr

/-- What a refused clear says. -/
def RingError.message : RingError → String
  | .readsOutstanding read => s!"ring buffer cleared with {read} bytes of reads outstanding"

/-- The alignments a slot can have. -/
def alignments : List Nat := [1, 2, 4, 8, 16, 32, 64]

/-- The least multiple of `align` from `n` on. -/
def roundUp (n align : Nat) : Nat := (n + align - 1) / align * align

/-- The capacity and the cursors of a ring. -/
structure Ring where
  capacity : Nat
  read : Nat := 0
  write : Nat := 0
  capacity_pos : 0 < capacity
deriving DecidableEq, Repr

namespace Ring

/-- An empty ring of `capacity` bytes, one at the least. -/
def ofCapacity (capacity : Nat) : Ring :=
  { capacity := max capacity 1, capacity_pos := by omega }

/-- The bytes in use. -/
def count (r : Ring) : Nat := r.write - r.read

/-- The ring holds no byte. -/
def isEmpty (r : Ring) : Bool := r.count == 0

/-- Where a slot of `length` bytes starts that comes after `cursor`. -/
def place? (r : Ring) (cursor length align : Nat) (wrap : Bool) : Option Nat :=
  let offset := cursor % r.capacity
  let aligned := roundUp offset align
  if aligned + length ≤ r.capacity then some (cursor + (aligned - offset))
  else if wrap then some (cursor + (r.capacity - offset))
  else none

/-- A slot of `length` bytes can exist in the ring. -/
def admits (r : Ring) (length align : Nat) : Bool :=
  0 < length && length ≤ r.capacity && alignments.contains align

/-- The slot that starts under `cursor`. -/
def slotAt (r : Ring) (cursor length : Nat) : Slot := ⟨cursor % r.capacity, length⟩

/-- Reserves the next slot of `length` bytes. -/
def request (r : Ring) (length align : Nat) (wrap : Bool) : Ring × Option Slot :=
  if r.admits length align then
    match r.place? r.write length align wrap with
    | none => (r, none)
    | some start =>
      if start + length - r.read > r.capacity then (r, none)
      else ({ r with write := start + length }, some (r.slotAt start length))
  else (r, none)

/-- Takes back the next `length` bytes, laid out as a request that may start over lays them out. -/
def retrieve (r : Ring) (length align : Nat) : Ring × Option Slot :=
  if r.admits length align && r.read < r.write then
    match r.place? r.read length align true with
    | none => (r, none)
    | some start =>
      if start + length > r.write then (r, none)
      else ({ r with read := start + length }, some (r.slotAt start length))
  else (r, none)

/-- Puts both cursors back to the start, whatever was retrieved. -/
def reset (r : Ring) : Ring := { r with read := 0, write := 0 }

/-- Forgets the slots of a ring from which nothing was retrieved. -/
def clear (r : Ring) : Except RingError Ring :=
  if r.read = 0 then .ok { r with write := 0 } else .error (.readsOutstanding r.read)

/-- The ring after `clear`, and whether it was cleared. -/
def tryClear (r : Ring) : Ring × Bool :=
  match r.clear with
  | .ok r => (r, true)
  | .error _ => (r, false)

end Ring

end PerfCounters
