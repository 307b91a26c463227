import PerfCounters.Ring.Arena

/-!
A buffer of tagged records of any types: an arena for the payloads, and cells for their headers that
are filled from the first one on.

Records go in one after the other and are read all at once, behind an exclusive gate. A thread may
take the gate again while it has it; the gate opens when every taking has been given back. While it is
shut nothing is stored.
-/

namespace PerfCounters

/-- The type of a payload: how it is called, and the bytes and the alignment it needs. -/
structure RecordType where
  name : String
  size : Nat
  align : Nat
deriving DecidableEq, Repr, Inhabited

namespace RecordType

/-- The fewest bytes a record takes up. -/
def minFootprint : Nat := 8

/-- The bytes a record of this type takes up. -/
def footprint (t : RecordType) : Nat := max t.size minFootprint

end RecordType

/-- A payload with its tags. -/
structure Record (α : Type) where
  category : Nat
  kind : Nat
  type : RecordType
  value : α
deriving DecidableEq, Repr

namespace Record

/-- The payload, for a reader that asks for its type. -/
def payload? {α : Type} (r : Record α) (t : RecordType) : Option α :=
  if r.type = t then some r.value else none

/-- The tags of a record as a log line shows them. -/
def debugText {α : Type} (r : Record α) : String :=
  s!"RecordRef \x7b category: {r.category}, kind: {r.kind} \x7d"

end Record

/-- Where the payload of a record lies, and its type. -/
structure Payload where
  offset : Nat
  type : RecordType
deriving DecidableEq, Repr

/-- The tags of a stored record, and its payload; without one in a blank cell. -/
structure Header where
  category : Nat := 0
  kind : Nat := 0
  payload : Option Payload := none
deriving DecidableEq, Repr

namespace Header

/-- A cell as it is before anything is written to it. -/
def blank : Header := {}

/-- The header is that of a record. A record may be of category 0, and then its payload tells. -/
def isPopulated (h : Header) : Bool := h.category != 0 || h.payload.isSome

end Header

/-- The header of a record whose payload lies at `offset`. -/
def Record.header {α : Type} (r : Record α) (offset : Nat) : Header := ⟨r.category, r.kind, some ⟨offset, r.type⟩⟩

/-- A thread that uses a buffer. -/
abbrev Thread := Nat

/-- What shuts a buffer: the thread that has taken the gate and how many times, the lock that this thread
holds meanwhile, and the number of threads that have the gate or wait for it. -/
structure Gate where
  owner : Option Thread := none
  depth : Nat := 0
  locked : Bool := false
  gated : Nat := 0
deriving DecidableEq, Repr

namespace Gate

/-- Nobody has the gate. -/
def opened : Gate := {}

/-- The gate after a thread has taken it once more; `none` says that the thread waits for the lock. -/
def lock? (g : Gate) (t : Thread) : Option Gate :=
  if g.owner = some t then some { g with depth := g.depth + 1 }
  else if g.locked then none
  else some { owner := some t, depth := 1, locked := true, gated := g.gated + 1 }

/-- The gate after a thread has given back one taking; the last one frees the lock. A thread that has not
taken the gate changes nothing. -/
def unlock (g : Gate) (t : Thread) : Gate :=
  if g.owner = some t ∧ g.depth ≠ 0 then
    if g.depth = 1 then { owner := none, depth := 0, locked := false, gated := g.gated - 1 }
    else { g with depth := g.depth - 1 }
  else g

end Gate

/-- The records stored since the last clear. -/
structure RecordBuffer (α : Type) where
  arena : Arena α
  /-- The cells for headers, as many as records can be stored. -/
  headers : Array Header
  /-- The number of slots taken since the last clear, and so the cell to be written next. -/
  taken : Nat := 0
  gate : Gate := .opened

namespace RecordBuffer

variable {α : Type}

/-- An empty buffer of `capacity` bytes, one at the least. -/
def ofCapacity (capacity : Nat) : RecordBuffer α :=
  let arena := Arena.ofCapacity capacity
  let limit := (arena.ring.capacity + RecordType.minFootprint - 1) / RecordType.minFootprint
  { arena, headers := Array.replicate limit .blank }

/-- The bytes of the buffer. -/
def capacity (b : RecordBuffer α) : Nat := b.arena.ring.capacity

/-- The number of headers there is room for. -/
def headerLimit (b : RecordBuffer α) : Nat := b.headers.size

/-- The bytes in use, padding included. -/
def count (b : RecordBuffer α) : Nat := b.arena.ring.count

/-- The buffer holds no byte. -/
def isEmpty (b : RecordBuffer α) : Bool := b.arena.ring.isEmpty

/-- The number of records stored since the last clear. -/
def length (b : RecordBuffer α) : Nat := min b.taken b.headerLimit

/-- A record of this type fits the buffer when it is empty. -/
def canHold (b : RecordBuffer α) (t : RecordType) : Bool :=
  t.footprint ≤ b.capacity && t.align ≤ 64

/-- The record a header describes. -/
def record? (b : RecordBuffer α) (h : Header) : Option (Record α) :=
  h.payload.bind fun p => (b.arena.get? p.offset).map fun value => ⟨h.category, h.kind, p.type, value⟩

/-- The cells that were taken since the last clear. -/
def written (b : RecordBuffer α) : List Header := (b.headers.extract 0 b.length).toList

/-- The stored records, oldest first. -/
def records (b : RecordBuffer α) : List (Record α) := (b.written.filter Header.isPopulated).filterMap b.record?

/-! ### Storing -/

/-- Stores a record if there is room; says whether it did. A slot for which there is no cell is lost until
    the next clear. -/
def push (b : RecordBuffer α) (r : Record α) : RecordBuffer α × Bool :=
  match b.arena.put r.type.footprint r.type.align false r.value with
  | (_, none) => (b, false)
  | (arena, some slot) =>
    if b.taken < b.headerLimit then
      let headers := b.headers.setIfInBounds b.taken (r.header slot.offset)
      ({ b with arena, headers, taken := b.taken + 1 }, true)
    else ({ b with arena, taken := b.taken + 1 }, false)

/-- Stores a record behind the lock; `none` says that the call waits for it. -/
def emplace? (b : RecordBuffer α) (r : Record α) : Option (RecordBuffer α × Bool) :=
  if b.gate.locked then none else some (b.push r)

/-- Stores a record, but gives up while a thread has the gate or waits for it. -/
def tryEmplace? (b : RecordBuffer α) (r : Record α) : Option (RecordBuffer α × Bool) :=
  if 0 < b.gate.gated then some (b, false) else b.emplace? r

/-- What `tryEmplace?` answers; nothing is stored by a call that waits. -/
def tryEmplace (b : RecordBuffer α) (r : Record α) : RecordBuffer α × Bool := (b.tryEmplace? r).getD (b, false)

/-! ### The gate -/

/-- Takes the gate once more; `none` says that the call waits for another thread. -/
def lock? (b : RecordBuffer α) (t : Thread) : Option (RecordBuffer α) :=
  (b.gate.lock? t).map fun gate => { b with gate }

/-- Gives one taking of the gate back. -/
def unlock (b : RecordBuffer α) (t : Thread) : RecordBuffer α := { b with gate := b.gate.unlock t }

/-- The cells with those taken since the last clear made blank. -/
def blankTaken (b : RecordBuffer α) : Array Header :=
  (List.range b.length).foldl (fun headers i => headers.setIfInBounds i .blank) b.headers

/-- Forgets the stored records. -/
def empty (b : RecordBuffer α) : RecordBuffer α :=
  let ring := match b.arena.ring.clear with
    | .ok ring => ring
    | .error _ => b.arena.ring.reset
  { b with arena := { b.arena with ring }, headers := b.blankTaken, taken := 0 }

/-- Reads every record behind the gate and forgets them if `clearAfter`; `none` says that the call
waits for another thread. -/
def process? (b : RecordBuffer α) (t : Thread) (clearAfter : Bool) :
    Option (RecordBuffer α × List (Record α)) :=
  (b.lock? t).map fun b =>
    let rest := if clearAfter then b.empty else b
    (rest.unlock t, b.records)

/-- Forgets every record behind the gate; `none` says that the call waits for another thread. -/
def clear? (b : RecordBuffer α) (t : Thread) : Option (RecordBuffer α) :=
  (b.lock? t).map fun b => b.empty.unlock t

end RecordBuffer

end PerfCounters
