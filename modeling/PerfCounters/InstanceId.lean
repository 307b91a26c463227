import PerfCounters.Dimension

/-!
The id of one instance of a counter: a 64-bit word with the counter number in its upper sixteen bits
and a position for each slotted dimension, six bits wide, in the lower forty-eight.

Writing refuses what a field cannot hold; the id of a refused write is the one before it.
-/

namespace PerfCounters

/-- Why a field of an instance id refused a value. -/
inductive DimensionError where
  | counterIdOverflow (counter : Nat)
  | positionOverflow (dimension : Dimension) (position max : Nat)
deriving DecidableEq, Repr

/-- What a refused write says. -/
def DimensionError.message : DimensionError → String
  | .counterIdOverflow counter => s!"counter id {counter} exceeds 0xffff"
  | .positionOverflow dimension position max =>
    s!"position {position} does not fit {dimension.name} (max {max})"

/-- The largest counter number. -/
def maxCounterId : Nat := 0xFFFF

/-- The number of low bits that hold positions. -/
def positionBits : Nat := 48

namespace Dimension

/-- The lowest bit of the field of a dimension. -/
def start (d : Dimension) : Nat := 6 * (d.index - 1)

/-- The number of bits of the field of a dimension. -/
def width : Dimension → Nat
  | .none => positionBits
  | _ => 6

/-- The largest position the field of a dimension can hold. -/
def maxPosition (d : Dimension) : Nat := Nat.pow 2 d.width - 1

end Dimension

/-- The id of one instance of a counter. -/
structure InstanceId where
  word : BitVec 64
deriving DecidableEq, Hashable, Repr

namespace InstanceId

/-- The id with counter 0 at position 0 of every dimension. -/
def zero : InstanceId := ⟨0⟩

instance : Inhabited InstanceId := ⟨zero⟩

/-- The bits from `start` on, `width` of them. -/
def field (start width : Nat) : BitVec 64 := BitVec.ofNat 64 (Nat.pow 2 width - 1) <<< start

/-- The word with the bits of one field taken from `value`. -/
def write (word : BitVec 64) (start width value : Nat) : BitVec 64 :=
  (word &&& ~~~field start width) ||| (BitVec.ofNat 64 value <<< start)

/-- The value of the field of `width` bits from `start` on. -/
def read (word : BitVec 64) (start width : Nat) : Nat := (word >>> start).toNat % Nat.pow 2 width

/-- The counter number. -/
def counter (id : InstanceId) : Nat := read id.word positionBits 16

/-- The position along `d`; along `Dimension.none`, all positions as one number. -/
def position (id : InstanceId) (d : Dimension) : Nat := read id.word d.start d.width

/-- The id with another counter number. -/
def setCounter (id : InstanceId) (counter : Nat) : Except DimensionError InstanceId :=
  if counter > maxCounterId then .error (.counterIdOverflow counter)
  else .ok ⟨write id.word positionBits 16 counter⟩

/-- The id with another position along `d`. -/
def setPosition (id : InstanceId) (d : Dimension) (position : Nat) :
    Except DimensionError InstanceId :=
  if position > d.maxPosition then .error (.positionOverflow d position d.maxPosition)
  else .ok ⟨write id.word d.start d.width position⟩

/-- The id moved to position 0 along `d`. -/
def clear (id : InstanceId) (d : Dimension) : InstanceId :=
  ⟨write id.word d.start d.width 0⟩

/-- The id moved to position 0 along each of `ds`. -/
def clearAll (id : InstanceId) (ds : List Dimension) : InstanceId := ds.foldl clear id

/-- The id of `counter` at the given positions, written one after the other. -/
def pack (counter : Nat) (positions : List (Dimension × Nat)) : Except DimensionError InstanceId := do
  positions.foldlM (fun id p => id.setPosition p.1 p.2) (← zero.setCounter counter)

/-- Sixteen lower-case hexadecimal digits. -/
def hex16 (n : Nat) : String :=
  let digits := Nat.toDigits 16 n
  String.ofList (List.replicate (16 - digits.length) '0' ++ digits)

/-- The text of an id. -/
def text (id : InstanceId) : String := "0x" ++ hex16 id.word.toNat

end InstanceId

end PerfCounters
