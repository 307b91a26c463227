/-!
The hardware axes along which a counter is repeated, and the layout of a counter over them.

Seven of the axes have a slot of their own in an instance id. The eighth, `Dimension.none`, stands
for all of them at once: it names the whole position field of an id.
-/

namespace PerfCounters

/-- An axis of the device: which copy of a unit an instance of a counter belongs to. -/
inductive Dimension where
  | none
  | xcc
  | aid
  | shaderEngine
  | agent
  | shaderArray
  | wgp
  | inst
deriving DecidableEq, Repr, Inhabited

namespace Dimension

/-- The place of a dimension in the fixed order of all dimensions. -/
def index : Dimension → Nat
  | .none => 0
  | .xcc => 1
  | .aid => 2
  | .shaderEngine => 3
  | .agent => 4
  | .shaderArray => 5
  | .wgp => 6
  | .inst => 7

/-- The name a dimension has in expressions and definition documents. -/
def name : Dimension → String
  | .none => "DIMENSION_NONE"
  | .xcc => "DIMENSION_XCC"
  | .aid => "DIMENSION_AID"
  | .shaderEngine => "DIMENSION_SHADER_ENGINE"
  | .agent => "DIMENSION_AGENT"
  | .shaderArray => "DIMENSION_SHADER_ARRAY"
  | .wgp => "DIMENSION_WGP"
  | .inst => "DIMENSION_INSTANCE"

/-- The dimensions that have a slot of their own, in slot order. -/
def slotted : List Dimension :=
  [.xcc, .aid, .shaderEngine, .agent, .shaderArray, .wgp, .inst]

/-- Every dimension, in the order of `index`. -/
def all : List Dimension := .none :: slotted

/-- The dimension called `text`, if there is one. -/
def ofName? (text : String) : Option Dimension :=
  all.find? fun d => d.name == text

theorem mem_slotted_iff {d : Dimension} : d ∈ slotted ↔ d ≠ .none := by cases d <;> decide

theorem ofName?_name (d : Dimension) : ofName? d.name = some d := by cases d <;> decide

end Dimension

/-- The largest number of positions a slot can tell apart. -/
def maxAxisSize : Nat := 64

/-- One dimension of a layout and the number of positions along it. -/
structure Axis where
  dimension : Dimension
  size : Nat
deriving DecidableEq, Repr

/-- An axis can be told apart in an id: it has a slot, and the slot holds every position. -/
def Axis.encodable (a : Axis) : Bool :=
  a.dimension != .none && 1 ≤ a.size && a.size ≤ maxAxisSize

/-- How the records of a counter are laid out: its axes, the last one varying fastest. -/
abbrev Layout := List Axis

namespace Layout

/-- The layout of a value that exists once. -/
def scalar : Layout := [⟨.inst, 1⟩]

/-- A layout with nothing left in it is that of a value that exists once. -/
def orScalar (l : Layout) : Layout := if l.isEmpty then scalar else l

/-- The axes that `removed` does not take away. -/
def without (l : Layout) (removed : Dimension → Bool) : Layout :=
  orScalar (l.filter fun a => !removed a.dimension)

/-- How many records a layout holds; an axis of no size counts once. -/
def count (l : Layout) : Nat := l.foldl (fun n a => n * max a.size 1) 1

/-- The text of a layout in messages. -/
def text (l : Layout) : String :=
  "[" ++ ", ".intercalate (l.map fun a => s!"{a.dimension.name}:{a.size}") ++ "]"

end Layout

end PerfCounters
