import PerfCounters.InstanceId
import PerfCounters.Metric
import Std.Data.HashMap

/-!
The catalog: every metric of every architecture, numbered from 1 in the order of registration, and
the layouts of the hardware blocks.

Metrics are found by number in the array and by name in the index, which has the names of each
architecture apart; a registration extends both, so the two views agree. Number 0 belongs to no
metric: it marks the values of literals.
-/

namespace PerfCounters

/-- The layout of a hardware block of an architecture. -/
structure Block where
  architecture : String
  name : String
  layout : Layout
deriving DecidableEq, Repr

/-- The registered metrics and blocks. -/
structure Catalog where
  metrics : Array Metric := #[]
  /-- The numbers of the metrics of each architecture, by name. -/
  ids : Std.HashMap String (Std.HashMap String Nat) := {}
  /-- The layouts of the blocks of each architecture, by name. -/
  blocks : Std.HashMap String (Std.HashMap String Layout) := {}

namespace Catalog

/-- The catalog without metrics and blocks. -/
def empty : Catalog := {}

instance : Inhabited Catalog := ⟨empty⟩

/-- The number of registered metrics. -/
def size (c : Catalog) : Nat := c.metrics.size

/-- The metric with number `id`. -/
def byId? (c : Catalog) (id : Nat) : Option Metric :=
  if id = 0 then none else c.metrics[id - 1]?

/-- The number that the index has for a name. -/
def number? (c : Catalog) (architecture name : String) : Option Nat :=
  c.ids[architecture]?.bind fun names => names[name]?

/-- The metric of an architecture called `name`. -/
def byName? (c : Catalog) (architecture name : String) : Option Metric :=
  (c.number? architecture name).bind c.byId?

/-! ### Registering -/

/-- The index has the name for this architecture. -/
def hasName (c : Catalog) (architecture name : String) : Bool :=
  c.ids[architecture]?.any fun names => names.contains name

/-- The catalog with an entry for the architecture in its index, one without names if it had none. -/
def enter (c : Catalog) (architecture : String) : Catalog :=
  if c.ids.contains architecture then c else { c with ids := c.ids.insert architecture {} }

/-- The catalog with a name in the entry of the architecture, which is taken out for it and put back. -/
def enterName (c : Catalog) (architecture name : String) (id : Nat) : Catalog :=
  match c.ids[architecture]? with
  | some names => { c with ids := (c.ids.erase architecture).insert architecture (names.insert name id) }
  | none => c

/-- The metric a definition becomes behind those of the catalog. -/
def next (c : Catalog) (d : Definition) : Metric := { d with id := c.size + 1 }

/-- The catalog with `d` under the next number. -/
def add (c : Catalog) (d : Definition) : Catalog :=
  let m := c.next d
  let c := c.enter d.architecture
  let c := c.enterName d.architecture d.name m.id
  { c with metrics := c.metrics.push m }

/-- Registers a metric, unless its name is taken or no number is left. -/
def register (c : Catalog) (d : Definition) : Catalog × Except CatalogError Metric :=
  if c.hasName d.architecture d.name then (c, .error (.duplicateName d.architecture d.name))
  else if c.size + 1 > maxCounterId then (c, .error .idSpaceExhausted)
  else
    let m := c.next d
    (c.add d, .ok m)

/-- Registers metrics in order up to the first refused one. -/
def registerAll (c : Catalog) : List Definition → Catalog × Option CatalogError
  | [] => (c, none)
  | d :: ds =>
    match c.register d with
    | (c, .ok _) => c.registerAll ds
    | (c, .error e) => (c, some e)

/-! ### Queries -/

/-- The metrics of an architecture, by number. -/
def metricsOf (c : Catalog) (architecture : String) : List Metric :=
  c.metrics.toList.filter fun m => m.architecture == architecture

/-- The metrics of an architecture whose value is a property of the agent, by number. -/
def constantsOf (c : Catalog) (architecture : String) : List Metric :=
  (c.metricsOf architecture).filter Metric.isConstant

/-- The architectures that the index has an entry for, in ascending order. -/
def architectures (c : Catalog) : List String := c.ids.keys.mergeSort fun a b => decide (a ≤ b)

/-! ### Blocks -/

/-- Sets the layout of a block. -/
def registerBlock (c : Catalog) (b : Block) : Catalog :=
  let layouts := c.blocks.getD b.architecture {}
  { c with blocks := c.blocks.insert b.architecture (layouts.insert b.name b.layout) }

/-- The layout that was set for a block. -/
def layout? (c : Catalog) (architecture name : String) : Option Layout :=
  c.blocks[architecture]?.bind fun layouts => layouts[name]?

/-- The layout of a block. A block nothing is known about exists once. -/
def blockLayout (c : Catalog) (architecture name : String) : Layout :=
  match c.layout? architecture name with
  | some l => Layout.orScalar l
  | none => Layout.scalar

/-- The blocks of an architecture, by name. -/
def blocksOf (c : Catalog) (architecture : String) : List Block :=
  let layouts := (c.blocks.getD architecture {}).toList
  (layouts.map fun (name, layout) => ⟨architecture, name, layout⟩).mergeSort fun a b => decide (a.name ≤ b.name)

end Catalog

end PerfCounters
