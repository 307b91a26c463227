import PerfCounters.Dimension
import PerfCounters.Yaml.Decode

/-!
A definition document: the sizes of the hardware blocks of each architecture, and the metrics with
their definitions by architecture. A key may name several architectures.
-/

namespace PerfCounters

/-- The definition of a metric on some architectures. -/
structure ArchitectureEntry where
  block : String := ""
  event : Option Nat := none
  expression : String := ""
  constant : String := ""
  /-- Stands in for the description of the metric. -/
  description : Option String := none
deriving DecidableEq, Repr

/-- A metric with its definitions. -/
structure MetricEntry where
  name : String
  description : String := ""
  /-- The definitions by key, in the order of keys. -/
  architectures : List (String × ArchitectureEntry)
deriving DecidableEq, Repr

/-- The content of a definition document. -/
structure DefinitionDocument where
  /-- The sizes of the dimensions by architecture and block, each in the order of keys. -/
  blocks : List (String × List (String × List (Dimension × Nat))) := []
  metrics : List MetricEntry := []
deriving DecidableEq, Repr

open Yaml Node in
/-- Reads a definition. -/
def ArchitectureEntry.ofNode (n : Node) : Decoder ArchitectureEntry := do
  let fields ← n.fields ["block", "event", "expression", "constant", "description"]
  return {
    block := ← field fields "block" text (some "")
    event := ← field fields "event" (optional (nat 32)) (some none)
    expression := ← field fields "expression" text (some "")
    constant := ← field fields "constant" text (some "")
    description := ← field fields "description" (optional text) (some none) }

open Yaml Node in
/-- Reads a metric. -/
def MetricEntry.ofNode (n : Node) : Decoder MetricEntry := do
  let fields ← n.fields ["name", "description", "architectures"]
  return {
    name := ← field fields "name" text none
    description := ← field fields "description" text (some "")
    architectures := ← field fields "architectures" (textTable ArchitectureEntry.ofNode) none }

open Yaml Node in
/-- Reads the sizes of the dimensions of a block. -/
def Dimension.sizes (n : Node) : Decoder (List (Dimension × Nat)) :=
  n.table (fun a b => decide (a.index < b.index)) (oneOf Dimension.ofName?) (nat 64)

namespace DefinitionDocument

open Yaml Node in
/-- Reads a document. -/
def ofNode (n : Node) : Decoder DefinitionDocument := do
  let fields ← n.fields ["blocks", "metrics"]
  return {
    blocks := ← field fields "blocks" (textTable (textTable Dimension.sizes)) (some [])
    metrics := ← field fields "metrics" (list MetricEntry.ofNode) (some []) }

/-- Reads a document from YAML. -/
def ofText? (text : String) : Option DefinitionDocument :=
  (Yaml.Document.ofText? text).bind fun d => d.decode? ofNode

end DefinitionDocument

end PerfCounters
