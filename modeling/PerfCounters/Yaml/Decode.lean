import PerfCounters.Decimal.Text
import PerfCounters.Yaml.Node

/-!
Reading values of known types from nodes. A scalar of any style is a text, whatever its tag. Numbers and the
absence of a value are plain scalars; a number may also be a literal block with the tag of its kind. A case
of several is named by a text or by a tag of its own. An empty plain scalar is also a sequence without items
and a mapping without entries. In a record fields may be left out where there is a default, unknown fields
count for nothing, and no field stands twice; in a table the last of several equal keys counts.
-/

namespace PerfCounters.Yaml

/-! ### Numbers in plain scalars -/

/-- The value of a digit below `base`. -/
def digit? (base : Nat) (c : Char) : Option Nat := (Text.hexDigit? c).filter fun d => d < base

/-- The number written by digits of a base; there must be one. -/
def digits? (base : Nat) (cs : List Char) : Option Nat :=
  if cs.isEmpty then none
  else cs.foldl (fun n? c => n?.bind fun n => (digit? base c).map fun d => base * n + d) (some 0)

/-- A natural number: decimal without leading zeros, or with a mark of its base. -/
def unsigned? (text : String) : Option Nat :=
  let cs := text.toList
  let body := if cs.head? == some '+' then cs.tail else cs
  match body with
  | '0' :: 'x' :: rest => digits? 16 rest
  | '0' :: 'o' :: rest => digits? 8 rest
  | '0' :: 'b' :: rest => digits? 2 rest
  | '0' :: _ :: _ => none
  | _ => digits? 10 body

/-- A double: a decimal number that is finite as a double, or a word for an infinity or no number. -/
def double? (text : String) : Option Float :=
  let cs := text.toList
  let body := if cs.head? == some '+' then cs.tail else cs
  if body.length < cs.length && (body.head? == some '+' || body.head? == some '-') then none
  else if [".inf", ".Inf", ".INF"].contains (String.ofList body) then
    some (Float.ofBits 0x7FF0000000000000)
  else if ["-.inf", "-.Inf", "-.INF"].contains text then some (Float.ofBits 0xFFF0000000000000)
  else if [".nan", ".NaN", ".NAN"].contains text then some (Float.ofBits 0x7FF8000000000000)
  else (Decimal.read? body).filter Float.isFinite

/-- The words for the absence of a value. -/
def isNull (text : String) : Bool := ["~", "null", "Null", "NULL"].contains text

/-! ### Tags with a meaning -/

/-- The tag of whole numbers. -/
def intTag : Tag := "tag:yaml.org,2002:int".toUTF8.toList

/-- The tag of doubles. -/
def floatTag : Tag := "tag:yaml.org,2002:float".toUTF8.toList

/-- The tag of the absence of a value. -/
def nullTag : Tag := "tag:yaml.org,2002:null".toUTF8.toList

/-- The name in a tag that begins with an exclamation mark. -/
def ownName? : Option Tag → Option String
  | some (mark :: name) => if mark = 0x21 then String.fromUTF8? ⟨name.toArray⟩ else none
  | _ => none

/-! ### Values -/

/-- A value read from the nodes of a document; counts the aliases that were followed. -/
abbrev Decoder (α : Type) := ReaderT Document (StateT Nat Option) α

/-- The value read from the root of a document. -/
def Document.decode? {α : Type} (d : Document) (f : Node → Decoder α) : Option α :=
  ((f d.root).run d).run' 0

/-- The document that is read. -/
def Decoder.document : Decoder Document := ReaderT.read

/-- The value, if there is one. -/
def Decoder.ofOption {α : Type} : Option α → Decoder α
  | some a => return a
  | none => failure

namespace Node

/-- The node itself, or what an alias stands for. -/
def follow : Node → Decoder Node
  | .alias number => do
    let d ← Decoder.document
    let followed ← get
    if followed < d.maxFollowed then
      set (followed + 1)
      Decoder.ofOption (d.named? number)
    else failure
  | n => return n

/-- A text. -/
def text (n : Node) : Decoder String := do
  match ← n.follow with
  | .scalar _ _ text => return text
  | _ => failure

/-- The text of a number of the kind that a tag says. -/
def numeral (kind : Tag) (n : Node) : Decoder String := do
  match ← n.follow with
  | .scalar tag style text =>
    if style = .plain || (style = .literal && tag = some kind) then return text else failure
  | _ => failure

/-- What a text says. -/
def parsed {α : Type} (parse? : String → Option α) (n : Node) : Decoder α := do
  Decoder.ofOption (parse? (← n.text))

/-- A natural number of so many bits. -/
def nat (bits : Nat) (n : Node) : Decoder Nat := do
  Decoder.ofOption ((unsigned? (← n.numeral intTag)).filter fun n => n < Nat.pow 2 bits)

/-- A double. -/
def float (n : Node) : Decoder Float := do Decoder.ofOption (double? (← n.numeral floatTag))

/-- A value that may be absent. With the tag of absence it has to be. -/
def optional {α : Type} (f : Node → Decoder α) (n : Node) : Decoder (Option α) := do
  let n ← n.follow
  match n with
  | .scalar none .plain text => if text.isEmpty || isNull text then return none else return some (← f n)
  | .scalar (some tag) .plain text =>
    if tag = nullTag then (if isNull text then return none else failure) else return some (← f n)
  | _ => return some (← f n)

/-- The name of one of several cases. Where a tag names it nothing else may be said. -/
def caseName (n : Node) : Decoder String := do
  match ← n.follow with
  | .scalar tag style text =>
    match ownName? tag with
    | some name => if style = .plain && (text.isEmpty || isNull text) then return name else failure
    | none => return text
  | _ => failure

/-- The case with a name. -/
def oneOf {α : Type} (ofName? : String → Option α) (n : Node) : Decoder α := do
  Decoder.ofOption (ofName? (← n.caseName))

/-- The values of a sequence. -/
def list {α : Type} (f : Node → Decoder α) (n : Node) : Decoder (List α) := do
  match ← n.follow with
  | .sequence _ items => items.mapM f
  | .scalar _ .plain "" => return []
  | _ => failure

/-- The entries of a mapping. -/
def entries (n : Node) : Decoder (List (Node × Node)) := do
  match ← n.follow with
  | .mapping _ entries => return entries
  | .scalar _ .plain "" => return []
  | _ => failure

/-! ### Tables -/

/-- Puts a value under a key in a table in the order of keys; a value it had before is gone. -/
def insert {κ α : Type} [BEq κ] (before : κ → κ → Bool) (key : κ) (value : α) :
    List (κ × α) → List (κ × α)
  | [] => [(key, value)]
  | entry :: rest =>
    if entry.1 == key then (key, value) :: rest
    else if before key entry.1 then (key, value) :: entry :: rest
    else entry :: insert before key value rest

/-- A table in the order of keys. -/
def table {κ α : Type} [BEq κ] (before : κ → κ → Bool) (key : Node → Decoder κ)
    (value : Node → Decoder α) (n : Node) : Decoder (List (κ × α)) := do
  let entries ← (← n.entries).mapM fun entry => do return (← key entry.1, ← value entry.2)
  return entries.foldl (fun table entry => insert before entry.1 entry.2 table) []

/-- A table whose keys are texts. -/
def textTable {α : Type} (value : Node → Decoder α) (n : Node) : Decoder (List (String × α)) :=
  n.table (fun a b => decide (a < b)) text value

/-! ### Records -/

/-- The fields of a record; none of `names` stands twice. -/
def fields (names : List String) (n : Node) : Decoder (List (String × Node)) := do
  let fields ← (← n.entries).mapM fun entry => do return (← entry.1.text, entry.2)
  if names.all fun name => (fields.filter fun field => field.1 == name).length ≤ 1
  then return fields else failure

/-- The value of a field; `default?` if it is left out. -/
def field {α : Type} (fields : List (String × Node)) (name : String) (value : Node → Decoder α)
    (default? : Option α) : Decoder α :=
  match fields.find? fun field => field.1 == name with
  | some field => value field.2
  | none => Decoder.ofOption default?

end Node

end PerfCounters.Yaml
