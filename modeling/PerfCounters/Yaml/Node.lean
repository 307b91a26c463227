import PerfCounters.Yaml.Token

/-!
The tree of a YAML text: scalars, sequences and mappings. A text is one document; one without any
content is an empty scalar, as are the entries that are left out.

A node may have a name, and an alias stands for the node with its name. Each name that is given out has the
number of names there are before it. An alias has the number that its name has at that point, and stands for
the node that was the last in the document to begin under that number.
-/

namespace PerfCounters.Yaml

/-- A node, with its tag if there is one. -/
inductive Node where
  | scalar (tag : Option Tag) (style : Style) (text : String)
  | sequence (tag : Option Tag) (items : List Node)
  | mapping (tag : Option Tag) (entries : List (Node × Node))
  | alias (number : Nat)
deriving Repr

namespace Node

/-- What is not written. -/
def empty : Node := .scalar none .plain ""

instance : Inhabited Node := ⟨empty⟩

mutual

/-- The size of a node: a scalar or an alias counts once, a collection twice. -/
def size : Node → Nat
  | .scalar _ _ _ => 1
  | .alias _ => 1
  | .sequence _ items => sizeOfItems items + 2
  | .mapping _ entries => sizeOfEntries entries + 2

/-- The size of items together. -/
def sizeOfItems : List Node → Nat
  | [] => 0
  | item :: rest => item.size + sizeOfItems rest

/-- The size of entries together. -/
def sizeOfEntries : List (Node × Node) → Nat
  | [] => 0
  | (key, value) :: rest => key.size + value.size + sizeOfEntries rest

end

/-- The tokens that are left, and what handles and names stand for. -/
structure Stream where
  tokens : List Token
  handles : List (String × Tag) := standardHandles
  /-- The number of each name. -/
  names : List (String × Nat) := []
  /-- The named nodes with their numbers, in the order in which they begin. -/
  definitions : Array (Nat × Node) := #[]

/-- A step of reading nodes; it may fail. -/
abbrev Reader := StateT Stream Option

/-- The next token. -/
def peek : Reader (Option Token) := do return (← get).tokens.head?

/-- Goes past the next token. -/
def advance : Reader Unit := modify fun s => { s with tokens := s.tokens.tail }

/-- Whether the next token is one of `ts`. -/
def at? (ts : List Token) : Reader Bool := do
  return match ← peek with
    | some t => ts.contains t
    | none => false

/-! ### Names and tags -/

/-- The number of a name. -/
def numberOf (name : String) : Reader Nat := do
  match (← get).names.lookup name with
  | some number => return number
  | none => failure

/-- Begins a node with a name, if one is asked for; answers with its place among the named nodes. -/
def openNamed : Option String → Reader (Option Nat)
  | none => return none
  | some name => modifyGet fun s =>
    let number := s.names.length
    let others := s.names.filter fun entry => entry.1 != name
    (some s.definitions.size,
      { s with names := (name, number) :: others, definitions := s.definitions.push (number, empty) })

/-- Ends the node at a place among the named nodes. -/
def closeNamed (n : Node) : Option Nat → Reader Unit
  | none => return ()
  | some place => modify fun s =>
    { s with definitions := s.definitions.modify place fun entry => (entry.1, n) }

/-- The tag that is written. -/
def tagOf (t : TagName) : Reader Tag := do
  match t.resolve? (← get).handles with
  | some tag => return tag
  | none => failure

/-- Reads the anchor and the tag of a node, in either order. -/
def properties : Reader (Option String × Option Tag) := do
  match ← peek with
  | some (.anchor name) =>
    advance
    match ← peek with
    | some (.tag t) =>
      advance
      return (some name, some (← tagOf t))
    | _ => return (some name, none)
  | some (.tag t) =>
    advance
    let tag ← tagOf t
    match ← peek with
    | some (.anchor name) =>
      advance
      return (some name, some tag)
    | _ => return (none, some tag)
  | _ => return (none, none)

/-! ### Nodes -/

mutual

/-- Reads a node. Block collections are read where `block`, and a sequence that is not indented where
`indentless`. -/
def read : Nat → (block indentless : Bool) → Reader Node
  | 0, _, _ => failure
  | fuel + 1, block, indentless => do
    match ← peek with
    | some (.alias name) =>
      advance
      return .alias (← numberOf name)
    | _ =>
      let (name, tag) ← properties
      let place ← openNamed name
      let n ← readContent fuel block indentless name.isSome tag
      closeNamed n place
      return n

/-- Reads what a node with a tag consists of. One that has a tag or is `named` may be empty. A lone exclamation mark is a
tag like any other, also in front of a scalar. -/
def readContent : Nat → (block indentless named : Bool) → Option Tag → Reader Node
  | 0, _, _, _, _ => failure
  | fuel + 1, block, indentless, named, tag => do
    match ← peek, block, indentless with
    | some .blockEntry, _, true => return .sequence tag (← readIndentless fuel)
    | some (.scalar style text), _, _ =>
      advance
      return .scalar tag style text
    | some .flowSequenceStart, _, _ =>
      advance
      return .sequence tag (← readFlowItems fuel true)
    | some .flowMappingStart, _, _ =>
      advance
      return .mapping tag (← readFlowEntries fuel true)
    | some .blockSequenceStart, true, _ =>
      advance
      return .sequence tag (← readBlockItems fuel)
    | some .blockMappingStart, true, _ =>
      advance
      return .mapping tag (← readBlockEntries fuel)
    | _, _, _ => if named || tag.isSome then return .scalar tag .plain "" else failure

/-- Reads a node of a block collection unless one of `ends` comes next. -/
def readUnless : Nat → List Token → (indentless : Bool) → Reader Node
  | 0, _, _ => failure
  | fuel + 1, ends, indentless => do
    if ← at? ends then return empty else read fuel true indentless

/-- Reads the items of a block sequence. -/
def readBlockItems : Nat → Reader (List Node)
  | 0 => failure
  | fuel + 1 => do
    match ← peek with
    | some .blockEntry =>
      advance
      let item ← readUnless fuel [.blockEntry, .blockEnd] false
      return item :: (← readBlockItems fuel)
    | some .blockEnd =>
      advance
      return []
    | _ => failure

/-- Reads the items of a sequence that is not indented. -/
def readIndentless : Nat → Reader (List Node)
  | 0 => failure
  | fuel + 1 => do
    if ← at? [.blockEntry] then
      advance
      let item ← readUnless fuel [.blockEntry, .key, .value, .blockEnd] false
      return item :: (← readIndentless fuel)
    else return []

/-- Reads the entries of a block mapping. -/
def readBlockEntries : Nat → Reader (List (Node × Node))
  | 0 => failure
  | fuel + 1 => do
    match ← peek with
    | some .key =>
      advance
      let ends := [Token.key, .value, .blockEnd]
      let key ← readUnless fuel ends true
      if ← at? [.value] then
        advance
        let value ← readUnless fuel ends true
        return (key, value) :: (← readBlockEntries fuel)
      else return (key, empty) :: (← readBlockEntries fuel)
    | some .blockEnd =>
      advance
      return []
    | _ => failure

/-- Reads the value after a key in a flow collection, which one of `ends` ends. -/
def readFlowValue : Nat → List Token → Reader Node
  | 0, _ => failure
  | fuel + 1, ends => do
    if ← at? [.value] then
      advance
      if ← at? ends then return empty else read fuel false false
    else return empty

/-- Reads an item of a flow sequence: a node, or one entry of a mapping. -/
def readFlowItem : Nat → Reader Node
  | 0 => failure
  | fuel + 1 => do
    if ← at? [.key] then
      advance
      if ← at? [.value, .flowEntry, .flowSequenceEnd] then
        advance
        return .mapping none [(empty, ← readFlowValue fuel [.flowEntry, .flowSequenceEnd])]
      else
        let key ← read fuel false false
        return .mapping none [(key, ← readFlowValue fuel [.flowEntry, .flowSequenceEnd])]
    else read fuel false false

/-- Reads the items of a flow sequence; all but the first follow a comma. -/
def readFlowItems : Nat → (first : Bool) → Reader (List Node)
  | 0, _ => failure
  | fuel + 1, first => do
    if ← at? [.flowSequenceEnd] then
      advance
      return []
    else if first then
      let item ← readFlowItem fuel
      return item :: (← readFlowItems fuel false)
    else if ← at? [.flowEntry] then
      advance
      if ← at? [.flowSequenceEnd] then
        advance
        return []
      else
        let item ← readFlowItem fuel
        return item :: (← readFlowItems fuel false)
    else failure

/-- Reads an entry of a flow mapping. -/
def readFlowEntry : Nat → Reader (Node × Node)
  | 0 => failure
  | fuel + 1 => do
    let ends := [Token.flowEntry, .flowMappingEnd]
    if ← at? [.key] then
      advance
      let key ← if ← at? (.value :: ends) then pure empty else read fuel false false
      return (key, ← readFlowValue fuel ends)
    else
      let key ← read fuel false false
      return (key, empty)

/-- Reads the entries of a flow mapping; all but the first follow a comma. -/
def readFlowEntries : Nat → (first : Bool) → Reader (List (Node × Node))
  | 0, _ => failure
  | fuel + 1, first => do
    if ← at? [.flowMappingEnd] then
      advance
      return []
    else if first then
      let entry ← readFlowEntry fuel
      return entry :: (← readFlowEntries fuel false)
    else if ← at? [.flowEntry] then
      advance
      if ← at? [.flowMappingEnd] then
        advance
        return []
      else
        let entry ← readFlowEntry fuel
        return entry :: (← readFlowEntries fuel false)
    else failure

end

/-! ### Documents -/

/-- The directives at the head of some tokens. -/
def directivesOf : List Token → List Directive
  | .directive d :: rest => d :: directivesOf rest
  | _ => []

/-- Reads the root after the mark of a document; it may be left out. -/
def readRoot (fuel : Nat) : Reader Node := do
  match ← peek with
  | none => return empty
  | some .documentStart => return empty
  | some .documentEnd => return empty
  | some (.directive _) => return empty
  | some _ => read fuel true false

/-- Reads a document: its root alone, or after a mark that directives may precede. -/
def readDocument (fuel : Nat) : Reader Node := do
  let ds := directivesOf (← get).tokens
  modify fun s =>
    { s with tokens := s.tokens.drop ds.length, handles := Directive.handles ds ++ s.handles }
  if !Directive.fit ds then failure
  match ← peek with
  | some .documentStart =>
    advance
    readRoot fuel
  | none => if ds.isEmpty then return empty else failure
  | some _ => if ds.isEmpty then read fuel true false else failure

end Node

/-- A document. -/
structure Document where
  root : Node
  /-- The named nodes with their numbers, in the order in which they begin. -/
  definitions : Array (Nat × Node)
  /-- How many aliases may be followed in all. -/
  maxFollowed : Nat

namespace Document

/-- The node that aliases with a number stand for. -/
def named? (d : Document) (number : Nat) : Option Node :=
  (d.definitions.toList.reverse.find? fun entry => entry.1 == number).map Prod.snd

/-- The one document of a text; `none` if the text is malformed or has more of them. Aliases may be
followed a hundred times for each unit of its size. -/
def ofText? (text : String) : Option Document := do
  let tokens ← Token.ofText? text
  let (root, rest) ← (Node.readDocument (4 * tokens.length + 4)).run { tokens }
  if rest.tokens.all fun t => t == .documentEnd then
    some { root, definitions := rest.definitions, maxFollowed := 100 * root.size }
  else none

end Document

end PerfCounters.Yaml
