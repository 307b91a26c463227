import PerfCounters.Yaml.Tag

/-!
The tokens of a YAML text.

Indentation is turned into brackets: a column further right than that of the collection around it
opens a block collection, and what stands further left closes it. A mapping need not be announced: what
may turn out to be a key is remembered as a candidate, and the colon after it puts the key's tokens in
front of it. A candidate lasts to the end of its line and for 1024 characters; one that stands where
only a key may stand has to become one.
-/

namespace PerfCounters.Yaml

/-- How a scalar is written. -/
inductive Style where
  | plain
  | quoted
  | literal
  | folded
deriving DecidableEq, Repr

/-- A token. -/
inductive Token where
  | directive (d : Directive)
  | documentStart
  | documentEnd
  | blockSequenceStart
  | blockMappingStart
  | blockEnd
  | flowSequenceStart
  | flowSequenceEnd
  | flowMappingStart
  | flowMappingEnd
  | blockEntry
  | flowEntry
  | key
  | value
  | anchor (name : String)
  | alias (name : String)
  | tag (name : TagName)
  | scalar (style : Style) (text : String)
deriving DecidableEq, Repr

/-- Something that a colon may turn into a key. -/
structure Candidate where
  /-- The number of tokens before it. -/
  position : Nat
  line : Nat
  column : Nat
  required : Bool
deriving DecidableEq, Repr

/-- The tokens so far, and what they leave open. -/
structure Lexer where
  tokens : Array Token := #[]
  /-- The column of the innermost block collection, -1 outside of all. -/
  indent : Int := -1
  /-- The columns of the block collections around it. -/
  outer : List Int := []
  /-- The candidate at this level. -/
  candidate : Option Candidate := none
  /-- The candidates of the levels around the open flow collections, innermost first. -/
  suspended : List (Option Candidate) := []
  /-- A key may stand here. -/
  keyAllowed : Bool := true

namespace Lexer

/-- The glyphs are in a flow collection. -/
def inFlow (l : Lexer) : Bool := !l.suspended.isEmpty

/-- Adds a token. -/
def push (l : Lexer) (t : Token) : Lexer := { l with tokens := l.tokens.push t }

/-- Sets whether a key may stand next. -/
def allowKey (l : Lexer) (allowed : Bool) : Lexer := { l with keyAllowed := allowed }

/-! ### Indentation -/

/-- Closes the block collections further right than `column`, of which `outer` are left. -/
def closeInto (column : Int) (l : Lexer) : List Int → Lexer
  | [] => { l with outer := [] }
  | i :: outer =>
    if l.indent > column then closeInto column { l with tokens := l.tokens.push .blockEnd, indent := i } outer
    else { l with outer := i :: outer }

/-- Closes the block collections further right than `column`. -/
def closeBlocks (l : Lexer) (column : Int) : Lexer := closeInto column l l.outer

/-- Closes the block collections further right than a glyph; flow collections have no indentation. -/
def dedent (l : Lexer) (g : Glyph) : Lexer := if l.inFlow then l else l.closeBlocks g.column

/-- Opens a block collection before token number `position` if `column` is further right. -/
def indentTo (l : Lexer) (column position : Nat) (t : Token) : Lexer :=
  if !l.inFlow && l.indent < column then
    { l with
      tokens := l.tokens.insertIdxIfInBounds position t
      outer := l.indent :: l.outer
      indent := column }
  else l

/-! ### Candidates -/

/-- Drops the candidate, which must not be required. -/
def dropCandidate (l : Lexer) : Option Lexer :=
  match l.candidate with
  | some c => if c.required then none else some { l with candidate := none }
  | none => some l

/-- What starts at `g` may become a key, if one may stand there. -/
def noteCandidate (l : Lexer) (g : Glyph) : Option Lexer :=
  if l.keyAllowed then
    let required := !l.inFlow && l.indent == (g.column : Int)
    let c : Candidate := ⟨l.tokens.size, g.line, g.column, required⟩
    l.dropCandidate.map fun l => { l with candidate := some c }
  else some l

/-- The candidate that a colon at `g` makes a key. One that is out of reach is none, and must not be
required. -/
def keyAt? (l : Lexer) (g : Glyph) : Option (Option Candidate) :=
  match l.candidate with
  | none => some none
  | some c =>
    if c.line < g.line || c.column + 1024 < g.column then if c.required then none else some none
    else some (some c)

/-! ### Tokens -/

/-- The beginning or the end of a document. -/
def marker (l : Lexer) (t : Token) : Option Lexer :=
  (l.closeBlocks (-1)).dropCandidate.map fun l => (l.allowKey false).push t

/-- The beginning of a flow collection. -/
def openFlow (l : Lexer) (g : Glyph) (t : Token) : Option Lexer :=
  (l.noteCandidate g).map fun l =>
    ({ l with candidate := none, suspended := l.candidate :: l.suspended }.allowKey true).push t

/-- The end of a flow collection. -/
def closeFlow (l : Lexer) (t : Token) : Option Lexer :=
  l.dropCandidate.map fun l =>
    match l.suspended with
    | [] => (l.allowKey false).push t
    | c :: suspended => ({ l with candidate := c, suspended }.allowKey false).push t

/-- The comma between entries. -/
def flowEntry (l : Lexer) : Option Lexer :=
  l.dropCandidate.map fun l => (l.allowKey true).push .flowEntry

/-- The hyphen before an entry. -/
def blockEntry (l : Lexer) (g : Glyph) : Option Lexer :=
  if !l.inFlow && !l.keyAllowed then none
  else
    let l := l.indentTo g.column l.tokens.size .blockSequenceStart
    l.dropCandidate.map fun l => (l.allowKey true).push .blockEntry

/-- The question mark before a key. -/
def explicitKey (l : Lexer) (g : Glyph) : Option Lexer :=
  if !l.inFlow && !l.keyAllowed then none
  else
    let l := l.indentTo g.column l.tokens.size .blockMappingStart
    l.dropCandidate.map fun l => (l.allowKey (!l.inFlow)).push .key

/-- The colon before a value. -/
def value (l : Lexer) (g : Glyph) : Option Lexer :=
  match l.keyAt? g with
  | none => none
  | some (some c) =>
    let l := { l with tokens := l.tokens.insertIdxIfInBounds c.position .key, candidate := none }
    some (((l.indentTo c.column c.position .blockMappingStart).allowKey false).push .value)
  | some none =>
    if !l.inFlow && !l.keyAllowed then none
    else
      let l := l.indentTo g.column l.tokens.size .blockMappingStart
      some ((l.allowKey (!l.inFlow)).push .value)

/-- A token at `g` that may be, or be part of, a key. -/
def leaf (l : Lexer) (g : Glyph) (t : Token) : Option Lexer :=
  (l.noteCandidate g).map fun l => (l.allowKey false).push t

/-! ### Names -/

/-- The characters that may follow the name of an anchor. -/
def afterName : List Char := ['?', ':', ',', ']', '\x7d', '%', '@', '\x60']

/-- Reads the name of an anchor. -/
def readName (gs : List Glyph) : Option (String × List Glyph) :=
  let name := gs.takeWhile Glyph.isWord
  let rest := gs.dropWhile Glyph.isWord
  if name.isEmpty || !(startsSeparated rest || startsWith afterName rest) then none
  else some (String.ofList (name.map Glyph.char), rest)

/-! ### The text -/

/-- Takes off blanks, comments and line breaks before a token. Tabs are no indentation: they may not
stand where a key may. -/
def toToken (l : Lexer) : List Glyph → Lexer × List Glyph
  | [] => (l, [])
  | g :: rest =>
    if g.char == ' ' || (g.char == '\t' && (l.inFlow || !l.keyAllowed)) then l.toToken rest
    else if g.char == byteOrderMark && g.column == 0 then l.toToken rest
    else if g.isBreak then (if l.inFlow then l else l.allowKey true).toToken rest
    else if g.char == '#' then
      let rest := rest.dropWhile fun g => !g.endsLine
      l.toToken rest
    else (l, g :: rest)
termination_by gs => gs.length
decreasing_by
  · exact Nat.lt_succ_self _
  · exact Nat.lt_succ_self _
  · exact Nat.lt_succ_self _
  · exact Nat.lt_succ_of_le (List.dropWhile_sublist _).length_le

/-- A plain scalar may begin with these glyphs, unless something else does. -/
def startsPlain (l : Lexer) (g : Glyph) (rest : List Glyph) : Bool :=
  let indicators := "-?:,[]\x7b\x7d#&*!|>\x27\x22%@\x60".toList
  !(g.separates || indicators.contains g.char)
    || (g.char == '-' && !(rest.headD g).isBlank)
    || (!l.inFlow && (g.char == '?' || g.char == ':') && !startsSeparated rest)

/-- Reads the token that begins with `g`. -/
def next (l : Lexer) (g : Glyph) (rest : List Glyph) : Option (Lexer × List Glyph) :=
  let gs := g :: rest
  let single := fun (l : Option Lexer) => l.map fun l => (l, rest)
  if g.column == 0 && g.char == '%' then do
    let (d, rest) ← Directive.read rest
    return (← l.marker (.directive d), rest)
  else if startsMarker '-' gs then (l.marker .documentStart).map fun l => (l, rest.drop 2)
  else if startsMarker '.' gs then (l.marker .documentEnd).map fun l => (l, rest.drop 2)
  else if g.char == '[' then single (l.openFlow g .flowSequenceStart)
  else if g.char == '\x7b' then single (l.openFlow g .flowMappingStart)
  else if g.char == ']' then single (l.closeFlow .flowSequenceEnd)
  else if g.char == '\x7d' then single (l.closeFlow .flowMappingEnd)
  else if g.char == ',' then single l.flowEntry
  else if g.char == '-' && startsSeparated rest then single (l.blockEntry g)
  else if g.char == '?' && (l.inFlow || startsSeparated rest) then single (l.explicitKey g)
  else if g.char == ':' && (l.inFlow || startsSeparated rest) then single (l.value g)
  else if g.char == '*' then do
    let (name, rest) ← readName rest
    return (← l.leaf g (.alias name), rest)
  else if g.char == '&' then do
    let (name, rest) ← readName rest
    return (← l.leaf g (.anchor name), rest)
  else if g.char == '!' then do
    let (name, rest) ← TagName.readSeparated l.inFlow rest
    return (← l.leaf g (.tag name), rest)
  else if (g.char == '|' || g.char == '>') && !l.inFlow then do
    let l ← l.dropCandidate
    let (text, rest) ← readBlock (g.char == '|') l.indent rest
    let style := if g.char == '|' then Style.literal else .folded
    return ((l.allowKey true).push (.scalar style (String.ofList text)), rest)
  else if g.char == '\x27' || g.char == '\x22' then do
    let (text, rest) ← readQuoted (g.char == '\x27') [] {} rest
    return (← l.leaf g (.scalar .quoted (String.ofList text)), rest)
  else if l.startsPlain g rest then do
    let scalar ← readPlain l.inFlow (l.indent + 1).toNat [] {} gs
    let l ← l.leaf g (.scalar .plain (String.ofList scalar.text))
    return (if scalar.pastLine then l.allowKey true else l, scalar.rest)
  else none

/-- The tokens up to the end; each takes a character at the least, and `fuel` bounds their number. -/
def run : Nat → Lexer → List Glyph → Option (Array Token)
  | 0, _, _ => none
  | fuel + 1, l, gs =>
    match l.toToken gs with
    | (_, []) => none
    | (l, g :: rest) =>
      let l := l.dedent g
      if g.isEnd then (l.closeBlocks (-1)).dropCandidate.map Lexer.tokens
      else match l.next g rest with
        | none => none
        | some (l, rest) => run fuel l rest

end Lexer

/-- The tokens of a text; `none` if it cannot be split into tokens. -/
def Token.ofText? (text : String) : Option (List Token) := do
  let gs ← Glyph.ofText? text
  let tokens ← Lexer.run (gs.length + 1) {} gs
  return tokens.toList

end PerfCounters.Yaml
