import PerfCounters.Text.Hexadecimal
import PerfCounters.Yaml.Gap

/-!
The styles of scalars: plain, quoted and block. Each reader takes the glyphs of a scalar and answers
with its text and the glyphs after it, or with `none` if the scalar is malformed.
-/

namespace PerfCounters.Yaml

/-! ### Plain scalars -/

/-- A plain scalar, whether it went on past the end of a line, and what comes after it. -/
structure PlainScalar where
  text : List Char
  pastLine : Bool
  rest : List Glyph

/-- The characters that end a plain scalar in a flow collection. -/
def flowIndicators : List Char := [',', '[', ']', '\x7b', '\x7d']

/-- A plain scalar ends before these glyphs. -/
def endsPlain (inFlow : Bool) (gs : List Glyph) : Bool :=
  (startsWith [':'] gs && startsSeparated gs.tail) || (inFlow && startsWith flowIndicators gs)

/-- Reads on in a plain scalar that so far has `text` and then `gap`. Lines after the first one are
indented by at least `indent` outside of flow collections. -/
def readPlain (inFlow : Bool) (indent : Nat) (text : List Char) (gap : Gap) :
    List Glyph → Option PlainScalar
  | [] => some ⟨text, gap.isBroken, []⟩
  | g :: rest =>
    let finished := some ⟨text, gap.isBroken, g :: rest⟩
    if g.isBlank || g.isBreak then
      if gap.isBroken && g.char == '\t' && g.column < indent then none
      else readPlain inFlow indent text (gap.push g) rest
    else if g.isEnd || (gap.isBroken && !inFlow && g.column < indent)
        || startsDocumentMarker (g :: rest) || (!gap.isEmpty && g.char == '#') then finished
    else if inFlow && g.char == ':' && startsWith ('?' :: flowIndicators) rest then none
    else if endsPlain inFlow (g :: rest) then finished
    else readPlain inFlow indent (text ++ gap.text ++ [g.char]) {} rest

/-! ### Quoted scalars -/

/-- The character that a one-letter escape stands for. -/
def escapeChar? : Char → Option Char
  | '0' => some '\x00'
  | 'a' => some '\x07'
  | 'b' => some '\x08'
  | 't' => some '\t'
  | '\t' => some '\t'
  | 'n' => some '\n'
  | 'v' => some '\x0b'
  | 'f' => some '\x0c'
  | 'r' => some '\r'
  | 'e' => some '\x1b'
  | ' ' => some ' '
  | '\x22' => some '\x22'
  | '/' => some '/'
  | '\\' => some '\\'
  | 'N' => some (Char.ofNat 0x85)
  | '_' => some (Char.ofNat 0xA0)
  | 'L' => some (Char.ofNat 0x2028)
  | 'P' => some (Char.ofNat 0x2029)
  | _ => none

/-- The number of hexadecimal digits after an escape letter. -/
def hexLength? : Char → Option Nat
  | 'x' => some 2
  | 'u' => some 4
  | 'U' => some 8
  | _ => none

/-- The number written by the first `n` glyphs as hexadecimal digits. -/
def hexValue? : Nat → Nat → List Glyph → Option Nat
  | 0, value, _ => some value
  | _ + 1, _, [] => none
  | n + 1, value, g :: rest => (Text.hexDigit? g.char).bind fun d => hexValue? n (16 * value + d) rest

/-- The character with a number, if there is one. -/
def charOf? (n : Nat) : Option Char := if n.isValidChar then some (Char.ofNat n) else none

/-- Reads on in a quoted scalar that so far has `text` and then `gap`. -/
def readQuoted (single : Bool) (text : List Char) (gap : Gap) (gs : List Glyph) :
    Option (List Char × List Glyph) :=
  match gs with
  | [] => none
  | g :: rest =>
    let text' := text ++ gap.text
    if g.isBlank || g.isBreak then readQuoted single text (gap.push g) rest
    else if g.char == (if single then '\x27' else '\x22') then
      match single, rest with
      | true, q :: rest' =>
        if q.char == '\x27' then readQuoted single (text' ++ ['\x27']) {} rest'
        else some (text', rest)
      | _, _ => some (text', rest)
    else if g.isEnd || startsDocumentMarker gs then none
    else if !single && g.char == '\\' then
      match rest with
      | [] => none
      | e :: rest' =>
        if e.isBreak then readQuoted single text' { escaped := true } rest'
        else match escapeChar? e.char, hexLength? e.char with
          | some c, _ => readQuoted single (text' ++ [c]) {} rest'
          | none, some n =>
            match (hexValue? n 0 rest').bind charOf? with
            | some c => readQuoted single (text' ++ [c]) {} (rest'.drop n)
            | none => none
          | none, none => none
    else readQuoted single (text' ++ [g.char]) {} rest
termination_by gs.length
decreasing_by all_goals (simp only [List.length_cons, List.length_drop]; omega)

/-! ### Block scalars -/

/-- What becomes of the line breaks at the end of a block scalar. -/
inductive Chomping where
  | strip
  | clip
  | keep
deriving DecidableEq, Repr

/-- The header of a block scalar: chomping, and the indentation relative to the parent if given. -/
structure BlockHeader where
  chomping : Chomping := .clip
  increment : Option Nat := none
deriving DecidableEq, Repr

/-- The chomping that a character asks for. -/
def chomping? : Char → Option Chomping
  | '+' => some .keep
  | '-' => some .strip
  | _ => none

/-- Reads the chomping, if it comes next. -/
def readChomping (h : BlockHeader) : List Glyph → BlockHeader × List Glyph
  | [] => (h, [])
  | g :: rest =>
    match chomping? g.char with
    | some chomping => ({ h with chomping }, rest)
    | none => (h, g :: rest)

/-- Reads the indentation, if it comes next; it cannot be 0. -/
def readIncrement (h : BlockHeader) : List Glyph → Option (BlockHeader × List Glyph)
  | [] => some (h, [])
  | g :: rest =>
    if g.char == '0' then none
    else if g.char.isDigit then some ({ h with increment := some (g.char.toNat - '0'.toNat) }, rest)
    else some (h, g :: rest)

/-- Reads chomping and indentation in either order. -/
def readHeader (gs : List Glyph) : Option (BlockHeader × List Glyph) :=
  match readChomping {} gs with
  | (h, rest) =>
    if rest.length < gs.length then readIncrement h rest
    else (readIncrement h rest).map fun (h, rest) =>
      if h.increment.isSome then readChomping h rest else (h, rest)

/-- Takes off blanks, a comment and the line break after them. -/
def readLineEnd (gs : List Glyph) : Option (List Glyph) :=
  let rest := gs.dropWhile Glyph.isBlank
  let rest := if startsWith ['#'] rest then rest.dropWhile fun g => !g.endsLine else rest
  match rest with
  | [] => some []
  | g :: rest =>
    if g.isEnd then some (g :: rest) else if g.isBreak then some rest else none

/-- The empty lines before a line of a block scalar: the deepest column reached, the line breaks, and
what comes after them. Spaces count as indentation up to `indent`, and without bound if it is not
known; where they count a tab may not stand. -/
def readEmptyLines (indent : Option Nat) (deepest : Nat) (breaks : List Char) :
    List Glyph → Option (Nat × List Char × List Glyph)
  | [] => some (deepest, breaks, [])
  | g :: rest =>
    let within := match indent with
      | some n => g.column < n
      | none => true
    if within && g.char == ' ' then readEmptyLines indent deepest breaks rest
    else if within && g.char == '\t' then none
    else if g.isBreak then readEmptyLines indent (max deepest g.column) (breaks ++ [g.char]) rest
    else some (max deepest g.column, breaks, g :: rest)

/-- What joins a line of a block scalar to the lines before it. A folded line break is a space, or
nothing before empty lines, unless one of the lines beside it begins with a blank. -/
def blockJoint (literal blankBefore blankAfter : Bool) (lineBreak emptyLines : List Char) :
    List Char :=
  if !literal && lineBreak == ['\n'] && !blankBefore && !blankAfter then
    if emptyLines.isEmpty then [' '] else emptyLines
  else lineBreak ++ emptyLines

/-- The text so far of a block scalar, and what may follow it. -/
structure BlockText where
  text : List Char := []
  /-- The line break of the last line. -/
  lineBreak : List Char := []
  /-- The last line begins with a blank. -/
  startsBlank : Bool := false
  /-- The line breaks of the empty lines after it. -/
  emptyLines : List Char := []

/-- The text of a whole block scalar. -/
def BlockText.chomp (b : BlockText) : Chomping → List Char
  | .strip => b.text
  | .clip => b.text ++ b.lineBreak
  | .keep => b.text ++ b.lineBreak ++ b.emptyLines

/-- Reads the lines of a block scalar that are indented by `indent`; `fuel` bounds their number. -/
def readBlockLines (literal : Bool) (indent : Nat) :
    Nat → BlockText → List Glyph → Option (BlockText × List Glyph)
  | 0, b, gs => some (b, gs)
  | _ + 1, b, [] => some (b, [])
  | fuel + 1, b, g :: rest =>
    if g.column != indent || g.isEnd then some (b, g :: rest)
    else
      let joint := blockJoint literal b.startsBlank g.isBlank b.lineBreak b.emptyLines
      let line := (g :: rest).takeWhile fun x => !x.endsLine
      let after := (g :: rest).dropWhile fun x => !x.endsLine
      let (lineBreak, after) := match after with
        | [] => ([], [])
        | x :: after => if x.isBreak then ([x.char], after) else ([], x :: after)
      match readEmptyLines (some indent) 0 [] after with
      | none => none
      | some (_, emptyLines, after) =>
        readBlockLines literal indent fuel
          { text := b.text ++ joint ++ line.map Glyph.char
            lineBreak, emptyLines, startsBlank := g.isBlank } after

/-- Reads a block scalar after its indicator; `parent` is the column of the collection it is in. -/
def readBlock (literal : Bool) (parent : Int) (gs : List Glyph) :
    Option (List Char × List Glyph) := do
  let (header, gs) ← readHeader gs
  let gs ← readLineEnd gs
  let given := header.increment.map fun n => (max parent 0).toNat + n
  let (deepest, emptyLines, gs) ← readEmptyLines given 0 [] gs
  let indent := given.getD (max deepest (max (parent + 1).toNat 1))
  let (b, gs) ← readBlockLines literal indent gs.length { emptyLines } gs
  return (b.chomp header.chomping, gs)

end PerfCounters.Yaml
