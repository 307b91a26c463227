/-!
The characters of a YAML text with their places. Line breaks of every kind are written as one
character first: a carriage return with or without a line feed and a next-line character count as a
line feed, and the separators of lines and paragraphs stand for themselves.

A text ends in a glyph of its own, the null character, which no text may hold.
-/

namespace PerfCounters.Yaml

/-- A character, and the line and column it stands at. -/
structure Glyph where
  char : Char
  line : Nat
  column : Nat
deriving DecidableEq, Repr, Inhabited

/-- The character that ends every text. -/
def terminator : Char := '\x00'

/-- The mark that a text may begin with. -/
def byteOrderMark : Char := Char.ofNat 0xFEFF

/-- Line breaks after `unifyBreaks`. -/
def isBreakChar (c : Char) : Bool := c == '\n' || c.toNat == 0x2028 || c.toNat == 0x2029

/-- Writes each line break as one character. -/
def unifyBreaks : List Char → List Char
  | [] => []
  | '\r' :: '\n' :: cs => '\n' :: unifyBreaks cs
  | '\r' :: cs => '\n' :: unifyBreaks cs
  | c :: cs => (if c.toNat = 0x85 then '\n' else c) :: unifyBreaks cs

/-- A text may hold the character: no control characters but tabs and line breaks. -/
def isAllowed (c : Char) : Bool :=
  let n := c.toNat
  n = 0x09 || n = 0x0A || n = 0x0D || n = 0x85 || (0x20 ≤ n && n ≤ 0x7E)
    || (0xA0 ≤ n && n ≤ 0xFFFD) || 0x10000 ≤ n

namespace Glyph

/-- Gives each character its place, from `line` and `column` on. -/
def place (line column : Nat) : List Char → List Glyph
  | [] => [⟨terminator, line, column⟩]
  | c :: cs =>
    ⟨c, line, column⟩ :: (if isBreakChar c then place (line + 1) 0 cs else place line (column + 1) cs)

/-- The glyphs of a text; `none` if it holds a character it may not hold. -/
def ofText? (text : String) : Option (List Glyph) :=
  if text.toList.all isAllowed then some (place 0 0 (unifyBreaks text.toList)) else none

/-- The end of the text. -/
def isEnd (g : Glyph) : Bool := g.char == terminator

/-- A line break. -/
def isBreak (g : Glyph) : Bool := isBreakChar g.char

/-- A space or a tab. -/
def isBlank (g : Glyph) : Bool := g.char == ' ' || g.char == '\t'

/-- A line break or the end. -/
def endsLine (g : Glyph) : Bool := g.isBreak || g.isEnd

/-- What separates words: a blank, a line break or the end. -/
def separates (g : Glyph) : Bool := g.isBlank || g.endsLine

/-- A letter, a digit, an underscore or a hyphen. -/
def isWord (g : Glyph) : Bool := g.char.isAlphanum || g.char == '_' || g.char == '-'

end Glyph

/-- The glyphs begin with something that separates words. -/
def startsSeparated : List Glyph → Bool
  | [] => true
  | g :: _ => g.separates

/-- The glyphs begin with one of `cs`. -/
def startsWith (cs : List Char) : List Glyph → Bool
  | [] => false
  | g :: _ => cs.contains g.char

/-- The glyphs begin a line with three times `c` and nothing else in that word. -/
def startsMarker (c : Char) : List Glyph → Bool
  | x :: y :: z :: rest =>
    x.column == 0 && x.char == c && y.char == c && z.char == c && startsSeparated rest
  | _ => false

/-- The glyphs begin with a line that starts or ends a document. -/
def startsDocumentMarker (gs : List Glyph) : Bool := startsMarker '-' gs || startsMarker '.' gs

end PerfCounters.Yaml
