import PerfCounters.Decimal.Text
import PerfCounters.Yaml.Scalar

/-!
Tags, and the directives at the head of a document. A tag stands in angle brackets, or it is a handle with
something behind it; what a handle stands for is up to the document.

A tag is a sequence of octets. A percent sign and two digits write an octet, and octets written in this
way have to group as those of a character do.
-/

namespace PerfCounters.Yaml

/-- The octets of a tag. -/
abbrev Tag := List UInt8

/-- A tag as it is written. -/
structure TagName where
  /-- Empty if the octets are the whole tag. -/
  handle : String
  octets : Tag
deriving DecidableEq, Repr

/-- A directive. -/
inductive Directive where
  | version (major minor : Nat)
  /-- What the tags with a handle begin with. -/
  | handle (name : String) (start : Tag)
deriving DecidableEq, Repr

/-! ### Octets -/

/-- The octets of a character that are missing after `octet`, of those that were missing before it. -/
def missingAfter (octet : Nat) : Nat → Option Nat
  | 0 =>
    if octet < 0x80 then some 0
    else if octet < 0xC0 then none
    else if octet < 0xE0 then some 1
    else if octet < 0xF0 then some 2
    else if octet < 0xF8 then some 3
    else none
  | missing + 1 => if 0x80 ≤ octet && octet < 0xC0 then some missing else none

/-- The characters of a tag besides letters and digits. -/
def tagChars : List Char := ";/?:@&=+$.!~*\x27()".toList

/-- A character of a tag; in directives and between angle brackets it may also be a comma or a square
bracket. -/
def isTagChar (free : Bool) (g : Glyph) : Bool :=
  g.isWord || tagChars.contains g.char || (free && [',', '[', ']'].contains g.char)

/-- Reads on in a tag, where `missing` octets of a character have to follow. -/
def readOctets (free : Bool) (missing : Nat) : List Glyph → Option (Tag × List Glyph)
  | [] => none
  | g :: rest =>
    if g.char == '%' then
      match rest with
      | high :: low :: rest => do
        let octet := 16 * (← Text.hexDigit? high.char) + (← Text.hexDigit? low.char)
        let (tag, rest) ← readOctets free (← missingAfter octet missing) rest
        return (octet.toUInt8 :: tag, rest)
      | _ => none
    else if 0 < missing then none
    else if isTagChar free g then
      (readOctets free 0 rest).map fun (tag, rest) => (g.char.toNat.toUInt8 :: tag, rest)
    else some ([], g :: rest)

/-- A null octet ends a tag. -/
def beforeNull (tag : Tag) : Tag := tag.takeWhile fun octet => octet != 0

/-! ### Tags -/

/-- Reads a tag after its exclamation mark. A lone exclamation mark is a tag of its own. -/
def TagName.read (gs : List Glyph) : Option (TagName × List Glyph) :=
  let word := (gs.takeWhile Glyph.isWord).map Glyph.char
  let rest := gs.dropWhile Glyph.isWord
  if startsWith ['<'] gs then do
    let (tag, rest) ← readOctets true 0 gs.tail
    if tag.isEmpty || !startsWith ['>'] rest then none
    else some (⟨"", beforeNull tag⟩, rest.tail)
  else if startsWith ['!'] rest then do
    let (tag, rest) ← readOctets false 0 rest.tail
    if tag.isEmpty then none
    else some (⟨String.ofList ('!' :: word ++ ['!']), beforeNull tag⟩, rest)
  else do
    let (tag, rest) ← readOctets false 0 gs
    if (beforeNull tag).isEmpty then some (⟨"", "!".toUTF8.toList⟩, rest)
    else some (⟨"!", beforeNull tag⟩, rest)

/-- Reads a tag that a blank or, in a flow collection, a comma has to follow. -/
def TagName.readSeparated (inFlow : Bool) (gs : List Glyph) : Option (TagName × List Glyph) :=
  (TagName.read gs).filter fun (_, rest) => startsSeparated rest || (inFlow && startsWith [','] rest)

/-- What handles stand for unless a document says otherwise. -/
def standardHandles : List (String × Tag) :=
  [("!", "!".toUTF8.toList), ("!!", "tag:yaml.org,2002:".toUTF8.toList)]

/-- The tag that is written, where `handles` says what handles stand for. -/
def TagName.resolve? (handles : List (String × Tag)) (t : TagName) : Option Tag :=
  if t.handle.isEmpty then some t.octets
  else (handles.lookup t.handle).map fun start => start ++ t.octets

/-! ### Directives -/

namespace Directive

/-- Reads a number of a version, of nine digits at most. -/
def readNumber (gs : List Glyph) : Option (Nat × List Glyph) :=
  let digits := (gs.takeWhile fun g => Decimal.isDigit g.char).map Glyph.char
  if digits.length ≤ 9 then
    (Decimal.readNat? digits).map fun n => (n, gs.drop digits.length)
  else none

/-- Reads a version. -/
def readVersion (gs : List Glyph) : Option (Directive × List Glyph) := do
  let (major, gs) ← readNumber gs
  if startsWith ['.'] gs then
    let (minor, gs) ← readNumber gs.tail
    return (.version major minor, gs)
  else none

/-- Reads a handle with the beginning of its tags. -/
def readHandle (gs : List Glyph) : Option (Directive × List Glyph) := do
  let word := (gs.tail.takeWhile Glyph.isWord).map Glyph.char
  let rest := gs.tail.dropWhile Glyph.isWord
  let closed := startsWith ['!'] rest
  let rest := if closed then rest.tail else rest
  if startsWith ['!'] gs && (closed || word.isEmpty) && startsWith [' ', '\t'] rest then
    let (tag, rest) ← readOctets true 0 (rest.dropWhile Glyph.isBlank)
    if tag.isEmpty || !startsSeparated rest then none
    else
      let name := if closed then String.ofList ('!' :: word ++ ['!']) else "!"
      return (.handle name (beforeNull tag), rest)
  else none

/-- Reads a directive after its percent sign, and the end of its line. -/
def read (gs : List Glyph) : Option (Directive × List Glyph) := do
  let word := String.ofList ((gs.takeWhile Glyph.isWord).map Glyph.char)
  let rest := gs.dropWhile Glyph.isWord
  let value := rest.dropWhile Glyph.isBlank
  let (d, rest) ←
    if !startsSeparated rest then none
    else if word == "YAML" then readVersion value
    else if word == "TAG" then readHandle value
    else none
  return (d, ← readLineEnd rest)

/-- The versions that directives ask for. -/
def versions (ds : List Directive) : List (Nat × Nat) :=
  ds.filterMap fun d => match d with
    | .version major minor => some (major, minor)
    | .handle _ _ => none

/-- The handles that directives set. -/
def handles (ds : List Directive) : List (String × Tag) :=
  ds.filterMap fun d => match d with
    | .version _ _ => none
    | .handle name start => some (name, start)

/-- The directives may stand before one document: they ask for one version at most, which is 1.1 or 1.2,
and set no handle twice. -/
def fit (ds : List Directive) : Bool :=
  (versions ds).length ≤ 1 && (versions ds).all (fun v => v == (1, 1) || v == (1, 2))
    && decide (((handles ds).map Prod.fst).Nodup)

end Directive

end PerfCounters.Yaml
