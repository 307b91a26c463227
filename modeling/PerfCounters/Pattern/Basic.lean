import PerfCounters.Text.Blank
import PerfCounters.Text.Hexadecimal

/-!
The smallest parts of a pattern, such as characters, places and escapes.

Patterns are checked here, not matched. A part may stand in a pattern or not, according to the mode that holds
at that point. Where characters are matched nothing is known about them but their order, so case cannot be
ignored, and there are no classes of digits, blanks and words and no bounds of words. Where octets are
matched there are such classes, but nothing may match an octet that is a part of a character.
-/

namespace PerfCounters.Pattern

/-- How a pattern is taken from some point on. -/
structure Mode where
  ignoreCase : Bool := false
  /-- Characters are matched, and not octets. -/
  unicode : Bool := true
  /-- Blanks and comments between parts count for nothing. -/
  spaced : Bool := false
deriving DecidableEq, Repr

/-! ### Blanks -/

/-- What comes after blanks and comments; a comment goes from its mark to the end of the line. -/
def dropSpaces (inComment : Bool) : List Char → List Char
  | [] => []
  | c :: cs =>
    if inComment then dropSpaces (c != '\n') cs
    else if Text.isBlank c then dropSpaces false cs
    else if c == '#' then dropSpaces true cs
    else c :: cs

/-- What comes next that counts. -/
def Mode.skip (m : Mode) (cs : List Char) : List Char := if m.spaced then dropSpaces false cs else cs

/-- The character that seems to come next: past blanks, and past one mark of a comment but not past the
comment. If there is none, it is the very next one. -/
def Mode.glance (m : Mode) (cs : List Char) : Option Char :=
  let next := match cs.dropWhile Text.isBlank with
    | '#' :: rest => (rest.dropWhile Text.isBlank).head?
    | rest => rest.head?
  if m.spaced && next.isSome then next else cs.head?

/-! ### Atoms -/

/-- The smallest parts. -/
inductive Atom where
  | char (c : Char)
  /-- A character, or an octet, that is written with two digits. -/
  | octet (n : Nat)
  | anyChar
  /-- The digits, blanks or characters of words, or all but those. -/
  | shorthand (negated : Bool)
  /-- A place between characters; `word` if it is a bound of a word, or none. -/
  | place (word : Bool)
deriving DecidableEq, Repr

namespace Atom

/-- The number of the character that the atom stands for. -/
def code? : Atom → Option Nat
  | .char c => some c.toNat
  | .octet n => some n
  | _ => none

/-- The atom may stand in a pattern. -/
def allowed (m : Mode) : Atom → Bool
  | .char _ => !m.unicode || !m.ignoreCase
  | .octet n => if m.unicode then !m.ignoreCase else n < 0x80
  | .anyChar => m.unicode
  | .shorthand negated => !m.unicode && !negated
  | .place word => !(word && m.unicode)

/-- The atom may stand in a set. -/
def allowedInSet (m : Mode) : Atom → Bool
  | .char c => if m.unicode then !m.ignoreCase else c.toNat < 0x80
  | .octet n => if m.unicode then !m.ignoreCase else n < 0x80
  | .shorthand negated => !m.unicode && !negated
  | _ => false

end Atom

/-! ### Escapes -/

/-- Reads `n` hexadecimal digits after those that write `value`. -/
def readHex (m : Mode) : Nat → Nat → List Char → Option (Nat × List Char)
  | 0, value, cs => some (value, cs)
  | _ + 1, _, [] => none
  | n + 1, value, c :: cs =>
    (Text.hexDigit? c).bind fun d => readHex m n (16 * value + d) (m.skip cs)

/-- Reads a character that is written with `n` digits. -/
def readCode (m : Mode) (n : Nat) (cs : List Char) : Option (Atom × List Char) :=
  (readHex m n 0 (m.skip cs)).bind fun (value, rest) =>
    if value.isValidChar then some (.char (Char.ofNat value), rest) else none

/-- Reads an escape after its backslash. A mark or a sign stands for itself. -/
def readEscape (m : Mode) : List Char → Option (Atom × List Char)
  | [] => none
  | c :: cs =>
    if c == 'x' then (readHex m 2 0 (m.skip cs)).map fun (value, rest) => (.octet value, rest)
    else if c == 'u' then readCode m 4 cs
    else if c == 'U' then readCode m 8 cs
    else if ['d', 's', 'w'].contains c then some (.shorthand false, cs)
    else if ['D', 'S', 'W'].contains c then some (.shorthand true, cs)
    else if ['a', 'f', 't', 'n', 'r', 'v'].contains c then some (.char c, cs)
    else if ['A', 'z'].contains c then some (.place false, cs)
    else if ['b', 'B', '<', '>'].contains c then some (.place true, cs)
    else if c.toNat < 0x80 && !c.isAlphanum then some (.char c, cs)
    else none

/-- Reads an atom. -/
def readAtom (m : Mode) : List Char → Option (Atom × List Char)
  | [] => none
  | '\\' :: cs => readEscape m cs
  | '.' :: cs => some (.anyChar, cs)
  | '^' :: cs => some (.place false, cs)
  | '$' :: cs => some (.place false, cs)
  | c :: cs => some (.char c, cs)

/-- Reads an atom of a set. -/
def readSetAtom (m : Mode) : List Char → Option (Atom × List Char)
  | [] => none
  | '\\' :: cs => readEscape m cs
  | c :: cs => some (.char c, cs)

end PerfCounters.Pattern
