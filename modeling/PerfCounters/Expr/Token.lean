import PerfCounters.Expr.Error
import PerfCounters.Decimal.Text

/-!
The tokens of an expression text: numbers, names and single-character signs, each with the offset of
its first byte. Spaces, tabs and line ends stand between tokens and are dropped; any other character
that starts no token is an error.
-/

namespace PerfCounters

/-- A sign of one character. -/
inductive Sign where
  | plus
  | minus
  | star
  | slash
  | leftParen
  | rightParen
  | leftBracket
  | rightBracket
  | comma
  | equals
deriving DecidableEq, Repr

namespace Sign

/-- The character of a sign. -/
def char : Sign → Char
  | .plus => '+'
  | .minus => '-'
  | .star => '*'
  | .slash => '/'
  | .leftParen => '('
  | .rightParen => ')'
  | .leftBracket => '['
  | .rightBracket => ']'
  | .comma => ','
  | .equals => '='

/-- Every sign. -/
def all : List Sign :=
  [.plus, .minus, .star, .slash, .leftParen, .rightParen, .leftBracket, .rightBracket, .comma,
    .equals]

/-- The sign written as `c`, if there is one. -/
def ofChar? (c : Char) : Option Sign := all.find? fun s => s.char == c

/-- A sign in single quotes. -/
def quoted (s : Sign) : String := Text.quoteChar s.char

end Sign

/-- What a token is. -/
inductive Lexeme where
  | number (text : String)
  | name (text : String)
  | sign (s : Sign)
deriving DecidableEq, Repr

/-- A lexeme as messages show it. -/
def Lexeme.quoted : Lexeme → String
  | .number text => Text.quote text
  | .name text => Text.quote text
  | .sign s => s.quoted

/-- A lexeme and the offset of its first byte. -/
structure Token where
  lexeme : Lexeme
  offset : Nat
deriving DecidableEq, Repr

namespace Token

/-- The character may stand between tokens. -/
def isSpace (c : Char) : Bool := c = ' ' || c = '\t' || c = '\n' || c = '\r'

/-- The character belongs to the digits of a number. -/
def isNumeric (c : Char) : Bool := Decimal.isDigit c || c = '.'

/-- The character starts a name. -/
def startsName (c : Char) : Bool := ('A' ≤ c && c ≤ 'Z') || ('a' ≤ c && c ≤ 'z') || c = '_'

/-- The character continues a name. -/
def continuesName (c : Char) : Bool := startsName c || Decimal.isDigit c

/-- The exponent at the head of `cs`, empty unless a digit follows its mark and sign. -/
def exponentText : List Char → List Char
  | [] => []
  | mark :: rest =>
    if mark = 'e' || mark = 'E' then
      let sign := match rest with
        | '+' :: _ => ['+']
        | '-' :: _ => ['-']
        | _ => []
      let digits := (rest.drop sign.length).takeWhile Decimal.isDigit
      if digits = [] then [] else mark :: sign ++ digits
    else []

/-- The number at the head of `cs`: digits and points, then an exponent. -/
def numberText (cs : List Char) : List Char :=
  let digits := cs.takeWhile isNumeric
  digits ++ exponentText (cs.drop digits.length)

/-- The name at the head of `cs`. -/
def nameText (cs : List Char) : List Char := cs.takeWhile continuesName

/-- The tokens of `cs`, whose first character has the given offset. The characters of a number or a
    name are ASCII, so its length is its number of bytes. -/
def lex (offset : Nat) (cs : List Char) : Except SyntaxError (List Token) :=
  match cs with
  | [] => .ok []
  | c :: rest =>
    if isSpace c then lex (offset + 1) rest
    else if isNumeric c then
      let more := (numberText (c :: rest)).length - 1
      (lex (offset + 1 + more) (rest.drop more)).map
        (⟨.number (String.ofList (numberText (c :: rest))), offset⟩ :: ·)
    else if startsName c then
      let more := (nameText (c :: rest)).length - 1
      (lex (offset + 1 + more) (rest.drop more)).map
        (⟨.name (String.ofList (nameText (c :: rest))), offset⟩ :: ·)
    else match Sign.ofChar? c with
      | some s => (lex (offset + 1) rest).map (⟨.sign s, offset⟩ :: ·)
      | none => .error (.unexpectedChar offset c)
termination_by cs.length
decreasing_by all_goals (simp only [List.length_cons, List.length_drop]; omega)

/-- The tokens of a text. -/
def ofText (text : String) : Except SyntaxError (List Token) := lex 0 text.toList

end Token

end PerfCounters
