import PerfCounters.Text.Quoted

/-!
Why a text is not an expression. Offsets count the bytes of the text before the place.
-/

namespace PerfCounters

/-- The most levels an expression may nest: parentheses, calls, unary minus and each chained
    operator count one level. -/
def maxNesting : Nat := 256

/-- The first thing wrong with a text. -/
inductive SyntaxError where
  | unexpectedChar (offset : Nat) (char : Char)
  | unexpectedToken (offset : Nat) (expected found : String)
  | unexpectedEnd (expected : String)
  | invalidNumber (offset : Nat) (text : String)
  | invalidReduceOperator (offset : Nat) (name : String)
  | invalidAccumulateMode (offset : Nat) (name : String)
  | unknownDimension (offset : Nat) (name : String)
  | invalidSelectValue (offset : Nat) (text : String)
  | nestingTooDeep (offset : Nat)
deriving DecidableEq, Repr

/-- What is said about a faulty text. -/
def SyntaxError.message : SyntaxError → String
  | .unexpectedChar offset char => s!"unexpected character {Text.quoteChar char} at offset {offset}"
  | .unexpectedToken offset expected found =>
    s!"expected {expected} at offset {offset}, found {found}"
  | .unexpectedEnd expected => s!"expected {expected}, found end of expression"
  | .invalidNumber offset text => s!"invalid number {Text.quote text} at offset {offset}"
  | .invalidReduceOperator offset name =>
    s!"invalid reduce operator {Text.quote name} at offset {offset}"
  | .invalidAccumulateMode offset name =>
    s!"invalid accumulate mode {Text.quote name} at offset {offset}"
  | .unknownDimension offset name => s!"unknown dimension {Text.quote name} at offset {offset}"
  | .invalidSelectValue offset text =>
    s!"select value {Text.quote text} at offset {offset} is not a non-negative integer"
  | .nestingTooDeep offset =>
    s!"expression nests deeper than {maxNesting} levels at offset {offset}"

end PerfCounters
