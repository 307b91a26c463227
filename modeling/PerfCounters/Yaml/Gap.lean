import PerfCounters.Yaml.Glyph

/-!
What lies between two words of a scalar, and the text it stands for. Blanks within a line stand for
themselves. Blanks beside a line break count for nothing; one line break is a space, and of several
each but the first stands for itself.
-/

namespace PerfCounters.Yaml

/-- Blanks and line breaks after a word. -/
structure Gap where
  blanks : List Char := []
  breaks : List Char := []
  /-- The first line break was escaped, so it counts for nothing. -/
  escaped : Bool := false
deriving DecidableEq, Repr

namespace Gap

/-- There is nothing between the words. -/
def isEmpty (p : Gap) : Bool := p.blanks.isEmpty && p.breaks.isEmpty && !p.escaped

/-- The gap goes past the end of a line. -/
def isBroken (p : Gap) : Bool := !p.breaks.isEmpty || p.escaped

/-- The gap with a further blank or line break. -/
def push (p : Gap) (g : Glyph) : Gap :=
  if g.isBreak then { p with breaks := p.breaks ++ [g.char] }
  else if p.isBroken then p
  else { p with blanks := p.blanks ++ [g.char] }

/-- The text of several line breaks. -/
def fold : List Char → List Char
  | [] => []
  | ['\n'] => [' ']
  | '\n' :: breaks => breaks
  | breaks => breaks

/-- The text of the gap. -/
def text (p : Gap) : List Char :=
  if p.escaped then p.breaks else if p.breaks.isEmpty then p.blanks else fold p.breaks

end Gap

end PerfCounters.Yaml
