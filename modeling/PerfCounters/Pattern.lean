import PerfCounters.Pattern.CharSet
import PerfCounters.Text.Letter

/-!
Which texts are patterns. A pattern has alternatives, and an alternative has parts: atoms, sets, groups,
repetitions of the part before, and flags that change the mode up to the end of the group.
-/

namespace PerfCounters.Pattern

/-! ### Groups -/

/-- The mode with a flag turned on or off. The flags that change no more than what matches are known. -/
def Mode.set? (m : Mode) (flag : Char) (on : Bool) : Option Mode :=
  match flag with
  | 'i' => some { m with ignoreCase := on }
  | 'u' => some { m with unicode := on }
  | 'x' => some { m with spaced := on }
  | 'm' => some m
  | 's' => some m
  | 'R' => some m
  | 'U' => some m
  | _ => none

/-- What an opening parenthesis begins. -/
inductive Opening where
  /-- Flags on their own, which end with the parenthesis. -/
  | flags (mode : Mode)
  | group (mode : Mode)
  | named (name : String)
deriving DecidableEq, Repr

/-- Reads flags after those in `seen`, latest first; none comes twice, and a hyphen turns off at least one. -/
def readFlags (m : Mode) (seen : List Char) : List Char → Option (Opening × List Char)
  | [] => none
  | c :: cs =>
    if c == ':' || c == ')' then
      if seen.head? == some '-' || (c == ')' && seen.isEmpty) then none
      else some (if c == ')' then .flags m else .group m, cs)
    else if seen.contains c then none
    else if c == '-' then readFlags m (c :: seen) cs
    else (m.set? c (!seen.contains '-')).bind fun m => readFlags m (c :: seen) cs

/-- A character of the name of a group. -/
def isNameChar (c : Char) : Bool := ['_', '.', '[', ']'].contains c || Text.isLetterOrNumber c

/-- Reads the name of a group. -/
def readGroupName (cs : List Char) : Option (Opening × List Char) :=
  match cs.takeWhile isNameChar, cs.dropWhile isNameChar with
  | first :: name, '>' :: rest =>
    if first == '_' || Text.isLetter first then some (.named (String.ofList (first :: name)), rest)
    else none
  | _, _ => none

/-- Reads what follows an opening parenthesis. There is no looking ahead or back. -/
def readOpening (m : Mode) (cs : List Char) : Option (Opening × List Char) :=
  match m.skip cs with
  | '?' :: '!' :: _ => none
  | '?' :: '<' :: '!' :: _ => none
  | '?' :: 'P' :: '<' :: rest => readGroupName rest
  | '?' :: '<' :: rest => readGroupName rest
  | '?' :: rest => readFlags m [] rest
  | rest => some (.group m, rest)

/-! ### Parts -/

/-- What was read of a group. -/
structure Group where
  mode : Mode := {}
  /-- The alternatives before the present one. -/
  alternatives : Row := {}
  /-- The parts of the present alternative. -/
  parts : Row := {}
  /-- The levels of the last part, if it can be repeated. -/
  last : Option Nat := none
deriving DecidableEq, Repr

namespace Group

/-- A further part. -/
def add (g : Group) (levels : Nat) : Group := { g with parts := g.parts.add levels, last := some levels }

/-- The group in another mode from here on. -/
def change (g : Group) (m : Mode) : Group := { g with mode := m, parts := g.parts.add 0, last := none }

/-- The last part repeated. -/
def repeated (g : Group) : Option Group :=
  g.last.map fun levels =>
    { g with parts := g.parts.deepen (levels + 1), last := some (levels + 1) }

/-- The group with its present alternative behind it. -/
def divide (g : Group) : Group :=
  { g with alternatives := g.alternatives.add g.parts.levels, parts := {}, last := none }

/-- The levels of what is in the group. -/
def levels (g : Group) : Nat := (g.alternatives.add g.parts.levels).levels

end Group

/-- Reads on in a group up to its end, where `names` are the names of groups so far; answers with the levels in
it and all names. `fuel` bounds the number of parts. -/
def readGroup : Nat → Group → (names : List String) → List Char →
    Option (Nat × List String × List Char)
  | 0, _, _, _ => none
  | fuel + 1, g, names, cs =>
    let inner := fun (m : Mode) (names : List String) (rest : List Char) => do
      let (levels, names, rest) ← readGroup fuel { mode := m } names rest
      match rest with
      | ')' :: rest => readGroup fuel (g.add (levels + 1)) names rest
      | _ => none
    match g.mode.skip cs with
    | [] => some (g.levels, names, [])
    | ')' :: rest => some (g.levels, names, ')' :: rest)
    | '(' :: rest =>
      match readOpening g.mode rest with
      | none => none
      | some (.flags m, rest) => readGroup fuel (g.change m) names rest
      | some (.group m, rest) => inner m names rest
      | some (.named name, rest) => if names.contains name then none else inner g.mode (name :: names) rest
    | '|' :: rest => readGroup fuel g.divide names rest
    | '[' :: rest => do
      let (levels, rest) ← readSet g.mode rest.length true none {} (← enterSet g.mode rest)
      readGroup fuel (g.add levels) names rest
    | '\x7b' :: _ => none
    | c :: rest =>
      if ['?', '*', '+'].contains c then do
        let g ← g.repeated
        readGroup fuel g names (if rest.head? == some '?' then rest.tail else rest)
      else do
        let (a, rest) ← readAtom g.mode (c :: rest)
        if a.allowed g.mode then readGroup fuel (g.add 0) names rest else none

/-- The text is a pattern. Numbers of repetitions are not known. -/
def isPattern (cs : List Char) : Bool :=
  match readGroup (cs.length + 1) {} [] cs with
  | some (levels, _, []) => levels ≤ maxLevels
  | _ => false

end PerfCounters.Pattern
