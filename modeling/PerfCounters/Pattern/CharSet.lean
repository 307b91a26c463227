import PerfCounters.Pattern.Basic
import PerfCounters.Pattern.Nesting

/-!
Sets of characters in square brackets: characters, ranges, named classes and sets, joined, or set against
each other by an operator.
-/

namespace PerfCounters.Pattern

/-- The names of classes. -/
def classNames : List String :=
  ["alnum", "alpha", "ascii", "blank", "cntrl", "digit", "graph", "lower", "print", "punct", "space",
    "upper", "word", "xdigit"]

/-- Reads a named class after its bracket; answers whether it is negated. -/
def readNamedClass : List Char → Option (Bool × List Char)
  | ':' :: cs =>
    let negated := cs.head? == some '^'
    let cs := if negated then cs.tail else cs
    match cs.dropWhile fun c => c != ':' with
    | ':' :: ']' :: rest =>
      if classNames.contains (String.ofList (cs.takeWhile fun c => c != ':')) then some (negated, rest)
      else none
    | _ => none
  | _ => none

/-- A named class may stand in a set. -/
def allowsClass (m : Mode) (negated : Bool) : Bool := if m.unicode then !m.ignoreCase else !negated

/-- Reads a character or a class of a set, or a range. A hyphen before the end of the set or before another
hyphen makes no range. -/
def readSetItem (m : Mode) (cs : List Char) : Option (List Char) := do
  let (first, rest) ← readSetAtom m cs
  let alone := if first.allowedInSet m then some (m.skip rest) else none
  match m.skip rest with
  | '-' :: after =>
    if m.glance after == some ']' || m.glance after == some '-' then alone
    else
      let (last, rest) ← readSetAtom m (m.skip after)
      if (← first.code?) ≤ (← last.code?) && first.allowedInSet m && last.allowedInSet m then some rest
      else none
  | _ => alone

/-- Goes into a set after its bracket. A set of octets cannot be negated. -/
def enterSet (m : Mode) (cs : List Char) : Option (List Char) :=
  match m.skip cs with
  | '^' :: rest => if m.unicode then some (m.skip rest) else none
  | rest => some rest

/-- The levels of what stands before an operator or the end of a set: `before` are those of what stands
before the operator before it. -/
def operandLevels (before : Option Nat) (items : Row) : Nat :=
  match before with
  | none => items.levels
  | some levels => max levels items.levels + 1

/-- Reads on in a set; answers with its levels. At the beginning hyphens stand for themselves, and so does a
closing bracket. `fuel` bounds the number of items. -/
def readSet (m : Mode) : Nat → (beginning : Bool) → (before : Option Nat) → (items : Row) → List Char →
    Option (Nat × List Char)
  | 0, _, _, _, _ => none
  | fuel + 1, beginning, before, items, cs =>
    let cs := m.skip cs
    let operator := fun (rest : List Char) =>
      readSet m fuel false (some (operandLevels before items)) {} rest
    let item := fun (stay : Bool) (rest : List Char) => readSet m fuel stay before (items.add 0) rest
    if beginning && cs.head? == some '-' then
      if (Atom.char '-').allowedInSet m then item true cs.tail else none
    else if beginning && items.size = 0 && cs.head? == some ']' then
      if (Atom.char ']').allowedInSet m then item false cs.tail else none
    else match cs with
      | [] => none
      | ']' :: rest => some (operandLevels before items + 1, rest)
      | '&' :: '&' :: rest => operator rest
      | '-' :: '-' :: rest => operator rest
      | '~' :: '~' :: rest => operator rest
      | '[' :: rest =>
        match readNamedClass rest with
        | some (negated, rest) => if allowsClass m negated then item false rest else none
        | none => do
          let (levels, rest) ← readSet m fuel true none {} (← enterSet m rest)
          readSet m fuel false before (items.add levels) rest
      | cs => do item false (← readSetItem m cs)

end PerfCounters.Pattern
