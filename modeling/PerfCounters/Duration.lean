import PerfCounters.Decimal.Text
import PerfCounters.Text.Blank

/-!
Spans of time and the words they are written with: numbers, each with a unit, such as 1h 30m. A number
may have a fraction. What does not fit 64 bits is refused, at every stage.
-/

namespace PerfCounters

/-- A span of time. -/
structure Duration where
  nanoseconds : Nat
deriving DecidableEq, Repr, Inhabited

namespace Duration

/-- The whole seconds. -/
def seconds (d : Duration) : Nat := d.nanoseconds / 1000000000

/-- The nanoseconds past the whole seconds. -/
def subsecond (d : Duration) : Nat := d.nanoseconds % 1000000000

/-- Units of time. -/
inductive TimeUnit where
  | nanosecond
  | microsecond
  | millisecond
  | second
  | minute
  | hour
  | day
  | week
  | month
  | year
deriving DecidableEq, Repr

namespace TimeUnit

/-- The units and their names. -/
def names : List (TimeUnit × List String) :=
  [(.nanosecond, ["nanos", "nsec", "ns"]), (.microsecond, ["usec", "us", "µs"]),
    (.millisecond, ["millis", "msec", "ms"]), (.second, ["seconds", "second", "secs", "sec", "s"]),
    (.minute, ["minutes", "minute", "min", "mins", "m"]),
    (.hour, ["hours", "hour", "hr", "hrs", "h"]), (.day, ["days", "day", "d"]),
    (.week, ["weeks", "week", "wk", "wks", "w"]), (.month, ["months", "month", "M"]),
    (.year, ["years", "year", "yr", "yrs", "y"])]

/-- The unit with a name. -/
def ofName? (name : String) : Option TimeUnit :=
  (names.find? fun entry => entry.2.contains name).map Prod.fst

/-- How many seconds the unit has; `none` if it is shorter than a second. -/
def seconds? : TimeUnit → Option Nat
  | .nanosecond => none
  | .microsecond => none
  | .millisecond => none
  | .second => some 1
  | .minute => some 60
  | .hour => some 3600
  | .day => some 86400
  | .week => some 604800
  | .month => some 2630016
  | .year => some 31557600

/-- The nanoseconds of a unit that is shorter than a second. -/
def nanoseconds : TimeUnit → Nat
  | .nanosecond => 1
  | .microsecond => 1000
  | .millisecond => 1000000
  | _ => 1000000000

end TimeUnit

/-- The number, if it has no more than 64 bits. -/
def within (n : Nat) : Option Nat := if n < Nat.pow 2 64 then some n else none

/-- The duration with seconds and nanoseconds added. -/
def add? (d : Duration) (seconds nanoseconds : Nat) : Option Duration := do
  let nanoseconds ← within (d.subsecond + nanoseconds)
  let seconds ← within (d.seconds + seconds + nanoseconds / 1000000000)
  return ⟨seconds * 1000000000 + nanoseconds % 1000000000⟩

/-- The duration with `n` units added. -/
def addWhole? (d : Duration) (u : TimeUnit) (n : Nat) : Option Duration := do
  match u.seconds? with
  | some k => d.add? (← within (n * k)) 0
  | none => d.add? 0 (← within (n * u.nanoseconds))

/-- A fraction of `n`, which must come out even. -/
def fractionOf (n numerator denominator : Nat) : Option Nat := do
  let product ← within (numerator * n)
  if product % denominator = 0 then some (product / denominator) else none

/-- The duration with a fraction of a unit added. Up to minutes the fraction has to be a whole number of
nanoseconds, above them of seconds, and a nanosecond has none. -/
def addFraction? (d : Duration) (u : TimeUnit) (numerator denominator : Nat) : Option Duration := do
  match u with
  | .nanosecond => none
  | .minute => d.add? 0 (← fractionOf 60000000000 numerator denominator)
  | .hour | .day | .week | .month | .year =>
    d.add? (← fractionOf (u.seconds?.getD 0) numerator denominator) 0
  | _ => d.add? 0 (← fractionOf u.nanoseconds numerator denominator)

/-- A letter of the name of a unit. -/
def isUnitLetter (c : Char) : Bool := c.isAlpha || c == 'µ'

/-- A number with an optional fraction, and what comes after it. -/
structure Quantity where
  whole : Nat
  fraction : Option (Nat × Nat)
  rest : List Char

/-- Reads the digits of a fraction, which blanks may part: its numerator and its denominator. -/
def readFraction (numerator denominator : Nat) : List Char → Option (Nat × Nat × List Char)
  | [] => if denominator = 1 then none else some (numerator, denominator, [])
  | c :: cs =>
    if Decimal.isDigit c then do
      let denominator ← within (denominator * 10)
      let numerator ← within (numerator * 10 + (c.toNat - '0'.toNat))
      readFraction numerator denominator cs
    else if Text.isBlank c then readFraction numerator denominator cs
    else if isUnitLetter c && denominator != 1 then some (numerator, denominator, c :: cs)
    else none

/-- Reads on in a number, which blanks may part, up to a unit. -/
def readQuantity (whole : Nat) : List Char → Option Quantity
  | [] => some ⟨whole, none, []⟩
  | c :: cs =>
    if Decimal.isDigit c then
      (within (whole * 10 + (c.toNat - '0'.toNat))).bind fun whole => readQuantity whole cs
    else if Text.isBlank c then readQuantity whole cs
    else if isUnitLetter c then some ⟨whole, none, c :: cs⟩
    else if c == '.' then
      (readFraction 0 1 cs).map fun (numerator, denominator, rest) =>
        ⟨whole, some (numerator, denominator), rest⟩
    else none

/-- The duration with a quantity of a unit added. -/
def addQuantity? (d : Duration) (q : Quantity) (name : List Char) : Option Duration := do
  let u ← TimeUnit.ofName? (String.ofList name)
  let d ← d.addWhole? u q.whole
  match q.fraction with
  | none => return d
  | some (numerator, denominator) => d.addFraction? u numerator denominator

/-- Adds the quantities of a text; `fuel` bounds their number. -/
def readOn : Nat → Duration → List Char → Option Duration
  | 0, _, _ => none
  | fuel + 1, d, cs => do
    let q ← readQuantity 0 cs
    let name := q.rest.takeWhile isUnitLetter
    let rest := q.rest.dropWhile isUnitLetter
    let d ← d.addQuantity? q name
    match rest.dropWhile Text.isBlank with
    | [] => return d
    | c :: cs => if Decimal.isDigit c then readOn fuel d (c :: cs) else none

/-- The duration that a text says; a lone 0 needs no unit. -/
def ofText? (text : String) : Option Duration :=
  if text == "0" then some ⟨0⟩
  else
    let cs := text.toList.dropWhile Text.isBlank
    match cs with
    | [] => none
    | c :: _ => if Decimal.isDigit c then readOn cs.length ⟨0⟩ cs else none

end Duration

end PerfCounters
