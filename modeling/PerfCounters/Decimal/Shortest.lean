import PerfCounters.Decimal.Rounding

/-!
The fewest decimal digits that read back as a given double.

The numbers that round to a double form an interval around it. For one digit, two digits and so on,
the decimal grid of that many digits has two points next to the double, one on each side; the first
grid with a point in the interval gives the digits, and of two points the nearer one is taken. A
point outside this pair is further away than one of the pair, so no shorter decimal reads back.
-/

namespace PerfCounters.Decimal

/-- Decimal digits, read as `0.d₁d₂… * 10 ^ point`. -/
structure Digits where
  digits : List Char
  point : Int
deriving DecidableEq, Repr

/-- The numbers that round to a double, as fractions over one denominator. -/
structure Interval where
  low : Nat
  value : Nat
  high : Nat
  den : Nat
  /-- The ends belong to the interval. -/
  closed : Bool

namespace Interval

/-- The interval of `x`. Below a power of two the doubles lie twice as close, so the lower end is
    nearer there. -/
def ofDyadic (x : Dyadic) : Interval :=
  let power := x.mantissa = Nat.pow 2 52 ∧ x.exponent > minExponent
  let low := 4 * x.mantissa - (if power then 1 else 2)
  let closed := x.mantissa % 2 == 0
  let up := Nat.pow 2 x.exponent.toNat
  let down := 4 * Nat.pow 2 (-x.exponent).toNat
  ⟨low * up, 4 * x.mantissa * up, (4 * x.mantissa + 2) * up, down, closed⟩

/-- `n * 10 ^ place` lies in the interval. -/
def holds (i : Interval) (n : Nat) (place : Int) : Bool :=
  let point := n * Nat.pow 10 place.toNat * i.den
  let unit := Nat.pow 10 (-place).toNat
  if i.closed then i.low * unit ≤ point && point ≤ i.high * unit
  else i.low * unit < point && point < i.high * unit

/-- The value of the interval in units of `10 ^ place`: the whole part, and whether the rest is at
    least one half. -/
def inUnits (i : Interval) (place : Int) : Nat × Bool :=
  let num := i.value * Nat.pow 10 (-place).toNat
  let den := i.den * Nat.pow 10 place.toNat
  (num / den, den ≤ 2 * (num % den))

/-- The number of digits before the decimal point; below one tenth, the number of zeros after it,
    negated. Those are counted by the power of ten below the inverse. -/
def point (i : Interval) : Int :=
  if i.den ≤ i.value then ((Nat.toDigits 10 (i.value / i.den)).length : Int)
  else 1 - ((Nat.toDigits 10 (i.den / i.value)).length : Int)

/-- The point of the grid of `10 ^ place` in the interval nearest to its value, if there is one. -/
def onGrid? (i : Interval) (place : Int) : Option Nat :=
  let (below, roundsUp) := i.inUnits place
  let first := if roundsUp then below + 1 else below
  let second := if roundsUp then below else below + 1
  if i.holds first place then some first
  else if i.holds second place then some second
  else none

/-- The first grid of `count` digits or more with a point in the interval; seventeen digits always
    have one. -/
def search (i : Interval) (point : Int) (count : Nat) : Nat → Nat × Int
  | 0 => let place := point - count; ((i.inUnits place).1, place)
  | more + 1 =>
    let place := point - count
    match i.onGrid? place with
    | some n => (n, place)
    | none => search i point (count + 1) more

end Interval

/-- The digits of `n * 10 ^ place` without zeros at the end. -/
def Digits.ofNat (n : Nat) (place : Int) : Digits :=
  let all := Nat.toDigits 10 n
  ⟨(all.reverse.dropWhile (· = '0')).reverse, place + all.length⟩

/-- The fewest digits that read back as `x`, which is not zero. -/
def shortest (x : Dyadic) : Digits :=
  let i := Interval.ofDyadic x
  let (n, place) := i.search i.point 1 17
  Digits.ofNat n place

end PerfCounters.Decimal
