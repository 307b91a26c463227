/-!
Exact rounding between fractions and the finite doubles, in arithmetic on natural numbers.

A finite positive double is `mantissa * 2 ^ exponent`. Its bits, read as a number, are
`(exponent + 1074) * 2 ^ 52 + mantissa` for every exponent from -1074 on, subnormal or not: the
hidden bit of a normal mantissa carries into the exponent field.
-/

namespace PerfCounters.Decimal

/-- `num / den` rounded to a natural number, a half going to the even neighbour. -/
def roundHalfEven (num den : Nat) : Nat :=
  let q := num / den
  let r := num % den
  if 2 * r < den then q else if den < 2 * r then q + 1 else q + q % 2

/-- The smallest exponent of a double. -/
def minExponent : Int := -1074

/-- The bits of positive infinity. -/
def infinityBits : Nat := 2047 * Nat.pow 2 52

/-- `num / den * 2 ^ (-exponent)` as a fraction. -/
def scale (num den : Nat) (exponent : Int) : Nat × Nat :=
  if exponent < 0 then (num * Nat.pow 2 exponent.natAbs, den) else (num, den * Nat.pow 2 exponent.natAbs)

/-- The exponent at which `num / den` has a mantissa of 53 bits, or the smallest there is. -/
def exponentOf (num den : Nat) : Int :=
  let guess := (num.log2 : Int) - (den.log2 : Int) - 52
  let (n, d) := scale num den guess
  max minExponent (if n < d * Nat.pow 2 52 then guess - 1 else guess)

/-- The bits of the double nearest to `num / den`, a half going to the even mantissa. -/
def nearestBits (num den : Nat) : Nat :=
  if num = 0 then 0
  else
    let exponent := exponentOf num den
    let (n, d) := scale num den exponent
    min infinityBits ((exponent - minExponent).toNat * Nat.pow 2 52 + roundHalfEven n d)

/-- The bits of the double nearest to `digits * 10 ^ exponent`. Powers far outside the range of
    doubles are not computed. -/
def bitsOfScientific (digits : Nat) (exponent : Int) : Nat :=
  let magnitude := ((Nat.toDigits 10 digits).length : Int) + exponent
  if digits = 0 ∨ magnitude < -400 then 0
  else if magnitude > 400 then infinityBits
  else if exponent < 0 then nearestBits digits (Nat.pow 10 exponent.natAbs)
  else nearestBits (digits * Nat.pow 10 exponent.natAbs) 1

/-- The double nearest to `digits * 10 ^ exponent`, negated if `negative`. -/
def ofScientific (negative : Bool) (digits : Nat) (exponent : Int) : Float :=
  Float.ofBits ((if negative then Nat.pow 2 63 else 0) + bitsOfScientific digits exponent).toUInt64

/-- A finite positive number as `mantissa * 2 ^ exponent`. -/
structure Dyadic where
  mantissa : Nat
  exponent : Int
deriving DecidableEq, Repr

/-- The number whose bits, sign bit left out, are `bits`. -/
def Dyadic.ofBits (bits : Nat) : Dyadic :=
  let field := bits / Nat.pow 2 52
  let fraction := bits % Nat.pow 2 52
  if field = 0 then ⟨fraction, minExponent⟩
  else ⟨Nat.pow 2 52 + fraction, minExponent + (field - 1 : Nat)⟩

end PerfCounters.Decimal
