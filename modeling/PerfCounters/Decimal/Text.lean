import PerfCounters.Decimal.Shortest

/-!
Reading and writing doubles as decimal text.

Numbers are written with the fewest digits that read back, always positionally: no exponent, no
point when there is no fraction.
-/

namespace PerfCounters.Decimal

/-- A decimal digit. -/
def isDigit (c : Char) : Bool := '0' ≤ c && c ≤ '9'

/-- The number written by decimal digits. -/
def digitsValue (cs : List Char) : Nat := cs.foldl (fun n c => 10 * n + (c.toNat - '0'.toNat)) 0

/-- The natural number written by `cs`, which must be digits and at least one of them. -/
def readNat? (cs : List Char) : Option Nat :=
  if cs ≠ [] ∧ cs.all isDigit then some (digitsValue cs) else none

/-- The size of an exponent. Once it is 65536 or more, further digits are left out. -/
def readMagnitude? (cs : List Char) : Option Nat :=
  if cs ≠ [] ∧ cs.all isDigit then
    some (cs.foldl (fun e c => if e < 65536 then 10 * e + (c.toNat - '0'.toNat) else e) 0)
  else none

/-- The exponent after an exponent mark: digits with an optional sign. -/
def readExponent? : List Char → Option Int
  | '+' :: cs => (readMagnitude? cs).map Int.ofNat
  | '-' :: cs => (readMagnitude? cs).map fun n => -Int.ofNat n
  | cs => (readMagnitude? cs).map Int.ofNat

/-- The double written by `cs` without a sign: digits with at most one point among or around them,
    and an optional exponent. -/
def readUnsigned? (negative : Bool) (cs : List Char) : Option Float :=
  let whole := cs.takeWhile isDigit
  let rest := cs.dropWhile isDigit
  let fraction := match rest with
    | '.' :: r => r.takeWhile isDigit
    | _ => []
  let tail := match rest with
    | '.' :: r => r.dropWhile isDigit
    | _ => rest
  let exponent? := match tail with
    | [] => some 0
    | 'e' :: r => readExponent? r
    | 'E' :: r => readExponent? r
    | _ => none
  if whole = [] ∧ fraction = [] then none
  else exponent?.map fun e =>
    ofScientific negative (digitsValue (whole ++ fraction)) (e - fraction.length)

/-- The double written by `cs`, with an optional sign. -/
def read? : List Char → Option Float
  | '+' :: cs => readUnsigned? false cs
  | '-' :: cs => readUnsigned? true cs
  | cs => readUnsigned? false cs

/-- Digits written positionally, with zeros where the digits do not reach the point. -/
def Digits.positional (d : Digits) : List Char :=
  if d.point ≤ 0 then '0' :: '.' :: List.replicate (-d.point).toNat '0' ++ d.digits
  else
    let whole := d.point.toNat
    if d.digits.length ≤ whole then d.digits ++ List.replicate (whole - d.digits.length) '0'
    else d.digits.take whole ++ '.' :: d.digits.drop whole

/-- The text of the double whose bits are `bits`. -/
def writeBits (bits : Nat) : String :=
  let magnitude := bits % Nat.pow 2 63
  let sign := if Nat.pow 2 63 ≤ bits then "-" else ""
  if magnitude > infinityBits then "NaN"
  else if magnitude = infinityBits then sign ++ "inf"
  else if magnitude = 0 then sign ++ "0"
  else sign ++ String.ofList (shortest (Dyadic.ofBits magnitude)).positional

/-- The text of a double. -/
def write (x : Float) : String := writeBits x.toBits.toNat

end PerfCounters.Decimal
