import PerfCounters.Decimal.Text

/-!
Numbers that counters and histograms add up. Whole numbers count records and batches; doubles also
take fractions, with the rounding of their addition.
-/

namespace PerfCounters

/-- Numbers that can be counted with. -/
class Amount (κ : Type) where
  ofNat : Nat → κ
  add : κ → κ → κ
  atMost : κ → κ → Bool
  text : κ → String

namespace Amount

/-- Nothing counted. -/
def zero {κ : Type} [Amount κ] : κ := ofNat 0

/-- Whole numbers are written with their digits. -/
instance : Amount Nat where
  ofNat n := n
  add m n := m + n
  atMost m n := decide (m ≤ n)
  text n := toString n

/-- Doubles are written with the fewest digits that read back. -/
instance : Amount Float where
  ofNat n := Float.ofNat n
  add x y := x + y
  atMost x y := x ≤ y
  text := Decimal.write

end Amount

end PerfCounters
