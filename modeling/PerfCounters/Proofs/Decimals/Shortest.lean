import Mathlib.Data.Nat.Cast.Order.Field
import PerfCounters.Proofs.Decimals.Rounding

/-! The digits that are found for a double round to it. The search goes from one grid to the next finer one and
    takes a point only inside the interval of the double, so all that can go wrong is that it comes to its end.
    It does not: with seventeen digits, the point nearest to the double is nearer than either end. -/

namespace PerfCounters.Decimal

variable {n d m : Nat} {place : Int} {x : Dyadic} {i : Interval}

/-! ### The interval of a double -/

theorem zpow_toNat {b : ℚ} (hb : b ≠ 0) (e : Int) : b ^ e.toNat = b ^ e * b ^ (-e).toNat := by
  rw [← zpow_natCast, ← zpow_natCast, ← zpow_add₀ hb]
  congr 1
  omega

theorem den_ofDyadic_pos (x : Dyadic) : (0 : ℚ) < (Interval.ofDyadic x).den := by
  simp only [Interval.ofDyadic, Nat.pow_eq]
  positivity

theorem value_ofDyadic (x : Dyadic) :
    ((Interval.ofDyadic x).value : ℚ) = x.mantissa * 2 ^ x.exponent * (Interval.ofDyadic x).den := by
  simp only [Interval.ofDyadic, Nat.pow_eq]
  push_cast
  rw [zpow_toNat two_ne_zero]
  ring

theorem high_ofDyadic (x : Dyadic) :
    ((Interval.ofDyadic x).high : ℚ) = (x.mantissa + 1 / 2) * 2 ^ x.exponent * (Interval.ofDyadic x).den := by
  simp only [Interval.ofDyadic, Nat.pow_eq]
  push_cast
  rw [zpow_toNat two_ne_zero]
  ring

theorem low_ofDyadic (hx : 0 < x.mantissa) :
    ((Interval.ofDyadic x).low : ℚ) = (x.mantissa - x.below) * 2 ^ x.exponent * (Interval.ofDyadic x).den := by
  have hlow : ((4 * x.mantissa - if x.mantissa = 2 ^ 52 ∧ x.exponent > minExponent then 1 else 2 : Nat) : ℚ) =
      4 * (x.mantissa - x.below) := by
    rw [Nat.cast_sub (by split <;> omega), Dyadic.below]
    push_cast
    split <;> ring
  simp only [Interval.ofDyadic, Nat.pow_eq]
  rw [Nat.cast_mul, hlow]
  push_cast
  rw [zpow_toNat two_ne_zero]
  ring

/-- The interval holds the numbers that round to the double. -/
theorem holds_iff (hx : 0 < x.mantissa) : (Interval.ofDyadic x).holds n place ↔ x.Rounds (n * 10 ^ place) := by
  have hden := den_ofDyadic_pos x
  have hunit := two_zpow_pos x.exponent
  have hlow := low_ofDyadic hx
  have hhigh := high_ofDyadic x
  have hclosed : (Interval.ofDyadic x).closed = (x.mantissa % 2 == 0) := rfl
  simp only [Interval.holds, Nat.pow_eq]
  generalize Interval.ofDyadic x = i at *
  -- all three numbers are multiples of this one
  have hscale : (0 : ℚ) < i.den * 10 ^ (-place).toNat := by positivity
  have hpoint : ((n * 10 ^ place.toNat * i.den : Nat) : ℚ) = n * 10 ^ place * (i.den * 10 ^ (-place).toNat) := by
    push_cast
    rw [zpow_toNat (by norm_num)]
    ring
  have hlow' : ((i.low * 10 ^ (-place).toNat : Nat) : ℚ) =
      (x.mantissa - x.below) * 2 ^ x.exponent * (i.den * 10 ^ (-place).toNat) := by
    push_cast
    rw [hlow, mul_assoc _ (i.den : ℚ)]
  have hhigh' : ((i.high * 10 ^ (-place).toNat : Nat) : ℚ) =
      (x.mantissa + 1 / 2) * 2 ^ x.exponent * (i.den * 10 ^ (-place).toNat) := by
    push_cast
    rw [hhigh, mul_assoc _ (i.den : ℚ)]
  split
  · rename_i hc
    have heven : x.mantissa % 2 ≠ 1 := by
      rw [hclosed, beq_iff_eq] at hc
      omega
    rw [Bool.and_eq_true, decide_eq_true_iff, decide_eq_true_iff, ← Nat.cast_le (α := ℚ), ← Nat.cast_le (α := ℚ), hlow',
      hpoint, hhigh', mul_le_mul_iff_left₀ hscale, mul_le_mul_iff_left₀ hscale, ← le_div_iff₀ hunit, ← div_le_iff₀ hunit]
    exact ⟨fun h => ⟨h.1, h.2, fun hodd => absurd hodd heven⟩, fun h => ⟨h.low, h.high⟩⟩
  · rename_i hc
    have hodd : x.mantissa % 2 = 1 := by
      rw [hclosed, beq_iff_eq] at hc
      omega
    rw [Bool.and_eq_true, decide_eq_true_iff, decide_eq_true_iff, ← Nat.cast_lt (α := ℚ), ← Nat.cast_lt (α := ℚ), hlow',
      hpoint, hhigh', mul_lt_mul_iff_left₀ hscale, mul_lt_mul_iff_left₀ hscale, ← lt_div_iff₀ hunit, ← div_lt_iff₀ hunit]
    exact ⟨fun h => ⟨h.1.le, h.2.le, fun _ => h⟩, fun h => h.inside hodd⟩

/-! ### Seventeen digits -/

/-- A fraction is no further than one half from the natural number it is rounded to. -/
theorem abs_nearest_sub_le (hd : 0 < d) :
    |((if d ≤ 2 * (n % d) then n / d + 1 else n / d : Nat) : ℚ) - (n : ℚ) / d| ≤ 1 / 2 := by
  have hd' : (0 : ℚ) < d := by exact_mod_cast hd
  have hrem : ((n % d : Nat) : ℚ) < d := by exact_mod_cast Nat.mod_lt n hd
  have hdiv : (n : ℚ) = d * (n / d : Nat) + (n % d : Nat) := by exact_mod_cast (Nat.div_add_mod n d).symm
  have hrest : (n : ℚ) / d = (n / d : Nat) + (n % d : Nat) / d := by
    rw [div_eq_iff hd'.ne', add_mul, div_mul_cancel₀ _ hd'.ne', mul_comm _ (d : ℚ)]
    exact hdiv
  have hnonneg : (0 : ℚ) ≤ (n % d : Nat) / d := by positivity
  rw [hrest]
  split
  · rename_i hup
    have hup' : (d : ℚ) ≤ 2 * (n % d : Nat) := by exact_mod_cast hup
    have hhalf : 1 / 2 ≤ ((n % d : Nat) : ℚ) / d := (le_div_iff₀ hd').mpr (by linarith)
    have hless : ((n % d : Nat) : ℚ) / d < 1 := (div_lt_one hd').mpr hrem
    rw [abs_le]
    push_cast
    constructor <;> linarith
  · rename_i hdown
    have hdown' : 2 * ((n % d : Nat) : ℚ) < d := by exact_mod_cast not_le.mp hdown
    have hhalf : ((n % d : Nat) : ℚ) / d < 1 / 2 := (div_lt_iff₀ hd').mpr (by linarith)
    rw [abs_le]
    constructor <;> linarith

/-- The value has its first digit in front of the point. -/
theorem ten_zpow_point_le (hd : 0 < i.den) (hv : 0 < i.value) : (10 : ℚ) ^ (i.point - 1) ≤ i.value / i.den := by
  have hd' : (0 : ℚ) < i.den := by exact_mod_cast hd
  have hv' : (0 : ℚ) < i.value := by exact_mod_cast hv
  unfold Interval.point
  split
  · rename_i hle
    have hpos : 0 < i.value / i.den := Nat.div_pos hle hd
    exact (length_toDigits_bounds hpos).1.trans Nat.cast_div_le
  · rename_i hlt
    have hpos : 0 < i.den / i.value := Nat.div_pos (by omega) hv
    have hless := (length_toDigits_bounds hpos).2
    rw [zpow_natCast] at hless
    have hless' : i.den < 10 ^ (Nat.toDigits 10 (i.den / i.value)).length * i.value := by
      rw [← Nat.div_lt_iff_lt_mul hv]
      exact_mod_cast hless
    rw [show (1 : Int) - (Nat.toDigits 10 (i.den / i.value)).length - 1 =
          -(Nat.toDigits 10 (i.den / i.value)).length by omega,
      zpow_neg, zpow_natCast, inv_le_iff_one_le_mul₀ (by positivity), div_mul_eq_mul_div, le_div_iff₀ hd',
      one_mul, mul_comm]
    exact_mod_cast hless'.le

theorem abs_mul_sub_le {a b u : ℚ} (hu : 0 < u) (h : |a - b / u| ≤ 1 / 2) : |a * u - b| ≤ u / 2 :=
  calc |a * u - b|
    _ = |a - b / u| * u := by rw [← abs_of_pos hu, ← abs_mul, abs_of_pos hu, sub_mul, div_mul_cancel₀ _ hu.ne']
    _ ≤ 1 / 2 * u := by gcongr
    _ = u / 2 := by ring

/-- The point of the grid that is tried first. -/
def Interval.nearest (i : Interval) (place : Int) : Nat :=
  if (i.inUnits place).2 then (i.inUnits place).1 + 1 else (i.inUnits place).1

theorem onGrid?_isSome_of_nearest (h : i.holds (i.nearest place) place) : (i.onGrid? place).isSome := by
  simp only [Interval.nearest] at h
  simp only [Interval.onGrid?, if_pos h, Option.isSome_some]

theorem abs_nearest_sub_value_le (x : Dyadic) (place : Int) :
    |((Interval.ofDyadic x).nearest place : ℚ) * 10 ^ place - x.mantissa * 2 ^ x.exponent| ≤ 10 ^ place / 2 := by
  have hden := den_ofDyadic_pos x
  have hvalue := value_ofDyadic x
  have hunit := ten_zpow_pos place
  simp only [Interval.nearest, Interval.inUnits, Nat.pow_eq, decide_eq_true_eq]
  generalize Interval.ofDyadic x = i at *
  have hden' : 0 < i.den * 10 ^ place.toNat := Nat.mul_pos (by exact_mod_cast hden) (by positivity)
  have hunits : ((i.value * 10 ^ (-place).toNat : Nat) : ℚ) / (i.den * 10 ^ place.toNat : Nat) =
      x.mantissa * 2 ^ x.exponent / 10 ^ place := by
    rw [div_eq_div_iff (by exact_mod_cast hden'.ne') hunit.ne']
    push_cast
    rw [hvalue, zpow_toNat (by norm_num) place]
    ring
  have hnear := abs_nearest_sub_le (n := i.value * 10 ^ (-place).toNat) hden'
  rw [hunits] at hnear
  exact abs_mul_sub_le hunit hnear

theorem mantissa_lt_below (hx : x.Canonical) : (x.mantissa : ℚ) / 10 ^ 16 / 2 < x.below := by
  have hfits : (x.mantissa : ℚ) < 2 ^ 53 := by exact_mod_cast hx.fits
  unfold Dyadic.below
  split
  · rename_i hpower
    rw [hpower.1]
    norm_num
  · linarith

/-- With seventeen digits the grid is finer than the doubles. -/
theorem onGrid?_isSome (hx : x.Canonical) : ((Interval.ofDyadic x).onGrid? ((Interval.ofDyadic x).point - 17)).isSome := by
  have hunit := two_zpow_pos x.exponent
  have hden := den_ofDyadic_pos x
  have hm : (0 : ℚ) < x.mantissa := by exact_mod_cast hx.positive
  have hvalue : ((Interval.ofDyadic x).value : ℚ) / (Interval.ofDyadic x).den = x.mantissa * 2 ^ x.exponent := by
    rw [value_ofDyadic, mul_div_cancel_right₀ _ hden.ne']
  have hpoint : (10 : ℚ) ^ ((Interval.ofDyadic x).point - 1) ≤ x.mantissa * 2 ^ x.exponent := by
    rw [← hvalue]
    refine ten_zpow_point_le (by exact_mod_cast hden) ?_
    have hpos : (0 : ℚ) < (Interval.ofDyadic x).value := by
      rw [value_ofDyadic]
      positivity
    exact_mod_cast hpos
  have hnear := abs_nearest_sub_value_le x ((Interval.ofDyadic x).point - 17)
  refine onGrid?_isSome_of_nearest ((holds_iff hx.positive).mpr ?_)
  generalize (Interval.ofDyadic x).nearest ((Interval.ofDyadic x).point - 17) = n at *
  generalize (Interval.ofDyadic x).point = point at *
  have hspacing : (10 : ℚ) ^ (point - 17) ≤ x.mantissa / 10 ^ 16 * 2 ^ x.exponent := by
    rw [show point - 17 = point - 1 - (16 : Nat) by omega, zpow_sub₀ (by norm_num), zpow_natCast, div_mul_eq_mul_div]
    gcongr
  have hclose : |(n : ℚ) * 10 ^ (point - 17) / 2 ^ x.exponent - x.mantissa| < x.below :=
    calc |(n : ℚ) * 10 ^ (point - 17) / 2 ^ x.exponent - x.mantissa|
      _ = |(n : ℚ) * 10 ^ (point - 17) - x.mantissa * 2 ^ x.exponent| / 2 ^ x.exponent := by
        rw [← abs_of_pos hunit, ← abs_div, abs_of_pos hunit, sub_div, mul_div_cancel_right₀ _ hunit.ne']
      _ ≤ x.mantissa / 10 ^ 16 / 2 := by
        rw [div_le_iff₀ hunit]
        linarith
      _ < x.below := mantissa_lt_below hx
  have hbelow := x.below_le
  rw [abs_lt] at hclose
  exact ⟨by linarith, by linarith, fun _ => ⟨by linarith, by linarith⟩⟩

/-! ### The search -/

theorem holds_of_onGrid? (h : i.onGrid? place = some n) : i.holds n place := by
  simp only [Interval.onGrid?] at h
  generalize (if (i.inUnits place).2 then (i.inUnits place).1 + 1 else (i.inUnits place).1) = first at h
  generalize (if (i.inUnits place).2 then (i.inUnits place).1 else (i.inUnits place).1 + 1) = second at h
  split at h
  · cases h
    assumption
  · split at h
    · cases h
      assumption
    · cases h

/-- If some grid has a point in the interval before the count runs out, then what is found lies in the interval. -/
theorem holds_search {point : Int} {last count more : Nat} (hlast : (i.onGrid? (point - last)).isSome)
    (hcount : count ≤ last)
    (hmore : last < count + more) : i.holds (i.search point count more).1 (i.search point count more).2 := by
  induction more generalizing count with
  | zero => omega
  | succ more ih =>
    simp only [Interval.search]
    split
    · rename_i n hn
      exact holds_of_onGrid? hn
    · rename_i hnone
      refine ih (Nat.lt_of_le_of_ne hcount ?_) (by omega)
      rintro rfl
      rw [hnone] at hlast
      cases hlast

end PerfCounters.Decimal
