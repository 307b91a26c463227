import Mathlib.Algebra.Order.Field.Power
import Mathlib.Algebra.Order.Field.Rat
import Mathlib.Data.Rat.Cast.Order
import Mathlib.Tactic.Linarith
import Mathlib.Tactic.NormNum
import Mathlib.Tactic.Positivity
import Mathlib.Tactic.Qify
import Mathlib.Tactic.Ring
import PerfCounters.Decimal.Shortest

/-! Which fractions round to a double. Around each double lies an interval, half a unit of the last place to each
    side, and half as much below a power of two. A fraction inside rounds to the double; so does an end if the
    mantissa is even. The exponent that is worked out for a fraction is that of the double, except just below a
    power of two, where it is the one before and the bits are ones that carry. -/

namespace PerfCounters.Decimal

variable {num den n d m magnitude : Nat} {e : Int} {x : Dyadic} {q : ℚ}

/-! ### Rounding to a natural number -/

theorem roundHalfEven_eq (hd : 0 < d) (hnear : |(n : ℚ) / d - m| ≤ 1 / 2) (hodd : m % 2 = 1 → |(n : ℚ) / d - m| < 1 / 2) :
    roundHalfEven n d = m := by
  have hd' : (0 : ℚ) < d := by exact_mod_cast hd
  have hlow : 2 * m * d ≤ 2 * n + d ∧ 2 * n ≤ 2 * m * d + d := by
    rw [abs_le, le_sub_iff_add_le, le_div_iff₀ hd', sub_le_iff_le_add, div_le_iff₀ hd'] at hnear
    constructor <;> (qify; linarith)
  have hstrict : m % 2 = 1 → 2 * m * d < 2 * n + d ∧ 2 * n < 2 * m * d + d := fun h => by
    have hnear := hodd h
    rw [abs_lt, lt_sub_iff_add_lt, lt_div_iff₀ hd', sub_lt_iff_lt_add, div_lt_iff₀ hd'] at hnear
    constructor <;> (qify; linarith)
  have hdiv : d * (n / d) + n % d = n := Nat.div_add_mod n d
  have hrem : n % d < d := Nat.mod_lt n hd
  simp only [roundHalfEven]
  generalize n / d = w at *
  generalize n % d = r at *
  rcases Nat.lt_trichotomy w m with hlt | rfl | hgt
  · -- the whole part is one less, and the rest at least one half
    have hone : m = w + 1 := by
      by_contra hne
      have : d * (w + 2) ≤ d * m := Nat.mul_le_mul_left d (by omega)
      nlinarith
    subst hone
    have hrest : d ≤ 2 * r := by nlinarith
    have hrest' : (w + 1) % 2 = 1 → d < 2 * r := fun h => by
      have := (hstrict h).1
      nlinarith
    split_ifs <;> omega
  · have hrest : 2 * r ≤ d := by nlinarith
    have hrest' : w % 2 = 1 → 2 * r < d := fun h => by
      have := (hstrict h).2
      nlinarith
    split_ifs <;> omega
  · have : d * (m + 1) ≤ d * w := Nat.mul_le_mul_left d hgt
    nlinarith

/-! ### The exponent of a fraction -/

theorem two_zpow_pos (e : Int) : (0 : ℚ) < 2 ^ e := by positivity

theorem scale_den_pos (hden : 0 < den) : 0 < (scale num den e).2 := by
  simp only [scale, Nat.pow_eq]
  split <;> positivity

theorem scale_eq (num den : Nat) (e : Int) : ((scale num den e).1 : ℚ) / (scale num den e).2 = (num : ℚ) / den / 2 ^ e := by
  simp only [scale, Nat.pow_eq]
  split
  · rename_i h
    obtain ⟨k, rfl⟩ : ∃ k : Nat, e = -k := ⟨e.natAbs, by omega⟩
    simp
    ring
  · rename_i h
    obtain ⟨k, rfl⟩ : ∃ k : Nat, e = k := ⟨e.natAbs, by omega⟩
    simp
    rw [div_div]

theorem log2_bounds (hn : 0 < n) : (2 : ℚ) ^ (n.log2 : Int) ≤ n ∧ (n : ℚ) < 2 ^ ((n.log2 : Int) + 1) := by
  constructor
  · have := Nat.log2_self_le (Nat.pos_iff_ne_zero.mp hn)
    rw [zpow_natCast]
    exact_mod_cast this
  · have := Nat.lt_log2_self (n := n)
    rw [← Nat.cast_succ, zpow_natCast]
    exact_mod_cast this

/-- The exponent at which the fraction has 53 bits. -/
theorem exponentOf_eq (hnum : 0 < num) (hden : 0 < den) (hleast : minExponent ≤ e)
    (hhigh : (num : ℚ) / den < 2 ^ (e + 53)) (hlow : e = minExponent ∨ (2 : ℚ) ^ (e + 52) ≤ num / den) :
    exponentOf num den = e := by
  obtain ⟨hn, hn'⟩ := log2_bounds hnum
  obtain ⟨hd, hd'⟩ := log2_bounds hden
  simp only [exponentOf, Nat.pow_eq]
  generalize hguess : (num.log2 : Int) - den.log2 - 52 = guess
  have hpos : (0 : ℚ) < ((scale num den guess).2 : ℚ) := by exact_mod_cast scale_den_pos hden
  have hscale := scale_eq num den guess
  have hq : (2 : ℚ) ^ (guess + 51) < num / den ∧ (num : ℚ) / den < 2 ^ (guess + 53) := by
    constructor
    · rw [lt_div_iff₀ (by exact_mod_cast hden), ← hguess]
      calc (2 : ℚ) ^ ((num.log2 : Int) - den.log2 - 52 + 51) * den
        _ < 2 ^ ((num.log2 : Int) - den.log2 - 52 + 51) * 2 ^ ((den.log2 : Int) + 1) := by gcongr
        _ = 2 ^ (num.log2 : Int) := by
          rw [← zpow_add₀ two_ne_zero]
          congr 1
          omega
        _ ≤ num := hn
    · rw [div_lt_iff₀ (by exact_mod_cast hden), ← hguess]
      calc (num : ℚ)
        _ < 2 ^ ((num.log2 : Int) + 1) := hn'
        _ = 2 ^ ((num.log2 : Int) - den.log2 - 52 + 53) * 2 ^ (den.log2 : Int) := by
          rw [← zpow_add₀ two_ne_zero]
          congr 1
          omega
        _ ≤ 2 ^ ((num.log2 : Int) - den.log2 - 52 + 53) * den := by gcongr
  generalize (num : ℚ) / den = q at *
  have hless : (scale num den guess).1 < (scale num den guess).2 * 2 ^ 52 ↔ q < 2 ^ (guess + 52) := by
    rw [zpow_add₀ two_ne_zero, ← div_lt_iff₀' (two_zpow_pos guess), ← hscale, div_lt_iff₀' hpos]
    norm_cast
  have hexact : ∀ e', (2 : ℚ) ^ (e' + 52) ≤ q → q < 2 ^ (e' + 53) → max minExponent e' = e := fun e' hl hh => by
    have h1 := (zpow_lt_zpow_iff_right₀ (one_lt_two (α := ℚ))).mp (hl.trans_lt hhigh)
    rcases hlow with rfl | hlow
    · omega
    · have h2 := (zpow_lt_zpow_iff_right₀ (one_lt_two (α := ℚ))).mp (hlow.trans_lt hh)
      omega
  split
  · rename_i h
    refine hexact _ (le_of_lt ?_) ?_
    · rw [show guess - 1 + 52 = guess + 51 by omega]
      exact hq.1
    · rw [show guess - 1 + 53 = guess + 52 by omega]
      exact hless.mp h
  · rename_i h
    exact hexact _ (not_lt.mp fun hlt => h (hless.mpr hlt)) hq.2

/-! ### The numbers that round to a double -/

namespace Dyadic

/-- A mantissa of at most 53 bits, and of no fewer where the exponent could be smaller. -/
structure Canonical (x : Dyadic) : Prop where
  positive : 0 < x.mantissa
  fits : x.mantissa < 2 ^ 53
  least : minExponent ≤ x.exponent
  leading : x.exponent = minExponent ∨ 2 ^ 52 ≤ x.mantissa

/-- The bits of the number. -/
def toBits (x : Dyadic) : Nat := (x.exponent - minExponent).toNat * 2 ^ 52 + x.mantissa

theorem canonical_ofBits (h : 0 < magnitude) : (ofBits magnitude).Canonical ∧ (ofBits magnitude).toBits = magnitude := by
  simp only [ofBits, Nat.pow_eq]
  split
  · rename_i hfield
    have hmod : magnitude % 2 ^ 52 = magnitude := Nat.mod_eq_of_lt (Nat.lt_of_div_eq_zero (by positivity) hfield)
    rw [hmod]
    exact ⟨⟨h, by dsimp only; omega, le_rfl, .inl rfl⟩, by simp [Dyadic.toBits]⟩
  · rename_i hfield
    refine ⟨⟨by positivity, by dsimp only; omega, by dsimp only; omega, .inr (Nat.le_add_right _ _)⟩, ?_⟩
    simp only [Dyadic.toBits]
    omega

/-- The distance to the lower end, in units of the last place: below a power of two the doubles lie twice as close. -/
def below (x : Dyadic) : ℚ := if x.mantissa = 2 ^ 52 ∧ minExponent < x.exponent then 1 / 4 else 1 / 2

/-- The number lies in the interval around the double, and inside it for an odd mantissa. -/
structure Rounds (x : Dyadic) (q : ℚ) : Prop where
  low : x.mantissa - x.below ≤ q / 2 ^ x.exponent
  high : q / 2 ^ x.exponent ≤ x.mantissa + 1 / 2
  inside : x.mantissa % 2 = 1 → x.mantissa - x.below < q / 2 ^ x.exponent ∧ q / 2 ^ x.exponent < x.mantissa + 1 / 2

theorem below_le (x : Dyadic) : x.below ≤ 1 / 2 := by
  unfold below
  split <;> norm_num

end Dyadic

theorem nearestBits_of_scale (hnum : 0 < num) (he : exponentOf num den = e) (hscale : scale num den e = (n, d)) :
    nearestBits num den = min infinityBits ((e - minExponent).toNat * 2 ^ 52 + roundHalfEven n d) := by
  rw [nearestBits, if_neg hnum.ne', he, Nat.pow_eq]
  -- in sight of its value, the terms would be compared by counting up to it
  generalize infinityBits = top
  simp only [hscale]

/-- A fraction with the exponent `e` rounds to the natural number next to it in units of the last place. -/
theorem nearestBits_of_exponent (hnum : 0 < num) (hden : 0 < den) (he : exponentOf num den = e)
    (hnear : |(num : ℚ) / den / 2 ^ e - m| ≤ 1 / 2) (hodd : m % 2 = 1 → |(num : ℚ) / den / 2 ^ e - m| < 1 / 2) :
    nearestBits num den = min infinityBits ((e - minExponent).toNat * 2 ^ 52 + m) := by
  rw [← scale_eq] at hnear hodd
  have hround := roundHalfEven_eq (scale_den_pos hden) hnear hodd
  obtain ⟨n, d, hscale⟩ : ∃ n d, scale num den e = (n, d) := ⟨_, _, rfl⟩
  rw [hscale] at hround
  rw [nearestBits_of_scale hnum he hscale, hround]

/-- Just below a power of two the exponent is the one before, and the bits are all ones that carry. -/
theorem nearestBits_of_carry (hnum : 0 < num) (hden : 0 < den) (he : minExponent < e)
    (hlow : 2 ^ 52 - 1 / 4 ≤ (num : ℚ) / den / 2 ^ e) (hhigh : (num : ℚ) / den / 2 ^ e < 2 ^ 52) :
    nearestBits num den = min infinityBits ((e - minExponent).toNat * 2 ^ 52 + 2 ^ 52) := by
  have hunit := two_zpow_pos e
  have hexponent : exponentOf num den = e - 1 := by
    refine exponentOf_eq hnum hden (by omega) ?_ (.inr ?_)
    · rw [show e - 1 + 53 = e + (52 : Nat) by omega, zpow_add₀ two_ne_zero, zpow_natCast]
      exact (div_lt_iff₀' hunit).mp hhigh
    · rw [show e - 1 + 52 = e + (51 : Nat) by omega, zpow_add₀ two_ne_zero, zpow_natCast]
      refine (le_div_iff₀' hunit).mp (le_trans ?_ hlow)
      norm_num
  have hscaled : (num : ℚ) / den / 2 ^ (e - 1) = 2 * (num / den / 2 ^ e) := by
    rw [zpow_sub_one₀ two_ne_zero]
    ring
  have hbits : (e - minExponent).toNat * 2 ^ 52 + 2 ^ 52 = (e - 1 - minExponent).toNat * 2 ^ 52 + 2 ^ 53 := by omega
  rw [hbits]
  refine nearestBits_of_exponent hnum hden hexponent ?_ fun hodd => absurd hodd (by norm_num)
  rw [hscaled, abs_le]
  push_cast
  constructor <;> linarith

/-- A fraction rounds to the double around which it lies. -/
theorem nearestBits_eq (hx : x.Canonical) (hnum : 0 < num) (hden : 0 < den) (h : x.Rounds ((num : ℚ) / den)) :
    nearestBits num den = min infinityBits x.toBits := by
  obtain ⟨hpositive, hfits, hleast, hleading⟩ := hx
  obtain ⟨hlow, hhigh, hinside⟩ := h
  have hunit := two_zpow_pos x.exponent
  by_cases hsame : x.exponent = minExponent ∨ (2 : ℚ) ^ 52 ≤ num / den / 2 ^ x.exponent
  · -- the fraction has the exponent of the double
    have hfits' : (x.mantissa : ℚ) + 1 ≤ 2 ^ 53 := by exact_mod_cast Nat.succ_le_of_lt hfits
    have hexponent : exponentOf num den = x.exponent := by
      refine exponentOf_eq hnum hden hleast ?_ (hsame.imp_right fun h => ?_)
      · rw [zpow_add₀ two_ne_zero]
        exact (div_lt_iff₀' hunit).mp (lt_of_lt_of_le (by linarith) hfits')
      · rw [zpow_add₀ two_ne_zero]
        exact (le_div_iff₀' hunit).mp h
    have hbelow := x.below_le
    refine nearestBits_of_exponent hnum hden hexponent ?_ fun hodd => ?_
    · rw [abs_le]
      constructor <;> linarith
    · rw [abs_lt]
      obtain ⟨hl, hh⟩ := hinside hodd
      constructor <;> linarith
  · obtain ⟨hmin, hless⟩ := not_or.mp hsame
    have hgreater : minExponent < x.exponent := lt_of_le_of_ne hleast (Ne.symm hmin)
    have hm : 2 ^ 52 ≤ x.mantissa := hleading.resolve_left hmin
    have hpower : x.mantissa = 2 ^ 52 := by
      by_contra hne
      have hgt : (2 : ℚ) ^ 52 + 1 ≤ x.mantissa := by exact_mod_cast Nat.succ_le_of_lt (lt_of_le_of_ne hm (Ne.symm hne))
      have hbelow := x.below_le
      linarith
    rw [Dyadic.below, if_pos ⟨hpower, hgreater⟩, hpower] at hlow
    rw [nearestBits_of_carry hnum hden hgreater (by exact_mod_cast hlow) (not_le.mp hless), Dyadic.toBits, hpower]

/-! ### Decimal fractions -/

theorem ten_zpow_pos (e : Int) : (0 : ℚ) < 10 ^ e := by positivity

/-- A natural number has as many digits as there are powers of ten up to it. -/
theorem length_toDigits_bounds (hn : 0 < n) :
    (10 : ℚ) ^ (((Nat.toDigits 10 n).length : Int) - 1) ≤ n ∧ (n : ℚ) < 10 ^ ((Nat.toDigits 10 n).length : Int) := by
  have hlength : 0 < (Nat.toDigits 10 n).length := Nat.length_toDigits_pos
  constructor
  · obtain ⟨k, hk⟩ := Nat.exists_eq_add_one.mpr hlength
    rw [hk, Nat.cast_succ, add_sub_cancel_right, zpow_natCast]
    rcases Nat.eq_zero_or_pos k with rfl | hpos
    · exact_mod_cast hn
    · have hmore : ¬(Nat.toDigits 10 n).length ≤ k := by omega
      rw [Nat.length_toDigits_le_iff (by norm_num) hpos, not_lt] at hmore
      exact_mod_cast hmore
  · rw [zpow_natCast]
    exact_mod_cast (Nat.length_toDigits_le_iff (by norm_num) hlength).mp le_rfl

theorem exponent_le (hx : x.Canonical) (hfinite : x.toBits < infinityBits) : x.exponent ≤ 971 := by
  have hleast := hx.least
  rcases hx.leading with heq | hm
  · rw [heq, minExponent]
    norm_num
  · simp only [Dyadic.toBits, infinityBits, Nat.pow_eq, minExponent] at *
    omega

theorem two_zpow_le_ten_zpow : (2 : ℚ) ^ (1200 : Int) ≤ 10 ^ (400 : Int) :=
  calc (2 : ℚ) ^ (1200 : Int)
    _ = (2 ^ (3 : Int)) ^ (400 : Int) := by rw [← zpow_mul]; rfl
    _ ≤ 10 ^ (400 : Int) := zpow_le_zpow_left₀ (by norm_num) (by norm_num) (by norm_num)

/-- What rounds to a double is far from the ends of the powers of ten that are computed. -/
theorem Dyadic.Rounds.bounds (h : x.Rounds q) (hx : x.Canonical) (hfinite : x.toBits < infinityBits) :
    (10 : ℚ) ^ (-400 : Int) < q ∧ q < 10 ^ (400 : Int) := by
  have hunit := two_zpow_pos x.exponent
  have hlow := h.low
  have hhigh := h.high
  have hone : (1 : ℚ) ≤ x.mantissa := by exact_mod_cast hx.positive
  have hfits : (x.mantissa : ℚ) + 1 ≤ 2 ^ 53 := by exact_mod_cast Nat.succ_le_of_lt hx.fits
  have hbelow := x.below_le
  constructor
  · calc (10 : ℚ) ^ (-400 : Int)
      _ ≤ 2 ^ (-1200 : Int) := by
        rw [zpow_neg, zpow_neg]
        exact inv_anti₀ (two_zpow_pos 1200) two_zpow_le_ten_zpow
      _ < 2 ^ (-1 + minExponent) := zpow_lt_zpow_right₀ one_lt_two (by decide)
      _ ≤ 2 ^ (-1 + x.exponent) := zpow_le_zpow_right₀ one_le_two (by have := hx.least; omega)
      _ = 1 / 2 * 2 ^ x.exponent := by rw [zpow_add₀ two_ne_zero, zpow_neg_one, one_div]
      _ ≤ q := (le_div_iff₀ hunit).mp (by linarith)
  · calc q
      _ ≤ 2 ^ 53 * 2 ^ x.exponent := (div_le_iff₀ hunit).mp (by linarith)
      _ = 2 ^ ((53 : Nat) + x.exponent) := by rw [zpow_add₀ two_ne_zero, zpow_natCast]
      _ < 2 ^ (1200 : Int) := zpow_lt_zpow_right₀ one_lt_two (by have := exponent_le hx hfinite; omega)
      _ ≤ 10 ^ (400 : Int) := two_zpow_le_ten_zpow

theorem Dyadic.Rounds.digits_pos (h : x.Rounds (n * 10 ^ e)) (hx : x.Canonical) : 0 < n := by
  refine Nat.pos_of_ne_zero fun hn => ?_
  have hlow := h.low
  rw [hn, Nat.cast_zero, zero_mul, zero_div] at hlow
  have hone : (1 : ℚ) ≤ x.mantissa := by exact_mod_cast hx.positive
  have hbelow := x.below_le
  linarith

/-- A decimal fraction rounds to the double around which it lies. -/
theorem bitsOfScientific_eq (hx : x.Canonical) (hfinite : x.toBits < infinityBits) (h : x.Rounds (n * 10 ^ e)) :
    bitsOfScientific n e = x.toBits := by
  have hn := h.digits_pos hx
  obtain ⟨hsmall, hlarge⟩ := h.bounds hx hfinite
  obtain ⟨hlow, hhigh⟩ := length_toDigits_bounds hn
  have hunit := ten_zpow_pos e
  have hleast : -400 < ((Nat.toDigits 10 n).length : Int) + e := by
    refine (zpow_lt_zpow_iff_right₀ (show (1 : ℚ) < 10 by norm_num)).mp (hsmall.trans ?_)
    rw [zpow_add₀ (by norm_num)]
    gcongr
  have hmost : ((Nat.toDigits 10 n).length : Int) - 1 + e < 400 := by
    refine (zpow_lt_zpow_iff_right₀ (show (1 : ℚ) < 10 by norm_num)).mp (lt_of_le_of_lt ?_ hlarge)
    rw [zpow_add₀ (by norm_num)]
    gcongr
  have hfinal : min infinityBits x.toBits = x.toBits := min_eq_right hfinite.le
  rw [bitsOfScientific, if_neg (by omega), if_neg (by omega)]
  split
  · have hden : 0 < Nat.pow 10 e.natAbs := Nat.pow_pos (by norm_num)
    have hfraction : (n : ℚ) / (Nat.pow 10 e.natAbs : Nat) = n * 10 ^ e := by
      obtain ⟨k, rfl⟩ : ∃ k : Nat, e = -k := ⟨e.natAbs, by omega⟩
      simp [div_eq_mul_inv]
    rw [nearestBits_eq hx hn hden (by rwa [hfraction]), hfinal]
  · have hnum : 0 < n * Nat.pow 10 e.natAbs := Nat.mul_pos hn (Nat.pow_pos (by norm_num))
    have hfraction : ((n * Nat.pow 10 e.natAbs : Nat) : ℚ) / (1 : Nat) = n * 10 ^ e := by
      obtain ⟨k, rfl⟩ : ∃ k : Nat, e = k := ⟨e.natAbs, by omega⟩
      simp
    rw [nearestBits_eq hx hnum one_pos (by rwa [hfraction]), hfinal]

end PerfCounters.Decimal
