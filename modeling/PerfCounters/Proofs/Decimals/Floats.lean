import Mathlib
import PerfCounters.Proofs.Decimals.Digits
import PerfCounters.Proofs.Decimals.Shortest

/-! Finite doubles are read back from their text. The sign is one bit, which is written as a minus; what is left
    is zero, or a positive double and its shortest digits. -/

namespace PerfCounters.Decimal

open Float.Model Float.Model.UnpackedFloat

variable {m : Nat} {v : Float} {b b' : BitVec Format.binary64.numBits}

/-! ### Bits of doubles -/

theorem mantissa_toNat (b : BitVec Format.binary64.numBits) : (unpackMantissa b).toNat = b.toNat % 2 ^ 52 := by
  rw [unpackMantissa_def, BitVec.extractLsb'_toNat]
  simp

theorem exponent_toNat (b : BitVec Format.binary64.numBits) : (unpackExponent b).toNat = b.toNat / 2 ^ 52 % 2 ^ 11 := by
  rw [unpackExponent_def, BitVec.extractLsb'_toNat]
  simp [Nat.shiftRight_eq_div_pow]

theorem sign_toNat (b : BitVec Format.binary64.numBits) : (unpackSign b).toNat = b.toNat / 2 ^ 63 % 2 := by
  rw [unpackSign_def, BitVec.extractLsb'_toNat]
  simp [Nat.shiftRight_eq_div_pow]

/-- The exponent that infinities and no numbers have. -/
theorem exponent_eq_iff :
    unpackExponent b = -BitVec.ofNat Format.binary64.exponentBits 1 ↔ b.toNat / 2 ^ 52 % 2 ^ 11 = 2047 := by
  rw [← BitVec.toNat_inj, exponent_toNat]
  exact Iff.rfl

/-- A finite double has less than the exponent of infinity. -/
theorem magnitude_lt (h : v.isFinite) : v.toBits.toNat % 2 ^ 63 < infinityBits := by
  have hfinite : (UnpackedFloat.unpack Format.binary64 v.toBits.toBitVec).isFinite := h
  have hexponent : v.toBits.toBitVec.toNat / 2 ^ 52 % 2 ^ 11 ≠ 2047 := fun heq => by
    rw [UnpackedFloat.unpack, if_pos (exponent_eq_iff.mpr heq)] at hfinite
    split at hfinite <;> cases hfinite
  have hbits : v.toBits.toBitVec.toNat = v.toBits.toNat := rfl
  simp only [infinityBits, Nat.pow_eq]
  omega

theorem ofBitVec_sign (b : BitVec Format.binary64.numBits) :
    Sign.ofBitVec (unpackSign b) = if b.toNat / 2 ^ 63 % 2 = 0 then .positive else .negative := by
  have hzero : unpackSign b = 0#1 ↔ b.toNat / 2 ^ 63 % 2 = 0 := by
    rw [← BitVec.toNat_inj, sign_toNat]
    rfl
  simp only [Sign.ofBitVec, hzero]

/-- With the sign bit, a number is the same with a minus. -/
theorem unpack_neg (h : b.toNat < 2 ^ 63) (h' : b'.toNat = 2 ^ 63 + b.toNat) :
    UnpackedFloat.unpack Format.binary64 b' = (UnpackedFloat.unpack Format.binary64 b).neg := by
  have he : unpackExponent b' = unpackExponent b := BitVec.eq_of_toNat_eq <| by
    rw [exponent_toNat, exponent_toNat, h']
    omega
  have hm : unpackMantissa b' = unpackMantissa b := BitVec.eq_of_toNat_eq <| by
    rw [mantissa_toNat, mantissa_toNat, h']
    omega
  have hs : Sign.ofBitVec (unpackSign b') = -Sign.ofBitVec (unpackSign b) := by
    rw [ofBitVec_sign, ofBitVec_sign, if_neg (by omega), if_pos (by omega)]
    rfl
  simp only [UnpackedFloat.unpack, he, hm, hs]
  split_ifs <;> rfl

theorem pack_unpack_of_lt (h : b.toNat < infinityBits) :
    UnpackedFloat.pack Format.binary64 (UnpackedFloat.unpack Format.binary64 b) = b := by
  have hnumber : isNaNBits b = false := by
    rw [isNaNBits, decide_eq_false_iff_not, exponent_eq_iff]
    simp only [infinityBits, Nat.pow_eq] at h
    omega
  rw [pack_unpack, hnumber]
  rfl

/-- A finite double and the same with a minus differ in the sign bit. -/
theorem neg_ofBits {a a' : UInt64} (h : a.toNat < infinityBits) (h' : a'.toNat = 2 ^ 63 + a.toNat) :
    -(Float.ofBits a) = Float.ofBits a' := by
  have hsmall : a.toNat < 2 ^ 63 := h.trans (by decide)
  have hkept : UnpackedFloat.pack .binary64 (UnpackedFloat.unpack .binary64 a.toBitVec) = a.toBitVec := pack_unpack_of_lt h
  have hneg : UnpackedFloat.unpack .binary64 a'.toBitVec =
      (UnpackedFloat.unpack .binary64 a.toBitVec).neg := unpack_neg hsmall h'
  calc -(Float.ofBits a)
    _ = .ofModel (Float.Model.pack (UnpackedFloat.unpack .binary64
        (UnpackedFloat.pack .binary64 (UnpackedFloat.unpack .binary64 a.toBitVec))).neg) := rfl
    _ = .ofModel (Float.Model.pack (UnpackedFloat.unpack .binary64 a'.toBitVec)) := by rw [hkept, hneg]
    _ = Float.ofBits a' := rfl

/-! ### Texts of doubles -/

/-- The text is digits and points, and is read as the double. -/
structure Plain (text : String) (v : Float) : Prop where
  numeric : ∀ c ∈ text.toList, isDigit c ∨ c = '.'
  reads : read? text.toList = some v

/-- The text stands for the double: it is read as such, or is behind a minus and read as its opposite. -/
inductive Denotes : String → Float → Prop where
  | plain {text v} (plain : Plain text v) : Denotes text v
  | negative {text v} (plain : Plain text v) : Denotes ("-" ++ text) (-v)

theorem Plain.nonempty {text : String} (h : Plain text v) : text.toList ≠ [] := fun hnil => by
  have hreads := h.reads
  rw [hnil] at hreads
  cases hreads

theorem plain_zero : Plain "0" (Float.ofBits (0 : Nat).toUInt64) := ⟨by simp [isDigit], rfl⟩

/-- What the search finds rounds to the double. -/
theorem rounds_search {x : Dyadic} (hx : x.Canonical) {n : Nat} {place : Int}
    (h : (Interval.ofDyadic x).search (Interval.ofDyadic x).point 1 17 = (n, place)) : x.Rounds (n * 10 ^ place) := by
  have hholds := holds_search (onGrid?_isSome hx) (show 1 ≤ 17 by decide) (show 17 < 1 + 17 by decide)
  rw [h] at hholds
  exact (holds_iff hx.positive).mp hholds

/-- A positive double is read back from its shortest digits. -/
theorem plain_shortest (hpos : 0 < m) (hfinite : m < infinityBits) :
    Plain (String.ofList (shortest (Dyadic.ofBits m)).positional) (Float.ofBits m.toUInt64) := by
  obtain ⟨hx, hbits⟩ := Dyadic.canonical_ofBits hpos
  generalize Dyadic.ofBits m = x at *
  obtain ⟨n, place, hsearch⟩ : ∃ n place, (Interval.ofDyadic x).search (Interval.ofDyadic x).point 1 17 = (n, place) :=
    ⟨_, _, rfl⟩
  have hrounds := rounds_search hx hsearch
  have hdigits : shortest x = Digits.ofNat n place := by simp only [shortest, hsearch]
  obtain ⟨hnumeric, k, e, hread, hvalue⟩ := positional_digits (proper_ofNat (hrounds.digits_pos hx) place)
  rw [value_ofNat] at hvalue
  rw [← hvalue] at hrounds
  rw [hdigits]
  refine ⟨by rwa [String.toList_ofList], ?_⟩
  rw [String.toList_ofList, hread, ofScientific, bitsOfScientific_eq hx (hbits ▸ hfinite) hrounds, hbits,
    if_neg Bool.false_ne_true, Nat.zero_add]

/-- The text of a double without its sign. -/
def magnitudeText (m : Nat) : String := if m = 0 then "0" else String.ofList (shortest (Dyadic.ofBits m)).positional

theorem plain_magnitudeText (hfinite : m < infinityBits) : Plain (magnitudeText m) (Float.ofBits m.toUInt64) := by
  unfold magnitudeText
  split
  · rename_i hzero
    rw [hzero]
    exact plain_zero
  · rename_i hne
    exact plain_shortest (Nat.pos_of_ne_zero hne) hfinite

theorem writeBits_eq {bits : Nat} (h : bits % 2 ^ 63 < infinityBits) :
    writeBits bits = (if 2 ^ 63 ≤ bits then "-" else "") ++ magnitudeText (bits % 2 ^ 63) := by
  simp only [writeBits, magnitudeText, Nat.pow_eq]
  rw [if_neg (by omega), if_neg (by omega)]
  split <;> rfl

/-- A finite double is read back from its text. -/
theorem denotes_write (h : v.isFinite) : Denotes (write v) v := by
  have hfinite := magnitude_lt h
  have hbound : v.toBits.toNat < 2 ^ 64 := v.toBits.toNat_lt
  have hplain := plain_magnitudeText hfinite
  rw [write, writeBits_eq hfinite]
  split
  · rename_i hsign
    have hmagnitude : (v.toBits.toNat % 2 ^ 63).toUInt64.toNat = v.toBits.toNat % 2 ^ 63 := Nat.mod_eq_of_lt (by omega)
    have hneg : -(Float.ofBits (v.toBits.toNat % 2 ^ 63).toUInt64) = Float.ofBits v.toBits :=
      neg_ofBits (by rwa [hmagnitude]) (by omega)
    rw [Float.ofBits_toBits] at hneg
    have hdenotes := Denotes.negative hplain
    rwa [hneg] at hdenotes
  · rename_i hsign
    rw [Nat.mod_eq_of_lt (by omega)] at hplain ⊢
    have hbits : v.toBits.toNat.toUInt64 = v.toBits := UInt64.ofNat_toNat
    rw [hbits, Float.ofBits_toBits] at hplain
    rw [String.empty_append]
    exact .plain hplain

end PerfCounters.Decimal
