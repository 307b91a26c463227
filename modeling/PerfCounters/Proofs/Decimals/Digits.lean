import Mathlib.Algebra.Order.Field.Rat
import Mathlib.Data.List.TakeWhile
import Mathlib.Tactic.NormNum
import Mathlib.Tactic.Ring
import PerfCounters.Decimal.Text

/-! Texts made of decimal digits, with a point or without, and the numbers they are read as. Zeros that stand at
    the end of digits only move the point, and wherever the point falls, the text has the value of the digits. -/

namespace PerfCounters.Decimal

variable {n k : Nat} {place : Int} {c : Char} {cs whole fraction : List Char} {d : Digits} {negative : Bool}

/-! ### Natural numbers -/

theorem isDigit_of_mem_toDigits (h : c ∈ Nat.toDigits 10 n) : isDigit c := by
  have hdigit := Nat.isDigit_of_mem_toDigits (by norm_num) le_rfl h
  simpa [isDigit, Char.isDigit, Char.le_def] using hdigit

theorem digitsValue_toDigits (n : Nat) : digitsValue (Nat.toDigits 10 n) = n := Nat.ofDigitChars_ten_toDigits

theorem digitsValue_append_zeros (cs : List Char) (k : Nat) :
    digitsValue (cs ++ List.replicate k '0') = digitsValue cs * 10 ^ k :=
  calc Nat.ofDigitChars 10 (cs ++ List.replicate k '0') 0
    _ = Nat.ofDigitChars 10 (List.replicate k '0') (Nat.ofDigitChars 10 cs 0) := Nat.ofDigitChars_append 0
    _ = 10 ^ k * Nat.ofDigitChars 10 cs 0 := Nat.ofDigitChars_replicate_zero
    _ = Nat.ofDigitChars 10 cs 0 * 10 ^ k := Nat.mul_comm _ _

theorem digitsValue_zeros_append (k : Nat) (cs : List Char) : digitsValue (List.replicate k '0' ++ cs) = digitsValue cs :=
  calc Nat.ofDigitChars 10 (List.replicate k '0' ++ cs) 0
    _ = Nat.ofDigitChars 10 cs (Nat.ofDigitChars 10 (List.replicate k '0') 0) := Nat.ofDigitChars_append 0
    _ = Nat.ofDigitChars 10 cs 0 := by rw [Nat.ofDigitChars_replicate_zero, Nat.mul_zero]

/-- A natural number is read back from its text. -/
theorem readNat?_toString (n : Nat) : readNat? (toString n).toList = some n := by
  have hall : (Nat.toDigits 10 n).all isDigit := List.all_eq_true.mpr fun c => isDigit_of_mem_toDigits
  rw [Nat.toString_eq_ofList_toDigits, String.toList_ofList, readNat?,
    if_pos ⟨Nat.toDigits_ne_nil, hall⟩, digitsValue_toDigits]

/-! ### Digits and a point -/

theorem readUnsigned?_whole (hsome : whole ≠ []) (hwhole : ∀ c ∈ whole, isDigit c) :
    readUnsigned? negative whole = some (ofScientific negative (digitsValue whole) 0) := by
  have htake : whole.takeWhile isDigit = whole := List.takeWhile_eq_self_iff.mpr hwhole
  have hdrop : whole.dropWhile isDigit = [] := List.dropWhile_eq_nil_iff.mpr hwhole
  simp [readUnsigned?, htake, hdrop, hsome]

theorem readUnsigned?_point (hsome : whole ≠ []) (hwhole : ∀ c ∈ whole, isDigit c) (hfraction : ∀ c ∈ fraction, isDigit c) :
    readUnsigned? negative (whole ++ '.' :: fraction) =
      some (ofScientific negative (digitsValue (whole ++ fraction)) (-fraction.length)) := by
  have hpoint : isDigit '.' = false := by decide
  have htake : (whole ++ '.' :: fraction).takeWhile isDigit = whole := by
    rw [List.takeWhile_append_of_pos hwhole, List.takeWhile_cons_of_neg (by simp [hpoint]), List.append_nil]
  have hdrop : (whole ++ '.' :: fraction).dropWhile isDigit = '.' :: fraction := by
    rw [List.dropWhile_append_of_pos hwhole, List.dropWhile_cons_of_neg (by simp [hpoint])]
  have htake' : fraction.takeWhile isDigit = fraction := List.takeWhile_eq_self_iff.mpr hfraction
  have hdrop' : fraction.dropWhile isDigit = [] := List.dropWhile_eq_nil_iff.mpr hfraction
  simp [readUnsigned?, htake, hdrop, htake', hdrop', hsome]

/-- Digits are read without a sign. -/
theorem read?_digit (hc : isDigit c) : read? (c :: cs) = readUnsigned? false (c :: cs) := by
  unfold read?
  split
  · rename_i heq
    cases heq
    cases hc
  · rename_i heq
    cases heq
    cases hc
  · rfl

/-- Digits and points, read as a decimal fraction with this value. -/
def Positional (cs : List Char) (q : ℚ) : Prop :=
  (∀ c ∈ cs, isDigit c ∨ c = '.') ∧ ∃ m e, read? cs = some (ofScientific false m e) ∧ (m : ℚ) * 10 ^ e = q

theorem positional_whole (hsome : cs ≠ []) (hcs : ∀ c ∈ cs, isDigit c) : Positional cs (digitsValue cs) := by
  refine ⟨fun c hc => .inl (hcs c hc), digitsValue cs, 0, ?_, by simp⟩
  obtain ⟨c, cs, rfl⟩ := List.exists_cons_of_ne_nil hsome
  rw [read?_digit (hcs c List.mem_cons_self), readUnsigned?_whole hsome hcs]

theorem positional_point (hsome : whole ≠ []) (hwhole : ∀ c ∈ whole, isDigit c) (hfraction : ∀ c ∈ fraction, isDigit c) :
    Positional (whole ++ '.' :: fraction) (digitsValue (whole ++ fraction) * 10 ^ (-fraction.length : Int)) := by
  refine ⟨?_, digitsValue (whole ++ fraction), -fraction.length, ?_, rfl⟩
  · simp only [List.forall_mem_append, List.forall_mem_cons]
    exact ⟨fun c hc => .inl (hwhole c hc), .inr trivial, fun c hc => .inl (hfraction c hc)⟩
  · rw [← readUnsigned?_point hsome hwhole hfraction]
    obtain ⟨c, cs, rfl⟩ := List.exists_cons_of_ne_nil hsome
    exact read?_digit (hwhole c List.mem_cons_self)

/-! ### Positional texts -/

/-- Some digits, and nothing else. -/
structure Digits.Proper (d : Digits) : Prop where
  nonempty : d.digits ≠ []
  digits : ∀ c ∈ d.digits, isDigit c

/-- The number that the digits make up. -/
def Digits.value (d : Digits) : ℚ := digitsValue d.digits * 10 ^ (d.point - d.digits.length)

/-- The zeros that are left out stood at the end. -/
theorem exists_zeros (n : Nat) (place : Int) :
    ∃ k, Nat.toDigits 10 n = (Digits.ofNat n place).digits ++ List.replicate k '0' := by
  refine ⟨((Nat.toDigits 10 n).reverse.takeWhile (· = '0')).length, ?_⟩
  have hzeros : (Nat.toDigits 10 n).reverse.takeWhile (· = '0') =
      List.replicate ((Nat.toDigits 10 n).reverse.takeWhile (· = '0')).length '0' :=
    List.eq_replicate_of_mem fun c hc => by simpa using List.mem_takeWhile_imp hc
  have hsplit := List.takeWhile_append_dropWhile (p := (· = '0')) (l := (Nat.toDigits 10 n).reverse)
  rw [← List.reverse_inj, List.reverse_append, List.reverse_replicate, ← hzeros, Digits.ofNat, List.reverse_reverse]
  exact hsplit.symm

theorem proper_ofNat (hn : 0 < n) (place : Int) : (Digits.ofNat n place).Proper := by
  obtain ⟨k, hk⟩ := exists_zeros n place
  refine ⟨fun hnil => ?_, fun c hc => isDigit_of_mem_toDigits (n := n) ?_⟩
  · have hvalue := digitsValue_toDigits n
    rw [hk, hnil, digitsValue_append_zeros, digitsValue, List.foldl_nil, Nat.zero_mul] at hvalue
    omega
  · rw [hk]
    exact List.mem_append_left _ hc

theorem value_ofNat (n : Nat) (place : Int) : (Digits.ofNat n place).value = n * 10 ^ place := by
  obtain ⟨k, hk⟩ := exists_zeros n place
  have hvalue := digitsValue_toDigits n
  have hpoint : (Digits.ofNat n place).point = place + (Nat.toDigits 10 n).length := rfl
  rw [hk, digitsValue_append_zeros] at hvalue
  rw [hk, List.length_append, List.length_replicate] at hpoint
  rw [Digits.value, hpoint]
  generalize (Digits.ofNat n place).digits = ds at *
  rw [show place + (ds.length + k : Nat) - ds.length = (k : Int) + place by omega,
    zpow_add₀ (by norm_num), zpow_natCast, ← hvalue]
  push_cast
  ring

/-- The text of digits has their value. -/
theorem positional_digits (h : d.Proper) : Positional d.positional d.value := by
  obtain ⟨hsome, hdigits⟩ := h
  have hzeros : ∀ k, ∀ c ∈ List.replicate k '0', isDigit c := fun k c hc => by
    rw [List.eq_of_mem_replicate hc]
    rfl
  unfold Digits.positional Digits.value
  split
  · -- all digits stand behind the point
    rename_i hpoint
    have hfraction := List.forall_mem_append.mpr ⟨hzeros (-d.point).toNat, hdigits⟩
    have htext := positional_point (List.cons_ne_nil '0' []) (hzeros 1) hfraction
    rw [← List.append_assoc, ← List.replicate_one, List.replicate_append_replicate, digitsValue_zeros_append,
      List.length_append, List.length_replicate] at htext
    have hexponent : d.point - d.digits.length = -((-d.point).toNat + d.digits.length : Nat) := by omega
    rw [hexponent]
    exact htext
  · rename_i hpoint
    simp only
    split
    · -- all digits stand before it
      rename_i hle
      have hall := List.forall_mem_append.mpr ⟨hdigits, hzeros (d.point.toNat - d.digits.length)⟩
      have htext := positional_whole (List.append_ne_nil_of_left_ne_nil hsome _) hall
      rw [digitsValue_append_zeros] at htext
      have hexponent : d.point - d.digits.length = (d.point.toNat - d.digits.length : Nat) := by omega
      rw [hexponent, zpow_natCast]
      exact_mod_cast htext
    · rename_i hlt
      have htake : d.digits.take d.point.toNat ≠ [] := by
        rw [Ne, List.take_eq_nil_iff, not_or]
        exact ⟨by omega, hsome⟩
      have hdrop : ∀ c ∈ d.digits.drop d.point.toNat, isDigit c := fun c hc => hdigits c (List.mem_of_mem_drop hc)
      have htext := positional_point htake (fun c hc => hdigits c (List.mem_of_mem_take hc)) hdrop
      rw [List.take_append_drop, List.length_drop] at htext
      have hexponent : d.point - d.digits.length = -(d.digits.length - d.point.toNat : Nat) := by omega
      rw [hexponent]
      exact htext

end PerfCounters.Decimal
