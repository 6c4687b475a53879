import CommandBlocks.Binary64
import Mathlib.Algebra.Order.Field.Power
import Mathlib.Data.Rat.Floor
import Mathlib.Tactic.FieldSimp
import Mathlib.Tactic.Positivity
import Mathlib.Tactic.Ring

namespace CommandBlocks

theorem twoTo_eq (k : Nat) : twoTo k = 2 ^ k := rfl

theorem cast_twoTo (k : Nat) : ((twoTo k : Nat) : ℚ) = 2 ^ k := by
  rw [twoTo_eq]
  push_cast
  rfl

theorem twoTo_pos (k : Nat) : 0 < twoTo k := Nat.two_pow_pos k

/-- A power of two with an integer exponent is a quotient of two powers, one of them one. -/
theorem zpow_two_eq (k : Int) : (2 : ℚ) ^ k = twoTo k.toNat / twoTo (-k).toNat := by
  rw [cast_twoTo, cast_twoTo]
  rcases le_total 0 k with hk | hk
  · obtain ⟨n, rfl⟩ := Int.eq_ofNat_of_zero_le hk
    simp
  · obtain ⟨n, hn⟩ := Int.eq_ofNat_of_zero_le (Int.neg_nonneg.2 hk)
    obtain rfl : k = -(n : Int) := by omega
    simp

/-- A multiple is its own nearest integer quotient. -/
theorem roundHalfEven_mul (n : Nat) {den : Nat} (hden : 0 < den) :
    roundHalfEven (n * den) den = n := by
  rw [roundHalfEven]
  simp [Nat.mul_div_cancel _ hden, hden]

section Log

variable {num den : Nat}

/-- A natural number lies between the power of two of its logarithm and the next. -/
private theorem log2_spec {n : Nat} (hn : 0 < n) :
    (2 : ℚ) ^ (n.log2 : Int) ≤ n ∧ (n : ℚ) < 2 ^ ((n.log2 : Int) + 1) := by
  have hle : 2 ^ n.log2 ≤ n := Nat.log2_self_le hn.ne'
  have hlt : n < 2 ^ (n.log2 + 1) := Nat.lt_log2_self
  constructor
  · exact_mod_cast hle
  · exact_mod_cast hlt

/-- Comparing a fraction with a power of two needs natural numbers only, on whichever side of one
    the power is. -/
private theorem twoTo_le_ratio_iff (hden : 0 < den) {k : Int} :
    den * twoTo k.toNat ≤ num * twoTo (-k).toNat ↔ (2 : ℚ) ^ k ≤ num / den := by
  have hden' : (0 : ℚ) < den := by exact_mod_cast hden
  have hpow : (0 : ℚ) < twoTo (-k).toNat := by exact_mod_cast twoTo_pos _
  rw [zpow_two_eq, div_le_div_iff₀ hpow hden', mul_comm den]
  exact_mod_cast Iff.rfl

/-- The exponent that is found for a fraction is that of the largest power of two up to it. -/
theorem floorLog2_spec (hnum : 0 < num) (hden : 0 < den) :
    (2 : ℚ) ^ floorLog2 num den ≤ num / den ∧ (num / den : ℚ) < 2 ^ (floorLog2 num den + 1) := by
  obtain ⟨hnum₁, hnum₂⟩ := log2_spec hnum
  obtain ⟨hden₁, hden₂⟩ := log2_spec hden
  have hden' : (0 : ℚ) < den := by exact_mod_cast hden
  have hbelow : (2 : ℚ) ^ ((num.log2 : Int) - den.log2 - 1) ≤ num / den := by
    rw [le_div_iff₀ hden']
    calc (2 : ℚ) ^ ((num.log2 : Int) - den.log2 - 1) * den
        ≤ 2 ^ ((num.log2 : Int) - den.log2 - 1) * 2 ^ ((den.log2 : Int) + 1) := by gcongr
      _ = 2 ^ (num.log2 : Int) := by
        rw [← zpow_add₀ two_ne_zero]
        congr 1
        omega
      _ ≤ num := hnum₁
  have habove : (num / den : ℚ) < 2 ^ ((num.log2 : Int) - den.log2 + 1) := by
    rw [div_lt_iff₀ hden']
    calc (num : ℚ) < 2 ^ ((num.log2 : Int) + 1) := hnum₂
      _ = 2 ^ ((num.log2 : Int) - den.log2 + 1) * 2 ^ (den.log2 : Int) := by
        rw [← zpow_add₀ two_ne_zero]
        congr 1
        omega
      _ ≤ 2 ^ ((num.log2 : Int) - den.log2 + 1) * den := by gcongr
  simp only [floorLog2, twoTo_le_ratio_iff hden]
  split_ifs with hle
  · exact ⟨hle, habove⟩
  · rw [sub_add_cancel]
    exact ⟨hbelow, not_le.1 hle⟩

/-- The logarithm is known from the powers of two around a fraction. -/
theorem floorLog2_eq (hnum : 0 < num) (hden : 0 < den) {k : Int} (hle : (2 : ℚ) ^ k ≤ num / den)
    (hlt : (num / den : ℚ) < 2 ^ (k + 1)) : floorLog2 num den = k := by
  obtain ⟨hle', hlt'⟩ := floorLog2_spec hnum hden
  have hbelow := (zpow_lt_zpow_iff_right₀ (by norm_num)).1 (hle.trans_lt hlt')
  have habove := (zpow_lt_zpow_iff_right₀ (by norm_num)).1 (hle'.trans_lt hlt)
  omega

end Log

namespace Binary64

variable {x : Binary64}

/-- A finite number without its sign. -/
def magnitude (x : Binary64) : ℚ := x.magnitudeNum / x.magnitudeDen

/-- The number that a finite floating-point number stands for. -/
def toRat (x : Binary64) : ℚ := if x.isNegative then -x.magnitude else x.magnitude

theorem exponentField_lt (x : Binary64) : x.exponentField < 2048 := Nat.mod_lt _ (by decide)

theorem fractionField_lt (x : Binary64) : x.fractionField < twoTo 52 := Nat.mod_lt _ (by decide)

theorem isFinite_iff : x.isFinite = true ↔ x.exponentField < 2047 := by
  have hlt := x.exponentField_lt
  rw [isFinite, bne_iff_ne]
  omega

/-- A number is a zero if both of its fields are zero, whatever its sign. -/
theorem isZero_iff : x.isZero = true ↔ x.exponentField = 0 ∧ x.fractionField = 0 := by
  rw [isZero, Bool.and_eq_true, beq_iff_eq, beq_iff_eq]

/-- A number is put together from its sign and its fields. -/
theorem ofSignAndRest_fields (x : Binary64) :
    ofSignAndRest x.isNegative (x.exponentField * twoTo 52 + x.fractionField) = x := by
  have hbits : (if x.isNegative = true then twoTo 63 else 0) +
      (x.exponentField * twoTo 52 + x.fractionField) = x.bits.toNat := by
    have hlt := x.bits.toNat_lt
    have h63 : twoTo 63 = 9223372036854775808 := rfl
    have h52 : twoTo 52 = 4503599627370496 := rfl
    simp only [isNegative, exponentField, fractionField, h63, h52, decide_eq_true_eq]
    split_ifs <;> omega
  rw [ofSignAndRest, hbits, UInt64.ofNat_toNat]

/-- The magnitude of a number is its significand times a power of two. -/
theorem magnitude_eq (x : Binary64) : x.magnitude = x.significand * 2 ^ x.exponent := by
  rw [magnitude, magnitudeNum, magnitudeDen, zpow_two_eq]
  push_cast
  ring

/-- The zeros are the numbers without magnitude. -/
theorem isZero_iff_magnitude : x.isZero = true ↔ x.magnitude = 0 := by
  have hpow : (2 : ℚ) ^ x.exponent ≠ 0 := zpow_ne_zero _ two_ne_zero
  have htwo := twoTo_pos 52
  rw [magnitude_eq, mul_eq_zero_iff_right hpow, Nat.cast_eq_zero, isZero_iff, significand]
  split_ifs <;> omega

/-- The exponent and the logarithm of a number agree, but for the smallest numbers. -/
private theorem exponent_eq {num den : Nat} (hnum : 0 < num) (hden : 0 < den)
    (heq : (num / den : ℚ) = x.magnitude) :
    max (floorLog2 num den - 52) (-1074) = x.exponent := by
  have hpow : (0 : ℚ) < 2 ^ x.exponent := zpow_pos two_pos _
  have hfraction : (x.fractionField : ℚ) < 2 ^ 52 := by
    rw [← cast_twoTo]
    exact_mod_cast x.fractionField_lt
  rw [magnitude_eq] at heq
  -- the numbers whose exponent field is zero have fewer digits and all the same exponent
  by_cases hfield : x.exponentField = 0
  · have hexponent : x.exponent = -1074 := by rw [exponent, hfield]; rfl
    have hlt : (num / den : ℚ) < 2 ^ (-1022 : Int) := by
      rw [heq, significand, if_pos hfield, hexponent]
      calc (x.fractionField : ℚ) * 2 ^ (-1074 : Int) < 2 ^ (52 : Int) * 2 ^ (-1074 : Int) := by
            gcongr
            exact_mod_cast hfraction
        _ = 2 ^ (-1022 : Int) := by
          rw [← zpow_add₀ two_ne_zero]
          rfl
    have hlog := (zpow_lt_zpow_iff_right₀ one_lt_two).1 ((floorLog2_spec hnum hden).1.trans_lt hlt)
    omega
  · have hsignificand : (x.significand : ℚ) = 2 ^ 52 + x.fractionField := by
      rw [significand, if_neg hfield, ← cast_twoTo]
      push_cast
      rfl
    have hlog : floorLog2 num den = 52 + x.exponent := by
      apply floorLog2_eq hnum hden
      · rw [heq, hsignificand, zpow_add₀ two_ne_zero]
        gcongr
        exact_mod_cast Nat.le_add_right _ _
      · rw [heq, hsignificand, add_right_comm, zpow_add₀ two_ne_zero]
        gcongr
        calc (2 : ℚ) ^ 52 + x.fractionField < 2 ^ 52 + 2 ^ 52 := by gcongr
          _ = 2 ^ ((52 : Int) + 1) := by norm_num
    have hexponent : -1074 ≤ x.exponent := by
      rw [exponent]
      omega
    omega

/-- Rounding a fraction that a finite number equals gives that number. -/
theorem ofRatio_eq {num den : Nat} (hden : 0 < den) (heq : (num / den : ℚ) = x.magnitude)
    (hfinite : x.isFinite = true) : ofRatio x.isNegative num den = x := by
  have hfields := x.ofSignAndRest_fields
  have hden' : (den : ℚ) ≠ 0 := by exact_mod_cast hden.ne'
  rw [ofRatio]
  split_ifs with hnum
  · have hzero : x.isZero = true := by
      rw [isZero_iff_magnitude, ← heq, hnum, Nat.cast_zero, zero_div]
    obtain ⟨hexponent, hfraction⟩ := isZero_iff.1 hzero
    rwa [hexponent, hfraction, Nat.zero_mul, Nat.add_zero] at hfields
  · have hquotient : num * twoTo (-x.exponent).toNat =
        x.significand * (den * twoTo x.exponent.toNat) := by
      have hpow : ((twoTo (-x.exponent).toNat : Nat) : ℚ) ≠ 0 := by
        exact_mod_cast (twoTo_pos _).ne'
      rw [magnitude_eq, zpow_two_eq, div_eq_iff hden'] at heq
      field_simp at heq
      rw [Nat.mul_comm den, ← Nat.mul_assoc]
      exact_mod_cast heq
    simp only [exponent_eq (Nat.pos_of_ne_zero hnum) hden heq, hquotient,
      roundHalfEven_mul _ (Nat.mul_pos hden (twoTo_pos _))]
    -- the leading digit of the significand carries into the exponent field
    have hrest : (x.exponent + 1074).toNat * twoTo 52 + x.significand =
        x.exponentField * twoTo 52 + x.fractionField := by
      rw [exponent, significand, twoTo_eq]
      split_ifs <;> omega
    have hle : x.exponentField * twoTo 52 + x.fractionField ≤ 2047 * twoTo 52 := by
      have hfraction := x.fractionField_lt
      have hfield := isFinite_iff.1 hfinite
      rw [twoTo_eq] at hfraction ⊢
      omega
    rw [hrest, Nat.min_eq_left hle, hfields]

theorem magnitude_nonneg (x : Binary64) : 0 ≤ x.magnitude :=
  div_nonneg (Nat.cast_nonneg _) (Nat.cast_nonneg _)

/-- The magnitude of a number is the absolute value of the rational number that it stands for. -/
theorem abs_toRat (x : Binary64) : |x.toRat| = x.magnitude := by
  rw [toRat]
  split_ifs
  · rw [abs_neg, abs_of_nonneg x.magnitude_nonneg]
  · rw [abs_of_nonneg x.magnitude_nonneg]

/-- The numerator is a multiple of the denominator exactly in whole numbers. -/
private theorem magnitude_eq_natCast_iff {k : Nat} :
    x.magnitude = k ↔
      x.magnitudeNum % x.magnitudeDen = 0 ∧ x.magnitudeNum / x.magnitudeDen = k := by
  have hden : 0 < x.magnitudeDen := twoTo_pos _
  have hden' : (x.magnitudeDen : ℚ) ≠ 0 := by exact_mod_cast hden.ne'
  rw [magnitude, div_eq_iff hden']
  constructor
  · intro heq
    have hnum : x.magnitudeNum = k * x.magnitudeDen := by exact_mod_cast heq
    rw [hnum]
    exact ⟨Nat.mul_mod_left _ _, Nat.mul_div_cancel _ hden⟩
  · rintro ⟨hmod, rfl⟩
    exact_mod_cast (Nat.div_mul_cancel (Nat.dvd_of_mod_eq_zero hmod)).symm

/-- The magnitude of a number that is an integer is the absolute value of that integer. -/
private theorem magnitude_eq_natAbs {n : Int} (hn : x.toRat = n) : x.magnitude = n.natAbs := by
  rw [← abs_toRat, hn, Nat.cast_natAbs, Int.cast_abs]

private theorem toInt?_eq (hfinite : x.isFinite = true) :
    x.toInt? = if x.magnitudeNum % x.magnitudeDen = 0 ∧
        x.magnitudeNum / x.magnitudeDen < twoTo 63 then
      some (if x.isNegative then -((x.magnitudeNum / x.magnitudeDen : Nat) : Int)
        else (x.magnitudeNum / x.magnitudeDen : Nat))
    else none := by
  simp only [toInt?, hfinite, true_and]

/-- The integer that a number is taken for is the number itself. -/
theorem toInt?_eq_some_iff (hfinite : x.isFinite = true) {n : Int} :
    x.toInt? = some n ↔ x.toRat = n ∧ |x.toRat| < 2 ^ 63 := by
  rw [abs_toRat, toInt?_eq hfinite]
  constructor
  · intro hsome
    rw [Option.ite_none_right_eq_some] at hsome
    obtain ⟨⟨hmod, hlt⟩, hsome⟩ := hsome
    obtain rfl := Option.some_inj.1 hsome
    have hmagnitude := magnitude_eq_natCast_iff.2 ⟨hmod, rfl⟩
    refine ⟨?_, ?_⟩
    · rw [toRat, hmagnitude]
      split_ifs <;> push_cast <;> rfl
    · rw [hmagnitude, ← cast_twoTo]
      exact_mod_cast hlt
  · rintro ⟨hn, hlt⟩
    have hmagnitude := magnitude_eq_natAbs hn
    obtain ⟨hmod, hdiv⟩ := magnitude_eq_natCast_iff.1 hmagnitude
    rw [hmagnitude, ← cast_twoTo] at hlt
    rw [hdiv, if_pos ⟨hmod, by exact_mod_cast hlt⟩]
    rw [toRat, hmagnitude] at hn
    congr 1
    split_ifs at hn ⊢
    · exact_mod_cast hn
    · rw [← Int.cast_inj (α := ℚ), ← hn, Int.cast_natCast]

/-- Both zeros are the integer 0. -/
theorem toInt?_of_isZero (hzero : x.isZero = true) : x.toInt? = some 0 := by
  have hfinite : x.isFinite = true := by
    rw [isFinite_iff, (isZero_iff.1 hzero).1]
    decide
  have habs : |x.toRat| = 0 := by rw [abs_toRat, isZero_iff_magnitude.1 hzero]
  rw [toInt?_eq_some_iff hfinite, habs, Int.cast_zero]
  exact ⟨abs_eq_zero.1 habs, by norm_num⟩

/-- Rounding gives back a number that is an integer. An integer has no negative zero. -/
theorem ofInt_eq (hfinite : x.isFinite = true) {n : Int} (hn : x.toRat = n) :
    ofInt n = if x.isZero then zero false else x := by
  have hmagnitude := magnitude_eq_natAbs hn
  split_ifs with hzero
  · rw [isZero_iff_magnitude.1 hzero, eq_comm, Nat.cast_eq_zero, Int.natAbs_eq_zero] at hmagnitude
    rw [hmagnitude]
    rfl
  · have hpos : 0 < x.magnitude := by
      have hne := mt isZero_iff_magnitude.2 hzero
      exact lt_of_le_of_ne x.magnitude_nonneg (Ne.symm hne)
    have hsign : decide (n < 0) = x.isNegative := by
      rw [Bool.eq_iff_iff, decide_eq_true_iff, ← Int.cast_lt_zero (R := ℚ), ← hn, toRat]
      split_ifs with hnegative
      · exact iff_of_true (neg_lt_zero.2 hpos) hnegative
      · exact iff_of_false hpos.not_gt hnegative
    rw [ofInt, hsign]
    refine ofRatio_eq one_pos ?_ hfinite
    rw [Nat.cast_one, div_one, hmagnitude]

end Binary64

end CommandBlocks
