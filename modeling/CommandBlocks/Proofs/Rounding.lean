import CommandBlocks.Proofs.Numbers
import Mathlib.Algebra.Order.Ring.Abs
import Mathlib.Order.Monotone.Basic
import Mathlib.Tactic.Linarith

namespace CommandBlocks

/-- The rounded quotient of natural numbers is at most one half away, and even if it is one half
    away. -/
theorem roundHalfEven_spec (num : Nat) {den : Nat} (hden : 0 < den) :
    |(roundHalfEven num den : ℚ) - num / den| ≤ 1 / 2 ∧
      (|(roundHalfEven num den : ℚ) - num / den| = 1 / 2 → roundHalfEven num den % 2 = 0) := by
  have hden' : (0 : ℚ) < den := by exact_mod_cast hden
  have hquotient : (num / den : ℚ) = (num / den : Nat) + (num % den : Nat) / den := by
    have hsum : (den : ℚ) * (num / den : Nat) + (num % den : Nat) = num := by
      exact_mod_cast Nat.div_add_mod num den
    rw [← hsum]
    field_simp
  have hhalf : ((num % den : Nat) / den : ℚ) = 1 / 2 ↔ 2 * (num % den) = den := by
    rw [div_eq_div_iff hden'.ne' two_ne_zero, one_mul, mul_comm]
    exact_mod_cast Iff.rfl
  rw [hquotient, roundHalfEven]
  split_ifs with hdown
  · have hle : ((num % den : Nat) / den : ℚ) ≤ 1 / 2 := by
      rw [div_le_div_iff₀ hden' two_pos, one_mul, mul_comm]
      exact_mod_cast hdown.elim le_of_lt fun htie => htie.1.le
    rw [sub_add_cancel_left, abs_neg, abs_of_nonneg (by positivity), hhalf]
    exact ⟨hle, fun htie => by omega⟩
  · have hge : 1 / 2 ≤ ((num % den : Nat) / den : ℚ) := by
      rw [div_le_div_iff₀ two_pos hden', one_mul, mul_comm _ (2 : ℚ)]
      exact_mod_cast not_lt.1 fun hlt => hdown (.inl hlt)
    have hle : ((num % den : Nat) / den : ℚ) ≤ 1 := by
      rw [div_le_one hden']
      exact_mod_cast (Nat.mod_lt _ hden).le
    rw [Nat.cast_add_one, add_sub_add_left_eq_sub, abs_of_nonneg (sub_nonneg.2 hle)]
    refine ⟨by linarith, fun htie => ?_⟩
    have := hhalf.1 (by linarith)
    omega

/-- A natural number that is at most one half away from a rational is as near to it as any other,
    and another one is as near only if both are one half away. -/
theorem near_of_half {k : Nat} {t : ℚ} (hhalf : |(k : ℚ) - t| ≤ 1 / 2) (m : Nat) :
    |(k : ℚ) - t| ≤ |(m : ℚ) - t| ∧
      (|(m : ℚ) - t| = |(k : ℚ) - t| → m ≠ k → |(k : ℚ) - t| = 1 / 2) := by
  by_cases hm : m = k
  · rw [hm]
    exact ⟨le_rfl, fun _ hne => absurd rfl hne⟩
  · have hapart : (1 : ℚ) ≤ |(m : ℚ) - k| := by
      have hint : (1 : ℤ) ≤ |(m : ℤ) - k| := Int.one_le_abs (by omega)
      exact_mod_cast hint
    have htriangle := abs_sub_le (m : ℚ) t k
    rw [abs_sub_comm t] at htriangle
    exact ⟨by linarith, fun heq _ => by linarith⟩

namespace Binary64

/-- The bits of a number but for its sign, as a natural number. -/
def rest (x : Binary64) : Nat := x.exponentField * twoTo 52 + x.fractionField

variable {x y : Binary64} {negative : Bool} {n : Nat}

section Fields

/-- A number is put together from its sign bit and the other 63 bits. -/
private theorem bits_ofSignAndRest (hn : n < twoTo 63) :
    (ofSignAndRest negative n).bits.toNat = (if negative then twoTo 63 else 0) + n := by
  rw [ofSignAndRest, UInt64.toNat_ofNat_of_lt']
  change _ < 2 ^ 64
  rw [twoTo_eq] at hn ⊢
  split_ifs <;> omega

theorem isNegative_ofSignAndRest (hn : n < twoTo 63) :
    (ofSignAndRest negative n).isNegative = negative := by
  rw [isNegative, bits_ofSignAndRest hn, Bool.eq_iff_iff, decide_eq_true_iff]
  cases negative
  · simpa using hn
  · simp

/-- The bits that a number is put together from are read off it again. -/
theorem rest_ofSignAndRest (hn : n < twoTo 63) : (ofSignAndRest negative n).rest = n := by
  rw [rest, exponentField, fractionField, bits_ofSignAndRest hn]
  simp only [twoTo_eq] at hn ⊢
  split_ifs <;> omega

theorem rest_lt (x : Binary64) : x.rest < twoTo 63 := by
  have hfield := x.exponentField_lt
  have hfraction := x.fractionField_lt
  rw [rest]
  simp only [twoTo_eq] at hfraction ⊢
  omega

theorem exponentField_eq (x : Binary64) : x.exponentField = x.rest / twoTo 52 := by
  have hfraction := x.fractionField_lt
  rw [rest, twoTo_eq]
  rw [twoTo_eq] at hfraction
  omega

theorem fractionField_eq (x : Binary64) : x.fractionField = x.rest % twoTo 52 := by
  have hfraction := x.fractionField_lt
  rw [rest, twoTo_eq]
  rw [twoTo_eq] at hfraction
  omega

/-- The numbers that are not NaN are those up to the infinities. -/
theorem isNaN_eq_false_iff : x.isNaN = false ↔ x.rest ≤ 2047 * twoTo 52 := by
  have hrest := x.rest_lt
  rw [twoTo_eq] at hrest
  rw [isNaN, isFinite, exponentField_eq, fractionField_eq, twoTo_eq]
  simp only [Bool.and_eq_false_iff, Bool.not_eq_false', bne_iff_ne, bne_eq_false_iff_eq]
  omega

/-- A significand is even if the last bit of the number is zero. -/
theorem significand_mod_two (x : Binary64) : x.significand % 2 = x.rest % 2 := by
  rw [significand, exponentField_eq, fractionField_eq, twoTo_eq]
  split_ifs <;> omega

/-- The units in which the magnitudes of numbers are counted, each twice the one before. -/
def unitSize (unit : Nat) : ℚ := 2 ^ ((unit : ℤ) - 1074)

theorem unitSize_pos (unit : Nat) : 0 < unitSize unit := zpow_pos two_pos _

/-- A unit that is further up by some places is larger by that power of two. -/
theorem unitSize_add (unit n : Nat) : unitSize (unit + n) = unitSize unit * 2 ^ n := by
  rw [unitSize, unitSize, ← zpow_natCast, ← zpow_add₀ two_ne_zero]
  congr 1
  push_cast
  ring

/-- The magnitude that bits stand for: each unit but the first has the numbers whose significands
    have all their digits. -/
def magnitudeOfRest (n : Nat) : ℚ :=
  (n - (n / twoTo 52 - 1) * twoTo 52 : Nat) * unitSize (n / twoTo 52 - 1)

/-- Bits are a unit and a number of units. The first number of the next unit is also a number of
    this one. -/
theorem magnitudeOfRest_eq {unit k : Nat} (hk : k ≤ twoTo 53) (hunit : unit = 0 ∨ twoTo 52 ≤ k) :
    magnitudeOfRest (unit * twoTo 52 + k) = k * unitSize unit := by
  rw [twoTo_eq] at hk hunit
  rw [magnitudeOfRest, twoTo_eq]
  obtain hlt | rfl := hk.lt_or_eq
  · have hsame : (unit * 2 ^ 52 + k) / 2 ^ 52 - 1 = unit := by omega
    rw [hsame, Nat.add_sub_cancel_left]
  · have hnext : (unit * 2 ^ 52 + 2 ^ 53) / 2 ^ 52 - 1 = unit + 1 := by omega
    have hdigits : unit * 2 ^ 52 + 2 ^ 53 - (unit + 1) * 2 ^ 52 = 2 ^ 52 := by omega
    rw [hnext, hdigits, unitSize_add]
    push_cast
    ring

/-- The magnitude of a number depends on the bits other than the sign alone. -/
theorem magnitude_eq_ofRest (x : Binary64) : x.magnitude = magnitudeOfRest x.rest := by
  have hfield := x.exponentField_eq
  have hfraction := x.fractionField_eq
  rw [twoTo_eq] at hfield hfraction
  rw [magnitude_eq, significand, exponent, magnitudeOfRest, unitSize, twoTo_eq]
  have hsignificand : (if x.exponentField = 0 then x.fractionField else 2 ^ 52 + x.fractionField) =
      x.rest - (x.rest / 2 ^ 52 - 1) * 2 ^ 52 := by
    split_ifs <;> omega
  have hexponent : ((max x.exponentField 1 : Nat) : ℤ) - 1075 =
      ((x.rest / 2 ^ 52 - 1 : Nat) : ℤ) - 1074 := by
    omega
  rw [hsignificand, hexponent]

/-- All bits are a unit and less than twice the digits of a significand. -/
theorem exists_unit (n : Nat) :
    ∃ unit k, n = unit * twoTo 52 + k ∧ k < twoTo 53 ∧ (unit = 0 ∨ twoTo 52 ≤ k) := by
  simp only [twoTo_eq]
  by_cases hfirst : n < 2 ^ 52
  · exact ⟨0, n, by omega, by omega, .inl rfl⟩
  · exact ⟨n / 2 ^ 52 - 1, n % 2 ^ 52 + 2 ^ 52, by omega, by omega, .inr (by omega)⟩

/-- Magnitudes grow with the bits. -/
theorem magnitudeOfRest_strictMono : StrictMono magnitudeOfRest := by
  apply strictMono_nat_of_lt_succ
  intro n
  obtain ⟨unit, k, rfl, hk, hunit⟩ := exists_unit n
  rw [add_assoc, magnitudeOfRest_eq hk.le hunit,
    magnitudeOfRest_eq hk (hunit.imp_right Nat.le_succ_of_le)]
  have hpos := unitSize_pos unit
  gcongr
  exact k.lt_succ_self

/-- The infinities count as the first magnitude that no finite number has. -/
theorem magnitudeOfRest_infinity : magnitudeOfRest (2047 * twoTo 52) = 2 ^ 52 * unitSize 2046 := by
  have hsum : 2047 * twoTo 52 = 2046 * twoTo 52 + twoTo 52 := by decide
  rw [hsum, magnitudeOfRest_eq (by decide) (.inr le_rfl), cast_twoTo]

end Fields

section Nearest

variable {num den unit k : Nat} {r : ℚ}

/-- The units nearest to a rational, counted in the unit in which it has as many digits as a
    significand, or else in the least one. -/
structure Digits (r : ℚ) (unit k : Nat) : Prop where
  le : k ≤ twoTo 53
  normal : unit = 0 ∨ twoTo 52 ≤ k ∧ 2 ^ 52 * unitSize unit ≤ r
  near : |k - r / unitSize unit| ≤ 1 / 2
  tie : |k - r / unitSize unit| = 1 / 2 → k % 2 = 0

/-- The unit of a fraction is found by its logarithm. -/
theorem digits_of_floorLog2 (hnum : 0 < num) (hden : 0 < den) {power : ℤ}
    (hpower : power = max (floorLog2 num den - 52) (-1074)) (hunit : power = (unit : ℤ) - 1074) :
    Digits (num / den) unit
      (roundHalfEven (num * twoTo (-power).toNat) (den * twoTo power.toNat)) := by
  obtain ⟨hlower, hupper⟩ := floorLog2_spec hnum hden
  have hden' : (0 : ℚ) < den := by exact_mod_cast hden
  have hpos := unitSize_pos unit
  have hsize : (2 : ℚ) ^ power = unitSize unit := by rw [hunit, unitSize]
  have hquotient : ((num * twoTo (-power).toNat : Nat) / (den * twoTo power.toNat : Nat) : ℚ) =
      num / den / unitSize unit := by
    rw [← hsize, zpow_two_eq]
    push_cast
    field_simp
  obtain ⟨hnear, htie⟩ :=
    roundHalfEven_spec (num * twoTo (-power).toNat) (Nat.mul_pos hden (twoTo_pos power.toNat))
  rw [hquotient] at hnear htie
  set k := roundHalfEven (num * twoTo (-power).toNat) (den * twoTo power.toNat)
  obtain ⟨hbelow, habove⟩ := abs_le.1 hnear
  refine ⟨?_, ?_, hnear, htie⟩
  · have hlt : (num / den : ℚ) / unitSize unit < 2 ^ 53 := by
      rw [div_lt_iff₀ hpos, ← hsize, ← zpow_natCast, ← zpow_add₀ two_ne_zero]
      refine hupper.trans_le (zpow_le_zpow_right₀ one_le_two ?_)
      omega
    have hk : (k : ℚ) < (twoTo 53 + 1 : Nat) := by
      rw [Nat.cast_add_one, cast_twoTo]
      linarith
    exact Nat.lt_succ_iff.1 (by exact_mod_cast hk)
  · obtain hleast | hlog : unit = 0 ∨ floorLog2 num den = 52 + power := by omega
    · exact .inl hleast
    · have hge : 2 ^ 52 * unitSize unit ≤ (num / den : ℚ) := by
        rw [← hsize, ← zpow_natCast, ← zpow_add₀ two_ne_zero]
        rwa [hlog] at hlower
      have hge' : 2 ^ 52 ≤ (num / den : ℚ) / unitSize unit := (le_div_iff₀ hpos).2 hge
      have hk : (twoTo 52 : ℚ) < (k + 1 : Nat) := by
        rw [Nat.cast_add_one, cast_twoTo]
        linarith
      exact .inr ⟨Nat.lt_succ_iff.1 (by exact_mod_cast hk), hge⟩

/-- Rounding puts the nearest units together with the sign. What is too large becomes an
    infinity. -/
theorem exists_digits (negative : Bool) (hnum : 0 < num) (hden : 0 < den) :
    ∃ unit k, Digits (num / den) unit k ∧ ofRatio negative num den =
      ofSignAndRest negative (min (unit * twoTo 52 + k) (2047 * twoTo 52)) := by
  obtain ⟨unit, hunit⟩ : ∃ unit : Nat, max (floorLog2 num den - 52) (-1074) = (unit : ℤ) - 1074 :=
    ⟨(max (floorLog2 num den - 52) (-1074) + 1074).toNat, by omega⟩
  refine ⟨unit, _, digits_of_floorLog2 hnum hden rfl hunit, ?_⟩
  have hcount : (max (floorLog2 num den - 52) (-1074) + 1074).toNat = unit := by omega
  simp only [ofRatio, if_neg hnum.ne', hcount]

/-- No magnitude is nearer to a rational than its nearest units. -/
theorem Digits.near_magnitudeOfRest (hdigits : Digits r unit k) (n : Nat) :
    |k * unitSize unit - r| ≤ |magnitudeOfRest n - r| ∧
      (|magnitudeOfRest n - r| = |k * unitSize unit - r| → magnitudeOfRest n ≠ k * unitSize unit →
        k % 2 = 0) := by
  have hpos := unitSize_pos unit
  have hscale : ∀ m : Nat, |m * unitSize unit - r| = |m - r / unitSize unit| * unitSize unit := by
    intro m
    rw [← abs_of_pos hpos, ← abs_mul, abs_of_pos hpos, sub_mul, div_mul_cancel₀ _ hpos.ne']
  obtain ⟨unit', m, rfl, hm, hunit'⟩ := exists_unit n
  rw [magnitudeOfRest_eq hm.le hunit']
  rcases le_or_gt unit unit' with hle | hlt
  · obtain ⟨d, rfl⟩ := Nat.exists_eq_add_of_le hle
    have hmultiple : (m : ℚ) * unitSize (unit + d) = (m * 2 ^ d : Nat) * unitSize unit := by
      rw [unitSize_add]
      push_cast
      ring
    obtain ⟨hnear, htie⟩ := near_of_half hdigits.near (m * 2 ^ d)
    rw [hmultiple, hscale, hscale]
    refine ⟨by gcongr, fun heq hne => hdigits.tie (htie ?_ ?_)⟩
    · exact mul_right_cancel₀ hpos.ne' heq
    · rintro rfl
      exact hne rfl
  · -- a number of a lesser unit lies below all numbers of this one
    obtain rfl | ⟨hk, hr⟩ := hdigits.normal
    · exact absurd hlt (Nat.not_lt_zero _)
    · obtain ⟨hnear, -⟩ := near_of_half hdigits.near (twoTo 52)
      have hbelow : magnitudeOfRest (unit' * twoTo 52 + m) < 2 ^ 52 * unitSize unit := by
        have hrest : unit' * twoTo 52 + m < unit * twoTo 52 + twoTo 52 := by
          rw [twoTo_eq] at hm ⊢
          omega
        have hfirst := magnitudeOfRest_strictMono hrest
        rwa [magnitudeOfRest_eq (by decide) (.inr le_rfl), cast_twoTo] at hfirst
      rw [magnitudeOfRest_eq hm.le hunit'] at hbelow
      have hfloor : |k * unitSize unit - r| ≤ r - 2 ^ 52 * unitSize unit := by
        calc |k * unitSize unit - r| = |k - r / unitSize unit| * unitSize unit := hscale k
          _ ≤ |(twoTo 52 : Nat) - r / unitSize unit| * unitSize unit := by gcongr
          _ = |(twoTo 52 : Nat) * unitSize unit - r| := (hscale (twoTo 52)).symm
          _ = r - 2 ^ 52 * unitSize unit := by
            rw [cast_twoTo, abs_sub_comm, abs_of_nonneg (sub_nonneg.2 hr)]
      have hfar : r - m * unitSize unit' = |m * unitSize unit' - r| := by
        rw [abs_sub_comm, abs_of_pos (by linarith)]
      exact ⟨by linarith, fun heq => by linarith⟩

/-- The bits of a rounded fraction stand for its nearest units, or for an infinity, which is then
    below the fraction. -/
theorem Digits.near_rest (hdigits : Digits r unit k) {n : Nat} (hn : n ≤ 2047 * twoTo 52) :
    |magnitudeOfRest (min (unit * twoTo 52 + k) (2047 * twoTo 52)) - r| ≤ |magnitudeOfRest n - r| ∧
      (|magnitudeOfRest n - r| =
          |magnitudeOfRest (min (unit * twoTo 52 + k) (2047 * twoTo 52)) - r| →
        magnitudeOfRest n ≠ magnitudeOfRest (min (unit * twoTo 52 + k) (2047 * twoTo 52)) →
        min (unit * twoTo 52 + k) (2047 * twoTo 52) % 2 = 0) := by
  rcases le_or_gt (unit * twoTo 52 + k) (2047 * twoTo 52) with hle | hlt
  · rw [min_eq_left hle, magnitudeOfRest_eq hdigits.le (hdigits.normal.imp_right And.left)]
    obtain ⟨hnear, htie⟩ := hdigits.near_magnitudeOfRest n
    refine ⟨hnear, fun heq hne => ?_⟩
    have := htie heq hne
    rw [twoTo_eq]
    omega
  · rw [min_eq_right hlt.le]
    have hlarge : 2046 ≤ unit ∧ unit ≠ 0 := by
      have hle := hdigits.le
      rw [twoTo_eq] at hle hlt
      omega
    obtain ⟨-, hr⟩ := hdigits.normal.resolve_left hlarge.2
    have hinfinity : magnitudeOfRest (2047 * twoTo 52) ≤ r := by
      have hmono : unitSize 2046 ≤ unitSize unit := by
        obtain ⟨d, rfl⟩ := Nat.exists_eq_add_of_le hlarge.1
        rw [unitSize_add]
        exact le_mul_of_one_le_right (unitSize_pos _).le (one_le_pow₀ one_le_two)
      rw [magnitudeOfRest_infinity]
      linarith
    have hbelow := magnitudeOfRest_strictMono.monotone hn
    rw [abs_sub_comm, abs_of_nonneg (by linarith), abs_sub_comm, abs_of_nonneg (by linarith)]
    exact ⟨by linarith, fun _ _ => by decide⟩

end Nearest

/-- A floating-point number is nearest to a rational. No other is nearer, and one that is as near
    leaves it an even significand. It has the sign of the rational, zero being positive. An infinity
    counts as the first power of two that no finite number reaches. -/
structure IsNearest (x : Binary64) (q : ℚ) : Prop where
  number : x.isNaN = false
  near : ∀ y : Binary64, y.isNaN = false → |x.toRat - q| ≤ |y.toRat - q|
  even : ∀ y : Binary64, y.isNaN = false → |y.toRat - q| = |x.toRat - q| → y.toRat ≠ x.toRat →
    x.significand % 2 = 0
  sign : x.isNegative = true ↔ q < 0

section Sign

variable {q r : ℚ}

/-- The distance to a rational of the same sign is that of the magnitudes. -/
theorem abs_toRat_sub (hsign : x.isNegative = true ↔ q < 0) (hr : |q| = r) :
    |x.toRat - q| = |x.magnitude - r| := by
  rw [toRat, ← hr]
  split_ifs with hnegative
  · rw [abs_of_neg (hsign.1 hnegative), ← abs_neg]
    congr 1
    ring
  · rw [abs_of_nonneg (not_lt.1 (mt hsign.2 hnegative))]

/-- To be nearest to a rational is to have its sign and the bits of the nearest magnitude. -/
theorem isNearest_of_rest (hnumber : x.isNaN = false) (hsign : x.isNegative = true ↔ q < 0)
    (hr : |q| = r) (hq : q ≠ 0)
    (hnear : ∀ n ≤ 2047 * twoTo 52,
      |magnitudeOfRest x.rest - r| ≤ |magnitudeOfRest n - r| ∧
        (|magnitudeOfRest n - r| = |magnitudeOfRest x.rest - r| →
          magnitudeOfRest n ≠ magnitudeOfRest x.rest → x.rest % 2 = 0)) : x.IsNearest q := by
  have hx := abs_toRat_sub hsign hr
  have hreverse : ∀ y : Binary64, |y.magnitude - r| ≤ |y.toRat - q| := by
    intro y
    rw [← abs_toRat, ← hr]
    exact abs_abs_sub_abs_le _ _
  simp only [← magnitude_eq_ofRest] at hnear
  refine ⟨hnumber, fun y hy => ?_, fun y hy heq hne => ?_, hsign⟩
  · have hle := (hnear y.rest (isNaN_eq_false_iff.1 hy)).1
    rw [← magnitude_eq_ofRest] at hle
    exact hx.trans_le (hle.trans (hreverse y))
  · obtain ⟨hle, htie⟩ := hnear y.rest (isNaN_eq_false_iff.1 hy)
    rw [← magnitude_eq_ofRest] at hle htie
    rw [significand_mod_two]
    refine htie (le_antisymm ?_ hle) fun hmagnitude => ?_
    · rw [← hx, ← heq]
      exact hreverse y
    · -- of one magnitude and two signs, both numbers would have to be zero
      rw [← abs_toRat, ← abs_toRat] at hmagnitude
      have hopposite := (abs_eq_abs.1 hmagnitude).resolve_left hne
      rw [hopposite, abs_eq_abs] at heq
      obtain heq | heq := heq
      · exact hne (by linarith)
      · exact hq (by linarith)

end Sign

/-- A rounded fraction is the number nearest to it. -/
theorem isNearest_ofRatio (negative : Bool) {num den : Nat} (hnum : 0 < num) (hden : 0 < den) :
    (ofRatio negative num den).IsNearest (if negative then -(num / den) else num / den) := by
  obtain ⟨unit, k, hdigits, hbits⟩ := exists_digits negative hnum hden
  have hpos : (0 : ℚ) < num / den := by
    have hnum' : (0 : ℚ) < num := by exact_mod_cast hnum
    have hden' : (0 : ℚ) < den := by exact_mod_cast hden
    positivity
  have habs : |if negative = true then -(num / den : ℚ) else num / den| = num / den := by
    split_ifs
    · rw [abs_neg, abs_of_pos hpos]
    · rw [abs_of_pos hpos]
  have hle : min (unit * twoTo 52 + k) (2047 * twoTo 52) ≤ 2047 * twoTo 52 := min_le_right _ _
  have hlt : min (unit * twoTo 52 + k) (2047 * twoTo 52) < twoTo 63 := hle.trans_lt (by decide)
  rw [hbits]
  apply isNearest_of_rest
  · rw [isNaN_eq_false_iff, rest_ofSignAndRest hlt]
    exact hle
  · rw [isNegative_ofSignAndRest hlt]
    cases negative
    · simpa using hpos.le
    · simpa using hpos
  · exact habs
  · rw [← abs_pos, habs]
    exact hpos
  · intro n hn
    rw [rest_ofSignAndRest hlt]
    exact hdigits.near_rest hn

/-- An integer is rounded to the number nearest to it. -/
theorem isNearest_ofInt (n : ℤ) : (ofInt n).IsNearest n := by
  by_cases hn : n = 0
  · subst hn
    have hzero : (ofInt 0).toRat = 0 := by
      rw [← abs_eq_zero, abs_toRat]
      exact isZero_iff_magnitude.1 rfl
    refine ⟨rfl, fun y _ => ?_, fun _ _ _ _ => rfl, ?_⟩
    · rw [hzero, Int.cast_zero, sub_self, abs_zero]
      exact abs_nonneg _
    · rw [Int.cast_zero]
      exact iff_of_false (by decide) (lt_irrefl 0)
  · have hnearest := isNearest_ofRatio (decide (n < 0)) (Int.natAbs_pos.2 hn) one_pos
    have hvalue : (if decide (n < 0) = true then -((n.natAbs : ℚ) / (1 : Nat))
        else (n.natAbs : ℚ) / (1 : Nat)) = n := by
      rw [Nat.cast_one, div_one, Nat.cast_natAbs, Int.cast_abs]
      split_ifs with hneg
      · rw [abs_of_neg (by exact_mod_cast of_decide_eq_true hneg), neg_neg]
      · rw [abs_of_nonneg (by exact_mod_cast not_lt.1 (mt decide_eq_true hneg))]
    rwa [hvalue] at hnearest

/-- What lies between two rationals is nearer to their middle than they are. -/
private theorem abs_sub_lt_of_between {a b c q : ℚ} (hmiddle : |a - q| = |c - q|)
    (hbetween : a < b ∧ b < c ∨ c < b ∧ b < a) : |b - q| < |a - q| := by
  have hsum : a - q = -(c - q) := by
    refine (abs_eq_abs.1 hmiddle).resolve_left fun heq => ?_
    obtain ⟨hab, hbc⟩ | ⟨hcb, hba⟩ := hbetween <;> linarith
  obtain ⟨hab, hbc⟩ | ⟨hcb, hba⟩ := hbetween
  · rw [abs_of_neg (show a - q < 0 by linarith), abs_lt]
    constructor <;> linarith
  · rw [abs_of_pos (show 0 < a - q by linarith), abs_lt]
    constructor <;> linarith

/-- Of two numbers nearest to a rational neither has lesser bits. They would have even significands,
    and a number between them would be nearer. -/
private theorem IsNearest.rest_le {q : ℚ} (hx : x.IsNearest q) (hy : y.IsNearest q) :
    y.rest ≤ x.rest := by
  by_contra hlt
  rw [not_le] at hlt
  have hsign : y.isNegative = x.isNegative := by
    rw [Bool.eq_iff_iff, hx.sign, hy.sign]
  have hdistance := le_antisymm (hx.near y hy.number) (hy.near x hx.number)
  have hapart : y.toRat ≠ x.toRat := by
    have hmagnitude := magnitudeOfRest_strictMono hlt
    rw [← magnitude_eq_ofRest, ← magnitude_eq_ofRest] at hmagnitude
    intro heq
    rw [← abs_toRat, ← abs_toRat, heq] at hmagnitude
    exact lt_irrefl _ hmagnitude
  have hxEven := hx.even y hy.number hdistance.symm hapart
  have hyEven := hy.even x hx.number hdistance hapart.symm
  rw [significand_mod_two] at hxEven hyEven
  have hroom : x.rest + 1 < y.rest := by omega
  have hbound := isNaN_eq_false_iff.1 hy.number
  have hbits : x.rest + 1 < twoTo 63 := hroom.trans_le (hbound.trans (by decide))
  set z := ofSignAndRest x.isNegative (x.rest + 1) with hz
  have hrest : z.rest = x.rest + 1 := rest_ofSignAndRest hbits
  have hnumber : z.isNaN = false := by
    rw [isNaN_eq_false_iff, hrest]
    omega
  have hxz : x.magnitude < z.magnitude := by
    rw [magnitude_eq_ofRest, magnitude_eq_ofRest, hrest]
    exact magnitudeOfRest_strictMono x.rest.lt_succ_self
  have hzy : z.magnitude < y.magnitude := by
    rw [magnitude_eq_ofRest, magnitude_eq_ofRest, hrest]
    exact magnitudeOfRest_strictMono hroom
  have hbetween : x.toRat < z.toRat ∧ z.toRat < y.toRat ∨
      y.toRat < z.toRat ∧ z.toRat < x.toRat := by
    rw [toRat, toRat, toRat, hsign, hz, isNegative_ofSignAndRest hbits, ← hz]
    split_ifs
    · exact .inr ⟨neg_lt_neg hzy, neg_lt_neg hxz⟩
    · exact .inl ⟨hxz, hzy⟩
  exact (hx.near z hnumber).not_gt (abs_sub_lt_of_between hdistance hbetween)

/-- A rational has one nearest number. -/
theorem IsNearest.unique {q : ℚ} (hx : x.IsNearest q) (hy : y.IsNearest q) : x = y := by
  have hrest := le_antisymm (hy.rest_le hx) (hx.rest_le hy)
  have hsign : x.isNegative = y.isNegative := by
    rw [Bool.eq_iff_iff, hx.sign, hy.sign]
  rw [← x.ofSignAndRest_fields, ← y.ofSignAndRest_fields, hsign]
  exact congrArg (ofSignAndRest y.isNegative) hrest

/-- A rational that some number equals is its own nearest one. -/
theorem IsNearest.toRat_eq {q : ℚ} (hx : x.IsNearest q) (hy : y.isNaN = false) (hyq : y.toRat = q) :
    x.toRat = q := by
  have hnear := hx.near y hy
  rw [hyq, sub_self, abs_zero] at hnear
  exact sub_eq_zero.1 (abs_eq_zero.1 (le_antisymm hnear (abs_nonneg _)))

end Binary64

end CommandBlocks
