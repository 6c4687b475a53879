import CommandBlocks.Binary64

namespace CommandBlocks

/-- The decimal `coefficient * 10 ^ exponent`. -/
structure Decimal where
  coefficient : Nat
  exponent : Int
  deriving DecidableEq, Repr

/-- The powers of ten. -/
def tenTo (k : Nat) : Nat := Nat.pow 10 k

/-- The number of decimal digits of a natural number, none for zero. -/
def digitCount (n : Nat) : Nat := if n = 0 then 0 else (Nat.toDigits 10 n).length

namespace Decimal

/-- The floating-point number nearest to a decimal, with the given sign. A decimal of 310 digits or
    more before the point is beyond all finite numbers, and one that starts 330 places behind the
    point is nearest to zero, so neither needs its power of ten. -/
def toBinary64 (negative : Bool) (d : Decimal) : Binary64 :=
  let lead : Int := (digitCount d.coefficient : Int) + d.exponent
  if d.coefficient = 0 ∨ lead < -330 then .zero negative
  else if 310 < lead then .infinity negative
  else .ofRatio negative (d.coefficient * tenTo d.exponent.toNat) (tenTo (-d.exponent).toNat)

/-- The exponent of ten of the first digit. -/
def leadExponent (d : Decimal) : Int := (digitCount d.coefficient : Int) + d.exponent - 1

/-- The greatest `k` with `10 ^ k ≤ num / den`, for positive `num` and `den`. -/
def floorLog10 (num den : Nat) : Int :=
  if den ≤ num then (digitCount (num / den) : Int) - 1 else -(digitCount ((den - 1) / num) : Int)

/-- Which of two equally near decimals is taken. -/
inductive Tie where
  | toEven
  | awayFromZero

/-- The decimal nearest to `num / den` of those with the given exponent that read back as `x`. Only
    the two neighbours of `num / den` have to be tried, since the decimals that read back as a
    number lie around it without gaps. -/
def nearestReadingBack (x : Binary64) (tie : Tie) (num den : Nat) (exponent : Int) :
    Option Decimal :=
  let top := num * tenTo (-exponent).toNat
  let bottom := den * tenTo exponent.toNat
  let below : Decimal := ⟨top / bottom, exponent⟩
  let above : Decimal := ⟨top / bottom + 1, exponent⟩
  let twice := 2 * (top % bottom)
  match below.toBinary64 x.isNegative == x, above.toBinary64 x.isNegative == x with
  | false, false => none
  | true, false => some below
  | false, true => some above
  | true, true =>
    if twice < bottom then some below
    else if bottom < twice then some above
    else match tie with
      | .toEven => some (if below.coefficient % 2 = 0 then below else above)
      | .awayFromZero => some above

/-- The decimal without the zeros at the end of its coefficient, looking at most `count` of them. -/
def dropZeros : Nat → Decimal → Decimal
  | 0, d => d
  | count + 1, d =>
    if d.coefficient ≠ 0 ∧ d.coefficient % 10 = 0 then
      dropZeros count ⟨d.coefficient / 10, d.exponent + 1⟩
    else d

/-- The decimal of the fewest digits that reads back as a finite number, and of those the nearest to
    it. Seventeen digits are always enough. -/
def shortest (x : Binary64) (tie : Tie) : Decimal :=
  let lead := floorLog10 x.magnitudeNum x.magnitudeDen
  let tried := (List.range 17).findSome? fun (more : Nat) =>
    nearestReadingBack x tie x.magnitudeNum x.magnitudeDen (lead - more)
  dropZeros 17 (tried.getD ⟨0, 0⟩)

end Decimal

end CommandBlocks
