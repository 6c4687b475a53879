namespace CommandBlocks

/-- A 64-bit floating-point number: one sign bit, eleven exponent bits, 52 fraction bits. Two
    numbers are equal when their bits are. -/
structure Binary64 where
  bits : UInt64
  deriving DecidableEq, Repr, Inhabited

/-- The powers of two. -/
def twoTo (k : Nat) : Nat := Nat.pow 2 k

/-- The natural number nearest to `num / den`; of two equally near ones the even one. -/
def roundHalfEven (num den : Nat) : Nat :=
  let whole := num / den
  let twice := 2 * (num % den)
  if twice < den ∨ (twice = den ∧ whole % 2 = 0) then whole else whole + 1

/-- The greatest `k` with `2 ^ k ≤ num / den`, for positive `num` and `den`. -/
def floorLog2 (num den : Nat) : Int :=
  let k : Int := (num.log2 : Int) - (den.log2 : Int)
  if den * twoTo k.toNat ≤ num * twoTo (-k).toNat then k else k - 1

namespace Binary64

/-- The sign bit, set also in a negative zero. -/
def isNegative (x : Binary64) : Bool := twoTo 63 ≤ x.bits.toNat

def exponentField (x : Binary64) : Nat := x.bits.toNat / twoTo 52 % 2048

def fractionField (x : Binary64) : Nat := x.bits.toNat % twoTo 52

def isFinite (x : Binary64) : Bool := x.exponentField != 2047

def isNaN (x : Binary64) : Bool := !x.isFinite && x.fractionField != 0

/-- The significand of a finite number, which is `significand * 2 ^ exponent` but for its sign. -/
def significand (x : Binary64) : Nat :=
  if x.exponentField = 0 then x.fractionField else twoTo 52 + x.fractionField

def exponent (x : Binary64) : Int := (max x.exponentField 1 : Nat) - 1075

/-- The numerator of a finite number's magnitude over `magnitudeDen`. -/
def magnitudeNum (x : Binary64) : Nat := x.significand * twoTo x.exponent.toNat

/-- The denominator of a finite number's magnitude, a power of two. -/
def magnitudeDen (x : Binary64) : Nat := twoTo (-x.exponent).toNat

def isZero (x : Binary64) : Bool := x.exponentField == 0 && x.fractionField == 0

/-- The number with a given sign and the remaining 63 bits. -/
def ofSignAndRest (negative : Bool) (rest : Nat) : Binary64 :=
  ⟨.ofNat ((if negative then twoTo 63 else 0) + rest)⟩

/-- The positive or negative infinity. -/
def infinity (negative : Bool) : Binary64 := ofSignAndRest negative (2047 * twoTo 52)

def zero (negative : Bool) : Binary64 := ofSignAndRest negative 0

def nan : Binary64 := ofSignAndRest false (2047 * twoTo 52 + twoTo 51)

/-- The number nearest to the fraction `num / den` with the given sign, for a positive `den`. A
    fraction too large for every finite number gives an infinity. The exponent and fraction fields
    are read off one sum: a significand that rounds up to the next power of two carries into the
    exponent. -/
def ofRatio (negative : Bool) (num den : Nat) : Binary64 :=
  if num = 0 then zero negative
  else
    let unit := max (floorLog2 num den - 52) (-1074)
    let quotient := roundHalfEven (num * twoTo (-unit).toNat) (den * twoTo unit.toNat)
    ofSignAndRest negative (min ((unit + 1074).toNat * twoTo 52 + quotient) (2047 * twoTo 52))

/-- The number nearest to a natural number. -/
def ofNat (n : Nat) : Binary64 := ofRatio false n 1

/-- The number nearest to an integer. -/
def ofInt (n : Int) : Binary64 := ofRatio (n < 0) n.natAbs 1

/-- The correctly rounded product of two finite numbers. -/
def mul (x y : Binary64) : Binary64 :=
  ofRatio (x.isNegative != y.isNegative) (x.magnitudeNum * y.magnitudeNum)
    (x.magnitudeDen * y.magnitudeDen)

/-- The correctly rounded quotient of two finite numbers, the second of them not zero. -/
def div (x y : Binary64) : Binary64 :=
  ofRatio (x.isNegative != y.isNegative) (x.magnitudeNum * y.magnitudeDen)
    (x.magnitudeDen * y.magnitudeNum)

/-- The number with its sign changed. -/
def neg (x : Binary64) : Binary64 := ofSignAndRest (!x.isNegative) (x.bits.toNat % twoTo 63)

/-- The integer that a number is, if it is one of magnitude below `2 ^ 63`. Both zeros are the
    integer zero. -/
def toInt? (x : Binary64) : Option Int :=
  if x.isFinite ∧ x.magnitudeNum % x.magnitudeDen = 0 ∧
      x.magnitudeNum / x.magnitudeDen < twoTo 63 then
    let magnitude : Int := (x.magnitudeNum / x.magnitudeDen : Nat)
    some (if x.isNegative then -magnitude else magnitude)
  else none

/-- Equality as numbers: the zeros are equal, and a NaN equals nothing. -/
def sameNumber (x y : Binary64) : Bool :=
  !x.isNaN && !y.isNaN && (x == y || (x.isZero && y.isZero))

end Binary64

end CommandBlocks
