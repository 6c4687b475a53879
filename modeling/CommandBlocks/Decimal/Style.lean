import CommandBlocks.Decimal

namespace CommandBlocks.Decimal

/-- How the shortest digits of a number are laid out. -/
structure Style where
  /-- Which of two equally short and equally near decimals is written. -/
  tie : Tie
  /-- Whether a number whose first digit has this exponent of ten is written without exponent. -/
  isPositional : Int → Bool
  /-- What follows a whole number that is written without exponent. -/
  wholeSuffix : String

/-- The style of messages: no exponents, and nothing behind a whole number. -/
def Style.plain : Style := ⟨.awayFromZero, fun _ => true, ""⟩

/-- The style of JSON texts: an exponent for a first digit below `10 ^ -5` or above `10 ^ 15`. -/
def Style.json : Style := ⟨.toEven, fun lead => -5 ≤ lead ∧ lead ≤ 15, ".0"⟩

/-- That many zeros in a row. -/
def zeros (n : Nat) : String := .ofList (List.replicate n '0')

/-- The digits with the point in its place, and zeros wherever the digits do not reach. -/
def positional (d : Decimal) (wholeSuffix : String) : String :=
  let digits := Nat.toDigits 10 d.coefficient
  let before : Int := (digits.length : Int) + d.exponent
  if 0 ≤ d.exponent then .ofList digits ++ zeros d.exponent.toNat ++ wholeSuffix
  else if 0 < before then
    .ofList (digits.take before.toNat) ++ "." ++ .ofList (digits.drop before.toNat)
  else "0." ++ zeros (-before).toNat ++ .ofList digits

/-- One digit before the point, and the exponent of that digit with its sign. -/
def scientific (d : Decimal) : String :=
  let lead := d.leadExponent
  let fraction := (Nat.toDigits 10 d.coefficient).drop 1
  .ofList ((Nat.toDigits 10 d.coefficient).take 1)
    ++ (if fraction.isEmpty then "" else "." ++ .ofList fraction)
    ++ (if lead < 0 then "e-" else "e+") ++ toString lead.natAbs

/-- The text of a number in a style. -/
def Style.write (style : Style) (x : Binary64) : String :=
  if x.isNaN then "NaN"
  else
    let sign := if x.isNegative then "-" else ""
    if !x.isFinite then sign ++ "inf"
    else if x.isZero then sign ++ "0" ++ style.wholeSuffix
    else
      let d := shortest x style.tie
      sign ++ if style.isPositional d.leadExponent then d.positional style.wholeSuffix
        else d.scientific

end CommandBlocks.Decimal
