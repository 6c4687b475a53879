import CommandBlocks.Decimal

namespace CommandBlocks.Decimal

/-- A run of decimal digits and what follows it. -/
def digitRun (cs : List Char) : List Char × List Char := cs.span (·.isDigit)

private def signAndRest : List Char → Bool × List Char
  | '+' :: rest => (false, rest)
  | '-' :: rest => (true, rest)
  | cs => (false, cs)

/-- The exponent behind a coefficient: nothing at all is zero, and a mark needs digits. -/
def exponentOf? : List Char → Option Int
  | [] => some 0
  | mark :: rest =>
    if mark = 'e' ∨ mark = 'E' then
      let (negative, rest) := signAndRest rest
      match digitRun rest with
      | (digits@(_ :: _), []) =>
        let magnitude : Int := Nat.ofDigitChars 10 digits 0
        some (if negative then -magnitude else magnitude)
      | _ => none
    else none

/-- The decimal of an unsigned text, which has a digit before or after its point. -/
def ofText? (cs : List Char) : Option Decimal :=
  let (whole, rest) := digitRun cs
  let (fraction, rest) := match rest with
    | '.' :: rest => digitRun rest
    | _ => ([], rest)
  if whole.isEmpty ∧ fraction.isEmpty then none
  else (exponentOf? rest).map fun exponent =>
    ⟨Nat.ofDigitChars 10 (whole ++ fraction) 0, exponent - fraction.length⟩

/-- The number that a text without surrounding blanks denotes, correctly rounded: a decimal, or the
    name of an infinity or of NaN in any case, each after an optional sign. -/
def readNumber? (text : List Char) : Option Binary64 :=
  let (negative, cs) := signAndRest text
  let name := cs.map Char.toLower
  if name = "inf".toList ∨ name = "infinity".toList then some (.infinity negative)
  else if name = "nan".toList then some .nan
  else (ofText? cs).map (toBinary64 negative)

section Digits

variable {digits : List Char}

/-- All of a text of digits belongs to its first run of digits. -/
theorem digitRun_digits (hdigits : ∀ c ∈ digits, c.isDigit = true) :
    digitRun digits = (digits, []) := by
  -- the run is gathered in reverse
  have hloop : ∀ (cs gathered : List Char), (∀ c ∈ cs, c.isDigit = true) →
      List.span.loop (fun c : Char => c.isDigit) cs gathered = (gathered.reverse ++ cs, []) := by
    intro cs
    induction cs with
    | nil => exact fun gathered _ => congrArg (·, []) (List.append_nil gathered.reverse).symm
    | cons c cs ih =>
      intro gathered hcs
      obtain ⟨hc, hcs⟩ := List.forall_mem_cons.1 hcs
      have hstep : List.span.loop (fun c : Char => c.isDigit) (c :: cs) gathered =
          List.span.loop (fun c : Char => c.isDigit) cs (c :: gathered) := by
        change (match c.isDigit with
          | true => List.span.loop (fun c : Char => c.isDigit) cs (c :: gathered)
          | false => (gathered.reverse, c :: cs)) = _
        rw [hc]
      rw [hstep, ih (c :: gathered) hcs, List.reverse_cons, List.append_assoc]
      rfl
  exact hloop digits [] hdigits

/-- A text of digits alone is the decimal that they spell. -/
theorem ofText?_digits (hne : digits ≠ []) (hdigits : ∀ c ∈ digits, c.isDigit = true) :
    ofText? digits = some ⟨Nat.ofDigitChars 10 digits 0, 0⟩ := by
  simp [ofText?, digitRun_digits hdigits, hne, exponentOf?]

/-- Digits are no name of a number that is not finite. -/
private theorem map_toLower_ne (hdigits : ∀ c ∈ digits, c.isDigit = true) {name : List Char}
    {letter : Char} (hletter : letter ∈ name) (hlower : letter.isDigit = false) :
    digits.map Char.toLower ≠ name := by
  intro heq
  rw [← heq, List.mem_map] at hletter
  obtain ⟨c, hc, rfl⟩ := hletter
  have hdigit := hdigits c hc
  have hsame : c.toLower = c := by
    simp only [Char.isDigit, Bool.and_eq_true, decide_eq_true_eq] at hdigit
    have hnot : ¬ (c.val ≥ 'A'.val ∧ c.val ≤ 'Z'.val) := by
      rintro ⟨hupper, -⟩
      exact absurd (UInt32.le_trans hupper hdigit.2) (by decide)
    unfold Char.toLower
    exact dif_neg hnot
  rw [hsame, hdigit] at hlower
  cases hlower

private theorem readUnsigned_digits (hne : digits ≠ [])
    (hdigits : ∀ c ∈ digits, c.isDigit = true) (negative : Bool) :
    (if digits.map Char.toLower = "inf".toList ∨ digits.map Char.toLower = "infinity".toList then
        some (.infinity negative)
      else if digits.map Char.toLower = "nan".toList then some .nan
      else (ofText? digits).map (toBinary64 negative)) =
      some (toBinary64 negative ⟨Nat.ofDigitChars 10 digits 0, 0⟩) := by
  have hinf : digits.map Char.toLower ≠ "inf".toList :=
    map_toLower_ne hdigits (show 'n' ∈ "inf".toList by decide) rfl
  have hinfinity : digits.map Char.toLower ≠ "infinity".toList :=
    map_toLower_ne hdigits (show 'n' ∈ "infinity".toList by decide) rfl
  have hnan : digits.map Char.toLower ≠ "nan".toList :=
    map_toLower_ne hdigits (show 'n' ∈ "nan".toList by decide) rfl
  rw [if_neg (not_or.2 ⟨hinf, hinfinity⟩), if_neg hnan, ofText?_digits hne hdigits]
  rfl

/-- A text of decimal digits is read as the number nearest to the integer that they spell. -/
theorem readNumber?_digits (hne : digits ≠ []) (hdigits : ∀ c ∈ digits, c.isDigit = true) :
    readNumber? digits = some (toBinary64 false ⟨Nat.ofDigitChars 10 digits 0, 0⟩) := by
  have hsign : signAndRest digits = (false, digits) := by
    unfold signAndRest
    split
    · exact absurd (hdigits '+' List.mem_cons_self) (by decide)
    · exact absurd (hdigits '-' List.mem_cons_self) (by decide)
    · rfl
  rw [readNumber?, hsign]
  exact readUnsigned_digits hne hdigits false

/-- With a minus sign before its digits, a number is read as the negative one. -/
theorem readNumber?_minus_digits (hne : digits ≠ [])
    (hdigits : ∀ c ∈ digits, c.isDigit = true) :
    readNumber? ('-' :: digits) = some (toBinary64 true ⟨Nat.ofDigitChars 10 digits 0, 0⟩) :=
  readUnsigned_digits hne hdigits true

end Digits

end CommandBlocks.Decimal
