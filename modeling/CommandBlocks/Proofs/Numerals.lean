import CommandBlocks.Proofs.Numbers
import CommandBlocks.Value

namespace CommandBlocks

/-- The decimal digits of an integer, behind a sign if it is negative. -/
def numeral (n : Int) : List Char :=
  (if n < 0 then ['-'] else []) ++ Nat.toDigits 10 n.natAbs

theorem toString_eq_numeral (n : Int) : toString n = String.ofList (numeral n) := by
  rw [Int.toString_eq_repr, numeral]
  cases n with
  | ofNat n =>
    have hnot : ¬ Int.ofNat n < 0 := (Int.natCast_nonneg n).not_gt
    rw [if_neg hnot, List.nil_append]
    exact Nat.repr_eq_ofList_toDigits
  | negSucc n =>
    rw [if_pos (Int.negSucc_lt_zero n), String.ofList_append]
    exact congrArg ("-" ++ ·) Nat.repr_eq_ofList_toDigits

theorem numeral_ne_nil (n : Int) : numeral n ≠ [] :=
  List.append_ne_nil_of_right_ne_nil _ Nat.toDigits_ne_nil

/-- The digits of a natural number in base ten are decimal digits. -/
theorem isDigit_of_mem_toDigits {n : Nat} {c : Char} (hc : c ∈ Nat.toDigits 10 n) :
    c.isDigit = true :=
  Nat.isDigit_of_mem_toDigits (by decide) (by decide) hc

namespace Text

theorem not_isBlank_of_isDigit {c : Char} (hdigit : c.isDigit = true) : isBlank c = false := by
  simp only [Char.isDigit, Bool.and_eq_true, decide_eq_true_eq, ge_iff_le, UInt32.le_iff_toNat_le]
    at hdigit
  have hlow : 48 ≤ c.toNat := hdigit.1
  have hhigh : c.toNat ≤ 57 := hdigit.2
  simp [isBlank]
  omega

/-- No character of a numeral is blank. -/
theorem not_isBlank_of_mem_numeral {n : Int} {c : Char} (hc : c ∈ numeral n) :
    isBlank c = false := by
  rw [numeral, List.mem_append] at hc
  obtain hsign | hdigit := hc
  · split_ifs at hsign
    · rw [List.mem_singleton.1 hsign]
      decide
    · cases hsign
  · exact not_isBlank_of_isDigit (isDigit_of_mem_toDigits hdigit)

private theorem dropWhile_isBlank_append {cs : List Char} (hne : cs ≠ [])
    (hcs : ∀ c ∈ cs, isBlank c = false) (rest : List Char) :
    (cs ++ rest).dropWhile isBlank = cs ++ rest := by
  cases cs with
  | nil => exact absurd rfl hne
  | cons c cs =>
    have hc : ¬ isBlank c = true := Bool.eq_false_iff.1 (hcs c List.mem_cons_self)
    rw [List.cons_append, List.dropWhile_cons_of_neg hc]

/-- Of a text without blanks and the blanks around it, trimming leaves the text. -/
theorem trim_append {before cs after : List Char} (hbefore : ∀ c ∈ before, isBlank c = true)
    (hne : cs ≠ []) (hcs : ∀ c ∈ cs, isBlank c = false)
    (hafter : ∀ c ∈ after, isBlank c = true) : trim (before ++ cs ++ after) = cs := by
  have hreverse : ∀ c ∈ cs.reverse, isBlank c = false :=
    fun c hc => hcs c (List.mem_reverse.1 hc)
  have hback := dropWhile_isBlank_append (mt List.reverse_eq_nil_iff.1 hne) hreverse []
  rw [List.append_nil] at hback
  rw [trim, List.append_assoc, List.dropWhile_append_of_pos hbefore,
    dropWhile_isBlank_append hne hcs, List.reverse_append,
    List.dropWhile_append_of_pos fun c hc => hafter c (List.mem_reverse.1 hc), hback,
    List.reverse_reverse]

end Text

namespace Decimal

/-- A number below a power of ten has no more digits than the power has zeros. -/
theorem digitCount_le {n k : Nat} (hk : 0 < k) (hn : n < 10 ^ k) : digitCount n ≤ k := by
  rw [digitCount]
  split_ifs
  · exact Nat.zero_le k
  · exact (Nat.length_toDigits_le_iff (by decide) hk).2 hn

/-- A natural number is read as the floating-point number nearest to it. -/
theorem toBinary64_natural {n : Nat} (hn : n < 2 ^ 63) (negative : Bool) :
    toBinary64 negative ⟨n, 0⟩ = .ofRatio negative n 1 := by
  have hcount : digitCount n ≤ 19 := digitCount_le (by decide) (hn.trans (by decide))
  rw [toBinary64]
  by_cases hzero : n = 0
  · rw [if_pos (.inl hzero), Binary64.ofRatio, if_pos hzero]
  · rw [if_neg (by simp only; omega), if_neg (by simp only; omega)]
    have hone : tenTo 0 = 1 := rfl
    simp [hone]

/-- A numeral is read as the floating-point number nearest to its integer. -/
theorem readNumber?_numeral {n : Int} (hn : |n| < 2 ^ 63) :
    readNumber? (numeral n) = some (.ofInt n) := by
  have hdigits : ∀ c ∈ Nat.toDigits 10 n.natAbs, c.isDigit = true :=
    fun c hc => isDigit_of_mem_toDigits hc
  have hsmall : n.natAbs < 2 ^ 63 := by
    rw [Int.abs_eq_natAbs] at hn
    exact_mod_cast hn
  rw [numeral, Binary64.ofInt]
  by_cases hnegative : n < 0
  · rw [if_pos hnegative, List.singleton_append,
      readNumber?_minus_digits Nat.toDigits_ne_nil hdigits, Nat.ofDigitChars_ten_toDigits,
      toBinary64_natural hsmall, decide_eq_true hnegative]
  · rw [if_neg hnegative, List.nil_append, readNumber?_digits Nat.toDigits_ne_nil hdigits,
      Nat.ofDigitChars_ten_toDigits, toBinary64_natural hsmall, decide_eq_false hnegative]

end Decimal

namespace Binary64

/-- An integer that some floating-point number is exactly is not lost in the number nearest to
    it. -/
theorem isFinite_toRat_ofInt {n : Int} (hexact : ∃ x : Binary64, x.isFinite = true ∧ x.toRat = n) :
    (ofInt n).isFinite = true ∧ (ofInt n).toRat = n := by
  obtain ⟨x, hfinite, hx⟩ := hexact
  rw [ofInt_eq hfinite hx]
  split_ifs with hzero
  · have hmagnitude := isZero_iff_magnitude.1 hzero
    have hn : (n : ℚ) = 0 := by
      rw [← hx, ← abs_eq_zero, abs_toRat, hmagnitude]
    rw [hn]
    refine ⟨rfl, ?_⟩
    rw [← abs_eq_zero, abs_toRat]
    exact isZero_iff_magnitude.1 rfl
  · exact ⟨hfinite, hx⟩

end Binary64

namespace Value

/-- A text holds the digits of an integer, and only blanks around them. -/
def Spells (s : String) (n : Int) : Prop :=
  ∃ before after, s.toList = before ++ numeral n ++ after ∧
    (∀ c ∈ before, Text.isBlank c = true) ∧ ∀ c ∈ after, Text.isBlank c = true

variable {n : Int} {s : String}

/-- A number that is an integer below `2 ^ 63` is displayed by the digits of that integer. -/
theorem display_number {x : Binary64} (hn : |n| < 2 ^ 63) (hfinite : x.isFinite = true)
    (hx : x.toRat = n) : (number x).display = String.ofList (numeral n) := by
  have hlt : |x.toRat| < 2 ^ 63 := by
    rw [hx]
    exact_mod_cast hn
  rw [display, (Binary64.toInt?_eq_some_iff hfinite).2 ⟨hx, hlt⟩]
  exact toString_eq_numeral n

/-- A text that spells an integer is read as the floating-point number nearest to it. -/
theorem number?_text (hspells : Spells s n) (hn : |n| < 2 ^ 63)
    (hfinite : (Binary64.ofInt n).isFinite = true) : (text s).number? = some (.ofInt n) := by
  obtain ⟨before, after, hs, hbefore, hafter⟩ := hspells
  have htrim : Text.trim s.toList = numeral n := by
    rw [hs]
    exact Text.trim_append hbefore (numeral_ne_nil n)
      (fun _ hc => Text.not_isBlank_of_mem_numeral hc) hafter
  simp only [number?, htrim, Decimal.readNumber?_numeral hn]
  rw [Option.filter_some, hfinite]
  rfl

theorem isUnset_text (hspells : Spells s n) : (text s).isUnset = false := by
  obtain ⟨before, after, hs, -, -⟩ := hspells
  obtain ⟨c, hc⟩ := List.exists_mem_of_ne_nil (numeral n) (numeral_ne_nil n)
  rw [isUnset, List.all_eq_false]
  refine ⟨c, ?_, by simp [Text.not_isBlank_of_mem_numeral hc]⟩
  rw [hs]
  exact List.mem_append_left _ (List.mem_append_right _ hc)

end Value

end CommandBlocks
