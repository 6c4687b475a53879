import CommandBlocks.Json.Reading
import CommandBlocks.Proofs.Results
import Mathlib.Data.List.TakeDrop
import Mathlib.Tactic.SplitIfs

namespace CommandBlocks.Json

variable {α : Type}

/-- The number of bytes of a text. -/
def size : List Char → Nat
  | [] => 0
  | c :: cs => c.utf8Size + size cs

@[simp] theorem size_nil : size [] = 0 := rfl

@[simp] theorem size_cons (c : Char) (cs : List Char) : size (c :: cs) = c.utf8Size + size cs := rfl

theorem size_append (cs ds : List Char) : size (cs ++ ds) = size cs + size ds := by
  induction cs with
  | nil => simp
  | cons c cs ih => rw [List.cons_append, size_cons, size_cons, ih, Nat.add_assoc]

/-- The size of a list of characters is the number of bytes of their text. -/
theorem utf8ByteSize_ofList (cs : List Char) : (String.ofList cs).utf8ByteSize = size cs := by
  induction cs with
  | nil => simp
  | cons c cs ih =>
    have hsplit : String.ofList (c :: cs) = String.singleton c ++ String.ofList cs := by
      rw [String.singleton_eq_ofList, ← String.ofList_append, List.singleton_append]
    rw [hsplit, String.utf8ByteSize_append, String.utf8ByteSize_singleton, ih, size_cons]

/-- The end of a text is no larger than the text. -/
theorem size_le_of_suffix {rest cs : List Char} (hrest : rest <:+ cs) : size rest ≤ size cs := by
  obtain ⟨front, rfl⟩ := hrest
  rw [size_append]
  exact Nat.le_add_left _ _

/-- A text has no more characters than bytes. -/
theorem length_le_size (cs : List Char) : cs.length ≤ size cs := by
  induction cs with
  | nil => exact Nat.le_refl 0
  | cons c cs ih =>
    have hpos := c.utf8Size_pos
    rw [List.length_cons, size_cons]
    omega

/-- Without the blanks at its start a text is no larger. -/
theorem size_skipBlanks_le (cs : List Char) : size (skipBlanks cs) ≤ size cs :=
  size_le_of_suffix (List.dropWhile_suffix _)

/-- What is left behind the part that is read is no longer than the text was. -/
def Shortens (read : List Char → Except Fault (List Char)) : Prop :=
  ∀ cs rest, read cs = .ok rest → size rest ≤ size cs

/-- What is read weighs no more than the text has become shorter. -/
def Spends (weight : α → Nat) (read : Reader α) : Prop :=
  ∀ cs a rest, read cs = .ok (a, rest) → weight a + size rest ≤ size cs

/-- What is read and what is left are together no larger than the text. -/
theorem Spends.le {weight : α → Nat} {read : Reader α} (hread : Spends weight read)
    {cs rest : List Char} {a : α} (hok : read cs = .ok (a, rest)) :
    weight a + size rest ≤ size cs := hread cs a rest hok

/-- What is left of a text is no larger than the text. -/
theorem Spends.size_le {weight : α → Nat} {read : Reader α} (hread : Spends weight read)
    {cs rest : List Char} {a : α} (hok : read cs = .ok (a, rest)) : size rest ≤ size cs :=
  Nat.le_trans (Nat.le_add_left _ _) (hread.le hok)

theorem spends_zero_iff {read : Reader α} : Spends (fun _ => 0) read ↔
    ∀ cs a rest, read cs = .ok (a, rest) → size rest ≤ size cs := by
  simp only [Spends, Nat.zero_add]

section Words

/-- Reading a literal leaves no more than there was. -/
theorem shortens_literal (expected : List Char) : Shortens (literal expected) := by
  intro cs rest hok
  induction expected generalizing cs with
  | nil =>
    cases hok
    exact Nat.le_refl _
  | cons c expected ih =>
    cases cs with
    | nil => cases hok
    | cons c' cs =>
      rw [literal] at hok
      split at hok
      · have hle := ih cs hok
        rw [size_cons]
        omega
      · cases hok

theorem size_span_le (p : Char → Bool) (cs : List Char) : size (cs.span p).2 ≤ size cs := by
  rw [List.span_eq_takeWhile_dropWhile]
  exact size_le_of_suffix (List.dropWhile_suffix p)

theorem size_readSign_le (cs : List Char) : size (readSign cs).2 ≤ size cs := by
  unfold readSign
  split <;> simp

theorem size_readMinus_le (cs : List Char) : size (readMinus cs).2 ≤ size cs := by
  unfold readMinus
  split <;> simp

/-- Reading an exponent leaves no more than there was. -/
theorem spends_readExponent (negative : Bool) (significand : Nat) (exponent : Int) :
    Spends (fun _ => 0) (readExponent negative significand exponent) := by
  refine spends_zero_iff.2 fun cs x rest hok => ?_
  cases cs with
  | nil =>
    obtain ⟨y, -, heq⟩ := bind_eq_ok_iff.1 hok
    cases heq
    exact Nat.le_refl _
  | cons c cs =>
    have hsigned : size ((readSign cs).2.span (·.isDigit)).2 ≤ size (c :: cs) :=
      Nat.le_trans (size_span_le _ _) (Nat.le_trans (size_readSign_le cs) (Nat.le_add_left _ _))
    simp only [readExponent] at hok
    split_ifs at hok
    · obtain ⟨y, -, heq⟩ := bind_eq_ok_iff.1 hok
      cases heq
      exact hsigned
    · obtain ⟨y, -, heq⟩ := bind_eq_ok_iff.1 hok
      cases heq
      exact hsigned
    · cases hok
      exact hsigned
    · obtain ⟨y, -, heq⟩ := bind_eq_ok_iff.1 hok
      cases heq
      exact Nat.le_refl _

theorem spends_readFraction (negative : Bool) (significand : Nat) (exponent : Int) :
    Spends (fun _ => 0) (readFraction negative significand exponent) := by
  refine spends_zero_iff.2 fun cs x rest hok => ?_
  unfold readFraction at hok
  split at hok
  next digits =>
    dsimp only at hok
    split_ifs at hok
    have hrest := (spends_readExponent _ _ _).size_le hok
    have hdigits := size_span_le (fun c => c.isDigit) digits
    exact Nat.le_trans hrest (Nat.le_trans hdigits (Nat.le_add_left _ _))
  next => exact (spends_readExponent _ _ _).size_le hok

/-- Reading a number leaves no more than there was. -/
theorem spends_readNumber : Spends (fun _ => 0) readNumber := by
  refine spends_zero_iff.2 fun cs n rest hok => ?_
  have hdigits : size ((readMinus cs).2.span (·.isDigit)).2 ≤ size cs :=
    Nat.le_trans (size_span_le _ _) (size_readMinus_le cs)
  unfold readNumber at hok
  dsimp only at hok
  split at hok
  · cases hok
  · cases hok
  · split_ifs at hok
    · cases hok
      exact hdigits
    · obtain ⟨⟨x, left⟩, hfraction, heq⟩ := bind_eq_ok_iff.1 hok
      cases heq
      exact Nat.le_trans ((spends_readFraction _ _ _).size_le hfraction) hdigits

/-- The four hexadecimal digits of an escape are taken from the text. -/
theorem spends_hexEscape : Spends (fun _ => 4) hexEscape := by
  intro cs n rest hok
  change 4 + size rest ≤ size cs
  simp only [hexEscape] at hok
  split_ifs at hok with _ hgroup
  cases hok
  have hfour := length_le_size (cs.take 4)
  rw [hgroup.1] at hfour
  have hsplit := size_append (cs.take 4) (cs.drop 4)
  rw [List.take_append_drop] at hsplit
  omega

/-- An escape by a number takes at least the bytes of the character that it stands for. -/
theorem spends_unicodeEscape : Spends Char.utf8Size unicodeEscape := by
  intro cs c rest hok
  have hfour := c.utf8Size_le_four
  obtain ⟨⟨first, left⟩, hfirst, hok⟩ := bind_eq_ok_iff.1 hok
  have hleft := spends_hexEscape.le hfirst
  obtain ⟨-, hok⟩ := throw_or_eq_ok_iff.1 hok
  dsimp only at hok
  split_ifs at hok
  · cases hok
    omega
  · split at hok
    · cases hok
    · cases hok
    · obtain ⟨⟨second, last⟩, hsecond, hok⟩ := bind_eq_ok_iff.1 hok
      have hlast := spends_hexEscape.le hsecond
      dsimp only at hok
      split_ifs at hok
      simp only [pure, Except.pure, Except.ok.injEq, Prod.mk.injEq] at hok
      rw [← hok.2]
      simp only [size_cons] at hleft
      omega
    · cases hok

/-- The characters that are escaped by a single one take one byte. -/
theorem of_escape {unicode : Reader Char} {mark c : Char} {cs rest : List Char}
    (hok : escape unicode (mark :: cs) = .ok (c, rest)) :
    c.utf8Size = 1 ∧ rest = cs ∨ unicode cs = .ok (c, rest) := by
  unfold escape at hok
  dsimp only at hok
  split at hok
  case h_9 => exact .inr hok
  case h_10 => cases hok
  all_goals
    cases hok
    exact .inl ⟨rfl, rfl⟩

/-- An escape takes at least the bytes of the character that it stands for. -/
theorem spends_escape {unicode : Reader Char} (hunicode : Spends Char.utf8Size unicode) :
    Spends Char.utf8Size (escape unicode) := by
  intro cs c rest hok
  cases cs with
  | nil => cases hok
  | cons mark cs =>
    have hpos := mark.utf8Size_pos
    rw [size_cons]
    obtain ⟨hone, rfl⟩ | hunicoded := of_escape hok
    · omega
    · have hle := hunicode.le hunicoded
      omega

/-- The characters of a string are paid for by what is read of the text. -/
theorem spends_stringChars {unicode : Reader Char} (hunicode : Spends Char.utf8Size unicode)
    (bound : Nat) : Spends size (stringChars unicode bound) := by
  intro cs chars rest hok
  induction bound generalizing cs chars with
  | zero => cases hok
  | succ bound ih =>
    cases cs with
    | nil => cases hok
    | cons c cs =>
      rw [stringChars] at hok
      split_ifs at hok
      · cases hok
        rw [size_nil, size_cons]
        omega
      · obtain ⟨⟨d, left⟩, hescape, hok⟩ := bind_eq_ok_iff.1 hok
        obtain ⟨⟨later, last⟩, hlater, hok⟩ := bind_eq_ok_iff.1 hok
        cases hok
        have hleft := (spends_escape hunicode).le hescape
        have hlast := ih _ _ hlater
        rw [size_cons, size_cons]
        omega
      · obtain ⟨⟨later, last⟩, hlater, hok⟩ := bind_eq_ok_iff.1 hok
        cases hok
        have hlast := ih _ _ hlater
        rw [size_cons, size_cons]
        omega

/-- A string is no larger than what it is read from. -/
theorem spends_readString : Spends String.utf8ByteSize readString := by
  intro cs s rest hok
  obtain ⟨⟨chars, left⟩, hchars, hok⟩ := bind_eq_ok_iff.1 hok
  cases hok
  rw [utf8ByteSize_ofList]
  exact (spends_stringChars spends_unicodeEscape _).le hchars

/-- The number of bytes of a scalar that is a text. -/
def Found.textSize : Found → Nat
  | string s => s.utf8ByteSize
  | _ => 0

/-- What is found at the start of a value, which may be all of a string, is paid for. -/
theorem spends_readStart : Spends Found.textSize readStart := by
  intro cs found rest hok
  have hblanks := size_skipBlanks_le cs
  unfold readStart at hok
  cases hskip : skipBlanks cs with
  | nil => simp [hskip] at hok
  | cons c later =>
    have hword : ∀ {expected scalar}, Found.textSize scalar = 0 →
        (do return (scalar, ← literal expected later)) = .ok (found, rest) →
        found.textSize + size rest ≤ size cs := by
      intro expected scalar hscalar hok
      obtain ⟨left, hliteral, hok⟩ := bind_eq_ok_iff.1 hok
      cases hok
      have hleft := shortens_literal expected _ _ hliteral
      rw [hskip, size_cons] at hblanks
      omega
    rw [hskip, size_cons] at hblanks
    simp only [hskip] at hok
    split at hok
    case h_1 => exact hword rfl hok
    case h_2 => exact hword rfl hok
    case h_3 => exact hword rfl hok
    case h_4 =>
      obtain ⟨⟨s, left⟩, hstring, hok⟩ := bind_eq_ok_iff.1 hok
      cases hok
      have hleft := spends_readString.le hstring
      change s.utf8ByteSize + size left ≤ size cs
      omega
    case h_5 =>
      cases hok
      change 0 + size rest ≤ size cs
      omega
    case h_6 =>
      cases hok
      change 0 + size rest ≤ size cs
      omega
    case h_7 =>
      split_ifs at hok
      obtain ⟨⟨n, left⟩, hnumber, hok⟩ := bind_eq_ok_iff.1 hok
      cases hok
      have hleft := spends_readNumber.size_le hnumber
      change 0 + size left ≤ size cs
      rw [size_cons] at hleft
      omega

end Words

section Structures

/-- Looking for another element leaves no more than there was. -/
theorem spends_moreElements (isFirst : Bool) : Spends (fun _ => 0) (moreElements isFirst) := by
  refine spends_zero_iff.2 fun cs more rest hok => ?_
  have hblanks := size_skipBlanks_le cs
  unfold moreElements at hok
  split at hok
  next => cases hok
  next later hskip =>
    cases hok
    rw [hskip] at hblanks
    omega
  next c later _ hskip =>
    rw [hskip, size_cons] at hblanks
    have hlater := size_skipBlanks_le later
    split_ifs at hok
    · cases hok
      rw [size_cons]
      omega
    · split at hok
      · cases hok
      · cases hok
      · cases hok
        omega

theorem shortens_endElements : Shortens endElements := by
  intro cs rest hok
  have hblanks := size_skipBlanks_le cs
  unfold endElements at hok
  split at hok
  next => cases hok
  next hskip =>
    cases hok
    rw [hskip, size_cons] at hblanks
    omega
  next =>
    split at hok
    · cases hok
    · cases hok
  next => cases hok

theorem spends_readKey : Spends (fun _ => 0) readKey := by
  refine spends_zero_iff.2 fun cs key rest hok => ?_
  obtain ⟨⟨s, left⟩, hstring, hok⟩ := bind_eq_ok_iff.1 hok
  cases hok
  exact spends_readString.size_le hstring

theorem spends_nextKey (isFirst : Bool) : Spends (fun _ => 0) (nextKey isFirst) := by
  refine spends_zero_iff.2 fun cs key rest hok => ?_
  have hblanks := size_skipBlanks_le cs
  unfold nextKey at hok
  split at hok
  next => cases hok
  next hskip =>
    cases hok
    rw [hskip, size_cons] at hblanks
    omega
  next c later _ hskip =>
    rw [hskip, size_cons] at hblanks
    have hlater := size_skipBlanks_le later
    split_ifs at hok
    · have hleft := spends_readKey.size_le hok
      omega
    · split at hok
      next => cases hok
      next hskip =>
        rw [hskip, size_cons] at hlater
        have hleft := spends_readKey.size_le hok
        omega
      next => cases hok
      next => cases hok

theorem shortens_colon : Shortens colon := by
  intro cs rest hok
  have hblanks := size_skipBlanks_le cs
  unfold colon at hok
  split at hok
  next => cases hok
  next hskip =>
    cases hok
    rw [hskip, size_cons] at hblanks
    omega
  next => cases hok

end Structures

section Skipping

theorem shortens_skipDigits : Shortens skipDigits := by
  intro cs rest hok
  have hspan := size_span_le (fun c => c.isDigit) cs
  unfold skipDigits at hok
  split at hok
  next => cases hok
  next heq =>
    cases hok
    rwa [heq] at hspan

theorem shortens_skipWhole : Shortens skipWhole := by
  intro cs rest hok
  unfold skipWhole at hok
  split at hok
  · split_ifs at hok
    cases hok
    exact Nat.le_add_left _ _
  · exact shortens_skipDigits _ _ hok

theorem shortens_skipFraction : Shortens skipFraction := by
  intro cs rest hok
  unfold skipFraction at hok
  split at hok
  · exact Nat.le_trans (shortens_skipDigits _ _ hok) (Nat.le_add_left _ _)
  · cases hok
    exact Nat.le_refl _

theorem shortens_skipExponent : Shortens skipExponent := by
  intro cs rest hok
  unfold skipExponent at hok
  split at hok
  · cases hok
    exact Nat.le_refl _
  · split_ifs at hok
    · split at hok
      · cases hok
      · have hle := shortens_skipDigits _ _ hok
        simp only [size_cons]
        split_ifs at hle
        · omega
        · rw [size_cons] at hle
          omega
    · cases hok
      exact Nat.le_refl _

theorem shortens_skipNumber : Shortens skipNumber := by
  intro cs rest hok
  obtain ⟨whole, hwhole, hok⟩ := bind_eq_ok_iff.1 hok
  obtain ⟨fraction, hfraction, hrest⟩ := bind_eq_ok_iff.1 hok
  exact Nat.le_trans (shortens_skipExponent _ _ hrest)
    (Nat.le_trans (shortens_skipFraction _ _ hfraction)
      (Nat.le_trans (shortens_skipWhole _ _ hwhole) (size_readMinus_le cs)))

/-- An escape that is not used is paid for like one that is. -/
theorem spends_unusedEscape : Spends Char.utf8Size unusedEscape := by
  intro cs c rest hok
  obtain ⟨⟨n, left⟩, hhex, hok⟩ := bind_eq_ok_iff.1 hok
  cases hok
  have hleft := spends_hexEscape.le hhex
  change 1 + size rest ≤ size cs
  omega

theorem shortens_skipString : Shortens skipString := by
  intro cs rest hok
  obtain ⟨⟨chars, left⟩, hchars, hok⟩ := bind_eq_ok_iff.1 hok
  cases hok
  exact (spends_stringChars spends_unusedEscape _).size_le hchars

theorem shortens_skipKey : Shortens skipKey := by
  intro cs rest hok
  have hblanks := size_skipBlanks_le cs
  unfold skipKey at hok
  split at hok
  next => cases hok
  next hskip =>
    obtain ⟨left, hstring, hok⟩ := bind_eq_ok_iff.1 hok
    have hleft := shortens_skipString _ _ hstring
    have hrest := shortens_colon _ _ hok
    rw [hskip, size_cons] at hblanks
    omega
  next => cases hok

/-- Passing over the start of a value leaves no more than there was. -/
theorem spends_skipStart (brackets : List Bracket) :
    Spends (fun _ => 0) (skipStart brackets) := by
  refine spends_zero_iff.2 fun cs found rest hok => ?_
  have hblanks := size_skipBlanks_le cs
  unfold skipStart at hok
  cases hskip : skipBlanks cs with
  | nil => simp [hskip] at hok
  | cons c later =>
    rw [hskip, size_cons] at hblanks
    have hscalar : ∀ {read : List Char → Except Fault (List Char)}, Shortens read →
        ∀ {text}, size text ≤ size cs →
        (do return (behindValue brackets, ← read text)) = .ok (found, rest) →
        size rest ≤ size cs := by
      intro read hread text htext hok
      obtain ⟨left, hleft, hok⟩ := bind_eq_ok_iff.1 hok
      cases hok
      exact Nat.le_trans (hread _ _ hleft) htext
    have hlater : size later ≤ size cs := by omega
    simp only [hskip] at hok
    split at hok
    case h_1 => exact hscalar (shortens_literal _) hlater hok
    case h_2 => exact hscalar (shortens_literal _) hlater hok
    case h_3 => exact hscalar (shortens_literal _) hlater hok
    case h_4 => exact hscalar shortens_skipString hlater hok
    case h_5 =>
      cases hok
      exact hlater
    case h_6 =>
      cases hok
      exact hlater
    case h_7 =>
      split_ifs at hok
      exact hscalar shortens_skipNumber (by rwa [size_cons]) hok

/-- Each step of passing over a value leaves no more than there was. -/
theorem spends_skipStep (state : SkipState) (brackets : List Bracket) :
    Spends (fun _ => 0) (skipStep state brackets) := by
  refine spends_zero_iff.2 fun cs found rest hok => ?_
  have hblanks := size_skipBlanks_le cs
  have hlater : ∀ {c later}, skipBlanks cs = c :: later → size later ≤ size cs := by
    intro c later hskip
    rw [hskip, size_cons] at hblanks
    omega
  have hkey : ∀ {next text}, size text ≤ size cs →
      (do return (next, ← skipKey text)) = .ok (found, rest) → size rest ≤ size cs := by
    intro next text htext hok
    obtain ⟨left, hleft, hok⟩ := bind_eq_ok_iff.1 hok
    cases hok
    exact Nat.le_trans (shortens_skipKey _ _ hleft) htext
  unfold skipStep at hok
  split at hok
  next => exact (spends_skipStart _).size_le hok
  next =>
    cases hok
    exact Nat.le_refl _
  next =>
    split at hok
    next => cases hok
    next hskip _ =>
      cases hok
      exact hlater hskip
    next hskip _ =>
      cases hok
      exact hlater hskip
    next => cases hok
    next =>
      cases hok
      exact hblanks
  next =>
    split at hok
    next => cases hok
    next hskip _ =>
      cases hok
      exact hlater hskip
    next hskip _ => exact hkey (hlater hskip) hok
    next => cases hok
    next => exact hkey hblanks hok

/-- Passing over what is left of a value, however many brackets are open, leaves no more than there
    was. -/
theorem shortens_skipFrom (bound : Nat) (state : SkipState) (brackets : List Bracket) :
    Shortens (skipFrom bound state brackets) := by
  intro cs rest hok
  induction bound generalizing state brackets cs with
  | zero => cases hok
  | succ bound ih =>
    obtain ⟨⟨found, left⟩, hstep, hok⟩ := bind_eq_ok_iff.1 hok
    have hleft := (spends_skipStep state brackets).size_le hstep
    cases found with
    | none =>
      cases hok
      exact hleft
    | some next => exact Nat.le_trans (ih next.1 next.2 left hok) hleft

/-- Passing over a value leaves no more than there was. -/
theorem shortens_skipValue : Shortens skipValue :=
  fun cs => shortens_skipFrom _ _ _ cs

end Skipping

end CommandBlocks.Json
