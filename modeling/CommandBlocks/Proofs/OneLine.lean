import CommandBlocks.Value
import Mathlib.Tactic.SplitIfs

namespace CommandBlocks

namespace Text

variable {s t : String} {cs : List Char}

/-- A text without line feeds. -/
def OneLine (s : String) : Prop := '\n' ∉ s.toList
  deriving Decidable

theorem oneLine_ofList : OneLine (.ofList cs) ↔ '\n' ∉ cs := by
  rw [OneLine, String.toList_ofList]

theorem OneLine.append (hs : OneLine s) (ht : OneLine t) : OneLine (s ++ t) := by
  rw [OneLine, String.toList_append, List.mem_append, not_or]
  exact ⟨hs, ht⟩

theorem oneLine_replicate {n : Nat} {c : Char} (hc : '\n' ≠ c) :
    OneLine (.ofList (List.replicate n c)) :=
  oneLine_ofList.2 fun hmem => hc (List.eq_of_mem_replicate hmem)

/-- A list of texts on one line is still on one line with separators between them. -/
theorem oneLine_intercalate {ts : List String} (hs : OneLine s) (hts : ∀ t ∈ ts, OneLine t) :
    OneLine (s.intercalate ts) := by
  induction ts with
  | nil => simp [OneLine]
  | cons t ts ih =>
    obtain ⟨ht, hts⟩ := List.forall_mem_cons.1 hts
    cases ts with
    | nil => simpa using ht
    | cons next ts =>
      rw [String.intercalate_cons_cons]
      exact (ht.append hs).append (ih hts)

theorem newline_ne_digitChar (n : Nat) : '\n' ≠ n.digitChar :=
  match n with
  | 0 | 1 | 2 | 3 | 4 | 5 | 6 | 7 | 8 | 9 | 10 | 11 | 12 | 13 | 14 | 15 => by decide
  | _ + 16 => by simp [Nat.digitChar]

/-- The digits of a number have no line feed among them. -/
theorem newline_not_mem_toDigits {b : Nat} (hb : 1 < b) (n : Nat) : '\n' ∉ Nat.toDigits b n := by
  -- the last digit is set apart, and the digits before it are those of a smaller number
  induction n using Nat.strongRecOn with
  | _ n ih =>
    rw [Nat.toDigits_eq_if hb]
    split_ifs with hless
    · exact mt List.mem_singleton.1 (newline_ne_digitChar n)
    · rw [List.mem_append, not_or]
      exact ⟨ih (n / b) (Nat.div_lt_self (by omega) hb),
        mt List.mem_singleton.1 (newline_ne_digitChar _)⟩

theorem oneLine_repr (n : Nat) : OneLine n.repr := by
  rw [Nat.repr_eq_ofList_toDigits, oneLine_ofList]
  exact newline_not_mem_toDigits (by omega) n

/-- Between quotes even a line feed is not shown as itself. -/
theorem newline_not_mem_quotedChar (c : Char) : '\n' ∉ quotedChar c := by
  unfold quotedChar
  split
  case h_7 hnull htab hreturn hfeed hquote hslash =>
    split_ifs
    · exact mt List.mem_singleton.1 fun heq => hfeed heq.symm
    · have hdigits := newline_not_mem_toDigits (show 1 < 16 by omega) c.toNat
      simp [hexDigits, hdigits]
  all_goals decide

/-- A text between quotes shows its line feeds as escapes. -/
theorem oneLine_quoted (s : String) : OneLine (quoted s) := by
  rw [quoted, oneLine_ofList]
  simp [newline_not_mem_quotedChar]

end Text

namespace Decimal

open Text

theorem newline_not_mem_coefficient (d : Decimal) : '\n' ∉ Nat.toDigits 10 d.coefficient :=
  newline_not_mem_toDigits (by omega) d.coefficient

/-- Decimals that are written out in full are on one line. -/
theorem oneLine_positional (d : Decimal) {wholeSuffix : String} (hsuffix : OneLine wholeSuffix) :
    OneLine (d.positional wholeSuffix) := by
  have hdigits := d.newline_not_mem_coefficient
  have hzeros : ∀ n, OneLine (zeros n) := fun n => oneLine_replicate (by decide)
  rw [positional]
  split_ifs
  · exact ((oneLine_ofList.2 hdigits).append (hzeros _)).append hsuffix
  · refine (OneLine.append ?_ (by decide)).append ?_
    · exact oneLine_ofList.2 fun hmem => hdigits (List.mem_of_mem_take hmem)
    · exact oneLine_ofList.2 fun hmem => hdigits (List.mem_of_mem_drop hmem)
  · exact ((show OneLine "0." by decide).append (hzeros _)).append (oneLine_ofList.2 hdigits)

/-- Decimals with an exponent are on one line. -/
theorem oneLine_scientific (d : Decimal) : OneLine d.scientific := by
  have hdigits := d.newline_not_mem_coefficient
  rw [scientific]
  refine OneLine.append (OneLine.append (OneLine.append ?_ ?_) ?_) ?_
  · exact oneLine_ofList.2 fun hmem => hdigits (List.mem_of_mem_take hmem)
  · split_ifs
    · decide
    · refine (show OneLine "." by decide).append ?_
      exact oneLine_ofList.2 fun hmem => hdigits (List.mem_of_mem_drop hmem)
  · split_ifs <;> decide
  · exact oneLine_repr _

/-- A number in any style is on one line, so long as the style's suffix is. -/
theorem Style.oneLine_write {style : Style} (hsuffix : OneLine style.wholeSuffix) (x : Binary64) :
    OneLine (style.write x) := by
  have hsign : OneLine (if x.isNegative then "-" else "") := by split_ifs <;> decide
  simp only [Style.write]
  -- the sign is set aside so that only the cases of what follows it are told apart
  generalize (if x.isNegative then "-" else "") = sign at hsign ⊢
  split_ifs with hnan hinfinite hzero hpositional
  · decide
  · exact hsign.append (by decide)
  · exact (hsign.append (by decide)).append hsuffix
  · exact hsign.append (oneLine_positional _ hsuffix)
  · exact hsign.append (oneLine_scientific _)

end Decimal

/-- Every value is shown on one line, also a text that has line feeds in it. -/
theorem Value.oneLine_display (v : Value) : Text.OneLine v.display := by
  cases v with
  | number x =>
    rw [display]
    split
    next n _ =>
      cases n with
      | ofNat m => exact Text.oneLine_repr m
      | negSucc m => exact (show Text.OneLine "-" by decide).append (Text.oneLine_repr _)
    next => exact Decimal.Style.oneLine_write (by decide) x
  | text s => exact Text.oneLine_quoted s
  | boolean b => cases b <;> decide

end CommandBlocks
