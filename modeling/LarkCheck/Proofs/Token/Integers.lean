import LarkCheck.Proofs.Token.LongestMatch
import Mathlib.Data.Nat.Digits.Defs

/-!
# Integer literals

The value of an integer literal is collected digit by digit and given up as soon as it
is too large. It is given up exactly for the runs of digits whose value, written out in
full, is too large: neither the number of the digits nor zeros in front tell, and what
was read does not depend on it.
-/

namespace LarkCheck.Token

/-- The number that a run of digits is in base ten, the first digit being the greatest. -/
def numeralValue (run : List Char) : Nat :=
  Nat.ofDigits 10 (run.reverse.map digitValue)

theorem decimalValue_eq_numeralValue (run : List Char) : decimalValue run = numeralValue run := by
  have hstep : (fun value d => value * 10 + digitValue d) =
      fun value d => digitValue d + 10 * value := by
    funext value d
    omega
  rw [numeralValue, Nat.ofDigits_eq_foldr, List.foldr_map, List.foldr_reverse, decimalValue, hstep]
  rfl

/-- A point and a digit come next, so that the number goes on. -/
def GoesOn (text : List Char) : Prop :=
  ∃ digit rest, text = '.' :: digit :: rest ∧ isDigit digit = true

theorem fractionDigits_ne_nil_iff {text : List Char} : fractionDigits text ≠ [] ↔ GoesOn text := by
  constructor
  · intro h
    obtain ⟨rest, htext, hdigits, -⟩ := eq_of_fractionDigits_ne_nil h
    obtain ⟨digit, digits, hcons⟩ := List.exists_cons_of_ne_nil h
    rw [hcons] at htext hdigits
    exact ⟨digit, digits ++ rest, htext, hdigits digit List.mem_cons_self⟩
  · rintro ⟨digit, rest, rfl, hdigit⟩
    simp [fractionDigits, hdigit]

section Run

variable {c : Cursor} {run rest : List Char}

theorem readNumber_of_goesOn (hrest : c.rest = run ++ rest) (hrun : ∀ d ∈ run, isDigit d = true)
    (hstop : ∀ d ∈ rest.head?, isDigit d = false) (h : GoesOn rest) :
    (readNumber c).kind = some (.real (realValue run (fractionDigits rest))) ∧
      (readNumber c).news = [] := by
  rw [readNumber_split hrest hrun hstop, if_pos (fractionDigits_ne_nil_iff.2 h)]
  exact ⟨rfl, rfl⟩

theorem readNumber_of_not_goesOn (hrest : c.rest = run ++ rest)
    (hrun : ∀ d ∈ run, isDigit d = true) (hstop : ∀ d ∈ rest.head?, isDigit d = false)
    (h : ¬GoesOn rest) : readNumber c =
      if numeralValue run ≤ maxInteger then
        ⟨some (.int (numeralValue run)), [], c.pass run.length⟩
      else
        ⟨none, [.of .integerLiteralTooLarge c.loc []], c.pass run.length⟩ := by
  rw [readNumber_split hrest hrun hstop, if_neg (fun hne => h (fractionDigits_ne_nil_iff.1 hne)),
    decimalValue_eq_numeralValue]

theorem pass_length (h : c.rest = run ++ rest) :
    c.pass run.length = ⟨rest, c.offset + run.length, c.loc.advance run.length⟩ := by
  rw [Cursor.pass, h, List.drop_left]

/-- A run of digits is an integer exactly if its value fits, and is reported once at its beginning
if not; both times the run and nothing else is passed over. In front of a point and a digit it is
the beginning of a real, which is never reported. -/
theorem readNumber_exact (hrest : c.rest = run ++ rest) (hne : run ≠ [])
    (hrun : ∀ d ∈ run, isDigit d = true) (hstop : ∀ d ∈ rest.head?, isDigit d = false) :
    c.read = (⟨(readNumber c).news, (readNumber c).kind.map (⟨·, c.loc⟩)⟩, (readNumber c).after) ∧
    (¬GoesOn rest →
      (readNumber c = ⟨some (.int (numeralValue run)), [],
          ⟨rest, c.offset + run.length, ⟨c.loc.line, c.loc.column + run.length⟩⟩⟩ ↔
        numeralValue run ≤ 2 ^ 63 - 1) ∧
      (readNumber c = ⟨none, [⟨.integerLiteralTooLarge, .error, c.loc, []⟩],
          ⟨rest, c.offset + run.length, ⟨c.loc.line, c.loc.column + run.length⟩⟩⟩ ↔
        2 ^ 63 - 1 < numeralValue run)) ∧
    (GoesOn rest →
      (∃ value, (readNumber c).kind = some (.real value)) ∧ (readNumber c).news = []) := by
  constructor
  · obtain ⟨first, tail, rfl⟩ := List.exists_cons_of_ne_nil hne
    have hfirst := opening?_of_isDigit (hrun first List.mem_cons_self)
    exact read_of_opening hrest hfirst
  have hmax : maxInteger = 2 ^ 63 - 1 := rfl
  constructor
  · intro h
    rw [readNumber_of_not_goesOn hrest hrun hstop h, pass_length hrest, hmax]
    by_cases hvalue : numeralValue run ≤ 2 ^ 63 - 1
    · rw [if_pos hvalue]
      exact ⟨iff_of_true rfl hvalue, iff_of_false (fun heq => nomatch heq) (Nat.not_lt.2 hvalue)⟩
    · rw [if_neg hvalue]
      have hgreater := Nat.lt_of_not_le hvalue
      exact ⟨iff_of_false (fun heq => nomatch heq) hvalue, iff_of_true rfl hgreater⟩
  · intro h
    obtain ⟨hkind, hnews⟩ := readNumber_of_goesOn hrest hrun hstop h
    exact ⟨⟨_, hkind⟩, hnews⟩

end Run

/-- The greatest integer behind zeros, and the number after it. -/
theorem readNumber_exact_greatest :
    readNumber (.start "0009223372036854775807 ".toList) =
        ⟨some (.int 9223372036854775807), [], ⟨[' '], 22, ⟨1, 22⟩⟩⟩ ∧
      readNumber (.start "9223372036854775808.x".toList) =
        ⟨none, [⟨.integerLiteralTooLarge, .error, ⟨1, 0⟩, []⟩], ⟨['.', 'x'], 19, ⟨1, 19⟩⟩⟩ := by
  constructor
  · have hrest : (Cursor.start "0009223372036854775807 ".toList).rest =
        "0009223372036854775807".toList ++ [' '] := rfl
    have hstop : ∀ d ∈ [' '].head?, isDigit d = false := by
      rintro _ ⟨⟩
      rfl
    have hblank : ¬GoesOn [' '] := by
      rw [← fractionDigits_ne_nil_iff]
      decide
    have hread := readNumber_exact hrest (by decide) (List.all_eq_true.1 (by decide)) hstop
    exact (hread.2.1 hblank).1.2 (by decide)
  · have hrest : (Cursor.start "9223372036854775808.x".toList).rest =
        "9223372036854775808".toList ++ ['.', 'x'] := rfl
    have hstop : ∀ d ∈ ['.', 'x'].head?, isDigit d = false := by
      rintro _ ⟨⟩
      rfl
    have hpoint : ¬GoesOn ['.', 'x'] := by
      rw [← fractionDigits_ne_nil_iff]
      decide
    have hread := readNumber_exact hrest (by decide) (List.all_eq_true.1 (by decide)) hstop
    exact (hread.2.1 hpoint).2.2 (by decide)

end LarkCheck.Token
