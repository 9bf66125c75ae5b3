/-!
# Blanks and line breaks

The two classes of white space. They have no character in common: a carriage
return is a blank, so that CR LF ends a line once.
-/

namespace LarkCheck.Text

/-- White space that stays on its line. -/
def isBlank (c : Char) : Bool :=
  c = ' ' || c = '\t' || c = '\x0b' || c = '\x0c' || c = '\r' || c = '\u00a0' || c = '\u1680' ||
    ('\u2000' ≤ c && c ≤ '\u200a') || c = '\u202f' || c = '\u205f' || c = '\u3000'

/-- The characters after which a new line begins. -/
def isLineBreak (c : Char) : Bool :=
  c = '\n' || c = '\u0085' || c = '\u2028' || c = '\u2029'

theorem isBlank_eq_false_of_isLineBreak {c : Char} (h : isLineBreak c = true) :
    isBlank c = false := by
  simp only [isLineBreak, Bool.or_eq_true, decide_eq_true_eq] at h
  rcases h with ((rfl | rfl) | rfl) | rfl <;> decide

end LarkCheck.Text
