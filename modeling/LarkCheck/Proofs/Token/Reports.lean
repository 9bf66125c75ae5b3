import LarkCheck.Token.Reading

/-!
# What a reading reports

Wrong characters and unknown escapes are blemishes: the reader passes over them and
goes on to its token. A reading gives no token if and only if its lexeme is
malformed, and then the last of its reports, and no other, says in what way.
-/

namespace LarkCheck

namespace Diagnostic

/-- Reported on the way to a token. -/
def Code.isBlemish : Code → Bool
  | wrongCharacter | unknownEscapeSequence => true
  | _ => false

/-- Reported of a lexeme that gives no token. -/
def Code.isMalformed : Code → Bool
  | stringNotTerminated | integerLiteralTooLarge => true
  | _ => false

theorem Code.isMalformed_of_isBlemish {code : Code} (h : code.isBlemish = true) :
    code.isMalformed = false := by
  cases code <;> first | rfl | cases h

theorem Code.isSyntax_of_isBlemish {code : Code} (h : code.isBlemish = true) :
    code.isSyntax = false := by
  cases code <;> first | rfl | cases h

theorem Code.isSyntax_of_isMalformed {code : Code} (h : code.isMalformed = true) :
    code.isSyntax = false := by
  cases code <;> first | rfl | cases h

theorem Code.severity_of_isMalformed {code : Code} (h : code.isMalformed = true) :
    code.severity = .error := by
  cases code <;> first | rfl | cases h

theorem Code.severity_of_isSyntax {code : Code} (h : code.isSyntax = true) :
    code.severity = .error := by
  cases code <;> first | rfl | cases h

end Diagnostic

namespace Token

/-- All of the reports are blemishes. -/
def Blemishes (news : List Diagnostic) : Prop := ∀ d ∈ news, d.code.isBlemish = true

theorem Blemishes.nil : Blemishes [] := fun _ hd => absurd hd List.not_mem_nil

theorem Blemishes.cons {d : Diagnostic} {news : List Diagnostic} (hd : d.code.isBlemish = true)
    (h : Blemishes news) : Blemishes (d :: news) :=
  List.forall_mem_cons.2 ⟨hd, h⟩

theorem Blemishes.append {news further : List Diagnostic} (h : Blemishes news)
    (h' : Blemishes further) : Blemishes (news ++ further) := fun d hd =>
  (List.mem_append.1 hd).elim (h d) (h' d)

/-- Reports as they are made on the way to a token, or where there is none. -/
inductive Explains : Bool → List Diagnostic → Prop
  | token {news : List Diagnostic} (h : Blemishes news) : Explains true news
  | malformed {news : List Diagnostic} {d : Diagnostic} (h : Blemishes news)
    (hd : d.code.isMalformed = true) (herror : d.isError = true) : Explains false (news ++ [d])

theorem Explains.prepend {given : Bool} {gap news : List Diagnostic} (hgap : Blemishes gap)
    (h : Explains given news) : Explains given (gap ++ news) := by
  cases h with
  | token h => exact .token (hgap.append h)
  | malformed h hd herror =>
    rw [← List.append_assoc]
    exact .malformed (hgap.append h) hd herror

/-- Where there is no token the last report tells why. -/
theorem Explains.last_malformed {news : List Diagnostic} (h : Explains false news) :
    ∃ before d, news = before ++ [d] ∧ Blemishes before ∧ d.code.isMalformed = true ∧
      d.isError = true := by
  cases h with
  | malformed h hd herror => exact ⟨_, _, rfl, h, hd, herror⟩

theorem explains_plain : Explains true [] :=
  .token .nil

theorem explains_only {code : Diagnostic.Code} (hcode : code.isMalformed = true) (loc : Location)
    (notes : List String) : Explains false [.of code loc notes] := by
  refine @Explains.malformed [] _ .nil hcode ?_
  simp only [Diagnostic.of, Diagnostic.isError, Diagnostic.Code.severity_of_isMalformed hcode]
  rfl

/-- On its way to the closing quote a literal is warned about its escapes only. -/
theorem blemishes_stringTail (text : List Char) (offset : Nat) (loc : Location) :
    Blemishes (stringTail text offset loc).news := by
  fun_induction stringTail text offset loc with
  | case1 | case2 | case3 | case4 | case10 => exact .nil
  | case5 | case6 | case7 | case8 | case11 =>
    rename_i ih
    exact ih
  | case9 =>
    rename_i ih
    exact .cons rfl ih

theorem explains_readString (c : Cursor) :
    Explains (readString c).kind.isSome (readString c).news := by
  have h := blemishes_stringTail (c.rest.drop 1) (c.offset + 1) (c.loc.advance 1)
  unfold readString
  dsimp only
  split
  · exact .token h
  · exact .prepend h (explains_only rfl _ _)

theorem explains_readNumber (c : Cursor) :
    Explains (readNumber c).kind.isSome (readNumber c).news := by
  unfold readNumber
  dsimp only
  split
  · exact explains_plain
  split
  · exact explains_plain
  · exact explains_only rfl _ _

theorem explains_readSymbol (single : Kind) (c : Cursor) :
    Explains (readSymbol single c).kind.isSome (readSymbol single c).news := by
  unfold readSymbol
  split
  · split <;> exact explains_plain
  · exact explains_plain

theorem explains_readLexeme (opening : Opening) (c : Cursor) :
    Explains (readLexeme opening c).kind.isSome (readLexeme opening c).news := by
  cases opening with
  | string => exact explains_readString c
  | number => exact explains_readNumber c
  | word => exact explains_plain
  | symbol single => exact explains_readSymbol single c

theorem blemishes_gapFrom (inComment : Bool) (text : List Char) (offset : Nat) (loc : Location) :
    Blemishes (gapFrom inComment text offset loc).news := by
  fun_induction gapFrom inComment text offset loc with
  | case1 | case5 => exact .nil
  | case2 | case3 | case4 =>
    rename_i ih
    exact ih
  | case6 =>
    rename_i ih
    exact .cons rfl ih

theorem explains_read (c : Cursor) : Explains c.read.1.token.isSome c.read.1.news := by
  have hgap := blemishes_gapFrom false c.rest c.offset c.loc
  unfold Cursor.read
  dsimp only
  split
  · exact .token hgap
  · rename_i opening hopening
    have h := explains_readLexeme opening c.gap.after
    rw [← Option.isSome_map] at h
    exact .prepend hgap h

/-- Every reading of a text accounts for its token. -/
theorem explains_of_mem_readings {c : Cursor} {r : Reading} (hr : r ∈ readings c) :
    Explains r.token.isSome r.news := by
  fun_induction readings c with
  | case1 c ih =>
    rcases List.mem_cons.1 hr with rfl | hr
    · exact explains_read c
    · by_cases h : c.read.1.isEof = true
      · simp [h] at hr
      · simp only [h, dif_neg, Bool.false_eq_true, not_false_eq_true] at hr
        exact ih h hr

end Token

end LarkCheck
