import LarkCheck.Token.Lexeme

/-!
# Reading tokens

Between lexemes stand blanks, line breaks, comments and wrong characters. A wrong
character is reported and passed over. One reading passes over them, reads one
lexeme and gives its token, or none if the lexeme is malformed; past the last
lexeme it gives the end of the file, again and again. Every other reading moves
the cursor on, so a text has finitely many.
-/

namespace LarkCheck

namespace Token

def wrongCharacter (c : Char) (loc : Location) : Diagnostic :=
  .of .wrongCharacter loc
    ["unexpected character " ++ Text.shown c ++ " (" ++ Text.codePointName c ++ ")"]

/-- What stands before the next lexeme: the reports, the lexeme's sort if there is one, and the
cursor at its first character. -/
structure Gap where
  news : List Diagnostic
  opening : Option Opening
  after : Cursor
deriving DecidableEq, Repr

/-- Passes over everything that is no lexeme. A comment lasts until the next line break. -/
def gapFrom (inComment : Bool) : List Char → Nat → Location → Gap
  | [], offset, loc => ⟨[], none, ⟨[], offset, loc⟩⟩
  | c :: rest, offset, loc =>
    if Text.isLineBreak c then
      gapFrom false rest (offset + 1) loc.nextLine
    else if inComment || Text.isBlank c then
      gapFrom inComment rest (offset + 1) (loc.advance 1)
    else if c = '#' then
      gapFrom true rest (offset + 1) (loc.advance 1)
    else
      match opening? c with
      | some opening => ⟨[], some opening, ⟨c :: rest, offset, loc⟩⟩
      | none =>
        let gap := gapFrom false rest (offset + 1) (loc.advance 1)
        { gap with news := wrongCharacter c loc :: gap.news }

/-- The outcome of one reading: what was reported, and the token unless its lexeme is malformed. -/
structure Reading where
  news : List Diagnostic
  token : Option Token
deriving DecidableEq, Repr

namespace Reading

def isEof (r : Reading) : Bool :=
  match r.token with
  | some token => token.kind = .eof
  | none => false

end Reading

end Token

namespace Cursor

open Token

def gap (c : Cursor) : Gap :=
  gapFrom false c.rest c.offset c.loc

/-- Reads the next token. -/
def read (c : Cursor) : Reading × Cursor :=
  let gap := c.gap
  match gap.opening with
  | none => (⟨gap.news, some ⟨.eof, gap.after.loc⟩⟩, gap.after)
  | some opening =>
    let lexeme := readLexeme opening gap.after
    (⟨gap.news ++ lexeme.news, lexeme.kind.map (⟨·, gap.after.loc⟩)⟩, lexeme.after)

end Cursor

namespace Token

theorem gapFrom_rest (inComment : Bool) (text : List Char) (offset : Nat) (loc : Location) :
    (gapFrom inComment text offset loc).after.rest.length ≤ text.length ∧
      ∀ opening, (gapFrom inComment text offset loc).opening = some opening →
        ∃ c rest, (gapFrom inComment text offset loc).after.rest = c :: rest ∧
          opening? c = some opening := by
  induction text generalizing inComment offset loc with
  | nil => simp [gapFrom]
  | cons c rest ih =>
    rw [gapFrom]
    split
    · exact ⟨Nat.le_succ_of_le (ih ..).1, (ih ..).2⟩
    split
    · exact ⟨Nat.le_succ_of_le (ih ..).1, (ih ..).2⟩
    split
    · exact ⟨Nat.le_succ_of_le (ih ..).1, (ih ..).2⟩
    split
    · rename_i opening hc
      refine ⟨Nat.le_refl _, fun o ho => ⟨c, rest, rfl, ?_⟩⟩
      rw [hc]
      exact ho
    · exact ⟨Nat.le_succ_of_le (ih ..).1, (ih ..).2⟩

theorem stringTail_rest (text : List Char) (offset : Nat) (loc : Location) :
    (stringTail text offset loc).after.rest.length ≤ text.length := by
  cases text with
  | nil => exact Nat.le_refl _
  | cons c rest =>
    have ih := stringTail_rest rest
    unfold stringTail
    split
    · exact Nat.le_succ _
    split
    · cases rest with
      | nil => exact Nat.zero_le _
      | cons escaped rest =>
        have ih := stringTail_rest rest
        simp only [List.length_cons]
        split
        · cases rest with
          | nil => exact Nat.zero_le _
          | cons next further =>
            have ih' := stringTail_rest further
            simp only [List.length_cons] at ih ⊢
            split
            · exact Nat.le_trans (ih' ..) (by omega)
            · exact Nat.le_trans (ih ..) (by omega)
        split
        · exact Nat.le_trans (ih ..) (by omega)
        split <;> exact Nat.le_trans (ih ..) (by omega)
    split
    · exact Nat.le_refl _
    · exact Nat.le_succ_of_le (ih ..)

theorem opening?_eq_number {c : Char} (h : opening? c = some .number) : isDigit c = true := by
  unfold opening? at h
  split at h
  · cases h
  split at h
  · assumption
  split at h
  · cases h
  split at h
  · cases h
  · cases hc : Punctuation.ofChar? c <;> simp [hc] at h

theorem opening?_eq_word {c : Char} (h : opening? c = some .word) : beginsWord c = true := by
  unfold opening? at h
  split at h
  · cases h
  split at h
  · cases h
  split at h
  · assumption
  split at h
  · cases h
  · cases hc : Punctuation.ofChar? c <;> simp [hc] at h

theorem continuesWord_of_beginsWord {c : Char} (h : beginsWord c = true) :
    continuesWord c = true := by
  simp only [beginsWord, continuesWord, Bool.or_eq_true] at *
  exact h.elim (fun h => Or.inl (Or.inl h)) Or.inr

theorem pass_rest_lt {c : Cursor} {count : Nat} (hc : c.rest ≠ []) (hcount : count ≠ 0) :
    (c.pass count).rest.length < c.rest.length := by
  have := List.length_pos_iff.2 hc
  simp only [Cursor.pass, List.length_drop]
  omega

theorem readString_rest_lt {c : Cursor} (hc : c.rest ≠ []) :
    (readString c).after.rest.length < c.rest.length := by
  have := stringTail_rest (c.rest.drop 1) (c.offset + 1) (c.loc.advance 1)
  have hpos := List.length_pos_iff.2 hc
  rw [List.length_drop] at this
  unfold readString
  dsimp only
  split <;> dsimp only <;> omega

theorem readNumber_rest_lt {c : Cursor} {first : Char} {rest : List Char}
    (hc : c.rest = first :: rest) (hfirst : isDigit first = true) :
    (readNumber c).after.rest.length < c.rest.length := by
  have hne : c.rest ≠ [] := by simp [hc]
  have hlen : (c.rest.takeWhile isDigit).length ≠ 0 := by simp [hc, hfirst]
  unfold readNumber
  dsimp only
  split
  · exact pass_rest_lt hne (by omega)
  split
  · exact pass_rest_lt hne hlen
  · exact pass_rest_lt hne hlen

theorem readWord_rest_lt {c : Cursor} {first : Char} {rest : List Char}
    (hc : c.rest = first :: rest) (hfirst : beginsWord first = true) :
    (readWord c).after.rest.length < c.rest.length := by
  have hlen : (c.rest.takeWhile continuesWord).length ≠ 0 := by
    simp [hc, continuesWord_of_beginsWord hfirst]
  exact pass_rest_lt (by simp [hc]) hlen

theorem readSymbol_rest_lt {single : Kind} {c : Cursor} (hc : c.rest ≠ []) :
    (readSymbol single c).after.rest.length < c.rest.length := by
  unfold readSymbol
  split
  · split <;> exact pass_rest_lt hc (by omega)
  · exact pass_rest_lt hc (by omega)

theorem readLexeme_rest_lt {opening : Opening} {c : Cursor} {first : Char} {rest : List Char}
    (hc : c.rest = first :: rest) (hfirst : opening? first = some opening) :
    (readLexeme opening c).after.rest.length < c.rest.length := by
  have hne : c.rest ≠ [] := by simp [hc]
  cases opening with
  | string => exact readString_rest_lt hne
  | number => exact readNumber_rest_lt hc (opening?_eq_number hfirst)
  | word => exact readWord_rest_lt hc (opening?_eq_word hfirst)
  | symbol single => exact readSymbol_rest_lt hne

/-- A reading that does not give the end of the file moves the cursor on. -/
theorem read_rest_lt {c : Cursor} (h : c.read.1.isEof = false) :
    c.read.2.rest.length < c.rest.length := by
  have hgap := gapFrom_rest false c.rest c.offset c.loc
  unfold Cursor.read at h ⊢
  dsimp only at h ⊢
  split at h
  · simp [Reading.isEof] at h
  · rename_i opening hopening
    obtain ⟨first, rest, hrest, hfirst⟩ := hgap.2 opening hopening
    exact Nat.lt_of_lt_of_le (readLexeme_rest_lt hrest hfirst) hgap.1

/-- Every reading from a cursor on, up to the end of the file. -/
def readings (c : Cursor) : List Reading :=
  c.read.1 :: if _h : c.read.1.isEof = true then [] else readings c.read.2
termination_by c.rest.length
decreasing_by exact read_rest_lt (by simpa using _h)

/-- The tokens of a text, or none if the error count has grown on the way. Reading goes on past a
malformed lexeme, so that every one of them is reported. -/
def lex (log : Log) (text : List Char) : Option (List Token) × Log :=
  let all := readings (.start text)
  let after := log.append (all.flatMap (·.news))
  (if log.errorCount < after.errorCount then none else some (all.filterMap (·.token)), after)

end Token

end LarkCheck
