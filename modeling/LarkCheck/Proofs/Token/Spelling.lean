import LarkCheck.Proofs.Tree.Canonical
import LarkCheck.Token.Reading

/-!
# Reading a spelling

A token that can be written reads as itself if white space or the end of the text
follows. White space opens no lexeme, so no reader goes on into it: a word and a
number end there, and no operator has it as its second character.
-/

namespace LarkCheck

namespace Token

/-- Every character of white space. -/
def whites : List Char :=
  [' ', '\t', '\x0b', '\x0c', '\r', '\u00a0', '\u1680', '\u2000', '\u2001', '\u2002', '\u2003',
    '\u2004', '\u2005', '\u2006', '\u2007', '\u2008', '\u2009', '\u200a', '\u202f', '\u205f',
    '\u3000', '\n', '\u0085', '\u2028', '\u2029']

theorem mem_whites {c : Char} (h : isWhite c = true) : c ∈ whites := by
  simp only [isWhite, Text.isBlank, Text.isLineBreak, Bool.or_eq_true, Bool.and_eq_true,
    decide_eq_true_eq] at h
  by_cases hrange : '\u2000' ≤ c ∧ c ≤ '\u200a'
  · have hlow : 0x2000 ≤ c.toNat := hrange.1
    have hhigh : c.toNat ≤ 0x200a := hrange.2
    have hc : c = Char.ofNat (0x2000 + (c.toNat - 0x2000)) := by
      rw [Nat.add_sub_cancel' hlow, Char.ofNat_toNat]
    have hall : ∀ i < 11, Char.ofNat (0x2000 + i) ∈ whites := by decide
    rw [hc]
    exact hall _ (by omega)
  · simp only [hrange, or_false] at h
    rcases h with ((((((((((rfl | rfl) | rfl) | rfl) | rfl) | rfl) | rfl) | rfl) | rfl) | rfl) |
      ((rfl | rfl) | rfl) | rfl) <;> decide

/-- What a test says of every white character it says of white space. -/
theorem of_isWhite {p : Char → Bool} (hp : whites.all p = true) {c : Char}
    (h : isWhite c = true) : p c = true :=
  List.all_eq_true.1 hp c (mem_whites h)

theorem opening?_eq_none_of_isWhite {c : Char} (h : isWhite c = true) : opening? c = none := by
  have hnone := of_isWhite (p := fun c => (opening? c).isNone) (by decide) h
  exact Option.isNone_iff_eq_none.1 hnone

/-- A text in which the lexeme before it ends: it is empty or begins with white space. -/
def Ended (text : List Char) : Prop :=
  ∀ c ∈ text.head?, isWhite c = true

variable {c : Char} {text : List Char}

theorem Ended.takeWhile_append {p : Char → Bool} (hp : whites.all (fun c => !p c) = true)
    {word : List Char} (hword : ∀ c ∈ word, p c = true) (h : Ended text) :
    (word ++ text).takeWhile p = word := by
  have hnil : text.takeWhile p = [] := by
    cases text with
    | nil => rfl
    | cons c text =>
      have hc : p c = false := by simpa using of_isWhite hp (h c rfl)
      simp [hc]
  rw [List.takeWhile_append_of_pos hword, hnil, List.append_nil]

theorem readWord_append {first : Char} {rest : List Char} (hfirst : beginsWord first = true)
    (hrest : ∀ c ∈ rest, continuesWord c = true) (h : Ended text) (offset : Nat) (loc : Location) :
    readWord ⟨first :: rest ++ text, offset, loc⟩ =
      ⟨some (wordKind (first :: rest)), [], ⟨text, offset + (rest.length + 1),
        loc.advance (rest.length + 1)⟩⟩ := by
  have hword : ∀ c ∈ first :: rest, continuesWord c = true :=
    List.forall_mem_cons.2 ⟨continuesWord_of_beginsWord hfirst, hrest⟩
  have htake : (first :: rest ++ text).takeWhile continuesWord = first :: rest :=
    h.takeWhile_append (by decide) hword
  simp only [readWord, htake, Cursor.pass, List.length_cons]
  rw [show rest.length + 1 = (first :: rest).length from rfl, List.drop_left]

/-- Reserved words have the shape of names. -/
theorem spelling_keyword (kw : Keyword) :
    ∃ first rest, kw.spelling.toList = first :: rest ∧ beginsWord first = true ∧
      ∀ c ∈ rest, continuesWord c = true := by
  cases kw <;> exact ⟨_, _, rfl, by decide, List.all_eq_true.1 (by decide)⟩

theorem wordKind_spelling (kw : Keyword) :
    wordKind kw.spelling.toList = .ofKeyword kw := by
  cases kw <;> decide

theorem wordKind_of_isName {name : String} (h : IsName name) :
    wordKind name.toList = .ident name := by
  have hreserved : Keyword.ofSpelling? name = none := by
    unfold Keyword.ofSpelling?
    split
    · exact List.find?_eq_none.2 fun kw _ hkw => h.2 kw (by simpa using hkw)
    · rfl
  unfold wordKind
  rw [String.ofList_toList, hreserved]
  simp

theorem ofPair?_eq_none {first : Char} (h : isWhite c = true) :
    Operator.ofPair? first c = none := by
  have hsecond := of_isWhite (p := fun c => Operator.all.all fun op =>
    op.spelling.toList[1]? != some c) (by decide) h
  refine List.find?_eq_none.2 fun op hop hspelling => ?_
  have hspelling : op.spelling.toList = [first, c] := by simpa using hspelling
  have hother := List.all_eq_true.1 hsecond op hop
  rw [hspelling] at hother
  simp at hother

theorem readSymbol_single {first : Char} {single : Kind} (h : Ended text) (offset : Nat)
    (loc : Location) : readSymbol single ⟨first :: text, offset, loc⟩ =
      ⟨some single, [], ⟨text, offset + 1, loc.advance 1⟩⟩ := by
  cases text with
  | nil => rfl
  | cons c text =>
    have : Operator.ofPair? first c = none := ofPair?_eq_none (h c rfl)
    simp [readSymbol, this, Cursor.pass]

theorem spelling_operator (op : Operator) :
    (∃ first, op.spelling.toList = [first] ∧ opening? first = some (.symbol (.operator op))) ∨
      ∃ first second single, op.spelling.toList = [first, second] ∧
        opening? first = some (.symbol single) ∧ Operator.ofPair? first second = some op := by
  cases op
  case shiftLeft | lessEqual => exact .inr ⟨_, _, .operator .less, rfl, by decide, by decide⟩
  case shiftRight | greaterEqual =>
    exact .inr ⟨_, _, .operator .greater, rfl, by decide, by decide⟩
  case equalEqual => exact .inr ⟨_, _, .operator .assign, rfl, by decide, by decide⟩
  case notEqual => exact .inr ⟨_, _, .operator .bang, rfl, by decide, by decide⟩
  case andAnd => exact .inr ⟨_, _, .operator .ampersand, rfl, by decide, by decide⟩
  case orOr => exact .inr ⟨_, _, .operator .pipe, rfl, by decide, by decide⟩
  all_goals exact .inl ⟨_, rfl, by decide⟩

theorem opening?_punctuation (mark : Punctuation) :
    opening? mark.char = some (.symbol (.punctuation mark)) := by
  cases mark <;> decide

theorem isDigit_of_mem_toDigits {n : Nat} (h : c ∈ Nat.toDigits 10 n) : isDigit c = true :=
  Nat.isDigit_of_mem_toDigits (by decide) (by decide) h

theorem opening?_of_isDigit (h : isDigit c = true) : opening? c = some .number := by
  have hquote : c ≠ '"' := by
    rintro rfl
    revert h
    decide
  simp [opening?, hquote, h]

theorem decimalValue_toDigits (n : Nat) : decimalValue (Nat.toDigits 10 n) = n := by
  have h := @Nat.ofDigitChars_ten_toDigits n
  simp only [Nat.ofDigitChars_eq_foldl, Nat.mul_comm 10] at h
  exact h

theorem fractionDigits_eq_nil (h : Ended text) : fractionDigits text = [] := by
  cases text with
  | nil => rfl
  | cons c text =>
    have hpoint := of_isWhite (p := fun c => c != '.') (by decide) (h c rfl)
    have hpoint : c ≠ '.' := by simpa using hpoint
    simp [fractionDigits, hpoint]

theorem readNumber_toDigits {n : Nat} (hn : n ≤ maxInteger) (h : Ended text) (offset : Nat)
    (loc : Location) : readNumber ⟨Nat.toDigits 10 n ++ text, offset, loc⟩ =
      ⟨some (.int n), [], ⟨text, offset + (Nat.toDigits 10 n).length,
        loc.advance (Nat.toDigits 10 n).length⟩⟩ := by
  have htake : (Nat.toDigits 10 n ++ text).takeWhile isDigit = Nat.toDigits 10 n :=
    h.takeWhile_append (by decide) fun _ => isDigit_of_mem_toDigits
  simp [readNumber, htake, fractionDigits_eq_nil h, integerValue?_eq, integer?,
    decimalValue_toDigits, hn, Cursor.pass]

theorem unescape?_ne {letter c : Char} (h : Text.unescape? letter = some c) :
    letter ≠ '\r' ∧ letter ≠ '\n' := by
  constructor <;>
  · rintro rfl
    revert h
    simp [Text.unescape?]

theorem stringTail_quote (rest : List Char) (offset : Nat) (loc : Location) :
    stringTail ('"' :: rest) offset loc = ⟨some [], [], ⟨rest, offset + 1, loc.advance 1⟩⟩ := by
  rw [stringTail.eq_def]
  simp

theorem stringTail_unescape {escaped d : Char} (hd : Text.unescape? escaped = some d)
    (hreturn : escaped ≠ '\r') (hline : escaped ≠ '\n') (rest : List Char) (offset : Nat)
    (loc : Location) : stringTail ('\\' :: escaped :: rest) offset loc =
      (stringTail rest (offset + 2) (loc.advance 2)).prepend [d] := by
  rw [stringTail.eq_def]
  simp [hd, hreturn, hline]

theorem stringTail_unknown {escaped : Char} (hd : Text.unescape? escaped = none)
    (hreturn : escaped ≠ '\r') (hline : escaped ≠ '\n') (rest : List Char) (offset : Nat)
    (loc : Location) : stringTail ('\\' :: escaped :: rest) offset loc =
      ((stringTail rest (offset + 2) (loc.advance 2)).prepend ['\\', escaped]).warn
        (.of .unknownEscapeSequence loc []) := by
  rw [stringTail.eq_def]
  simp [hd, hreturn, hline]

theorem stringTail_plain {c : Char} (hquote : c ≠ '"') (hslash : c ≠ '\\')
    (hend : ¬(c = '\r' || c = '\n')) (rest : List Char) (offset : Nat) (loc : Location) :
    stringTail (c :: rest) offset loc =
      (stringTail rest (offset + 1) (loc.advance 1)).prepend [c] := by
  rw [stringTail.eq_def]
  simp only [hquote, hslash, hend, if_false]
  simp

theorem stringTail_lineFeed (rest : List Char) (offset : Nat) (loc : Location) :
    stringTail ('\\' :: '\n' :: rest) offset loc = stringTail rest (offset + 2) loc.nextLine := by
  rw [stringTail.eq_def]
  simp

theorem stringTail_returnFeed (rest : List Char) (offset : Nat) (loc : Location) :
    stringTail ('\\' :: '\r' :: '\n' :: rest) offset loc =
      stringTail rest (offset + 3) loc.nextLine := by
  rw [stringTail.eq_def]
  simp

theorem stringTail_onlyReturn {next : Char} (hnext : next ≠ '\n') (rest : List Char) (offset : Nat)
    (loc : Location) : stringTail ('\\' :: '\r' :: next :: rest) offset loc =
      stringTail (next :: rest) (offset + 2) loc.nextLine := by
  rw [stringTail.eq_def]
  simp [hnext]

theorem stringTail_quotedChar (c : Char) (rest : List Char) (offset : Nat) (loc : Location) :
    stringTail (Text.quotedChar c ++ rest) offset loc =
      (stringTail rest (offset + (Text.quotedChar c).length)
        (loc.advance (Text.quotedChar c).length)).prepend [c] := by
  unfold Text.quotedChar
  split
  · rename_i letter hletter
    have hback := Text.unescape?_escapeOf? hletter
    obtain ⟨hreturn, hline⟩ := unescape?_ne hback
    exact stringTail_unescape hback hreturn hline rest offset loc
  · rename_i hplain
    have hquote : c ≠ '"' := by
      rintro rfl
      cases hplain
    have hslash : c ≠ '\\' := by
      rintro rfl
      cases hplain
    have hend : ¬(c = '\r' || c = '\n') := by
      rw [Bool.or_eq_true, decide_eq_true_eq, decide_eq_true_eq]
      rintro (rfl | rfl) <;> cases hplain
    exact stringTail_plain hquote hslash hend rest offset loc

theorem stringTail_flatMap (value : List Char) (rest : List Char) (offset : Nat) (loc : Location) :
    stringTail (value.flatMap Text.quotedChar ++ '"' :: rest) offset loc =
      ⟨some value, [], ⟨rest, offset + ((value.flatMap Text.quotedChar).length + 1),
        loc.advance ((value.flatMap Text.quotedChar).length + 1)⟩⟩ := by
  induction value generalizing offset loc with
  | nil => exact stringTail_quote rest offset loc
  | cons c value ih =>
    rw [List.flatMap_cons, List.append_assoc, stringTail_quotedChar, ih]
    simp only [StringTail.prepend, Option.map_some, List.singleton_append, List.length_append,
      Location.advance, Nat.add_assoc]

theorem readString_quotedChars (value : String) (offset : Nat) (loc : Location) :
    readString ⟨Text.quotedChars value.toList ++ text, offset, loc⟩ =
      ⟨some (.string value), [], ⟨text, offset + (Text.quotedChars value.toList).length,
        loc.advance (Text.quotedChars value.toList).length⟩⟩ := by
  have hrest : (Text.quotedChars value.toList ++ text).drop 1 =
      value.toList.flatMap Text.quotedChar ++ '"' :: text := by simp [Text.quotedChars]
  simp only [readString, hrest, stringTail_flatMap, String.ofList_toList]
  simp only [Text.quotedChars, List.length_cons, List.length_append, List.length_nil,
    Location.advance, Nat.add_assoc, Nat.add_comm 1]

/-- Before `text`, the spelling of the kind is read as one lexeme of this kind. -/
def LexesBefore (kind : Kind) (text : List Char) : Prop :=
  ∃ first rest opening, kind.spelling = first :: rest ∧ opening? first = some opening ∧
    ∀ offset loc, readLexeme opening ⟨kind.spelling ++ text, offset, loc⟩ =
      ⟨some kind, [], ⟨text, offset + kind.spelling.length, loc.advance kind.spelling.length⟩⟩

theorem opening?_of_beginsWord (h : beginsWord c = true) : opening? c = some .word := by
  have hquote : c ≠ '"' := by
    rintro rfl
    revert h
    decide
  have hdigit : isDigit c = false := by
    simp only [isDigit, Bool.and_eq_false_iff, decide_eq_false_iff_not]
    simp only [beginsWord, isLetter, Bool.or_eq_true, Bool.and_eq_true, decide_eq_true_eq] at h
    refine .inr fun h9 => ?_
    obtain (⟨ha, -⟩ | ⟨hA, -⟩) | rfl := h
    · exact absurd (Char.le_trans ha h9) (by decide)
    · exact absurd (Char.le_trans hA h9) (by decide)
    · exact absurd h9 (by decide)
  simp [opening?, hquote, hdigit, h]

theorem lexesBefore_word {kind : Kind} (hkind : wordKind kind.spelling = kind)
    (hspelling : ∃ first rest, kind.spelling = first :: rest ∧ beginsWord first = true ∧
      ∀ c ∈ rest, continuesWord c = true) (h : Ended text) : LexesBefore kind text := by
  obtain ⟨first, rest, heq, hfirst, hrest⟩ := hspelling
  refine ⟨first, rest, .word, heq, opening?_of_beginsWord hfirst, fun offset loc => ?_⟩
  rw [heq] at hkind ⊢
  rw [readLexeme, readWord_append hfirst hrest h, hkind]
  rfl

theorem lexesBefore_keyword (kw : Keyword) {kind : Kind} (hkind : Kind.ofKeyword kw = kind)
    (hspelling : kind.spelling = kw.spelling.toList) (h : Ended text) : LexesBefore kind text := by
  refine lexesBefore_word (by rw [hspelling, wordKind_spelling, hkind]) ?_ h
  rw [hspelling]
  exact spelling_keyword kw

theorem lexesBefore_of_writable {kind : Kind} (hk : kind.Writable) (h : Ended text) :
    LexesBefore kind text := by
  cases kind with
  | keyword kw => exact lexesBefore_keyword kw hk rfl h
  | operator op =>
    obtain ⟨first, heq, ho⟩ | ⟨first, second, single, heq, ho, hpair⟩ := spelling_operator op
    · refine ⟨first, [], _, heq, ho, fun offset loc => ?_⟩
      simp only [Kind.spelling, heq]
      exact readSymbol_single h offset loc
    · refine ⟨first, [second], _, heq, ho, fun offset loc => ?_⟩
      simp only [Kind.spelling, heq]
      simp [readLexeme, readSymbol, hpair, Cursor.pass]
  | punctuation mark =>
    exact ⟨mark.char, [], _, rfl, opening?_punctuation mark, readSymbol_single h⟩
  | ident name => exact lexesBefore_word (wordKind_of_isName hk) hk.1 h
  | int value =>
    obtain ⟨hpos, hmax⟩ := hk
    obtain ⟨n, rfl⟩ := Int.eq_ofNat_of_zero_le hpos
    cases hdigits : Nat.toDigits 10 n with
    | nil => exact absurd hdigits Nat.toDigits_ne_nil
    | cons first rest =>
      have hfirst : isDigit first = true := isDigit_of_mem_toDigits (n := n) (by simp [hdigits])
      refine ⟨first, rest, .number, hdigits, opening?_of_isDigit hfirst, fun offset loc => ?_⟩
      exact readNumber_toDigits (by omega) h offset loc
  | real value => exact hk.elim
  | string value =>
    exact ⟨'"', _, .string, rfl, rfl, readString_quotedChars value⟩
  | bool value =>
    cases value
    · exact lexesBefore_keyword .falseKw rfl rfl h
    · exact lexesBefore_keyword .trueKw rfl rfl h
  | nil => exact lexesBefore_keyword .nilKw rfl rfl h
  | eof => exact hk.elim

end Token

end LarkCheck
