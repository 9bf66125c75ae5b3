import LarkCheck.Proofs.Token.Splice

/-!
# The lexemes of the language

Which words are lexemes, and which tokens they stand for, without regard to how they
are read. A text may begin with several of them, one inside of the other: the longest
is what a reader is to take.
-/

namespace LarkCheck

namespace Token

/-- White space that stays on its line: blanks of ASCII and the space separators. -/
def Blank (c : Char) : Prop :=
  c ∈ [' ', '\t', '\x0b', '\x0c', '\r', '\u00a0', '\u1680', '\u202f', '\u205f', '\u3000'] ∨
    ('\u2000' ≤ c ∧ c ≤ '\u200a')

def LineBreak (c : Char) : Prop :=
  c ∈ ['\n', '\u0085', '\u2028', '\u2029']

def Digit (c : Char) : Prop :=
  '0' ≤ c ∧ c ≤ '9'

def Letter (c : Char) : Prop :=
  ('a' ≤ c ∧ c ≤ 'z') ∨ ('A' ≤ c ∧ c ≤ 'Z')

section Classes

variable {c : Char}

instance : Decidable (Blank c) :=
  inferInstanceAs (Decidable (_ ∨ _))

instance : Decidable (LineBreak c) :=
  inferInstanceAs (Decidable (_ ∈ _))

theorem isBlank_iff : Text.isBlank c = true ↔ Blank c := by
  simp only [Text.isBlank, Blank, Bool.or_eq_true, Bool.and_eq_true, decide_eq_true_eq,
    List.mem_cons, List.not_mem_nil]
  grind

theorem isLineBreak_iff : Text.isLineBreak c = true ↔ LineBreak c := by
  simp [Text.isLineBreak, LineBreak, or_assoc]

theorem isDigit_iff : isDigit c = true ↔ Digit c := by
  simp [isDigit, Digit]

theorem isLetter_iff : isLetter c = true ↔ Letter c := by
  simp [isLetter, Letter]

theorem beginsWord_iff : beginsWord c = true ↔ Letter c ∨ c = '_' := by
  simp [beginsWord, isLetter_iff]

theorem continuesWord_iff : continuesWord c = true ↔ Letter c ∨ Digit c ∨ c = '_' := by
  simp [continuesWord, isLetter_iff, isDigit_iff, or_assoc]

theorem continuesWord_of_isDigit (h : isDigit c = true) : continuesWord c = true := by
  simp [continuesWord, h]

end Classes

/-- The letters after a backslash, with the characters that they stand for. -/
def escapes : List (Char × Char) :=
  [('n', '\n'), ('t', '\t'), ('0', '\x00'), ('r', '\r'), ('\'', '\''), ('"', '"'), ('\\', '\\'),
   ('a', '\x07'), ('b', '\x08'), ('f', '\x0c'), ('v', '\x0b')]

theorem unescape?_eq_some {letter c : Char} :
    Text.unescape? letter = some c ↔ (letter, c) ∈ escapes := by
  constructor
  · fun_cases Text.unescape? letter
    all_goals
      intro h
      cases h
    all_goals
      subst_vars
      decide
  · intro h
    simp only [escapes, List.mem_cons, Prod.mk.injEq, List.not_mem_nil, or_false] at h
    rcases h with ⟨rfl, rfl⟩ | ⟨rfl, rfl⟩ | ⟨rfl, rfl⟩ | ⟨rfl, rfl⟩ | ⟨rfl, rfl⟩ | ⟨rfl, rfl⟩ |
      ⟨rfl, rfl⟩ | ⟨rfl, rfl⟩ | ⟨rfl, rfl⟩ | ⟨rfl, rfl⟩ | ⟨rfl, rfl⟩ <;> rfl

theorem unescape?_eq_none {letter : Char} :
    Text.unescape? letter = none ↔ ∀ c, (letter, c) ∉ escapes := by
  simp only [← unescape?_eq_some, Option.eq_none_iff_forall_ne_some, Ne]

/-- The text begins with what can stand between the quotes of a literal, and goes on with `rest`. A
backslash takes the end of a line with it, which is LF, CR or both, and nothing else does. -/
inductive StringRun : (text value rest : List Char) → Prop
  | stop {rest : List Char} : StringRun rest [] rest
  | plain {c : Char} {text value rest : List Char} : c ≠ '"' → c ≠ '\\' → c ≠ '\r' → c ≠ '\n' →
    StringRun text value rest → StringRun (c :: text) (c :: value) rest
  | escape {letter c : Char} {text value rest : List Char} : (letter, c) ∈ escapes →
    StringRun text value rest → StringRun ('\\' :: letter :: text) (c :: value) rest
  | unknown {letter : Char} {text value rest : List Char} : (∀ c, (letter, c) ∉ escapes) →
    letter ≠ '\r' → letter ≠ '\n' → StringRun text value rest →
    StringRun ('\\' :: letter :: text) ('\\' :: letter :: value) rest
  | lineFeed {text value rest : List Char} : StringRun text value rest →
    StringRun ('\\' :: '\n' :: text) value rest
  | returnFeed {text value rest : List Char} : StringRun text value rest →
    StringRun ('\\' :: '\r' :: '\n' :: text) value rest
  | onlyReturn {text value rest : List Char} : text.head? ≠ some '\n' →
    StringRun text value rest → StringRun ('\\' :: '\r' :: text) value rest

/-- Where a literal is left open: at the end of the text, a last backslash included, or before the
end of a line. -/
inductive Open : (rest after : List Char) → Prop
  | atEnd : Open [] []
  | atBackslash : Open ['\\'] []
  | atLine {c : Char} {rest : List Char} : c = '\r' ∨ c = '\n' → Open (c :: rest) (c :: rest)

variable {text value rest more : List Char}

/-- The run is the same if more text follows it. -/
theorem StringRun.append {c : Char} (h : StringRun text value (c :: rest)) :
    StringRun (text ++ more) value (c :: rest ++ more) := by
  generalize hend : c :: rest = stop at h
  induction h with
  | stop => exact .stop
  | plain hquote hslash hreturn hline _ ih =>
    exact .plain hquote hslash hreturn hline (ih hend)
  | escape hletter _ ih => exact .escape hletter (ih hend)
  | unknown hletter hreturn hline _ ih => exact .unknown hletter hreturn hline (ih hend)
  | lineFeed _ ih => exact .lineFeed (ih hend)
  | returnFeed _ ih => exact .returnFeed (ih hend)
  | @onlyReturn text value rest' hhead h ih =>
    refine .onlyReturn ?_ (ih hend)
    cases text with
    | nil =>
      cases h
      cases hend
    | cons d text => exact hhead

/-- The run to a quote is that of a word which ends with the quote. -/
theorem StringRun.cut (h : StringRun text value ('"' :: rest)) :
    ∃ word, text = word ++ rest ∧ StringRun word value ['"'] := by
  generalize hend : '"' :: rest = stop at h
  induction h with
  | stop =>
    subst hend
    exact ⟨['"'], rfl, .stop⟩
  | plain hquote hslash hreturn hline _ ih =>
    obtain ⟨word, rfl, hword⟩ := ih hend
    exact ⟨_ :: word, rfl, .plain hquote hslash hreturn hline hword⟩
  | escape hletter _ ih =>
    obtain ⟨word, rfl, hword⟩ := ih hend
    exact ⟨'\\' :: _ :: word, rfl, .escape hletter hword⟩
  | unknown hletter hreturn hline _ ih =>
    obtain ⟨word, rfl, hword⟩ := ih hend
    exact ⟨'\\' :: _ :: word, rfl, .unknown hletter hreturn hline hword⟩
  | lineFeed _ ih =>
    obtain ⟨word, rfl, hword⟩ := ih hend
    exact ⟨'\\' :: '\n' :: word, rfl, .lineFeed hword⟩
  | returnFeed _ ih =>
    obtain ⟨word, rfl, hword⟩ := ih hend
    exact ⟨'\\' :: '\r' :: '\n' :: word, rfl, .returnFeed hword⟩
  | onlyReturn hhead h ih =>
    obtain ⟨word, rfl, hword⟩ := ih hend
    refine ⟨'\\' :: '\r' :: word, rfl, .onlyReturn ?_ hword⟩
    cases word with
    | nil => simp
    | cons d word => exact hhead

/-- A run of digits, with its value in base ten, this value rounded to a binary number after every
digit, and the power of ten of the length, rounded in the same way. -/
inductive DigitRun : (run : List Char) → (value : Nat) → (rounded power : Float) → Prop
  | empty : DigitRun [] 0 0.0 1.0
  | append {run : List Char} {value : Nat} {rounded power : Float} {digit : Char} :
    DigitRun run value rounded power → Digit digit →
    DigitRun (run ++ [digit]) (value * 10 + (digit.toNat - '0'.toNat))
      (rounded * 10.0 + Float.ofNat (digit.toNat - '0'.toNat)) (power * 10.0)

/-- The power of ten with as many zeros as there are digits, rounded after each of them. -/
def roundedPower (run : List Char) : Float :=
  run.foldl (fun power _ => power * 10.0) 1.0

theorem DigitRun.append_run {run more : List Char} {value : Nat} {rounded power : Float}
    (h : DigitRun run value rounded power) (hmore : ∀ c ∈ more, isDigit c = true) :
    DigitRun (run ++ more) (more.foldl (fun value d => value * 10 + digitValue d) value)
      (more.foldl (fun value d => value * 10.0 + Float.ofNat (digitValue d)) rounded)
      (more.foldl (fun power _ => power * 10.0) power) := by
  induction more generalizing run value rounded power with
  | nil => rwa [List.append_nil]
  | cons digit more ih =>
    obtain ⟨hdigit, hmore⟩ := List.forall_mem_cons.1 hmore
    have hrun := ih (h.append (isDigit_iff.1 hdigit)) hmore
    rwa [List.append_assoc] at hrun

/-- Every run of digits has one value of each kind, which the reader collects. -/
theorem digitRun_iff {run : List Char} {value : Nat} {rounded power : Float} :
    DigitRun run value rounded power ↔ (∀ c ∈ run, isDigit c = true) ∧
      value = decimalValue run ∧ rounded = roundedValue run ∧ power = roundedPower run := by
  constructor
  · intro h
    induction h with
    | empty => exact ⟨by simp, rfl, rfl, rfl⟩
    | append _ hdigit ih =>
      obtain ⟨hrun, rfl, rfl, rfl⟩ := ih
      refine ⟨List.forall_mem_append.2 ⟨hrun, ?_⟩, ?_, ?_, ?_⟩
      · exact List.forall_mem_singleton.2 (isDigit_iff.2 hdigit)
      · simp [decimalValue, digitValue]
      · simp [roundedValue, digitValue]
      · simp [roundedPower]
  · rintro ⟨hrun, rfl, rfl, rfl⟩
    exact DigitRun.empty.append_run hrun

/-- The kind of the token of a reserved word: `true`, `false` and `nil` stand for values. -/
inductive Registered : Keyword → Kind → Prop
  | trueWord : Registered .trueKw (.bool true)
  | falseWord : Registered .falseKw (.bool false)
  | nilWord : Registered .nilKw .nil
  | keyword {kw : Keyword} : kw ≠ .trueKw → kw ≠ .falseKw → kw ≠ .nilKw →
    Registered kw (.keyword kw)

theorem registered_iff {kw : Keyword} {kind : Kind} :
    Registered kw kind ↔ .ofKeyword kw = kind := by
  constructor
  · intro h
    cases h with
    | keyword htrue hfalse hnil => cases kw <;> first | rfl | contradiction
    | _ => rfl
  · rintro rfl
    cases kw <;> first | exact .keyword (by decide) (by decide) (by decide) | constructor

/-- The word is a lexeme and stands for a token of this kind, or for none if it is an integer above
the greatest one of 64 bits. A real is the sum of its whole and its fraction, which is divided by
the power of ten of its length. -/
inductive Spells : List Char → Option Kind → Prop
  | reserved {kw : Keyword} {kind : Kind} : Registered kw kind →
    Spells kw.spelling.toList (some kind)
  | name {first : Char} {rest : List Char} : Letter first ∨ first = '_' →
    (∀ c ∈ rest, Letter c ∨ Digit c ∨ c = '_') →
    (∀ kw : Keyword, kw.spelling.toList ≠ first :: rest) →
    Spells (first :: rest) (some (.ident (String.ofList (first :: rest))))
  | int {run : List Char} {value : Nat} {rounded power : Float} : run ≠ [] →
    DigitRun run value rounded power → value ≤ 9223372036854775807 →
    Spells run (some (.int value))
  | tooLarge {run : List Char} {value : Nat} {rounded power : Float} : run ≠ [] →
    DigitRun run value rounded power → 9223372036854775807 < value → Spells run none
  | real {whole fraction : List Char} {m n : Nat} {a b p q : Float} : whole ≠ [] →
    DigitRun whole m a p → fraction ≠ [] → DigitRun fraction n b q →
    Spells (whole ++ '.' :: fraction) (some (.real ⟨(a + b / q).toBits⟩))
  | operator (op : Operator) : Spells op.spelling.toList (some (.operator op))
  | punctuation (mark : Punctuation) : Spells [mark.char] (some (.punctuation mark))
  | string {text value : List Char} : StringRun text value ['"'] →
    Spells ('"' :: text) (some (.string (String.ofList value)))

/-- The lexemes that are read as a number, with what the reader makes of them. -/
theorem spells_int {digits : List Char} (hne : digits ≠ [])
    (hdigits : ∀ c ∈ digits, isDigit c = true) (hvalue : decimalValue digits ≤ maxInteger) :
    Spells digits (some (.int (decimalValue digits))) :=
  .int hne (digitRun_iff.2 ⟨hdigits, rfl, rfl, rfl⟩) hvalue

theorem spells_tooLarge {digits : List Char} (hne : digits ≠ [])
    (hdigits : ∀ c ∈ digits, isDigit c = true) (hvalue : maxInteger < decimalValue digits) :
    Spells digits none :=
  .tooLarge hne (digitRun_iff.2 ⟨hdigits, rfl, rfl, rfl⟩) hvalue

theorem spells_real {whole fraction : List Char} (hne : whole ≠ [])
    (hwhole : ∀ c ∈ whole, isDigit c = true) (hfraction : fraction ≠ [])
    (hdigits : ∀ c ∈ fraction, isDigit c = true) :
    Spells (whole ++ '.' :: fraction) (some (.real (realValue whole fraction))) :=
  .real hne (digitRun_iff.2 ⟨hwhole, rfl, rfl, rfl⟩) hfraction
    (digitRun_iff.2 ⟨hdigits, rfl, rfl, rfl⟩)

/-- A lexeme other than a string is made of what continues words, of operators and of marks. -/
theorem Spells.of_mem {word : List Char} {kind? : Option Kind} (h : Spells word kind?)
    (hquote : word.head? ≠ some '"') {x : Char} (hx : x ∈ word) :
    continuesWord x = true ∨ (∃ op : Operator, x ∈ op.spelling.toList) ∨
      ∃ mark : Punctuation, x = mark.char := by
  cases h with
  | @reserved kw =>
    have hall : kw.spelling.toList.all continuesWord = true := by cases kw <;> decide
    exact .inl (List.all_eq_true.1 hall x hx)
  | name hfirst hrest _ =>
    rcases List.mem_cons.1 hx with rfl | hx
    · exact .inl (continuesWord_of_beginsWord (beginsWord_iff.2 hfirst))
    · exact .inl (continuesWord_iff.2 (hrest x hx))
  | int _ hrun | tooLarge _ hrun =>
    exact .inl (continuesWord_of_isDigit ((digitRun_iff.1 hrun).1 x hx))
  | real _ hwhole _ hfraction =>
    rcases List.mem_append.1 hx with hx | hx
    · exact .inl (continuesWord_of_isDigit ((digitRun_iff.1 hwhole).1 x hx))
    rcases List.mem_cons.1 hx with rfl | hx
    · exact .inr (.inr ⟨.dot, rfl⟩)
    · exact .inl (continuesWord_of_isDigit ((digitRun_iff.1 hfraction).1 x hx))
  | operator op => exact .inr (.inl ⟨op, hx⟩)
  | punctuation mark => exact .inr (.inr ⟨mark, List.mem_singleton.1 hx⟩)
  | string => exact absurd rfl hquote

theorem isName_ofList {first : Char} {rest : List Char} (hfirst : beginsWord first = true)
    (hrest : ∀ c ∈ rest, continuesWord c = true)
    (hkw : ∀ kw : Keyword, kw.spelling.toList ≠ first :: rest) :
    IsName (String.ofList (first :: rest)) := by
  refine ⟨⟨first, rest, String.toList_ofList, hfirst, hrest⟩, fun kw hspelling => hkw kw ?_⟩
  rw [hspelling, String.toList_ofList]

theorem wordKind_name {first : Char} {rest : List Char} (hfirst : beginsWord first = true)
    (hrest : ∀ c ∈ rest, continuesWord c = true)
    (hkw : ∀ kw : Keyword, kw.spelling.toList ≠ first :: rest) :
    wordKind (first :: rest) = .ident (String.ofList (first :: rest)) := by
  have hkind := wordKind_of_isName (isName_ofList hfirst hrest hkw)
  rwa [String.toList_ofList] at hkind

/-- Every word in the shape of a name is reserved or a name. -/
theorem spells_word {first : Char} {rest : List Char} (hfirst : beginsWord first = true)
    (hrest : ∀ c ∈ rest, continuesWord c = true) :
    Spells (first :: rest) (some (wordKind (first :: rest))) := by
  by_cases hreserved : ∃ kw : Keyword, kw.spelling.toList = first :: rest
  · obtain ⟨kw, hkw⟩ := hreserved
    rw [← hkw, wordKind_spelling]
    exact .reserved (registered_iff.2 rfl)
  · have hkw : ∀ kw : Keyword, kw.spelling.toList ≠ first :: rest :=
      fun kw hkw => hreserved ⟨kw, hkw⟩
    rw [wordKind_name hfirst hrest hkw]
    exact .name (beginsWord_iff.1 hfirst) (fun c hc => continuesWord_iff.1 (hrest c hc)) hkw

/-- Every run of digits is a lexeme, even if it has no token. -/
theorem exists_spells_digits {digits : List Char} (hne : digits ≠ [])
    (hdigits : ∀ c ∈ digits, isDigit c = true) : ∃ kind?, Spells digits kind? := by
  by_cases hvalue : decimalValue digits ≤ maxInteger
  · exact ⟨_, spells_int hne hdigits hvalue⟩
  · exact ⟨_, spells_tooLarge hne hdigits (Nat.lt_of_not_le hvalue)⟩

/-- A character that opens a lexeme is one, unless it is a quote. -/
theorem exists_spells_of_opening {first : Char} {opening : Opening}
    (h : opening? first = some opening) (hquote : first ≠ '"') : ∃ kind?, Spells [first] kind? := by
  cases opening with
  | string => exact absurd (opening?_eq_string h) hquote
  | number => exact exists_spells_digits (List.cons_ne_nil _ _) (by simp [opening?_eq_number h])
  | word => exact ⟨_, spells_word (opening?_eq_word h) (fun c hc => nomatch hc)⟩
  | symbol single =>
    unfold opening? at h
    split at h
    · cases h
    split at h
    · cases h
    split at h
    · cases h
    split at h
    · rename_i op hop
      have hspelling : op.spelling.toList = [first] := by simpa using List.find?_some hop
      rw [← hspelling]
      exact ⟨_, .operator op⟩
    · obtain ⟨mark, hmark, -⟩ := Option.map_eq_some_iff.1 h
      rw [← Punctuation.char_of_ofChar? hmark]
      exact ⟨_, .punctuation mark⟩

/-- The word is the longest lexeme with which the text begins. -/
structure Longest (text word : List Char) (kind? : Option Kind) : Prop where
  spells : Spells word kind?
  begins : word <+: text
  length_le : ∀ other kind?, Spells other kind? → other <+: text → other.length ≤ word.length

/-- Nothing can be added to the longest lexeme. -/
theorem Longest.eq_nil {word added : List Char} {kind? kind'? : Option Kind}
    (h : Longest text word kind?) (hspells : Spells (word ++ added) kind'?)
    (hbegins : word ++ added <+: text) : added = [] := by
  have hle := h.length_le _ _ hspells hbegins
  rw [List.length_append] at hle
  exact List.eq_nil_of_length_eq_zero (by omega)

/-- The longest lexeme stops at a character with which it would go on. -/
theorem Longest.stops {word : List Char} {kind? : Option Kind} {p : Char → Bool}
    (h : Longest text word kind?) (hmore : word ++ more = text)
    (hlonger : ∀ c, p c = true → ∃ kind?, Spells (word ++ [c]) kind?) :
    ∀ c ∈ more.head?, p c = false := by
  intro c hc
  obtain ⟨rest, rfl⟩ := List.head?_eq_some_iff.1 hc
  rw [Bool.eq_false_iff]
  intro hp
  obtain ⟨kind'?, hspells⟩ := hlonger c hp
  have hbegins : word ++ [c] <+: text := ⟨rest, by rw [← hmore]; simp⟩
  exact List.cons_ne_nil c [] (h.eq_nil hspells hbegins)

/-- Among the lexemes with which a text begins there is a longest one. -/
theorem exists_longest {text word : List Char} {kind? : Option Kind} (h : Spells word kind?)
    (hbegins : word <+: text) : ∃ word kind?, Longest text word kind? := by
  by_cases hlonger : ∃ other kind?, Spells other kind? ∧ other <+: text ∧ word.length < other.length
  · obtain ⟨other, kind?, hother, hbegins', hlt⟩ := hlonger
    have hle := hbegins'.length_le
    exact exists_longest hother hbegins'
  · refine ⟨word, kind?, h, hbegins, fun other kind? hother hbegins' => ?_⟩
    exact Nat.le_of_not_lt fun hlt => hlonger ⟨other, kind?, hother, hbegins', hlt⟩
termination_by text.length - word.length

end Token

end LarkCheck
