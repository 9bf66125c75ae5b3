import LarkCheck.Proofs.Token.Lexicon

/-!
# A reading takes the longest lexeme

Blanks, line breaks and comments are passed over in silence. Where a lexeme begins,
the reader takes the longest one and nothing else. A literal that is left open is
reported at its quote and given up before the end of its line; any other character is
reported by itself and passed over.
-/

namespace LarkCheck

namespace Token

variable {text value rest : List Char}

/-- A literal is read to its closing quote. -/
theorem stringTail_of_run (h : StringRun text value ('"' :: rest)) (offset : Nat)
    (loc : Location) :
    (stringTail text offset loc).value = some value ∧
      (stringTail text offset loc).after.rest = rest := by
  generalize hend : '"' :: rest = stop at h
  induction h generalizing offset loc with
  | stop =>
    subst hend
    rw [stringTail_quote]
    exact ⟨rfl, rfl⟩
  | plain hquote hslash hreturn hline _ ih =>
    rw [stringTail_plain hquote hslash (by simp [hreturn, hline])]
    obtain ⟨hvalue, hrest⟩ := ih (offset + 1) (loc.advance 1) hend
    exact ⟨by simp [StringTail.prepend, hvalue], hrest⟩
  | escape hmem _ ih =>
    have hletter := unescape?_eq_some.2 hmem
    obtain ⟨hreturn, hline⟩ := unescape?_ne hletter
    rw [stringTail_unescape hletter hreturn hline]
    obtain ⟨hvalue, hrest⟩ := ih (offset + 2) (loc.advance 2) hend
    exact ⟨by simp [StringTail.prepend, hvalue], hrest⟩
  | unknown hletter hreturn hline _ ih =>
    rw [stringTail_unknown (unescape?_eq_none.2 hletter) hreturn hline]
    obtain ⟨hvalue, hrest⟩ := ih (offset + 2) (loc.advance 2) hend
    exact ⟨by simp [StringTail.prepend, StringTail.warn, hvalue], hrest⟩
  | lineFeed _ ih =>
    rw [stringTail_lineFeed]
    exact ih _ _ hend
  | returnFeed _ ih =>
    rw [stringTail_returnFeed]
    exact ih _ _ hend
  | @onlyReturn text value _ hhead h ih =>
    cases text with
    | nil =>
      cases h
      cases hend
    | cons next text =>
      rw [stringTail_onlyReturn (by simpa using hhead)]
      exact ih _ _ hend

/-- The text begins with the end of a literal, or reading it led to where one is left open. -/
def Settled (text : List Char) (tail : StringTail) : Prop :=
  (∃ value rest, StringRun text value ('"' :: rest)) ∨
    tail.value = none ∧ ∃ value rest, StringRun text value rest ∧ Open rest tail.after.rest

/-- What is read before does not matter. -/
theorem Settled.before {text' : List Char} {tail tail' : StringTail}
    {f : List Char → List Char} (h : Settled text tail)
    (hrun : ∀ {value rest}, StringRun text value rest → StringRun text' (f value) rest)
    (hvalue : tail.value = none → tail'.value = none) (hafter : tail'.after = tail.after) :
    Settled text' tail' := by
  rcases h with ⟨value, rest, h⟩ | ⟨hnone, value, rest, h, hopen⟩
  · exact .inl ⟨f value, rest, hrun h⟩
  · exact .inr ⟨hvalue hnone, f value, rest, hrun h, hafter ▸ hopen⟩

theorem StringTail.prepend_eq_none {tail : StringTail} (text : List Char)
    (h : tail.value = none) : (tail.prepend text).value = none := by
  simp [StringTail.prepend, h]

theorem settled_stringTail (text : List Char) (offset : Nat) (loc : Location) :
    Settled text (stringTail text offset loc) := by
  fun_induction stringTail text offset loc with
  | case1 => exact .inr ⟨rfl, [], [], .stop, .atEnd⟩
  | case2 rest => exact .inl ⟨[], rest, .stop⟩
  | case3 => exact .inr ⟨rfl, [], ['\\'], .stop, .atBackslash⟩
  | case4 => exact .inr ⟨rfl, [], [], .onlyReturn (by simp) .stop, .atEnd⟩
  | case5 offset loc further _ ih => exact ih.before .returnFeed id rfl
  | case6 offset loc next further hnext _ ih =>
    exact ih.before (.onlyReturn (by simpa using hnext)) id rfl
  | case7 offset loc text _ _ ih => exact ih.before .lineFeed id rfl
  | case8 offset loc letter text _ _ c hletter _ ih =>
    exact ih.before (.escape (unescape?_eq_some.1 hletter)) (StringTail.prepend_eq_none _) rfl
  | case9 offset loc letter text hreturn hline hletter _ ih =>
    exact ih.before (.unknown (unescape?_eq_none.1 hletter) hreturn hline)
      (StringTail.prepend_eq_none _) rfl
  | case10 c rest offset loc _ _ hend =>
    exact .inr ⟨rfl, [], c :: rest, .stop, .atLine (by simpa using hend)⟩
  | case11 c text offset loc hquote hslash hend ih =>
    simp only [Bool.or_eq_true, decide_eq_true_eq, not_or] at hend
    exact ih.before (.plain hquote hslash hend.1 hend.2) (StringTail.prepend_eq_none _) rfl

/-- No character is lost on the way. -/
theorem offset_stringTail (text : List Char) (offset : Nat) (loc : Location) :
    (stringTail text offset loc).after.offset + (stringTail text offset loc).after.rest.length =
      offset + text.length := by
  fun_induction stringTail text offset loc with
  | case1 | case3 | case4 | case10 => rfl
  | case2 => exact Nat.add_assoc _ _ _ |>.trans (by rw [Nat.add_comm 1, List.length_cons])
  | case5 | case6 | case7 =>
    rename_i ih
    rw [ih]
    simp only [List.length_cons]
    omega
  | case8 | case9 | case11 =>
    rename_i ih
    refine Eq.trans ih ?_
    simp only [List.length_cons]
    omega

/-- The diagnostic warns of an escape that stands for nothing. -/
def WarnsOfEscape (d : Diagnostic) : Prop :=
  d.code = .unknownEscapeSequence ∧ d.severity = .warning

theorem warns_of_mem_stringTail (text : List Char) (offset : Nat) (loc : Location) :
    ∀ d ∈ (stringTail text offset loc).news, WarnsOfEscape d := by
  fun_induction stringTail text offset loc with
  | case1 | case2 | case3 | case4 | case10 => simp
  | case5 | case6 | case7 | case8 | case11 =>
    rename_i ih
    exact ih
  | case9 =>
    rename_i ih
    exact List.forall_mem_cons.2 ⟨⟨rfl, rfl⟩, ih⟩

variable {c d : Cursor} {first : Char} {tail : List Char}

/-- A reading depends on the gap before it and on nothing else. -/
theorem read_eq_of_gap (h : c.gap = d.gap) : c.read = d.read := by
  simp only [Cursor.read, h]

theorem gap_pass_one (hc : c.rest = first :: tail) :
    (c.pass 1).gap = gapFrom false tail (c.offset + 1) (c.loc.advance 1) := by
  simp [Cursor.gap, Cursor.pass, hc]

theorem read_blank (hc : c.rest = first :: tail) (hblank : Text.isBlank first = true) :
    c.read = (c.pass 1).read := by
  have hbreak : Text.isLineBreak first = false := Bool.eq_false_iff.2 fun h => by
    rw [Text.isBlank_eq_false_of_isLineBreak h] at hblank
    cases hblank
  apply read_eq_of_gap
  rw [gap_pass_one hc, Cursor.gap, hc, gapFrom]
  simp [hbreak, hblank]

theorem read_lineBreak (hc : c.rest = first :: tail) (hbreak : Text.isLineBreak first = true) :
    c.read = (⟨tail, c.offset + 1, c.loc.nextLine⟩ : Cursor).read := by
  apply read_eq_of_gap
  rw [Cursor.gap, hc, gapFrom, if_pos hbreak]
  rfl

theorem advance_advance (loc : Location) (m n : Nat) :
    (loc.advance m).advance n = loc.advance (m + n) := by
  simp only [Location.advance, Nat.add_assoc]

/-- What is left of a line after a comment sign. -/
def commentTail (text : List Char) : List Char :=
  text.takeWhile (!Text.isLineBreak ·)

/-- The end of a comment is an end of line, or that of the text. -/
theorem gapFrom_comment (text : List Char) (offset : Nat) (loc : Location) :
    gapFrom true text offset loc = gapFrom false (text.drop (commentTail text).length)
      (offset + (commentTail text).length) (loc.advance (commentTail text).length) := by
  induction text generalizing offset loc with
  | nil => simp [gapFrom, commentTail, Location.advance]
  | cons c text ih =>
    by_cases hbreak : Text.isLineBreak c = true
    · have hnone : commentTail (c :: text) = [] := by simp [commentTail, hbreak]
      rw [hnone, List.length_nil, List.drop_zero, gapFrom, if_pos hbreak, gapFrom, if_pos hbreak]
      rfl
    · have hmore : commentTail (c :: text) = c :: commentTail text := by
        simp [commentTail, hbreak]
      rw [hmore, gapFrom, if_neg hbreak, Bool.true_or, if_pos rfl, ih, List.length_cons,
        List.drop_succ_cons, advance_advance, Nat.add_assoc, Nat.add_comm 1]

theorem read_comment (hc : c.rest = '#' :: tail) :
    c.read = (c.pass ('#' :: commentTail tail).length).read := by
  apply read_eq_of_gap
  have hsharp : Text.isLineBreak '#' = false ∧ Text.isBlank '#' = false := by decide
  rw [Cursor.gap, hc, gapFrom, hsharp.1, hsharp.2, Cursor.gap, Cursor.pass, hc]
  simp only [Bool.false_eq_true, if_false, Bool.or_self, if_true, gapFrom_comment,
    advance_advance, List.length_cons, List.drop_succ_cons, Nat.add_assoc, Nat.add_comm 1]

/-- A comment goes on to an end of line, or to that of the text. -/
theorem exists_comment (hc : c.rest = '#' :: tail) :
    ∃ comment rest, tail = comment ++ rest ∧ (∀ x ∈ comment, ¬Text.isLineBreak x = true) ∧
      (∀ x ∈ rest.head?, Text.isLineBreak x = true) ∧
      c.read = (⟨rest, c.offset + (comment.length + 1),
        ⟨c.loc.line, c.loc.column + (comment.length + 1)⟩⟩ : Cursor).read := by
  have hsplit : tail = commentTail tail ++ tail.dropWhile (!Text.isLineBreak ·) :=
    List.takeWhile_append_dropWhile.symm
  refine ⟨commentTail tail, _, hsplit, fun x hx => ?_, fun x hx => ?_, ?_⟩
  · simpa using List.all_eq_true.1 List.all_takeWhile x hx
  · have hstop := List.head?_dropWhile_not (!Text.isLineBreak ·) tail
    rw [Option.mem_def.1 hx] at hstop
    simpa using hstop
  · have hdrop := @List.drop_left _ (commentTail tail) (tail.dropWhile (!Text.isLineBreak ·))
    rw [← hsplit] at hdrop
    rw [read_comment hc, Cursor.pass, hc, List.length_cons, List.drop_succ_cons, hdrop]
    rfl

/-- A character that opens nothing is reported, and reading goes on behind it. -/
theorem read_wrong (hc : c.rest = first :: tail) (hblank : Text.isBlank first = false)
    (hbreak : Text.isLineBreak first = false) (hsharp : first ≠ '#')
    (hnone : opening? first = none) :
    c.read = (⟨wrongCharacter first c.loc :: (c.pass 1).read.1.news, (c.pass 1).read.1.token⟩,
      (c.pass 1).read.2) := by
  have hgap : c.gap = { (c.pass 1).gap with
      news := wrongCharacter first c.loc :: (c.pass 1).gap.news } := by
    rw [gap_pass_one hc, Cursor.gap, hc, gapFrom]
    simp [hblank, hbreak, hsharp, hnone]
  cases hopening : (c.pass 1).gap.opening with
  | none => rw [read_of_none hopening, read_of_none (by rw [hgap]; exact hopening), hgap]
  | some opening =>
    rw [read_of_some hopening, read_of_some (by rw [hgap]; exact hopening), hgap]
    rfl

theorem read_of_opening {opening : Opening} (hc : c.rest = first :: tail)
    (h : opening? first = some opening) :
    c.read = (⟨(readLexeme opening c).news, (readLexeme opening c).kind.map (⟨·, c.loc⟩)⟩,
      (readLexeme opening c).after) := by
  have hgap : c.gap = ⟨[], some opening, c⟩ := by
    rw [Cursor.gap, hc, gapFrom_opening h, ← hc]
  rw [read_of_some (by rw [hgap]), hgap]
  rfl

/-- The reading takes the word, which stands at the cursor, and gives the token of this kind, with
warnings about escapes at most. If there is none, the word is a number that is too large. -/
structure Takes (c : Cursor) (word : List Char) (kind? : Option Kind) : Prop where
  token_eq : c.read.1.token = kind?.map (⟨·, c.loc⟩)
  rest_eq : c.rest = word ++ c.read.2.rest
  offset_eq : c.read.2.offset = c.offset + word.length
  warned : kind?.isSome = true → ∀ d ∈ c.read.1.news, WarnsOfEscape d
  failed : kind? = none → c.read.1.news = [⟨.integerLiteralTooLarge, .error, c.loc, []⟩]

/-- What the reader of a lexeme makes of the word, the reading makes of it. -/
theorem takes_of_lexeme {opening : Opening} {lexeme : Lexeme} {word : List Char}
    (hc : c.rest = first :: tail) (hopening : opening? first = some opening)
    (hread : readLexeme opening c = lexeme) (hrest : c.rest = word ++ lexeme.after.rest)
    (hoffset : lexeme.after.offset = c.offset + word.length)
    (hwarned : lexeme.kind.isSome = true → ∀ d ∈ lexeme.news, WarnsOfEscape d)
    (hfailed : lexeme.kind = none →
      lexeme.news = [⟨.integerLiteralTooLarge, .error, c.loc, []⟩]) :
    Takes c word lexeme.kind := by
  have heq := read_of_opening hc hopening
  rw [hread] at heq
  exact {
    token_eq := by rw [heq]
    rest_eq := by rw [heq]; exact hrest
    offset_eq := by rw [heq]; exact hoffset
    warned := by rw [heq]; exact hwarned
    failed := by rw [heq]; exact hfailed }

theorem rest_eq_of_pass {word more : List Char} (hsplit : c.rest = word ++ more) :
    c.rest = word ++ (c.pass word.length).rest := by
  rw [rest_pass word hsplit, hsplit]

/-- A reader that passes over the word, without a report, takes it. -/
theorem takes_of_pass {opening : Opening} {word more : List Char} {kind : Kind}
    (hc : c.rest = first :: tail) (hopening : opening? first = some opening)
    (hsplit : c.rest = word ++ more)
    (hread : readLexeme opening c = ⟨some kind, [], c.pass word.length⟩) :
    Takes c word (some kind) := by
  apply takes_of_lexeme hc hopening hread (rest_eq_of_pass hsplit) rfl
  · simp
  · intro hnone
    cases hnone

theorem forall_mem_concat {p : Char → Bool} {word : List Char} {x : Char}
    (hword : ∀ y ∈ word, p y = true) (hx : p x = true) : ∀ y ∈ word ++ [x], p y = true :=
  List.forall_mem_append.2 ⟨hword, List.forall_mem_singleton.2 hx⟩

theorem takes_word {rest : List Char} {kind : Kind} (hfirst : beginsWord first = true)
    (hrest : ∀ x ∈ rest, continuesWord x = true) (hkind : wordKind (first :: rest) = kind)
    (h : Longest c.rest (first :: rest) (some kind)) : Takes c (first :: rest) (some kind) := by
  obtain ⟨more, hmore⟩ := h.begins
  have hword : ∀ x ∈ first :: rest, continuesWord x = true :=
    List.forall_mem_cons.2 ⟨continuesWord_of_beginsWord hfirst, hrest⟩
  have hstop := h.stops hmore fun x (hx : continuesWord x = true) =>
    ⟨_, spells_word hfirst (forall_mem_concat hrest hx)⟩
  have htake : c.rest.takeWhile continuesWord = first :: rest := by
    rw [← hmore, takeWhile_append_of_stops hword hstop]
  refine takes_of_pass hmore.symm (opening?_of_beginsWord hfirst) hmore.symm ?_
  simp only [readLexeme, readWord, htake, hkind]

/-- After the longest run of digits there is neither another digit nor a fraction. -/
theorem readNumber_of_longest {digits : List Char} {kind? : Option Kind}
    (h : Longest c.rest digits kind?) (hne : digits ≠ [])
    (hdigits : ∀ x ∈ digits, isDigit x = true) :
    readNumber c =
      if decimalValue digits ≤ maxInteger then
        ⟨some (.int (decimalValue digits)), [], c.pass digits.length⟩
      else
        ⟨none, [.of .integerLiteralTooLarge c.loc []], c.pass digits.length⟩ := by
  obtain ⟨more, hmore⟩ := h.begins
  have hstop := h.stops hmore fun x (hx : isDigit x = true) =>
    exists_spells_digits (by simp) (forall_mem_concat hdigits hx)
  have hfraction : fractionDigits more = [] := Classical.byContradiction fun hfraction => by
    obtain ⟨rest, hrest, hall, -⟩ := eq_of_fractionDigits_ne_nil hfraction
    have hreal := spells_real hne hdigits hfraction hall
    have hbegins : digits ++ '.' :: fractionDigits more <+: c.rest :=
      ⟨rest, by rw [← hmore, List.append_assoc, List.cons_append, ← hrest]⟩
    exact List.cons_ne_nil _ _ (h.eq_nil hreal hbegins)
  rw [readNumber_split hmore.symm hdigits hstop, hfraction]
  simp

theorem takes_int {digits : List Char} (hne : digits ≠ [])
    (hdigits : ∀ x ∈ digits, isDigit x = true) (hvalue : decimalValue digits ≤ maxInteger)
    (h : Longest c.rest digits (some (.int (decimalValue digits)))) :
    Takes c digits (some (.int (decimalValue digits))) := by
  have hread := readNumber_of_longest h hne hdigits
  rw [if_pos hvalue] at hread
  obtain ⟨more, hmore⟩ := h.begins
  obtain ⟨first, rest, rfl⟩ := List.exists_cons_of_ne_nil hne
  exact takes_of_pass hmore.symm (opening?_of_isDigit (hdigits first (.head _))) hmore.symm hread

theorem takes_tooLarge {digits : List Char} (hne : digits ≠ [])
    (hdigits : ∀ x ∈ digits, isDigit x = true) (hvalue : maxInteger < decimalValue digits)
    (h : Longest c.rest digits none) : Takes c digits none := by
  have hread := readNumber_of_longest h hne hdigits
  rw [if_neg (Nat.not_le_of_lt hvalue)] at hread
  obtain ⟨more, hmore⟩ := h.begins
  obtain ⟨first, rest, rfl⟩ := List.exists_cons_of_ne_nil hne
  apply takes_of_lexeme hmore.symm (opening?_of_isDigit (hdigits first (.head _))) hread
    (rest_eq_of_pass hmore.symm) rfl
  · intro hsome
    cases hsome
  · exact fun _ => rfl

theorem takes_real {whole fraction : List Char} (hne : whole ≠ [])
    (hwhole : ∀ x ∈ whole, isDigit x = true) (hfraction : fraction ≠ [])
    (hdigits : ∀ x ∈ fraction, isDigit x = true)
    (h : Longest c.rest (whole ++ '.' :: fraction) (some (.real (realValue whole fraction)))) :
    Takes c (whole ++ '.' :: fraction) (some (.real (realValue whole fraction))) := by
  obtain ⟨more, hmore⟩ := h.begins
  have hstop := h.stops hmore fun x (hx : isDigit x = true) =>
    ⟨_, by
      have hlonger := spells_real hne hwhole (by simp) (forall_mem_concat hdigits hx)
      rwa [List.append_assoc, List.cons_append]⟩
  have hsplit : c.rest = whole ++ '.' :: (fraction ++ more) := by rw [← hmore]; simp
  have htail : fractionDigits ('.' :: (fraction ++ more)) = fraction := by
    rw [fractionDigits, if_pos rfl, takeWhile_append_of_stops hdigits hstop]
  have hread : readNumber c = ⟨some (.real (realValue whole fraction)), [],
      c.pass (whole ++ '.' :: fraction).length⟩ := by
    rw [readNumber_split hsplit hwhole (fun x hx => by cases hx; decide), htail, if_pos hfraction]
  obtain ⟨first, rest, rfl⟩ := List.exists_cons_of_ne_nil hne
  exact takes_of_pass hsplit (opening?_of_isDigit (hwhole first (.head _))) hmore.symm hread

theorem spelling_of_ofPair? {second : Char} {op : Operator}
    (h : Operator.ofPair? first second = some op) : op.spelling.toList = [first, second] := by
  simpa using List.find?_some h

/-- A symbol of one character is taken where it does not begin an operator of two. -/
theorem takes_single {single : Kind} (hopening : opening? first = some (.symbol single))
    (h : Longest c.rest [first] (some single)) : Takes c [first] (some single) := by
  obtain ⟨more, hmore⟩ := h.begins
  have hlonger : ∀ second, (Operator.ofPair? first second).isSome = true →
      ∃ kind?, Spells ([first] ++ [second]) kind? := by
    intro second hsecond
    obtain ⟨op, hop⟩ := Option.isSome_iff_exists.1 hsecond
    rw [List.singleton_append, ← spelling_of_ofPair? hop]
    exact ⟨_, .operator op⟩
  have hstop := h.stops hmore hlonger
  have hread : readSymbol single c = ⟨some single, [], c.pass 1⟩ :=
    readSymbol_of_single hmore.symm fun second hsecond => by simpa using hstop second hsecond
  exact takes_of_pass hmore.symm hopening hmore.symm hread

theorem takes_operator {op : Operator}
    (h : Longest c.rest op.spelling.toList (some (.operator op))) :
    Takes c op.spelling.toList (some (.operator op)) := by
  rcases spelling_operator op with
    ⟨first, hspelling, hopening⟩ | ⟨first, second, single, hspelling, hopening, hpair⟩
  · rw [hspelling] at h ⊢
    exact takes_single hopening h
  · rw [hspelling] at h ⊢
    obtain ⟨more, hmore⟩ := h.begins
    exact takes_of_pass hmore.symm hopening hmore.symm (readSymbol_of_pair hmore.symm hpair)

theorem takes_string {text value : List Char} (hrun : StringRun text value ['"'])
    (h : Longest c.rest ('"' :: text) (some (.string (String.ofList value)))) :
    Takes c ('"' :: text) (some (.string (String.ofList value))) := by
  obtain ⟨more, hmore⟩ := h.begins
  have hdrop : c.rest.drop 1 = text ++ more := by
    rw [← hmore]
    rfl
  have hwhole : StringRun (text ++ more) value ('"' :: more) := hrun.append
  obtain ⟨hvalue, hrest⟩ := stringTail_of_run hwhole (c.offset + 1) (c.loc.advance 1)
  have hoffset := offset_stringTail (text ++ more) (c.offset + 1) (c.loc.advance 1)
  have hwarns := warns_of_mem_stringTail (text ++ more) (c.offset + 1) (c.loc.advance 1)
  have hread : readString c = ⟨some (.string (String.ofList value)),
      (stringTail (text ++ more) (c.offset + 1) (c.loc.advance 1)).news,
      (stringTail (text ++ more) (c.offset + 1) (c.loc.advance 1)).after⟩ := by
    simp only [readString, hdrop, hvalue]
  apply takes_of_lexeme hmore.symm (show opening? '"' = some .string by decide) hread
  · rw [← hmore, hrest]
  · rw [hrest, List.length_append] at hoffset
    rw [List.length_cons]
    dsimp only
    omega
  · exact fun _ => hwarns
  · intro hnone
    cases hnone

/-- The reading takes the longest lexeme with which the rest of the text begins. -/
theorem takes_of_longest {word : List Char} {kind? : Option Kind}
    (h : Longest c.rest word kind?) : Takes c word kind? := by
  have hspells := h.spells
  cases hspells with
  | @reserved kw kind hkind =>
    obtain ⟨first, rest, hspelling, hfirst, hrest⟩ := spelling_keyword kw
    have hword := (wordKind_spelling kw).trans (registered_iff.1 hkind)
    rw [hspelling] at h hword ⊢
    exact takes_word hfirst hrest hword h
  | name hfirst hrest hkw =>
    replace hfirst := beginsWord_iff.2 hfirst
    replace hrest := fun x hx => continuesWord_iff.2 (hrest x hx)
    exact takes_word hfirst hrest (wordKind_name hfirst hrest hkw) h
  | int hne hrun hvalue =>
    obtain ⟨hdigits, rfl, -⟩ := digitRun_iff.1 hrun
    exact takes_int hne hdigits hvalue h
  | tooLarge hne hrun hvalue =>
    obtain ⟨hdigits, rfl, -⟩ := digitRun_iff.1 hrun
    exact takes_tooLarge hne hdigits hvalue h
  | real hne hrun hfraction hrun' =>
    obtain ⟨hwhole, -, rfl, -⟩ := digitRun_iff.1 hrun
    obtain ⟨hdigits, -, rfl, rfl⟩ := digitRun_iff.1 hrun'
    exact takes_real hne hwhole hfraction hdigits h
  | operator op => exact takes_operator h
  | punctuation mark => exact takes_single (opening?_punctuation mark) h
  | string hrun => exact takes_string hrun h

/-- The reading gives up a literal where it is left open and reports it at its quote, after warnings
about its escapes at most. -/
structure LeftOpen (c : Cursor) : Prop where
  token_eq : c.read.1.token = none
  news_eq : ∃ warnings : List Diagnostic, (∀ d ∈ warnings, WarnsOfEscape d) ∧
    c.read.1.news = warnings ++ [⟨.stringNotTerminated, .error, c.loc, []⟩]
  leftOpen : ∃ value rest, StringRun (c.rest.drop 1) value rest ∧ Open rest c.read.2.rest
  offset_eq : c.read.2.offset + c.read.2.rest.length = c.offset + c.rest.length

/-- A quote that begins no literal is that of one left open. -/
theorem leftOpen_of_no_literal (hc : c.rest = '"' :: tail)
    (hnone : ∀ word kind?, Spells word kind? → ¬word <+: c.rest) : LeftOpen c := by
  have hdrop : c.rest.drop 1 = tail := by rw [hc, List.drop_one, List.tail_cons]
  rcases settled_stringTail tail (c.offset + 1) (c.loc.advance 1) with
    ⟨value, rest, hrun⟩ | ⟨hvalue, hopen⟩
  · obtain ⟨word, rfl, hword⟩ := hrun.cut
    exact absurd ⟨rest, by rw [hc, List.cons_append]⟩ (hnone _ _ (.string hword))
  · have hoffset := offset_stringTail tail (c.offset + 1) (c.loc.advance 1)
    have hwarns := warns_of_mem_stringTail tail (c.offset + 1) (c.loc.advance 1)
    have heq := read_of_opening hc (show opening? '"' = some .string by decide)
    simp only [readLexeme, readString, hdrop, hvalue] at heq
    refine ⟨?_, ⟨(stringTail tail (c.offset + 1) (c.loc.advance 1)).news, hwarns, ?_⟩, ?_, ?_⟩
    · rw [heq]
      rfl
    · rw [heq]
      rfl
    · rw [heq, hdrop]
      exact hopen
    · rw [heq, hc, List.length_cons]
      dsimp only
      omega

/-- What one reading does with what it finds: blanks, line breaks and comments are passed over in
silence, the longest lexeme is taken, a literal left open is given up, and any other character is
reported. -/
theorem read_longest (text : List Char) (offset : Nat) (hoffset : offset < text.length)
    (loc : Location) :
    let c : Cursor := ⟨text.drop offset, offset, loc⟩
    ∃ first tail, c.rest = first :: tail ∧
      let next : Cursor := ⟨tail, c.offset + 1, ⟨c.loc.line, c.loc.column + 1⟩⟩
      (Blank first → c.read = next.read) ∧
      (LineBreak first → c.read = (⟨tail, c.offset + 1, ⟨c.loc.line + 1, 0⟩⟩ : Cursor).read) ∧
      (first = '#' → ∃ comment rest, tail = comment ++ rest ∧ (∀ x ∈ comment, ¬LineBreak x) ∧
        (∀ x ∈ rest.head?, LineBreak x) ∧
        c.read = (⟨rest, c.offset + (comment.length + 1),
          ⟨c.loc.line, c.loc.column + (comment.length + 1)⟩⟩ : Cursor).read) ∧
      (¬Blank first → ¬LineBreak first → first ≠ '#' →
        ((∃ word kind?, Spells word kind? ∧ word <+: c.rest) →
          ∃ word kind?, Longest c.rest word kind?) ∧
        (∀ word kind?, Longest c.rest word kind? → Takes c word kind?) ∧
        ((∀ word kind?, Spells word kind? → ¬word <+: c.rest) →
          (first = '"' → LeftOpen c) ∧
          (first ≠ '"' → c.read =
            (⟨⟨.wrongCharacter, .error, c.loc, ["unexpected character " ++ Text.shown first ++
                " (" ++ Text.codePointName first ++ ")"]⟩ :: next.read.1.news,
              next.read.1.token⟩, next.read.2)))) := by
  intro c
  have hlength : 0 < (text.drop offset).length := by
    rw [List.length_drop]
    omega
  obtain ⟨first, tail, hc⟩ : ∃ first tail, c.rest = first :: tail :=
    List.exists_cons_of_ne_nil (List.ne_nil_of_length_pos hlength)
  refine ⟨first, tail, hc, ?_⟩
  intro next
  have hnext : c.pass 1 = next := by rw [Cursor.pass, hc]; rfl
  simp only [← isBlank_iff, ← isLineBreak_iff, ← hnext]
  refine ⟨read_blank hc, read_lineBreak hc, ?_, ?_⟩
  · rintro rfl
    exact exists_comment hc
  intro hblank hbreak hsharp
  rw [Bool.not_eq_true] at hblank hbreak
  refine ⟨?_, fun word kind? h => takes_of_longest h, fun hnone => ⟨?_, fun hquote => ?_⟩⟩
  · rintro ⟨word, kind?, hspells, hbegins⟩
    exact exists_longest hspells hbegins
  · rintro rfl
    exact leftOpen_of_no_literal hc hnone
  · refine read_wrong hc hblank hbreak hsharp (Option.eq_none_iff_forall_ne_some.2 ?_)
    intro opening hopening
    obtain ⟨kind?, hspells⟩ := exists_spells_of_opening hopening hquote
    exact hnone _ _ hspells ⟨tail, by rw [hc]; rfl⟩

/-- Where both `<` and `<=` are lexemes the reading takes `<=`. -/
theorem read_longest_lessEqual : 1 < "a<= 1".toList.length ∧
    Longest "<= 1".toList "<=".toList (some (.operator .lessEqual)) ∧
    Takes ⟨"<= 1".toList, 1, .start⟩ "<=".toList (some (.operator .lessEqual)) := by
  have hoffset : 1 < "a<= 1".toList.length := by decide
  obtain ⟨first, tail, hc, -, -, -, hlexeme⟩ := read_longest "a<= 1".toList 1 hoffset .start
  obtain ⟨rfl, rfl⟩ : first = '<' ∧ tail = "= 1".toList := by
    cases hc
    exact ⟨rfl, rfl⟩
  obtain ⟨hexists, htakes, -⟩ := hlexeme (by decide) (by decide) (by decide)
  obtain ⟨word, kind?, hlongest⟩ := hexists ⟨_, _, .operator .less, "= 1".toList, by decide⟩
  have htaken := htakes word kind? hlongest
  have hword : word = "<=".toList := List.append_cancel_right htaken.rest_eq.symm
  have hkind : kind? = some (.operator .lessEqual) := by
    have htoken := htaken.token_eq
    cases kind? with
    | none => cases htoken
    | some kind => cases htoken; rfl
  subst hword hkind
  exact ⟨hoffset, hlongest, htaken⟩

end Token

end LarkCheck
