import LarkCheck.Proofs.Token.Places

/-!
# Wrong characters are blanks

A wrong character is passed over as a space would be. In a text in which every character
that was reported as wrong is a space, the same tokens and the same malformed lexemes are
read at the same places, and everything else that was reported is reported again. Which
characters are wrong is told by their zones: they stand outside of literals and comments,
where no lexeme goes on into them.
-/

namespace LarkCheck

namespace Token

/-- Whether nothing that may stand between lexemes, and no lexeme, begins with the character. -/
def isWrong (x : Char) : Bool :=
  !(Text.isLineBreak x || Text.isBlank x || x = '#' || (opening? x).isSome)

/-- A text from a zone on with a space for each wrong character. -/
def blankedFrom (z : Zone) : List Char → List Char
  | [] => []
  | x :: rest =>
    (if z = .plain ∧ isWrong x then ' ' else x) ::
      blankedFrom ((z.enter x).next x rest.head?) rest

/-- The places of the wrong characters of a text that begins in a zone at a place. -/
def wrongFrom (z : Zone) (loc : Location) : List Char → List Location
  | [] => []
  | x :: rest =>
    (if z = .plain ∧ isWrong x then [loc] else []) ++
      wrongFrom ((z.enter x).next x rest.head?)
        (Mark.move loc ((z.enter x).mark x rest.head?)) rest

/-- What is reported apart from wrong characters. -/
def otherNews (news : List Diagnostic) : List Diagnostic :=
  news.filter (·.code ≠ .wrongCharacter)

/-- The places at which wrong characters are reported. -/
def wrongPlaces (news : List Diagnostic) : List Location :=
  (news.filter (·.code = .wrongCharacter)).map (·.loc)

variable {c d : Cursor} {x : Char} {text rest : List Char} {z z' : Zone} {loc : Location}

theorem isWrong_of_opening {opening : Opening} (h : opening? x = some opening) :
    isWrong x = false := by
  simp [isWrong, h]

theorem isWrong_of_isLineBreak (h : Text.isLineBreak x = true) : isWrong x = false := by
  simp [isWrong, h]

theorem isWrong_of_isBlank (h : Text.isBlank x = true) : isWrong x = false := by
  simp [isWrong, h]

/-- Outside of literals and comments, in front of a character that opens none. -/
theorem blankedFrom_plain (hquote : x ≠ '"') (hsharp : x ≠ '#') :
    blankedFrom .plain (x :: rest) =
      (if isWrong x then ' ' else x) :: blankedFrom .plain rest := by
  simp [blankedFrom, Zone.enter, Zone.next, hquote, hsharp]

theorem wrongFrom_plain (hquote : x ≠ '"') (hsharp : x ≠ '#') :
    wrongFrom .plain loc (x :: rest) = (if isWrong x then [loc] else []) ++
      wrongFrom .plain (if Text.isLineBreak x then loc.nextLine else loc.advance 1) rest := by
  simp [wrongFrom, Zone.enter, Zone.next, Zone.mark, Mark.move, hquote, hsharp]

theorem blankedFrom_comment :
    blankedFrom .comment (x :: rest) =
      x :: blankedFrom (if Text.isLineBreak x then .plain else .comment) rest := by
  simp [blankedFrom, Zone.enter, Zone.next]

theorem wrongFrom_comment :
    wrongFrom .comment loc (x :: rest) =
      wrongFrom (if Text.isLineBreak x then .plain else .comment)
        (if Text.isLineBreak x then loc.nextLine else loc.advance 1) rest := by
  simp [wrongFrom, Zone.enter, Zone.next, Zone.mark, Mark.move]

/-- The cursors stand at one place, the second one in the text with spaces. -/
structure Blanked (c d : Cursor) : Prop where
  loc_eq : d.loc = c.loc
  rest_eq : d.rest = blankedFrom .plain c.rest

theorem code_of_mem_gapFrom (inComment : Bool) (text : List Char) (offset : Nat)
    (loc : Location) :
    ∀ d ∈ (gapFrom inComment text offset loc).news, d.code = .wrongCharacter := by
  fun_induction gapFrom inComment text offset loc with
  | case1 | case5 => simp
  | case2 | case3 | case4 =>
    rename_i ih
    exact ih
  | case6 =>
    rename_i ih
    exact List.forall_mem_cons.2 ⟨rfl, ih⟩

/-- In the text with spaces nothing is reported on the way to the same lexeme. What was reported are
the wrong characters of the gap. -/
theorem gapFrom_blanked (inComment : Bool) (text : List Char) (offset offset' : Nat)
    (loc : Location) :
    let z := if inComment then Zone.comment else .plain
    let gap := gapFrom inComment text offset loc
    let gap' := gapFrom inComment (blankedFrom z text) offset' loc
    gap'.news = [] ∧ gap'.opening = gap.opening ∧ Blanked gap.after gap'.after ∧
      wrongFrom z loc text =
        gap.news.map (·.loc) ++ wrongFrom .plain gap.after.loc gap.after.rest := by
  fun_induction gapFrom inComment text offset loc generalizing offset' with
  | case1 => exact ⟨rfl, rfl, ⟨rfl, rfl⟩, rfl⟩
  | case2 inComment x rest offset loc hbreak ih =>
    have step := ih (offset' + 1)
    cases inComment with
    | true =>
      simp only [if_true, blankedFrom_comment, wrongFrom_comment, hbreak]
      rwa [gapFrom, if_pos hbreak]
    | false =>
      have hquote : x ≠ '"' := by rintro rfl; cases hbreak
      have hsharp : x ≠ '#' := by rintro rfl; cases hbreak
      simp only [Bool.false_eq_true, if_false, blankedFrom_plain hquote hsharp,
        wrongFrom_plain hquote hsharp, isWrong_of_isLineBreak hbreak, hbreak, if_true,
        List.nil_append]
      rwa [gapFrom, if_pos hbreak]
  | case3 inComment x rest offset loc hbreak hpassed ih =>
    have step := ih (offset' + 1)
    cases inComment with
    | true =>
      simp only [if_true, blankedFrom_comment, wrongFrom_comment, hbreak, Bool.false_eq_true,
        if_false]
      rwa [gapFrom, if_neg hbreak, if_pos hpassed]
    | false =>
      have hblank : Text.isBlank x = true := hpassed
      have hquote : x ≠ '"' := by rintro rfl; cases hblank
      have hsharp : x ≠ '#' := by rintro rfl; cases hblank
      simp only [Bool.false_eq_true, if_false, blankedFrom_plain hquote hsharp,
        wrongFrom_plain hquote hsharp, isWrong_of_isBlank hblank, hbreak, List.nil_append]
      rwa [gapFrom, if_neg hbreak, if_pos hpassed]
  | case4 inComment rest offset loc hbreak hpassed ih =>
    obtain ⟨rfl, -⟩ : inComment = false ∧ Text.isBlank '#' = false := by simpa using hpassed
    exact ih (offset' + 1)
  | case5 inComment x rest offset loc hbreak hpassed hsharp opening hopening =>
    obtain ⟨rfl, -⟩ : inComment = false ∧ Text.isBlank x = false := by simpa using hpassed
    have hkept : blankedFrom .plain (x :: rest) = x :: (blankedFrom .plain (x :: rest)).tail := by
      simp [blankedFrom, isWrong_of_opening hopening]
    simp only [Bool.false_eq_true, if_false]
    rw [hkept, gapFrom_opening hopening, ← hkept]
    exact ⟨rfl, rfl, ⟨rfl, rfl⟩, rfl⟩
  | case6 inComment x rest offset loc hbreak hpassed hsharp hopening gap ih =>
    obtain ⟨rfl, hblank⟩ : inComment = false ∧ Text.isBlank x = false := by simpa using hpassed
    have hwrong : isWrong x = true := by simp [isWrong, hbreak, hblank, hsharp, hopening]
    have hspace : Text.isLineBreak ' ' = false ∧ Text.isBlank ' ' = true := by decide
    have hquote : x ≠ '"' := by rintro rfl; cases hopening
    obtain ⟨hnews, hsame, hafter, hrest⟩ := ih (offset' + 1)
    simp only [Bool.false_eq_true, if_false, blankedFrom_plain hquote hsharp,
      wrongFrom_plain hquote hsharp, hwrong, if_true, hbreak] at hrest ⊢
    rw [gapFrom, hspace.1, if_neg (by decide), hspace.2, Bool.or_true, if_pos rfl, hrest]
    exact ⟨hnews, hsame, hafter, rfl⟩

/-- No character of a literal is wrong, and neither is the end of a line in front of which one is
given up. -/
theorem head?_blankedFrom_literal : (blankedFrom .literal text).head? = text.head? := by
  cases text with
  | nil => rfl
  | cons x rest => simp [blankedFrom]

theorem blankedFrom_literal (hquote : x ≠ '"') (hslash : x ≠ '\\')
    (hend : ¬(x = '\r' || x = '\n')) :
    blankedFrom .literal (x :: rest) = x :: blankedFrom .literal rest := by
  simp only [Bool.or_eq_true, decide_eq_true_eq] at hend
  simp [blankedFrom, Zone.enter, Zone.next, hquote, hslash, hend]

theorem wrongFrom_literal (hquote : x ≠ '"') (hslash : x ≠ '\\')
    (hend : ¬(x = '\r' || x = '\n')) :
    wrongFrom .literal loc (x :: rest) = wrongFrom .literal (loc.advance 1) rest := by
  simp only [Bool.or_eq_true, decide_eq_true_eq] at hend
  simp [wrongFrom, Zone.enter, Zone.next, Zone.mark, Mark.move, hquote, hslash, hend]

theorem blankedFrom_escape (hreturn : x ≠ '\r') :
    blankedFrom .literal ('\\' :: x :: rest) = '\\' :: x :: blankedFrom .literal rest := by
  simp [blankedFrom, Zone.enter, Zone.next, hreturn]

theorem wrongFrom_escape (hreturn : x ≠ '\r') (hline : x ≠ '\n') :
    wrongFrom .literal loc ('\\' :: x :: rest) = wrongFrom .literal (loc.advance 2) rest := by
  simp [wrongFrom, Zone.enter, Zone.next, Zone.mark, Mark.move, hreturn, hline, advance_advance]

theorem stringTail_blanked (text : List Char) (offset offset' : Nat) (loc : Location) :
    let tail := stringTail text offset loc
    let tail' := stringTail (blankedFrom .literal text) offset' loc
    tail'.value = tail.value ∧ tail'.news = tail.news ∧ Blanked tail.after tail'.after ∧
      wrongFrom .literal loc text = wrongFrom .plain tail.after.loc tail.after.rest := by
  fun_induction stringTail text offset loc generalizing offset' with
  | case1 => exact ⟨rfl, rfl, ⟨rfl, rfl⟩, rfl⟩
  | case2 rest offset loc =>
    have hblanked : blankedFrom .literal ('"' :: rest) = '"' :: blankedFrom .plain rest := rfl
    rw [hblanked, stringTail_quote]
    exact ⟨rfl, rfl, ⟨rfl, rfl⟩, rfl⟩
  | case3 | case4 => exact ⟨rfl, rfl, ⟨rfl, rfl⟩, rfl⟩
  | case5 offset loc further _ ih => exact ih (offset' + 3)
  | case6 offset loc next further hnext _ ih =>
    have hblanked : blankedFrom .literal ('\\' :: '\r' :: next :: further) =
        '\\' :: '\r' :: blankedFrom .literal (next :: further) := by
      simp [blankedFrom, Zone.enter, Zone.next, hnext]
    have hwrong : wrongFrom .literal loc ('\\' :: '\r' :: next :: further) =
        wrongFrom .literal loc.nextLine (next :: further) := by
      rw [wrongFrom, wrongFrom]
      simp [Zone.enter, Zone.next, Zone.mark, Mark.move, hnext, Location.nextLine,
        Location.advance]
    obtain ⟨tail, htail⟩ : ∃ tail, blankedFrom .literal (next :: further) = next :: tail :=
      List.head?_eq_some_iff.1 head?_blankedFrom_literal
    have step := ih (offset' + 2)
    simp only [hblanked, hwrong, htail, stringTail_onlyReturn hnext] at step ⊢
    exact step
  | case7 offset loc rest _ _ ih =>
    rw [blankedFrom_escape (by decide), stringTail_lineFeed]
    exact ih (offset' + 2)
  | case8 offset loc escaped rest hreturn hline d hd _ ih =>
    obtain ⟨hvalue, hnews, hafter, hwrong⟩ := ih (offset' + 2)
    simp only [blankedFrom_escape hreturn, stringTail_unescape hd hreturn hline,
      wrongFrom_escape hreturn hline]
    exact ⟨congrArg (Option.map _) hvalue, hnews, hafter, hwrong⟩
  | case9 offset loc escaped rest hreturn hline hd _ ih =>
    obtain ⟨hvalue, hnews, hafter, hwrong⟩ := ih (offset' + 2)
    simp only [blankedFrom_escape hreturn, stringTail_unknown hd hreturn hline,
      wrongFrom_escape hreturn hline]
    exact ⟨congrArg (Option.map _) hvalue, congrArg (_ :: ·) hnews, hafter, hwrong⟩
  | case10 x rest offset loc hquote hslash hend =>
    simp only [Bool.or_eq_true, decide_eq_true_eq] at hend
    rcases hend with rfl | rfl
    · rw [blankedFrom, stringTail.eq_def]
      exact ⟨rfl, rfl, ⟨rfl, rfl⟩, rfl⟩
    · rw [blankedFrom, stringTail.eq_def]
      exact ⟨rfl, rfl, ⟨rfl, rfl⟩, rfl⟩
  | case11 x rest offset loc hquote hslash hend ih =>
    obtain ⟨hvalue, hnews, hafter, hwrong⟩ := ih (offset' + 1)
    simp only [blankedFrom_literal hquote hslash hend, stringTail_plain hquote hslash hend,
      wrongFrom_literal hquote hslash hend]
    exact ⟨congrArg (Option.map _) hvalue, hnews, hafter, hwrong⟩

theorem isSome_opening?_of_continuesWord {x : Char} (h : continuesWord x = true) :
    (opening? x).isSome = true := by
  by_cases hdigit : isDigit x = true
  · rw [opening?_of_isDigit hdigit]
    rfl
  · have hbegins : beginsWord x = true := by
      simpa [continuesWord, beginsWord, hdigit] using h
    rw [opening?_of_beginsWord hbegins]
    rfl

/-- No character of a lexeme is wrong. -/
theorem not_isWrong_of_spells {word : List Char} {kind? : Option Kind} (h : Spells word kind?)
    (hquote : word.head? ≠ some '"') : ∀ x ∈ word, isWrong x = false := by
  intro x hx
  obtain hword | ⟨op, hop⟩ | ⟨mark, rfl⟩ := h.of_mem hquote hx
  · simp [isWrong, isSome_opening?_of_continuesWord hword]
  · have htable : op.spelling.toList.all (!isWrong ·) = true := by cases op <;> decide
    simpa using List.all_eq_true.1 htable x hop
  · cases mark <;> decide

theorem from_word {word : List Char} (hmarked : ∀ x ∈ word, x ∉ marked)
    (hwrong : ∀ x ∈ word, isWrong x = false) (rest : List Char) (loc : Location) :
    blankedFrom .plain (word ++ rest) = word ++ blankedFrom .plain rest ∧
      wrongFrom .plain loc (word ++ rest) =
        wrongFrom .plain (loc.advance word.length) rest := by
  induction word generalizing loc with
  | nil => exact ⟨rfl, rfl⟩
  | cons x word ih =>
    obtain ⟨hx, hmarked⟩ := List.forall_mem_cons.1 hmarked
    obtain ⟨hright, hwrong⟩ := List.forall_mem_cons.1 hwrong
    obtain ⟨hquote, hsharp, hbreak⟩ : x ≠ '"' ∧ x ≠ '#' ∧ Text.isLineBreak x = false := by
      simpa [marked, Text.isLineBreak, and_assoc] using hx
    obtain ⟨hblanked, hplaces⟩ := ih hmarked hwrong (loc.advance 1)
    rw [advance_advance, Nat.add_comm 1] at hplaces
    simp only [List.cons_append, blankedFrom_plain hquote hsharp, wrongFrom_plain hquote hsharp,
      hright, hbreak, hblanked, hplaces, Bool.false_eq_true, if_false, List.nil_append,
      List.length_cons, and_self]

theorem head?_blankedFrom_plain (text : List Char) :
    (blankedFrom .plain text).head? = text.head? ∨ (blankedFrom .plain text).head? = some ' ' := by
  cases text with
  | nil => exact .inl rfl
  | cons x rest =>
    rw [blankedFrom]
    split
    · exact .inr rfl
    · exact .inl rfl

/-- What follows a lexeme ends it in the text with spaces as well. -/
theorem yields_blankedFrom (rest : List Char) : Yields rest (blankedFrom .plain rest) := by
  refine ⟨(head?_blankedFrom_plain rest).imp_right fun hspace x hx => ?_, fun hpoint => ?_⟩
  · rw [hspace, Option.mem_some_iff] at hx
    subst hx
    decide
  · cases rest with
    | nil => rfl
    | cons x rest =>
      by_cases hx : x = '.'
      · subst hx
        rw [fractionDigits, if_pos rfl] at hpoint
        rw [blankedFrom_plain (by decide) (by decide), isWrong_of_opening rfl]
        have hstop : ∀ x ∈ rest.head?, isDigit x = false := by
          cases rest with
          | nil =>
            intro x hx
            cases hx
          | cons x rest =>
            rintro _ ⟨⟩
            rw [← Bool.not_eq_true]
            intro hdigit
            simp [hdigit] at hpoint
        refine @takeWhile_append_of_stops (blankedFrom .plain rest) isDigit []
          (fun _ hx => absurd hx List.not_mem_nil) fun x hx => ?_
        rcases head?_blankedFrom_plain rest with hhead | hspace
        · exact hstop x (hhead ▸ hx)
        · rw [hspace, Option.mem_some_iff] at hx
          subst hx
          decide
      · rw [blankedFrom, fractionDigits, if_neg]
        split
        · decide
        · exact hx

theorem code_of_mem_readLexeme (opening : Opening) (c : Cursor) :
    ∀ d ∈ (readLexeme opening c).news, d.code ≠ .wrongCharacter := by
  cases opening with
  | string =>
    have hwarns := warns_of_mem_stringTail (c.rest.drop 1) (c.offset + 1) (c.loc.advance 1)
    intro d hd
    unfold readLexeme readString at hd
    dsimp only at hd
    split at hd
    · rw [(hwarns d hd).1]
      decide
    · rcases List.mem_append.1 hd with hd | hd
      · rw [(hwarns d hd).1]
        decide
      · rw [List.mem_singleton.1 hd]
        exact nofun
  | word => exact nofun
  | number =>
    unfold readLexeme readNumber
    dsimp only
    split
    · exact nofun
    · split
      · exact nofun
      · exact List.forall_mem_singleton.2 nofun
  | symbol single =>
    unfold readLexeme readSymbol
    dsimp only
    split
    · split <;> exact nofun
    · exact nofun

/-- The second lexeme, which begins at the place of the first one, is the same. No character of it
is wrong. -/
structure Reread (c : Cursor) (l m : Lexeme) : Prop where
  kind_eq : m.kind = l.kind
  news_eq : m.news = l.news
  after : Blanked l.after m.after
  wrong_eq : wrongFrom .plain c.loc c.rest = wrongFrom .plain l.after.loc l.after.rest

theorem reread_readString (h : Blanked c d) {tail : List Char} (hc : c.rest = '"' :: tail) :
    Reread c (readString c) (readString d) := by
  have hdrop : c.rest.drop 1 = tail := by rw [hc, List.drop_one, List.tail_cons]
  have hdrop' : d.rest.drop 1 = blankedFrom .literal tail := by
    rw [h.rest_eq, hc]
    rfl
  have hwrong : wrongFrom .plain c.loc c.rest =
      wrongFrom .literal (c.loc.advance 1) tail := by
    rw [hc]
    rfl
  obtain ⟨hvalue, hnews, hafter, hrest⟩ :=
    stringTail_blanked tail (c.offset + 1) (d.offset + 1) (c.loc.advance 1)
  unfold readString
  rw [hdrop, hdrop', h.loc_eq]
  simp only [hvalue, hnews]
  split
  · exact ⟨rfl, rfl, hafter, hwrong.trans hrest⟩
  · exact ⟨rfl, rfl, hafter, hwrong.trans hrest⟩

/-- A lexeme other than a string recurs wherever its word stands, if the text after it ends it. -/
theorem recurs_of_ne_string {first : Char} {opening : Opening} (hc : c.rest = first :: rest)
    (hne : opening ≠ .string) : Recurs id (readLexeme opening) c := by
  cases opening with
  | string => exact absurd rfl hne
  | number => exact recurs_readNumber slides_id c
  | word => exact recurs_readWord slides_id c
  | symbol single => exact recurs_readSymbol slides_id single hc

theorem reread_readLexeme (h : Blanked c d) {first : Char} {opening : Opening}
    (hc : c.rest = first :: rest) (hfirst : opening? first = some opening) :
    Reread c (readLexeme opening c) (readLexeme opening d) := by
  by_cases hquote : first = '"'
  · subst hquote
    cases hfirst
    exact reread_readString h hc
  · have hne : opening ≠ .string := by
      rintro rfl
      exact hquote (opening?_eq_string hfirst)
    obtain ⟨word, kind?, hspells, hhead, hsplit, hafter⟩ :=
      exists_word_readLexeme hc hfirst hquote
    have hword : word.head? ≠ some '"' := by
      rw [hhead]
      simpa using hquote
    obtain ⟨hblanked, hwrong⟩ := from_word (not_mem_marked_of_spells hspells hword)
      (not_isWrong_of_spells hspells hword) (readLexeme opening c).after.rest c.loc
    rw [← hsplit] at hblanked hwrong
    obtain ⟨word', hsplit', hrecurs⟩ := recurs_of_ne_string hc hne
    obtain rfl : word' = word := List.append_cancel_right (hsplit'.symm.trans hsplit)
    obtain ⟨hkind, hcarried⟩ := @hrecurs d _ h.loc_eq (h.rest_eq.trans hblanked)
      (yields_blankedFrom _)
    refine ⟨hkind, hcarried.news_eq.trans (List.map_id _),
      ⟨hcarried.loc_eq, hcarried.rest_eq⟩, ?_⟩
    rw [hwrong, hafter]
    rfl

theorem otherNews_append (news more : List Diagnostic) :
    otherNews (news ++ more) = otherNews news ++ otherNews more :=
  List.filter_append _ _

theorem wrongPlaces_append (news more : List Diagnostic) :
    wrongPlaces (news ++ more) = wrongPlaces news ++ wrongPlaces more := by
  rw [wrongPlaces, List.filter_append, List.map_append, wrongPlaces, wrongPlaces]

theorem news_of_wrong {news : List Diagnostic} (h : ∀ d ∈ news, d.code = .wrongCharacter) :
    otherNews news = [] ∧ wrongPlaces news = news.map (·.loc) := by
  refine ⟨List.filter_eq_nil_iff.2 fun d hd => by simpa using h d hd, ?_⟩
  rw [wrongPlaces, List.filter_eq_self.2 fun d hd => by simpa using h d hd]

theorem news_of_right {news : List Diagnostic} (h : ∀ d ∈ news, d.code ≠ .wrongCharacter) :
    otherNews news = news ∧ wrongPlaces news = [] := by
  refine ⟨List.filter_eq_self.2 fun d hd => by simpa using h d hd, ?_⟩
  rw [wrongPlaces, List.filter_eq_nil_iff.2 fun d hd => by simpa using h d hd]
  rfl

/-- The reading without the wrong characters that it reports. -/
def Reading.besideWrong (r : Reading) : Reading :=
  ⟨otherNews r.news, r.token⟩

theorem gap_blanked (h : Blanked c d) :
    d.gap.news = [] ∧ d.gap.opening = c.gap.opening ∧ Blanked c.gap.after d.gap.after ∧
      wrongFrom .plain c.loc c.rest =
        c.gap.news.map (·.loc) ++ wrongFrom .plain c.gap.after.loc c.gap.after.rest := by
  have hgap : d.gap = gapFrom false (blankedFrom .plain c.rest) d.offset c.loc := by
    rw [Cursor.gap, h.rest_eq, h.loc_eq]
  rw [hgap]
  exact gapFrom_blanked false c.rest c.offset d.offset c.loc

/-- A reading is made again in the text with spaces. It reports the wrong characters up to where it
comes to. -/
theorem read_blanked (h : Blanked c d) :
    d.read.1 = c.read.1.besideWrong ∧ Blanked c.read.2 d.read.2 ∧
      wrongFrom .plain c.loc c.rest =
        wrongPlaces c.read.1.news ++ wrongFrom .plain c.read.2.loc c.read.2.rest := by
  obtain ⟨hnews, hsame, hafter, hrest⟩ := gap_blanked h
  obtain ⟨hother, hwrong⟩ : otherNews c.gap.news = [] ∧
      wrongPlaces c.gap.news = c.gap.news.map (·.loc) :=
    news_of_wrong (code_of_mem_gapFrom false c.rest c.offset c.loc)
  cases hopening : c.gap.opening with
  | none =>
    rw [read_of_none hopening, read_of_none (hsame.trans hopening), hnews, Reading.besideWrong,
      hother, hafter.loc_eq, hwrong]
    exact ⟨rfl, hafter, hrest⟩
  | some opening =>
    obtain ⟨first, rest, hfirst, hfirst'⟩ : ∃ first rest, c.gap.after.rest = first :: rest ∧
        opening? first = some opening :=
      (gapFrom_rest false c.rest c.offset c.loc).2 opening hopening
    have hlexeme := reread_readLexeme hafter hfirst hfirst'
    obtain ⟨hkept, hnone⟩ := news_of_right (code_of_mem_readLexeme opening c.gap.after)
    rw [read_of_some hopening, read_of_some (hsame.trans hopening), hnews, Reading.besideWrong,
      otherNews_append, hother, hkept, hafter.loc_eq, hlexeme.kind_eq, hlexeme.news_eq,
      wrongPlaces_append, hnone, List.append_nil, hwrong]
    exact ⟨rfl, hlexeme.after, hrest.trans (congrArg _ hlexeme.wrong_eq)⟩

theorem Reading.isEof_besideWrong (r : Reading) : r.besideWrong.isEof = r.isEof := rfl

/-- The wrong characters of a text are those that all of its readings report. -/
theorem readings_of_blanked (h : Blanked c d) :
    readings d = (readings c).map Reading.besideWrong ∧
      wrongFrom .plain c.loc c.rest = wrongPlaces ((readings c).flatMap (·.news)) := by
  fun_induction readings c generalizing d with
  | case1 c ih =>
    obtain ⟨hread, hafter, hwrong⟩ := read_blanked h
    rw [readings, hread, Reading.isEof_besideWrong, hwrong, List.map_cons, List.flatMap_cons,
      wrongPlaces_append]
    by_cases heof : c.read.1.isEof = true
    · have hend : c.read.2.rest = [] := (read_of_isEof heof).2
      simp [heof, hend, wrongFrom, wrongPlaces]
    · obtain ⟨hreadings, hrest⟩ := ih heof hafter
      simp only [heof, hreadings, hrest, dif_neg, Bool.false_eq_true, not_false_eq_true, and_self]

/-- Where a character of a text is reported as wrong by its readings, a space instead. -/
def blanked (text : List Char) : List Char :=
  text.mapIdx fun i x =>
    if placeOf text i ∈ wrongPlaces ((readings (.start text)).flatMap (·.news)) then ' ' else x

theorem placeOf_lt_placeOf {i j : Nat} (hlt : i < j) (hj : j ≤ text.length) :
    placeOf text i < placeOf text j := by
  have hlength : (marks text).length = text.length := length_marksFrom .plain text
  have hsplit : (marks text).drop i =
      ((marks text).drop i).take (j - i) ++ ((marks text).drop i).drop (j - i) :=
    (List.take_append_drop _ _).symm
  have htake : (((marks text).drop i).take (j - i)).length = j - i := by
    rw [List.length_take, List.length_drop]
    omega
  have hplace := foldl_move hsplit
  rw [htake, Nat.add_sub_cancel' (Nat.le_of_lt hlt)] at hplace
  obtain ⟨m, ms, hms⟩ := List.exists_cons_of_length_pos (by rw [htake]; omega :
    0 < (((marks text).drop i).take (j - i)).length)
  rw [← hplace, hms]
  exact loc_lt_foldl_move _ m ms

theorem not_lt_of_mem_wrongFrom {p : Location} (h : p ∈ wrongFrom z loc text) : ¬ p < loc := by
  induction text generalizing z loc with
  | nil => cases h
  | cons x rest ih =>
    rw [wrongFrom] at h
    rcases List.mem_append.1 h with h | h
    · split at h
      · rw [List.mem_singleton.1 h]
        exact Location.lt_irrefl _
      · cases h
    · exact fun hlt => ih h (Location.lt_trans hlt (Mark.lt_move _ _))

/-- From an offset on the zones tell the same characters as their places. -/
theorem blankedFrom_eq_mapIdx {offset : Nat} (h : (marks text).drop offset = marksFrom z rest) :
    blankedFrom z rest = rest.mapIdx fun i x =>
      if placeOf text (offset + i) ∈ wrongFrom z (placeOf text offset) rest then ' ' else x := by
  induction rest generalizing z offset with
  | nil => rfl
  | cons x rest ih =>
    rw [marksFrom] at h
    have hmark : (marks text)[offset]? = some ((z.enter x).mark x rest.head?) := by
      rw [← List.head?_drop, h]
      rfl
    have hrest : (marks text).drop (offset + 1) =
        marksFrom ((z.enter x).next x rest.head?) rest := by
      rw [← List.drop_drop, h]
      rfl
    have hlength : text.length = offset + (rest.length + 1) := by
      have hle : offset < (marks text).length := (List.getElem?_eq_some_iff.1 hmark).1
      have hdrop := congrArg List.length h
      rw [marks, length_marksFrom] at hle
      rw [List.length_drop, List.length_cons, marks, length_marksFrom, length_marksFrom] at hdrop
      omega
    have hlater : ∀ p ∈ wrongFrom ((z.enter x).next x rest.head?) (placeOf text (offset + 1)) rest,
        placeOf text offset < p := fun p hp =>
      Location.lt_of_lt_of_not_lt (placeOf_lt_placeOf (Nat.lt_succ_self _) (by omega))
        (not_lt_of_mem_wrongFrom hp)
    rw [blankedFrom, wrongFrom, ← placeOf_succ hmark, List.mapIdx_cons, ih hrest]
    congr 1
    · by_cases hwrong : z = .plain ∧ isWrong x = true
      · simp [hwrong]
      · have hnot : placeOf text offset ∉ wrongFrom ((z.enter x).next x rest.head?)
            (placeOf text (offset + 1)) rest := fun hmem =>
          Location.lt_irrefl _ (hlater _ hmem)
        simp [hwrong, hnot]
    · refine List.mapIdx_eq_mapIdx_iff.2 fun i hi => ?_
      have hne : placeOf text (offset + (i + 1)) ≠ placeOf text offset := by
        intro heq
        have hlt := @placeOf_lt_placeOf text offset (offset + (i + 1)) (by omega) (by omega)
        rw [heq] at hlt
        exact Location.lt_irrefl _ hlt
      by_cases hwrong : z = .plain ∧ isWrong x = true
      · simp [hwrong, hne, Nat.add_assoc, Nat.add_comm 1]
      · simp [hwrong, Nat.add_assoc, Nat.add_comm 1]

theorem blanked_eq (text : List Char) : blanked text = blankedFrom .plain text := by
  have hstart : Blanked (.start text) ⟨blankedFrom .plain text, 0, .start⟩ := ⟨rfl, rfl⟩
  have hmarks : (marks text).drop 0 = marksFrom .plain text := rfl
  have hplaces := (readings_of_blanked hstart).2
  have hblanked := blankedFrom_eq_mapIdx hmarks
  simp only [Nat.zero_add] at hblanked
  rw [hblanked, blanked, ← hplaces]
  rfl

/-- In the text with a space for every character that was reported as wrong, the readings are those
of the text: each gives the same token at the same place, or none, and reports the same apart from
wrong characters, of which none is left. -/
theorem readings_blanked (text : List Char) :
    readings (.start (blanked text)) = (readings (.start text)).map Reading.besideWrong ∧
    (readings (.start (blanked text))).map (·.token) = (readings (.start text)).map (·.token) ∧
    (readings (.start (blanked text))).flatMap (·.news) =
      ((readings (.start text)).flatMap (·.news)).filter (·.code ≠ .wrongCharacter) := by
  have hstart : Blanked (.start text) (.start (blanked text)) := ⟨rfl, blanked_eq text⟩
  have hreadings := (readings_of_blanked hstart).1
  refine ⟨hreadings, ?_, ?_⟩
  · rw [hreadings, List.map_map]
    rfl
  · rw [hreadings, List.flatMap_map, List.filter_flatMap]
    rfl

/-- What is inside of a literal or a comment stays. -/
example : blanked "a@<$ = \"@\" # $\n?1".toList = "a <  = \"@\" # $\n 1".toList := by
  decide +kernel

end Token

end LarkCheck
