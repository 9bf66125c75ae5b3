import LarkCheck.Proofs.Token.Layout
import LarkCheck.Proofs.Token.LineEnds
import LarkCheck.Proofs.Tree.Move

/-!
# The same characters in another text

A reading depends on the characters that it passes over and on whether its lexeme
could go on after them. So the tokens of a text are read again, moved, from another
text that holds the same characters, as long as white space or the end of the text
follows them there.
-/

namespace LarkCheck

open Token

instance : Movable Reading := ⟨fun f r => ⟨move f r.news, move f r.token⟩⟩

/-- Moves a place down by some lines. -/
def Location.down (n : Nat) (loc : Location) : Location :=
  ⟨loc.line + n, loc.column⟩

namespace Token

/-- Passing over characters and moving can be done in either order. -/
structure Slides (f : Location → Location) : Prop where
  advance : ∀ loc width, f (loc.advance width) = (f loc).advance width
  nextLine : ∀ loc, f loc.nextLine = (f loc).nextLine

theorem slides_id : Slides id := ⟨fun _ _ => rfl, fun _ => rfl⟩

theorem slides_down (n : Nat) : Slides (Location.down n) where
  advance _ _ := rfl
  nextLine loc := by
    simp only [Location.down, Location.nextLine, Location.mk.injEq, and_true]
    omega

/-- What was reported and where the cursor is now, moved and in front of `rest`. -/
structure Carried (f : Location → Location) (news : List Diagnostic) (c : Cursor)
    (rest : List Char) (news' : List Diagnostic) (c' : Cursor) : Prop where
  news_eq : news' = move f news
  rest_eq : c'.rest = rest
  loc_eq : c'.loc = f c.loc

variable {f : Location → Location} {c d : Cursor} {rest rest' : List Char}

/-- The gap with earlier reports. -/
def Gap.report (news : List Diagnostic) (gap : Gap) : Gap :=
  { gap with news := news ++ gap.news }

/-- The characters of a gap are passed over in front of any others; `inside` tells whether they
leave a comment open. -/
theorem gapFrom_append (hf : Slides f) (inComment : Bool) (text : List Char) (offset : Nat)
    (loc : Location) : ∃ lead inside,
      text = lead ++ (gapFrom inComment text offset loc).after.rest ∧
      ((gapFrom inComment text offset loc).opening ≠ none → inside = false) ∧
      ∀ rest offset', gapFrom inComment (lead ++ rest) offset' (f loc) =
        (gapFrom inside rest (offset' + lead.length)
          (f (gapFrom inComment text offset loc).after.loc)).report
            (move f (gapFrom inComment text offset loc).news) := by
  induction text generalizing inComment offset loc with
  | nil => exact ⟨[], inComment, rfl, fun h => absurd rfl h, fun _ _ => rfl⟩
  | cons c text ih =>
    rw [gapFrom]
    split
    · rename_i hbreak
      obtain ⟨lead, inside, htext, hinside, hlead⟩ := ih false (offset + 1) loc.nextLine
      refine ⟨c :: lead, inside, congrArg (c :: ·) htext, hinside, fun rest offset' => ?_⟩
      rw [List.cons_append, gapFrom, if_pos hbreak, ← hf.nextLine, hlead, List.length_cons,
        Nat.add_assoc, Nat.add_comm 1]
    rename_i hbreak
    split
    · rename_i hpassed
      obtain ⟨lead, inside, htext, hinside, hlead⟩ := ih inComment (offset + 1) (loc.advance 1)
      refine ⟨c :: lead, inside, congrArg (c :: ·) htext, hinside, fun rest offset' => ?_⟩
      rw [List.cons_append, gapFrom, if_neg hbreak, if_pos hpassed, ← hf.advance, hlead,
        List.length_cons, Nat.add_assoc, Nat.add_comm 1]
    rename_i hpassed
    split
    · rename_i hcomment
      obtain ⟨lead, inside, htext, hinside, hlead⟩ := ih true (offset + 1) (loc.advance 1)
      refine ⟨c :: lead, inside, congrArg (c :: ·) htext, hinside, fun rest offset' => ?_⟩
      rw [List.cons_append, gapFrom, if_neg hbreak, if_neg hpassed, if_pos hcomment,
        ← hf.advance, hlead, List.length_cons, Nat.add_assoc, Nat.add_comm 1]
    rename_i hcomment
    split
    · have houtside : inComment = false := by
        simp only [Bool.or_eq_true, not_or, Bool.not_eq_true] at hpassed
        exact hpassed.1
      exact ⟨[], inComment, rfl, fun _ => houtside, fun _ _ => rfl⟩
    · rename_i hopening
      obtain ⟨lead, inside, htext, hinside, hlead⟩ := ih false (offset + 1) (loc.advance 1)
      refine ⟨c :: lead, inside, congrArg (c :: ·) htext, hinside, fun rest offset' => ?_⟩
      rw [List.cons_append, gapFrom, if_neg hbreak, if_neg hpassed, if_neg hcomment, hopening]
      dsimp only
      rw [← hf.advance, hlead, List.length_cons, Nat.add_assoc, Nat.add_comm 1]
      rfl

theorem gap_append (hf : Slides f) (c : Cursor) : ∃ lead inside,
    c.rest = lead ++ c.gap.after.rest ∧ (c.gap.opening ≠ none → inside = false) ∧
    ∀ {d : Cursor} {rest : List Char}, d.loc = f c.loc → d.rest = lead ++ rest →
      d.gap = (gapFrom inside rest (d.offset + lead.length) (f c.gap.after.loc)).report
        (move f c.gap.news) := by
  obtain ⟨lead, inside, hlead, houtside, hgap⟩ := gapFrom_append hf false c.rest c.offset c.loc
  refine ⟨lead, inside, hlead, houtside, fun {d rest} hloc hrest => ?_⟩
  rw [Cursor.gap, hrest, hloc, hgap]
  rfl

theorem stringTail_append (hf : Slides f) {value : List Char} {text : List Char} {offset : Nat}
    {loc : Location} (hvalue : (stringTail text offset loc).value = some value) :
    ∃ lead, lead ≠ [] ∧ text = lead ++ (stringTail text offset loc).after.rest ∧
      ∀ rest offset', (stringTail (lead ++ rest) offset' (f loc)).value = some value ∧
        Carried f (stringTail text offset loc).news (stringTail text offset loc).after rest
          (stringTail (lead ++ rest) offset' (f loc)).news
          (stringTail (lead ++ rest) offset' (f loc)).after := by
  fun_induction stringTail text offset loc generalizing value with
  | case1 | case3 | case4 | case10 => cases hvalue
  | case2 rest offset loc =>
    cases hvalue
    refine ⟨['"'], List.cons_ne_nil _ _, rfl, fun rest offset' => ?_⟩
    rw [List.singleton_append, stringTail_quote]
    exact ⟨rfl, rfl, rfl, (hf.advance _ _).symm⟩
  | case5 offset loc further _ ih =>
    obtain ⟨lead, -, htext, hlead⟩ := ih hvalue
    refine ⟨'\\' :: '\r' :: '\n' :: lead, List.cons_ne_nil _ _,
      congrArg ('\\' :: '\r' :: '\n' :: ·) htext, fun rest offset' => ?_⟩
    have := hlead rest (offset' + 3)
    rw [hf.nextLine] at this
    exact this
  | case6 offset loc next further hnext _ ih =>
    obtain ⟨lead, hne, htext, hlead⟩ := ih hvalue
    obtain ⟨first, lead, rfl⟩ := List.exists_cons_of_ne_nil hne
    obtain ⟨rfl, -⟩ := List.cons.inj htext
    refine ⟨'\\' :: '\r' :: next :: lead, List.cons_ne_nil _ _,
      congrArg ('\\' :: '\r' :: ·) htext, fun rest offset' => ?_⟩
    have := hlead rest (offset' + 2)
    rw [hf.nextLine] at this
    rw [List.cons_append, List.cons_append, List.cons_append, stringTail_onlyReturn hnext]
    exact this
  | case7 offset loc rest _ _ ih =>
    obtain ⟨lead, -, htext, hlead⟩ := ih hvalue
    refine ⟨'\\' :: '\n' :: lead, List.cons_ne_nil _ _, congrArg ('\\' :: '\n' :: ·) htext,
      fun rest offset' => ?_⟩
    have := hlead rest (offset' + 2)
    rw [hf.nextLine] at this
    rw [List.cons_append, List.cons_append, stringTail_lineFeed]
    exact this
  | case8 offset loc escaped rest hreturn hline d hd _ ih =>
    obtain ⟨v, hv, rfl⟩ := Option.map_eq_some_iff.1 hvalue
    obtain ⟨lead, -, htext, hlead⟩ := ih hv
    refine ⟨'\\' :: escaped :: lead, List.cons_ne_nil _ _,
      congrArg ('\\' :: escaped :: ·) htext, fun rest offset' => ?_⟩
    have := hlead rest (offset' + 2)
    rw [hf.advance] at this
    rw [List.cons_append, List.cons_append, stringTail_unescape hd hreturn hline]
    exact ⟨congrArg (Option.map _) this.1, this.2⟩
  | case9 offset loc escaped rest hreturn hline hd _ ih =>
    obtain ⟨v, hv, rfl⟩ := Option.map_eq_some_iff.1 hvalue
    obtain ⟨lead, -, htext, hlead⟩ := ih hv
    refine ⟨'\\' :: escaped :: lead, List.cons_ne_nil _ _,
      congrArg ('\\' :: escaped :: ·) htext, fun rest offset' => ?_⟩
    have := hlead rest (offset' + 2)
    rw [hf.advance] at this
    rw [List.cons_append, List.cons_append, stringTail_unknown hd hreturn hline]
    exact ⟨congrArg (Option.map _) this.1, congrArg (_ :: ·) this.2.news_eq, this.2.rest_eq,
      this.2.loc_eq⟩
  | case11 c rest offset loc hquote hslash hend ih =>
    obtain ⟨v, hv, rfl⟩ := Option.map_eq_some_iff.1 hvalue
    obtain ⟨lead, -, htext, hlead⟩ := ih hv
    refine ⟨c :: lead, List.cons_ne_nil _ _, congrArg (c :: ·) htext, fun rest offset' => ?_⟩
    have := hlead rest (offset' + 1)
    rw [hf.advance] at this
    rw [List.cons_append, stringTail_plain hquote hslash hend]
    exact ⟨congrArg (Option.map _) this.1, this.2⟩

/-- A lexeme that ends before `rest` ends before `rest'` as well. -/
structure Yields (rest rest' : List Char) : Prop where
  head : rest'.head? = rest.head? ∨ Ended rest'
  point : fractionDigits rest = [] → fractionDigits rest' = []

theorem yields_append (lead rest : List Char) (h : Ended rest') :
    Yields (lead ++ rest) (lead ++ rest') := by
  cases lead with
  | nil => exact ⟨.inr h, fun _ => fractionDigits_eq_nil h⟩
  | cons c lead =>
    refine ⟨.inl rfl, fun hpoint => ?_⟩
    rw [List.cons_append, fractionDigits] at hpoint ⊢
    split at hpoint
    · rw [if_pos ‹_›]
      cases lead with
      | nil => exact @Ended.takeWhile_append rest' isDigit (by decide) [] (by simp) h
      | cons d lead =>
        rw [List.cons_append, List.takeWhile_cons] at hpoint ⊢
        split at hpoint
        · cases hpoint
        · rw [if_neg ‹_›]
    · rw [if_neg ‹_›]

/-- What a run of characters stops at it stops at again. -/
theorem Yields.stops {p : Char → Bool} (hp : whites.all (fun c => !p c) = true)
    (h : Yields rest rest') (hrest : ∀ c ∈ rest.head?, p c = false) :
    ∀ c ∈ rest'.head?, p c = false := by
  rcases h.head with hhead | hended
  · rwa [hhead]
  · intro c hc
    simpa using of_isWhite hp (hended c hc)

theorem takeWhile_append_of_stops {p : Char → Bool} {word : List Char}
    (hword : ∀ c ∈ word, p c = true) (hrest : ∀ c ∈ rest.head?, p c = false) :
    (word ++ rest).takeWhile p = word := by
  rw [List.takeWhile_append_of_pos hword]
  cases rest with
  | nil => rw [List.takeWhile_nil, List.append_nil]
  | cons c rest => rw [List.takeWhile_cons_of_neg (by simp [hrest c rfl]), List.append_nil]

/-- The reader finds its lexeme again wherever the characters stand, if the lexeme can end
there. -/
def Recurs (f : Location → Location) (read : Cursor → Lexeme) (c : Cursor) : Prop :=
  ∃ word, c.rest = word ++ (read c).after.rest ∧
    ∀ {d : Cursor} {rest : List Char}, d.loc = f c.loc → d.rest = word ++ rest →
      Yields (read c).after.rest rest →
        (read d).kind = (read c).kind ∧
          Carried f (read c).news (read c).after rest (read d).news (read d).after

theorem rest_pass (word : List Char) (h : c.rest = word ++ rest) :
    (c.pass word.length).rest = rest := by
  rw [Cursor.pass, h, List.drop_left]

theorem carried_pass (hf : Slides f) (word : List Char) (news : List Diagnostic)
    (hloc : d.loc = f c.loc) (hrest : d.rest = word ++ rest) :
    Carried f news (c.pass word.length) rest (move f news) (d.pass word.length) where
  news_eq := rfl
  rest_eq := rest_pass word hrest
  loc_eq := by rw [Cursor.pass, Cursor.pass, hloc, hf.advance]

theorem drop_length_takeWhile (p : Char → Bool) (text : List Char) :
    text.drop (text.takeWhile p).length = text.dropWhile p := by
  have := @List.drop_left _ (text.takeWhile p) (text.dropWhile p)
  rwa [List.takeWhile_append_dropWhile] at this

theorem recurs_readWord (hf : Slides f) (c : Cursor) : Recurs f readWord c := by
  have hafter : (readWord c).after.rest = c.rest.dropWhile continuesWord :=
    drop_length_takeWhile _ _
  refine ⟨c.rest.takeWhile continuesWord, ?_, fun {d rest} hloc hrest hyields => ?_⟩
  · rw [hafter, List.takeWhile_append_dropWhile]
  rw [hafter] at hyields
  have htake : d.rest.takeWhile continuesWord = c.rest.takeWhile continuesWord := by
    rw [hrest]
    exact takeWhile_append_of_stops (List.all_eq_true.1 List.all_takeWhile)
      (hyields.stops (by decide) (not_of_mem_head?_dropWhile _ _))
  unfold readWord
  rw [htake]
  exact ⟨rfl, carried_pass hf _ [] hloc hrest⟩

theorem recurs_readString (hf : Slides f) {kind : Kind} (hkind : (readString c).kind = some kind)
    {text : List Char} (hc : c.rest = '"' :: text) : Recurs f readString c := by
  unfold readString at hkind
  rw [hc, List.drop_succ_cons, List.drop_zero] at hkind
  cases hvalue : (stringTail text (c.offset + 1) (c.loc.advance 1)).value with
  | none => simp [hvalue] at hkind
  | some value =>
    obtain ⟨lead, -, htext, hlead⟩ := stringTail_append hf hvalue
    have hread : readString c = ⟨some (.string (String.ofList value)),
        (stringTail text (c.offset + 1) (c.loc.advance 1)).news,
        (stringTail text (c.offset + 1) (c.loc.advance 1)).after⟩ := by
      unfold readString
      simp only [hc, List.drop_succ_cons, List.drop_zero, hvalue]
    refine ⟨'"' :: lead, ?_, fun {d rest} hloc hrest _ => ?_⟩
    · rw [hread, hc]
      exact congrArg ('"' :: ·) htext
    · have htail := hlead rest (d.offset + 1)
      rw [hf.advance] at htail
      have hread' : readString d = ⟨some (.string (String.ofList value)),
          (stringTail (lead ++ rest) (d.offset + 1) ((f c.loc).advance 1)).news,
          (stringTail (lead ++ rest) (d.offset + 1) ((f c.loc).advance 1)).after⟩ := by
        unfold readString
        simp only [hrest, List.cons_append, List.drop_succ_cons, List.drop_zero, hloc, htail.1]
      rw [hread, hread']
      exact ⟨rfl, htail.2⟩

theorem readNumber_split {whole after : List Char} (hrest : c.rest = whole ++ after)
    (hwhole : ∀ x ∈ whole, isDigit x = true) (hafter : ∀ x ∈ after.head?, isDigit x = false) :
    readNumber c =
      if fractionDigits after ≠ [] then
        ⟨some (.real (realValue whole (fractionDigits after))), [],
          c.pass (whole ++ '.' :: fractionDigits after).length⟩
      else if decimalValue whole ≤ maxInteger then
        ⟨some (.int (decimalValue whole)), [], c.pass whole.length⟩
      else
        ⟨none, [.of .integerLiteralTooLarge c.loc []], c.pass whole.length⟩ := by
  have htake : c.rest.takeWhile isDigit = whole := by
    rw [hrest, takeWhile_append_of_stops hwhole hafter]
  have hdrop : c.rest.drop whole.length = after := by rw [hrest, List.drop_left]
  unfold readNumber
  simp only [htake, hdrop, List.length_append, List.length_cons, Nat.add_assoc, Nat.add_comm 1,
    integerValue?_eq, integer?]
  by_cases hvalue : decimalValue whole ≤ maxInteger
  · rw [if_pos hvalue, if_pos hvalue]
  · rw [if_neg hvalue, if_neg hvalue]

theorem recurs_readNumber (hf : Slides f) (c : Cursor) : Recurs f readNumber c := by
  have hwhole : ∀ x ∈ c.rest.takeWhile isDigit, isDigit x = true :=
    List.all_eq_true.1 List.all_takeWhile
  have hsplit : c.rest = c.rest.takeWhile isDigit ++ c.rest.dropWhile isDigit :=
    List.takeWhile_append_dropWhile.symm
  have hstop := not_of_mem_head?_dropWhile isDigit c.rest
  generalize c.rest.takeWhile isDigit = whole at hsplit hwhole
  generalize c.rest.dropWhile isDigit = after at hsplit hstop
  have hread := readNumber_split hsplit hwhole hstop
  by_cases hfraction : fractionDigits after = []
  · have hafter : (readNumber c).after.rest = after := by
      rw [hread]
      split <;> first | contradiction | skip
      split <;> exact rest_pass _ hsplit
    refine ⟨whole, by rw [hafter]; exact hsplit, fun {d rest} hloc hrest hyields => ?_⟩
    rw [hafter] at hyields
    have hstop' := hyields.stops (by decide) hstop
    rw [hread, readNumber_split hrest hwhole hstop', hyields.point hfraction, hfraction]
    simp only [ne_eq, not_true_eq_false, if_false]
    split
    · exact ⟨rfl, carried_pass hf _ [] hloc hrest⟩
    · rw [hloc]
      exact ⟨rfl, carried_pass hf _ [.of .integerLiteralTooLarge c.loc []] hloc hrest⟩
  · obtain ⟨further, hpoint, hdigits, hfurther⟩ := eq_of_fractionDigits_ne_nil hfraction
    generalize fractionDigits after = fraction at hfraction hpoint hread hdigits
    rw [if_pos hfraction] at hread
    have hword : c.rest = (whole ++ '.' :: fraction) ++ further := by
      rw [hsplit, hpoint, List.append_assoc, List.cons_append]
    have hafter : (readNumber c).after.rest = further := by
      rw [hread]
      exact rest_pass _ hword
    refine ⟨_, by rw [hafter]; exact hword, fun {d rest} hloc hrest hyields => ?_⟩
    rw [hafter] at hyields
    have hrest' : d.rest = whole ++ '.' :: (fraction ++ rest) := by
      rw [hrest, List.append_assoc, List.cons_append]
    have hpoint' : fractionDigits ('.' :: (fraction ++ rest)) = fraction :=
      takeWhile_append_of_stops hdigits (hyields.stops (by decide) hfurther)
    have hread' := readNumber_split hrest' hwhole (by
      rintro _ ⟨⟩
      decide)
    rw [hpoint', if_pos hfraction] at hread'
    rw [hread, hread']
    exact ⟨rfl, carried_pass hf _ [] hloc hrest⟩

theorem readSymbol_of_single {first : Char} {text : List Char} {single : Kind}
    (hrest : c.rest = first :: text)
    (h : ∀ second ∈ text.head?, Operator.ofPair? first second = none) :
    readSymbol single c = ⟨some single, [], c.pass 1⟩ := by
  unfold readSymbol
  rw [hrest]
  cases text with
  | nil => rfl
  | cons second text => simp only [h second rfl]

theorem readSymbol_of_pair {first second : Char} {text : List Char} {single : Kind}
    {op : Operator} (hrest : c.rest = first :: second :: text)
    (h : Operator.ofPair? first second = some op) :
    readSymbol single c = ⟨some (.operator op), [], c.pass 2⟩ := by
  unfold readSymbol
  simp only [hrest, h]

theorem recurs_readSymbol (hf : Slides f) (single : Kind) {first : Char} {text : List Char}
    (hc : c.rest = first :: text) : Recurs f (readSymbol single) c := by
  by_cases hsingle : ∀ second ∈ text.head?, Operator.ofPair? first second = none
  · have hread : readSymbol single c = ⟨some single, [], c.pass 1⟩ :=
      readSymbol_of_single hc hsingle
    have hafter : (readSymbol single c).after.rest = text := by
      rw [hread]
      exact rest_pass [first] hc
    refine ⟨[first], by rw [hafter]; exact hc, fun {d rest} hloc hrest hyields => ?_⟩
    rw [hafter] at hyields
    have hsingle' : ∀ second ∈ rest.head?, Operator.ofPair? first second = none := by
      rcases hyields.head with hhead | hended
      · rwa [hhead]
      · exact fun second hsecond => ofPair?_eq_none (hended second hsecond)
    rw [hread, readSymbol_of_single hrest hsingle']
    exact ⟨rfl, carried_pass hf [first] [] hloc hrest⟩
  · cases text with
    | nil => exact absurd nofun hsingle
    | cons second text =>
      cases hpair : Operator.ofPair? first second with
      | none =>
        refine absurd ?_ hsingle
        rintro _ ⟨⟩
        exact hpair
      | some op =>
        have hread : readSymbol single c = ⟨some (.operator op), [], c.pass 2⟩ :=
          readSymbol_of_pair hc hpair
        refine ⟨[first, second], ?_, fun {d rest} hloc hrest _ => ?_⟩
        · rw [hread, hc]
          exact congrArg (first :: second :: ·) (rest_pass [first, second] hc).symm
        · rw [hread, readSymbol_of_pair hrest hpair]
          exact ⟨rfl, carried_pass hf [first, second] [] hloc hrest⟩

theorem recurs_readLexeme (hf : Slides f) {first : Char} {text : List Char} {opening : Opening}
    {kind : Kind} (hc : c.rest = first :: text) (hfirst : opening? first = some opening)
    (hkind : (readLexeme opening c).kind = some kind) : Recurs f (readLexeme opening) c := by
  cases opening with
  | string => exact recurs_readString hf hkind (opening?_eq_string hfirst ▸ hc)
  | number => exact recurs_readNumber hf c
  | word => exact recurs_readWord hf c
  | symbol single => exact recurs_readSymbol hf single hc

/-- A token is read again where its characters and those before it stand. -/
theorem read_append (hf : Slides f) {token : Token} (htoken : c.read.1.token = some token)
    (hne : token.kind ≠ .eof) : ∃ lead word, c.rest = lead ++ (word ++ c.read.2.rest) ∧
      c.gap.after.rest = word ++ c.read.2.rest ∧
      ∀ {d : Cursor} {rest : List Char}, d.loc = f c.loc → d.rest = lead ++ (word ++ rest) →
        Yields c.read.2.rest rest →
          d.read.1 = move f c.read.1 ∧ d.read.2.rest = rest ∧ d.read.2.loc = f c.read.2.loc := by
  cases hopening : c.gap.opening with
  | none =>
    rw [read_of_none hopening] at htoken
    cases htoken
    exact absurd rfl hne
  | some opening =>
    obtain ⟨first, text, hafter, hfirst⟩ :=
      (gapFrom_rest false c.rest c.offset c.loc).2 opening hopening
    replace hafter : c.gap.after.rest = first :: text := hafter
    obtain ⟨lead, inside, hlead, houtside, hgap⟩ := gap_append hf c
    obtain rfl := houtside (by simp [hopening])
    have hread := read_of_some hopening
    rw [hread] at htoken
    obtain ⟨kind, hkind, -⟩ := Option.map_eq_some_iff.1 htoken
    obtain ⟨word, hword, hrecurs⟩ := recurs_readLexeme hf hafter hfirst hkind
    have hbegins : ∃ further, word = first :: further := by
      have hlt := readLexeme_rest_lt hafter hfirst
      cases word with
      | nil =>
        rw [List.nil_append] at hword
        rw [← hword] at hlt
        exact absurd hlt (Nat.lt_irrefl _)
      | cons x word =>
        rw [hafter, List.cons_append] at hword
        obtain ⟨rfl, -⟩ := List.cons.inj hword
        exact ⟨word, rfl⟩
    rw [hread]
    refine ⟨lead, word, by rw [← hword]; exact hlead, hword, fun {d rest} hloc hrest hyields => ?_⟩
    have hgap' : d.gap = ⟨move f c.gap.news, some opening,
        ⟨word ++ rest, d.offset + lead.length, f c.gap.after.loc⟩⟩ := by
      obtain ⟨further, rfl⟩ := hbegins
      rw [hgap hloc hrest, List.cons_append, gapFrom_opening hfirst, Gap.report, List.append_nil]
    obtain ⟨hkind', hnews, hrest', hloc'⟩ := @hrecurs d.gap.after rest (by rw [hgap'])
      (by rw [hgap']) hyields
    have hread' := @read_of_some d opening (by rw [hgap'])
    rw [hnews, hkind', show d.gap.news = _ from congrArg (·.news) hgap',
      show d.gap.after.loc = _ from congrArg (·.after.loc) hgap'] at hread'
    rw [hread', hkind]
    refine ⟨?_, hrest', hloc'⟩
    simp only [move, List.map_append, Option.map_some]

end Token

end LarkCheck
