import LarkCheck.Proofs.Token.LongestMatch

/-!
# Where the lines of a text end

A line break ends a line unless it is inside of a string literal, where only an escaped
line end does. Which characters are inside of literals is told from left to right, one
character at a time, without regard to tokens. The reader keeps to these marks: what
it passes over in front of a lexeme is outside, a string is inside, and its place
moves by one mark for each character.
-/

namespace LarkCheck

/-- What a character stands in. -/
inductive Zone
  | plain
  | comment
  | literal
  | escape
deriving DecidableEq, Repr

/-- Whether a character belongs to a string literal, its quotes included, and whether a line ends
with it. -/
structure Mark where
  inside : Bool
  endsLine : Bool
deriving DecidableEq, Repr

namespace Mark

def move (loc : Location) (m : Mark) : Location :=
  if m.endsLine then loc.nextLine else loc.advance 1

theorem lt_move (loc : Location) (m : Mark) : loc < move loc m := by
  unfold move
  split
  · exact loc.lt_nextLine
  · exact loc.lt_advance Nat.one_pos

end Mark

namespace Zone

/-- A literal is given up in front of the end of a line. -/
def enter (z : Zone) (x : Char) : Zone :=
  if z = .literal ∧ (x = '\r' ∨ x = '\n') then .plain else z

/-- A carriage return in front of a line feed leaves the end of the line to it. -/
def mark (z : Zone) (x : Char) (next? : Option Char) : Mark :=
  match z with
  | .plain => ⟨x = '"', Text.isLineBreak x⟩
  | .comment => ⟨false, Text.isLineBreak x⟩
  | .literal => ⟨true, false⟩
  | .escape => ⟨true, x = '\n' || (x = '\r' && next? ≠ some '\n')⟩

/-- The zone after a character. -/
def next (z : Zone) (x : Char) (next? : Option Char) : Zone :=
  match z with
  | .plain => if x = '"' then .literal else if x = '#' then .comment else .plain
  | .comment => if Text.isLineBreak x then .plain else .comment
  | .literal => if x = '"' then .plain else if x = '\\' then .escape else .literal
  | .escape => if x = '\r' ∧ next? = some '\n' then .escape else .literal

end Zone

/-- The marks of a text that begins in a zone. -/
def marksFrom (z : Zone) : List Char → List Mark
  | [] => []
  | x :: rest =>
    (z.enter x).mark x rest.head? :: marksFrom ((z.enter x).next x rest.head?) rest

def marks (text : List Char) : List Mark :=
  marksFrom .plain text

theorem length_marksFrom (z : Zone) (text : List Char) :
    (marksFrom z text).length = text.length := by
  induction text generalizing z with
  | nil => rfl
  | cons x rest ih => rw [marksFrom, List.length_cons, ih, List.length_cons]

namespace Token

/-- Passing over characters with these marks leads from one cursor to the other. -/
structure Walk (z : Zone) (c : Cursor) (ms : List Mark) (z' : Zone) (d : Cursor) : Prop where
  rest_eq : d.rest = c.rest.drop ms.length
  offset_eq : d.offset = c.offset + ms.length
  marks_eq : marksFrom z c.rest = ms ++ marksFrom z' d.rest
  loc_eq : d.loc = ms.foldl Mark.move c.loc

variable {z z₁ z' y : Zone} {c d e : Cursor} {ms ns : List Mark} {x : Char} {rest : List Char}
  {offset : Nat} {loc loc₁ : Location}

theorem Walk.stay (h : marksFrom z c.rest = marksFrom z' c.rest) : Walk z c [] z' c :=
  ⟨rfl, rfl, h, rfl⟩

theorem Walk.trans (h : Walk z c ms z₁ d) (h' : Walk z₁ d ns z' e) :
    Walk z c (ms ++ ns) z' e where
  rest_eq := by rw [h'.rest_eq, h.rest_eq, List.drop_drop, List.length_append]
  offset_eq := by rw [h'.offset_eq, h.offset_eq, List.length_append, Nat.add_assoc]
  marks_eq := by rw [h.marks_eq, h'.marks_eq, List.append_assoc]
  loc_eq := by rw [h'.loc_eq, h.loc_eq, List.foldl_append]

theorem Walk.offset_le (h : Walk z c ms z' d) : c.offset ≤ d.offset := by
  rw [h.offset_eq]
  exact Nat.le_add_right _ _

/-- No character is lost on the way. -/
theorem Walk.length_eq (h : Walk z c ms z' d) :
    c.offset + c.rest.length = d.offset + d.rest.length := by
  have hlength := congrArg List.length h.marks_eq
  rw [List.length_append, length_marksFrom, length_marksFrom] at hlength
  rw [h.offset_eq, hlength, Nat.add_assoc]

theorem Walk.single (offset : Nat) (hz : (z.enter x).next x rest.head? = z₁)
    (hloc : Mark.move loc ((z.enter x).mark x rest.head?) = loc₁) :
    Walk z ⟨x :: rest, offset, loc⟩ [(z.enter x).mark x rest.head?] z₁
      ⟨rest, offset + 1, loc₁⟩ where
  rest_eq := rfl
  offset_eq := rfl
  marks_eq := by rw [marksFrom, hz]; rfl
  loc_eq := hloc.symm

/-- The reader goes from one cursor to the other, all inside of a literal or all outside, and what
it reports stands on its way. -/
structure Passes (inside : Bool) (z : Zone) (c : Cursor) (z' : Zone) (d : Cursor)
    (news : List Diagnostic) : Prop where
  walk : ∃ ms, Walk z c ms z' d ∧ ∀ m ∈ ms, m.inside = inside
  met : ∀ r ∈ news, ∃ ms y e, Walk z c ms y e ∧ e.offset < d.offset ∧ e.loc = r.loc

variable {inside : Bool} {news more : List Diagnostic}

theorem Passes.stay (h : marksFrom z c.rest = marksFrom z' c.rest) :
    Passes inside z c z' c [] :=
  ⟨⟨[], .stay h, by simp⟩, by simp⟩

theorem Passes.offset_le (h : Passes inside z c z' d news) : c.offset ≤ d.offset := by
  obtain ⟨ms, hwalk, -⟩ := h.walk
  exact hwalk.offset_le

/-- One character further back. -/
theorem Passes.step (hinside : ((z.enter x).mark x rest.head?).inside = inside)
    (hz : (z.enter x).next x rest.head? = z₁)
    (hloc : Mark.move loc ((z.enter x).mark x rest.head?) = loc₁)
    (h : Passes inside z₁ ⟨rest, offset + 1, loc₁⟩ z' d news) :
    Passes inside z ⟨x :: rest, offset, loc⟩ z' d news := by
  have hsingle := Walk.single offset hz hloc
  obtain ⟨ms, hwalk, hms⟩ := h.walk
  refine ⟨⟨_, hsingle.trans hwalk, by simpa [hinside] using hms⟩, fun r hr => ?_⟩
  obtain ⟨ns, y, e, hmet, hlt, heq⟩ := h.met r hr
  exact ⟨_, y, e, hsingle.trans hmet, hlt, heq⟩

/-- Further reports at the first character. -/
theorem Passes.report (h : Passes inside z c z' d news) (hlt : c.offset < d.offset)
    (hmore : ∀ r ∈ more, r ∈ news ∨ r.loc = c.loc) : Passes inside z c z' d more := by
  refine ⟨h.walk, fun r hr => ?_⟩
  rcases hmore r hr with hr | hloc
  · exact h.met r hr
  · exact ⟨[], z, c, .stay rfl, hlt, hloc.symm⟩

/-- A character outside of comments which opens neither a literal nor a comment. -/
theorem Passes.plain (hquote : x ≠ '"') (hsharp : x ≠ '#')
    (hloc : Mark.move loc ⟨false, Text.isLineBreak x⟩ = loc₁)
    (h : Passes false .plain ⟨rest, offset + 1, loc₁⟩ z' d news) :
    Passes false .plain ⟨x :: rest, offset, loc⟩ z' d news := by
  have hmark : (Zone.enter .plain x).mark x rest.head? = ⟨false, Text.isLineBreak x⟩ := by
    simp [Zone.enter, Zone.mark, hquote]
  refine .step (by rw [hmark]) ?_ (by rw [hmark, hloc]) h
  simp [Zone.enter, Zone.next, hquote, hsharp]

theorem Passes.sharp (h : Passes false .comment ⟨rest, offset + 1, loc.advance 1⟩ z' d news) :
    Passes false .plain ⟨'#' :: rest, offset, loc⟩ z' d news :=
  .step rfl rfl rfl h

/-- A character of a comment, which lasts until the line ends. -/
theorem Passes.comment (hz : (if Text.isLineBreak x then .plain else .comment) = z₁)
    (hloc : Mark.move loc ⟨false, Text.isLineBreak x⟩ = loc₁)
    (h : Passes false z₁ ⟨rest, offset + 1, loc₁⟩ z' d news) :
    Passes false .comment ⟨x :: rest, offset, loc⟩ z' d news := by
  refine .step ?_ ?_ ?_ h
  · rfl
  · exact hz
  · exact hloc

theorem passes_gapFrom (inComment : Bool) (text : List Char) (offset : Nat) (loc : Location) :
    Passes false (if inComment then .comment else .plain) ⟨text, offset, loc⟩ .plain
      (gapFrom inComment text offset loc).after (gapFrom inComment text offset loc).news := by
  fun_induction gapFrom inComment text offset loc with
  | case1 => exact .stay rfl
  -- a line break ends a comment as well
  | case2 inComment c rest offset loc hbreak ih =>
    have hloc : Mark.move loc ⟨false, Text.isLineBreak c⟩ = loc.nextLine := by
      rw [hbreak]
      rfl
    cases inComment with
    | true => exact .comment (by rw [hbreak]; rfl) hloc ih
    | false =>
      refine .plain ?_ ?_ hloc ih <;> rintro rfl <;> cases hbreak
  | case3 inComment c rest offset loc hbreak hpassed ih =>
    have hloc : Mark.move loc ⟨false, Text.isLineBreak c⟩ = loc.advance 1 := by
      rw [Bool.eq_false_iff.2 hbreak]
      rfl
    cases inComment with
    | true => exact .comment (by rw [if_neg hbreak]; rfl) hloc ih
    | false =>
      refine .plain ?_ ?_ hloc ih <;> rintro rfl <;> cases hpassed
  | case4 inComment rest offset loc hbreak hpassed ih =>
    obtain ⟨rfl, -⟩ : inComment = false ∧ Text.isBlank '#' = false := by simpa using hpassed
    exact .sharp ih
  | case5 inComment c rest offset loc hbreak hpassed hsharp opening hopening =>
    obtain ⟨rfl, -⟩ : inComment = false ∧ Text.isBlank c = false := by simpa using hpassed
    exact .stay rfl
  -- a wrong character is reported where it stands
  | case6 inComment c rest offset loc hbreak hpassed hsharp hopening gap ih =>
    obtain ⟨rfl, -⟩ : inComment = false ∧ Text.isBlank c = false := by simpa using hpassed
    have hloc : Mark.move loc ⟨false, Text.isLineBreak c⟩ = loc.advance 1 := by
      rw [Bool.eq_false_iff.2 hbreak]
      rfl
    have hquote : c ≠ '"' := by
      rintro rfl
      cases hopening
    refine (Passes.plain hquote hsharp hloc ih).report ih.offset_le fun r hr => ?_
    rcases List.mem_cons.1 hr with rfl | hr
    · exact .inr rfl
    · exact .inl hr

/-- A character of a literal that neither ends it nor escapes another. -/
theorem Passes.literal (hquote : x ≠ '"') (hslash : x ≠ '\\') (hend : ¬(x = '\r' ∨ x = '\n'))
    (h : Passes true .literal ⟨rest, offset + 1, loc.advance 1⟩ z' d news) :
    Passes true .literal ⟨x :: rest, offset, loc⟩ z' d news := by
  have henter : Zone.enter .literal x = .literal := by simp [Zone.enter, hend]
  refine .step ?_ ?_ ?_ h <;> rw [henter]
  · rfl
  · simp [Zone.next, hquote, hslash]
  · rfl

/-- A backslash and the character after it. -/
theorem Passes.escape (hz : Zone.next .escape x rest.head? = z₁)
    (hloc : Mark.move (loc.advance 1) (Zone.mark .escape x rest.head?) = loc₁)
    (h : Passes true z₁ ⟨rest, offset + 2, loc₁⟩ z' d news) :
    Passes true .literal ⟨'\\' :: x :: rest, offset, loc⟩ z' d news :=
  .step rfl rfl rfl (.step rfl hz hloc h)

/-- A backslash and a character that ends no line. -/
theorem Passes.letter (hreturn : x ≠ '\r') (hline : x ≠ '\n')
    (h : Passes true .literal ⟨rest, offset + 2, loc.advance 2⟩ z' d news) :
    Passes true .literal ⟨'\\' :: x :: rest, offset, loc⟩ z' d news := by
  refine .escape ?_ ?_ h
  · simp [Zone.next, hreturn]
  · simp [Zone.mark, Mark.move, hreturn, hline, advance_advance]

theorem passes_stringTail (text : List Char) (offset : Nat) (loc : Location) :
    Passes true .literal ⟨text, offset, loc⟩ .plain (stringTail text offset loc).after
      (stringTail text offset loc).news := by
  fun_induction stringTail text offset loc with
  | case1 => exact .stay rfl
  | case2 => exact .step rfl rfl rfl (.stay rfl)
  | case3 => exact .step rfl rfl rfl (.stay rfl)
  -- an escaped line end: `\r` as the last character, `\r\n`, of which the second ends the line,
  -- `\r` in front of another, and `\n`
  | case4 => exact .escape rfl rfl (.stay rfl)
  | case5 offset loc further _ ih => exact .escape rfl rfl (.step rfl rfl rfl ih)
  | case6 offset loc next further hnext _ ih =>
    refine .escape ?_ ?_ ih
    · simp [Zone.next, hnext]
    · simp [Zone.mark, Mark.move, hnext, Location.nextLine, Location.advance]
  | case7 offset loc text _ _ ih => exact .escape rfl rfl ih
  | case8 offset loc letter text hreturn hline c hletter _ ih => exact .letter hreturn hline ih
  | case9 offset loc letter text hreturn hline hletter _ ih =>
    refine (Passes.letter hreturn hline ih).report (Nat.lt_of_succ_lt ih.offset_le) fun r hr => ?_
    rcases List.mem_cons.1 hr with rfl | hr
    · exact .inr rfl
    · exact .inl hr
  -- the literal is given up without passing over the line end, which is outside of it
  | case10 c rest offset loc _ _ hend =>
    refine .stay ?_
    simp only [Bool.or_eq_true, decide_eq_true_eq] at hend
    rw [marksFrom, marksFrom, Zone.enter, if_pos ⟨rfl, hend⟩]
    rfl
  | case11 c text offset loc hquote hslash hend ih =>
    exact .literal hquote hslash (by simpa using hend) ih

theorem passes_readString {tail : List Char} (hc : c.rest = '"' :: tail) :
    Passes true .plain c .plain (readString c).after (readString c).news := by
  have htail := passes_stringTail tail (c.offset + 1) (c.loc.advance 1)
  have hpasses : Passes true .plain c .plain
      (stringTail tail (c.offset + 1) (c.loc.advance 1)).after
      (stringTail tail (c.offset + 1) (c.loc.advance 1)).news := by
    obtain ⟨_, offset, loc⟩ := c
    subst hc
    exact .step rfl rfl rfl htail
  have hdrop : c.rest.drop 1 = tail := by rw [hc, List.drop_one, List.tail_cons]
  unfold readString
  rw [hdrop]
  dsimp only
  split
  · exact hpasses
  · refine hpasses.report htail.offset_le fun r hr => ?_
    exact (List.mem_append.1 hr).imp_right fun hr => by rw [List.mem_singleton.1 hr]; rfl

/-- The characters that open a literal or a comment or end a line. -/
def marked : List Char :=
  ['"', '#', '\n', '\u0085', '\u2028', '\u2029']

theorem not_mem_marked {p : Char → Bool} (hp : marked.all (!p ·) = true) {x : Char}
    (hx : p x = true) : x ∉ marked := by
  intro hmem
  have := List.all_eq_true.1 hp x hmem
  simp [hx] at this

theorem not_mem_marked_of_spells {word : List Char} {kind? : Option Kind} (h : Spells word kind?)
    (hquote : word.head? ≠ some '"') : ∀ x ∈ word, x ∉ marked := by
  intro x hx
  obtain hword | ⟨op, hop⟩ | ⟨mark, rfl⟩ := h.of_mem hquote hx
  · exact not_mem_marked (p := continuesWord) (by decide) hword
  · have htable : op.spelling.toList.all (!marked.contains ·) = true := by cases op <;> decide
    simpa using List.all_eq_true.1 htable x hop
  · cases mark <;> decide

theorem passes_word {word : List Char} (hword : ∀ x ∈ word, x ∉ marked) (rest : List Char)
    (offset : Nat) (loc : Location) :
    Passes false .plain ⟨word ++ rest, offset, loc⟩ .plain
      ⟨rest, offset + word.length, loc.advance word.length⟩ [] := by
  induction word generalizing offset loc with
  | nil => exact .stay rfl
  | cons x word ih =>
    obtain ⟨hx, hword⟩ := List.forall_mem_cons.1 hword
    obtain ⟨hquote, hsharp, hbreak⟩ : x ≠ '"' ∧ x ≠ '#' ∧ Text.isLineBreak x = false := by
      simpa [marked, Text.isLineBreak, and_assoc] using hx
    replace ih := ih hword (offset + 1) (loc.advance 1)
    rw [advance_advance, Nat.add_assoc, Nat.add_comm 1] at ih
    exact .plain hquote hsharp (by rw [hbreak]; rfl) ih

/-- A lexeme other than a string stays on its line. -/
theorem readLexeme_of_ne_string {opening : Opening} (h : opening ≠ .string) (c : Cursor) :
    (∃ count, (readLexeme opening c).after = c.pass count) ∧
      ∀ r ∈ (readLexeme opening c).news, r.loc = c.loc := by
  cases opening with
  | string => exact absurd rfl h
  | word => exact ⟨⟨_, rfl⟩, nofun⟩
  | number =>
    unfold readLexeme readNumber
    dsimp only
    split
    · exact ⟨⟨_, rfl⟩, nofun⟩
    · split
      · exact ⟨⟨_, rfl⟩, nofun⟩
      · exact ⟨⟨_, rfl⟩, by simp [Diagnostic.of]⟩
  | symbol single =>
    unfold readLexeme readSymbol
    dsimp only
    split
    · split <;> exact ⟨⟨_, rfl⟩, nofun⟩
    · exact ⟨⟨_, rfl⟩, nofun⟩

/-- A lexeme that does not begin with a quote is a word of its line, with which the reader comes to
the rest. -/
theorem exists_word_readLexeme {first : Char} {tail : List Char} {opening : Opening}
    (hc : c.rest = first :: tail) (hopening : opening? first = some opening)
    (hquote : first ≠ '"') : ∃ word kind?, Spells word kind? ∧ word.head? = some first ∧
      c.rest = word ++ (readLexeme opening c).after.rest ∧
      (readLexeme opening c).after = c.pass word.length := by
  have hne : opening ≠ .string := by
    rintro rfl
    exact hquote (opening?_eq_string hopening)
  obtain ⟨kind?, hspells⟩ := exists_spells_of_opening hopening hquote
  obtain ⟨word, kind?, hlongest⟩ := exists_longest hspells ⟨tail, hc.symm⟩
  have htakes := takes_of_longest hlongest
  obtain ⟨⟨count, hafter⟩, -⟩ := readLexeme_of_ne_string hne c
  have hread : c.read.2 = (readLexeme opening c).after := by rw [read_of_opening hc hopening]
  have hsplit := htakes.rest_eq
  have hcount : count = word.length := by
    have hoffset := htakes.offset_eq
    rw [hread, hafter] at hoffset
    exact Nat.add_left_cancel hoffset
  rw [hread] at hsplit
  refine ⟨word, kind?, hlongest.spells, ?_, hsplit, by rw [hafter, hcount]⟩
  have hlt := readLexeme_rest_lt hc hopening
  cases word with
  | nil =>
    rw [List.nil_append] at hsplit
    rw [← hsplit] at hlt
    exact absurd hlt (Nat.lt_irrefl _)
  | cons x word =>
    rw [hc] at hsplit
    rw [List.head?_cons, (List.cons.inj hsplit).1]

/-- The reader of a lexeme is inside of a literal from a quote on, and outside otherwise. -/
theorem passes_readLexeme {first : Char} {tail : List Char} {opening : Opening}
    (hc : c.rest = first :: tail) (hopening : opening? first = some opening) :
    Passes (first = '"') .plain c .plain (readLexeme opening c).after
      (readLexeme opening c).news := by
  by_cases hquote : first = '"'
  · subst hquote
    cases hopening
    exact passes_readString hc
  · have hne : opening ≠ .string := by
      rintro rfl
      exact hquote (opening?_eq_string hopening)
    obtain ⟨-, hnews⟩ := readLexeme_of_ne_string hne c
    obtain ⟨word, kind?, hspells, hhead, hsplit, hafter⟩ :=
      exists_word_readLexeme hc hopening hquote
    have hpos : 0 < word.length := List.length_pos_of_mem (List.mem_of_head? hhead)
    have hmarked := not_mem_marked_of_spells hspells (by rw [hhead]; simpa using hquote)
    have hword := passes_word hmarked (readLexeme opening c).after.rest c.offset c.loc
    rw [← hsplit] at hword
    rw [hafter] at hword ⊢
    rw [decide_eq_false hquote]
    exact hword.report (Nat.lt_add_of_pos_right hpos) fun r hr => .inr (hnews r hr)

theorem passes_gap (c : Cursor) : Passes false .plain c .plain c.gap.after c.gap.news :=
  passes_gapFrom false c.rest c.offset c.loc

/-- A reading passes over the gap and then over the lexeme. -/
theorem passes_lexeme (c : Cursor) : ∃ news, c.read.1.news = c.gap.news ++ news ∧
    Passes (c.gap.after.rest.head? = some '"') .plain c.gap.after .plain c.read.2 news := by
  cases hopening : c.gap.opening with
  | none =>
    rw [read_of_none hopening]
    exact ⟨[], (List.append_nil _).symm, .stay rfl⟩
  | some opening =>
    obtain ⟨first, rest, hrest, hfirst⟩ : ∃ first rest, c.gap.after.rest = first :: rest ∧
        opening? first = some opening :=
      (gapFrom_rest false c.rest c.offset c.loc).2 opening hopening
    rw [read_of_some hopening]
    exact ⟨_, rfl, by simpa [hrest] using passes_readLexeme hrest hfirst⟩

theorem exists_walk_read (c : Cursor) : ∃ ms, Walk .plain c ms .plain c.read.2 := by
  obtain ⟨ms, hgap, -⟩ := (passes_gap c).walk
  obtain ⟨_, -, hpasses⟩ := passes_lexeme c
  obtain ⟨ns, hlexeme, -⟩ := hpasses.walk
  exact ⟨ms ++ ns, hgap.trans hlexeme⟩

end Token

end LarkCheck
