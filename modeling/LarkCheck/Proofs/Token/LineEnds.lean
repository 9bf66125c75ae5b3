import LarkCheck.Proofs.Token.Spelling
import LarkCheck.Report

/-!
# Line ends

A carriage return before a line feed changes nothing that is read of a text. Between
lexemes and in comments it is passed over, and the line feed starts the line anew. In
a literal it is passed with the line feed, or ends the literal where the line feed
would. Only the offsets differ, by one for each line, and no token tells its offset.
-/

namespace LarkCheck

open Token

namespace Token

/-- A text in which every line feed has a carriage return before it. -/
def withReturns (text : List Char) : List Char :=
  text.flatMap fun c => if c = '\n' then ['\r', '\n'] else [c]

theorem withReturns_newline (text : List Char) :
    withReturns ('\n' :: text) = '\r' :: '\n' :: withReturns text := rfl

theorem withReturns_cons {c : Char} (hc : c ≠ '\n') (text : List Char) :
    withReturns (c :: text) = c :: withReturns text := by
  simp [withReturns, hc]

/-- Two cursors at one place, one in a text and one in the text with carriage returns. -/
structure InStep (c d : Cursor) : Prop where
  loc_eq : d.loc = c.loc
  rest_eq : d.rest = withReturns c.rest
  plain : '\r' ∉ c.rest

variable {text : List Char}

theorem gapFrom_withReturns (h : '\r' ∉ text) (inComment : Bool) (offset offset' : Nat)
    (loc : Location) :
    (gapFrom inComment (withReturns text) offset' loc).news =
        (gapFrom inComment text offset loc).news ∧
      (gapFrom inComment (withReturns text) offset' loc).opening =
        (gapFrom inComment text offset loc).opening ∧
      InStep (gapFrom inComment text offset loc).after
        (gapFrom inComment (withReturns text) offset' loc).after := by
  induction text generalizing inComment offset offset' loc with
  | nil => exact ⟨rfl, rfl, rfl, rfl, h⟩
  | cons c text ih =>
    have hc : c ≠ '\r' := fun hc => h (hc ▸ List.mem_cons_self)
    replace ih := ih fun hmem => h (List.mem_cons_of_mem _ hmem)
    by_cases hline : c = '\n'
    · subst hline
      cases inComment <;> exact ih false (offset + 1) (offset' + 2) loc.nextLine
    · rw [withReturns_cons hline, gapFrom, gapFrom]
      split
      · exact ih ..
      split
      · exact ih ..
      split
      · exact ih ..
      split
      · exact ⟨rfl, rfl, rfl, (withReturns_cons hline text).symm, h⟩
      · obtain ⟨hnews, hopening, hafter⟩ := ih false (offset + 1) (offset' + 1) (loc.advance 1)
        exact ⟨congrArg (wrongCharacter c loc :: ·) hnews, hopening, hafter⟩

theorem stringTail_withReturns (h : '\r' ∉ text) (offset offset' : Nat) (loc : Location) :
    (stringTail (withReturns text) offset' loc).value = (stringTail text offset loc).value ∧
      (stringTail (withReturns text) offset' loc).news = (stringTail text offset loc).news ∧
      InStep (stringTail text offset loc).after
        (stringTail (withReturns text) offset' loc).after := by
  fun_induction stringTail text offset loc generalizing offset' with
  | case1 => exact ⟨rfl, rfl, rfl, rfl, h⟩
  | case2 rest =>
    rw [withReturns_cons (by decide), stringTail_quote]
    exact ⟨rfl, rfl, rfl, rfl, fun hmem => h (List.mem_cons_of_mem _ hmem)⟩
  | case3 => exact ⟨rfl, rfl, rfl, rfl, List.not_mem_nil⟩
  | case4 | case5 | case6 => simp at h
  | case7 offset loc rest _ _ ih => exact ih (fun hmem => h (by simp [hmem])) (offset' + 3)
  | case8 offset loc escaped rest hreturn hline d hd _ ih =>
    obtain ⟨hvalue, hnews, hafter⟩ := ih (fun hmem => h (by simp [hmem])) (offset' + 2)
    rw [withReturns_cons (by decide), withReturns_cons hline,
      stringTail_unescape hd hreturn hline]
    exact ⟨congrArg (Option.map _) hvalue, hnews, hafter⟩
  | case9 offset loc escaped rest hreturn hline hd _ ih =>
    obtain ⟨hvalue, hnews, hafter⟩ := ih (fun hmem => h (by simp [hmem])) (offset' + 2)
    rw [withReturns_cons (by decide), withReturns_cons hline,
      stringTail_unknown hd hreturn hline]
    exact ⟨congrArg (Option.map _) hvalue, congrArg (_ :: ·) hnews, hafter⟩
  | case10 c rest offset loc hquote hslash hend =>
    have hline : c = '\n' := by
      simp only [Bool.or_eq_true, decide_eq_true_eq] at hend
      exact hend.resolve_left fun hreturn => h (hreturn ▸ List.mem_cons_self)
    subst hline
    rw [withReturns_newline, stringTail.eq_def]
    exact ⟨rfl, rfl, rfl, rfl, h⟩
  | case11 c rest offset loc hquote hslash hend ih =>
    obtain ⟨hvalue, hnews, hafter⟩ := ih (fun hmem => h (by simp [hmem])) (offset' + 1)
    have hline : c ≠ '\n' := by
      rintro rfl
      exact hend rfl
    rw [withReturns_cons hline, stringTail_plain hquote hslash hend]
    exact ⟨congrArg (Option.map _) hvalue, hnews, hafter⟩

theorem withReturns_append {word : List Char} (hword : '\n' ∉ word) (rest : List Char) :
    withReturns (word ++ rest) = word ++ withReturns rest := by
  induction word with
  | nil => rfl
  | cons c word ih =>
    simp only [List.mem_cons, not_or] at hword
    obtain ⟨hc, hword⟩ := hword
    rw [List.cons_append, withReturns_cons (Ne.symm hc), ih hword, List.cons_append]

theorem takeWhile_withReturns {p : Char → Bool} (hline : p '\n' = false)
    (hreturn : p '\r' = false) (text : List Char) :
    (withReturns text).takeWhile p = text.takeWhile p := by
  induction text with
  | nil => rfl
  | cons c text ih =>
    by_cases hc : c = '\n'
    · subst hc
      simp [withReturns_newline, hline, hreturn]
    · rw [withReturns_cons hc, List.takeWhile_cons, List.takeWhile_cons, ih]

theorem InStep.pass {c d : Cursor} (h : InStep c d) {word rest : List Char}
    (hsplit : c.rest = word ++ rest) (hword : '\n' ∉ word) :
    InStep (c.pass word.length) (d.pass word.length) := by
  refine ⟨congrArg (·.advance word.length) h.loc_eq, ?_, fun hmem =>
    h.plain (List.mem_of_mem_drop hmem)⟩
  rw [Cursor.pass, Cursor.pass, h.rest_eq, hsplit, withReturns_append hword, List.drop_left,
    List.drop_left]

/-- The two lexemes agree, and the cursors after them. -/
structure SameLexeme (l m : Lexeme) : Prop where
  kind_eq : m.kind = l.kind
  news_eq : m.news = l.news
  after : InStep l.after m.after

variable {c d : Cursor}

theorem readString_inStep (h : InStep c d) {rest : List Char} (hrest : c.rest = '"' :: rest) :
    SameLexeme (readString c) (readString d) := by
  have hplain : '\r' ∉ rest := fun hmem => h.plain (hrest ▸ List.mem_cons_of_mem _ hmem)
  have hdrop : d.rest.drop 1 = withReturns rest := by
    rw [h.rest_eq, hrest, withReturns_cons (by decide), List.drop_succ_cons, List.drop_zero]
  obtain ⟨hvalue, hnews, hafter⟩ :=
    stringTail_withReturns hplain (c.offset + 1) (d.offset + 1) (c.loc.advance 1)
  unfold readString
  simp only [hdrop, hrest, List.drop_succ_cons, List.drop_zero, h.loc_eq, hvalue, hnews]
  split
  · exact ⟨rfl, rfl, hafter⟩
  · exact ⟨rfl, rfl, hafter⟩

theorem readWord_inStep (h : InStep c d) : SameLexeme (readWord c) (readWord d) := by
  have htake : d.rest.takeWhile continuesWord = c.rest.takeWhile continuesWord := by
    rw [h.rest_eq]
    exact takeWhile_withReturns (by decide) (by decide) _
  unfold readWord
  rw [htake]
  refine ⟨rfl, rfl, h.pass (List.takeWhile_append_dropWhile).symm fun hmem => ?_⟩
  exact absurd (List.all_eq_true.1 List.all_takeWhile _ hmem) (by decide)

theorem fractionDigits_withReturns (text : List Char) :
    fractionDigits (withReturns text) = fractionDigits text := by
  cases text with
  | nil => rfl
  | cons c text =>
    by_cases hc : c = '\n'
    · subst hc
      rfl
    · rw [withReturns_cons hc, fractionDigits, fractionDigits,
        takeWhile_withReturns (by decide) (by decide)]

theorem newline_not_mem_of_isDigit {digits : List Char} (h : ∀ c ∈ digits, isDigit c = true) :
    '\n' ∉ digits :=
  fun hmem => absurd (h _ hmem) (by decide)

theorem not_of_mem_head?_dropWhile (p : Char → Bool) (text : List Char) :
    ∀ c ∈ (text.dropWhile p).head?, p c = false := by
  intro c hc
  have := List.head?_dropWhile_not p text
  rw [hc] at this
  simpa using this

/-- The fraction stands after its point and goes as far as there are digits. -/
theorem eq_of_fractionDigits_ne_nil {text : List Char} (h : fractionDigits text ≠ []) :
    ∃ rest, text = '.' :: (fractionDigits text ++ rest) ∧
      (∀ c ∈ fractionDigits text, isDigit c = true) ∧ ∀ c ∈ rest.head?, isDigit c = false := by
  cases text with
  | nil => exact absurd rfl h
  | cons point text =>
    rw [fractionDigits] at h ⊢
    split at h
    · rename_i hpoint
      rw [if_pos hpoint, hpoint]
      exact ⟨_, congrArg _ List.takeWhile_append_dropWhile.symm,
        List.all_eq_true.1 List.all_takeWhile, not_of_mem_head?_dropWhile isDigit text⟩
    · exact absurd rfl h

theorem readNumber_inStep (h : InStep c d) : SameLexeme (readNumber c) (readNumber d) := by
  have hsplit : c.rest = c.rest.takeWhile isDigit ++ c.rest.dropWhile isDigit :=
    List.takeWhile_append_dropWhile.symm
  have hwhole : '\n' ∉ c.rest.takeWhile isDigit :=
    newline_not_mem_of_isDigit (List.all_eq_true.1 List.all_takeWhile)
  have htake : d.rest.takeWhile isDigit = c.rest.takeWhile isDigit := by
    rw [h.rest_eq]
    exact takeWhile_withReturns (by decide) (by decide) _
  unfold readNumber
  rw [htake]
  generalize c.rest.takeWhile isDigit = whole at hsplit hwhole
  generalize c.rest.dropWhile isDigit = rest at hsplit
  have hdrop : c.rest.drop whole.length = rest := by rw [hsplit, List.drop_left]
  have hdrop' : d.rest.drop whole.length = withReturns rest := by
    rw [h.rest_eq, hsplit, withReturns_append hwhole, List.drop_left]
  simp only [hdrop, hdrop', fractionDigits_withReturns, h.loc_eq]
  split
  · rename_i hfraction
    obtain ⟨further, hrest, hdigits, -⟩ := eq_of_fractionDigits_ne_nil hfraction
    have hword : c.rest = (whole ++ '.' :: fractionDigits rest) ++ further := by
      rw [hsplit, List.append_assoc, List.cons_append, ← hrest]
    have hlength : (whole ++ '.' :: fractionDigits rest).length =
        whole.length + 1 + (fractionDigits rest).length := by
      rw [List.length_append, List.length_cons]
      omega
    refine ⟨rfl, rfl, ?_⟩
    rw [← hlength]
    refine h.pass hword ?_
    simp [hwhole, newline_not_mem_of_isDigit hdigits]
  split
  · exact ⟨rfl, rfl, h.pass hsplit hwhole⟩
  · exact ⟨rfl, rfl, h.pass hsplit hwhole⟩

theorem ofPair?_newline (first : Char) : Operator.ofPair? first '\n' = none :=
  ofPair?_eq_none (by decide)

theorem ofPair?_return (first : Char) : Operator.ofPair? first '\r' = none :=
  ofPair?_eq_none (by decide)

theorem readSymbol_inStep (h : InStep c d) {first : Char} {rest : List Char} (single : Kind)
    (hrest : c.rest = first :: rest) (hfirst : first ≠ '\n') :
    SameLexeme (readSymbol single c) (readSymbol single d) := by
  have hone : InStep (c.pass 1) (d.pass 1) :=
    @InStep.pass c d h [first] rest hrest (by simpa using hfirst.symm)
  unfold readSymbol
  rw [h.rest_eq, hrest, withReturns_cons hfirst]
  cases rest with
  | nil => exact ⟨rfl, rfl, hone⟩
  | cons second rest =>
    by_cases hsecond : second = '\n'
    · subst hsecond
      simp only [withReturns_newline, ofPair?_newline, ofPair?_return]
      exact ⟨rfl, rfl, hone⟩
    · simp only [withReturns_cons hsecond]
      split
      · refine ⟨rfl, rfl, @InStep.pass c d h [first, second] rest hrest ?_⟩
        simp [hfirst.symm, Ne.symm hsecond]
      · exact ⟨rfl, rfl, hone⟩

theorem opening?_eq_string {c : Char} (h : opening? c = some .string) : c = '"' := by
  unfold opening? at h
  split at h
  · assumption
  split at h
  · cases h
  split at h
  · cases h
  split at h
  · cases h
  · cases hc : Punctuation.ofChar? c <;> simp [hc] at h

theorem readLexeme_inStep (h : InStep c d) {first : Char} {rest : List Char} {opening : Opening}
    (hrest : c.rest = first :: rest) (hfirst : opening? first = some opening) :
    SameLexeme (readLexeme opening c) (readLexeme opening d) := by
  cases opening with
  | string => exact readString_inStep h (opening?_eq_string hfirst ▸ hrest)
  | number => exact readNumber_inStep h
  | word => exact readWord_inStep h
  | symbol single =>
    refine readSymbol_inStep h single hrest ?_
    rintro rfl
    cases hfirst

theorem read_of_none (h : c.gap.opening = none) :
    c.read = (⟨c.gap.news, some ⟨.eof, c.gap.after.loc⟩⟩, c.gap.after) := by
  simp only [Cursor.read, h]

theorem read_of_some {opening : Opening} (h : c.gap.opening = some opening) :
    c.read = (⟨c.gap.news ++ (readLexeme opening c.gap.after).news,
      (readLexeme opening c.gap.after).kind.map (⟨·, c.gap.after.loc⟩)⟩,
        (readLexeme opening c.gap.after).after) := by
  simp only [Cursor.read, h]

theorem gap_inStep (h : InStep c d) :
    d.gap.news = c.gap.news ∧ d.gap.opening = c.gap.opening ∧ InStep c.gap.after d.gap.after := by
  have hgap : d.gap = gapFrom false (withReturns c.rest) d.offset c.loc := by
    rw [Cursor.gap, h.rest_eq, h.loc_eq]
  rw [hgap]
  exact gapFrom_withReturns h.plain false c.offset d.offset c.loc

theorem read_inStep (h : InStep c d) : d.read.1 = c.read.1 ∧ InStep c.read.2 d.read.2 := by
  obtain ⟨hnews, hsame, hafter⟩ := gap_inStep h
  cases hopening : c.gap.opening with
  | none =>
    rw [read_of_none hopening, read_of_none (hsame.trans hopening), hnews, hafter.loc_eq]
    exact ⟨rfl, hafter⟩
  | some opening =>
    obtain ⟨first, rest, hrest, hfirst⟩ :=
      (gapFrom_rest false c.rest c.offset c.loc).2 opening hopening
    have hlexeme := readLexeme_inStep hafter hrest hfirst
    rw [read_of_some hopening, read_of_some (hsame.trans hopening), hnews, hafter.loc_eq,
      hlexeme.kind_eq, hlexeme.news_eq]
    exact ⟨rfl, hlexeme.after⟩

theorem readings_inStep (h : InStep c d) : readings d = readings c := by
  fun_induction readings c generalizing d with
  | case1 c ih =>
    obtain ⟨hread, hafter⟩ := read_inStep h
    rw [readings, hread]
    by_cases heof : c.read.1.isEof = true
    · simp only [heof, dif_pos]
    · simp only [heof, ih heof hafter]

/-- The cursor after so many readings. -/
def afterReads (c : Cursor) : Nat → Cursor
  | 0 => c
  | n + 1 => (afterReads c n).read.2

theorem afterReads_inStep (h : InStep c d) (n : Nat) :
    InStep (afterReads c n) (afterReads d n) := by
  induction n with
  | zero => exact h
  | succ n ih => exact (read_inStep ih).2

end Token

/-- A carriage return before every line feed changes no reading, whether before the end of the file
or past it, and so nothing that is made of the readings. -/
theorem lineEnds_irrelevant {text : List Char} (h : '\r' ∉ text) :
    (∀ n, (afterReads (.start (withReturns text)) n).read.1 =
      (afterReads (.start text) n).read.1) ∧
    (∀ log, lex log (withReturns text) = lex log text) ∧
    (∀ log, parse log (withReturns text) = parse log text) ∧
    ∀ unit, compile unit (withReturns text) = compile unit text := by
  have hstart : InStep (.start text) (.start (withReturns text)) := ⟨rfl, rfl, h⟩
  have hreadings := readings_inStep hstart
  have hparse : ∀ log, parse log (withReturns text) = parse log text := by
    intro log
    simp only [parse, hreadings]
  refine ⟨fun n => (read_inStep (afterReads_inStep hstart n)).1, fun log => ?_, hparse,
    fun unit => ?_⟩
  · simp only [lex, hreadings]
  · simp only [compile, hparse]

/-- A comment, a continued literal and an open one. -/
def continuedText : List Char :=
  "a = \"x\\\ny\" # c\nb = \"z\n".toList

theorem lineEnds_irrelevant_continuedText :
    withReturns continuedText = "a = \"x\\\r\ny\" # c\r\nb = \"z\r\n".toList ∧
      parse (.empty "u") (withReturns continuedText) = parse (.empty "u") continuedText ∧
      (parse (.empty "u") continuedText).2.entries.map (·.loc) = [⟨3, 4⟩] := by
  have plain : '\r' ∉ continuedText := by decide +kernel
  exact ⟨by decide +kernel, (lineEnds_irrelevant plain).2.2.1 _, by decide +kernel⟩

end LarkCheck
