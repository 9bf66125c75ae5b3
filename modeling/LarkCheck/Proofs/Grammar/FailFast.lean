import LarkCheck.Proofs.Grammar.Steps
import LarkCheck.Proofs.Grammar.Yield
import LarkCheck.Proofs.Token.Reports

/-!
# The parser stops at once

A parser stops at the first malformed lexeme or at the first token that cannot
stand where it is, and reports nothing after that. Until then it has reported what
the lexer reports of the same text. So its reports begin as those of the lexer do,
and at most one syntax error comes after them.
-/

namespace LarkCheck

open Token

namespace Parser

/-- From `s` to `s'` readings were taken, all of them tokens, and their reports were kept. -/
structure Took (s s' : State) (rs : List Reading) : Prop where
  ahead_eq : s.ahead.items = rs ++ s'.ahead.items
  isSome : ∀ r ∈ rs, r.token.isSome = true
  news_eq : s'.news = s.news ++ rs.flatMap (·.news)

/-- What a run that succeeds has done to the reports. -/
def Advanced (s s' : State) : Prop := ∃ rs, Took s s' rs

/-- What a run that stops has done to the reports: after some tokens it met a malformed lexeme, or
it reported a syntax error itself. -/
inductive Halted (s s' : State) : Prop
  | malformed {s₁ : State} {r : Reading} {rest : List Reading} (h : Advanced s s₁)
    (hahead : s₁.ahead.items = r :: rest) (hr : r.token = none)
    (hnews : s'.news = s₁.news ++ r.news)
  | report {s₁ : State} {d : Diagnostic} (h : Advanced s s₁) (hd : d.code.isSyntax = true)
    (herror : d.isError = true) (hnews : s'.news = s₁.news ++ [d]) (hahead : s'.ahead = s₁.ahead)
    (hloc : s'.Blames d.loc d.code)

theorem Took.trans {s s₁ s₂ : State} {rs rs' : List Reading} (h : Took s s₁ rs)
    (h' : Took s₁ s₂ rs') : Took s s₂ (rs ++ rs') where
  ahead_eq := by rw [h.ahead_eq, h'.ahead_eq, List.append_assoc]
  isSome r hr := (List.mem_append.1 hr).elim (h.isSome r) (h'.isSome r)
  news_eq := by rw [h'.news_eq, h.news_eq, List.flatMap_append, List.append_assoc]

/-- The counters of a state have nothing to do with its reports. -/
theorem Advanced.of_eq {s s' t t' : State} (h : Advanced s s') (hs : t.ahead = s.ahead)
    (hnews : t.news = s.news) (hs' : t'.ahead = s'.ahead) (hnews' : t'.news = s'.news) :
    Advanced t t' := by
  obtain ⟨rs, hahead, hsome, hrs⟩ := h
  exact ⟨rs, by rw [hs, hs', hahead], hsome, by rw [hnews, hnews', hrs]⟩

theorem Advanced.refl (s : State) : Advanced s s :=
  ⟨[], rfl, fun _ hr => absurd hr List.not_mem_nil, (List.append_nil _).symm⟩

/-- What is still ahead was ahead before. -/
theorem Advanced.mem_ahead {s s' : State} (h : Advanced s s') {r : Reading}
    (hr : r ∈ s'.ahead.items) : r ∈ s.ahead.items := by
  obtain ⟨taken, htook⟩ := h
  rw [htook.ahead_eq]
  exact List.mem_append_right _ hr

/-- Nor with why it stops. -/
theorem Halted.of_eq {s s' t t' : State} (h : Halted s s') (hs : t.ahead = s.ahead)
    (hnews : t.news = s.news) (hcurrent : t'.current = s'.current) (hahead : t'.ahead = s'.ahead)
    (hnews' : t'.news = s'.news) : Halted t t' := by
  cases h with
  | malformed h hitems hr h' =>
    exact .malformed (h.of_eq hs hnews rfl rfl) hitems hr (hnews'.trans h')
  | report h hd herror h' hitems hloc =>
    refine .report (h.of_eq hs hnews rfl rfl) hd herror (hnews'.trans h') (hahead.trans hitems) ?_
    rwa [State.Blames, hcurrent]

theorem advance_took : Keeps Advanced Halted advance := by
  intro s
  obtain ⟨current, ⟨items, size, hsize⟩, news, depth, level, peak⟩ := s
  cases items with
  | nil => exact .ok (.refl _)
  | cons r rest =>
    cases ht : r.token with
    | none =>
      simp only [advance, ht]
      exact .error (.malformed (.refl _) rfl ht rfl)
    | some token =>
      simp only [advance, ht]
      exact .ok ⟨[r], rfl, by simp [ht], by simp⟩

/-- Every step of a parser takes tokens with their reports, or halts. -/
theorem stepLaw_advanced : StepLaw Advanced Halted where
  refl := .refl
  trans := fun ⟨_, h⟩ ⟨_, h'⟩ => ⟨_, h.trans h'⟩
  stop := fun ⟨_, h⟩ h' => by
    cases h' with
    | malformed h' hahead hr hnews =>
      obtain ⟨_, h'⟩ := h'
      exact .malformed ⟨_, h.trans h'⟩ hahead hr hnews
    | report h' hd herror hnews hahead hloc =>
      obtain ⟨_, h'⟩ := h'
      exact .report ⟨_, h.trans h'⟩ hd herror hnews hahead hloc
  advance := advance_took
  report s loc code note hcode hloc := by
    refine .report (.refl s) hcode ?_ rfl rfl hloc
    simp only [Diagnostic.of, Diagnostic.isError, Diagnostic.Code.severity_of_isSyntax hcode]
    rfl
  leave _ _ h := h.of_eq rfl rfl rfl rfl
  leave_stop _ _ h := h.of_eq rfl rfl rfl rfl rfl
  close h := h.of_eq rfl rfl rfl rfl
  close_stop h := h.of_eq rfl rfl rfl rfl rfl
  raise s _ := (Advanced.refl s).of_eq rfl rfl rfl rfl

/-- A parser that halted has reported an error, of a malformed lexeme or of the grammar. -/
theorem Halted.any_isError {rs : List Reading} {s : State} (h : Halted (.start rs) s)
    (hrs : ∀ r ∈ rs, Explains r.token.isSome r.news) : s.news.any Diagnostic.isError = true := by
  rw [List.any_eq_true]
  cases h with
  | @malformed s₁ r rest h hahead hr hnews =>
    have hlast := hrs r (h.mem_ahead (by simp [hahead]))
    rw [hr] at hlast
    obtain ⟨before, d, hreports, -, -, herror⟩ := hlast.last_malformed
    exact ⟨d, by simp [hnews, hreports], herror⟩
  | @report s₁ d _ _ herror hnews _ _ => exact ⟨d, by simp [hnews], herror⟩

/-- How the reports of a parser relate to those of the lexer on the same text: `seen` is what both
report, and `stop` is why the parser stopped, if no malformed lexeme made it stop. -/
structure FailsFast (lexical news seen stop : List Diagnostic) : Prop where
  news_eq : news = seen ++ stop
  seen_prefix : seen <+: lexical
  seen_lexical : ∀ d ∈ seen, d.code.isSyntax = false
  stop_length : stop.length ≤ 1
  stop_syntax : ∀ d ∈ stop, d.code.isSyntax = true
  malformed_last : ∀ d ∈ seen, d.code.isMalformed = true →
    stop = [] ∧ ∃ before, seen = before ++ [d] ∧ ∀ e ∈ before, e.code.isMalformed = false

variable {rs taken rest : List Reading} {lexical : List Diagnostic}

theorem blemishes_flatMap (hrs : ∀ r ∈ rs, Explains r.token.isSome r.news)
    (hsome : ∀ r ∈ rs, r.token.isSome = true) : Blemishes (rs.flatMap (·.news)) := by
  intro d hd
  obtain ⟨r, hr, hd⟩ := List.mem_flatMap.1 hd
  have h := hrs r hr
  rw [hsome r hr] at h
  cases h with
  | token h => exact h d hd

theorem failsFast_of_blemishes {seen stop : List Diagnostic} (hseen : Blemishes seen)
    (hbegin : seen <+: lexical) (hlength : stop.length ≤ 1)
    (hstop : ∀ d ∈ stop, d.code.isSyntax = true) :
    FailsFast lexical (seen ++ stop) seen stop where
  news_eq := rfl
  seen_prefix := hbegin
  seen_lexical d hd := Diagnostic.Code.isSyntax_of_isBlemish (hseen d hd)
  stop_length := hlength
  stop_syntax := hstop
  malformed_last d hd hm := by
    rw [Diagnostic.Code.isMalformed_of_isBlemish (hseen d hd)] at hm
    cases hm

theorem failsFast_of_malformed {seen : List Diagnostic} {d : Diagnostic} (hseen : Blemishes seen)
    (hbegin : seen ++ [d] <+: lexical) (hd : d.code.isMalformed = true) :
    FailsFast lexical (seen ++ [d]) (seen ++ [d]) [] where
  news_eq := (List.append_nil _).symm
  seen_prefix := hbegin
  seen_lexical e he := by
    rcases List.mem_append.1 he with he | he
    · exact Diagnostic.Code.isSyntax_of_isBlemish (hseen e he)
    · rw [List.mem_singleton.1 he]
      exact Diagnostic.Code.isSyntax_of_isMalformed hd
  stop_length := Nat.zero_le _
  stop_syntax _ he := absurd he List.not_mem_nil
  malformed_last e he hm := by
    refine ⟨rfl, seen, ?_, fun e he => Diagnostic.Code.isMalformed_of_isBlemish (hseen e he)⟩
    rcases List.mem_append.1 he with he | he
    · rw [Diagnostic.Code.isMalformed_of_isBlemish (hseen e he)] at hm
      cases hm
    · rw [List.mem_singleton.1 he]

/-- A parser that halted had gone through the readings before, which gave tokens. -/
theorem Halted.failsFast {s : State} (h : Halted (.start rs) s)
    (hrs : ∀ r ∈ rs, Explains r.token.isSome r.news) :
    ∃ seen stop, FailsFast (rs.flatMap (·.news)) s.news seen stop := by
  cases h with
  | @malformed s₁ r rest h hahead hr hnews =>
    have hlast := hrs r (h.mem_ahead (by simp [hahead]))
    rw [hr] at hlast
    obtain ⟨news, d, hreports, hgap, hd, -⟩ := hlast.last_malformed
    obtain ⟨taken, htook, hsome, htaken⟩ := h
    rw [hahead] at htook
    have hall : rs = taken ++ r :: rest := htook
    have hblemishes := blemishes_flatMap (fun r hr => hrs r (by simp [hall, hr])) hsome
    have heq : s.news = taken.flatMap (·.news) ++ news ++ [d] := by
      rw [hnews, htaken, hreports]
      simp [State.start]
    have hbegin : taken.flatMap (·.news) ++ news ++ [d] <+: rs.flatMap (·.news) :=
      ⟨rest.flatMap (·.news), by simp [hall, hreports]⟩
    rw [heq]
    exact ⟨_, _, failsFast_of_malformed (hblemishes.append hgap) hbegin hd⟩
  | @report s₁ d h hd _ hnews _ _ =>
    obtain ⟨taken, htook, hsome, htaken⟩ := h
    have hall : rs = taken ++ s₁.ahead.items := htook
    have hblemishes := blemishes_flatMap (fun r hr => hrs r (by simp [hall, hr])) hsome
    have heq : s.news = taken.flatMap (·.news) ++ [d] := by
      rw [hnews, htaken]
      rfl
    have hbegin : taken.flatMap (·.news) <+: rs.flatMap (·.news) :=
      ⟨s₁.ahead.items.flatMap (·.news), by rw [hall, List.flatMap_append]⟩
    rw [heq]
    exact ⟨_, _, failsFast_of_blemishes hblemishes hbegin (Nat.le_refl _) (by simpa using hd)⟩

/-- A parser that succeeded has taken every reading, and each gave a token. -/
theorem failsFast_of_unit {unit : Block} {s : State} (hrs : EndsOnce rs)
    (h : Parser.unit (.start rs) = .ok unit s)
    (hexplains : ∀ r ∈ rs, Explains r.token.isSome r.news) :
    s.news = rs.flatMap (·.news) ∧ FailsFast (rs.flatMap (·.news)) s.news s.news [] := by
  obtain ⟨-, hnews, -, -⟩ := unit_spans hrs h
  have hkept := stepLaw_advanced.unit_keeps (.start rs)
  rw [h] at hkept
  obtain ⟨taken, htook, hsome, htaken⟩ := hkept.of_ok
  have hall : rs = taken ++ s.ahead.items := htook
  have hblemishes : Blemishes s.news := by
    rw [htaken]
    exact blemishes_flatMap (fun r hr => hexplains r (by simp [hall, hr])) hsome
  have hbegin : s.news <+: rs.flatMap (·.news) := ⟨[], by rw [List.append_nil, hnews]⟩
  have hempty : ([] : List Diagnostic).length ≤ 1 := Nat.zero_le 1
  have hfast := failsFast_of_blemishes hblemishes hbegin hempty
    (fun _ hd => absurd hd List.not_mem_nil)
  rw [List.append_nil] at hfast
  exact ⟨hnews, hfast⟩

end Parser

/-- Parsing a text reports a beginning of what lexing it reports, and after that one syntax error
at most. A malformed lexeme is the last report. An accepted text has all reports of the lexer and
no other, and no text is accepted that the lexer rejects. -/
theorem parse_failsFast (name : String) (text : List Char) :
    ∃ seen stop,
      Parser.FailsFast (lex (.empty name) text).2.entries (parse (.empty name) text).2.entries
        seen stop ∧
      ((parse (.empty name) text).1.isSome = true →
        stop = [] ∧ seen = (lex (.empty name) text).2.entries) ∧
      ((lex (.empty name) text).1 = none → (parse (.empty name) text).1 = none) := by
  have hexplains : ∀ r ∈ readings (.start text), Explains r.token.isSome r.news :=
    fun r hr => explains_of_mem_readings hr
  have hlex : (lex (.empty name) text).2.entries =
      (readings (.start text)).flatMap (·.news) := rfl
  rw [hlex]
  cases hrun : Parser.unit (.start (readings (.start text))) with
  | error e s =>
    have hkept := Parser.stepLaw_advanced.unit_keeps (.start (readings (.start text)))
    rw [hrun] at hkept
    obtain ⟨seen, stop, hfast⟩ := hkept.of_error.failsFast hexplains
    have hparse : parse (.empty name) text = (none, Log.append (.empty name) s.news) := by
      simp only [parse, hrun]
    rw [hparse]
    exact ⟨seen, stop, hfast, fun hsome => (Bool.false_ne_true hsome).elim, fun _ => rfl⟩
  | ok unit s =>
    obtain ⟨hnews, hfast⟩ := Parser.failsFast_of_unit (endsOnce_readings _) hrun hexplains
    have hparse : parse (.empty name) text =
        (if s.news.any Diagnostic.isError then none else some unit,
          Log.append (.empty name) s.news) := by
      simp only [parse, hrun, Log.errorCount_lt_append]
    rw [hparse]
    refine ⟨s.news, [], hfast, fun _ => ⟨rfl, hnews⟩, fun hrejected => ?_⟩
    have herror : s.news.any Diagnostic.isError = true := by
      rw [hnews]
      simpa [lex] using hrejected
    simp [herror]

end LarkCheck
