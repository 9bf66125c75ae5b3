import LarkCheck.Proofs.Grammar.Compose

/-!
# The first token that cannot stand

The parser reports a token as soon as the text before it cannot go on with it. What
stands before the token can be completed, as it is taken anew with the missing tokens
written on new lines; and no text goes on with the token, as every other run takes
the same tokens and stops there as well. There is one exception: the head of a
`foreach` may be read where the guards leave no room for the collection, and then
nothing completes it.
-/

namespace LarkCheck

open Token

namespace Parser

variable {text : List Char} {name : String} {d : Diagnostic} {s s₁ : State} {xs : List Token}
  {c : Cursor} {tight : Bool}

/-- Tokens of some kinds, each on a line of its own. -/
def written : List Kind → List Char
  | [] => []
  | kind :: kinds => kind.spelling ++ '\n' :: written kinds

theorem readings_newline (text : List Char) (offset : Nat) (loc : Location) :
    readings ⟨'\n' :: text, offset, loc⟩ = readings ⟨text, offset + 1, loc.nextLine⟩ := by
  refine readings_of_gap_eq ?_
  rw [Cursor.gap, gapFrom, if_pos (by decide)]
  rfl

theorem readings_written_append {kinds : List Kind} (h : ∀ kind ∈ kinds, kind.Writable)
    (rest : List Char) (offset : Nat) (loc : Location) :
    ∃ (ys : List Token) (offset' : Nat) (loc' : Location),
      readings ⟨written kinds ++ rest, offset, loc⟩ =
          ys.map (⟨[], some ·⟩) ++ readings ⟨rest, offset', loc'⟩ ∧
        ys.map (·.kind) = kinds ∧ loc.line ≤ loc'.line ∧ ∀ y ∈ ys, loc.line ≤ y.loc.line := by
  induction kinds generalizing offset loc with
  | nil => exact ⟨[], offset, loc, rfl, rfl, Nat.le_refl _, nofun⟩
  | cons kind kinds ih =>
    obtain ⟨hkind, hkinds⟩ := List.forall_mem_cons.1 h
    obtain ⟨offset₁, loc₁, hread, hline⟩ :=
      @readings_spelling [] ('\n' :: (written kinds ++ rest)) kind hkind rfl
        (by rintro _ ⟨⟩; decide) offset loc
    obtain ⟨ys, offset', loc', hys, hkinds, hle, hlater⟩ := ih hkinds (offset₁ + 1) loc₁.nextLine
    have hdown : loc.line ≤ loc₁.nextLine.line := hline ▸ Nat.le_succ _
    refine ⟨⟨kind, loc⟩ :: ys, offset', loc', ?_, by rw [List.map_cons, hkinds],
      Nat.le_trans hdown hle, ?_⟩
    · rw [readings_newline, hys] at hread
      rw [written, List.append_assoc, List.cons_append]
      exact hread
    · intro y hy
      rcases List.mem_cons.1 hy with rfl | hy
      · exact Nat.le_refl _
      · exact Nat.le_trans hdown (hlater y hy)

theorem readings_written {kinds : List Kind} (h : ∀ kind ∈ kinds, kind.Writable) (offset : Nat)
    (loc : Location) : ∃ (ys : List Token) (k : Token),
      readings ⟨written kinds, offset, loc⟩ = (ys ++ [k]).map (⟨[], some ·⟩) ∧
        ys.map (·.kind) = kinds ∧ k.kind = .eof ∧ ∀ y ∈ ys ++ [k], loc.line ≤ y.loc.line := by
  obtain ⟨ys, offset', loc', hread, hkinds, hle, hlater⟩ := readings_written_append h [] offset loc
  rw [List.append_nil, @readings_white [] rfl] at hread
  refine ⟨ys, ⟨.eof, loc'⟩, by rw [hread, List.map_append]; rfl, hkinds, rfl, fun y hy => ?_⟩
  rcases List.mem_append.1 hy with hy | hy
  · exact hlater y hy
  · rw [List.mem_singleton.1 hy]
    exact hle

theorem isSyntax_of_explains {given : Bool} {news : List Diagnostic} (h : Explains given news)
    (hd : d ∈ news) : d.code.isSyntax = false := by
  cases h with
  | token h => exact Diagnostic.Code.isSyntax_of_isBlemish (h d hd)
  | malformed h hmalformed =>
    rcases List.mem_append.1 hd with hd | hd
    · exact Diagnostic.Code.isSyntax_of_isBlemish (h d hd)
    · rw [List.mem_singleton.1 hd]
      exact Diagnostic.Code.isSyntax_of_isMalformed hmalformed

/-- A syntax error comes from the parser, and is the last report. -/
theorem exists_stop_of_isSyntax (hd : d ∈ (parse (.empty name) text).2.entries)
    (hcode : d.code.isSyntax = true) :
    ∃ s taken, Parser.unit (.start (readings (.start text))) = .error ⟨⟩ s ∧
      readings (.start text) = taken ++ s.ahead.items ∧
      (parse (.empty name) text).2.entries = taken.flatMap (·.news) ++ [d] ∧
      s.news = taken.flatMap (·.news) ++ [d] ∧ s.Blames d.loc d.code := by
  have lexical : ∀ {taken rest : List Reading}, readings (.start text) = taken ++ rest →
      d ∉ taken.flatMap (·.news) := by
    intro taken rest htaken hmem
    obtain ⟨r, hr, hmem⟩ := List.mem_flatMap.1 hmem
    have hread : r ∈ readings (.start text) := by simp [htaken, hr]
    rw [isSyntax_of_explains (explains_of_mem_readings hread) hmem] at hcode
    cases hcode
  cases hrun : Parser.unit (.start (readings (.start text))) with
  | ok unit s =>
    simp only [parse, hrun] at hd
    obtain ⟨-, hnews, -⟩ := unit_spans (endsOnce_readings _) hrun
    rw [hnews] at hd
    exact absurd hd (lexical (List.append_nil _).symm)
  | error x s =>
    have hkept := stepLaw_advanced.unit_keeps (.start (readings (.start text)))
    rw [hrun] at hkept
    have hentries : (parse (.empty name) text).2.entries = s.news := by
      simp only [parse, hrun]
      rfl
    rw [hentries] at hd ⊢
    cases hkept.of_error with
    | @malformed s₁ r rest h hahead _ hnews =>
      obtain ⟨taken, htook, -, htaken⟩ := h
      have hall : readings (.start text) = (taken ++ [r]) ++ rest := by
        rw [List.append_assoc]
        exact htook.trans (by rw [hahead]; rfl)
      have hreported : s.news = (taken ++ [r]).flatMap (·.news) := by
        rw [hnews, htaken]
        simp [State.start]
      rw [hreported] at hd
      exact absurd hd (lexical hall)
    | @report s₁ d' h _ _ hnews hahead hloc =>
      obtain ⟨taken, htook, -, htaken⟩ := h
      have hall : readings (.start text) = taken ++ s.ahead.items := by
        rw [hahead]
        exact htook
      have hreported : s.news = taken.flatMap (·.news) ++ [d'] := by
        rw [hnews, htaken]
        rfl
      rw [hreported] at hd
      obtain rfl : d = d' :=
        List.mem_singleton.1 ((List.mem_append.1 hd).resolve_left (lexical hall))
      exact ⟨s, taken, rfl, hall, hreported, hreported, hloc⟩

theorem parse_eq_none {t : State} (ht : Opens (readings (.start text)) t)
    (hrun : ∃ x t', body t = .error x t') : (parse (.empty name) text).1 = none := by
  obtain ⟨x, t', hrun⟩ := hrun
  rw [← ht.unit_eq] at hrun
  simp only [parse, hrun]

/-- The parser has stopped in `s` in front of a token. It began in `s₁` with the first token and has
taken the tokens `xs`, which are those of the readings `rs`; the cursor `c` stands after them. -/
structure Impasse (text : List Char) (s : State) (xs : List Token) (c : Cursor) (s₁ : State)
    (rs : List Reading) : Prop where
  opens : Opens (readings (.start text)) s₁
  scans : Scans (.start text) rs c
  tokens_eq : rs.map (·.token) = xs.map some
  token_eq : c.read.1.token = some s.current
  clean : ∀ r ∈ rs ++ [c.read.1], ∀ e ∈ r.news, e.isError = false
  stuck : Stuck id false body (· = .eof) s₁ s xs

theorem exists_impasse {taken : List Reading}
    (hrun : Parser.unit (.start (readings (.start text))) = .error ⟨⟩ s)
    (hall : readings (.start text) = taken ++ s.ahead.items) (hobj : s.Objected)
    (hclean : ∀ r ∈ taken, ∀ e ∈ r.news, e.isError = false) :
    ∃ xs c s₁ rs, Impasse text s xs c s₁ rs := by
  have hexplains : ∀ r ∈ readings (.start text), Explains r.token.isSome r.news :=
    fun _ => explains_of_mem_readings
  obtain ⟨s₁, hopens⟩ := exists_opens_of_objected (endsOnce_readings _) hexplains hrun hobj
  have hsound := hopens.sound (endsOnce_readings _) hexplains
  rw [hopens.unit_eq] at hrun
  have htwin : Twin id false s₁ body body (· = .eof) false [] := .body (fun _ _ => Iff.rfl) hsound
  obtain ⟨xs, hstuck⟩ := htwin.error hrun hobj
  have htaken : taken.map (·.token) = xs.map some ++ [some s.current] := by
    have hpending := hstuck.passed
    rw [Passed, hopens.pending, hall, List.map_append, State.pending] at hpending
    refine List.append_cancel_right (hpending.trans ?_)
    rw [List.append_assoc]
    rfl
  obtain ⟨rs, further, rfl, htokens, hfurther⟩ := List.map_eq_append_iff.1 htaken
  obtain ⟨last, rfl, hlast⟩ := List.map_eq_singleton_iff.1 hfurther
  rw [List.append_assoc, List.singleton_append] at hall
  have hsome : ∀ r ∈ rs, r.token.isSome = true := by
    intro r hr
    have hmem : r.token ∈ xs.map some := htokens ▸ List.mem_map_of_mem hr
    obtain ⟨x, -, hx⟩ := List.mem_map.1 hmem
    rw [← hx]
    rfl
  obtain ⟨c, hscans, rfl⟩ := exists_scans hall hsome
  exact ⟨xs, c, s₁, rs, hopens, hscans, htokens, hlast, hclean, hstuck⟩

namespace Impasse

variable {rs : List Reading} {before : List Char} {left : List Kind}

theorem gap_news_eq (h : Impasse text s xs c s₁ rs) : c.gap.news = [] :=
  gap_news_eq_nil (h.clean c.read.1 (by simp))

theorem exists_before (h : Impasse text s xs c s₁ rs) :
    ∃ before, text = before ++ c.gap.after.rest := by
  obtain ⟨front, hfront, -⟩ := readings_cut slides_id h.scans h.gap_news_eq
  exact ⟨front, hfront⟩

theorem exists_upto (h : Impasse text s xs c s₁ rs) : ∃ upto, text = upto ++ c.read.2.rest := by
  by_cases heof : c.read.1.isEof = true
  · rw [read_of_none (opening_of_isEof heof), rest_of_isEof heof]
    exact ⟨text, (List.append_nil text).symm⟩
  · have hne : s.current.kind ≠ .eof := by simpa [Reading.isEof, h.token_eq] using heof
    obtain ⟨front, hfront, -⟩ := (h.scans.concat h.token_eq hne).append slides_id
    exact ⟨front, hfront⟩

/-- The readings that were taken, and others after them. -/
theorem opens_again (h : Impasse text s xs c s₁ rs) {others : List Reading}
    (hfirst : xs ≠ [] ∨ ∃ x more, others.map (·.token) = some x :: more) :
    ∃ t, Opens (rs ++ others) t ∧ Abreast false s₁ t ∧
      t.pending = (move id xs).map some ++ others.map (·.token) := by
  have hmap : (rs ++ others).map (·.token) = xs.map some ++ others.map (·.token) := by
    rw [List.map_append, h.tokens_eq]
  obtain ⟨y, rest, hy⟩ : ∃ y rest, xs.map some ++ others.map (·.token) = some y :: rest := by
    cases xs with
    | cons y xs => exact ⟨y, _, rfl⟩
    | nil => exact hfirst.resolve_left fun hne => hne rfl
  obtain ⟨t, ht⟩ := exists_opens_of_map (hmap.trans hy)
  rw [show move id xs = xs from List.map_id xs]
  exact ⟨t, ht, h.opens.abreast ht, ht.pending.trans hmap⟩

/-- What is read of the text up to the token, if it goes on on new lines. -/
theorem readings_eq (h : Impasse text s xs c s₁ rs) (hbefore : text = before ++ c.gap.after.rest)
    (hwritable : ∀ kind ∈ left, kind.Writable) : ∃ (ys : List Token) (k : Token),
      readings (.start (before ++ '\n' :: written left)) =
          rs ++ (ys ++ [k]).map (⟨[], some ·⟩) ∧
        ys.map (·.kind) = left ∧ k.kind = .eof ∧
        ∀ x ∈ xs, ∀ y ∈ ys ++ [k], x.loc.line < y.loc.line := by
  obtain ⟨front, hfront, hcut⟩ := readings_cut slides_id h.scans h.gap_news_eq
  obtain rfl : before = front := List.append_cancel_right (hbefore.symm.trans hfront)
  obtain ⟨offset, hreadings⟩ :=
    @hcut (.start (before ++ '\n' :: written left)) (written left) rfl rfl
  obtain ⟨ys, k, hwritten, hkinds, hk, hlater⟩ :=
    readings_written hwritable offset c.gap.after.loc.nextLine
  refine ⟨ys, k, ?_, hkinds, hk, fun x hx y hy => ?_⟩
  · rw [hreadings, Reading.move_list_id]
    exact congrArg (rs ++ ·) hwritten
  · have hmem : some x ∈ rs.map (·.token) := h.tokens_eq ▸ List.mem_map_of_mem hx
    obtain ⟨r, hr, htoken⟩ := List.mem_map.1 hmem
    have hle := h.scans.line_le hr htoken
    have hgap := le_line_gap c
    have hbelow := hlater y hy
    change c.gap.after.loc.line + 1 ≤ y.loc.line at hbelow
    omega

theorem opens_written (h : Impasse text s xs c s₁ rs) (hbefore : text = before ++ c.gap.after.rest)
    (hwritable : ∀ kind ∈ left, kind.Writable) : ∃ (ys : List Token) (k : Token) (t : State),
      Opens (readings (.start (before ++ '\n' :: written left))) t ∧ Abreast false s₁ t ∧
        t.pending = (move id xs).map some ++ (ys.map some ++ [some k]) ∧
        (∀ r ∈ readings (.start (before ++ '\n' :: written left)),
          ∀ e ∈ r.news, e.isError = false) ∧
        ys.map (·.kind) = left ∧ k.kind = .eof ∧
        ∀ x ∈ xs, ∀ y ∈ ys ++ [k], x.loc.line < y.loc.line := by
  obtain ⟨ys, k, hreadings, hkinds, hk, hlater⟩ := h.readings_eq hbefore hwritable
  have hmap : ((ys ++ [k]).map (⟨[], some ·⟩ : Token → Reading)).map (·.token) =
      ys.map some ++ [some k] := by
    simp
  obtain ⟨z, more, hz, -⟩ := next_of_kinds (rfl : ys.map (·.kind) = _) k []
  obtain ⟨t, ht, hab, hpending⟩ := h.opens_again (.inr ⟨z, more, hmap.trans hz⟩)
  rw [hmap] at hpending
  rw [hreadings]
  refine ⟨ys, k, t, ht, hab, hpending, fun r hr e he => ?_, hkinds, hk, hlater⟩
  rcases List.mem_append.1 hr with hr | hr
  · exact h.clean r (List.mem_append_left _ hr) e he
  · obtain ⟨y, -, rfl⟩ := List.mem_map.1 hr
    cases he

/-- Where the missing tokens complete what was taken, they complete the text. -/
theorem accepted (h : Impasse text s xs c s₁ rs) (hbefore : text = before ++ c.gap.after.rest)
    (hleft : Completes id false body (· = .eof) s₁ xs left) :
    (parse (.empty name) (before ++ '\n' :: written left)).1.isSome = true := by
  obtain ⟨ys, k, t, ht, hab, hpending, hclean, hkinds, hk, hlater⟩ :=
    h.opens_written hbefore hleft.writable
  obtain ⟨b, t', hrun, -⟩ := hleft.accepts hab hkinds hpending hlater hk
  rw [← ht.unit_eq] at hrun
  rw [parse_of_run hrun hclean]
  rfl

/-- What is left of an open header cannot be written. -/
theorem overruns (h : Impasse text s xs c s₁ rs) (hbefore : text = before ++ c.gap.after.rest)
    (hwritable : ∀ kind ∈ left, kind.Writable) (hbarred : Barred id false body s₁ xs left) :
    ∃ d, (parse (.empty name) (before ++ '\n' :: written left)).2.entries.getLast? = some d ∧
      d.code = .nestingTooDeep := by
  obtain ⟨ys, k, t, ht, hab, hpending, -, hkinds, -⟩ := h.opens_written hbefore hwritable
  obtain ⟨x, t', hrun, hover⟩ := hbarred.overruns hab hkinds hpending
  rw [← ht.unit_eq] at hrun
  have hentries : (parse (.empty name) (before ++ '\n' :: written left)).2.entries = t'.news := by
    simp only [parse, hrun]
    rfl
  rw [hentries]
  exact hover

/-- No text goes on after white space. -/
theorem rejects (h : Impasse text s xs c s₁ rs) (hbefore : text = before ++ c.gap.after.rest)
    (hbarred : Barred id false body s₁ xs left) {w : Char} (hw : isWhite w = true)
    (rest : List Char) : (parse (.empty name) (before ++ w :: rest)).1 = none := by
  obtain ⟨front, hfront, hscans⟩ := h.scans.append slides_id
  obtain ⟨lead, inside, hlead, -⟩ := gap_append slides_id c
  obtain rfl : before = front ++ lead := by
    refine (List.append_left_inj c.gap.after.rest).1 ?_
    rw [← hbefore, List.append_assoc, ← hlead]
    exact hfront
  obtain ⟨d, hd, -⟩ := @hscans (.start (front ++ lead ++ w :: rest)) lead c.gap.after.rest
    (w :: rest) hlead (by rintro _ ⟨⟩; exact hw) rfl (List.append_assoc ..)
  have hreadings := hd.readings_eq
  rw [Reading.move_list_id] at hreadings
  obtain ⟨t, ht, hab, hpending⟩ := h.opens_again (.inl hbarred.header.ne_nil)
  rw [← hreadings] at ht
  exact parse_eq_none ht (hbarred.rejects hab (by simp [readings_ne_nil]) hpending)

/-- No text goes on with the token and white space after it. -/
theorem refused (h : Impasse text s xs c s₁ rs) (hne : s.current.kind ≠ .eof) {upto : List Char}
    (hupto : text = upto ++ c.read.2.rest) {w : Char} (hw : isWhite w = true)
    (rest : List Char) : (parse (.empty name) (upto ++ w :: rest)).1 = none := by
  obtain ⟨front, hfront, hscans⟩ := (h.scans.concat h.token_eq hne).append slides_id
  obtain rfl : upto = front := List.append_cancel_right (hupto.symm.trans hfront)
  obtain ⟨d, hd, -⟩ := @hscans (.start (upto ++ w :: rest)) [] c.read.2.rest (w :: rest) rfl
    (by rintro _ ⟨⟩; exact hw) rfl rfl
  have hreadings := hd.readings_eq
  rw [Reading.move_list_id, List.append_assoc] at hreadings
  have hmap : ([c.read.1] ++ readings d).map (·.token) =
      some s.current :: (readings d).map (·.token) := by
    rw [List.singleton_append, List.map_cons, h.token_eq]
  obtain ⟨t, ht, hab, hpending⟩ := h.opens_again (.inr ⟨_, _, hmap⟩)
  rw [← hreadings] at ht
  rw [hmap] at hpending
  exact parse_eq_none ht (h.stuck.refuses hab hpending)

/-- What was taken is completed, unless it ends in the head of a `foreach` that has no room. -/
theorem completed (h : Impasse text s xs c s₁ rs) :
    (∃ left, Completes id false body (· = .eof) s₁ xs left) ∨
      ∃ left, Barred id false body s₁ xs left := by
  cases xs with
  | nil =>
    refine .inl ⟨[], nofun, fun {t ys k rest} _ hys ht _ hk => ?_⟩
    rw [List.map_eq_nil_iff.1 hys] at ht
    have heof : t.current.kind = .eof := by
      rw [current_of_pending ht]
      exact hk
    have hstop : stmts t = .ok [] t := stmts_stop (by rw [heof]; rfl)
    exact ⟨_, t, body_eq_ok.2 ⟨[], hstop, heof, rfl⟩, ht⟩
  | cons x xs => exact h.stuck.mends (List.cons_ne_nil _ _)

end Impasse

/-- The parser stops in `s` in front of a token of the text. It has taken the tokens `xs`, which are
written in `before`, and `upto` ends with the token. -/
structure StopsAt (text : List Char) (s : State) (xs : List Token) (before upto : List Char) :
    Prop where
  run : Parser.unit (.start (readings (.start text))) = .error ⟨⟩ s
  stands : ∃ rs c, Scans (.start text) rs c ∧ rs.map (·.token) = xs.map some ∧
    c.read.1.token = some s.current ∧ text = before ++ c.gap.after.rest ∧
    text = upto ++ c.read.2.rest

end Parser

open LarkCheck.Parser

/-- A syntax error is reported at the first token that cannot continue the text before it. That
text can be completed, unless it ends in the head of a `foreach` that has no room for what it goes
through; and no text goes on with the token. -/
theorem parse_stops_at_first_wrong_token {name : String} {text : List Char} {d : Diagnostic}
    (hd : d ∈ (parse (.empty name) text).2.entries) (hcode : d.code.isSyntax = true)
    (hguard : d.code ≠ .nestingTooDeep)
    (hlexical : ∀ e ∈ (parse (.empty name) text).2.entries,
      e.isError = true → e.code.isSyntax = true) :
    ∃ s xs before upto, StopsAt text s xs before upto ∧ s.Blames d.loc d.code ∧
      ((∃ u, (parse (.empty name) (before ++ u)).1.isSome = true) ∨
        ∃ left, OpenHeader xs left ∧
          (∀ w rest, isWhite w = true → (parse (.empty name) (before ++ w :: rest)).1 = none) ∧
          ∃ e, (parse (.empty name) (before ++ '\n' :: written left)).2.entries.getLast? = some e ∧
            e.code = .nestingTooDeep) ∧
      (s.current.kind ≠ .eof → ∀ w rest, isWhite w = true →
        (parse (.empty name) (upto ++ w :: rest)).1 = none) := by
  obtain ⟨s, taken, hrun, hall, hentries, hnews, hblames⟩ := exists_stop_of_isSyntax hd hcode
  have hobj : s.Objected := ⟨d, by rw [hnews, List.getLast?_concat], hcode, hguard⟩
  have hclean : ∀ r ∈ taken, ∀ e ∈ r.news, e.isError = false := by
    intro r hr e he
    have hread : r ∈ readings (.start text) := by simp [hall, hr]
    have hcode := isSyntax_of_explains (explains_of_mem_readings hread) he
    have hentry : e ∈ (parse (.empty name) text).2.entries := by
      rw [hentries]
      exact List.mem_append_left _ (List.mem_flatMap.2 ⟨r, hr, he⟩)
    refine Bool.eq_false_iff.2 fun herror => ?_
    rw [hlexical e hentry herror] at hcode
    cases hcode
  obtain ⟨xs, c, s₁, rs, h⟩ := exists_impasse hrun hall hobj hclean
  obtain ⟨before, hbefore⟩ := h.exists_before
  obtain ⟨upto, hupto⟩ := h.exists_upto
  refine ⟨s, xs, before, upto, ⟨hrun, rs, c, h.scans, h.tokens_eq, h.token_eq, hbefore, hupto⟩,
    hblames, ?_, fun hne w rest hw => h.refused hne hupto hw rest⟩
  obtain ⟨left, hleft⟩ | ⟨left, hleft⟩ := h.completed
  · exact .inl ⟨_, h.accepted hbefore hleft⟩
  · have hwritable : ∀ kind ∈ left, kind.Writable := by
      cases hleft.header <;> decide
    exact .inr ⟨left, hleft.header, fun w rest hw => h.rejects hbefore hleft hw rest,
      h.overruns hbefore hwritable hleft⟩

/-- A call whose last argument is missing. -/
def argsText : List Char :=
  "while a do b[1] = f(2, ) end".toList

theorem parse_stops_at_first_wrong_token_argsText : ∃ s xs before upto,
    StopsAt argsText s xs before upto ∧ s.Blames ⟨1, 23⟩ .expectedExpression ∧
      ((∃ u, (parse (.empty "u") (before ++ u)).1.isSome = true) ∨
        ∃ left, OpenHeader xs left ∧
          (∀ w rest, isWhite w = true → (parse (.empty "u") (before ++ w :: rest)).1 = none) ∧
          ∃ e, (parse (.empty "u") (before ++ '\n' :: written left)).2.entries.getLast? = some e ∧
            e.code = .nestingTooDeep) ∧
      (s.current.kind ≠ .eof → ∀ w rest, isWhite w = true →
        (parse (.empty "u") (upto ++ w :: rest)).1 = none) := by
  have reported : (parse (.empty "u") argsText).2.entries =
      [.of .expectedExpression ⟨1, 23⟩ ["found `)`"]] := by
    decide +kernel
  refine parse_stops_at_first_wrong_token (d := .of .expectedExpression ⟨1, 23⟩ ["found `)`"])
    ?_ rfl (by decide) ?_
  · rw [reported]
    exact List.mem_singleton_self _
  · rw [reported]
    exact List.forall_mem_singleton.2 fun _ => rfl

namespace Parser

/-- So many conditions, each on the first line of the body of the one before, and then the word
that begins a loop. -/
def loopHead : Nat → List Kind
  | 0 => [.keyword .foreachKw]
  | n + 1 => .keyword .ifKw :: .nil :: loopHead n

theorem nested_rejects {α : Type} {p : Parser α} {t : State} (h : ∃ x t', p t.enter = .error x t') :
    ∃ x t', nested p t = .error x t' := by
  by_cases hroom : t.depth < maxNesting ∧ t.level < maxTreeDepth
  · obtain ⟨x, t', hrun⟩ := h
    rw [nested_of_room hroom]
    exact ⟨x, _, Frame.run_of_error hrun⟩
  · rw [nested_of_not_room hroom]
    exact ⟨_, _, rfl⟩

theorem exists_loopHead (n : Nat) : ∃ kind kinds, loopHead n = kind :: kinds ∧ kind.Ending ∧
    kind.endsBlock = false := by
  cases n with
  | zero => exact ⟨_, _, rfl, ⟨rfl, by simp⟩, rfl⟩
  | succ n => exact ⟨_, _, rfl, ⟨rfl, by simp⟩, rfl⟩

theorem block_rejects {inner : Nested} {t t' : State} {x : Stopped}
    (hkind : t.current.kind.endsBlock = false) (hstmt : inner.stmt t = .error x t') :
    block inner t = .error x t' := by
  have hmany : many (fun s => !s.current.kind.endsBlock) inner.stmt t = .error x t' := by
    rw [many_eq_bind (by rw [hkind]; rfl), bind_of_error (marked_eq_error.2 hstmt)]
  rw [block, current_bind]
  exact bind_of_error hmany

/-- A condition whose body begins with a statement that cannot be read. -/
theorem condStmt_rejects {n : Nat} {inner : Nested} (hi : inner.Twins id n) {t : State}
    {word test k : Token} {rest : List (Option Token)}
    (ht : t.pending = some word :: some test :: some k :: rest) (htest : test.kind = .nil)
    (hk : k.kind.Ending) (hblock : k.kind.endsBlock = false)
    (hstmt : ∀ t₂ : State, t₂.pending = some k :: rest → ∃ x t', inner.stmt t₂ = .error x t') :
    ∃ x t', condStmt inner t = .error x t' := by
  obtain ⟨t₁, h₁, -, ht₁⟩ := advance_of_pending ht
  rw [condStmt, bind_of_ok h₁]
  by_cases hroom : Room n t₁
  · have hexpr : Starts n true inner.expr Kind.Ending [.nil] :=
      (@Nested.Twins.expr _ _ _ hi false).starts
    have hkinds : [test].map (·.kind) = [.nil] := by rw [List.map_singleton, htest]
    obtain ⟨e, t₂, h₂, ht₂⟩ := hexpr.accepts (fun _ => hroom) hkinds ht₁ hk
    obtain ⟨x, t', hrun⟩ := hstmt t₂ ht₂
    have hbody : block inner t₂ = .error x t' :=
      block_rejects (by rw [current_of_pending ht₂, hblock]) hrun
    rw [bind_of_ok h₂]
    exact ⟨x, t', bind_of_error hbody⟩
  · obtain ⟨x, t', hexpr, -⟩ := hi.overruns hroom
    exact ⟨x, t', bind_of_error hexpr⟩

/-- With the levels used up by the conditions, nothing goes on with the word. -/
theorem stmt_rejects_loopHead (n : Nat) {t : State} {xs : List Token} {rest : List (Option Token)}
    (hxs : xs.map (·.kind) = loopHead n) (ht : t.pending = xs.map some ++ rest) :
    ∃ x t', (Nested.ofLevels (n + 1)).stmt t = .error x t' := by
  have hi : (Nested.ofLevels n).Twins id n := Nested.twins_ofLevels (fun _ _ => Iff.rfl) n
  apply nested_rejects
  induction n generalizing t xs with
  | zero =>
    obtain ⟨word, rfl, hword⟩ := List.map_eq_singleton_iff.1 hxs
    have hkind : t.enter.current.kind = .keyword .foreachKw := by
      rw [← hword, ← current_of_pending ht]
      rfl
    have hno : ¬Room 0 t.enter := fun h => Nat.lt_irrefl 0 h.levels
    simpa only [stmt, hkind] using foreachStmt_rejects hi hno
  | succ n ih =>
    obtain ⟨word, ys, rfl, hword, hrest⟩ := List.map_eq_cons_iff.1 hxs
    obtain ⟨test, zs, rfl, htest, hzs⟩ := List.map_eq_cons_iff.1 hrest
    obtain ⟨kind, kinds, hhead, hending, hblock⟩ := exists_loopHead n
    obtain ⟨k, further, rfl, hk, -⟩ := List.map_eq_cons_iff.1 (hzs.trans hhead)
    have hkind : t.enter.current.kind = .keyword .ifKw := by
      rw [← hword, ← current_of_pending ht]
      rfl
    have hcond : ∃ x t', condStmt (.ofLevels (n + 1)) t.enter = .error x t' := by
      refine condStmt_rejects hi (t := t.enter) ht htest (hk ▸ hending) (hk ▸ hblock)
        fun t₂ ht₂ => ?_
      exact nested_rejects (ih hzs ht₂ (Nested.twins_ofLevels (fun _ _ => Iff.rfl) n))
    simpa only [stmt, hkind] using hcond

theorem writable_loopHead (n : Nat) : ∀ kind ∈ loopHead n, kind.Writable := by
  induction n with
  | zero => exact List.forall_mem_singleton.2 rfl
  | succ n ih => exact List.forall_mem_cons.2 ⟨rfl, List.forall_mem_cons.2 ⟨trivial, ih⟩⟩

/-- Nothing completes a text in which the conditions leave no room for the loop. -/
theorem parse_loopHead (name : String) (u : List Char) :
    (parse (.empty name) (written (loopHead 63) ++ u)).1 = none := by
  obtain ⟨ys, offset, loc, hreadings, hkinds, -⟩ :=
    readings_written_append (writable_loopHead 63) u 0 .start
  have hmap : (readings (.start (written (loopHead 63) ++ u))).map (·.token) =
      ys.map some ++ (readings ⟨u, offset, loc⟩).map (·.token) := by
    rw [Cursor.start, hreadings]
    simp
  obtain ⟨kind, kinds, hhead, -, hblock⟩ := exists_loopHead 63
  obtain ⟨y, zs, rfl, hy, -⟩ := List.map_eq_cons_iff.1 (hkinds.trans hhead)
  obtain ⟨t, ht⟩ := exists_opens_of_map hmap
  have hpending := ht.pending.trans hmap
  obtain ⟨x, t', hstmt⟩ := stmt_rejects_loopHead 63 hkinds hpending
  have hbody : block (.ofLevels maxNesting) t = .error x t' :=
    block_rejects (by rw [current_of_pending hpending, hy, hblock]) hstmt
  exact parse_eq_none ht ⟨x, t', bind_of_error hbody⟩

end Parser

/-- As deep as statements go, the word for a loop over a collection and then no name. -/
def noRoomText : List Char :=
  written (loopHead 63) ++ ['1']

/-- The parser reports the number that stands for the name, but no name would have been better: the
text in front of the number has no completion at all. -/
theorem noRoomText_not_completable :
    (parse (.empty "u") noRoomText).2.entries =
        [.of .expectedIdentifier ⟨128, 0⟩ ["found integer 1"]] ∧
      ∀ u, (parse (.empty "u") (written (loopHead 63) ++ u)).1 = none :=
  ⟨by decide +kernel, parse_loopHead "u"⟩

end LarkCheck
