import LarkCheck.Proofs.Token.Splice

/-!
# Parts of texts put together

The readings up to some token are made again, moved, of a text that begins with the
same characters and goes on with white space. So what is read of a text that is cut
in front of a token and continued on a new line is the readings up to the cut and
those of the continuation.
-/

namespace LarkCheck

namespace Token

/-- From `c` the readings `rs` lead to `c'`, and each gives a token of the text. -/
inductive Scans : Cursor → List Reading → Cursor → Prop
  | nil {c : Cursor} : Scans c [] c
  | cons {c c' : Cursor} {rs : List Reading} {token : Token} (h : c.read.1.token = some token)
    (hne : token.kind ≠ .eof) (hrest : Scans c.read.2 rs c') : Scans c (c.read.1 :: rs) c'

variable {f : Location → Location} {c c' d : Cursor} {rs : List Reading}

theorem Reading.isEof_eq_false {r : Reading} {token : Token} (h : r.token = some token)
    (hne : token.kind ≠ .eof) : r.isEof = false := by
  simpa [Reading.isEof, h] using hne

theorem Reading.move_list_id (rs : List Reading) : move id rs = rs := by
  refine (List.map_congr_left fun r _ => ?_).trans (List.map_id rs)
  obtain ⟨news, _ | token⟩ := r <;> exact congrArg (Reading.mk · _) (List.map_id news)

theorem Reading.isEof_move (f : Location → Location) (r : Reading) :
    (move f r).isEof = r.isEof := by
  obtain ⟨news, _ | token⟩ := r <;> rfl

theorem readings_of_isEof (h : c.read.1.isEof = true) : readings c = [c.read.1] := by
  rw [readings, dif_pos h]

theorem readings_of_not_isEof (h : c.read.1.isEof = false) :
    readings c = c.read.1 :: readings c.read.2 := by
  rw [readings, dif_neg (by simp [h])]

theorem readings_ne_nil (c : Cursor) : readings c ≠ [] := by
  rw [readings]
  exact List.cons_ne_nil _ _

theorem Scans.readings_eq (h : Scans c rs c') : readings c = rs ++ readings c' := by
  induction h with
  | nil => rfl
  | cons h hne _ ih => rw [readings_of_not_isEof (Reading.isEof_eq_false h hne), ih]; rfl

theorem Scans.concat (h : Scans c rs c') {token : Token} (htoken : c'.read.1.token = some token)
    (hne : token.kind ≠ .eof) : Scans c (rs ++ [c'.read.1]) c'.read.2 := by
  induction h with
  | nil => exact .cons htoken hne .nil
  | cons h hne' _ ih => exact .cons h hne' (ih htoken)

/-- Readings that give tokens were made one after the other, up to the reading after them. -/
theorem exists_scans {r : Reading} {rest : List Reading} (h : readings c = rs ++ r :: rest)
    (htokens : ∀ x ∈ rs, x.token.isSome = true) : ∃ c', Scans c rs c' ∧ c'.read.1 = r := by
  induction rs generalizing c with
  | nil =>
    rw [readings] at h
    exact ⟨c, .nil, (List.cons.inj h).1⟩
  | cons x rs ih =>
    obtain ⟨token, htoken⟩ := Option.isSome_iff_exists.1 (htokens x List.mem_cons_self)
    have hread : c.read.1 = x := by
      rw [readings] at h
      exact (List.cons.inj h).1
    rw [← hread] at htoken
    have heof : c.read.1.isEof = false := Bool.eq_false_iff.2 fun heof => by
      rw [readings_of_isEof heof] at h
      simpa using congrArg List.length h
    rw [readings_of_not_isEof heof] at h
    obtain ⟨c', hscans, hr⟩ :=
      ih (List.cons.inj h).2 fun x hx => htokens x (List.mem_cons_of_mem _ hx)
    rw [← hread]
    exact ⟨c', .cons htoken (by simpa [Reading.isEof, htoken] using heof) hscans, hr⟩

/-- The same readings are made of the same characters in front of white space. -/
theorem Scans.append (hf : Slides f) (h : Scans c rs c') : ∃ front, c.rest = front ++ c'.rest ∧
    ∀ {d : Cursor} {lead rest rest' : List Char}, c'.rest = lead ++ rest → Ended rest' →
      d.loc = f c.loc → d.rest = front ++ (lead ++ rest') →
      ∃ d', Scans d (move f rs) d' ∧ d'.rest = lead ++ rest' ∧ d'.loc = f c'.loc := by
  induction h with
  | nil => exact ⟨[], rfl, fun {d _ _ _} _ _ hloc hrest => ⟨d, .nil, hrest, hloc⟩⟩
  | @cons c c' rs token htoken hne h ih =>
    obtain ⟨front, hfront, hscans⟩ := ih
    obtain ⟨gap, word, hsplit, -, hread⟩ := read_append hf htoken hne
    refine ⟨gap ++ (word ++ front), ?_, fun {d lead rest rest'} hrest' hended hloc hd => ?_⟩
    · rw [hsplit, hfront, List.append_assoc, List.append_assoc]
    · have hyields : Yields c.read.2.rest (front ++ (lead ++ rest')) := by
        rw [hfront, hrest', ← List.append_assoc, ← List.append_assoc]
        exact yields_append _ _ hended
      rw [List.append_assoc, List.append_assoc] at hd
      obtain ⟨heq, hafter, hloc'⟩ := hread hloc hd hyields
      obtain ⟨d', hrs, hd'⟩ := hscans hrest' hended hloc' hafter
      have htoken' : d.read.1.token = some (move f token) := by
        rw [heq]
        exact congrArg (Option.map (move f)) htoken
      refine ⟨d', ?_, hd'⟩
      have := Scans.cons htoken' hne hrs
      rwa [heq] at this

/-- What a gap reports are errors. -/
theorem isError_of_mem_gapFrom {inComment : Bool} {text : List Char} {offset : Nat}
    {loc : Location} {d : Diagnostic} (h : d ∈ (gapFrom inComment text offset loc).news) :
    d.isError = true := by
  fun_induction gapFrom inComment text offset loc with
  | case1 | case5 => cases h
  | case2 | case3 | case4 =>
    rename_i ih
    exact ih h
  | case6 =>
    rename_i ih
    rcases List.mem_cons.1 h with rfl | h
    · rfl
    · exact ih h

theorem gap_news_eq_nil (h : ∀ d ∈ c.read.1.news, d.isError = false) : c.gap.news = [] := by
  refine List.eq_nil_iff_forall_not_mem.2 fun d hd => ?_
  have hread : d ∈ c.read.1.news := by
    cases hopening : c.gap.opening with
    | none =>
      rw [read_of_none hopening]
      exact hd
    | some opening =>
      rw [read_of_some hopening]
      exact List.mem_append_left _ hd
  exact absurd (isError_of_mem_gapFrom hd) (by rw [h d hread]; decide)

theorem le_line_gapFrom (inComment : Bool) (text : List Char) (offset : Nat) (loc : Location) :
    loc.line ≤ (gapFrom inComment text offset loc).after.loc.line := by
  fun_induction gapFrom inComment text offset loc with
  | case1 | case5 => exact Nat.le_refl _
  | case2 =>
    rename_i ih
    exact Nat.le_of_succ_le ih
  | case3 | case4 | case6 =>
    rename_i ih
    exact ih

theorem le_line_stringTail (text : List Char) (offset : Nat) (loc : Location) :
    loc.line ≤ (stringTail text offset loc).after.loc.line := by
  fun_induction stringTail text offset loc with
  | case1 | case2 | case3 | case10 => exact Nat.le_refl _
  | case4 => exact Nat.le_succ _
  | case5 | case6 | case7 =>
    rename_i ih
    exact Nat.le_of_succ_le ih
  | case8 | case9 | case11 =>
    rename_i ih
    exact ih

theorem le_line_readLexeme (opening : Opening) (c : Cursor) :
    c.loc.line ≤ (readLexeme opening c).after.loc.line := by
  cases opening with
  | string =>
    have h := le_line_stringTail (c.rest.drop 1) (c.offset + 1) (c.loc.advance 1)
    unfold readLexeme readString
    dsimp only
    split <;> exact h
  | number =>
    unfold readLexeme readNumber
    dsimp only
    split
    · exact Nat.le_refl _
    · split <;> exact Nat.le_refl _
  | word => exact Nat.le_refl _
  | symbol single =>
    change c.loc.line ≤ (readSymbol single c).after.loc.line
    unfold readSymbol
    split
    · split <;> exact Nat.le_refl _
    · exact Nat.le_refl _

/-- A token stands after the gap before it. -/
theorem loc_of_read {token : Token} (h : c.read.1.token = some token) :
    token.loc = c.gap.after.loc := by
  cases hopening : c.gap.opening with
  | none =>
    rw [read_of_none hopening] at h
    cases h
    rfl
  | some opening =>
    rw [read_of_some hopening] at h
    obtain ⟨kind, -, rfl⟩ := Option.map_eq_some_iff.1 h
    rfl

theorem le_line_gap (c : Cursor) : c.loc.line ≤ c.gap.after.loc.line :=
  le_line_gapFrom ..

theorem le_line_read (c : Cursor) : c.gap.after.loc.line ≤ c.read.2.loc.line := by
  cases hopening : c.gap.opening with
  | none => exact Nat.le_of_eq (congrArg (·.2.loc.line) (read_of_none hopening).symm)
  | some opening =>
    rw [read_of_some hopening]
    exact le_line_readLexeme _ _

theorem Scans.le_line (h : Scans c rs c') : c.loc.line ≤ c'.loc.line := by
  induction h with
  | nil => exact Nat.le_refl _
  | cons _ _ _ ih => exact Nat.le_trans (Nat.le_trans (le_line_gap _) (le_line_read _)) ih

/-- No token stands below what comes after it. -/
theorem Scans.line_le (h : Scans c rs c') {r : Reading} (hr : r ∈ rs) {token : Token}
    (htoken : r.token = some token) : token.loc.line ≤ c'.loc.line := by
  induction h with
  | nil => exact absurd hr List.not_mem_nil
  | cons _ _ hrest ih =>
    rcases List.mem_cons.1 hr with rfl | hr
    · rw [loc_of_read htoken]
      exact Nat.le_trans (le_line_read _) hrest.le_line
    · exact ih hr

theorem opening?_eq_symbol {first : Char} {kind : Kind} (h : opening? first = some (.symbol kind)) :
    (∃ op, kind = .operator op) ∨ ∃ mark, kind = .punctuation mark := by
  unfold opening? at h
  split at h
  · cases h
  split at h
  · cases h
  split at h
  · cases h
  split at h
  · rename_i op _
    cases h
    exact .inl ⟨op, rfl⟩
  · obtain ⟨mark, -, hmark⟩ := Option.map_eq_some_iff.1 h
    cases hmark
    exact .inr ⟨mark, rfl⟩

theorem wordKind_ne_eof (word : List Char) : wordKind word ≠ .eof := by
  unfold wordKind
  dsimp only
  split
  · rename_i kw _
    cases kw <;> simp [Kind.ofKeyword]
  · simp

/-- No lexeme is the end of the file. -/
theorem readLexeme_ne_eof {first : Char} {opening : Opening}
    (hfirst : opening? first = some opening) (c : Cursor) :
    (readLexeme opening c).kind ≠ some .eof := by
  cases opening with
  | string =>
    unfold readLexeme readString
    dsimp only
    split <;> simp
  | number =>
    unfold readLexeme readNumber
    dsimp only
    split
    · simp
    · split <;> simp
  | word => simpa [readLexeme, readWord] using wordKind_ne_eof _
  | symbol single =>
    have hne : single ≠ .eof := by
      rcases opening?_eq_symbol hfirst with ⟨op, rfl⟩ | ⟨mark, rfl⟩ <;> simp
    change (readSymbol single c).kind ≠ _
    unfold readSymbol
    split
    · split <;> simp [hne]
    · simpa using hne

theorem opening_of_isEof (h : c.read.1.isEof = true) : c.gap.opening = none := by
  cases hopening : c.gap.opening with
  | none => rfl
  | some opening =>
    obtain ⟨first, _, -, hfirst⟩ := (gapFrom_rest false c.rest c.offset c.loc).2 opening hopening
    have hne := readLexeme_ne_eof hfirst c.gap.after
    rw [read_of_some hopening] at h
    cases hkind : (readLexeme opening c.gap.after).kind with
    | none => simp [Reading.isEof, hkind] at h
    | some kind => simp_all [Reading.isEof]

/-- In front of the end of the file nothing is left of the text. -/
theorem gapFrom_rest_of_none {inComment : Bool} {text : List Char} {offset : Nat} {loc : Location}
    (h : (gapFrom inComment text offset loc).opening = none) :
    (gapFrom inComment text offset loc).after.rest = [] := by
  fun_induction gapFrom inComment text offset loc with
  | case1 => rfl
  | case2 | case3 | case4 | case6 =>
    rename_i ih
    exact ih h
  | case5 => cases h

theorem rest_of_isEof (h : c.read.1.isEof = true) : c.gap.after.rest = [] :=
  gapFrom_rest_of_none (opening_of_isEof h)

theorem readings_of_gap_eq (h : d.gap = c.gap) : readings d = readings c := by
  have hread : d.read = c.read := by simp only [Cursor.read, h]
  rw [readings, hread]
  exact (readings.eq_def c).symm

/-- A text that is cut in front of a token and goes on on a new line. -/
theorem readings_cut (hf : Slides f) (h : Scans c rs c') (hnews : c'.gap.news = []) :
    ∃ front, c.rest = front ++ c'.gap.after.rest ∧
      ∀ {d : Cursor} {rest : List Char}, d.loc = f c.loc → d.rest = front ++ '\n' :: rest →
        ∃ offset, readings d =
          move f rs ++ readings ⟨rest, offset, (f c'.gap.after.loc).nextLine⟩ := by
  obtain ⟨front, hfront, hscans⟩ := h.append hf
  obtain ⟨lead, inside, hlead, -, hgap⟩ := gap_append hf c'
  refine ⟨front ++ lead, by rw [hfront, hlead, List.append_assoc], fun {d rest} hloc hrest => ?_⟩
  rw [List.append_assoc] at hrest
  obtain ⟨d', hd', hrest', hloc'⟩ := hscans hlead (by rintro _ ⟨⟩; decide) hloc hrest
  refine ⟨d'.offset + lead.length + 1, ?_⟩
  rw [hd'.readings_eq]
  refine congrArg _ (readings_of_gap_eq ?_)
  rw [hgap hloc' hrest', hnews, gapFrom, if_pos (by decide)]
  rfl

/-- A text that stands elsewhere. -/
theorem readings_move (hf : Slides f) (h : ∀ r ∈ readings c, r.token.isSome = true)
    (hloc : d.loc = f c.loc) (hrest : d.rest = c.rest) : readings d = move f (readings c) := by
  fun_induction readings c generalizing d with
  | case1 c ih =>
    obtain ⟨token, htoken⟩ := Option.isSome_iff_exists.1 (h _ List.mem_cons_self)
    by_cases heof : c.read.1.isEof = true
    · have hopening := opening_of_isEof heof
      obtain ⟨lead, inside, hlead, -, hgap⟩ := gap_append hf c
      have hgap' := hgap hloc (hrest.trans hlead)
      rw [rest_of_isEof heof, gapFrom, Gap.report, List.append_nil] at hgap'
      have hread : d.read.1 = move f c.read.1 := by
        rw [@read_of_none d (by rw [hgap']), read_of_none hopening, hgap']
        rfl
      rw [readings_of_isEof (by rw [hread, Reading.isEof_move, heof]), hread, dif_pos heof]
      rfl
    · replace heof : c.read.1.isEof = false := by simpa using heof
      have hne : token.kind ≠ .eof := by simpa [Reading.isEof, htoken] using heof
      obtain ⟨gap, word, hsplit, -, hread⟩ := read_append hf htoken hne
      obtain ⟨heq, hafter, hloc'⟩ := hread hloc (hrest.trans hsplit) ⟨.inl rfl, id⟩
      rw [readings_of_not_isEof (by rw [heq, Reading.isEof_move, heof]), heq,
        dif_neg (by simp [heof])]
      refine congrArg (move f c.read.1 :: ·) (ih (by simp [heof]) (fun r hr => h r ?_) hloc' hafter)
      simp [heof, hr]

/-- The line on which the end of the file stands: a text and one line break after it take as
many. -/
def endLine (text : List Char) : Nat :=
  ((readings (.start text)).getLast?.bind (·.token)).elim 0 (·.loc.line)

theorem exists_eof (c : Cursor) :
    ∃ init last, readings c = init ++ [last] ∧ last.isEof = true := by
  fun_induction readings c with
  | case1 c ih =>
    by_cases heof : c.read.1.isEof = true
    · exact ⟨[], c.read.1, by simp [heof], heof⟩
    · obtain ⟨init, last, hinit, hlast⟩ := ih heof
      exact ⟨c.read.1 :: init, last, by simp [heof, hinit], hlast⟩

/-- A text and a further one on a new line. -/
structure Joins (a b : List Char) (init : List Reading) (last : Reading) : Prop where
  first_eq : readings (.start a) = init ++ [last]
  last_isEof : last.isEof = true
  last_news : last.news = []
  line_le : ∀ r ∈ init, ∀ token, r.token = some token → token.loc.line ≤ endLine a
  joined_eq : readings (.start (a ++ '\n' :: b)) =
    init ++ move (Location.down (endLine a)) (readings (.start b))

/-- A text without errors may be followed by any text whose lexemes are well formed. -/
theorem exists_joins {a b : List Char}
    (ha : ∀ r ∈ readings (.start a), r.token.isSome = true ∧ ∀ d ∈ r.news, d.isError = false)
    (hb : ∀ r ∈ readings (.start b), r.token.isSome = true) :
    ∃ init last, Joins a b init last := by
  obtain ⟨init, last, hinit, hlast⟩ := exists_eof (.start a)
  rw [hinit] at ha
  obtain ⟨c, hscans, hread⟩ := exists_scans hinit fun r hr => (ha r (by simp [hr])).1
  rw [← hread] at hlast ha hinit
  have hgap : c.gap.news = [] := gap_news_eq_nil (ha c.read.1 (by simp)).2
  have hlast' := read_of_none (opening_of_isEof hlast)
  have hend : endLine a = c.gap.after.loc.line := by
    rw [endLine, hinit, List.getLast?_concat, hlast']
    rfl
  obtain ⟨front, hfront, hcut⟩ := readings_cut slides_id hscans hgap
  rw [rest_of_isEof hlast, List.append_nil] at hfront
  replace hfront : a = front := hfront
  obtain ⟨offset, hjoined⟩ :=
    @hcut (.start (a ++ '\n' :: b)) b rfl (congrArg (· ++ '\n' :: b) hfront)
  refine ⟨init, c.read.1, hinit, hlast, ?_, fun r hr token htoken => ?_, ?_⟩
  · rw [hlast']
    exact hgap
  · rw [hend]
    exact Nat.le_trans (hscans.line_le hr htoken) (le_line_gap c)
  · have hmove := @readings_move _ (.start b) ⟨b, offset, c.gap.after.loc.nextLine⟩
      (slides_down (endLine a)) hb (by
        rw [hend, Location.nextLine, Location.down, Cursor.start, Location.start, Nat.add_comm])
      rfl
    rw [hjoined, ← hmove, Reading.move_list_id]
    rfl

end Token

end LarkCheck
