import LarkCheck.Proofs.Token.Progress

/-!
# Places are exact

Wherever reading a text from its start has come to, its place is the one that the
marks of the text give for the number of characters passed: the line is told by the
lines that ended before, the column by the characters since the last of them. So is
the place of every token and of every report, and the tokens of a text stand one
behind the other.
-/

namespace LarkCheck

def endsLineAt (text : List Char) (offset : Nat) : Bool :=
  (marks text)[offset]?.any (·.endsLine)

/-- Whether the character at an offset belongs to a string literal. -/
def insideAt (text : List Char) (offset : Nat) : Bool :=
  (marks text)[offset]?.any (·.inside)

/-- The line counts the lines that end before the offset, the column the characters behind the last
of their ends. -/
def placeOf (text : List Char) (offset : Nat) : Location :=
  let ends := (List.range offset).filter (endsLineAt text)
  ⟨1 + ends.length, offset - ends.getLast?.elim 0 (· + 1)⟩

variable {text : List Char} {m : Mark} {ms ns : List Mark} {offset : Nat}

theorem placeOf_succ (h : (marks text)[offset]? = some m) :
    placeOf text (offset + 1) = m.move (placeOf text offset) := by
  have hends : endsLineAt text offset = m.endsLine := by rw [endsLineAt, h]; rfl
  rw [placeOf, List.range_succ, List.filter_append, placeOf]
  have hlast : ∀ last ∈ ((List.range offset).filter (endsLineAt text)).getLast?, last < offset :=
    fun last hlast => List.mem_range.1 (List.mem_filter.1 (List.mem_of_getLast? hlast)).1
  simp only [List.filter_cons, List.filter_nil, hends]
  generalize (List.range offset).filter (endsLineAt text) = ends at hlast
  cases hline : m.endsLine with
  | true => simp [hline, Mark.move, Location.nextLine, Nat.add_assoc]
  | false =>
    have hle : ends.getLast?.elim 0 (· + 1) ≤ offset := by
      cases hends : ends.getLast? with
      | none => exact Nat.zero_le _
      | some last => exact hlast last hends
    simp [hline, Mark.move, Location.advance, Nat.sub_add_comm hle]

/-- Counting agrees with moving by one mark after the other. -/
theorem foldl_move (h : (marks text).drop offset = ms ++ ns) :
    ms.foldl Mark.move (placeOf text offset) = placeOf text (offset + ms.length) := by
  induction ms generalizing offset with
  | nil => rfl
  | cons m ms ih =>
    have hmark : (marks text)[offset]? = some m := by
      rw [← List.head?_drop, h]
      rfl
    have hrest : (marks text).drop (offset + 1) = ms ++ ns := by
      rw [← List.drop_drop, h]
      rfl
    rw [List.foldl_cons, ← placeOf_succ hmark, ih hrest, List.length_cons, Nat.add_right_comm,
      Nat.add_assoc]

namespace Token

variable {c d : Cursor} {z z' : Zone} {token : Token}

/-- A walk from the start of a text keeps to the places of the text. -/
theorem Walk.loc_eq_placeOf (h : Walk .plain (.start text) ms z c) :
    c.loc = placeOf text c.offset := by
  have hmarks : (marks text).drop 0 = ms ++ marksFrom z c.rest := h.marks_eq
  rw [h.loc_eq, h.offset_eq]
  exact foldl_move hmarks

/-- The characters between two cursors are marked as the walk between them tells. -/
theorem Walk.insideAt_eq {inside : Bool} (h : Walk .plain (.start text) ms z c)
    (h' : Walk z c ns z' d) (hns : ∀ m ∈ ns, m.inside = inside) {i : Nat} (hle : c.offset ≤ i)
    (hlt : i < d.offset) : insideAt text i = inside := by
  have hmarks : marks text = ms ++ (ns ++ marksFrom z' d.rest) := by
    rw [← h'.marks_eq]
    exact h.marks_eq
  have hoffset : c.offset = ms.length := by
    rw [h.offset_eq]
    exact Nat.zero_add _
  rw [h'.offset_eq, hoffset] at hlt
  rw [hoffset] at hle
  rw [insideAt, hmarks, List.getElem?_append_right hle, List.getElem?_append_left (by omega),
    List.getElem?_eq_getElem (by omega)]
  exact hns _ (List.getElem_mem _)

theorem exists_walk_afterReads (text : List Char) (n : Nat) :
    ∃ ms, Walk .plain (.start text) ms .plain (afterReads (.start text) n) := by
  induction n with
  | zero => exact ⟨[], .stay rfl⟩
  | succ n ih =>
    obtain ⟨ms, hwalk⟩ := ih
    obtain ⟨ns, hread⟩ := exists_walk_read (afterReads (.start text) n)
    exact ⟨ms ++ ns, hwalk.trans hread⟩

theorem loc_lt_foldl_move (loc : Location) (m : Mark) (ms : List Mark) :
    loc < (m :: ms).foldl Mark.move loc := by
  induction ms generalizing loc m with
  | nil => exact Mark.lt_move loc m
  | cons n ms ih => exact Location.lt_trans (Mark.lt_move loc m) (ih _ n)

theorem Walk.loc_lt (h : Walk z c ms z' d) (hlt : c.offset < d.offset) : c.loc < d.loc := by
  cases ms with
  | nil => exact absurd hlt (by rw [h.offset_eq]; exact Nat.lt_irrefl _)
  | cons m ms =>
    rw [h.loc_eq]
    exact loc_lt_foldl_move _ _ _

theorem Walk.loc_le (h : Walk z c ms z' d) : ¬ d.loc < c.loc := by
  cases ms with
  | nil =>
    rw [h.loc_eq]
    exact Location.lt_irrefl _
  | cons m ms =>
    rw [h.loc_eq]
    exact fun hlt => Location.lt_irrefl _ (Location.lt_trans (loc_lt_foldl_move _ _ _) hlt)

theorem gap_loc_lt_read (h : c.read.1.isEof = false) : c.gap.after.loc < c.read.2.loc := by
  obtain ⟨_, -, hpasses⟩ := passes_lexeme c
  obtain ⟨ms, hwalk, -⟩ := hpasses.walk
  exact hwalk.loc_lt (gap_offset_lt_read h)

theorem not_lt_of_mem_readings (c : Cursor) :
    ∀ token ∈ (readings c).filterMap (·.token), ¬ token.loc < c.loc := by
  fun_induction readings c with
  | case1 c ih =>
    obtain ⟨ms, hgap, -⟩ := (passes_gap c).walk
    obtain ⟨ns, hread⟩ := exists_walk_read c
    intro token htoken
    obtain ⟨r, hr, htoken⟩ := List.mem_filterMap.1 htoken
    rcases List.mem_cons.1 hr with rfl | hr
    · rw [loc_of_read htoken]
      exact hgap.loc_le
    · by_cases heof : c.read.1.isEof = true
      · simp [heof] at hr
      · simp only [heof] at hr
        exact Location.not_lt_trans hread.loc_le
          (ih heof token (List.mem_filterMap.2 ⟨r, hr, htoken⟩))

/-- The tokens that are read stand one behind the other. -/
theorem pairwise_tokens (c : Cursor) :
    ((readings c).filterMap (·.token)).Pairwise (·.loc < ·.loc) := by
  fun_induction readings c with
  | case1 c ih =>
    cases heof : c.read.1.isEof with
    | true =>
      cases htoken : c.read.1.token <;> simp [htoken]
    | false =>
      simp only [heof] at ih ⊢
      replace ih := ih (by simp)
      cases htoken : c.read.1.token with
      | none => simpa [htoken] using ih
      | some token =>
        simp only [htoken, List.filterMap_cons]
        refine List.pairwise_cons.2 ⟨fun later hlater => ?_, by simpa using ih⟩
        rw [loc_of_read htoken]
        exact Location.lt_of_lt_of_not_lt (gap_loc_lt_read heof)
          (not_lt_of_mem_readings _ later (by simpa using hlater))

/-- A lexeme at the cursor of which a token is made is spelled there. -/
theorem spells_of_opening {first : Char} {tail : List Char} {opening : Opening}
    (hc : c.rest = first :: tail) (hopening : opening? first = some opening)
    (h : c.read.1.token = some token) :
    ∃ word, Spells word (some token.kind) ∧ c.rest = word ++ c.read.2.rest := by
  have hbegins : ∃ word kind?, Spells word kind? ∧ word <+: c.rest :=
    Classical.byContradiction fun hnone => by
      by_cases hquote : first = '"'
      · subst hquote
        have hopen := leftOpen_of_no_literal hc fun word kind? hspells hbegins =>
          hnone ⟨word, kind?, hspells, hbegins⟩
        rw [hopen.token_eq] at h
        cases h
      · obtain ⟨kind?, hspells⟩ := exists_spells_of_opening hopening hquote
        exact hnone ⟨_, kind?, hspells, tail, hc.symm⟩
  obtain ⟨_, _, hspells, hbegins⟩ := hbegins
  obtain ⟨word, kind?, hlongest⟩ := exists_longest hspells hbegins
  have htakes := takes_of_longest hlongest
  obtain ⟨kind, rfl, rfl⟩ := Option.map_eq_some_iff.1 (htakes.token_eq.symm.trans h)
  exact ⟨word, hlongest.spells, htakes.rest_eq⟩

/-- A token is spelled behind the gap, unless it is the end of the file. -/
theorem spells_of_read (h : c.read.1.token = some token) (hne : token.kind ≠ .eof) :
    ∃ word, Spells word (some token.kind) ∧ c.gap.after.rest = word ++ c.read.2.rest := by
  cases hopening : c.gap.opening with
  | none =>
    rw [read_of_none hopening] at h
    cases h
    exact absurd rfl hne
  | some opening =>
    obtain ⟨first, tail, hc, hfirst⟩ : ∃ first tail, c.gap.after.rest = first :: tail ∧
        opening? first = some opening :=
      (gapFrom_rest false c.rest c.offset c.loc).2 opening hopening
    have hread := read_of_opening hc hfirst
    rw [read_of_some hopening] at h ⊢
    have htoken : c.gap.after.read.1.token = some token := by
      rw [hread]
      exact h
    have hspells := spells_of_opening hc hfirst htoken
    rwa [hread] at hspells

/-- In every run of readings from the start of a text the places are those of the text: before each
reading, in front of its lexeme, and of all that it gives. What a reading passes over in front of
its lexeme is outside of literals, and the lexeme is inside of one if it begins with a quote. -/
theorem readings_placed (text : List Char) :
    (∀ n,
      let c := afterReads (.start text) n
      let first := c.gap.after.offset
      let last := c.read.2.offset
      c.loc = placeOf text c.offset ∧ c.gap.after.loc = placeOf text first ∧
      (∀ i, c.offset ≤ i → i < first → insideAt text i = false) ∧
      (∀ i, first ≤ i → i < last → insideAt text i = decide (text[first]? = some '"')) ∧
      (∀ d ∈ c.read.1.news, ∃ i, c.offset ≤ i ∧ i < last ∧ d.loc = placeOf text i) ∧
      ∀ token, c.read.1.token = some token → token.loc = placeOf text first ∧
        (token.kind = .eof ∧ first = text.length ∨
          ∃ word, Spells word (some token.kind) ∧
            text.drop first = word ++ text.drop last)) ∧
    ((readings (.start text)).filterMap (·.token)).Pairwise (·.loc < ·.loc) := by
  refine ⟨fun n => ?_, pairwise_tokens _⟩
  intro c first last
  -- from the start to the cursor, over the gap to the lexeme, and over the lexeme
  obtain ⟨ms, hstart⟩ := exists_walk_afterReads text n
  obtain ⟨ns, hgap, hns⟩ := (passes_gap c).walk
  obtain ⟨news, hnews, hpasses⟩ := passes_lexeme c
  obtain ⟨ks, hlexeme, hks⟩ := hpasses.walk
  have hfirst := hstart.trans hgap
  have hwithin : Within text c := Within.afterReads ⟨rfl, Nat.zero_le _⟩ n
  have hrest : c.gap.after.rest = text.drop first := (hwithin.walk hgap).rest_eq
  refine ⟨hstart.loc_eq_placeOf, hfirst.loc_eq_placeOf, fun i => hstart.insideAt_eq hgap hns,
    fun i hle hlt => ?_, fun d hd => ?_, fun token htoken => ⟨?_, ?_⟩⟩
  · rw [hfirst.insideAt_eq hlexeme hks hle hlt, hrest, List.head?_drop]
  · rw [hnews] at hd
    rcases List.mem_append.1 hd with hd | hd
    · obtain ⟨_, _, e, hmet, hlt, hloc⟩ := (passes_gap c).met d hd
      refine ⟨e.offset, hmet.offset_le, Nat.lt_of_lt_of_le hlt hpasses.offset_le, ?_⟩
      rw [← hloc]
      exact (hstart.trans hmet).loc_eq_placeOf
    · obtain ⟨_, _, e, hmet, hlt, hloc⟩ := hpasses.met d hd
      refine ⟨e.offset, Nat.le_trans hgap.offset_le hmet.offset_le, hlt, ?_⟩
      rw [← hloc]
      exact (hfirst.trans hmet).loc_eq_placeOf
  · rw [loc_of_read htoken]
    exact hfirst.loc_eq_placeOf
  · by_cases heof : token.kind = .eof
    · have hnil := rest_of_isEof (c := c) (by simp [Reading.isEof, htoken, heof])
      have hlength := (hwithin.walk hgap).length_eq
      rw [hnil] at hlength
      exact .inl ⟨heof, hlength⟩
    · obtain ⟨word, hspells, hsplit⟩ := spells_of_read htoken heof
      refine .inr ⟨word, hspells, ?_⟩
      rw [← hrest, hsplit, (hwithin.read).rest_eq]

end Token

end LarkCheck
