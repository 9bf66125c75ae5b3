import LarkCheck.Proofs.Grammar.Builds.Statements

/-!
# Every program of the grammar is accepted

A text that is printed from a canonical tree is parsed back to this tree, up to its
places, and nothing is reported. Only the guards make exceptions, and they report
so: a construct that nests too deep or a chain that reaches too high.
-/

namespace LarkCheck

open Token

namespace Parser

/-- After the first token of a printed text, the parser stands in front of its pieces. -/
theorem advance_start_faces {ps : List Piece} {text : List Char}
    (htext : Printed ps ('\n' :: text)) (hps : ∀ p ∈ ps, p.kind.Writable) :
    ∃ t s, advance (.start (readings (.start text))) = .ok t s ∧ Faces 0 s ps ∧ s.level = 0 := by
  have bounded : ∀ t items, State.Bounded ⟨t, items, [], 0, 0, 0⟩ :=
    fun _ _ => ⟨Nat.zero_le _, Nat.le_refl _, Nat.zero_le _⟩
  generalize hwhole : '\n' :: text = whole at htext
  cases htext with
  | nil h =>
    subst hwhole
    have hwhite : text.all isWhite = true := (Bool.and_eq_true_iff.1 h).2
    rw [Cursor.start, readings_white hwhite]
    exact ⟨_, _, rfl, ⟨bounded _ _, ⟨rfl, rfl⟩, rfl, rfl⟩, rfl⟩
  | @cons p ps white rest h ht =>
    obtain ⟨hp, hps⟩ := List.forall_mem_cons.1 hps
    -- The first white character is the line break that is not in the text.
    obtain ⟨c, white, rfl⟩ := List.exists_cons_of_ne_nil (ne_nil_of_admits h)
    obtain ⟨rfl, rfl⟩ := List.cons.inj hwhole
    have hwhite : white.all isWhite = true := (Bool.and_eq_true_iff.1 (all_isWhite_of_admits h)).2
    obtain ⟨offset, loc, heq, hline⟩ := readings_spelling hp hwhite ht.ended 0 .start
    have hlaid := ht.laid hps offset loc
    rw [hline] at hlaid
    rw [Cursor.start]
    change ∃ t s,
      advance (.start (readings ⟨white ++ (p.kind.spelling ++ rest), 0, .start⟩)) = _ ∧ _
    rw [heq]
    exact ⟨_, _, rfl, ⟨bounded _ _, ⟨rfl, hlaid⟩, rfl, rfl⟩, rfl⟩

/-- A unit in front of whose text the parser starts is built, if it fits below the guards. -/
theorem unit_builds {unit : Block} (h : unit.Canonical) {text : List Char}
    (htext : unit.Printed text) :
    Reaches .ok (unit.weight.nest ≤ maxNesting ∧ unit.weight.load ≤ maxTreeDepth)
      (fun _ => unit.weight.nest ≤ maxNesting ∧ unit.weight.load ≤ maxTreeDepth)
      (fun unit' => unit'.erase = unit.erase) 0 []
      (Parser.unit (.start (readings (.start text)))) := by
  have hwritable : ∀ p ∈ unit.pieces, p.kind.Writable :=
    fun p hp => h.writable p.kind (List.mem_map_of_mem hp)
  obtain ⟨t, s, hrun, hs, hlevel⟩ := advance_start_faces htext hwritable
  have hi := Nested.builds_ofLevels maxNesting 0 (Nat.zero_add _)
  have body : Gives s unit.weight (fun unit' => unit'.erase = unit.erase) 0 []
      ((do
        let body ← block (.ofLevels maxNesting)
        let next ← current
        if next.kind = .eof then return body else fail .expectedEndOfFile : Parser Block) s) := by
    rw [← List.append_nil unit.pieces] at hs
    refine (block_builds hi h.nodes h.apart s [] hs rfl).before fun b s₁ hb hs₁ => ?_
    refine (current_gives hs₁).read fun next s₂ hnext hs₂ => ?_
    have hk : next.kind = .eof := by
      rw [hnext, hs₁.kind_eq]
      rfl
    rw [if_pos hk]
    exact gives_pure hs₂ hb
  change Reaches _ _ _ _ _ _ (EStateM.bind advance _ _)
  rw [EStateM.bind, hrun]
  have hdepth := hs.depth_eq
  obtain ⟨e, s', hrun', hdeep, hfits⟩ | ⟨unit', s', hrun', hsame, hw, hs'⟩ := body
  · refine .inl ⟨e, s', hrun', hdeep, fun hfits' => hfits ?_⟩
    rwa [Fits, hdepth, hlevel, Nat.zero_add, Nat.zero_add]
  · refine .inr ⟨unit', s', hrun', hsame, ?_, hs'⟩
    have hnest := hw.nest_le
    have hload := hw.load_le
    omega

end Parser

open LarkCheck.Parser

/-- The text of a canonical tree is parsed to the tree without a report, if the tree fits below
the guards, and otherwise the guard is all that is reported. -/
theorem parse_of_printed {unit : Block} (h : unit.Canonical) {text : List Char}
    (htext : unit.Printed text) (log : Log) :
    if unit.weight.nest ≤ maxNesting ∧ unit.weight.load ≤ maxTreeDepth then
      ∃ unit', parse log text = (some unit', log) ∧ unit'.erase = unit.erase
    else
      ∃ loc note, parse log text =
        (none, ⟨log.unit, log.entries ++ [⟨.nestingTooDeep, .error, loc, [note]⟩]⟩) := by
  obtain ⟨e, s, hrun, ⟨loc, note, hnews⟩, hfits⟩ | ⟨unit', s, hrun, hsame, hfits, hs⟩ :=
    unit_builds h htext
  · rw [if_neg hfits]
    refine ⟨loc, note, ?_⟩
    simp only [parse, hrun, hnews]
    rfl
  · rw [if_pos hfits]
    refine ⟨unit', ?_, hsame⟩
    simp [parse, hrun, hs.news_eq, Log.append]

/-- Signs in a row, a `return` before a parenthesis on the next line, and a branch. -/
def signsUnit : Block :=
  let one : Expr := .int .start 1
  let a : Expr := .ident .start "a"
  ⟨.start, [
    .expr .start (some (.assign .start (some a) (some (.binary .start .additive .minus
      (some (.unary .start .minus (some one))) (some a))))),
    .returnValue .start none,
    .expr .start (some (.member .start (some (.paren .start (some a))) "b")),
    .cond .start (some a) (some ⟨.start, [.returnValue .start (some one)]⟩) [] none]⟩

def signsText : List Char :=
  "a = - 1 - a\nreturn\n( a ) . b\nif a\nreturn 1 end".toList

theorem parse_of_printed_signsText :
    ∃ unit', parse (.empty "u") signsText = (some unit', .empty "u") ∧
      unit'.erase = signsUnit.erase := by
  have canonical : signsUnit.Canonical := by decide +kernel
  have printed : signsUnit.Printed signsText := by
    have hprint : '\n' :: signsText = signsUnit.print := by decide +kernel
    rw [Block.Printed, hprint]
    exact Piece.printed_print signsUnit.pieces
  have hfits : signsUnit.weight.nest ≤ maxNesting ∧ signsUnit.weight.load ≤ maxTreeDepth := by
    decide +kernel
  have h := parse_of_printed canonical printed (.empty "u")
  rwa [if_pos hfits] at h

/-- The word `nil` inside of `n` parentheses. -/
def parens : Nat → Expr
  | 0 => .nil .start
  | n + 1 => .paren .start (some (parens n))

def parensUnit (n : Nat) : Block :=
  ⟨.start, [.expr .start (some (parens n))]⟩

/-- The guard of nesting stops a canonical tree that is not even large. -/
theorem parensUnit_not_parsed :
    (parensUnit 63).Canonical ∧ (parensUnit 63).Printed (parensUnit 63).print ∧
      (parse (.empty "u") (parensUnit 63).print).1 = none := by
  have canonical : (parensUnit 63).Canonical := by decide +kernel
  have rejected : (parse (.empty "u") (parensUnit 63).print).1.isNone = true := by decide +kernel
  exact ⟨canonical, Block.printed_print _, Option.isNone_iff_eq_none.1 rejected⟩

end LarkCheck
