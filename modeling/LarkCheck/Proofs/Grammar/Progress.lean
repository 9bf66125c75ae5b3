import LarkCheck.Proofs.Grammar.Balance
import LarkCheck.Proofs.Grammar.Levels

/-!
# Loops of the parser

Each round of a loop takes a token, so a loop ends only where it may not go on. With
that the guard counters and the progress of a parser are told at once: where it can
get to, what its productions leave behind, and that no loop goes on for ever.
-/

namespace LarkCheck

open Token

namespace Parser

variable {α β : Type}

def Succeeds (p : Parser α) (s s' : State) : Prop :=
  ∃ a, p s = .ok a s'

/-- Each round takes a token, and the loop ends where it may not go on. -/
structure Loop (more : State → Bool) (round loop : State → State → Prop) : Prop where
  takes : ∀ s s', s.Ready → more s = true → round s s' → Consumes 1 s s'
  ends : ∀ s s', s.Ready → loop s s' → more s' = false

/-- A link on top of anything. -/
def Links (link : α → Parser α) (s s' : State) : Prop :=
  ∃ a, Succeeds (link a) s s'

abbrev ManyLoop (more : State → Bool) (item : Parser α) : Prop :=
  Loop more (Succeeds item) (Succeeds (many more item))

abbrev LinksLoop (more : State → Bool) (link : α → Parser α) : Prop :=
  Loop more (Links link) (Links (links more link))

variable {more : State → Bool}

theorem Consumes.size_lt_of_runs {p : Parser α} {s s' : State} {a : α} (h : Consumes 1 s s')
    (hruns : Keeps Moves Quits p) (hp : p s = .ok a s') : s'.ahead.size < s.ahead.size := by
  have hkept := hruns s
  rw [hp] at hkept
  exact h.size_lt hkept.of_ok.advanced

/-- The guard of a repetition against rounds that take nothing is never needed. -/
theorem many_loop {item : Parser α} (hruns : Keeps Moves Quits item)
    (htakes : ∀ s a s', s.Ready → more s = true → item s = .ok a s' → Consumes 1 s s') :
    ManyLoop more item where
  takes s s' hs hm := by
    rintro ⟨a, h⟩
    exact htakes s a s' hs hm h
  ends s s' hs := by
    rintro ⟨as, h⟩
    fun_induction many more item s generalizing as with
    | case1 s hm a s₁ ha _ rest s₂ hrest ih =>
      cases h
      exact ih (htakes _ _ _ hs hm ha).ready rest hrest
    | case2 => cases h
    | case3 s hm a s₁ ha hnot =>
      exact absurd ((htakes _ _ _ hs hm ha).size_lt_of_runs hruns ha) hnot
    | case4 => cases h
    | case5 s hm =>
      cases h
      simpa using hm

theorem Balanced.loop {item : Parser α} (hitem : Balanced 1 item) :
    ManyLoop more item :=
  many_loop hitem.runs fun s a s' hs _ h => (hitem.returns s a s' hs h).toConsumes

theorem links_loop {link : α → Parser α} (hruns : ∀ a, Keeps Moves Quits (link a))
    (htakes : ∀ a s b s', s.Ready → more s = true → link a s = .ok b s' → Consumes 1 s s') :
    LinksLoop more link where
  takes s s' hs hm := by
    rintro ⟨a, b, h⟩
    exact htakes a s b s' hs hm h
  ends s s' hs := by
    rintro ⟨a, b, h⟩
    refine (links_ends (I := fun _ s => s.Ready) (fun a b s s' hs hm h => ?_) hs h).2
    have hround := htakes a s b s' hs hm h
    exact ⟨hround.ready, hround.size_lt_of_runs (hruns a) h⟩

section Rounds

variable {inner : Nested}

/-- An item behind a mark. -/
theorem Balanced.behind {item : Parser α} (hitem : Balanced 1 item) :
    Balanced 1 (do let _ ← advance; item) :=
  advance_balanced.bind fun _ => hitem

/-- A section may be empty, but the word before it is taken. -/
theorem furtherSection_consumes (hi : Known inner) {s s' : State} {x : Section} (hs : s.Ready)
    (hm : (accessOf? s.current.kind).isSome = true) (h : furtherSection inner s = .ok x s') :
    Consumes 1 s s' :=
  .of_spans (furtherSection_spans hi.reads hs hm h) (by simp)

theorem furtherSection_moves (hi : Known inner) : Keeps Moves Quits (furtherSection inner) :=
  stepLaw_moves.bind stepLaw_moves.advance fun _ => stepLaw_moves.sectionBody_keeps hi.keeps _

theorem elseifBranch_balanced (hi : Known inner) : Balanced 1 (elseifBranch inner) :=
  advance_balanced.bind fun _ => hi.balanced.expr.bind fun _ =>
    (block_balanced hi).bind fun _ => .pure _

theorem whenClause_balanced (hi : Known inner) : Balanced 1 (whenClause inner) := by
  have hparts : Balanced 3 (whenClause inner) :=
    (expect_balanced (by simp) rfl).bind fun _ => hi.balanced.expr.bind fun _ =>
      (expect_balanced (by simp) rfl).bind fun _ => (block_balanced hi).bind fun _ => .pure _
  exact hparts.mono (by decide)

/-- Going up to the level of a link takes nothing; what stands in the link does. -/
theorem raise_bind_consumes {p : Parser α} (hp : Balanced 1 p) {s s' : State} {a : α}
    (hs : s.Ready) (h : (do raise; p) s = .ok a s') : Consumes 1 s s' := by
  obtain ⟨u, s₁, h₁, h₂⟩ := bind_eq_ok.1 h
  have hready := (raise_ready hs h₁).1
  obtain ⟨-, rfl⟩ := raise_eq_ok h₁
  have hlink := hp.returns _ _ _ hready h₂
  exact ⟨hlink.ready, hlink.consumed⟩

theorem postfixLink_consumes (hi : Known inner) {e e' : Expr} {s s' : State} (hs : s.Ready)
    (h : postfixLink inner e s = .ok e' s') : Consumes 1 s s' := by
  refine raise_bind_consumes ?_ hs h
  refine Balanced.mono (n := 0 + 1) (advance_balanced.bind fun mark => ?_) (Nat.le_refl _)
  split
  · exact (exprsTo_balanced hi _ rfl).bind fun _ => .pure _
  · have hparts : Balanced 2 (do
        let index ← inner.expr
        let _ ← expect (.punctuation .rbracket) .expectedRightBracket
        return Expr.index e.loc (some e) (some index)) :=
      hi.balanced.expr.bind fun _ => (expect_balanced (by simp) rfl).bind fun _ => .pure _
    exact hparts.mono (by decide)
  · exact identifier_balanced.bind fun _ => .pure _

theorem binaryLink_consumes (hi : Known inner) {least : Level} {left e : Expr} {s s' : State}
    (hs : s.Ready) (hm : (binaryOf? least s.current.kind).isSome = true)
    (h : binaryLink inner least left s = .ok e s') : Consumes 1 s s' := by
  obtain ⟨op, level, -, -, -, t, s₁, u, s₂, right, h₁, h₂, h₃, rfl⟩ := binaryLink_eq_ok hm h
  have hsymbol := (advance_balanced.returns _ _ _ hs h₁).toConsumes
  have hready := (raise_ready hsymbol.ready h₂).1
  obtain ⟨-, rfl⟩ := raise_eq_ok h₂
  have hoperand := (rightOperand_balanced hi level).returns _ _ _ hready h₃
  exact hsymbol.trans ⟨hoperand.ready, hoperand.consumed⟩

end Rounds

/-- No loop goes on for ever: those of blocks and lists, of what statements and classes repeat, and
of chains. -/
structure Loops (inner : Nested) : Prop where
  block : ManyLoop (fun s => !s.current.kind.endsBlock) inner.stmt
  exprs : ManyLoop (·.isAt (.punctuation .comma)) do let _ ← advance; inner.expr
  params : ManyLoop (·.isAt (.punctuation .comma)) do let _ ← advance; param inner
  pairs : ManyLoop (·.isAt (.punctuation .comma)) do let _ ← advance; pair inner
  includes : ManyLoop (·.isAt (.punctuation .comma)) do let _ ← advance; identifier
  path : ManyLoop (·.isAt (.punctuation .dot)) do let _ ← advance; identifier
  sections : ManyLoop (fun s => (accessOf? s.current.kind).isSome) (furtherSection inner)
  elseifs : ManyLoop (·.isAt (.keyword .elseifKw)) (elseifBranch inner)
  whens : ManyLoop (·.isAt (.keyword .whenKw)) (whenClause inner)
  postfixed : LinksLoop (fun s => opensPostfix s.current.kind) (postfixLink inner)
  binary : ∀ least, LinksLoop (fun s => (binaryOf? least s.current.kind).isSome)
    (binaryLink inner least)

theorem Known.productions {inner : Nested} (hi : Known inner) : Productions inner where
  statement := stmt_balanced hi
  assignment := assignment_balanced hi
  binary := climb_balanced hi
  unary := unary_balanced hi
  postfixed := postfixed_balanced hi
  primary := primary_balanced hi
  block := block_balanced hi
  exprs := exprList_balanced hi
  params := paramList_balanced hi
  pairs := pairList_balanced hi
  includes := includes_balanced
  routine := routine_balanced hi
  classDef := classDef_balanced hi
  package := package_balanced hi
  array := array_balanced hi
  hash := hash_balanced hi
  paren := paren_balanced hi

theorem Known.loops {inner : Nested} (hi : Known inner) : Loops inner where
  block := hi.balanced.stmt.loop
  exprs := hi.balanced.expr.behind.loop
  params := (param_balanced hi).behind.loop
  pairs := (pair_balanced hi).behind.loop
  includes := identifier_balanced.behind.loop
  path := identifier_balanced.behind.loop
  sections := many_loop (furtherSection_moves hi) fun _ _ _ hs hm h =>
    furtherSection_consumes hi hs hm h
  elseifs := (elseifBranch_balanced hi).loop
  whens := (whenClause_balanced hi).loop
  postfixed := links_loop (stepLaw_moves.postfixLink_keeps hi.keeps) fun _ _ _ _ hs _ h =>
    postfixLink_consumes hi hs h
  binary _ := links_loop (stepLaw_moves.binaryLink_keeps fun level _ =>
    (rightOperand_balanced hi level).runs) fun _ _ _ _ hs hm h => binaryLink_consumes hi hs hm h

/-- Wherever a parser can get to, the counters are within the guards and suffice for what is still
to be left, whether it has stopped or not. Every production runs through such states, what it has
behind a guard or in a chain included; where it succeeds it has balanced the counters, and taken a
token unless it is a block or a list. No loop goes on for ever, and the nesting productions recur
only as far as the guard lets them. -/
theorem guards_balanced :
    (∀ text c, Reachable text c →
      c.state.depth ≤ 64 ∧ c.state.level ≤ c.state.peak ∧ c.state.peak ≤ 256 ∧
      (∀ begun, c.begun = .nest :: begun → 0 < c.state.depth ∧ 0 < c.state.level) ∧
      (c.stopped = false → c.state.ahead.items ≠ readings (.start text) → c.state.Ready)) ∧
    Guarded ∧ Keeps Moves Quits unit ∧
    (∀ levels, (Nested.ofLevels levels).Balanced ∧ Productions (.ofLevels levels) ∧
      Loops (.ofLevels levels)) ∧
    (Nested.ofLevels maxNesting).Recurs := by
  refine ⟨?_, guarded, stepLaw_moves.unit_keeps, ?_, Nested.recurs_ofLevels (Nat.le_refl _)⟩
  · intro text c hc
    have hsound := hc.sound
    refine ⟨hsound.depth_le, hsound.level_le, hsound.peak_le, ?_, ?_⟩
    · intro begun hbegun
      exact hsound.leaves hbegun
    · intro hgoes hfirst
      exact hsound.ready hgoes hfirst
  · intro levels
    have hi := known_ofLevels levels
    exact ⟨hi.balanced, hi.productions, hi.loops⟩

end Parser

end LarkCheck
