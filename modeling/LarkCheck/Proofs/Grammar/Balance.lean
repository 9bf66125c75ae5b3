import LarkCheck.Proofs.Grammar.Counters
import LarkCheck.Proofs.Grammar.Follow
import LarkCheck.Proofs.Grammar.Nodes

/-!
# Balance and progress

A production that succeeds leaves the counters where it found them and has taken a
token, except for blocks and lists, which may be empty. So no round of a loop leaves
the parser where it was: a loop ends only where it may not go on, and the readings
that are left bound the number of its rounds.
-/

namespace LarkCheck

open Token

namespace Parser

variable {α β : Type}

/-- At least so many tokens were taken from `s` to `s'`. -/
structure Consumes (least : Nat) (s s' : State) : Prop where
  ready : s'.Ready
  consumed : ∃ taken, s.tokens = taken ++ s'.tokens ∧ least ≤ taken.length

/-- The counters are back where they were, and no peak was forgotten. -/
structure Balances (least : Nat) (s s' : State) : Prop extends Consumes least s s' where
  depth_eq : s'.depth = s.depth
  level_eq : s'.level = s.level
  peak_le : s.peak ≤ s'.peak

section Relations

variable {s s₁ s₂ s' : State} {m n least : Nat}

theorem Consumes.of_spans {ps : List Piece} {w : Weight} (h : Spans s ps w s')
    (hleast : least ≤ ps.length) : Consumes least s s' where
  ready := h.ready
  consumed := by
    obtain ⟨taken, htaken⟩ := h.suffix
    have hkinds := congrArg List.length h.kinds_eq
    have htokens := congrArg List.length htaken
    simp only [State.kinds, List.length_map, List.length_append] at hkinds htokens
    exact ⟨taken, htaken.symm, by omega⟩

theorem Consumes.trans (h : Consumes m s s₁) (h' : Consumes n s₁ s₂) :
    Consumes (m + n) s s₂ where
  ready := h'.ready
  consumed := by
    obtain ⟨taken, htaken, hm⟩ := h.consumed
    obtain ⟨further, hfurther, hn⟩ := h'.consumed
    rw [htaken, hfurther, ← List.append_assoc]
    refine ⟨_, rfl, ?_⟩
    rw [List.length_append]
    exact Nat.add_le_add hm hn

theorem Consumes.mono (h : Consumes n s s') (hle : m ≤ n) : Consumes m s s' where
  ready := h.ready
  consumed := by
    obtain ⟨taken, htaken, hn⟩ := h.consumed
    exact ⟨taken, htaken, Nat.le_trans hle hn⟩

/-- A token more that was taken is a reading less ahead. -/
theorem Consumes.size_lt (h : Consumes 1 s s') (hadvanced : Advanced s s') :
    s'.ahead.size < s.ahead.size := by
  obtain ⟨taken, htaken, hpos⟩ := h.consumed
  obtain ⟨rs, htook⟩ := hadvanced
  have hahead := congrArg List.length htook.ahead_eq
  have htokens := congrArg List.length htaken
  rw [s.ahead.size_eq, s'.ahead.size_eq]
  cases rs with
  | nil =>
    simp only [State.tokens, htook.ahead_eq, List.nil_append, List.length_cons,
      List.length_append] at htokens
    omega
  | cons r rs =>
    rw [List.length_append, List.length_cons] at hahead
    omega

theorem Balances.of_spans {ps : List Piece} {w : Weight} (h : Spans s ps w s')
    (hleast : least ≤ ps.length) : Balances least s s' where
  toConsumes := .of_spans h hleast
  depth_eq := h.depth_eq
  level_eq := h.level_eq
  peak_le := by
    rw [h.peak_eq]
    exact Nat.le_max_left _ _

theorem Balances.refl (hs : s.Ready) : Balances 0 s s :=
  .of_spans (.refl hs) (Nat.zero_le _)

theorem Balances.trans (h : Balances m s s₁) (h' : Balances n s₁ s₂) :
    Balances (m + n) s s₂ where
  toConsumes := h.toConsumes.trans h'.toConsumes
  depth_eq := h'.depth_eq.trans h.depth_eq
  level_eq := h'.level_eq.trans h.level_eq
  peak_le := Nat.le_trans h.peak_le h'.peak_le

theorem Balances.mono (h : Balances n s s') (hle : m ≤ n) : Balances m s s' where
  toConsumes := h.toConsumes.mono hle
  depth_eq := h.depth_eq
  level_eq := h.level_eq
  peak_le := h.peak_le

end Relations

/-- Every run is one of the machine, and where it succeeds the counters are balanced and at least so
many tokens were taken. -/
structure Balanced (least : Nat) (p : Parser α) : Prop where
  runs : Keeps Moves Quits p
  returns : ∀ s a s', s.Ready → p s = .ok a s' → Balances least s s'

namespace Balanced

variable {p : Parser α} {m n : Nat}

theorem mono (h : Balanced n p) (hle : m ≤ n) : Balanced m p where
  runs := h.runs
  returns s a s' hs hp := (h.returns s a s' hs hp).mono hle

theorem pure (a : α) : Balanced 0 (Pure.pure a : Parser α) where
  runs := stepLaw_moves.pure a
  returns s b s' hs h := by
    obtain ⟨-, rfl⟩ := pure_eq_ok.1 h
    exact .refl hs

theorem bind {f : α → Parser β} (hp : Balanced m p) (hf : ∀ a, Balanced n (f a)) :
    Balanced (m + n) (p >>= f) where
  runs := stepLaw_moves.bind hp.runs fun a => (hf a).runs
  returns s b s' hs h := by
    obtain ⟨a, s₁, h₁, h₂⟩ := bind_eq_ok.1 h
    have hfirst := hp.returns _ _ _ hs h₁
    exact hfirst.trans ((hf a).returns _ _ _ hfirst.ready h₂)

/-- What a parser reads is balanced, and no fewer tokens than its pieces are taken. -/
theorem of_reads {pieces : α → List Piece} {weight : α → Weight} (hruns : Keeps Moves Quits p)
    (hreads : Reads p pieces weight)
    (hleast : ∀ s a s', s.Ready → p s = .ok a s' → n ≤ (pieces a).length) : Balanced n p where
  runs := hruns
  returns s a s' hs h := .of_spans (hreads s a s' hs h) (hleast s a s' hs h)

end Balanced

theorem advance_balanced : Balanced 0 advance where
  runs := advance_moves
  returns s t s' hs h := by
    by_cases heof : s.current.kind = .eof
    · rw [advance_eof hs.synced heof] at h
      cases h
      exact .refl hs
    · exact .of_spans (advance_spans hs rfl heof h).2 (Nat.zero_le _)

theorem expect_balanced {kind : Kind} {code : Diagnostic.Code} (hne : kind ≠ .eof)
    (hcode : code.isSyntax = true) : Balanced 1 (expect kind code) where
  runs := stepLaw_moves.expect_keeps kind hcode
  returns _ _ _ hs h := .of_spans (expect_spans hs hne h).2 (Nat.le_refl _)

theorem identifier_balanced : Balanced 1 identifier where
  runs := stepLaw_moves.identifier_keeps
  returns _ _ _ hs h := .of_spans (identifier_spans hs h) (Nat.le_refl _)

theorem after?_balanced {kind : Kind} {p : Parser α} {n : Nat} (hp : Balanced n p) :
    Balanced 0 (after? kind p) where
  runs := stepLaw_moves.after?_keeps kind hp.runs
  returns s o s' hs h := by
    unfold after? at h
    split at h
    · simp only [bind_eq_ok, map_eq_ok] at h
      obtain ⟨t, s₁, h₁, a, h₂, -⟩ := h
      have hword := advance_balanced.returns _ _ _ hs h₁
      exact (hword.trans (hp.returns _ _ _ hword.ready h₂)).mono (Nat.zero_le _)
    · simp only [EStateM.Result.ok.injEq] at h
      obtain ⟨-, rfl⟩ := h
      exact .refl hs

end Parser

theorem Expr.one_le_length_pieces (e : Expr) : 1 ≤ e.pieces.length := by
  cases e <;> simp [Expr.pieces] <;> omega

theorem Param.one_le_length_pieces (p : Param) : 1 ≤ p.pieces.length := by
  rcases p with ⟨_, _, _ | _⟩ | ⟨_, _⟩ <;> simp [Param.pieces]

theorem Stmt.one_le_length_pieces {x : Stmt} (h : AllGrammatical x.nodes) :
    1 ≤ x.pieces.length := by
  obtain ⟨p, ps, hpieces, -⟩ := Stmt.head_pieces h
  simp [hpieces]

/-- The nesting productions are balanced and take a token. -/
structure Nested.Balanced (inner : Nested) : Prop where
  stmt : Parser.Balanced 1 inner.stmt
  expr : Parser.Balanced 1 inner.expr
  unary : Parser.Balanced 1 inner.unary

namespace Parser

/-- What is known of every run of the nesting productions: the steps it takes, the pieces it reads
and the nodes it gives. -/
structure Known (inner : Nested) : Prop where
  keeps : inner.Keeps Moves Quits
  reads : inner.Reads
  ensures : inner.Ensures

theorem known_ofLevels (levels : Nat) : Known (.ofLevels levels) where
  keeps := stepLaw_moves.nested_ofLevels levels
  reads := Nested.reads_ofLevels levels
  ensures := Nested.ensures_ofLevels levels

section Productions

variable {inner : Nested}

theorem Known.balanced (hi : Known inner) : inner.Balanced where
  stmt := .of_reads hi.keeps.stmt hi.reads.stmt fun s x s' hs h =>
    Stmt.one_le_length_pieces (hi.ensures.stmt s x s' hs.synced h).2
  expr := .of_reads hi.keeps.expr hi.reads.expr fun _ e _ _ _ => e.one_le_length_pieces
  unary := .of_reads hi.keeps.unary hi.reads.unary fun _ e _ _ _ => e.one_le_length_pieces

theorem block_balanced (hi : Known inner) : Balanced 0 (block inner) :=
  .of_reads (stepLaw_moves.block_keeps hi.keeps) (block_spans hi.reads) fun _ _ _ _ _ =>
    Nat.zero_le _

theorem blockToEnd_balanced (hi : Known inner) : Balanced 1 (blockToEnd inner) :=
  (block_balanced hi).bind fun _ => (expect_balanced (by simp) rfl).bind fun _ => .pure _

theorem param_balanced (hi : Known inner) : Balanced 1 (param inner) :=
  .of_reads (stepLaw_moves.param_keeps hi.keeps) (param_spans hi.reads) fun _ p _ _ _ =>
    p.one_le_length_pieces

theorem paramList_balanced (hi : Known inner) :
    Balanced 0 (separatedUntil .rparen (param inner)) :=
  .of_reads (stepLaw_moves.separatedUntil_keeps _ (stepLaw_moves.param_keeps hi.keeps))
    (separatedUntil_spans separated_params (param_spans hi.reads) _) fun _ _ _ _ _ => Nat.zero_le _

theorem params_balanced (hi : Known inner) : Balanced 2 (params inner) :=
  (expect_balanced (by simp) rfl).bind fun _ => (paramList_balanced hi).bind fun _ =>
    (expect_balanced (by simp) rfl).bind fun _ => .pure _

theorem exprList_balanced (hi : Known inner) (close : Punctuation) :
    Balanced 0 (separatedUntil close inner.expr) :=
  .of_reads (stepLaw_moves.separatedUntil_keeps _ hi.keeps.expr)
    (separatedUntil_spans separated_exprs hi.reads.expr _) fun _ _ _ _ _ => Nat.zero_le _

theorem exprsTo_balanced (hi : Known inner) (close : Punctuation) {code : Diagnostic.Code}
    (hcode : code.isSyntax = true) : Balanced 1 (exprsTo inner close code) :=
  (exprList_balanced hi close).bind fun _ =>
    (expect_balanced (by simp) hcode).bind fun _ => .pure _

theorem routine_balanced (hi : Known inner) : Balanced 1 (routine inner) := by
  have hrest : Balanced 3 (routine inner) :=
    advance_balanced.bind fun _ => (params_balanced hi).bind fun _ =>
      (blockToEnd_balanced hi).bind fun _ => .pure _
  exact hrest.mono (by decide)

theorem pair_balanced (hi : Known inner) : Balanced 1 (pair inner) := by
  have hparts : Balanced 3 (pair inner) :=
    hi.balanced.expr.bind fun _ => (expect_balanced (by simp) rfl).bind fun _ =>
      hi.balanced.expr.bind fun _ => .pure _
  exact hparts.mono (by decide)

theorem pairList_balanced (hi : Known inner) : Balanced 0 (separatedUntil .rbrace (pair inner)) :=
  .of_reads (stepLaw_moves.separatedUntil_keeps _ (stepLaw_moves.pair_keeps hi.keeps))
    (separatedUntil_spans separated_pairs (pair_spans hi.reads) _) fun _ _ _ _ _ => Nat.zero_le _

theorem base_balanced (hi : Known inner) : Balanced 3 (base inner) :=
  identifier_balanced.bind fun _ => (expect_balanced (by simp) rfl).bind fun _ =>
    (exprsTo_balanced hi _ rfl).bind fun _ => .pure _

theorem includes_balanced : Balanced 0 (separated identifier) :=
  .of_reads (stepLaw_moves.separated_keeps stepLaw_moves.identifier_keeps)
    (separated_spans separated_names fun _ _ _ hs h => identifier_spans hs h)
    fun _ _ _ _ _ => Nat.zero_le _

theorem sections_balanced (hi : Known inner) : Balanced 0 (sections inner) :=
  .of_reads (stepLaw_moves.sections_keeps hi.keeps) (sections_spans hi.reads) fun _ _ _ _ _ =>
    Nat.zero_le _

theorem classDef_balanced (hi : Known inner) : Balanced 1 (classDef inner) := by
  have hparts : Balanced 4 (classDef inner) :=
    advance_balanced.bind fun _ => identifier_balanced.bind fun _ =>
      (params_balanced hi).bind fun _ => (after?_balanced (base_balanced hi)).bind fun _ =>
        (after?_balanced includes_balanced).bind fun _ => (sections_balanced hi).bind fun _ =>
          (expect_balanced (by simp) rfl).bind fun _ => .pure _
  exact hparts.mono (by decide)

theorem package_balanced (hi : Known inner) : Balanced 1 (package inner) := by
  have hparts : Balanced 2 (package inner) :=
    advance_balanced.bind fun _ => identifier_balanced.bind fun _ =>
      (blockToEnd_balanced hi).bind fun _ => .pure _
  exact hparts.mono (by decide)

theorem array_balanced (hi : Known inner) : Balanced 1 (array inner) :=
  advance_balanced.bind fun _ => (exprsTo_balanced hi _ rfl).bind fun _ => .pure _

theorem hash_balanced (hi : Known inner) : Balanced 1 (hash inner) :=
  advance_balanced.bind fun _ => (pairList_balanced hi).bind fun _ =>
    (expect_balanced (by simp) rfl).bind fun _ => .pure _

theorem paren_balanced (hi : Known inner) : Balanced 1 (paren inner) := by
  have hparts : Balanced 2 (paren inner) :=
    advance_balanced.bind fun _ => hi.balanced.expr.bind fun _ =>
      (expect_balanced (by simp) rfl).bind fun _ => .pure _
  exact hparts.mono (by decide)

theorem primary_balanced (hi : Known inner) : Balanced 1 (primary inner) :=
  .of_reads (stepLaw_moves.primary_keeps hi.keeps) (primary_spans hi.reads) fun _ e _ _ _ =>
    e.one_le_length_pieces

theorem postfixed_balanced (hi : Known inner) : Balanced 1 (postfixed inner) :=
  .of_reads (stepLaw_moves.postfixed_keeps hi.keeps) (postfixed_spans hi.reads) fun _ e _ _ _ =>
    e.one_le_length_pieces

theorem unary_balanced (hi : Known inner) : Balanced 1 (unary inner) :=
  .of_reads (stepLaw_moves.unary_keeps hi.keeps) (unary_spans hi.reads) fun _ e _ _ _ =>
    e.one_le_length_pieces

theorem climb_balanced (hi : Known inner) (least : Level) : Balanced 1 (climb inner least) :=
  .of_reads (stepLaw_moves.climb_keeps hi.keeps least) (climb_spans hi.reads least)
    fun _ e _ _ _ => e.one_le_length_pieces

theorem rightOperand_balanced (hi : Known inner) (level : Level) :
    Balanced 1 (rightOperand inner level) :=
  rightOperand_of_climb (P := fun _ p => Balanced 1 p) (unary_balanced hi) (climb_balanced hi) level

theorem assignment_balanced (hi : Known inner) : Balanced 1 (assignment inner) :=
  .of_reads (stepLaw_moves.assignment_keeps hi.keeps) (assignment_spans hi.reads) fun _ e _ _ _ =>
    e.one_le_length_pieces

theorem stmt_balanced (hi : Known inner) : Balanced 1 (stmt inner) :=
  .of_reads (stepLaw_moves.stmt_keeps hi.keeps) (stmt_spans hi.reads) fun s x s' hs h =>
    Stmt.one_le_length_pieces (stmt_ensures hi.ensures s x s' hs.synced h).2

end Productions

/-- Every production is balanced; only a block or a list may be empty. -/
structure Productions (inner : Nested) : Prop where
  statement : Balanced 1 (stmt inner)
  assignment : Balanced 1 (assignment inner)
  binary : ∀ least, Balanced 1 (climb inner least)
  unary : Balanced 1 (unary inner)
  postfixed : Balanced 1 (postfixed inner)
  primary : Balanced 1 (primary inner)
  block : Balanced 0 (block inner)
  exprs : ∀ close, Balanced 0 (separatedUntil close inner.expr)
  params : Balanced 0 (separatedUntil .rparen (param inner))
  pairs : Balanced 0 (separatedUntil .rbrace (pair inner))
  includes : Balanced 0 (separated identifier)
  routine : Balanced 1 (routine inner)
  classDef : Balanced 1 (classDef inner)
  package : Balanced 1 (package inner)
  array : Balanced 1 (array inner)
  hash : Balanced 1 (hash inner)
  paren : Balanced 1 (paren inner)

end Parser

end LarkCheck
