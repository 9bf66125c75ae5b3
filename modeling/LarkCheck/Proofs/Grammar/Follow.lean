import LarkCheck.Grammar.Expression
import LarkCheck.Proofs.Grammar.Reach
import LarkCheck.Proofs.Tree.Children

/-!
# Where constructs begin and end

A parser of expressions goes on as long as it can, so an expression ends only in
front of a token that does not continue it. The first token of a construct tells
what it is, and three tokens that begin an expression continue one as well.
-/

namespace LarkCheck

open Token LarkCheck.Parser Piece

/-- Whether an expression goes on with the token: with a postfix link, or with an operator that
binds from the rank `r` on. -/
def Token.Kind.continues (r : Nat) (kind : Kind) : Bool :=
  opensPostfix kind ||
    (kind.operator?.bind Operator.level?).any fun level => decide (r ≤ level.rank)

/-- Nothing that binds from the rank `r` on goes on with the token. -/
def Token.Kind.Quiet (r : Nat) (kind : Kind) : Prop :=
  kind.continues r = false

/-- Nothing that binds from the rank `r` on goes on in front of the pieces. -/
def Stops (r : Nat) (ps : List Piece) : Prop :=
  (headKind ps).Quiet r

/-- An expression ends in front of the pieces. -/
def Ends (ps : List Piece) : Prop :=
  Stops 0 ps ∧ headKind ps ≠ .operator .assign

/-- A block ends in front of the pieces. -/
def EndsBlock (ps : List Piece) : Prop :=
  (headKind ps).endsBlock = true

/-- The statement ends in front of the pieces. -/
structure Stmt.Ends (x : Stmt) (ps : List Piece) : Prop where
  expr : x.isOpen = true → LarkCheck.Ends ps
  apart : ∀ p ∈ ps.head?, p.spacing = .line ∨ p.kind.startsExpression = false
  dot : headKind ps ≠ .punctuation .dot

variable {kind : Kind} {ps : List Piece} {r : Nat}

namespace Token.Kind.Quiet

theorem mono {m n : Nat} (h : kind.Quiet m) (hmn : m ≤ n) : kind.Quiet n := by
  obtain ⟨hpost, hlevel⟩ := Bool.or_eq_false_iff.1 h
  refine Bool.or_eq_false_iff.2 ⟨hpost, ?_⟩
  cases hl : kind.operator?.bind Operator.level? with
  | none => rfl
  | some level =>
    simp only [hl, Option.any_some, decide_eq_false_iff_not] at hlevel ⊢
    omega

theorem opensPostfix_eq (h : kind.Quiet r) : opensPostfix kind = false :=
  (Bool.or_eq_false_iff.1 h).1

/-- A chain of the operators that bind from the rank `r` on does not go on with the token. -/
theorem binaryOf?_eq {least : Level} (h : kind.Quiet least.rank) : binaryOf? least kind = none := by
  have hlevel := (Bool.or_eq_false_iff.1 h).2
  rw [Option.eq_none_iff_forall_ne_some]
  rintro ⟨op, level⟩ hop
  obtain ⟨rfl, hl, hle⟩ := binaryOf?_eq_some.1 hop
  simp [Kind.operator?, hl, hle] at hlevel

end Token.Kind.Quiet

/-- A chain ends in front of an operator that does not bind from the rank `r` on. -/
theorem stops_symbol {op : Operator} {level : Level} (hop : op.level? = some level)
    (h : level.rank < r) : Stops r (symbol op :: ps) := by
  simp [Stops, Kind.Quiet, Kind.continues, opensPostfix, Kind.operator?, hop, h]

theorem ends_mark {mark : Punctuation} (h : mark ≠ .lparen ∧ mark ≠ .lbracket ∧ mark ≠ .dot) :
    Ends (Piece.mark mark :: ps) := by
  refine ⟨?_, by simp⟩
  cases mark <;> first | rfl | simp at h

theorem ends_word (kw : Keyword) : Ends (word kw :: ps) :=
  ⟨rfl, by simp⟩

theorem EndsBlock.ends (h : EndsBlock ps) : Ends ps := by
  unfold EndsBlock at h
  unfold Ends Stops
  cases hk : headKind ps <;> rw [hk] at h <;> first | exact ⟨rfl, by simp⟩ | cases h

theorem EndsBlock.startsExpression_eq (h : EndsBlock ps) :
    (headKind ps).startsExpression = false := by
  unfold EndsBlock at h
  cases hk : headKind ps with
  | keyword kw =>
    rw [hk] at h
    cases kw <;> first | rfl | cases h
  | eof => rfl
  | _ =>
    rw [hk] at h
    cases h

theorem EndsBlock.stmt_ends (h : EndsBlock ps) (x : Stmt) : x.Ends ps where
  expr _ := h.ends
  apart p hp := by
    have := h.startsExpression_eq
    cases ps with
    | nil => cases hp
    | cons q ps =>
      cases hp
      exact .inr this
  dot hdot := by
    rw [EndsBlock, hdot] at h
    cases h

/-- Whether a statement can begin with the token. -/
def Token.Kind.startsStatement : Kind → Bool
  | .keyword kw =>
    match kw with
    | .importKw | .ifKw | .caseKw | .whileKw | .forKw | .foreachKw | .breakKw | .nextKw
    | .returnKw => true
    | _ => (Kind.keyword kw).startsExpression
  | kind => kind.startsExpression

theorem startsStatement_of_startsExpression (h : kind.startsExpression = true) :
    kind.startsStatement = true := by
  cases kind with
  | keyword kw => cases kw <;> revert h <;> decide
  | _ => exact h

theorem endsBlock_of_startsStatement (h : kind.startsStatement = true) :
    kind.endsBlock = false := by
  cases kind with
  | keyword kw => cases kw <;> revert h <;> decide
  | eof => cases h
  | _ => rfl

theorem continues_of_startsStatement (h : kind.startsStatement = true)
    (hjoins : kind.joins = false) : kind.continues 0 = false := by
  cases kind with
  | operator op => cases op <;> revert h hjoins <;> decide
  | punctuation mark => cases mark <;> revert h hjoins <;> decide
  | _ => rfl

theorem ne_of_startsStatement (h : kind.startsStatement = true) {other : Kind}
    (hother : other.startsStatement = false) : kind ≠ other := by
  rintro rfl
  rw [hother] at h
  cases h

/-- An expression begins with a token that starts one; what is no operator at its top does not
begin with an operator. -/
theorem Expr.head_pieces (e : Expr) (h : AllNodes Node.Grammatical e.nodes) :
    ∃ p ps, e.pieces = p :: ps ∧ p.kind.startsExpression = true ∧
      (e.isPostfix = true → unaryOf? p.kind = none) := by
  cases e with
  | ident | nil | bool | int | real | string | receiver | array | hash | routine | classDef
  | package | paren => exact ⟨_, _, rfl, rfl, fun _ => rfl⟩
  | index loc object index | call loc object args =>
    obtain ⟨⟨⟨e, rfl, hpost⟩, -⟩, h⟩ := AllNodes.cons_iff.1 h
    obtain ⟨p, ps, heq, hp, hunary⟩ := Expr.head_pieces e (AllNodes.append_iff.1 h).1
    exact ⟨p, _, by rw [Expr.pieces, Expr.slotPieces, heq]; rfl, hp, fun _ => hunary hpost⟩
  | member loc object name =>
    obtain ⟨⟨⟨e, rfl, hpost⟩, -⟩, h⟩ := AllNodes.cons_iff.1 h
    obtain ⟨p, ps, heq, hp, hunary⟩ := Expr.head_pieces e h
    exact ⟨p, _, by rw [Expr.pieces, Expr.slotPieces, heq]; rfl, hp, fun _ => hunary hpost⟩
  | unary loc op operand =>
    obtain ⟨⟨⟨hunary, -⟩, -⟩, -⟩ := AllNodes.cons_iff.1 h
    exact ⟨_, _, rfl, hunary, fun h => nomatch h⟩
  | binary loc level op left right =>
    obtain ⟨⟨⟨-, ⟨e, rfl, -⟩, -⟩, -⟩, h⟩ := AllNodes.cons_iff.1 h
    obtain ⟨p, ps, heq, hp, -⟩ := Expr.head_pieces e (AllNodes.append_iff.1 h).1
    exact ⟨p, _, by rw [Expr.pieces, Expr.slotPieces, heq]; rfl, hp, fun h => nomatch h⟩
  | assign loc target value =>
    obtain ⟨⟨⟨e, rfl, -⟩, -⟩, h⟩ := AllNodes.cons_iff.1 h
    obtain ⟨p, ps, heq, hp, -⟩ := Expr.head_pieces e (AllNodes.append_iff.1 h).1
    exact ⟨p, _, by rw [Expr.pieces, Expr.slotPieces, heq]; rfl, hp, fun h => nomatch h⟩
termination_by e

theorem Stmt.head_pieces {x : Stmt} (h : AllNodes Node.Grammatical x.nodes) :
    ∃ p ps, x.pieces = p :: ps ∧ p.kind.startsStatement = true := by
  cases x with
  | expr loc e =>
    obtain ⟨hfilled, h⟩ := AllNodes.cons_iff.1 h
    obtain ⟨e, rfl⟩ := Option.isSome_iff_exists.1 hfilled
    obtain ⟨p, ps, heq, hp, -⟩ := e.head_pieces h
    exact ⟨p, ps, heq, startsStatement_of_startsExpression hp⟩
  | returnValue loc value => cases value <;> exact ⟨_, _, rfl, rfl⟩
  | _ => exact ⟨_, _, rfl, rfl⟩

section Statements

variable {xs : List Stmt} {rest : List Piece}

/-- In front of statements that do not join an expression, the expression ends. -/
theorem ends_listPieces (h : AllNodes Node.Grammatical (Stmt.listNodes xs))
    (hjoins : xs.head?.any Stmt.joins = false) (hrest : Ends rest) :
    Ends (Stmt.listPieces xs ++ rest) := by
  cases xs with
  | nil => exact hrest
  | cons x xs =>
    obtain ⟨p, ps, heq, hp⟩ := Stmt.head_pieces (AllNodes.append_iff.1 h).1
    have hjoins : p.kind.joins = false := by simpa [Stmt.joins, heq] using hjoins
    rw [Stmt.listPieces, heq]
    exact ⟨continues_of_startsStatement hp hjoins, ne_of_startsStatement hp rfl⟩

/-- A statement ends in front of those after it in its block, and of the end of the block. -/
theorem stmt_ends_listPieces {x : Stmt} (h : AllNodes Node.Grammatical (Stmt.listNodes xs))
    (hapart : x.isOpen = true → xs.head?.any Stmt.joins = false) (hrest : EndsBlock rest) :
    x.Ends (Stmt.listPieces xs ++ rest) := by
  cases xs with
  | nil => exact hrest.stmt_ends x
  | cons y xs =>
    obtain ⟨p, ps, heq, hp⟩ := Stmt.head_pieces (AllNodes.append_iff.1 h).1
    refine ⟨fun hopen => ends_listPieces h (hapart hopen) hrest.ends, ?_, ?_⟩
    · rw [Stmt.listPieces, heq]
      rintro _ ⟨⟩
      exact .inl rfl
    · rw [Stmt.listPieces, heq]
      exact ne_of_startsStatement hp rfl

end Statements

end LarkCheck
