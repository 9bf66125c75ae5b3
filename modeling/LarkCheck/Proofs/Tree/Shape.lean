import LarkCheck.Tree.Nodes

/-!
# The shape of a tree

What the grammar asks of a single node: its operands bind tightly enough for its
operator, its required children are there, and its lists are long enough. A tree
has the shape of the grammar if all its nodes have it.
-/

namespace LarkCheck

namespace Expr

def isAssignment : Expr → Bool
  | assign .. => true
  | _ => false

/-- Neither unary, binary nor an assignment: a literal, a name, something in parentheses, or a
call, index or member access. -/
def isPostfix : Expr → Bool
  | unary .. | binary .. | assign .. => false
  | _ => true

/-- A link of a chain: a call, an index or a member access. -/
def isLink : Expr → Bool
  | index .. | call .. | member .. => true
  | _ => false

/-- No assignment, and if binary then of a level from `rank` on. -/
def BindsFrom (rank : Nat) (e : Expr) : Prop :=
  e.isAssignment = false ∧ ∀ level, e.level? = some level → rank ≤ level.rank

/-- The level of a binary node is that of its operator. Its left operand binds at least as
tightly and its right operand more tightly; the operands of the other operators bind more tightly
than any binary node does. -/
def Laddered : Expr → Prop
  | binary _ level op left right =>
    op.level? = some level ∧ (∃ e, left = some e ∧ e.BindsFrom level.rank) ∧
      ∃ e, right = some e ∧ e.BindsFrom (level.rank + 1)
  | unary _ op operand =>
    op.isUnary = true ∧ ∃ e, operand = some e ∧ e.isAssignment = false ∧ e.level? = none
  | index _ object _ | call _ object _ | member _ object _ =>
    ∃ e, object = some e ∧ e.isPostfix = true
  | assign _ target _ => ∃ e, target = some e ∧ e.isAssignable = true
  | _ => True

theorem BindsFrom.mono {m n : Nat} {e : Expr} (h : e.BindsFrom n) (hmn : m ≤ n) :
    e.BindsFrom m :=
  ⟨h.1, fun level hl => Nat.le_trans hmn (h.2 level hl)⟩

theorem bindsFrom_of_level?_eq_none {n : Nat} {e : Expr} (ha : e.isAssignment = false)
    (hl : e.level? = none) : e.BindsFrom n :=
  ⟨ha, fun level h => by rw [hl] at h; cases h⟩

theorem bindsFrom_binary {n : Nat} {loc : Location} {level : Level} {op : Operator}
    {left right : Option Expr} (h : n ≤ level.rank) :
    (binary loc level op left right).BindsFrom n :=
  ⟨rfl, fun l hl => by cases hl; exact h⟩

/-- The rank from which on the last operand of an expression binds. That of a binary expression is
its right operand; any other expression can itself be an operand of all operators. -/
def lastRank (e : Expr) : Nat :=
  e.level?.elim 9 (·.rank + 1)

theorem BindsFrom.lt_lastRank {level : Level} {e : Expr} (h : e.BindsFrom level.rank) :
    level.rank < e.lastRank := by
  unfold lastRank
  cases hl : e.level? with
  | none => exact level.rank_lt
  | some own => exact Nat.lt_succ_of_le (h.2 own hl)

theorem bindsFrom_of_isAssignable {n : Nat} {e : Expr} (h : e.isAssignable = true) :
    e.BindsFrom n := by
  cases e with
  | ident | member | index => exact bindsFrom_of_level?_eq_none rfl rfl
  | _ => cases h

theorem not_operator_of_isPostfix {e : Expr} (h : e.isPostfix = true) :
    e.isAssignment = false ∧ e.level? = none := by
  cases e <;> first | exact ⟨rfl, rfl⟩ | cases h

end Expr

def Branch.Filled (b : Branch) : Prop :=
  b.test.isSome = true ∧ b.body.isSome = true

/-- The children that precedence says nothing about are there, and the first section of a class
is public. -/
def Expr.Filled : Expr → Prop
  | .hash _ pairs => ∀ p ∈ pairs, p.key.isSome = true ∧ p.value.isSome = true
  | .routine _ _ body | .package _ _ body => body.isSome = true
  | .classDef _ _ _ _ _ sections =>
    sections.head?.map (·.access) = some .publicPart ∧ ∀ x ∈ sections, x.body.isSome = true
  | .paren _ inner => inner.isSome = true
  | .index _ _ place => place.isSome = true
  | .assign _ _ value => value.isSome = true
  | _ => True

/-- The required children are there, an import has a path and a `case` has a clause. -/
def Stmt.Filled : Stmt → Prop
  | .importPath _ path => path ≠ []
  | .expr _ e => e.isSome = true
  | .cond _ test body elseifs _ =>
    test.isSome = true ∧ body.isSome = true ∧ ∀ b ∈ elseifs, b.Filled
  | .case _ subject whens _ => subject.isSome = true ∧ whens ≠ [] ∧ ∀ b ∈ whens, b.Filled
  | .whileLoop _ test body => test.isSome = true ∧ body.isSome = true
  | .forLoop _ init test step body =>
    init.isSome = true ∧ test.isSome = true ∧ step.isSome = true ∧ body.isSome = true
  | .foreachLoop _ _ collection body => collection.isSome = true ∧ body.isSome = true
  | .breakLoop _ | .nextRound _ | .returnValue _ _ => True

/-- What the grammar asks of a node. -/
def Node.Grammatical : Node → Prop
  | expr e => e.Laddered ∧ e.Filled
  | stmt x => x.Filled

instance (rank : Nat) (e : Expr) : Decidable (e.BindsFrom rank) :=
  inferInstanceAs (Decidable (e.isAssignment = false ∧ ∀ level ∈ e.level?, rank ≤ level.rank))

instance (e : Expr) : Decidable e.Laddered :=
  match e with
  | .binary _ level op left right =>
    inferInstanceAs (Decidable (op.level? = some level ∧ (∃ e ∈ left, e.BindsFrom level.rank) ∧
      ∃ e ∈ right, e.BindsFrom (level.rank + 1)))
  | .unary _ op operand =>
    inferInstanceAs (Decidable (op.isUnary = true ∧
      ∃ e ∈ operand, e.isAssignment = false ∧ e.level? = none))
  | .index _ object _ | .call _ object _ | .member _ object _ =>
    inferInstanceAs (Decidable (∃ e ∈ object, e.isPostfix = true))
  | .assign _ target _ => inferInstanceAs (Decidable (∃ e ∈ target, e.isAssignable = true))
  | .ident .. | .nil _ | .bool .. | .int .. | .real .. | .string .. | .receiver _ | .array ..
  | .hash .. | .routine .. | .classDef .. | .package .. | .paren .. =>
    inferInstanceAs (Decidable True)

instance (b : Branch) : Decidable b.Filled :=
  inferInstanceAs (Decidable (_ ∧ _))

instance (e : Expr) : Decidable e.Filled :=
  match e with
  | .hash _ pairs =>
    inferInstanceAs (Decidable (∀ p ∈ pairs, p.key.isSome = true ∧ p.value.isSome = true))
  | .classDef _ _ _ _ _ sections =>
    inferInstanceAs (Decidable (sections.head?.map (·.access) = some .publicPart ∧
      ∀ x ∈ sections, x.body.isSome = true))
  | .routine _ _ body | .package _ _ body => inferInstanceAs (Decidable (body.isSome = true))
  | .paren _ slot | .index _ _ slot | .assign _ _ slot =>
    inferInstanceAs (Decidable (slot.isSome = true))
  | .ident .. | .nil _ | .bool .. | .int .. | .real .. | .string .. | .receiver _ | .array ..
  | .call .. | .member .. | .unary .. | .binary .. => inferInstanceAs (Decidable True)

instance (x : Stmt) : Decidable x.Filled :=
  match x with
  | .importPath _ path => inferInstanceAs (Decidable (path ≠ []))
  | .expr _ e => inferInstanceAs (Decidable (e.isSome = true))
  | .cond _ test body elseifs _ =>
    inferInstanceAs (Decidable (test.isSome = true ∧ body.isSome = true ∧ ∀ b ∈ elseifs, b.Filled))
  | .case _ subject whens _ =>
    inferInstanceAs (Decidable (subject.isSome = true ∧ whens ≠ [] ∧ ∀ b ∈ whens, b.Filled))
  | .whileLoop _ slot body | .foreachLoop _ _ slot body =>
    inferInstanceAs (Decidable (slot.isSome = true ∧ body.isSome = true))
  | .forLoop _ init test step body =>
    inferInstanceAs (Decidable (init.isSome = true ∧ test.isSome = true ∧ step.isSome = true ∧
      body.isSome = true))
  | .breakLoop _ | .nextRound _ | .returnValue _ _ => inferInstanceAs (Decidable True)

instance (n : Node) : Decidable n.Grammatical :=
  match n with
  | .expr e => inferInstanceAs (Decidable (e.Laddered ∧ e.Filled))
  | .stmt x => inferInstanceAs (Decidable x.Filled)

end LarkCheck
