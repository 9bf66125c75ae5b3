import LarkCheck.Tree.Basic

/-!
# The weight of a tree

How far a construct takes the counters of a parser from where it begins: how many
nested constructs stand inside each other, and how many levels above it are
reached. A link of a chain lies one level above all that the chain holds so far,
and what follows the link is counted from there. An assignment lies above its
target without a level of its own.
-/

namespace LarkCheck

structure Weight where
  nest : Nat
  load : Nat
deriving DecidableEq, Repr

namespace Weight

def zero : Weight := ⟨0, 0⟩

/-- Of two constructs side by side. -/
def join (v w : Weight) : Weight := ⟨max v.nest w.nest, max v.load w.load⟩

/-- Of a construct behind the guard of nesting. -/
def deeper (w : Weight) : Weight := ⟨w.nest + 1, w.load + 1⟩

/-- Of a link on top of a chain of weight `v`, with `w` inside the link. -/
def link (v w : Weight) : Weight := ⟨max v.nest w.nest, v.load + 1 + w.load⟩

@[simp] theorem nest_zero : zero.nest = 0 := rfl

@[simp] theorem load_zero : zero.load = 0 := rfl

@[simp] theorem nest_join (v w : Weight) : (v.join w).nest = max v.nest w.nest := rfl

@[simp] theorem load_join (v w : Weight) : (v.join w).load = max v.load w.load := rfl

@[simp] theorem nest_deeper (w : Weight) : w.deeper.nest = w.nest + 1 := rfl

@[simp] theorem load_deeper (w : Weight) : w.deeper.load = w.load + 1 := rfl

@[simp] theorem nest_link (v w : Weight) : (v.link w).nest = max v.nest w.nest := rfl

@[simp] theorem load_link (v w : Weight) : (v.link w).load = v.load + 1 + w.load := rfl

instance : LE Weight := ⟨fun v w => v.nest ≤ w.nest ∧ v.load ≤ w.load⟩

variable {u v w : Weight}

theorem le_refl (v : Weight) : v ≤ v :=
  ⟨Nat.le_refl _, Nat.le_refl _⟩

theorem le_trans (huv : u ≤ v) (hvw : v ≤ w) : u ≤ w :=
  ⟨Nat.le_trans huv.1 hvw.1, Nat.le_trans huv.2 hvw.2⟩

theorem le_join_left (v w : Weight) : v ≤ v.join w :=
  ⟨Nat.le_max_left _ _, Nat.le_max_left _ _⟩

theorem le_join_right (v w : Weight) : w ≤ v.join w :=
  ⟨Nat.le_max_right _ _, Nat.le_max_right _ _⟩

theorem le_link_right (v w : Weight) : w ≤ v.link w :=
  ⟨Nat.le_max_right _ _, Nat.le_add_left _ _⟩

end Weight

mutual

def Expr.weight : Expr → Weight
  | .ident _ _ | .nil _ | .bool _ _ | .int _ _ | .real _ _ | .string _ _ | .receiver _ => .zero
  | .array _ items => Expr.listWeight items
  | .hash _ pairs => Pair.listWeight pairs
  | .routine _ params body => (Param.listWeight params).join (Block.slotWeight body)
  | .classDef _ _ params base _ sections =>
    (Param.listWeight params).join ((Base.optionWeight base).join (Section.listWeight sections))
  | .package _ _ body => Block.slotWeight body
  | .paren _ inner => (Expr.slotWeight inner).deeper
  | .index _ object index => (Expr.slotWeight object).link (Expr.slotWeight index).deeper
  | .call _ callee args => (Expr.slotWeight callee).link (Expr.listWeight args)
  | .member _ object _ => (Expr.slotWeight object).link .zero
  | .unary _ _ operand => (Expr.slotWeight operand).deeper
  | .binary _ _ _ left right => (Expr.slotWeight left).link (Expr.slotWeight right)
  | .assign _ target value => (Expr.slotWeight target).join (Expr.slotWeight value).deeper

def Expr.slotWeight : Option Expr → Weight
  | none => .zero
  | some e => e.weight

/-- Of expressions side by side, each nested. -/
def Expr.listWeight : List Expr → Weight
  | [] => .zero
  | e :: es => e.weight.deeper.join (Expr.listWeight es)

def Pair.weight : Pair → Weight
  | ⟨_, key, value⟩ => (Expr.slotWeight key).deeper.join (Expr.slotWeight value).deeper

def Pair.listWeight : List Pair → Weight
  | [] => .zero
  | pair :: pairs => pair.weight.join (Pair.listWeight pairs)

def Param.weight : Param → Weight
  | .value _ _ none => .zero
  | .value _ _ (some default) => default.weight.deeper
  | .output _ _ => .zero

def Param.listWeight : List Param → Weight
  | [] => .zero
  | param :: params => param.weight.join (Param.listWeight params)

def Base.optionWeight : Option Base → Weight
  | none => .zero
  | some ⟨_, args⟩ => Expr.listWeight args

def Section.listWeight : List Section → Weight
  | [] => .zero
  | ⟨_, _, body⟩ :: sections => (Block.slotWeight body).join (Section.listWeight sections)

def Block.weight : Block → Weight
  | ⟨_, stmts⟩ => Stmt.listWeight stmts

def Block.slotWeight : Option Block → Weight
  | none => .zero
  | some block => block.weight

def Stmt.weight : Stmt → Weight
  | .importPath _ _ | .breakLoop _ | .nextRound _ => .zero
  | .expr _ e => (Expr.slotWeight e).deeper
  | .cond _ test body elseifs otherwise =>
    (Expr.slotWeight test).deeper.join ((Block.slotWeight body).join
      ((Branch.listWeight elseifs).join (Block.slotWeight otherwise)))
  | .case _ subject whens otherwise =>
    (Expr.slotWeight subject).deeper.join
      ((Branch.listWeight whens).join (Block.slotWeight otherwise))
  | .whileLoop _ test body => (Expr.slotWeight test).deeper.join (Block.slotWeight body)
  | .forLoop _ init test step body =>
    (Expr.slotWeight init).deeper.join ((Expr.slotWeight test).deeper.join
      ((Expr.slotWeight step).deeper.join (Block.slotWeight body)))
  | .foreachLoop _ _ collection body =>
    (Expr.slotWeight collection).deeper.join (Block.slotWeight body)
  | .returnValue _ none => .zero
  | .returnValue _ (some value) => value.weight.deeper

/-- Of statements side by side, each nested. -/
def Stmt.listWeight : List Stmt → Weight
  | [] => .zero
  | stmt :: stmts => stmt.weight.deeper.join (Stmt.listWeight stmts)

def Branch.weight : Branch → Weight
  | ⟨_, test, body⟩ => (Expr.slotWeight test).deeper.join (Block.slotWeight body)

def Branch.listWeight : List Branch → Weight
  | [] => .zero
  | branch :: branches => branch.weight.join (Branch.listWeight branches)

end

end LarkCheck
