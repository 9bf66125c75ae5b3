import LarkCheck.Scope.Basic

/-!
# The visiting order of a tree

A tree is visited from left to right, and each statement before what it holds.
What the passes over a tree need to know happens at a few sorts of visits: a
statement begins, a required child is missing, a name is used or becomes known, a
scope opens or closes. A bare name on the left of an assignment becomes known
before the value is visited, and the variable of a loop after the collection. The
arguments for the base class are visited before the parameters.
-/

namespace LarkCheck

/-- A required child that a node lacks. -/
structure EmptySlot where
  loc : Location
  node : String
  field : String
deriving DecidableEq, Repr

inductive Visit where
  | stmt (stmt : Stmt)
  | missing (slot : EmptySlot)
  | use (name : Name)
  | bind (name : Name)
  | param (name : Name)
  | enter (kind : Scope.Kind) (loc : Location)
  | leave

mutual

def Expr.visits : Expr → List Visit
  | .ident loc name => [.use ⟨loc, name⟩]
  | .nil _ | .bool _ _ | .int _ _ | .real _ _ | .string _ _ | .receiver _ => []
  | .array _ items => Expr.listVisits items
  | .hash _ pairs => Pair.listVisits pairs
  | .routine loc params body =>
    .enter .routine loc :: (Param.listVisits params ++
      (Block.slotVisits ⟨loc, "routine literal", "body"⟩ body ++ [.leave]))
  | .classDef loc name params base includes sections =>
    .bind ⟨loc, name⟩ :: (Base.optionVisits base ++ (includes.map .use ++
      .enter .classDef loc :: (Param.listVisits params ++
        (Section.listVisits sections ++ [.leave]))))
  | .package loc name body =>
    .bind ⟨loc, name⟩ :: .enter .package loc ::
      (Block.slotVisits ⟨loc, "package literal", "body"⟩ body ++ [.leave])
  | .paren loc inner => Expr.slotVisits ⟨loc, "parenthesized expression", "inner expression"⟩ inner
  | .index loc object index =>
    Expr.slotVisits ⟨loc, "index expression", "object"⟩ object ++
      Expr.slotVisits ⟨loc, "index expression", "index"⟩ index
  | .call loc callee args =>
    Expr.slotVisits ⟨loc, "call expression", "callee"⟩ callee ++ Expr.listVisits args
  | .member loc object _ => Expr.slotVisits ⟨loc, "member expression", "object"⟩ object
  | .unary loc _ operand => Expr.slotVisits ⟨loc, "unary expression", "operand"⟩ operand
  | .binary loc level _ left right =>
    Expr.slotVisits ⟨loc, level.name ++ " expression", "left operand"⟩ left ++
      Expr.slotVisits ⟨loc, level.name ++ " expression", "right operand"⟩ right
  | .assign loc target value =>
    Expr.targetVisits ⟨loc, "assignment", "target"⟩ target ++
      Expr.slotVisits ⟨loc, "assignment", "value"⟩ value

def Expr.slotVisits (slot : EmptySlot) : Option Expr → List Visit
  | none => [.missing slot]
  | some e => e.visits

/-- A bare name on the left of an assignment is not a use. -/
def Expr.targetVisits (slot : EmptySlot) : Option Expr → List Visit
  | none => [.missing slot]
  | some e =>
    match e.bareName? with
    | some name => [.bind name]
    | none => e.visits

def Expr.optionVisits : Option Expr → List Visit
  | none => []
  | some e => e.visits

def Expr.listVisits : List Expr → List Visit
  | [] => []
  | e :: es => e.visits ++ Expr.listVisits es

def Pair.listVisits : List Pair → List Visit
  | [] => []
  | ⟨loc, key, value⟩ :: pairs =>
    Expr.slotVisits ⟨loc, "hash pair", "key"⟩ key ++
      (Expr.slotVisits ⟨loc, "hash pair", "value"⟩ value ++ Pair.listVisits pairs)

def Param.visits : Param → List Visit
  | .value loc name default => Expr.optionVisits default ++ [.param ⟨loc, name⟩]
  | .output loc name => [.param ⟨loc, name⟩]

def Param.listVisits : List Param → List Visit
  | [] => []
  | param :: params => param.visits ++ Param.listVisits params

def Base.optionVisits : Option Base → List Visit
  | none => []
  | some ⟨name, args⟩ => .use name :: Expr.listVisits args

def Section.listVisits : List Section → List Visit
  | [] => []
  | ⟨loc, _, body⟩ :: sections =>
    Block.slotVisits ⟨loc, "class section", "body"⟩ body ++ Section.listVisits sections

def Block.visits : Block → List Visit
  | ⟨_, stmts⟩ => Stmt.listVisits stmts

def Block.slotVisits (slot : EmptySlot) : Option Block → List Visit
  | none => [.missing slot]
  | some block => block.visits

def Block.optionVisits : Option Block → List Visit
  | none => []
  | some block => block.visits

def Stmt.visits : Stmt → List Visit
  | .importPath loc path => (path.getLast?.map fun name => Visit.bind ⟨loc, name⟩).toList
  | .expr loc e => Expr.slotVisits ⟨loc, "expression statement", "expression"⟩ e
  | .cond loc test body elseifs otherwise =>
    Expr.slotVisits ⟨loc, "if statement", "condition"⟩ test ++
      (Block.slotVisits ⟨loc, "if statement", "body"⟩ body ++
        (Branch.listVisits "elseif branch" elseifs ++ Block.optionVisits otherwise))
  | .case loc subject whens otherwise =>
    Expr.slotVisits ⟨loc, "case statement", "subject"⟩ subject ++
      (Branch.listVisits "when clause" whens ++ Block.optionVisits otherwise)
  | .whileLoop loc test body =>
    Expr.slotVisits ⟨loc, "while statement", "condition"⟩ test ++
      Block.slotVisits ⟨loc, "while statement", "body"⟩ body
  | .forLoop loc init test step body =>
    Expr.slotVisits ⟨loc, "for statement", "initializer"⟩ init ++
      (Expr.slotVisits ⟨loc, "for statement", "condition"⟩ test ++
        (Expr.slotVisits ⟨loc, "for statement", "step"⟩ step ++
          Block.slotVisits ⟨loc, "for statement", "body"⟩ body))
  | .foreachLoop loc item collection body =>
    Expr.slotVisits ⟨loc, "foreach statement", "collection"⟩ collection ++
      .bind item :: Block.slotVisits ⟨loc, "foreach statement", "body"⟩ body
  | .breakLoop _ | .nextRound _ => []
  | .returnValue _ value => Expr.optionVisits value

def Stmt.listVisits : List Stmt → List Visit
  | [] => []
  | stmt :: stmts => .stmt stmt :: (stmt.visits ++ Stmt.listVisits stmts)

def Branch.listVisits (node : String) : List Branch → List Visit
  | [] => []
  | ⟨loc, test, body⟩ :: branches =>
    Expr.slotVisits ⟨loc, node, "condition"⟩ test ++
      (Block.slotVisits ⟨loc, node, "body"⟩ body ++ Branch.listVisits node branches)

end

end LarkCheck
