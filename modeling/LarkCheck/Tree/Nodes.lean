import LarkCheck.Tree.Basic

/-!
# The nodes of a tree

Every statement and every expression of a tree, each before those that it holds. A
tree equals itself as a value unless one of its nodes is a real literal that is
not a number.
-/

namespace LarkCheck

inductive Node where
  | stmt (stmt : Stmt)
  | expr (expr : Expr)

mutual

def Expr.nodes : Expr → List Node
  | e@(.ident _ _) | e@(.nil _) | e@(.bool _ _) | e@(.int _ _) | e@(.real _ _) | e@(.string _ _)
  | e@(.receiver _) => [.expr e]
  | .array loc items => .expr (.array loc items) :: Expr.listNodes items
  | .hash loc pairs => .expr (.hash loc pairs) :: Pair.listNodes pairs
  | .routine loc params body =>
    .expr (.routine loc params body) :: (Param.listNodes params ++ Block.optionNodes body)
  | .classDef loc name params base includes sections =>
    .expr (.classDef loc name params base includes sections) ::
      (Base.optionNodes base ++ (Param.listNodes params ++ Section.listNodes sections))
  | .package loc name body => .expr (.package loc name body) :: Block.optionNodes body
  | .paren loc inner => .expr (.paren loc inner) :: Expr.optionNodes inner
  | .index loc object index =>
    .expr (.index loc object index) :: (Expr.optionNodes object ++ Expr.optionNodes index)
  | .call loc callee args =>
    .expr (.call loc callee args) :: (Expr.optionNodes callee ++ Expr.listNodes args)
  | .member loc object name => .expr (.member loc object name) :: Expr.optionNodes object
  | .unary loc op operand => .expr (.unary loc op operand) :: Expr.optionNodes operand
  | .binary loc level op left right =>
    .expr (.binary loc level op left right) :: (Expr.optionNodes left ++ Expr.optionNodes right)
  | .assign loc target value =>
    .expr (.assign loc target value) :: (Expr.optionNodes target ++ Expr.optionNodes value)

def Expr.optionNodes : Option Expr → List Node
  | none => []
  | some e => e.nodes

def Expr.listNodes : List Expr → List Node
  | [] => []
  | e :: es => e.nodes ++ Expr.listNodes es

def Pair.listNodes : List Pair → List Node
  | [] => []
  | ⟨_, key, value⟩ :: pairs =>
    Expr.optionNodes key ++ (Expr.optionNodes value ++ Pair.listNodes pairs)

def Param.nodes : Param → List Node
  | .value _ _ default => Expr.optionNodes default
  | .output _ _ => []

def Param.listNodes : List Param → List Node
  | [] => []
  | param :: params => param.nodes ++ Param.listNodes params

def Base.optionNodes : Option Base → List Node
  | none => []
  | some ⟨_, args⟩ => Expr.listNodes args

def Section.listNodes : List Section → List Node
  | [] => []
  | ⟨_, _, body⟩ :: sections => Block.optionNodes body ++ Section.listNodes sections

def Block.nodes : Block → List Node
  | ⟨_, stmts⟩ => Stmt.listNodes stmts

def Block.optionNodes : Option Block → List Node
  | none => []
  | some block => block.nodes

def Stmt.nodes : Stmt → List Node
  | s@(.importPath _ _) | s@(.breakLoop _) | s@(.nextRound _) => [.stmt s]
  | .expr loc e => .stmt (.expr loc e) :: Expr.optionNodes e
  | .cond loc test body elseifs otherwise =>
    .stmt (.cond loc test body elseifs otherwise) ::
      (Expr.optionNodes test ++ (Block.optionNodes body ++
        (Branch.listNodes elseifs ++ Block.optionNodes otherwise)))
  | .case loc subject whens otherwise =>
    .stmt (.case loc subject whens otherwise) ::
      (Expr.optionNodes subject ++ (Branch.listNodes whens ++ Block.optionNodes otherwise))
  | .whileLoop loc test body =>
    .stmt (.whileLoop loc test body) :: (Expr.optionNodes test ++ Block.optionNodes body)
  | .forLoop loc init test step body =>
    .stmt (.forLoop loc init test step body) ::
      (Expr.optionNodes init ++ (Expr.optionNodes test ++
        (Expr.optionNodes step ++ Block.optionNodes body)))
  | .foreachLoop loc item collection body =>
    .stmt (.foreachLoop loc item collection body) ::
      (Expr.optionNodes collection ++ Block.optionNodes body)
  | .returnValue loc value => .stmt (.returnValue loc value) :: Expr.optionNodes value

def Stmt.listNodes : List Stmt → List Node
  | [] => []
  | stmt :: stmts => stmt.nodes ++ Stmt.listNodes stmts

def Branch.listNodes : List Branch → List Node
  | [] => []
  | ⟨_, test, body⟩ :: branches =>
    Expr.optionNodes test ++ (Block.optionNodes body ++ Branch.listNodes branches)

end

namespace Node

/-- Whether the node alone is no obstacle to the equality of its tree with itself. -/
def equalsItself : Node → Bool
  | expr (.real _ value) => value.ieeeEq value
  | _ => true

end Node

/-- Whether the expression equals itself when its reals are compared as numbers. -/
def Expr.equalsItself (e : Expr) : Bool :=
  e.nodes.all Node.equalsItself

end LarkCheck
