import LarkCheck.Decimal.Double
import LarkCheck.Text.Location
import LarkCheck.Vocabulary.Operator

/-!
# Syntax trees

Blocks of statements over expressions. Every node carries the place of its first
token. A child that the grammar always produces is an `Option` all the same: a
tree that was built by hand may lack it, and each pass says what it makes of
that. The level of a binary node is part of the node and need not be that of its
operator.
-/

namespace LarkCheck

/-- A name that is not an expression by itself. -/
structure Name where
  loc : Location
  text : String
deriving DecidableEq, Repr

/-- The two sorts of class sections. -/
inductive Access where
  | publicPart | privatePart
deriving DecidableEq, Repr

def Access.word : Access → String
  | publicPart => "public"
  | privatePart => "private"

mutual

inductive Expr where
  | ident (loc : Location) (name : String)
  | nil (loc : Location)
  | bool (loc : Location) (value : Bool)
  | int (loc : Location) (value : Int)
  | real (loc : Location) (value : Double)
  | string (loc : Location) (value : String)
  | receiver (loc : Location)
  | array (loc : Location) (items : List Expr)
  | hash (loc : Location) (pairs : List Pair)
  | routine (loc : Location) (params : List Param) (body : Option Block)
  | classDef (loc : Location) (name : String) (params : List Param) (base : Option Base)
      (includes : List Name) (sections : List Section)
  | package (loc : Location) (name : String) (body : Option Block)
  | paren (loc : Location) (inner : Option Expr)
  | index (loc : Location) (object index : Option Expr)
  | call (loc : Location) (callee : Option Expr) (args : List Expr)
  | member (loc : Location) (object : Option Expr) (name : String)
  | unary (loc : Location) (op : Operator) (operand : Option Expr)
  | binary (loc : Location) (level : Level) (op : Operator) (left right : Option Expr)
  | assign (loc : Location) (target value : Option Expr)

/-- One entry of a hash literal. -/
structure Pair where
  loc : Location
  key : Option Expr
  value : Option Expr

inductive Param where
  | value (loc : Location) (name : String) (default : Option Expr)
  | output (loc : Location) (name : String)

/-- The class that a class literal extends, with the arguments for its parameters. -/
structure Base where
  name : Name
  args : List Expr

structure Section where
  loc : Location
  access : Access
  body : Option Block

structure Block where
  loc : Location
  stmts : List Stmt

inductive Stmt where
  | importPath (loc : Location) (path : List String)
  | expr (loc : Location) (expr : Option Expr)
  | cond (loc : Location) (test : Option Expr) (body : Option Block) (elseifs : List Branch)
      (otherwise : Option Block)
  | case (loc : Location) (subject : Option Expr) (whens : List Branch) (otherwise : Option Block)
  | whileLoop (loc : Location) (test : Option Expr) (body : Option Block)
  | forLoop (loc : Location) (init test step : Option Expr) (body : Option Block)
  | foreachLoop (loc : Location) (item : Name) (collection : Option Expr) (body : Option Block)
  | breakLoop (loc : Location)
  | nextRound (loc : Location)
  | returnValue (loc : Location) (value : Option Expr)

/-- A condition with its body: an `elseif` branch or a `when` clause. -/
structure Branch where
  loc : Location
  test : Option Expr
  body : Option Block

end

namespace Expr

def loc : Expr → Location
  | ident loc _ | nil loc | bool loc _ | int loc _ | real loc _ | string loc _ | receiver loc
  | array loc _ | hash loc _ | routine loc _ _ | classDef loc _ _ _ _ _ | package loc _ _
  | paren loc _ | index loc _ _ | call loc _ _ | member loc _ _ | unary loc _ _
  | binary loc _ _ _ _ | assign loc _ _ => loc

/-- The name of the node's sort in messages. -/
def kindName : Expr → String
  | ident .. => "identifier"
  | nil .. => "nil literal"
  | bool .. => "bool literal"
  | int .. => "integer literal"
  | real .. => "real literal"
  | string .. => "string literal"
  | receiver .. => "this"
  | array .. => "array literal"
  | hash .. => "hash literal"
  | routine .. => "routine literal"
  | classDef .. => "class literal"
  | package .. => "package literal"
  | paren .. => "parenthesized expression"
  | index .. => "index expression"
  | call .. => "call expression"
  | member .. => "member expression"
  | unary .. => "unary expression"
  | binary _ level .. => level.name ++ " expression"
  | assign .. => "assignment"

/-- Whether the expression may stand on the left of `=`. -/
def isAssignable : Expr → Bool
  | ident .. | member .. | index .. => true
  | _ => false

def level? : Expr → Option Level
  | binary _ level .. => some level
  | _ => none

/-- The name of an expression that is nothing but a name. -/
def bareName? : Expr → Option Name
  | ident loc name => some ⟨loc, name⟩
  | _ => none

end Expr

def Param.loc : Param → Location
  | .value loc .. | .output loc _ => loc

namespace Stmt

def loc : Stmt → Location
  | importPath loc _ | expr loc _ | cond loc _ _ _ _ | case loc _ _ _ | whileLoop loc _ _
  | forLoop loc _ _ _ _ | foreachLoop loc _ _ _ | breakLoop loc | nextRound loc
  | returnValue loc _ => loc

def kindName : Stmt → String
  | importPath .. => "import statement"
  | expr .. => "expression statement"
  | cond .. => "if statement"
  | case .. => "case statement"
  | whileLoop .. => "while statement"
  | forLoop .. => "for statement"
  | foreachLoop .. => "foreach statement"
  | breakLoop .. => "break statement"
  | nextRound .. => "next statement"
  | returnValue .. => "return statement"

/-- The name that an import makes known, which is the last of its path. -/
def binding? : Stmt → Option String
  | importPath _ path => path.getLast?
  | _ => none

end Stmt

end LarkCheck
