import LarkCheck.Scope.Resolution

/-!
# Uses of names

Where a tree uses names: the identifiers that are read, the base of a class and what
it includes, in the order in which they are visited. Of each it is told whether it
stands in the default of a parameter. A default is resolved while the parameters
after it are still to come, so it is there alone that a name may come to mean
something else after it has been used.
-/

namespace LarkCheck

structure Use where
  name : Name
  inDefault : Bool
deriving DecidableEq

/-- The use in a default. -/
def Use.defaulted (u : Use) : Use :=
  { u with inDefault := true }

/-- The use of a name outside of every default. -/
def Name.plain (name : Name) : Use :=
  ⟨name, false⟩

mutual

def Expr.uses : Expr → List Use
  | .ident loc name => [Name.plain ⟨loc, name⟩]
  | .nil _ | .bool _ _ | .int _ _ | .real _ _ | .string _ _ | .receiver _ => []
  | .array _ items => Expr.listUses items
  | .hash _ pairs => Pair.listUses pairs
  | .routine _ params body => Param.listUses params ++ Block.optionUses body
  | .classDef _ _ params base includes sections =>
    Base.optionUses base ++ (includes.map Name.plain ++
      (Param.listUses params ++ Section.listUses sections))
  | .package _ _ body => Block.optionUses body
  | .paren _ inner => Expr.optionUses inner
  | .index _ object index => Expr.optionUses object ++ Expr.optionUses index
  | .call _ callee args => Expr.optionUses callee ++ Expr.listUses args
  | .member _ object _ => Expr.optionUses object
  | .unary _ _ operand => Expr.optionUses operand
  | .binary _ _ _ left right => Expr.optionUses left ++ Expr.optionUses right
  | .assign _ target value => Expr.targetUses target ++ Expr.optionUses value

def Expr.optionUses : Option Expr → List Use
  | none => []
  | some e => e.uses

/-- A bare name is assigned to and not read. -/
def Expr.targetUses : Option Expr → List Use
  | none => []
  | some (.ident _ _) => []
  | some e => e.uses

def Expr.listUses : List Expr → List Use
  | [] => []
  | e :: es => e.uses ++ Expr.listUses es

def Pair.listUses : List Pair → List Use
  | [] => []
  | ⟨_, key, value⟩ :: pairs =>
    Expr.optionUses key ++ (Expr.optionUses value ++ Pair.listUses pairs)

/-- However deep in the default. -/
def Param.uses : Param → List Use
  | .value _ _ default => (Expr.optionUses default).map Use.defaulted
  | .output _ _ => []

def Param.listUses : List Param → List Use
  | [] => []
  | param :: params => param.uses ++ Param.listUses params

def Base.optionUses : Option Base → List Use
  | none => []
  | some ⟨name, args⟩ => name.plain :: Expr.listUses args

def Section.listUses : List Section → List Use
  | [] => []
  | ⟨_, _, body⟩ :: sections => Block.optionUses body ++ Section.listUses sections

def Block.uses : Block → List Use
  | ⟨_, stmts⟩ => Stmt.listUses stmts

def Block.optionUses : Option Block → List Use
  | none => []
  | some block => block.uses

def Stmt.uses : Stmt → List Use
  | .importPath _ _ => []
  | .expr _ e => Expr.optionUses e
  | .cond _ test body elseifs otherwise =>
    Expr.optionUses test ++ (Block.optionUses body ++
      (Branch.listUses elseifs ++ Block.optionUses otherwise))
  | .case _ subject whens otherwise =>
    Expr.optionUses subject ++ (Branch.listUses whens ++ Block.optionUses otherwise)
  | .whileLoop _ test body => Expr.optionUses test ++ Block.optionUses body
  | .forLoop _ init test step body =>
    Expr.optionUses init ++ (Expr.optionUses test ++
      (Expr.optionUses step ++ Block.optionUses body))
  | .foreachLoop _ _ collection body => Expr.optionUses collection ++ Block.optionUses body
  | .breakLoop _ | .nextRound _ => []
  | .returnValue _ value => Expr.optionUses value

def Stmt.listUses : List Stmt → List Use
  | [] => []
  | stmt :: stmts => stmt.uses ++ Stmt.listUses stmts

def Branch.listUses : List Branch → List Use
  | [] => []
  | ⟨_, test, body⟩ :: branches =>
    Expr.optionUses test ++ (Block.optionUses body ++ Branch.listUses branches)

end

/-- What is found for a use: the scope that it is in, and the one that declares the name if there
is one. -/
structure Answer where
  name : Name
  scope : Nat
  found : Option Nat
deriving DecidableEq

namespace Resolver

def answer? (r : Resolver) : Visit → Option Answer
  | .use name => some ⟨name, r.current, r.tree.lookup r.current name.text⟩
  | .bind _ | .param _ | .enter _ _ | .leave | .stmt _ | .missing _ => none

/-- All answers on the way along the visits, each from the scopes as they are at its visit. -/
def answers (r : Resolver) : List Visit → List Answer
  | [] => []
  | v :: vs => (r.answer? v).toList ++ (r.visit v).answers vs

theorem answers_append (r : Resolver) (vs ws : List Visit) :
    r.answers (vs ++ ws) = r.answers vs ++ (vs.foldl visit r).answers ws := by
  induction vs generalizing r with
  | nil => rfl
  | cons v vs ih => rw [List.cons_append, answers, answers, ih, List.foldl_cons, List.append_assoc]

end Resolver

end LarkCheck
