import LarkCheck.Diagnostic.Log
import LarkCheck.Tree.Visit

/-!
# Resolving names

The resolver follows the visits of a tree and keeps the scopes opened so far. A
parameter belongs to the innermost scope; any other name becomes known there only
if no scope around declares it already. A use of a name that no scope around
declares is reported, and resolving goes on.
-/

namespace LarkCheck

def undeclared (name : Name) : Diagnostic :=
  .of .undeclaredIdentifier name.loc ["`" ++ name.text ++ "` is not declared in this scope"]

/-- A resolver on its way: the scopes opened so far, the one where it stands, the verdict and the
reports so far. -/
structure Resolver where
  tree : ScopeTree
  current : Nat
  passed : Bool
  news : List Diagnostic
deriving DecidableEq, Repr

namespace Resolver

/-- Before any visit: the scope of a unit alone. -/
def start (loc : Location) : Resolver :=
  ⟨.ofUnit loc, ScopeTree.root, true, []⟩

/-- Whether the current scope or one around it declares the name. -/
def knows (r : Resolver) (name : String) : Bool :=
  (r.tree.lookup r.current name).isSome

def declare (r : Resolver) (name : Name) : Resolver :=
  { r with tree := r.tree.declare r.current name }

def visit (r : Resolver) : Visit → Resolver
  | .use name =>
    if r.knows name.text then r
    else { r with passed := false, news := r.news ++ [undeclared name] }
  | .bind name => if r.knows name.text then r else r.declare name
  | .param name => r.declare name
  | .enter kind loc => { r with tree := r.tree.openIn r.current kind loc, current := r.tree.size }
  | .leave => { r with current := ((r.tree.get? r.current).bind (·.parent)).getD r.current }
  | .stmt _ | .missing _ => r

/-- Visits a whole unit. -/
def run (r : Resolver) (unit : Block) : Resolver :=
  unit.visits.foldl visit r

/-- Whether every name that the unit uses is declared where it is used. -/
def accepts (r : Resolver) (unit : Block) : Bool :=
  ({ r with passed := true }.run unit).passed

/-- A visit that reports something spoils the verdict, and no other does. -/
theorem passed_visit {r : Resolver} (h : r.passed = r.news.isEmpty) (v : Visit) :
    (r.visit v).passed = (r.visit v).news.isEmpty := by
  cases v with
  | use name =>
    simp only [visit]
    split
    · exact h
    · simp
  | bind name =>
    simp only [visit]
    split <;> exact h
  | param | enter | leave | stmt | missing => exact h

theorem passed_foldl_visit {r : Resolver} (h : r.passed = r.news.isEmpty) (vs : List Visit) :
    (vs.foldl visit r).passed = (vs.foldl visit r).news.isEmpty := by
  induction vs generalizing r with
  | nil => exact h
  | cons v vs ih => exact ih (passed_visit h v)

theorem passed_run (loc : Location) (unit : Block) :
    ((start loc).run unit).passed = ((start loc).run unit).news.isEmpty :=
  passed_foldl_visit rfl unit.visits

end Resolver

/-- The scopes of a unit, or none if it uses an undeclared name. -/
def Block.resolve (log : Log) (unit : Block) : Option ScopeTree × Log :=
  let r := (Resolver.start unit.loc).run unit
  (if r.passed then some r.tree else none, log.append r.news)

end LarkCheck
