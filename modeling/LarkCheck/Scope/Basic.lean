import LarkCheck.Tree.Basic

/-!
# Scopes

The scopes of a unit are numbered in the order in which they are opened, from 0
for the unit itself. A scope knows its parent and its children, and the names that
it declares in the order of their first declaration. An index tells the place of
each of them.
-/

namespace LarkCheck

namespace Scope

/-- What opened a scope. -/
inductive Kind where
  | unit | routine | classDef | package
deriving DecidableEq, Repr

def Kind.word : Kind → String
  | unit => "unit"
  | routine => "routine"
  | classDef => "class"
  | package => "package"

end Scope

structure Scope where
  kind : Scope.Kind
  loc : Location
  parent : Option Nat
  children : List Nat
  names : List Name
  index : List (String × Nat)
deriving DecidableEq, Repr

namespace Scope

/-- A scope without names or children. -/
def opened (kind : Kind) (loc : Location) (parent : Option Nat) : Scope :=
  ⟨kind, loc, parent, [], [], []⟩

def declaration? (s : Scope) (name : String) : Option Name :=
  (s.index.lookup name).bind fun place => s.names[place]?

/-- Whether the scope itself declares the name. -/
def declares (s : Scope) (name : String) : Bool :=
  (s.index.lookup name).isSome

/-- Only the first declaration of a name counts. -/
def declare (s : Scope) (name : Name) : Scope :=
  if s.declares name.text then s
  else { s with names := s.names ++ [name], index := (name.text, s.names.length) :: s.index }

def addChild (s : Scope) (id : Nat) : Scope :=
  { s with children := s.children ++ [id] }

end Scope

structure ScopeTree where
  scopes : Array Scope
deriving DecidableEq, Repr

namespace ScopeTree

def root : Nat := 0

/-- The unit's own scope and no other. -/
def ofUnit (loc : Location) : ScopeTree :=
  ⟨#[.opened .unit loc none]⟩

def size (t : ScopeTree) : Nat :=
  t.scopes.size

def get? (t : ScopeTree) (id : Nat) : Option Scope :=
  t.scopes[id]?

/-- The nearest scope that declares the name, from `id` outward. A parent comes before its
children, so the search ends. -/
def lookup (t : ScopeTree) (id : Nat) (name : String) : Option Nat :=
  match t.get? id with
  | none => none
  | some s =>
    if s.declares name then
      some id
    else
      match s.parent with
      | none => none
      | some parent => if parent < id then t.lookup parent name else none
termination_by id

def declare (t : ScopeTree) (id : Nat) (name : Name) : ScopeTree :=
  ⟨t.scopes.modify id (·.declare name)⟩

/-- Opens a scope in `parent`; its number is the size of the tree before. -/
def openIn (t : ScopeTree) (parent : Nat) (kind : Scope.Kind) (loc : Location) : ScopeTree :=
  ⟨(t.scopes.push (.opened kind loc (some parent))).modify parent (·.addChild t.size)⟩

def line (s : Scope) (depth : Nat) : String :=
  let names := ", ".intercalate (s.names.map (·.text))
  String.ofList (List.replicate (2 * depth) ' ') ++ s.kind.word ++ " " ++ s.loc.text ++ ":" ++
    if names.isEmpty then "" else " " ++ names

/-- The outline of a scope: its line, then its children one level deeper. -/
def lines (t : ScopeTree) (id depth : Nat) : List String :=
  match _h : t.scopes[id]? with
  | none => []
  | some s =>
    line s depth :: s.children.flatMap fun child =>
      if id < child then t.lines child (depth + 1) else []
termination_by t.scopes.size - id
decreasing_by
  obtain ⟨hid, -⟩ := Array.getElem?_eq_some_iff.1 _h
  omega

def render (t : ScopeTree) : String :=
  "\n".intercalate (t.lines root 0)

end ScopeTree

end LarkCheck
