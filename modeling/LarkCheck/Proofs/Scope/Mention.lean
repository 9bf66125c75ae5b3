import LarkCheck.Tree.Visit

/-!
# Mentions of names

What a tree says about names, without regard to how it is resolved: where a name is
used, where it is bound, and which scope both stand in. A scope is told by its
address, the way to it from the scope of the unit, so that one scope encloses
another if its address is where the other's begins. A use is undeclared if no
binding of its name, in its own scope or around it, comes before it.
-/

namespace LarkCheck

/-- A mention of a name, or a scope with the mentions in it. -/
inductive Mention where
  | use (name : Name)
  | bind (name : Name)
  | param (name : Name)
  | scope (kind : Scope.Kind) (loc : Location) (mentions : List Mention)

mutual

/-- A class and a package are bound around their own scope, and so is what a class takes from
others; the parameters of a routine or a class stand inside. -/
def Expr.mentions : Expr → List Mention
  | .ident loc name => [.use ⟨loc, name⟩]
  | .nil _ | .bool _ _ | .int _ _ | .real _ _ | .string _ _ | .receiver _ => []
  | .array _ items => Expr.listMentions items
  | .hash _ pairs => Pair.listMentions pairs
  | .routine loc params body =>
    [.scope .routine loc (Param.listMentions params ++ Block.optionMentions body)]
  | .classDef loc name params base includes sections =>
    .bind ⟨loc, name⟩ :: (Base.optionMentions base ++ (includes.map .use ++
      [.scope .classDef loc (Param.listMentions params ++ Section.listMentions sections)]))
  | .package loc name body =>
    [.bind ⟨loc, name⟩, .scope .package loc (Block.optionMentions body)]
  | .paren _ inner => Expr.optionMentions inner
  | .index _ object index => Expr.optionMentions object ++ Expr.optionMentions index
  | .call _ callee args => Expr.optionMentions callee ++ Expr.listMentions args
  | .member _ object _ => Expr.optionMentions object
  | .unary _ _ operand => Expr.optionMentions operand
  | .binary _ _ _ left right => Expr.optionMentions left ++ Expr.optionMentions right
  | .assign _ target value => Expr.targetMentions target ++ Expr.optionMentions value

def Expr.optionMentions : Option Expr → List Mention
  | none => []
  | some e => e.mentions

/-- A bare name is bound; any other target is an expression that is read. -/
def Expr.targetMentions : Option Expr → List Mention
  | none => []
  | some (.ident loc name) => [.bind ⟨loc, name⟩]
  | some e => e.mentions

def Expr.listMentions : List Expr → List Mention
  | [] => []
  | e :: es => e.mentions ++ Expr.listMentions es

def Pair.listMentions : List Pair → List Mention
  | [] => []
  | ⟨_, key, value⟩ :: pairs =>
    Expr.optionMentions key ++ (Expr.optionMentions value ++ Pair.listMentions pairs)

/-- A parameter is bound after its own default. -/
def Param.mentions : Param → List Mention
  | .value loc name default => Expr.optionMentions default ++ [.param ⟨loc, name⟩]
  | .output loc name => [.param ⟨loc, name⟩]

def Param.listMentions : List Param → List Mention
  | [] => []
  | param :: params => param.mentions ++ Param.listMentions params

def Base.optionMentions : Option Base → List Mention
  | none => []
  | some ⟨name, args⟩ => .use name :: Expr.listMentions args

def Section.listMentions : List Section → List Mention
  | [] => []
  | ⟨_, _, body⟩ :: sections => Block.optionMentions body ++ Section.listMentions sections

def Block.mentions : Block → List Mention
  | ⟨_, stmts⟩ => Stmt.listMentions stmts

def Block.optionMentions : Option Block → List Mention
  | none => []
  | some block => block.mentions

def Stmt.mentions : Stmt → List Mention
  | .importPath loc path => (path.getLast?.map fun name => Mention.bind ⟨loc, name⟩).toList
  | .expr _ e => Expr.optionMentions e
  | .cond _ test body elseifs otherwise =>
    Expr.optionMentions test ++ (Block.optionMentions body ++
      (Branch.listMentions elseifs ++ Block.optionMentions otherwise))
  | .case _ subject whens otherwise =>
    Expr.optionMentions subject ++ (Branch.listMentions whens ++ Block.optionMentions otherwise)
  | .whileLoop _ test body => Expr.optionMentions test ++ Block.optionMentions body
  | .forLoop _ init test step body =>
    Expr.optionMentions init ++ (Expr.optionMentions test ++
      (Expr.optionMentions step ++ Block.optionMentions body))
  | .foreachLoop _ item collection body =>
    Expr.optionMentions collection ++ .bind item :: Block.optionMentions body
  | .breakLoop _ | .nextRound _ => []
  | .returnValue _ value => Expr.optionMentions value

def Stmt.listMentions : List Stmt → List Mention
  | [] => []
  | stmt :: stmts => stmt.mentions ++ Stmt.listMentions stmts

def Branch.listMentions : List Branch → List Mention
  | [] => []
  | ⟨_, test, body⟩ :: branches =>
    Expr.optionMentions test ++ (Block.optionMentions body ++ Branch.listMentions branches)

end

/-- Whether a name is read or becomes known. -/
inductive Role where
  | use | binding
deriving DecidableEq, Repr

/-- A name at its place, with the address of its scope, the innermost step first. -/
structure Occurrence where
  name : Name
  role : Role
  scope : List Nat
deriving DecidableEq, Repr

/-- A binding of the name is among the earlier occurrences, in this scope or in one around it. -/
def Bound (earlier : List Occurrence) (scope : List Nat) (name : String) : Prop :=
  ∃ b ∈ earlier, b.role = .binding ∧ b.name.text = name ∧ b.scope <:+ scope

instance (earlier : List Occurrence) (scope : List Nat) (name : String) :
    Decidable (Bound earlier scope name) :=
  inferInstanceAs (Decidable (∃ b ∈ earlier, _ ∧ _ ∧ _))

/-- The uses among occurrences whose names are not bound by those before them, in their order. -/
def undeclaredAfter (earlier : List Occurrence) : List Occurrence → List Name
  | [] => []
  | o :: later =>
    let further := undeclaredAfter (earlier ++ [o]) later
    if o.role = .use ∧ ¬ Bound earlier o.scope o.name.text then o.name :: further else further

mutual

/-- The occurrences in a mention that stands at an index of a scope. -/
def Mention.occurrences (scope : List Nat) (index : Nat) : Mention → List Occurrence
  | .use name => [⟨name, .use, scope⟩]
  | .bind name | .param name => [⟨name, .binding, scope⟩]
  | .scope _ _ mentions => Mention.listOccurrences (index :: scope) 0 mentions

def Mention.listOccurrences (scope : List Nat) (index : Nat) : List Mention → List Occurrence
  | [] => []
  | m :: ms => m.occurrences scope index ++ Mention.listOccurrences scope (index + 1) ms

end

/-- Every use and every binding of a unit, in visiting order. -/
def Block.occurrences (unit : Block) : List Occurrence :=
  Mention.listOccurrences [] 0 unit.mentions

/-- The uses of a unit that no binding of the name precedes in their scope or around it. -/
def Block.undeclaredUses (unit : Block) : List Name :=
  undeclaredAfter [] unit.occurrences

end LarkCheck
