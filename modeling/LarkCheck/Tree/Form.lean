import LarkCheck.Text.Quoted
import LarkCheck.Tree.Basic

/-!
# Trees in parentheses

A form is an atom or a list of forms in parentheses. Every tree has a form: a list
that begins with the name of the construct, or one atom for a name or a literal.
Parentheses and blanks inside an atom occur in quoted strings only, as far as the
tree comes from a text. A unit is dumped with one top-level statement a line.
-/

namespace LarkCheck

inductive Form where
  | atom (text : String)
  | list (items : List Form)

namespace Form

mutual

def chars : Form → List Char
  | atom text => text.toList
  | list [] => ['(', ')']
  | list (head :: items) => '(' :: (head.chars ++ itemsChars items ++ [')'])

/-- Each form with a blank before it. -/
def itemsChars : List Form → List Char
  | [] => []
  | item :: items => ' ' :: (item.chars ++ itemsChars items)

end

def text (form : Form) : String :=
  String.ofList form.chars

/-- A list that begins with the name of a construct. -/
def tagged (tag : String) (items : List Form) : Form :=
  list (atom tag :: items)

/-- Stands where a required child is missing. -/
def missing : Form :=
  atom "<missing>"

end Form

/-- The names that a class includes, if any. -/
def includeForms (includes : List Name) : List Form :=
  if includes.isEmpty then [] else [.tagged "include" (includes.map (.atom ·.text))]

mutual

def Expr.form : Expr → Form
  | .ident _ name => .atom name
  | .nil _ => .atom "nil"
  | .bool _ value => .atom (if value then "true" else "false")
  | .int _ value => .atom (toString value)
  | .real _ value => .atom value.text
  | .string _ value => .atom (Text.quoted value)
  | .receiver _ => .atom "this"
  | .array _ items => .tagged "array" (Expr.listForms items)
  | .hash _ pairs => .tagged "hash" (Pair.listForms pairs)
  | .routine _ params body =>
    .tagged "routine" [.tagged "params" (Param.listForms params), Block.slotForm body]
  | .classDef _ name params base includes sections =>
    .tagged "class" (.atom name :: .tagged "params" (Param.listForms params) ::
      (Base.optionForms base ++ includeForms includes ++ Section.listForms sections))
  | .package _ name body => .tagged "package" [.atom name, Block.slotForm body]
  | .paren _ inner => .tagged "paren" [Expr.slotForm inner]
  | .index _ object index => .tagged "index" [Expr.slotForm object, Expr.slotForm index]
  | .call _ callee args => .tagged "call" (Expr.slotForm callee :: Expr.listForms args)
  | .member _ object name => .tagged "member" [Expr.slotForm object, .atom name]
  | .unary _ op operand => .tagged "unary" [.atom op.spelling, Expr.slotForm operand]
  | .binary _ level op left right =>
    .tagged level.name [.atom op.spelling, Expr.slotForm left, Expr.slotForm right]
  | .assign _ target value => .tagged "assign" [Expr.slotForm target, Expr.slotForm value]

def Expr.slotForm : Option Expr → Form
  | none => .missing
  | some e => e.form

def Expr.listForms : List Expr → List Form
  | [] => []
  | e :: es => e.form :: Expr.listForms es

def Pair.listForms : List Pair → List Form
  | [] => []
  | ⟨_, key, value⟩ :: pairs =>
    .tagged "pair" [Expr.slotForm key, Expr.slotForm value] :: Pair.listForms pairs

def Param.form : Param → Form
  | .value _ name none => .atom name
  | .value _ name (some default) => .tagged "default" [.atom name, default.form]
  | .output _ name => .tagged "out" [.atom name]

def Param.listForms : List Param → List Form
  | [] => []
  | param :: params => param.form :: Param.listForms params

def Base.optionForms : Option Base → List Form
  | none => []
  | some ⟨name, args⟩ => [.tagged "base" (.atom name.text :: Expr.listForms args)]

def Section.listForms : List Section → List Form
  | [] => []
  | ⟨_, access, body⟩ :: sections =>
    .tagged access.word [Block.slotForm body] :: Section.listForms sections

def Block.form : Block → Form
  | ⟨_, stmts⟩ => .tagged "block" (Stmt.listForms stmts)

def Block.slotForm : Option Block → Form
  | none => .missing
  | some block => block.form

def Block.elseForms : Option Block → List Form
  | none => []
  | some block => [.tagged "else" [block.form]]

def Stmt.form : Stmt → Form
  | .importPath _ path => .tagged "import" [.atom (".".intercalate path)]
  | .expr _ e => Expr.slotForm e
  | .cond _ test body elseifs otherwise =>
    .tagged "if" (Expr.slotForm test :: Block.slotForm body ::
      (Branch.listForms "elseif" elseifs ++ Block.elseForms otherwise))
  | .case _ subject whens otherwise =>
    .tagged "case" (Expr.slotForm subject ::
      (Branch.listForms "when" whens ++ Block.elseForms otherwise))
  | .whileLoop _ test body => .tagged "while" [Expr.slotForm test, Block.slotForm body]
  | .forLoop _ init test step body =>
    .tagged "for" [Expr.slotForm init, Expr.slotForm test, Expr.slotForm step, Block.slotForm body]
  | .foreachLoop _ item collection body =>
    .tagged "foreach" [.atom item.text, Expr.slotForm collection, Block.slotForm body]
  | .breakLoop _ => .tagged "break" []
  | .nextRound _ => .tagged "next" []
  | .returnValue _ none => .tagged "return" []
  | .returnValue _ (some value) => .tagged "return" [value.form]

def Stmt.listForms : List Stmt → List Form
  | [] => []
  | stmt :: stmts => stmt.form :: Stmt.listForms stmts

def Branch.listForms (tag : String) : List Branch → List Form
  | [] => []
  | ⟨_, test, body⟩ :: branches =>
    .tagged tag [Expr.slotForm test, Block.slotForm body] :: Branch.listForms tag branches

end

/-- A whole unit, one top-level statement a line. -/
def Block.dump (unit : Block) : String :=
  "\n".intercalate (unit.stmts.map (·.form.text))

end LarkCheck
