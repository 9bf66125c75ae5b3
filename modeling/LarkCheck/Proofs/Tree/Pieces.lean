import LarkCheck.Token.Kind
import LarkCheck.Tree.Basic

/-!
# The tokens of a tree

A tree is written as a sequence of pieces. A piece is the kind of a token with the
spacing before it: a statement begins on a line of its own, the value of `return`
stands on the line of its word, and any other token follows the one before it
wherever it likes. The yield of a tree is its pieces without the spacing.
-/

namespace LarkCheck

open Token

/-- What stands before a token: at least one line break, no line break, or either. -/
inductive Spacing where
  | line | blank | free
deriving DecidableEq, Repr

structure Piece where
  spacing : Spacing
  kind : Kind
deriving DecidableEq, Repr

namespace Piece

def free (kind : Kind) : Piece := ⟨.free, kind⟩

def word (kw : Keyword) : Piece := free (.keyword kw)

def symbol (op : Operator) : Piece := free (.operator op)

def mark (mark : Punctuation) : Piece := free (.punctuation mark)

def name (text : String) : Piece := free (.ident text)

/-- The pieces after another spacing. -/
def lead (spacing : Spacing) : List Piece → List Piece
  | [] => []
  | p :: ps => ⟨spacing, p.kind⟩ :: ps

@[simp] theorem map_kind_lead (spacing : Spacing) (ps : List Piece) :
    (lead spacing ps).map (·.kind) = ps.map (·.kind) := by
  cases ps <;> rfl

@[simp] theorem kind_free (kind : Kind) : (free kind).kind = kind := rfl

@[simp] theorem kind_word (kw : Keyword) : (word kw).kind = .keyword kw := rfl

@[simp] theorem kind_symbol (op : Operator) : (symbol op).kind = .operator op := rfl

@[simp] theorem kind_mark (p : Punctuation) : (mark p).kind = .punctuation p := rfl

@[simp] theorem kind_name (text : String) : (name text).kind = .ident text := rfl

def furtherNames : List Name → List Piece
  | [] => []
  | n :: names => mark .comma :: name n.text :: furtherNames names

/-- Names with commas between them. -/
def names : List Name → List Piece
  | [] => []
  | n :: names => name n.text :: furtherNames names

/-- The names that a class includes, after their word. -/
def includes : List Name → List Piece
  | [] => []
  | first :: further => word .includeKw :: names (first :: further)

def furtherPath : List String → List Piece
  | [] => []
  | text :: path => mark .dot :: name text :: furtherPath path

/-- Names with dots between them. -/
def path : List String → List Piece
  | [] => []
  | text :: path => name text :: furtherPath path

end Piece

open Piece

/-- The word before a class section that is not the first. -/
def Access.keyword : Access → Keyword
  | publicPart => .publicKw
  | privatePart => .privateKw

mutual

def Expr.pieces : Expr → List Piece
  | .ident _ text => [name text]
  | .nil _ => [free .nil]
  | .bool _ value => [free (.bool value)]
  | .int _ value => [free (.int value)]
  | .real _ value => [free (.real value)]
  | .string _ value => [free (.string value)]
  | .receiver _ => [word .thisKw]
  | .array _ items => mark .lbracket :: (Expr.listPieces items ++ [mark .rbracket])
  | .hash _ pairs => mark .lbrace :: (Pair.listPieces pairs ++ [mark .rbrace])
  | .routine _ params body =>
    word .routineKw :: mark .lparen :: (Param.listPieces params ++
      mark .rparen :: (Block.slotPieces body ++ [word .endKw]))
  | .classDef _ text params base includes sections =>
    word .classKw :: name text :: mark .lparen :: (Param.listPieces params ++
      mark .rparen :: (Base.optionPieces base ++ (Piece.includes includes ++
        (Section.listPieces sections ++ [word .endKw]))))
  | .package _ text body =>
    word .packageKw :: name text :: (Block.slotPieces body ++ [word .endKw])
  | .paren _ inner => mark .lparen :: (Expr.slotPieces inner ++ [mark .rparen])
  | .index _ object index =>
    Expr.slotPieces object ++ mark .lbracket :: (Expr.slotPieces index ++ [mark .rbracket])
  | .call _ callee args =>
    Expr.slotPieces callee ++ mark .lparen :: (Expr.listPieces args ++ [mark .rparen])
  | .member _ object text => Expr.slotPieces object ++ [mark .dot, name text]
  | .unary _ op operand => symbol op :: Expr.slotPieces operand
  | .binary _ _ op left right => Expr.slotPieces left ++ symbol op :: Expr.slotPieces right
  | .assign _ target value => Expr.slotPieces target ++ symbol .assign :: Expr.slotPieces value

def Expr.slotPieces : Option Expr → List Piece
  | none => []
  | some e => e.pieces

/-- Expressions with commas between them. -/
def Expr.listPieces : List Expr → List Piece
  | [] => []
  | e :: es => e.pieces ++ Expr.furtherPieces es

def Expr.furtherPieces : List Expr → List Piece
  | [] => []
  | e :: es => mark .comma :: (e.pieces ++ Expr.furtherPieces es)

def Pair.pieces : Pair → List Piece
  | ⟨_, key, value⟩ => Expr.slotPieces key ++ mark .colon :: Expr.slotPieces value

def Pair.listPieces : List Pair → List Piece
  | [] => []
  | pair :: pairs => pair.pieces ++ Pair.furtherPieces pairs

def Pair.furtherPieces : List Pair → List Piece
  | [] => []
  | pair :: pairs => mark .comma :: (pair.pieces ++ Pair.furtherPieces pairs)

def Param.pieces : Param → List Piece
  | .value _ text none => [name text]
  | .value _ text (some default) => name text :: symbol .assign :: default.pieces
  | .output _ text => [word .outKw, name text]

def Param.listPieces : List Param → List Piece
  | [] => []
  | param :: params => param.pieces ++ Param.furtherPieces params

def Param.furtherPieces : List Param → List Piece
  | [] => []
  | param :: params => mark .comma :: (param.pieces ++ Param.furtherPieces params)

def Base.optionPieces : Option Base → List Piece
  | none => []
  | some ⟨base, args⟩ =>
    mark .colon :: name base.text :: mark .lparen :: (Expr.listPieces args ++ [mark .rparen])

/-- The sections of a class; the first stands without its word. -/
def Section.listPieces : List Section → List Piece
  | [] => []
  | ⟨_, _, body⟩ :: sections => Block.slotPieces body ++ Section.furtherPieces sections

def Section.furtherPieces : List Section → List Piece
  | [] => []
  | ⟨_, access, body⟩ :: sections =>
    word access.keyword :: (Block.slotPieces body ++ Section.furtherPieces sections)

def Block.pieces : Block → List Piece
  | ⟨_, stmts⟩ => Stmt.listPieces stmts

def Block.slotPieces : Option Block → List Piece
  | none => []
  | some block => block.pieces

def Block.elsePieces : Option Block → List Piece
  | none => []
  | some block => word .elseKw :: block.pieces

def Stmt.pieces : Stmt → List Piece
  | .importPath _ path => word .importKw :: Piece.path path
  | .expr _ e => Expr.slotPieces e
  | .cond _ test body elseifs otherwise =>
    word .ifKw :: (Expr.slotPieces test ++ (Block.slotPieces body ++
      (Branch.elseifPieces elseifs ++ (Block.elsePieces otherwise ++ [word .endKw]))))
  | .case _ subject whens otherwise =>
    word .caseKw :: (Expr.slotPieces subject ++
      (Branch.whenPieces whens ++ (Block.elsePieces otherwise ++ [word .endKw])))
  | .whileLoop _ test body =>
    word .whileKw :: (Expr.slotPieces test ++
      word .doKw :: (Block.slotPieces body ++ [word .endKw]))
  | .forLoop _ init test step body =>
    word .forKw :: (Expr.slotPieces init ++
      mark .comma :: (Expr.slotPieces test ++
        mark .comma :: (Expr.slotPieces step ++
          word .doKw :: (Block.slotPieces body ++ [word .endKw]))))
  | .foreachLoop _ item collection body =>
    word .foreachKw :: name item.text :: word .inKw :: (Expr.slotPieces collection ++
      word .doKw :: (Block.slotPieces body ++ [word .endKw]))
  | .breakLoop _ => [word .breakKw]
  | .nextRound _ => [word .nextKw]
  | .returnValue _ none => [word .returnKw]
  | .returnValue _ (some value) => word .returnKw :: lead .blank value.pieces

/-- Statements, each on a line of its own. -/
def Stmt.listPieces : List Stmt → List Piece
  | [] => []
  | stmt :: stmts => lead .line stmt.pieces ++ Stmt.listPieces stmts

def Branch.elseifPieces : List Branch → List Piece
  | [] => []
  | ⟨_, test, body⟩ :: branches =>
    word .elseifKw :: (Expr.slotPieces test ++ (Block.slotPieces body ++
      Branch.elseifPieces branches))

def Branch.whenPieces : List Branch → List Piece
  | [] => []
  | ⟨_, test, body⟩ :: branches =>
    word .whenKw :: (Expr.slotPieces test ++ word .thenKw :: (Block.slotPieces body ++
      Branch.whenPieces branches))

end

/-- The kinds of the tokens of a unit, in their order in the text. -/
def Block.yield (unit : Block) : List Kind :=
  unit.pieces.map (·.kind)

end LarkCheck
