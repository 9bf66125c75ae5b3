import LarkCheck.Proofs.Tree.Pieces

/-!
# Nodes at their tokens

A tree is compared with a list of tokens, node by node. The tokens of a node are its
yield. They come after those of all that stands before the node in the text, so the
node is compared with what is left past the pieces of that. A block has the tokens of
its statements, and an empty one has none: it is compared with the token after it.
-/

namespace LarkCheck

open Token Piece

/-- The tokens that are left past the pieces. -/
def Piece.past (ps : List Piece) (ts : List Token) : List Token :=
  ts.drop ps.length

theorem Piece.past_append (ps qs : List Piece) (ts : List Token) :
    past (ps ++ qs) ts = past qs (past ps ts) := by
  simp [past]

@[simp] theorem Piece.past_lead (spacing : Spacing) (ps : List Piece) (ts : List Token) :
    past (lead spacing ps) ts = past ps ts := by
  cases ps <;> rfl

/-- The tokens begin with the yield of the pieces, and the first token stands at `loc`. -/
structure Stands (loc : Location) (ps : List Piece) (ts : List Token) : Prop where
  loc_eq : ts.head?.map (·.loc) = some loc
  isYield : ps.map (·.kind) <+: ts.map (·.kind)

/-- Every name stands at its token. -/
def Name.PlacedList : List Name → List Token → Prop
  | [], _ => True
  | n :: names, ts =>
    Stands n.loc [name n.text] ts ∧ Name.PlacedList names (past [name n.text, mark .comma] ts)

mutual

/-- Every node of the expression stands at its tokens. -/
def Expr.Placed : Expr → List Token → Prop
  | e@(.ident loc _), ts | e@(.nil loc), ts | e@(.bool loc _), ts | e@(.int loc _), ts
  | e@(.real loc _), ts | e@(.string loc _), ts | e@(.receiver loc), ts =>
    Stands loc e.pieces ts
  | e@(.array loc items), ts =>
    Stands loc e.pieces ts ∧ Expr.PlacedList items (past [mark .lbracket] ts)
  | e@(.hash loc pairs), ts =>
    Stands loc e.pieces ts ∧ Pair.PlacedList pairs (past [mark .lbrace] ts)
  | e@(.routine loc params body), ts =>
    Stands loc e.pieces ts ∧
      Param.PlacedList params (past [word .routineKw, mark .lparen] ts) ∧
      Block.PlacedSlot body (past (word .routineKw :: mark .lparen ::
        (Param.listPieces params ++ [mark .rparen])) ts)
  | e@(.classDef loc text params base includes sections), ts =>
    Stands loc e.pieces ts ∧
      Param.PlacedList params (past [word .classKw, name text, mark .lparen] ts) ∧
      Base.PlacedOption base (past (word .classKw :: name text :: mark .lparen ::
        (Param.listPieces params ++ [mark .rparen])) ts) ∧
      Name.PlacedList includes (past (word .classKw :: name text :: mark .lparen ::
        (Param.listPieces params ++ mark .rparen ::
          (Base.optionPieces base ++ [word .includeKw]))) ts) ∧
      Section.PlacedList sections (past (word .classKw :: name text :: mark .lparen ::
        (Param.listPieces params ++ mark .rparen ::
          (Base.optionPieces base ++ Piece.includes includes))) ts)
  | e@(.package loc text body), ts =>
    Stands loc e.pieces ts ∧ Block.PlacedSlot body (past [word .packageKw, name text] ts)
  | e@(.paren loc inner), ts =>
    Stands loc e.pieces ts ∧ Expr.PlacedSlot inner (past [mark .lparen] ts)
  | e@(.index loc object index), ts =>
    Stands loc e.pieces ts ∧ Expr.PlacedSlot object ts ∧
      Expr.PlacedSlot index (past (Expr.slotPieces object ++ [mark .lbracket]) ts)
  | e@(.call loc callee args), ts =>
    Stands loc e.pieces ts ∧ Expr.PlacedSlot callee ts ∧
      Expr.PlacedList args (past (Expr.slotPieces callee ++ [mark .lparen]) ts)
  | e@(.member loc object _), ts => Stands loc e.pieces ts ∧ Expr.PlacedSlot object ts
  | e@(.unary loc op operand), ts =>
    Stands loc e.pieces ts ∧ Expr.PlacedSlot operand (past [symbol op] ts)
  | e@(.binary loc _ op left right), ts =>
    Stands loc e.pieces ts ∧ Expr.PlacedSlot left ts ∧
      Expr.PlacedSlot right (past (Expr.slotPieces left ++ [symbol op]) ts)
  | e@(.assign loc target value), ts =>
    Stands loc e.pieces ts ∧ Expr.PlacedSlot target ts ∧
      Expr.PlacedSlot value (past (Expr.slotPieces target ++ [symbol .assign]) ts)

def Expr.PlacedSlot : Option Expr → List Token → Prop
  | none, _ => True
  | some e, ts => e.Placed ts

/-- Expressions with commas between them. -/
def Expr.PlacedList : List Expr → List Token → Prop
  | [], _ => True
  | e :: es, ts => e.Placed ts ∧ Expr.PlacedList es (past (e.pieces ++ [mark .comma]) ts)

def Pair.Placed : Pair → List Token → Prop
  | p@⟨loc, key, value⟩, ts =>
    Stands loc p.pieces ts ∧ Expr.PlacedSlot key ts ∧
      Expr.PlacedSlot value (past (Expr.slotPieces key ++ [mark .colon]) ts)

def Pair.PlacedList : List Pair → List Token → Prop
  | [], _ => True
  | p :: pairs, ts => p.Placed ts ∧ Pair.PlacedList pairs (past (p.pieces ++ [mark .comma]) ts)

def Param.Placed : Param → List Token → Prop
  | p@(.value loc text default), ts =>
    Stands loc p.pieces ts ∧ Expr.PlacedSlot default (past [name text, symbol .assign] ts)
  | p@(.output loc _), ts => Stands loc p.pieces ts

def Param.PlacedList : List Param → List Token → Prop
  | [], _ => True
  | p :: params, ts =>
    p.Placed ts ∧ Param.PlacedList params (past (p.pieces ++ [mark .comma]) ts)

/-- From the colon on: the name of the base class, with the arguments for its parameters. -/
def Base.PlacedOption : Option Base → List Token → Prop
  | none, _ => True
  | some ⟨base, args⟩, ts =>
    Stands base.loc [name base.text] (past [mark .colon] ts) ∧
      Expr.PlacedList args (past [mark .colon, name base.text, mark .lparen] ts)

/-- A section stands where its body does, after its word, which the first section has not. -/
def Section.Placed : Section → List Token → Prop
  | ⟨loc, _, body⟩, ts => Stands loc (Block.slotPieces body) ts ∧ Block.PlacedSlot body ts

def Section.PlacedList : List Section → List Token → Prop
  | [], _ => True
  | x :: sections, ts =>
    x.Placed ts ∧ Section.PlacedFurther sections (past (Block.slotPieces x.body) ts)

def Section.PlacedFurther : List Section → List Token → Prop
  | [], _ => True
  | x :: sections, ts =>
    x.Placed (past [word x.access.keyword] ts) ∧
      Section.PlacedFurther sections
        (past (word x.access.keyword :: Block.slotPieces x.body) ts)

/-- A block stands at its first statement, or at the token that ends it if there is none. -/
def Block.Placed : Block → List Token → Prop
  | b@⟨loc, stmts⟩, ts => Stands loc b.pieces ts ∧ Stmt.PlacedList stmts ts

def Block.PlacedSlot : Option Block → List Token → Prop
  | none, _ => True
  | some block, ts => block.Placed ts

/-- From the word `else` on. -/
def Block.PlacedElse : Option Block → List Token → Prop
  | none, _ => True
  | some block, ts => block.Placed (past [word .elseKw] ts)

def Stmt.Placed : Stmt → List Token → Prop
  | x@(.importPath loc _), ts | x@(.breakLoop loc), ts | x@(.nextRound loc), ts =>
    Stands loc x.pieces ts
  | x@(.expr loc e), ts => Stands loc x.pieces ts ∧ Expr.PlacedSlot e ts
  | x@(.cond loc test body elseifs otherwise), ts =>
    Stands loc x.pieces ts ∧
      Expr.PlacedSlot test (past [word .ifKw] ts) ∧
      Block.PlacedSlot body (past (word .ifKw :: Expr.slotPieces test) ts) ∧
      Branch.PlacedElseifs elseifs
        (past (word .ifKw :: (Expr.slotPieces test ++ Block.slotPieces body)) ts) ∧
      Block.PlacedElse otherwise (past (word .ifKw :: (Expr.slotPieces test ++
        (Block.slotPieces body ++ Branch.elseifPieces elseifs))) ts)
  | x@(.case loc subject whens otherwise), ts =>
    Stands loc x.pieces ts ∧
      Expr.PlacedSlot subject (past [word .caseKw] ts) ∧
      Branch.PlacedWhens whens (past (word .caseKw :: Expr.slotPieces subject) ts) ∧
      Block.PlacedElse otherwise
        (past (word .caseKw :: (Expr.slotPieces subject ++ Branch.whenPieces whens)) ts)
  | x@(.whileLoop loc test body), ts =>
    Stands loc x.pieces ts ∧
      Expr.PlacedSlot test (past [word .whileKw] ts) ∧
      Block.PlacedSlot body
        (past (word .whileKw :: (Expr.slotPieces test ++ [word .doKw])) ts)
  | x@(.forLoop loc init test step body), ts =>
    Stands loc x.pieces ts ∧
      Expr.PlacedSlot init (past [word .forKw] ts) ∧
      Expr.PlacedSlot test (past (word .forKw :: (Expr.slotPieces init ++ [mark .comma])) ts) ∧
      Expr.PlacedSlot step (past (word .forKw :: (Expr.slotPieces init ++
        mark .comma :: (Expr.slotPieces test ++ [mark .comma]))) ts) ∧
      Block.PlacedSlot body (past (word .forKw :: (Expr.slotPieces init ++
        mark .comma :: (Expr.slotPieces test ++
          mark .comma :: (Expr.slotPieces step ++ [word .doKw])))) ts)
  | x@(.foreachLoop loc item collection body), ts =>
    Stands loc x.pieces ts ∧
      Stands item.loc [name item.text] (past [word .foreachKw] ts) ∧
      Expr.PlacedSlot collection (past [word .foreachKw, name item.text, word .inKw] ts) ∧
      Block.PlacedSlot body (past (word .foreachKw :: name item.text :: word .inKw ::
        (Expr.slotPieces collection ++ [word .doKw])) ts)
  | x@(.returnValue loc value), ts =>
    Stands loc x.pieces ts ∧ Expr.PlacedSlot value (past [word .returnKw] ts)

def Stmt.PlacedList : List Stmt → List Token → Prop
  | [], _ => True
  | x :: stmts, ts => x.Placed ts ∧ Stmt.PlacedList stmts (past x.pieces ts)

def Branch.PlacedElseif : Branch → List Token → Prop
  | ⟨loc, test, body⟩, ts =>
    Stands loc (word .elseifKw :: (Expr.slotPieces test ++ Block.slotPieces body)) ts ∧
      Expr.PlacedSlot test (past [word .elseifKw] ts) ∧
      Block.PlacedSlot body (past (word .elseifKw :: Expr.slotPieces test) ts)

def Branch.PlacedElseifs : List Branch → List Token → Prop
  | [], _ => True
  | b :: branches, ts =>
    b.PlacedElseif ts ∧ Branch.PlacedElseifs branches
      (past (word .elseifKw :: (Expr.slotPieces b.test ++ Block.slotPieces b.body)) ts)

def Branch.PlacedWhen : Branch → List Token → Prop
  | ⟨loc, test, body⟩, ts =>
    Stands loc (word .whenKw :: (Expr.slotPieces test ++
        word .thenKw :: Block.slotPieces body)) ts ∧
      Expr.PlacedSlot test (past [word .whenKw] ts) ∧
      Block.PlacedSlot body (past (word .whenKw :: (Expr.slotPieces test ++ [word .thenKw])) ts)

def Branch.PlacedWhens : List Branch → List Token → Prop
  | [], _ => True
  | b :: branches, ts =>
    b.PlacedWhen ts ∧ Branch.PlacedWhens branches (past (word .whenKw :: (Expr.slotPieces b.test ++
      word .thenKw :: Block.slotPieces b.body)) ts)

end

/-- An expression that is placed has its own place from its first token. -/
theorem Expr.Placed.stands {e : Expr} {ts : List Token} (h : e.Placed ts) :
    Stands e.loc e.pieces ts := by
  cases e with
  | ident | nil | bool | int | real | string | receiver => exact h
  | _ => exact h.1

end LarkCheck
