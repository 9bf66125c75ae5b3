import LarkCheck.Diagnostic.Log
import LarkCheck.Token.Kind
import LarkCheck.Tree.Basic

/-!
# Moving what stands in a text

A text that is put somewhere else keeps everything but its places. `move f` applies
`f` to each place in a token, a diagnostic or a tree and leaves the rest alone.
-/

namespace LarkCheck

/-- Values with places in them. -/
class Movable (α : Type) where
  move : (Location → Location) → α → α

export Movable (move)

instance : Movable Token := ⟨fun f token => { token with loc := f token.loc }⟩
instance : Movable Name := ⟨fun f name => { name with loc := f name.loc }⟩
instance : Movable Diagnostic := ⟨fun f d => { d with loc := f d.loc }⟩
instance {α : Type} [Movable α] : Movable (Option α) := ⟨fun f => Option.map (move f)⟩
instance {α : Type} [Movable α] : Movable (List α) := ⟨fun f => List.map (move f)⟩

mutual

def Expr.move (f : Location → Location) : Expr → Expr
  | .ident loc name => .ident (f loc) name
  | .nil loc => .nil (f loc)
  | .bool loc value => .bool (f loc) value
  | .int loc value => .int (f loc) value
  | .real loc value => .real (f loc) value
  | .string loc value => .string (f loc) value
  | .receiver loc => .receiver (f loc)
  | .array loc items => .array (f loc) (Expr.moveList f items)
  | .hash loc pairs => .hash (f loc) (Pair.moveList f pairs)
  | .routine loc params body => .routine (f loc) (Param.moveList f params) (Block.moveSlot f body)
  | .classDef loc name params base includes sections =>
    .classDef (f loc) name (Param.moveList f params) (Base.moveOption f base)
      (LarkCheck.move f includes) (Section.moveList f sections)
  | .package loc name body => .package (f loc) name (Block.moveSlot f body)
  | .paren loc inner => .paren (f loc) (Expr.moveSlot f inner)
  | .index loc object index => .index (f loc) (Expr.moveSlot f object) (Expr.moveSlot f index)
  | .call loc callee args => .call (f loc) (Expr.moveSlot f callee) (Expr.moveList f args)
  | .member loc object name => .member (f loc) (Expr.moveSlot f object) name
  | .unary loc op operand => .unary (f loc) op (Expr.moveSlot f operand)
  | .binary loc level op left right =>
    .binary (f loc) level op (Expr.moveSlot f left) (Expr.moveSlot f right)
  | .assign loc target value => .assign (f loc) (Expr.moveSlot f target) (Expr.moveSlot f value)

def Expr.moveSlot (f : Location → Location) : Option Expr → Option Expr
  | none => none
  | some e => some (e.move f)

def Expr.moveList (f : Location → Location) : List Expr → List Expr
  | [] => []
  | e :: es => e.move f :: Expr.moveList f es

def Pair.move (f : Location → Location) : Pair → Pair
  | ⟨loc, key, value⟩ => ⟨f loc, Expr.moveSlot f key, Expr.moveSlot f value⟩

def Pair.moveList (f : Location → Location) : List Pair → List Pair
  | [] => []
  | pair :: pairs => pair.move f :: Pair.moveList f pairs

def Param.move (f : Location → Location) : Param → Param
  | .value loc name default => .value (f loc) name (Expr.moveSlot f default)
  | .output loc name => .output (f loc) name

def Param.moveList (f : Location → Location) : List Param → List Param
  | [] => []
  | param :: params => param.move f :: Param.moveList f params

def Base.move (f : Location → Location) : Base → Base
  | ⟨name, args⟩ => ⟨LarkCheck.move f name, Expr.moveList f args⟩

def Base.moveOption (f : Location → Location) : Option Base → Option Base
  | none => none
  | some base => some (base.move f)

def Section.move (f : Location → Location) : Section → Section
  | ⟨loc, access, body⟩ => ⟨f loc, access, Block.moveSlot f body⟩

def Section.moveList (f : Location → Location) : List Section → List Section
  | [] => []
  | part :: sections => part.move f :: Section.moveList f sections

def Block.move (f : Location → Location) : Block → Block
  | ⟨loc, stmts⟩ => ⟨f loc, Stmt.moveList f stmts⟩

def Block.moveSlot (f : Location → Location) : Option Block → Option Block
  | none => none
  | some block => some (block.move f)

def Stmt.move (f : Location → Location) : Stmt → Stmt
  | .importPath loc path => .importPath (f loc) path
  | .expr loc e => .expr (f loc) (Expr.moveSlot f e)
  | .cond loc test body elseifs otherwise =>
    .cond (f loc) (Expr.moveSlot f test) (Block.moveSlot f body) (Branch.moveList f elseifs)
      (Block.moveSlot f otherwise)
  | .case loc subject whens otherwise =>
    .case (f loc) (Expr.moveSlot f subject) (Branch.moveList f whens) (Block.moveSlot f otherwise)
  | .whileLoop loc test body => .whileLoop (f loc) (Expr.moveSlot f test) (Block.moveSlot f body)
  | .forLoop loc init test step body =>
    .forLoop (f loc) (Expr.moveSlot f init) (Expr.moveSlot f test) (Expr.moveSlot f step)
      (Block.moveSlot f body)
  | .foreachLoop loc item collection body =>
    .foreachLoop (f loc) (LarkCheck.move f item) (Expr.moveSlot f collection)
      (Block.moveSlot f body)
  | .breakLoop loc => .breakLoop (f loc)
  | .nextRound loc => .nextRound (f loc)
  | .returnValue loc value => .returnValue (f loc) (Expr.moveSlot f value)

def Stmt.moveList (f : Location → Location) : List Stmt → List Stmt
  | [] => []
  | stmt :: stmts => stmt.move f :: Stmt.moveList f stmts

def Branch.move (f : Location → Location) : Branch → Branch
  | ⟨loc, test, body⟩ => ⟨f loc, Expr.moveSlot f test, Block.moveSlot f body⟩

def Branch.moveList (f : Location → Location) : List Branch → List Branch
  | [] => []
  | branch :: branches => branch.move f :: Branch.moveList f branches

end

instance : Movable Expr := ⟨Expr.move⟩
instance : Movable Pair := ⟨Pair.move⟩
instance : Movable Param := ⟨Param.move⟩
instance : Movable Base := ⟨Base.move⟩
instance : Movable Section := ⟨Section.move⟩
instance : Movable Block := ⟨Block.move⟩
instance : Movable Stmt := ⟨Stmt.move⟩
instance : Movable Branch := ⟨Branch.move⟩

variable {f : Location → Location}

@[simp] theorem Expr.moveSlot_eq_map (e : Option Expr) :
    Expr.moveSlot f e = e.map (Expr.move f) := by
  cases e <;> rfl

@[simp] theorem Expr.moveList_eq_map (es : List Expr) :
    Expr.moveList f es = es.map (Expr.move f) := by
  induction es with
  | nil => rfl
  | cons e es ih => rw [Expr.moveList, ih, List.map_cons]

@[simp] theorem Pair.moveList_eq_map (ps : List Pair) :
    Pair.moveList f ps = ps.map (Pair.move f) := by
  induction ps with
  | nil => rfl
  | cons p ps ih => rw [Pair.moveList, ih, List.map_cons]

@[simp] theorem Param.moveList_eq_map (ps : List Param) :
    Param.moveList f ps = ps.map (Param.move f) := by
  induction ps with
  | nil => rfl
  | cons p ps ih => rw [Param.moveList, ih, List.map_cons]

@[simp] theorem Base.moveOption_eq_map (base : Option Base) :
    Base.moveOption f base = base.map (Base.move f) := by
  cases base <;> rfl

@[simp] theorem Section.moveList_eq_map (xs : List Section) :
    Section.moveList f xs = xs.map (Section.move f) := by
  induction xs with
  | nil => rfl
  | cons x xs ih => rw [Section.moveList, ih, List.map_cons]

@[simp] theorem Block.moveSlot_eq_map (block : Option Block) :
    Block.moveSlot f block = block.map (Block.move f) := by
  cases block <;> rfl

@[simp] theorem Stmt.moveList_eq_map (xs : List Stmt) :
    Stmt.moveList f xs = xs.map (Stmt.move f) := by
  induction xs with
  | nil => rfl
  | cons x xs ih => rw [Stmt.moveList, ih, List.map_cons]

@[simp] theorem Branch.moveList_eq_map (bs : List Branch) :
    Branch.moveList f bs = bs.map (Branch.move f) := by
  induction bs with
  | nil => rfl
  | cons b bs ih => rw [Branch.moveList, ih, List.map_cons]

theorem Name.move_id (name : Name) : move id name = name := rfl

mutual

theorem Expr.move_id : (e : Expr) → e.move id = e
  | .ident .. | .nil _ | .bool .. | .int .. | .real .. | .string .. | .receiver _ => rfl
  | .array loc items => by rw [Expr.move, Expr.moveList_id items, id]
  | .hash loc pairs => by rw [Expr.move, Pair.moveList_id pairs, id]
  | .routine loc params body => by
    rw [Expr.move, Param.moveList_id params, Block.moveSlot_id body, id]
  | .classDef loc name params base includes sections => by
    rw [Expr.move, Param.moveList_id params, Base.moveOption_id base,
      Section.moveList_id sections, id]
    simp [Movable.move]
  | .package loc name body => by rw [Expr.move, Block.moveSlot_id body, id]
  | .paren loc inner => by rw [Expr.move, Expr.moveSlot_id inner, id]
  | .index loc object index => by
    rw [Expr.move, Expr.moveSlot_id object, Expr.moveSlot_id index, id]
  | .call loc callee args => by
    rw [Expr.move, Expr.moveSlot_id callee, Expr.moveList_id args, id]
  | .member loc object name => by rw [Expr.move, Expr.moveSlot_id object, id]
  | .unary loc op operand => by rw [Expr.move, Expr.moveSlot_id operand, id]
  | .binary loc level op left right => by
    rw [Expr.move, Expr.moveSlot_id left, Expr.moveSlot_id right, id]
  | .assign loc target value => by
    rw [Expr.move, Expr.moveSlot_id target, Expr.moveSlot_id value, id]

theorem Expr.moveSlot_id : (e : Option Expr) → Expr.moveSlot id e = e
  | none => rfl
  | some e => by rw [Expr.moveSlot, Expr.move_id e]

theorem Expr.moveList_id : (es : List Expr) → Expr.moveList id es = es
  | [] => rfl
  | e :: es => by rw [Expr.moveList, Expr.move_id e, Expr.moveList_id es]

theorem Pair.move_id : (pair : Pair) → pair.move id = pair
  | ⟨loc, key, value⟩ => by rw [Pair.move, Expr.moveSlot_id key, Expr.moveSlot_id value, id]

theorem Pair.moveList_id : (ps : List Pair) → Pair.moveList id ps = ps
  | [] => rfl
  | p :: ps => by rw [Pair.moveList, Pair.move_id p, Pair.moveList_id ps]

theorem Param.move_id : (param : Param) → param.move id = param
  | .value loc name default => by rw [Param.move, Expr.moveSlot_id default, id]
  | .output .. => rfl

theorem Param.moveList_id : (ps : List Param) → Param.moveList id ps = ps
  | [] => rfl
  | p :: ps => by rw [Param.moveList, Param.move_id p, Param.moveList_id ps]

theorem Base.move_id : (base : Base) → base.move id = base
  | ⟨name, args⟩ => by rw [Base.move, Name.move_id, Expr.moveList_id args]

theorem Base.moveOption_id : (base : Option Base) → Base.moveOption id base = base
  | none => rfl
  | some base => by rw [Base.moveOption, Base.move_id base]

theorem Section.move_id : (part : Section) → part.move id = part
  | ⟨loc, access, body⟩ => by rw [Section.move, Block.moveSlot_id body, id]

theorem Section.moveList_id : (xs : List Section) → Section.moveList id xs = xs
  | [] => rfl
  | x :: xs => by rw [Section.moveList, Section.move_id x, Section.moveList_id xs]

theorem Block.move_id : (block : Block) → block.move id = block
  | ⟨loc, stmts⟩ => by rw [Block.move, Stmt.moveList_id stmts, id]

theorem Block.moveSlot_id : (block : Option Block) → Block.moveSlot id block = block
  | none => rfl
  | some block => by rw [Block.moveSlot, Block.move_id block]

theorem Stmt.move_id : (x : Stmt) → x.move id = x
  | .importPath .. | .breakLoop _ | .nextRound _ => rfl
  | .expr loc e => by rw [Stmt.move, Expr.moveSlot_id e, id]
  | .cond loc test body elseifs otherwise => by
    rw [Stmt.move, Expr.moveSlot_id test, Block.moveSlot_id body, Branch.moveList_id elseifs,
      Block.moveSlot_id otherwise, id]
  | .case loc subject whens otherwise => by
    rw [Stmt.move, Expr.moveSlot_id subject, Branch.moveList_id whens,
      Block.moveSlot_id otherwise, id]
  | .whileLoop loc test body => by
    rw [Stmt.move, Expr.moveSlot_id test, Block.moveSlot_id body, id]
  | .forLoop loc init test step body => by
    rw [Stmt.move, Expr.moveSlot_id init, Expr.moveSlot_id test, Expr.moveSlot_id step,
      Block.moveSlot_id body, id]
  | .foreachLoop loc item collection body => by
    rw [Stmt.move, Name.move_id, Expr.moveSlot_id collection, Block.moveSlot_id body, id]
  | .returnValue loc value => by rw [Stmt.move, Expr.moveSlot_id value, id]

theorem Stmt.moveList_id : (xs : List Stmt) → Stmt.moveList id xs = xs
  | [] => rfl
  | x :: xs => by rw [Stmt.moveList, Stmt.move_id x, Stmt.moveList_id xs]

theorem Branch.move_id : (branch : Branch) → branch.move id = branch
  | ⟨loc, test, body⟩ => by rw [Branch.move, Expr.moveSlot_id test, Block.moveSlot_id body, id]

theorem Branch.moveList_id : (bs : List Branch) → Branch.moveList id bs = bs
  | [] => rfl
  | b :: bs => by rw [Branch.moveList, Branch.move_id b, Branch.moveList_id bs]

end

theorem Expr.loc_move (e : Expr) : (move f e).loc = f e.loc := by
  cases e <;> rfl

theorem Expr.isAssignable_move (e : Expr) : (move f e).isAssignable = e.isAssignable := by
  cases e <;> rfl

end LarkCheck
