import LarkCheck.Tree.Basic

/-!
# Trees without places

Two trees are the same up to their places if they become equal when every location
in them is put to the start of the text.
-/

namespace LarkCheck

@[simp] def Name.erase (n : Name) : Name := ⟨.start, n.text⟩

mutual

@[simp] def Expr.erase : Expr → Expr
  | .ident _ name => .ident .start name
  | .nil _ => .nil .start
  | .bool _ value => .bool .start value
  | .int _ value => .int .start value
  | .real _ value => .real .start value
  | .string _ value => .string .start value
  | .receiver _ => .receiver .start
  | .array _ items => .array .start (Expr.eraseList items)
  | .hash _ pairs => .hash .start (Pair.eraseList pairs)
  | .routine _ params body => .routine .start (Param.eraseList params) (Block.eraseSlot body)
  | .classDef _ name params base includes sections =>
    .classDef .start name (Param.eraseList params) (Base.eraseOption base)
      (includes.map Name.erase) (Section.eraseList sections)
  | .package _ name body => .package .start name (Block.eraseSlot body)
  | .paren _ inner => .paren .start (Expr.eraseSlot inner)
  | .index _ object index => .index .start (Expr.eraseSlot object) (Expr.eraseSlot index)
  | .call _ callee args => .call .start (Expr.eraseSlot callee) (Expr.eraseList args)
  | .member _ object name => .member .start (Expr.eraseSlot object) name
  | .unary _ op operand => .unary .start op (Expr.eraseSlot operand)
  | .binary _ level op left right =>
    .binary .start level op (Expr.eraseSlot left) (Expr.eraseSlot right)
  | .assign _ target value => .assign .start (Expr.eraseSlot target) (Expr.eraseSlot value)

@[simp] def Expr.eraseSlot : Option Expr → Option Expr
  | none => none
  | some e => some e.erase

def Expr.eraseList : List Expr → List Expr
  | [] => []
  | e :: es => e.erase :: Expr.eraseList es

@[simp] def Pair.erase : Pair → Pair
  | ⟨_, key, value⟩ => ⟨.start, Expr.eraseSlot key, Expr.eraseSlot value⟩

def Pair.eraseList : List Pair → List Pair
  | [] => []
  | pair :: pairs => pair.erase :: Pair.eraseList pairs

@[simp] def Param.erase : Param → Param
  | .value _ name default => .value .start name (Expr.eraseSlot default)
  | .output _ name => .output .start name

def Param.eraseList : List Param → List Param
  | [] => []
  | param :: params => param.erase :: Param.eraseList params

@[simp] def Base.erase : Base → Base
  | ⟨name, args⟩ => ⟨name.erase, Expr.eraseList args⟩

@[simp] def Base.eraseOption : Option Base → Option Base
  | none => none
  | some base => some base.erase

@[simp] def Section.erase : Section → Section
  | ⟨_, access, body⟩ => ⟨.start, access, Block.eraseSlot body⟩

def Section.eraseList : List Section → List Section
  | [] => []
  | part :: sections => part.erase :: Section.eraseList sections

@[simp] def Block.erase : Block → Block
  | ⟨_, stmts⟩ => ⟨.start, Stmt.eraseList stmts⟩

@[simp] def Block.eraseSlot : Option Block → Option Block
  | none => none
  | some block => some block.erase

@[simp] def Stmt.erase : Stmt → Stmt
  | .importPath _ path => .importPath .start path
  | .expr _ e => .expr .start (Expr.eraseSlot e)
  | .cond _ test body elseifs otherwise =>
    .cond .start (Expr.eraseSlot test) (Block.eraseSlot body) (Branch.eraseList elseifs)
      (Block.eraseSlot otherwise)
  | .case _ subject whens otherwise =>
    .case .start (Expr.eraseSlot subject) (Branch.eraseList whens) (Block.eraseSlot otherwise)
  | .whileLoop _ test body => .whileLoop .start (Expr.eraseSlot test) (Block.eraseSlot body)
  | .forLoop _ init test step body =>
    .forLoop .start (Expr.eraseSlot init) (Expr.eraseSlot test) (Expr.eraseSlot step)
      (Block.eraseSlot body)
  | .foreachLoop _ item collection body =>
    .foreachLoop .start item.erase (Expr.eraseSlot collection) (Block.eraseSlot body)
  | .breakLoop _ => .breakLoop .start
  | .nextRound _ => .nextRound .start
  | .returnValue _ value => .returnValue .start (Expr.eraseSlot value)

def Stmt.eraseList : List Stmt → List Stmt
  | [] => []
  | stmt :: stmts => stmt.erase :: Stmt.eraseList stmts

@[simp] def Branch.erase : Branch → Branch
  | ⟨_, test, body⟩ => ⟨.start, Expr.eraseSlot test, Block.eraseSlot body⟩

def Branch.eraseList : List Branch → List Branch
  | [] => []
  | branch :: branches => branch.erase :: Branch.eraseList branches

end

@[simp] theorem Expr.eraseList_eq_map (es : List Expr) : Expr.eraseList es = es.map Expr.erase := by
  induction es with
  | nil => rfl
  | cons e es ih => simp [Expr.eraseList, ih]

@[simp] theorem Pair.eraseList_eq_map (ps : List Pair) : Pair.eraseList ps = ps.map Pair.erase := by
  induction ps with
  | nil => rfl
  | cons p ps ih => simp [Pair.eraseList, ih]

@[simp] theorem Param.eraseList_eq_map (ps : List Param) :
    Param.eraseList ps = ps.map Param.erase := by
  induction ps with
  | nil => rfl
  | cons p ps ih => simp [Param.eraseList, ih]

@[simp] theorem Section.eraseList_eq_map (xs : List Section) :
    Section.eraseList xs = xs.map Section.erase := by
  induction xs with
  | nil => rfl
  | cons x xs ih => simp [Section.eraseList, ih]

@[simp] theorem Stmt.eraseList_eq_map (xs : List Stmt) : Stmt.eraseList xs = xs.map Stmt.erase := by
  induction xs with
  | nil => rfl
  | cons x xs ih => simp [Stmt.eraseList, ih]

@[simp] theorem Branch.eraseList_eq_map (bs : List Branch) :
    Branch.eraseList bs = bs.map Branch.erase := by
  induction bs with
  | nil => rfl
  | cons b bs ih => simp [Branch.eraseList, ih]

theorem Expr.isAssignable_erase (e : Expr) : e.erase.isAssignable = e.isAssignable := by
  cases e <;> rfl

theorem Expr.isAssignable_of_erase {e e' : Expr} (h : e'.erase = e.erase) :
    e'.isAssignable = e.isAssignable := by
  rw [← isAssignable_erase, h, isAssignable_erase]

end LarkCheck
