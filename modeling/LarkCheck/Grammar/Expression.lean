import LarkCheck.Grammar.Parser

/-!
# Expressions

The productions of expressions, from assignment down to the literals. The ones
that nest are taken as given, one level deeper: `Nested` holds them. One loop reads
the binary operators of all levels from a least one on. It takes the right operand
of an operator from the next tighter level on, so that an operator of the same level
is left to the loop: operators of one level lean to the left.
-/

namespace LarkCheck

open Token

/-- The productions that may nest, each behind the guard of nesting. -/
structure Nested where
  stmt : Parser Stmt
  expr : Parser Expr
  unary : Parser Expr

namespace Parser

/-- Statements up to a token that ends a block. -/
def block (inner : Nested) : Parser Block := do
  let first ← current
  let stmts ← many (fun s => !s.current.kind.endsBlock) inner.stmt
  return ⟨first.loc, stmts⟩

/-- A block and the word that closes it. -/
def blockToEnd (inner : Nested) : Parser Block := do
  let body ← block inner
  let _ ← expect (.keyword .endKw) .expectedEnd
  return body

/-- After the word `out`: a name, and no default. -/
def outputParam (loc : Location) : Parser Param := do
  let _ ← advance
  let name ← identifier
  let next ← current
  if next.kind = .operator .assign then
    failAt next.loc .outputParameterDefault ("`out " ++ name.text ++ "` cannot have a default")
  else
    return .output loc name.text

/-- A name, with a default after `=`. -/
def valueParam (inner : Nested) (loc : Location) : Parser Param := do
  let name ← identifier
  let default ← after? (.operator .assign) inner.expr
  return .value loc name.text default

def param (inner : Nested) : Parser Param := do
  let first ← current
  if first.kind = .keyword .outKw then outputParam first.loc else valueParam inner first.loc

def params (inner : Nested) : Parser (List Param) := do
  let _ ← expect (.punctuation .lparen) .expectedLeftParen
  let params ← separatedUntil .rparen (param inner)
  let _ ← expect (.punctuation .rparen) .expectedRightParen
  return params

/-- Expressions up to a closing mark, and the mark. -/
def exprsTo (inner : Nested) (close : Punctuation) (code : Diagnostic.Code) :
    Parser (List Expr) := do
  let items ← separatedUntil close inner.expr
  let _ ← expect (.punctuation close) code
  return items

def routine (inner : Nested) : Parser Expr := do
  let first ← advance
  let params ← params inner
  let body ← blockToEnd inner
  return .routine first.loc params (some body)

/-- After the colon: the class that is extended, with its arguments. -/
def base (inner : Nested) : Parser Base := do
  let name ← identifier
  let _ ← expect (.punctuation .lparen) .expectedLeftParen
  let args ← exprsTo inner .rparen .expectedRightParen
  return ⟨name, args⟩

def sectionBody (inner : Nested) (access : Access) : Parser Section := do
  let first ← current
  let body ← block inner
  return ⟨first.loc, access, some body⟩

/-- The access that a word gives to the section after it. -/
def accessOf? : Kind → Option Access
  | .keyword .publicKw => some .publicPart
  | .keyword .privateKw => some .privatePart
  | _ => none

/-- A section after its access word. -/
def furtherSection (inner : Nested) : Parser Section := do
  let word ← advance
  sectionBody inner ((accessOf? word.kind).getD .publicPart)

/-- The sections of a class; the first is public without a word. -/
def sections (inner : Nested) : Parser (List Section) := do
  let first ← sectionBody inner .publicPart
  let further ← many (fun s => (accessOf? s.current.kind).isSome) (furtherSection inner)
  return first :: further

def classDef (inner : Nested) : Parser Expr := do
  let first ← advance
  let name ← identifier
  let params ← params inner
  let base ← after? (.punctuation .colon) (base inner)
  let includes ← after? (.keyword .includeKw) (separated identifier)
  let sections ← sections inner
  let _ ← expect (.keyword .endKw) .expectedEnd
  return .classDef first.loc name.text params base (includes.getD []) sections

def package (inner : Nested) : Parser Expr := do
  let first ← advance
  let name ← identifier
  let body ← blockToEnd inner
  return .package first.loc name.text (some body)

def array (inner : Nested) : Parser Expr := do
  let first ← advance
  let items ← exprsTo inner .rbracket .expectedRightBracket
  return .array first.loc items

def pair (inner : Nested) : Parser Pair := do
  let key ← inner.expr
  let _ ← expect (.punctuation .colon) .expectedColon
  let value ← inner.expr
  return ⟨key.loc, some key, some value⟩

def hash (inner : Nested) : Parser Expr := do
  let first ← advance
  let pairs ← separatedUntil .rbrace (pair inner)
  let _ ← expect (.punctuation .rbrace) .expectedRightBrace
  return .hash first.loc pairs

def paren (inner : Nested) : Parser Expr := do
  let first ← advance
  let e ← inner.expr
  let _ ← expect (.punctuation .rparen) .expectedRightParen
  return .paren first.loc (some e)

/-- The expression that one token stands for, if it is a name, a plain literal or `this`. -/
def atom? (loc : Location) : Kind → Option Expr
  | .ident name => some (.ident loc name)
  | .int value => some (.int loc value)
  | .real value => some (.real loc value)
  | .string value => some (.string loc value)
  | .bool value => some (.bool loc value)
  | .nil => some (.nil loc)
  | .keyword .thisKw => some (.receiver loc)
  | _ => none

def atom : Parser Expr := fun s =>
  match atom? s.current.loc s.current.kind with
  | some e => (do let _ ← advance; return e : Parser Expr) s
  | none => fail .expectedExpression s

def primary (inner : Nested) : Parser Expr := fun s =>
  match s.current.kind with
  | .keyword .routineKw => routine inner s
  | .keyword .classKw => classDef inner s
  | .keyword .packageKw => package inner s
  | .punctuation .lbracket => array inner s
  | .punctuation .lbrace => hash inner s
  | .punctuation .lparen => paren inner s
  | _ => atom s

/-- Whether a call, an index or a member access follows. -/
def opensPostfix : Kind → Bool
  | .punctuation .lparen | .punctuation .lbracket | .punctuation .dot => true
  | _ => false

/-- A call, an index or a member access on top of `e`. -/
def postfixLink (inner : Nested) (e : Expr) : Parser Expr := do
  raise
  let mark ← advance
  match mark.kind with
  | .punctuation .lparen =>
    let args ← exprsTo inner .rparen .expectedRightParen
    return .call e.loc (some e) args
  | .punctuation .lbracket =>
    let index ← inner.expr
    let _ ← expect (.punctuation .rbracket) .expectedRightBracket
    return .index e.loc (some e) (some index)
  | _ =>
    let name ← identifier
    return .member e.loc (some e) name.text

def postfixed (inner : Nested) : Parser Expr :=
  chain do
    let first ← primary inner
    links (fun s => opensPostfix s.current.kind) (postfixLink inner) first

/-- The operator of a token, if it may stand before its operand. -/
def unaryOf? (kind : Kind) : Option Operator :=
  kind.operator?.filter Operator.isUnary

def unary (inner : Nested) : Parser Expr := fun s =>
  match unaryOf? s.current.kind with
  | some op => (do
      let first ← advance
      let operand ← inner.unary
      return .unary first.loc op (some operand) : Parser Expr) s
  | none => postfixed inner s

/-- The operator of a token and its level, if it binds at least as tightly as `least`. -/
def binaryOf? (least : Level) (kind : Kind) : Option (Operator × Level) := do
  let op ← kind.operator?
  let level ← op.level?
  if least.rank ≤ level.rank then some (op, level) else none

theorem binaryOf?_eq_some {least level : Level} {kind : Kind} {op : Operator} :
    binaryOf? least kind = some (op, level) ↔
      kind = .operator op ∧ op.level? = some level ∧ least.rank ≤ level.rank := by
  constructor
  · intro h
    obtain ⟨own, hown, h⟩ := Option.bind_eq_some_iff.1 h
    obtain ⟨binds, hbinds, h⟩ := Option.bind_eq_some_iff.1 h
    split at h
    · rename_i hle
      cases h
      exact ⟨Kind.operator?_eq_some.1 hown, hbinds, hle⟩
    · cases h
  · rintro ⟨rfl, hlevel, hle⟩
    simp [binaryOf?, Kind.operator?, hlevel, hle]

mutual

/-- A chain of the operators that bind at least as tightly as `least`. -/
def climb (inner : Nested) (least : Level) : Parser Expr :=
  chain do
    let first ← unary inner
    links (fun s => (binaryOf? least s.current.kind).isSome) (binaryLink inner least) first
termination_by (9 - least.rank) * 3 + 2

/-- An operator and its right operand, on top of `left`. -/
def binaryLink (inner : Nested) (least : Level) (left : Expr) : Parser Expr := fun s =>
  match _h : binaryOf? least s.current.kind with
  | some (op, level) => (do
      let _ ← advance
      raise
      let right ← rightOperand inner level
      return .binary left.loc level op (some left) (some right) : Parser Expr) s
  | none => .ok left s
termination_by (9 - least.rank) * 3 + 1
decreasing_by
  have := (binaryOf?_eq_some.1 _h).2.2
  omega

/-- The right operand of an operator binds more tightly than the operator. -/
def rightOperand (inner : Nested) (level : Level) : Parser Expr :=
  match _h : level.tighter with
  | some next => climb inner next
  | none => unary inner
termination_by (9 - level.rank) * 3
decreasing_by
  have := Level.rank_of_tighter _h
  have := next.rank_lt
  omega

end

theorem binaryLink_of_some {inner : Nested} {least level : Level} {op : Operator} {left : Expr}
    {s : State} (h : binaryOf? least s.current.kind = some (op, level)) :
    binaryLink inner least left s = (do
      let _ ← advance
      raise
      let right ← rightOperand inner level
      return .binary left.loc level op (some left) (some right) : Parser Expr) s := by
  rw [binaryLink]
  split
  · rename_i hown
    cases h.symm.trans hown
    rfl
  · rename_i hnone
    cases h.symm.trans hnone

section Induction

variable {inner inner' : Nested} {R : Nat → Parser Expr → Parser Expr → Prop}

/-- Behind an operator of the tightest level stands a unary expression, and a chain behind any
other. -/
theorem rightOperand_related (level : Level) (hunary : R 9 (unary inner) (unary inner'))
    (hclimb : ∀ next : Level, next.rank = level.rank + 1 →
      R next.rank (climb inner next) (climb inner' next)) :
    R (level.rank + 1) (rightOperand inner level) (rightOperand inner' level) := by
  rw [rightOperand, rightOperand]
  split
  · rename_i next hnext
    have hrank := Level.rank_of_tighter hnext
    exact hrank ▸ hclimb next hrank
  · rename_i hnone
    exact Level.rank_of_tightest hnone ▸ hunary

/-- What relates the unary expressions of two parsers, and their chains if it relates the right
operands in them, relates all their chains. The number is the rank from which on the operators of
the chain bind. -/
theorem climb_related (hunary : R 9 (unary inner) (unary inner'))
    (step : ∀ least : Level, (∀ level : Level, least.rank ≤ level.rank →
      R (level.rank + 1) (rightOperand inner level) (rightOperand inner' level)) →
      R least.rank (climb inner least) (climb inner' least))
    (least : Level) : R least.rank (climb inner least) (climb inner' least) := by
  induction least using Level.tighter_induction with
  | step least ih =>
    refine step least fun level hle => rightOperand_related level hunary fun next hnext => ?_
    exact ih next (by omega)

variable {P : Nat → Parser Expr → Prop}

theorem climb_induction (hunary : P 9 (unary inner))
    (step : ∀ least : Level, (∀ level : Level, least.rank ≤ level.rank →
      P (level.rank + 1) (rightOperand inner level)) → P least.rank (climb inner least))
    (least : Level) : P least.rank (climb inner least) :=
  @climb_related inner inner (fun r p _ => P r p) hunary step least

theorem rightOperand_of_climb (hunary : P 9 (unary inner))
    (hclimb : ∀ next : Level, P next.rank (climb inner next)) (level : Level) :
    P (level.rank + 1) (rightOperand inner level) :=
  @rightOperand_related inner inner (fun r p _ => P r p) level hunary fun next _ => hclimb next

end Induction

/-- After a target, `=` and a value; what cannot be assigned to is reported. -/
def assignment (inner : Nested) : Parser Expr := do
  let target ← climb inner .loosest
  let next ← current
  if next.kind = .operator .assign then
    if target.isAssignable then
      let _ ← advance
      let value ← inner.expr
      return .assign target.loc (some target) (some value)
    else
      failAt target.loc .expectedTarget ("cannot assign to " ++ target.kindName)
  else
    return target

end Parser

end LarkCheck
