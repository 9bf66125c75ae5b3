import LarkCheck.Diagnostic.Log
import LarkCheck.Grammar.Expression

/-!
# Statements and units

The productions of statements, and the unit over them: a block up to the end of
the file. The productions that nest are built level by level, and no construct
nests deeper than there are levels. A unit is parsed if no production stopped and
nothing that was read of it is an error.
-/

namespace LarkCheck

open Token

namespace Parser

def importStmt : Parser Stmt := do
  let word ← advance
  let first ← identifier
  let further ← many (·.isAt (.punctuation .dot)) do
    let _ ← advance
    identifier
  return .importPath word.loc ((first :: further).map (·.text))

/-- After `else`: the block to take when no condition holds. -/
def otherwise (inner : Nested) : Parser (Option Block) :=
  after? (.keyword .elseKw) (block inner)

def elseifBranch (inner : Nested) : Parser Branch := do
  let word ← advance
  let test ← inner.expr
  let body ← block inner
  return ⟨word.loc, some test, some body⟩

def condStmt (inner : Nested) : Parser Stmt := do
  let word ← advance
  let test ← inner.expr
  let body ← block inner
  let elseifs ← many (·.isAt (.keyword .elseifKw)) (elseifBranch inner)
  let otherwise ← otherwise inner
  let _ ← expect (.keyword .endKw) .expectedEnd
  return .cond word.loc (some test) (some body) elseifs otherwise

def whenClause (inner : Nested) : Parser Branch := do
  let word ← expect (.keyword .whenKw) .expectedWhen
  let test ← inner.expr
  let _ ← expect (.keyword .thenKw) .expectedThen
  let body ← block inner
  return ⟨word.loc, some test, some body⟩

/-- At least one clause must follow the subject. -/
def caseStmt (inner : Nested) : Parser Stmt := do
  let word ← advance
  let subject ← inner.expr
  let first ← whenClause inner
  let further ← many (·.isAt (.keyword .whenKw)) (whenClause inner)
  let otherwise ← otherwise inner
  let _ ← expect (.keyword .endKw) .expectedEnd
  return .case word.loc (some subject) (first :: further) otherwise

/-- The body of a loop, from the word `do` on. -/
def loopBody (inner : Nested) : Parser Block := do
  let _ ← expect (.keyword .doKw) .expectedDo
  blockToEnd inner

def whileStmt (inner : Nested) : Parser Stmt := do
  let word ← advance
  let test ← inner.expr
  let body ← loopBody inner
  return .whileLoop word.loc (some test) (some body)

def forStmt (inner : Nested) : Parser Stmt := do
  let word ← advance
  let init ← inner.expr
  let _ ← expect (.punctuation .comma) .expectedComma
  let test ← inner.expr
  let _ ← expect (.punctuation .comma) .expectedComma
  let step ← inner.expr
  let body ← loopBody inner
  return .forLoop word.loc (some init) (some test) (some step) (some body)

def foreachStmt (inner : Nested) : Parser Stmt := do
  let word ← advance
  let item ← identifier
  let _ ← expect (.keyword .inKw) .expectedIn
  let collection ← inner.expr
  let body ← loopBody inner
  return .foreachLoop word.loc item (some collection) (some body)

/-- A value belongs to `return` if it begins on the same line. -/
def returnStmt (inner : Nested) : Parser Stmt := do
  let word ← advance
  let next ← current
  if next.kind.startsExpression && next.loc.line = word.loc.line then
    let value ← inner.expr
    return .returnValue word.loc (some value)
  else
    return .returnValue word.loc none

/-- A statement that is one word. -/
def wordStmt (build : Location → Stmt) : Parser Stmt := do
  let word ← advance
  return build word.loc

def exprStmt (inner : Nested) : Parser Stmt := do
  let first ← current
  let e ← inner.expr
  return .expr first.loc (some e)

def stmt (inner : Nested) : Parser Stmt := fun s =>
  match s.current.kind with
  | .keyword .importKw => importStmt s
  | .keyword .ifKw => condStmt inner s
  | .keyword .caseKw => caseStmt inner s
  | .keyword .whileKw => whileStmt inner s
  | .keyword .forKw => forStmt inner s
  | .keyword .foreachKw => foreachStmt inner s
  | .keyword .breakKw => wordStmt .breakLoop s
  | .keyword .nextKw => wordStmt .nextRound s
  | .keyword .returnKw => returnStmt inner s
  | _ => exprStmt inner s

end Parser

namespace Nested

open LarkCheck.Parser

/-- The nesting productions with a number of levels left. -/
def ofLevels : Nat → Nested
  | 0 => ⟨fail .nestingTooDeep, fail .nestingTooDeep, fail .nestingTooDeep⟩
  | levels + 1 =>
    let inner := ofLevels levels
    ⟨nested (Parser.stmt inner), nested (assignment inner), nested (Parser.unary inner)⟩

end Nested

namespace Parser

/-- Before the first token of a text is read. -/
def State.start (readings : List Reading) : State :=
  ⟨⟨.eof, .start⟩, .ofList readings, [], 0, 0, 0⟩

def unit : Parser Block := do
  let _ ← advance
  let body ← block (.ofLevels maxNesting)
  let next ← current
  if next.kind = .eof then return body else fail .expectedEndOfFile

end Parser

/-- The tree of a text, or none if parsing failed or the error count has grown on the way. -/
def parse (log : Log) (text : List Char) : Option Block × Log :=
  match Parser.unit (.start (readings (.start text))) with
  | .ok unit s =>
    let after := log.append s.news
    (if log.errorCount < after.errorCount then none else some unit, after)
  | .error _ s => (none, log.append s.news)

end LarkCheck
