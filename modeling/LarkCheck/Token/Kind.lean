import LarkCheck.Decimal.Double
import LarkCheck.Text.Location
import LarkCheck.Text.Quoted
import LarkCheck.Vocabulary.Keyword
import LarkCheck.Vocabulary.Operator
import LarkCheck.Vocabulary.Punctuation

/-!
# Tokens

A token is a lexeme's kind and the place of its first character. The words
`true`, `false` and `nil` are reserved, but stand for values and not for keyword
tokens.
-/

namespace LarkCheck

namespace Token

inductive Kind where
  | keyword (kw : Keyword)
  | operator (op : Operator)
  | punctuation (mark : Punctuation)
  | ident (name : String)
  | int (value : Int)
  | real (value : Double)
  | string (value : String)
  | bool (value : Bool)
  | nil
  | eof
deriving DecidableEq, Repr

namespace Kind

/-- The kind of a reserved word. -/
def ofKeyword : Keyword → Kind
  | .trueKw => .bool true
  | .falseKw => .bool false
  | .nilKw => .nil
  | kw => .keyword kw

def keyword? : Kind → Option Keyword
  | .keyword kw => some kw
  | _ => none

def operator? : Kind → Option Operator
  | .operator op => some op
  | _ => none

theorem operator?_eq_some {kind : Kind} {op : Operator} :
    kind.operator? = some op ↔ kind = .operator op := by
  cases kind <;> simp [operator?]

def punctuation? : Kind → Option Punctuation
  | .punctuation mark => some mark
  | _ => none

/-- Whether a block ends before this token. -/
def endsBlock : Kind → Bool
  | .eof => true
  | .keyword kw =>
    match kw with
    | .endKw | .elseKw | .elseifKw | .whenKw | .publicKw | .privateKw => true
    | _ => false
  | _ => false

/-- Whether an expression can begin with this token. -/
def startsExpression : Kind → Bool
  | .ident _ | .int _ | .real _ | .string _ | .bool _ | .nil => true
  | .keyword kw =>
    match kw with
    | .thisKw | .routineKw | .classKw | .packageKw => true
    | _ => false
  | .punctuation mark =>
    match mark with
    | .lparen | .lbracket | .lbrace => true
    | _ => false
  | .operator op => op.isUnary
  | .eof => false

def boolText (value : Bool) : String :=
  if value then "true" else "false"

/-- The kind in words, as messages name what they found. -/
def describe : Kind → String
  | .keyword kw => "keyword `" ++ kw.spelling ++ "`"
  | .operator op => "operator `" ++ op.spelling ++ "`"
  | .punctuation mark => "`" ++ mark.char.toString ++ "`"
  | .ident name => "identifier `" ++ name ++ "`"
  | .int value => "integer " ++ toString value
  | .real value => "real " ++ value.text
  | .string value => "string " ++ Text.quoted value
  | .bool value => "bool " ++ boolText value
  | .nil => "nil"
  | .eof => "end of file"

end Kind

end Token

structure Token where
  kind : Token.Kind
  loc : Location
deriving DecidableEq, Repr

namespace Token

def text (token : Token) : String :=
  token.loc.text ++ " " ++ token.kind.describe

end Token

end LarkCheck
