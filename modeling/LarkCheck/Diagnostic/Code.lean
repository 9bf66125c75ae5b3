/-!
# The catalog of diagnostics

Every problem the checker reports has a stable number and a fixed message. The
thousands tell the kind: 1000s warnings, 2000s lexical errors, 3000s syntax
errors, from 3501 on errors of meaning. Conditions that abort a whole unit are
numbered apart, in `Fatal`.
-/

namespace LarkCheck

inductive Severity where
  | warning | error | fatal
deriving DecidableEq, Repr

namespace Severity

def letter : Severity → Char
  | warning => 'W'
  | error => 'E'
  | fatal => 'F'

def name : Severity → String
  | warning => "warning"
  | error => "error"
  | fatal => "fatal"

/-- Errors and worse make a stage fail; warnings never do. -/
def isError : Severity → Bool
  | warning => false
  | error | fatal => true

end Severity

namespace Diagnostic

inductive Code where
  | unknownEscapeSequence
  | wrongCharacter
  | stringNotTerminated
  | integerLiteralTooLarge
  | expectedExpression
  | expectedTarget
  | expectedIdentifier
  | expectedEnd
  | expectedLeftParen
  | expectedRightParen
  | expectedRightBracket
  | expectedRightBrace
  | expectedColon
  | expectedComma
  | expectedIn
  | expectedDo
  | expectedThen
  | expectedWhen
  | outputParameterDefault
  | expectedEndOfFile
  | nestingTooDeep
  | undeclaredIdentifier
  | missingChild
deriving DecidableEq, Repr

namespace Code

/-- Every code, in increasing order of its number. -/
def all : List Code :=
  [unknownEscapeSequence,
   wrongCharacter, stringNotTerminated, integerLiteralTooLarge,
   expectedExpression, expectedTarget, expectedIdentifier, expectedEnd, expectedLeftParen,
   expectedRightParen, expectedRightBracket, expectedRightBrace, expectedColon, expectedComma,
   expectedIn, expectedDo, expectedThen, expectedWhen, outputParameterDefault,
   expectedEndOfFile, nestingTooDeep,
   undeclaredIdentifier, missingChild]

def number : Code → Nat
  | unknownEscapeSequence => 1001
  | wrongCharacter => 2001
  | stringNotTerminated => 2002
  | integerLiteralTooLarge => 2003
  | expectedExpression => 3001
  | expectedTarget => 3002
  | expectedIdentifier => 3003
  | expectedEnd => 3004
  | expectedLeftParen => 3005
  | expectedRightParen => 3006
  | expectedRightBracket => 3007
  | expectedRightBrace => 3008
  | expectedColon => 3009
  | expectedComma => 3010
  | expectedIn => 3011
  | expectedDo => 3012
  | expectedThen => 3013
  | expectedWhen => 3014
  | outputParameterDefault => 3015
  | expectedEndOfFile => 3016
  | nestingTooDeep => 3017
  | undeclaredIdentifier => 3501
  | missingChild => 3502

def severity : Code → Severity
  | unknownEscapeSequence => .warning
  | _ => .error

def message : Code → String
  | unknownEscapeSequence => "unknown escape sequence in string literal"
  | wrongCharacter => "unexpected character"
  | stringNotTerminated => "string literal is not terminated"
  | integerLiteralTooLarge => "integer literal does not fit in 64 bits"
  | expectedExpression => "expected an expression"
  | expectedTarget =>
    "left-hand side of an assignment must be an identifier, member or index reference"
  | expectedIdentifier => "expected an identifier"
  | expectedEnd => "expected 'end'"
  | expectedLeftParen => "expected '('"
  | expectedRightParen => "expected ')'"
  | expectedRightBracket => "expected ']'"
  | expectedRightBrace => "expected '\x7d'"
  | expectedColon => "expected ':'"
  | expectedComma => "expected ','"
  | expectedIn => "expected 'in'"
  | expectedDo => "expected 'do'"
  | expectedThen => "expected 'then'"
  | expectedWhen => "expected 'when'"
  | outputParameterDefault => "output parameters cannot have a default argument"
  | expectedEndOfFile => "expected end of file"
  | nestingTooDeep => "construct is nested too deeply"
  | undeclaredIdentifier => "use of undeclared identifier"
  | missingChild => "syntax tree is missing a required child"

/-- The letter of the catalog's severity, then the number. -/
def text (code : Code) : String :=
  code.severity.letter.toString ++ toString code.number

def ofNumber? (number : Nat) : Option Code :=
  all.find? fun code => code.number == number

/-- Whether the grammar, rather than a lexeme or a meaning, was violated. -/
def isSyntax (code : Code) : Bool :=
  3000 ≤ code.number && code.number < 3500

theorem mem_all (code : Code) : code ∈ all := by
  cases code <;> decide

theorem ofNumber?_number (code : Code) : ofNumber? code.number = some code := by
  cases code <;> decide

end Code

/-- A bare number in words, or the number itself if no code has it. -/
def describeNumber (number : Nat) : String :=
  match Code.ofNumber? number with
  | some code => code.text ++ ": " ++ code.message
  | none => toString number

end Diagnostic

/-- The conditions that abort a whole unit. -/
inductive Fatal where
  | noInputFile | cannotOpen | cannotRead | cannotClose | outOfMemory
deriving DecidableEq, Repr

namespace Fatal

def all : List Fatal :=
  [noInputFile, cannotOpen, cannotRead, cannotClose, outOfMemory]

def number : Fatal → Nat
  | noInputFile => 1001
  | cannotOpen => 1002
  | cannotRead => 1003
  | cannotClose => 1004
  | outOfMemory => 1005

def message : Fatal → String
  | noInputFile => "no input file"
  | cannotOpen => "cannot open source file"
  | cannotRead => "cannot read source file"
  | cannotClose => "cannot close source file"
  | outOfMemory => "out of memory"

def text (condition : Fatal) : String :=
  Severity.fatal.letter.toString ++ toString condition.number

end Fatal

end LarkCheck
