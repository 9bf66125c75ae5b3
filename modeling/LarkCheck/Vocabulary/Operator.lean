/-!
# Operators

The operators with their spellings, and the ladder of binary levels from the
loosest, `||`, to the tightest, `*`. An operator of two characters always begins
with a character that is an operator by itself.
-/

namespace LarkCheck

/-- One rung of the ladder of binary operators. -/
inductive Level where
  | logicalOr | logicalAnd | equality | relational | bitwiseOr | bitwiseAnd | shift
  | additive | multiplicative
deriving DecidableEq, Repr

namespace Level

/-- The rungs from the loosest to the tightest. -/
def all : List Level :=
  [logicalOr, logicalAnd, equality, relational, bitwiseOr, bitwiseAnd, shift, additive,
   multiplicative]

def loosest : Level := logicalOr

/-- How tightly a level binds, counted from the loosest. -/
def rank : Level → Nat
  | logicalOr => 0
  | logicalAnd => 1
  | equality => 2
  | relational => 3
  | bitwiseOr => 4
  | bitwiseAnd => 5
  | shift => 6
  | additive => 7
  | multiplicative => 8

/-- The next rung up, unless the operands are unary already. -/
def tighter : Level → Option Level
  | logicalOr => some logicalAnd
  | logicalAnd => some equality
  | equality => some relational
  | relational => some bitwiseOr
  | bitwiseOr => some bitwiseAnd
  | bitwiseAnd => some shift
  | shift => some additive
  | additive => some multiplicative
  | multiplicative => none

def name : Level → String
  | logicalOr => "logical-or"
  | logicalAnd => "logical-and"
  | equality => "equality"
  | relational => "relational"
  | bitwiseOr => "bitwise-or"
  | bitwiseAnd => "bitwise-and"
  | shift => "shift"
  | additive => "additive"
  | multiplicative => "multiplicative"

theorem rank_lt (level : Level) : level.rank < 9 := by
  cases level <;> decide

theorem rank_of_tighter {l m : Level} (h : l.tighter = some m) : m.rank = l.rank + 1 := by
  cases l <;> cases h <;> rfl

theorem rank_of_tightest {l : Level} (h : l.tighter = none) : l.rank + 1 = 9 := by
  cases l <;> cases h
  rfl

/-- Induction from the tightest level down to the loosest. -/
theorem tighter_induction {P : Level → Prop}
    (step : ∀ level, (∀ next : Level, level.rank < next.rank → P next) → P level)
    (level : Level) : P level :=
  step level fun next _ => tighter_induction step next
termination_by 9 - level.rank
decreasing_by
  have := next.rank_lt
  omega

end Level

inductive Operator where
  | plus | minus | star | slash | percent
  | ampersand | pipe | caret | tilde | shiftLeft | shiftRight
  | less | greater | lessEqual | greaterEqual | equalEqual | notEqual
  | bang | andAnd | orOr
  | assign
deriving DecidableEq, Repr

namespace Operator

/-- Every operator, in the order in which the language lists them. -/
def all : List Operator :=
  [plus, minus, star, slash, percent,
   ampersand, pipe, caret, tilde, shiftLeft, shiftRight,
   less, greater, lessEqual, greaterEqual, equalEqual, notEqual,
   bang, andAnd, orOr,
   assign]

def spelling : Operator → String
  | plus => "+"
  | minus => "-"
  | star => "*"
  | slash => "/"
  | percent => "%"
  | ampersand => "&"
  | pipe => "|"
  | caret => "^"
  | tilde => "~"
  | shiftLeft => "<<"
  | shiftRight => ">>"
  | less => "<"
  | greater => ">"
  | lessEqual => "<="
  | greaterEqual => ">="
  | equalEqual => "=="
  | notEqual => "!="
  | bang => "!"
  | andAnd => "&&"
  | orOr => "||"
  | assign => "="

/-- The rung of an infix operator; assignment and the pure prefix operators stand on none. -/
def level? : Operator → Option Level
  | plus | minus => some .additive
  | star | slash | percent => some .multiplicative
  | ampersand => some .bitwiseAnd
  | pipe | caret => some .bitwiseOr
  | shiftLeft | shiftRight => some .shift
  | less | greater | lessEqual | greaterEqual => some .relational
  | equalEqual | notEqual => some .equality
  | andAnd => some .logicalAnd
  | orOr => some .logicalOr
  | tilde | bang | assign => none

/-- Whether the operator may stand before its operand. -/
def isUnary : Operator → Bool
  | minus | tilde | bang => true
  | _ => false

/-- The first code above those of characters. -/
def firstPairCode : Nat := 0x110000

/-- A number for each operator: its character's code point, or one above them all for a pair. -/
def code : Operator → Nat
  | shiftLeft => firstPairCode
  | shiftRight => firstPairCode + 1
  | lessEqual => firstPairCode + 2
  | greaterEqual => firstPairCode + 3
  | equalEqual => firstPairCode + 4
  | notEqual => firstPairCode + 5
  | andAnd => firstPairCode + 6
  | orOr => firstPairCode + 7
  | plus => '+'.toNat
  | minus => '-'.toNat
  | star => '*'.toNat
  | slash => '/'.toNat
  | percent => '%'.toNat
  | ampersand => '&'.toNat
  | pipe => '|'.toNat
  | caret => '^'.toNat
  | tilde => '~'.toNat
  | less => '<'.toNat
  | greater => '>'.toNat
  | bang => '!'.toNat
  | assign => '='.toNat

def ofSpelling? (word : String) : Option Operator :=
  all.find? fun op => op.spelling == word

/-- The operator of one character. -/
def ofChar? (c : Char) : Option Operator :=
  all.find? fun op => op.spelling.toList == [c]

/-- The operator of two characters. -/
def ofPair? (c d : Char) : Option Operator :=
  all.find? fun op => op.spelling.toList == [c, d]

theorem mem_all (op : Operator) : op ∈ all := by
  cases op <;> decide

theorem spelling_injective {a b : Operator} (h : a.spelling = b.spelling) : a = b := by
  revert h
  cases a <;> cases b <;> decide

theorem ofSpelling?_spelling (op : Operator) : ofSpelling? op.spelling = some op := by
  cases op <;> decide

end Operator

end LarkCheck
