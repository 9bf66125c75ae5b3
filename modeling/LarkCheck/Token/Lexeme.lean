import LarkCheck.Diagnostic.Log
import LarkCheck.Text.Blank
import LarkCheck.Token.Kind

/-!
# Lexemes

A cursor stands somewhere in a text. The first character of a lexeme tells which
of the four sorts it is: a string, a number, a word or a symbol. Each sort is read
as far as it goes, and each reader leaves the cursor after what it read.
-/

namespace LarkCheck

/-- What is left of a text, how many characters came before, and the place reached. -/
structure Cursor where
  rest : List Char
  offset : Nat
  loc : Location
deriving DecidableEq, Repr

namespace Cursor

def start (text : List Char) : Cursor :=
  ⟨text, 0, .start⟩

/-- A cursor at an offset, which is never beyond the end of the text. -/
def resume (text : List Char) (offset : Nat) (loc : Location) : Cursor :=
  ⟨text.drop offset, min offset text.length, loc⟩

/-- Passes over characters of the current line. -/
def pass (c : Cursor) (count : Nat) : Cursor :=
  ⟨c.rest.drop count, c.offset + count, c.loc.advance count⟩

end Cursor

namespace Token

def isDigit (c : Char) : Bool :=
  '0' ≤ c && c ≤ '9'

def isLetter (c : Char) : Bool :=
  ('a' ≤ c && c ≤ 'z') || ('A' ≤ c && c ≤ 'Z')

def beginsWord (c : Char) : Bool :=
  isLetter c || c = '_'

def continuesWord (c : Char) : Bool :=
  isLetter c || isDigit c || c = '_'

/-- The sort of the lexeme that begins with a character. -/
inductive Opening where
  | string
  | number
  | word
  | symbol (kind : Kind)
deriving DecidableEq, Repr

def opening? (c : Char) : Option Opening :=
  if c = '"' then some .string
  else if isDigit c then some .number
  else if beginsWord c then some .word
  else match Operator.ofChar? c with
    | some op => some (.symbol (.operator op))
    | none => (Punctuation.ofChar? c).map fun mark => .symbol (.punctuation mark)

/-- A lexeme that was read: its kind unless it is malformed, what was reported, and the cursor
after it. -/
structure Lexeme where
  kind : Option Kind
  news : List Diagnostic
  after : Cursor
deriving DecidableEq, Repr

/-- A word of letters alone may be reserved; any other is a name. -/
def wordKind (word : List Char) : Kind :=
  let reserved := if word.all isLetter then Keyword.ofSpelling? (String.ofList word) else none
  match reserved with
  | some kw => .ofKeyword kw
  | none => .ident (String.ofList word)

def readWord (c : Cursor) : Lexeme :=
  let word := c.rest.takeWhile continuesWord
  ⟨some (wordKind word), [], c.pass word.length⟩

/-- A symbol is an operator of two characters if there is one, else `single`. -/
def readSymbol (single : Kind) (c : Cursor) : Lexeme :=
  match c.rest with
  | first :: second :: _ =>
    match Operator.ofPair? first second with
    | some op => ⟨some (.operator op), [], c.pass 2⟩
    | none => ⟨some single, [], c.pass 1⟩
  | _ => ⟨some single, [], c.pass 1⟩

def digitValue (c : Char) : Nat :=
  c.toNat - '0'.toNat

/-- The value of a run of decimal digits. -/
def decimalValue (digits : List Char) : Nat :=
  digits.foldl (fun value d => value * 10 + digitValue d) 0

/-- The greatest integer that a literal can have. -/
def maxInteger : Nat := 0x7fffffffffffffff

/-- A number, unless it is too large for an integer. -/
def integer? (n : Nat) : Option Nat :=
  if n ≤ maxInteger then some n else none

/-- Appends a digit. Once a product or a sum is too large there is no value any more. -/
def appendDigit? (value? : Option Nat) (d : Char) : Option Nat := do
  let value ← value?
  let shifted ← integer? (value * 10)
  integer? (shifted + digitValue d)

/-- The integer that a run of digits stands for, if it is not too large. -/
def integerValue? (digits : List Char) : Option Nat :=
  digits.foldl appendDigit? (some 0)

theorem appendDigit?_integer? (n : Nat) (d : Char) :
    appendDigit? (integer? n) d = integer? (n * 10 + digitValue d) := by
  simp only [appendDigit?, integer?]
  by_cases hvalue : n * 10 + digitValue d ≤ maxInteger
  · have hshifted : n * 10 ≤ maxInteger := by omega
    have hn : n ≤ maxInteger := by omega
    simp [hn, hshifted, hvalue]
  · by_cases hshifted : n * 10 ≤ maxInteger
    · have hn : n ≤ maxInteger := by omega
      simp [hn, hshifted, hvalue]
    · by_cases hn : n ≤ maxInteger <;> simp [hn, hshifted, hvalue]

/-- The first value that is too large is followed by larger ones only. -/
theorem integerValue?_eq (digits : List Char) :
    integerValue? digits = integer? (decimalValue digits) := by
  have hfrom (n : Nat) : digits.foldl appendDigit? (integer? n) =
      integer? (digits.foldl (fun value d => value * 10 + digitValue d) n) := by
    induction digits generalizing n with
    | nil => rfl
    | cons d digits ih => rw [List.foldl_cons, appendDigit?_integer?, ih, List.foldl_cons]
  exact hfrom 0

/-- The value of a run of digits, rounded after each of them. -/
def roundedValue (digits : List Char) : Float :=
  digits.foldl (fun value d => value * 10.0 + Float.ofNat (digitValue d)) 0.0

/-- The value of a real literal: both runs of digits are rounded on their own. -/
def realValue (whole fraction : List Char) : Double :=
  let scale := fraction.foldl (fun scale _ => scale * 10.0) 1.0
  .ofFloat (roundedValue whole + roundedValue fraction / scale)

/-- The digits after a point, if a point and at least one digit follow. -/
def fractionDigits : List Char → List Char
  | point :: rest => if point = '.' then rest.takeWhile isDigit else []
  | [] => []

/-- A point without a digit after it belongs to the next lexeme. -/
def readNumber (c : Cursor) : Lexeme :=
  let whole := c.rest.takeWhile isDigit
  let fraction := fractionDigits (c.rest.drop whole.length)
  if fraction ≠ [] then
    ⟨some (.real (realValue whole fraction)), [], c.pass (whole.length + 1 + fraction.length)⟩
  else
    match integerValue? whole with
    | some value => ⟨some (.int value), [], c.pass whole.length⟩
    | none => ⟨none, [.of .integerLiteralTooLarge c.loc []], c.pass whole.length⟩

/-- The part of a string literal after some point: its value if the literal is closed. -/
structure StringTail where
  value : Option (List Char)
  news : List Diagnostic
  after : Cursor
deriving DecidableEq, Repr

namespace StringTail

def prepend (chars : List Char) (tail : StringTail) : StringTail :=
  { tail with value := tail.value.map (chars ++ ·) }

def warn (d : Diagnostic) (tail : StringTail) : StringTail :=
  { tail with news := d :: tail.news }

end StringTail

/-- Reads on to the closing quote. A backslash before a line end continues the literal on the
next line, and a line end without one leaves the literal open. -/
def stringTail : List Char → Nat → Location → StringTail
  | [], offset, loc => ⟨none, [], ⟨[], offset, loc⟩⟩
  | c :: rest, offset, loc =>
    if c = '"' then
      ⟨some [], [], ⟨rest, offset + 1, loc.advance 1⟩⟩
    else if c = '\\' then
      match rest with
      | [] => ⟨none, [], ⟨[], offset + 1, loc.advance 1⟩⟩
      | escaped :: rest =>
        if escaped = '\r' then
          match rest with
          | [] => ⟨none, [], ⟨[], offset + 2, loc.nextLine⟩⟩
          | next :: further =>
            if next = '\n' then stringTail further (offset + 3) loc.nextLine
            else stringTail (next :: further) (offset + 2) loc.nextLine
        else if escaped = '\n' then
          stringTail rest (offset + 2) loc.nextLine
        else
          match Text.unescape? escaped with
          | some d => (stringTail rest (offset + 2) (loc.advance 2)).prepend [d]
          | none =>
            ((stringTail rest (offset + 2) (loc.advance 2)).prepend ['\\', escaped]).warn
              (.of .unknownEscapeSequence loc [])
    else if c = '\r' || c = '\n' then
      ⟨none, [], ⟨c :: rest, offset, loc⟩⟩
    else
      (stringTail rest (offset + 1) (loc.advance 1)).prepend [c]

/-- Reads a literal from its opening quote; an open one is reported there. -/
def readString (c : Cursor) : Lexeme :=
  let tail := stringTail (c.rest.drop 1) (c.offset + 1) (c.loc.advance 1)
  match tail.value with
  | some value => ⟨some (.string (String.ofList value)), tail.news, tail.after⟩
  | none => ⟨none, tail.news ++ [.of .stringNotTerminated c.loc []], tail.after⟩

/-- Reads the lexeme at the cursor, whose sort its first character told. -/
def readLexeme (opening : Opening) (c : Cursor) : Lexeme :=
  match opening with
  | .string => readString c
  | .number => readNumber c
  | .word => readWord c
  | .symbol single => readSymbol single c

end Token

end LarkCheck
