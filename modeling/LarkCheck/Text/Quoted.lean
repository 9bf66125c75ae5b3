import LarkCheck.Text.Visible

/-!
# Quoting

A string is quoted so that the lexer reads the same string back: eleven
characters are written after a backslash, all others as they are. A single
character in a message is quoted so that it can be seen, by its code point if it
has no shape.
-/

namespace LarkCheck.Text

/-- The letter after the backslash that stands for a character. -/
def escapeOf? (c : Char) : Option Char :=
  if c = '\n' then some 'n'
  else if c = '\t' then some 't'
  else if c = '\x00' then some '0'
  else if c = '\r' then some 'r'
  else if c = '"' then some '"'
  else if c = '\\' then some '\\'
  else if c = '\x07' then some 'a'
  else if c = '\x08' then some 'b'
  else if c = '\x0c' then some 'f'
  else if c = '\x0b' then some 'v'
  else none

/-- The character that a letter after the backslash stands for. -/
def unescape? (c : Char) : Option Char :=
  if c = 'n' then some '\n'
  else if c = 't' then some '\t'
  else if c = '0' then some '\x00'
  else if c = 'r' then some '\r'
  else if c = '\'' then some '\''
  else if c = '"' then some '"'
  else if c = '\\' then some '\\'
  else if c = 'a' then some '\x07'
  else if c = 'b' then some '\x08'
  else if c = 'f' then some '\x0c'
  else if c = 'v' then some '\x0b'
  else none

def quotedChar (c : Char) : List Char :=
  match escapeOf? c with
  | some letter => ['\\', letter]
  | none => [c]

def quotedChars (value : List Char) : List Char :=
  '"' :: (value.flatMap quotedChar ++ ['"'])

/-- A literal of the language that reads as `value`. -/
def quoted (value : String) : String :=
  String.ofList (quotedChars value.toList)

/-- The digits of a code point in base sixteen, in small letters. -/
def hexDigits (n : Nat) : List Char :=
  Nat.toDigits 16 n

/-- The usual name of a code point: at least four digits, in capital letters. -/
def codePointName (c : Char) : String :=
  let digits := (hexDigits c.toNat).map Char.toUpper
  "U+" ++ String.ofList (List.replicate (4 - digits.length) '0' ++ digits)

def shownChar (c : Char) : List Char :=
  if c = '\x00' then ['\\', '0']
  else if c = '\t' then ['\\', 't']
  else if c = '\r' then ['\\', 'r']
  else if c = '\n' then ['\\', 'n']
  else if c = '\'' then ['\\', '\'']
  else if c = '\\' then ['\\', '\\']
  else if isVisible c then [c]
  else ['\\', 'u', '\x7b'] ++ hexDigits c.toNat ++ ['\x7d']

/-- A single character as a message shows it, between single quotes. -/
def shown (c : Char) : String :=
  String.ofList ('\'' :: (shownChar c ++ ['\'']))

theorem unescape?_escapeOf? {c letter : Char} (h : escapeOf? c = some letter) :
    unescape? letter = some c := by
  revert h
  fun_cases escapeOf? c
  all_goals
    intro h
    cases h
  all_goals
    subst_vars
    decide

end LarkCheck.Text
