/-!
# Punctuation

The single characters that delimit, separate and select. None of them is also an
operator.
-/

namespace LarkCheck

inductive Punctuation where
  | lparen | rparen | lbracket | rbracket | lbrace | rbrace
  | comma | colon
  | dot
deriving DecidableEq, Repr

namespace Punctuation

inductive Category where
  | delimiter | separator | access
deriving DecidableEq, Repr

def all : List Punctuation :=
  [lparen, rparen, lbracket, rbracket, lbrace, rbrace, comma, colon, dot]

def char : Punctuation → Char
  | lparen => '('
  | rparen => ')'
  | lbracket => '['
  | rbracket => ']'
  | lbrace => '{'
  | rbrace => '}'
  | comma => ','
  | colon => ':'
  | dot => '.'

def category : Punctuation → Category
  | lparen | rparen | lbracket | rbracket | lbrace | rbrace => .delimiter
  | comma | colon => .separator
  | dot => .access

def code (p : Punctuation) : Nat :=
  p.char.toNat

def ofChar? (c : Char) : Option Punctuation :=
  all.find? fun p => p.char == c

theorem ofChar?_char (p : Punctuation) : ofChar? p.char = some p := by
  cases p <;> decide

theorem char_of_ofChar? {c : Char} {p : Punctuation} (h : ofChar? c = some p) : p.char = c := by
  simpa using List.find?_some h

end Punctuation

end LarkCheck
