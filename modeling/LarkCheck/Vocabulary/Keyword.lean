/-!
# Reserved words

The words of the language, each with its spelling and the part of the grammar
it serves. A reader finds one by its length first: no other length than 2 to 7
is reserved.
-/

namespace LarkCheck

inductive Keyword where
  | ifKw | elseifKw | elseKw | caseKw | whenKw | thenKw | endKw
  | whileKw | forKw | foreachKw | inKw | doKw
  | breakKw | nextKw | returnKw
  | routineKw | outKw | classKw | includeKw | packageKw | importKw
  | publicKw | privateKw
  | thisKw | trueKw | falseKw | nilKw
deriving DecidableEq, Repr

namespace Keyword

inductive Category where
  | selection | iteration | jump | definition | access | literal
deriving DecidableEq, Repr

/-- Every reserved word, in the order in which the language lists them. -/
def all : List Keyword :=
  [ifKw, elseifKw, elseKw, caseKw, whenKw, thenKw, endKw,
   whileKw, forKw, foreachKw, inKw, doKw,
   breakKw, nextKw, returnKw,
   routineKw, outKw, classKw, includeKw, packageKw, importKw,
   publicKw, privateKw,
   thisKw, trueKw, falseKw, nilKw]

def spelling : Keyword → String
  | ifKw => "if"
  | elseifKw => "elseif"
  | elseKw => "else"
  | caseKw => "case"
  | whenKw => "when"
  | thenKw => "then"
  | endKw => "end"
  | whileKw => "while"
  | forKw => "for"
  | foreachKw => "foreach"
  | inKw => "in"
  | doKw => "do"
  | breakKw => "break"
  | nextKw => "next"
  | returnKw => "return"
  | routineKw => "routine"
  | outKw => "out"
  | classKw => "class"
  | includeKw => "include"
  | packageKw => "package"
  | importKw => "import"
  | publicKw => "public"
  | privateKw => "private"
  | thisKw => "this"
  | trueKw => "true"
  | falseKw => "false"
  | nilKw => "nil"

def category : Keyword → Category
  | ifKw | elseifKw | elseKw | caseKw | whenKw | thenKw | endKw => .selection
  | whileKw | forKw | foreachKw | inKw | doKw => .iteration
  | breakKw | nextKw | returnKw => .jump
  | routineKw | outKw | classKw | includeKw | packageKw | importKw => .definition
  | publicKw | privateKw => .access
  | thisKw | trueKw | falseKw | nilKw => .literal

def minLength : Nat := 2

def maxLength : Nat := 7

/-- The reserved words of one length. -/
def ofLength : Nat → List Keyword
  | 2 => [ifKw, inKw, doKw]
  | 3 => [endKw, forKw, outKw, nilKw]
  | 4 => [elseKw, caseKw, whenKw, thenKw, nextKw, thisKw, trueKw]
  | 5 => [whileKw, breakKw, classKw, falseKw]
  | 6 => [elseifKw, returnKw, importKw, publicKw]
  | 7 => [foreachKw, routineKw, includeKw, packageKw, privateKw]
  | _ => []

/-- The reserved word with this spelling, compared only with those as long as it is. -/
def ofSpelling? (word : String) : Option Keyword :=
  if minLength ≤ word.length ∧ word.length ≤ maxLength then
    (ofLength word.length).find? fun kw => kw.spelling == word
  else
    none

theorem mem_all (kw : Keyword) : kw ∈ all := by
  cases kw <;> decide

theorem mem_ofLength_spelling (kw : Keyword) : kw ∈ ofLength kw.spelling.length := by
  cases kw <;> decide

end Keyword

end LarkCheck
