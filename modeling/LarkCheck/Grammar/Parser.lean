import LarkCheck.Token.Reading
import LarkCheck.Tree.Basic

/-!
# Parsers

A parser works on the current token and the readings still ahead of it. It takes
a token by reading the next one, whose lexical reports it keeps. It either
gives a value or stops after it reported why; nothing is read after that.

Two guards keep trees small. Constructs nest at most `maxNesting` deep, and no
node of a tree stands deeper than `maxTreeDepth`. For the second, a parser counts
the level at which it works. A chain such as `a + b + c` is read in a loop but
builds a tree that leans to the left: each link puts a node above all that the
chain holds so far, and `peak` is the highest level among that.
-/

namespace LarkCheck

open Token

/-- Readings with their number. -/
structure Stream where
  items : List Reading
  size : Nat
  size_eq : size = items.length

namespace Stream

def ofList (items : List Reading) : Stream :=
  ⟨items, items.length, rfl⟩

theorem ext {s t : Stream} (h : s.items = t.items) : s = t := by
  obtain ⟨items, size, hs⟩ := s
  obtain ⟨items', size', ht⟩ := t
  subst h
  subst hs
  subst ht
  rfl

end Stream

namespace Parser

structure State where
  current : Token
  ahead : Stream
  news : List Diagnostic
  depth : Nat
  level : Nat
  peak : Nat

/-- Why a parser stopped has been reported already. -/
structure Stopped where

def maxNesting : Nat := 64

def maxTreeDepth : Nat := 256

end Parser

abbrev Parser (α : Type) := EStateM Parser.Stopped Parser.State α

namespace Parser

variable {α : Type}

def State.isAt (s : State) (kind : Kind) : Bool :=
  s.current.kind = kind

def current : Parser Token := fun s =>
  .ok s.current s

/-- Takes the current token. At the end of the readings it stays where it is. -/
def advance : Parser Token := fun s =>
  match s.ahead with
  | ⟨[], _, _⟩ => .ok s.current s
  | ⟨r :: rest, size, h⟩ =>
    let next : State := { s with
      ahead := ⟨rest, size - 1, by simp [h]⟩
      news := s.news ++ r.news }
    match r.token with
    | some token => .ok s.current { next with current := token }
    | none => .error ⟨⟩ next

/-- Reports and stops. -/
def failAt (loc : Location) (code : Diagnostic.Code) (note : String) : Parser α := fun s =>
  .error ⟨⟩ { s with news := s.news ++ [.of code loc [note]] }

/-- Reports the current token as one that cannot stand here, and stops. -/
def fail (code : Diagnostic.Code) : Parser α := fun s =>
  failAt s.current.loc code ("found " ++ s.current.kind.describe) s

/-- Takes the token if it is of this kind and stops if not. -/
def expect (kind : Kind) (code : Diagnostic.Code) : Parser Token := fun s =>
  if s.isAt kind then advance s else fail code s

/-- Where the current token is of this kind, takes it and goes on with `p`. -/
def after? (kind : Kind) (p : Parser α) : Parser (Option α) := fun s =>
  if s.isAt kind then (do let _ ← advance; some <$> p) s else .ok none s

/-- Takes an identifier. -/
def identifier : Parser Name := fun s =>
  match s.current.kind with
  | .ident text => (do let token ← advance; return ⟨token.loc, text⟩ : Parser Name) s
  | _ => fail .expectedIdentifier s

/-- Reads items as long as `more` holds. An item that reads nothing is the last. -/
def many (more : State → Bool) (item : Parser α) (s : State) :
    EStateM.Result Stopped State (List α) :=
  if more s then
    match item s with
    | .ok a s' =>
      if s'.ahead.size < s.ahead.size then
        match many more item s' with
        | .ok rest s'' => .ok (a :: rest) s''
        | .error e s'' => .error e s''
      else
        .ok [a] s'
    | .error e s' => .error e s'
  else
    .ok [] s
termination_by s.ahead.size

/-- Reads links as long as `more` holds, each on top of what there is. A link that reads nothing
is the last. -/
def links (more : State → Bool) (link : α → Parser α) (a : α) (s : State) :
    EStateM.Result Stopped State α :=
  if more s then
    match link a s with
    | .ok b s' => if s'.ahead.size < s.ahead.size then links more link b s' else .ok b s'
    | .error e s' => .error e s'
  else
    .ok a s
termination_by s.ahead.size

/-- One item, and a further one after each comma. -/
def separated (item : Parser α) : Parser (List α) := do
  let first ← item
  let rest ← many (·.isAt (.punctuation .comma)) do
    let _ ← advance
    item
  return first :: rest

/-- No items before the closing mark, or items with commas between them. -/
def separatedUntil (close : Punctuation) (item : Parser α) : Parser (List α) := fun s =>
  if s.isAt (.punctuation close) then .ok [] s else separated item s

/-- Leaves a nested construct, whether it was read or not. -/
def State.leave (s : State) : State :=
  { s with depth := s.depth - 1, level := s.level - 1 }

/-- Reads a construct one level deeper. -/
def nested (p : Parser α) : Parser α := fun s =>
  if maxNesting ≤ s.depth ∨ maxTreeDepth ≤ s.level then
    fail .nestingTooDeep s
  else
    match p { s with
      depth := s.depth + 1
      level := s.level + 1
      peak := max s.peak (s.level + 1) } with
    | .ok a s' => .ok a s'.leave
    | .error e s' => .error e s'.leave

/-- Reads a chain, and then goes on at the level where the chain began. -/
def chain (p : Parser α) : Parser α := fun s =>
  match p { s with peak := s.level } with
  | .ok a s' => .ok a { s' with level := s.level, peak := max s'.peak s.peak }
  | .error e s' => .error e s'

/-- Goes up to the level of one more link. -/
def raise : Parser Unit := fun s =>
  if maxTreeDepth ≤ s.peak then
    fail .nestingTooDeep s
  else
    .ok ⟨⟩ { s with level := s.peak + 1, peak := s.peak + 1 }

end Parser

end LarkCheck
