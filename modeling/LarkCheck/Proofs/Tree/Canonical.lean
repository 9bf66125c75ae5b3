import LarkCheck.Proofs.Tree.Pieces
import LarkCheck.Proofs.Tree.Shape
import LarkCheck.Token.Lexeme

/-!
# Canonical trees and their texts

A canonical tree is one that a text can stand for: its nodes have the shape of the
grammar, its tokens can be written, and no statement goes on where the one before
it ends. A text is printed from a tree if the spellings of its tokens stand one
after the other, with white space between them that keeps the spacing.
-/

namespace LarkCheck

open Token

/-- Shaped like an identifier, and not reserved. -/
def IsName (text : String) : Prop :=
  (∃ first rest, text.toList = first :: rest ∧ beginsWord first = true ∧
    ∀ c ∈ rest, continuesWord c = true) ∧ ∀ kw : Keyword, kw.spelling ≠ text

namespace Token.Kind

/-- Whether a token reads the same after it was written; reals are left out. -/
def Writable : Kind → Prop
  | .keyword kw => ofKeyword kw = .keyword kw
  | .ident text => IsName text
  | .int value => 0 ≤ value ∧ value ≤ maxInteger
  | .real _ | .eof => False
  | _ => True

def spelling : Kind → List Char
  | .keyword kw => kw.spelling.toList
  | .operator op => op.spelling.toList
  | .punctuation mark => [mark.char]
  | .ident name => name.toList
  | .int value => Nat.toDigits 10 value.toNat
  | .real value => value.text.toList
  | .string value => Text.quotedChars value.toList
  | .bool value => (boolText value).toList
  | .nil => Keyword.nilKw.spelling.toList
  | .eof => []

/-- The tokens that may begin a statement and may also go on after an expression. -/
def joins : Kind → Bool
  | .operator .minus | .punctuation .lparen | .punctuation .lbracket => true
  | _ => false

end Token.Kind

/-- Whether the statement ends with an expression. -/
def Stmt.isOpen : Stmt → Bool
  | .expr _ _ | .returnValue _ (some _) => true
  | _ => false

/-- Whether an expression before the statement would go on with it. -/
def Stmt.joins (x : Stmt) : Bool :=
  x.pieces.head?.any (·.kind.joins)

/-- No statement goes on where the one before it ends. -/
def Stmt.Apart : List Stmt → Prop
  | [] => True
  | x :: xs => (x.isOpen = true → xs.head?.any Stmt.joins = false) ∧ Stmt.Apart xs

namespace Block

def joins (b : Block) : Bool :=
  b.stmts.head?.any Stmt.joins

def Apart (b : Block) : Prop :=
  Stmt.Apart b.stmts

end Block

namespace Node

/-- The blocks of a node that follow an expression without a word between. -/
def tested : Node → List Block
  | stmt (.cond _ _ body elseifs _) => body.toList ++ elseifs.filterMap (·.body)
  | _ => []

/-- All the blocks of a node. -/
def blocks : Node → List Block
  | expr (.routine _ _ body) | expr (.package _ _ body) => body.toList
  | expr (.classDef _ _ _ _ _ sections) => sections.filterMap (·.body)
  | stmt (.cond _ _ body elseifs otherwise) =>
    body.toList ++ (elseifs.filterMap (·.body) ++ otherwise.toList)
  | stmt (.case _ _ whens otherwise) => whens.filterMap (·.body) ++ otherwise.toList
  | stmt (.whileLoop _ _ body) | stmt (.forLoop _ _ _ _ body) | stmt (.foreachLoop _ _ _ body) =>
    body.toList
  | _ => []

structure Canonical (n : Node) : Prop where
  grammatical : n.Grammatical
  blocks_apart : ∀ b ∈ n.blocks, b.Apart
  tested_apart : ∀ b ∈ n.tested, b.joins = false

end Node

structure Block.Canonical (unit : Block) : Prop where
  writable : ∀ kind ∈ unit.yield, kind.Writable
  apart : unit.Apart
  nodes : ∀ n ∈ unit.nodes, n.Canonical

theorem isName_iff {text : String} :
    IsName text ↔ (text.toList.head?.any beginsWord = true ∧
      text.toList.tail.all continuesWord = true) ∧ ∀ kw ∈ Keyword.all, kw.spelling ≠ text := by
  unfold IsName
  refine and_congr ?_ ⟨fun h kw _ => h kw, fun h kw => h kw kw.mem_all⟩
  cases text.toList with
  | nil => simp
  | cons first rest =>
    simp only [List.head?_cons, Option.any_some, List.tail_cons, List.all_eq_true]
    constructor
    · rintro ⟨_, _, heq, h⟩
      cases heq
      exact h
    · exact fun h => ⟨first, rest, rfl, h⟩

instance (text : String) : Decidable (IsName text) :=
  decidable_of_iff _ isName_iff.symm

instance (kind : Kind) : Decidable kind.Writable :=
  match kind with
  | .keyword kw => inferInstanceAs (Decidable (Kind.ofKeyword kw = .keyword kw))
  | .ident text => inferInstanceAs (Decidable (IsName text))
  | .int value => inferInstanceAs (Decidable (0 ≤ value ∧ value ≤ maxInteger))
  | .real _ | .eof => inferInstanceAs (Decidable False)
  | .operator _ | .punctuation _ | .string _ | .bool _ | .nil => inferInstanceAs (Decidable True)

def Stmt.decideApart : (xs : List Stmt) → Decidable (Stmt.Apart xs)
  | [] => inferInstanceAs (Decidable True)
  | x :: xs =>
    have := Stmt.decideApart xs
    inferInstanceAs (Decidable
      ((x.isOpen = true → xs.head?.any Stmt.joins = false) ∧ Stmt.Apart xs))

instance (b : Block) : Decidable b.Apart :=
  Stmt.decideApart b.stmts

instance (n : Node) : Decidable n.Canonical :=
  decidable_of_iff
    (n.Grammatical ∧ (∀ b ∈ n.blocks, b.Apart) ∧ ∀ b ∈ n.tested, b.joins = false)
    ⟨fun ⟨h, hb, ht⟩ => ⟨h, hb, ht⟩, fun ⟨h, hb, ht⟩ => ⟨h, hb, ht⟩⟩

instance (unit : Block) : Decidable unit.Canonical :=
  decidable_of_iff
    ((∀ kind ∈ unit.yield, kind.Writable) ∧ unit.Apart ∧ ∀ n ∈ unit.nodes, n.Canonical)
    ⟨fun ⟨hw, ha, hn⟩ => ⟨hw, ha, hn⟩, fun ⟨hw, ha, hn⟩ => ⟨hw, ha, hn⟩⟩

def isWhite (c : Char) : Bool :=
  Text.isBlank c || Text.isLineBreak c

namespace Spacing

/-- Whether white space keeps the spacing. -/
def admits : Spacing → List Char → Bool
  | line, white => white.all isWhite && white.any Text.isLineBreak
  | blank, white => white.all Text.isBlank && !white.isEmpty
  | free, white => white.all isWhite && !white.isEmpty

/-- The shortest white space that keeps the spacing. -/
def white : Spacing → List Char
  | line => ['\n']
  | blank | free => [' ']

theorem admits_white (spacing : Spacing) : spacing.admits spacing.white = true := by
  cases spacing <;> decide

end Spacing

/-- The texts in which the pieces stand one after the other. -/
inductive Printed : List Piece → List Char → Prop
  | nil {white : List Char} (h : white.all isWhite = true) : Printed [] white
  | cons {p : Piece} {ps : List Piece} {white text : List Char} (h : p.spacing.admits white = true)
    (ht : Printed ps text) : Printed (p :: ps) (white ++ (p.kind.spelling ++ text))

/-- A unit stands in a text as if it followed a line break. -/
def Block.Printed (unit : Block) (text : List Char) : Prop :=
  LarkCheck.Printed unit.pieces ('\n' :: text)

/-- The pieces with the shortest white space between them. -/
def Piece.print : List Piece → List Char
  | [] => []
  | p :: ps => p.spacing.white ++ (p.kind.spelling ++ Piece.print ps)

def Block.print (unit : Block) : List Char :=
  Piece.print unit.pieces

theorem Piece.printed_print (ps : List Piece) : Printed ps (Piece.print ps) := by
  induction ps with
  | nil => exact .nil rfl
  | cons p ps ih => exact .cons p.spacing.admits_white ih

/-- Every statement of a unit begins on a line of its own, and so does the first. -/
theorem Stmt.head?_listPieces {xs : List Stmt} {p : Piece}
    (h : (Stmt.listPieces xs).head? = some p) : p.spacing = .line := by
  induction xs with
  | nil => cases h
  | cons x xs ih =>
    cases hx : x.pieces with
    | nil =>
      simp only [Stmt.listPieces, hx, Piece.lead, List.nil_append] at h
      exact ih h
    | cons q qs =>
      simp only [Stmt.listPieces, hx, Piece.lead, List.cons_append, List.head?_cons,
        Option.some.injEq] at h
      exact h ▸ rfl

theorem Block.printed_print (unit : Block) : unit.Printed unit.print := by
  obtain ⟨loc, xs⟩ := unit
  have hline := @Stmt.head?_listPieces xs
  change LarkCheck.Printed (Stmt.listPieces xs) ('\n' :: Piece.print (Stmt.listPieces xs))
  cases hps : Stmt.listPieces xs with
  | nil => exact .nil (by decide)
  | cons p ps =>
    have hp : p.spacing = .line := hline (by rw [hps]; rfl)
    have hwhite : p.spacing.admits ('\n' :: p.spacing.white) = true := by
      rw [hp]
      decide
    exact .cons hwhite (Piece.printed_print ps)

end LarkCheck
