import LarkCheck.Proofs.Tree.Pieces
import LarkCheck.Proofs.Tree.Weight

/-!
# Lists in a tree

The lists of a tree are written item by item, some of them with commas between the
items, and weigh as much as their heaviest item.
-/

namespace LarkCheck

open Token Piece

variable {α : Type}

/-- The pieces and the weight of a list are those of its items, one after the other. -/
structure Listed (pieces : α → List Piece) (weight : α → Weight)
    (listPieces : List α → List Piece) (listWeight : List α → Weight) : Prop where
  pieces_nil : listPieces [] = []
  weight_nil : listWeight [] = .zero
  pieces_cons : ∀ a as, listPieces (a :: as) = pieces a ++ listPieces as
  weight_cons : ∀ a as, listWeight (a :: as) = (weight a).join (listWeight as)

/-- Items with commas between them, in pieces. -/
structure Separated (pieces : α → List Piece) (weight : α → Weight)
    (listPieces furtherPieces : List α → List Piece) (listWeight : List α → Weight) : Prop where
  further : Listed (fun a => .mark .comma :: pieces a) weight furtherPieces listWeight
  list_nil : listPieces [] = []
  list_cons : ∀ a as, listPieces (a :: as) = pieces a ++ furtherPieces as

theorem separated_exprs : Separated Expr.pieces (fun e => e.weight.deeper) Expr.listPieces
    Expr.furtherPieces Expr.listWeight where
  further := ⟨rfl, rfl, fun _ _ => rfl, fun _ _ => rfl⟩
  list_nil := rfl
  list_cons _ _ := rfl

theorem separated_pairs : Separated Pair.pieces Pair.weight Pair.listPieces Pair.furtherPieces
    Pair.listWeight where
  further := ⟨rfl, rfl, fun _ _ => rfl, fun _ _ => rfl⟩
  list_nil := rfl
  list_cons _ _ := rfl

theorem separated_params : Separated Param.pieces Param.weight Param.listPieces
    Param.furtherPieces Param.listWeight where
  further := ⟨rfl, rfl, fun _ _ => rfl, fun _ _ => rfl⟩
  list_nil := rfl
  list_cons _ _ := rfl

theorem separated_names : Separated (fun n : Name => [name n.text]) (fun _ => .zero)
    names furtherNames (fun _ => .zero) where
  further := ⟨rfl, rfl, fun _ _ => rfl, fun _ _ => rfl⟩
  list_nil := rfl
  list_cons _ _ := rfl

theorem listed_path : Listed (fun n : Name => [mark .dot, .name n.text]) (fun _ => .zero)
    (fun names => furtherPath (names.map (·.text))) (fun _ => .zero) where
  pieces_nil := rfl
  weight_nil := rfl
  pieces_cons _ _ := rfl
  weight_cons _ _ := rfl

theorem listed_stmts :
    Listed (fun x => lead .line x.pieces) (fun x => x.weight.deeper) Stmt.listPieces
      Stmt.listWeight where
  pieces_nil := rfl
  weight_nil := rfl
  pieces_cons _ _ := rfl
  weight_cons _ _ := rfl

theorem listed_sections : Listed
    (fun x : Section => .word x.access.keyword :: Block.slotPieces x.body)
    (fun x => Block.slotWeight x.body) Section.furtherPieces Section.listWeight where
  pieces_nil := rfl
  weight_nil := rfl
  pieces_cons := by
    rintro ⟨_, _, _⟩ _
    rfl
  weight_cons := by
    rintro ⟨_, _, _⟩ _
    rfl

theorem listed_elseifs : Listed
    (fun b : Branch => .word .elseifKw :: (Expr.slotPieces b.test ++ Block.slotPieces b.body))
    Branch.weight Branch.elseifPieces Branch.listWeight where
  pieces_nil := rfl
  weight_nil := rfl
  pieces_cons := by
    rintro ⟨_, _, _⟩ _
    simp [Branch.elseifPieces]
  weight_cons _ _ := rfl

theorem listed_whens : Listed
    (fun b : Branch =>
      .word .whenKw :: (Expr.slotPieces b.test ++ .word .thenKw :: Block.slotPieces b.body))
    Branch.weight Branch.whenPieces Branch.listWeight where
  pieces_nil := rfl
  weight_nil := rfl
  pieces_cons := by
    rintro ⟨_, _, _⟩ _
    simp [Branch.whenPieces]
  weight_cons _ _ := rfl

end LarkCheck
