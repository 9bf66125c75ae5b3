import LarkCheck.Proofs.Tree.Legible

/-!
# The forms of legible trees

The form of a legible tree is clean: its atoms are names, literals, operators and paths,
and each of its lists has the name of the construct at its head.
-/

namespace LarkCheck

open Token Piece

namespace Form

instance (text : String) : Decidable (IsBare text) :=
  List.decidableBAll _ _

theorem clean_tagged {tag : String} {items : List Form} (htag : IsBare tag)
    (h : CleanItems items) : (tagged tag items).Clean :=
  ⟨.inl htag, h⟩

theorem cleanItems_append {items more : List Form} (h : CleanItems items)
    (hmore : CleanItems more) : CleanItems (items ++ more) := by
  induction items with
  | nil => exact hmore
  | cons item items ih => exact ⟨h.1, ih h.2⟩

theorem clean_name {name : String} (h : IsName name) : (atom name).Clean :=
  .inl (isBare_of_isName h)

theorem clean_missing : missing.Clean :=
  .inl (by decide)

theorem clean_operator (op : Operator) : (atom op.spelling).Clean :=
  .inl (by cases op <;> decide)

end Form

open Form

theorem isName_of_legible_furtherNames {names : List Name} (h : Legible (furtherNames names)) :
    ∀ n ∈ names, IsName n.text := by
  induction names with
  | nil => nofun
  | cons n names ih =>
    simp only [furtherNames, legible_cons] at h
    exact List.forall_mem_cons.2 ⟨h.2.1, ih h.2.2⟩

theorem isName_of_legible_furtherPath {path : List String} (h : Legible (furtherPath path)) :
    ∀ text ∈ path, IsName text := by
  induction path with
  | nil => nofun
  | cons text path ih =>
    simp only [furtherPath, legible_cons] at h
    exact List.forall_mem_cons.2 ⟨h.2.1, ih h.2.2⟩

theorem isName_of_legible_path {path : List String} (h : Legible (Piece.path path)) :
    ∀ text ∈ path, IsName text := by
  cases path with
  | nil => nofun
  | cons text path =>
    simp only [Piece.path, legible_cons] at h
    exact List.forall_mem_cons.2 ⟨h.1, isName_of_legible_furtherPath h.2⟩

theorem isName_of_legible_includes {names : List Name} (h : Legible (Piece.includes names)) :
    ∀ n ∈ names, IsName n.text := by
  cases names with
  | nil => nofun
  | cons n names =>
    simp only [Piece.includes, Piece.names, legible_cons] at h
    exact List.forall_mem_cons.2 ⟨h.2.1, isName_of_legible_furtherNames h.2.2⟩

theorem clean_includeForms {names : List Name} (h : Legible (Piece.includes names)) :
    CleanItems (includeForms names) := by
  have hnames := isName_of_legible_includes h
  have hitems : CleanItems (names.map (.atom ·.text)) := by
    clear h
    induction names with
    | nil => trivial
    | cons n names ih =>
      obtain ⟨hn, hnames⟩ := List.forall_mem_cons.1 hnames
      exact ⟨clean_name hn, ih hnames⟩
  unfold includeForms
  split
  · trivial
  · exact ⟨clean_tagged (by decide) hitems, trivial⟩

theorem clean_path {path : List String} (h : Legible (Piece.path path)) :
    (atom (".".intercalate path)).Clean :=
  .inl (isBare_path (isName_of_legible_path h))

mutual

theorem Expr.clean_form : ∀ {e : Expr}, Legible e.pieces → e.form.Clean
  | .ident _ name, h => clean_name (h _ List.mem_cons_self)
  | .nil _, _ => .inl (by decide)
  | .bool _ value, _ => .inl (by cases value <;> decide)
  | .int _ value, _ => .inl (isBare_int value)
  | .real _ value, h => .inl (isBare_real (h _ List.mem_cons_self))
  | .string _ value, _ => .inr ⟨value, rfl⟩
  | .receiver _, _ => .inl (by decide)
  | .array _ items, h => by
    simp only [Expr.pieces, legible_cons, legible_append, Expr.legible_listPieces] at h
    exact clean_tagged (by decide) (Expr.clean_listForms h.2.1)
  | .hash _ pairs, h => by
    simp only [Expr.pieces, legible_cons, legible_append, Pair.legible_listPieces] at h
    exact clean_tagged (by decide) (Pair.clean_listForms h.2.1)
  | .routine _ params body, h => by
    simp only [Expr.pieces, legible_cons, legible_append, Param.legible_listPieces] at h
    exact clean_tagged (by decide) ⟨clean_tagged (by decide) (Param.clean_listForms h.2.2.1),
      Block.clean_slotForm h.2.2.2.2.1, trivial⟩
  | .classDef _ name params base includes sections, h => by
    simp only [Expr.pieces, legible_cons, legible_append, Param.legible_listPieces,
      Section.legible_listPieces] at h
    obtain ⟨-, hname, -, hparams, -, hbase, hincludes, hsections, -⟩ := h
    exact clean_tagged (by decide) ⟨clean_name hname,
      clean_tagged (by decide) (Param.clean_listForms hparams),
      cleanItems_append (cleanItems_append (Base.clean_optionForms hbase)
        (clean_includeForms hincludes)) (Section.clean_listForms hsections)⟩
  | .package _ name body, h => by
    simp only [Expr.pieces, legible_cons, legible_append] at h
    exact clean_tagged (by decide) ⟨clean_name h.2.1, Block.clean_slotForm h.2.2.1, trivial⟩
  | .paren _ inner, h => by
    simp only [Expr.pieces, legible_cons, legible_append] at h
    exact clean_tagged (by decide) ⟨Expr.clean_slotForm h.2.1, trivial⟩
  | .index _ object index, h => by
    simp only [Expr.pieces, legible_cons, legible_append] at h
    exact clean_tagged (by decide) ⟨Expr.clean_slotForm h.1, Expr.clean_slotForm h.2.2.1, trivial⟩
  | .call _ callee args, h => by
    simp only [Expr.pieces, legible_cons, legible_append, Expr.legible_listPieces] at h
    exact clean_tagged (by decide) ⟨Expr.clean_slotForm h.1, Expr.clean_listForms h.2.2.1⟩
  | .member _ object name, h => by
    simp only [Expr.pieces, legible_cons, legible_append] at h
    exact clean_tagged (by decide) ⟨Expr.clean_slotForm h.1, clean_name h.2.2.1, trivial⟩
  | .unary _ op operand, h => by
    simp only [Expr.pieces, legible_cons] at h
    exact clean_tagged (by decide) ⟨clean_operator op, Expr.clean_slotForm h.2, trivial⟩
  | .binary _ level op left right, h => by
    simp only [Expr.pieces, legible_cons, legible_append] at h
    exact clean_tagged (by cases level <;> decide) ⟨clean_operator op, Expr.clean_slotForm h.1,
      Expr.clean_slotForm h.2.2, trivial⟩
  | .assign _ target value, h => by
    simp only [Expr.pieces, legible_cons, legible_append] at h
    exact clean_tagged (by decide) ⟨Expr.clean_slotForm h.1, Expr.clean_slotForm h.2.2, trivial⟩

theorem Expr.clean_slotForm : ∀ {e : Option Expr}, Legible (Expr.slotPieces e) →
    (Expr.slotForm e).Clean
  | none, _ => clean_missing
  | some _, h => Expr.clean_form h

theorem Expr.clean_listForms : ∀ {es : List Expr}, Legible (Expr.furtherPieces es) →
    CleanItems (Expr.listForms es)
  | [], _ => trivial
  | e :: es, h => by
    simp only [Expr.furtherPieces, legible_cons, legible_append] at h
    exact ⟨Expr.clean_form h.2.1, Expr.clean_listForms h.2.2⟩

theorem Pair.clean_listForms : ∀ {ps : List Pair}, Legible (Pair.furtherPieces ps) →
    CleanItems (Pair.listForms ps)
  | [], _ => trivial
  | ⟨_, key, value⟩ :: ps, h => by
    simp only [Pair.furtherPieces, Pair.pieces, legible_cons, legible_append] at h
    exact ⟨clean_tagged (by decide) ⟨Expr.clean_slotForm h.2.1.1,
      Expr.clean_slotForm h.2.1.2.2, trivial⟩, Pair.clean_listForms h.2.2⟩

theorem Param.clean_form : ∀ {p : Param}, Legible p.pieces → p.form.Clean
  | .value _ name none, h => clean_name (h _ List.mem_cons_self)
  | .value _ name (some default), h => by
    simp only [Param.pieces, legible_cons] at h
    exact clean_tagged (by decide) ⟨clean_name h.1, Expr.clean_form h.2.2, trivial⟩
  | .output _ name, h => by
    simp only [Param.pieces, legible_cons] at h
    exact clean_tagged (by decide) ⟨clean_name h.2.1, trivial⟩

theorem Param.clean_listForms : ∀ {ps : List Param}, Legible (Param.furtherPieces ps) →
    CleanItems (Param.listForms ps)
  | [], _ => trivial
  | p :: ps, h => by
    simp only [Param.furtherPieces, legible_cons, legible_append] at h
    exact ⟨Param.clean_form h.2.1, Param.clean_listForms h.2.2⟩

theorem Base.clean_optionForms : ∀ {b : Option Base}, Legible (Base.optionPieces b) →
    CleanItems (Base.optionForms b)
  | none, _ => trivial
  | some ⟨base, args⟩, h => by
    simp only [Base.optionPieces, legible_cons, legible_append, Expr.legible_listPieces] at h
    exact ⟨clean_tagged (by decide) ⟨clean_name h.2.1, Expr.clean_listForms h.2.2.2.1⟩, trivial⟩

theorem Section.clean_listForms : ∀ {xs : List Section}, Legible (Section.furtherPieces xs) →
    CleanItems (Section.listForms xs)
  | [], _ => trivial
  | ⟨_, access, body⟩ :: xs, h => by
    simp only [Section.furtherPieces, legible_cons, legible_append] at h
    exact ⟨clean_tagged (by cases access <;> decide) ⟨Block.clean_slotForm h.2.1, trivial⟩,
      Section.clean_listForms h.2.2⟩

theorem Block.clean_form : ∀ {b : Block}, Legible b.pieces → b.form.Clean
  | ⟨_, stmts⟩, h => clean_tagged (by decide) (Stmt.clean_listForms h)

theorem Block.clean_slotForm : ∀ {b : Option Block}, Legible (Block.slotPieces b) →
    (Block.slotForm b).Clean
  | none, _ => clean_missing
  | some _, h => Block.clean_form h

theorem Block.clean_elseForms : ∀ {b : Option Block}, Legible (Block.elsePieces b) →
    CleanItems (Block.elseForms b)
  | none, _ => trivial
  | some _, h => by
    simp only [Block.elsePieces, legible_cons] at h
    exact ⟨clean_tagged (by decide) ⟨Block.clean_form h.2, trivial⟩, trivial⟩

theorem Stmt.clean_form : ∀ {x : Stmt}, Legible x.pieces → x.form.Clean
  | .importPath _ path, h => by
    simp only [Stmt.pieces, legible_cons] at h
    exact clean_tagged (by decide) ⟨clean_path h.2, trivial⟩
  | .expr _ _, h => Expr.clean_slotForm h
  | .cond _ test body elseifs otherwise, h => by
    simp only [Stmt.pieces, legible_cons, legible_append] at h
    obtain ⟨-, htest, hbody, helseifs, helse, -⟩ := h
    exact clean_tagged (by decide) ⟨Expr.clean_slotForm htest, Block.clean_slotForm hbody,
      cleanItems_append (Branch.clean_elseifs helseifs) (Block.clean_elseForms helse)⟩
  | .case _ subject whens otherwise, h => by
    simp only [Stmt.pieces, legible_cons, legible_append] at h
    obtain ⟨-, hsubject, hwhens, helse, -⟩ := h
    exact clean_tagged (by decide) ⟨Expr.clean_slotForm hsubject,
      cleanItems_append (Branch.clean_whens hwhens) (Block.clean_elseForms helse)⟩
  | .whileLoop _ test body, h => by
    simp only [Stmt.pieces, legible_cons, legible_append] at h
    exact clean_tagged (by decide) ⟨Expr.clean_slotForm h.2.1, Block.clean_slotForm h.2.2.2.1,
      trivial⟩
  | .forLoop _ init test step body, h => by
    simp only [Stmt.pieces, legible_cons, legible_append] at h
    obtain ⟨-, hinit, -, htest, -, hstep, -, hbody, -⟩ := h
    exact clean_tagged (by decide) ⟨Expr.clean_slotForm hinit, Expr.clean_slotForm htest,
      Expr.clean_slotForm hstep, Block.clean_slotForm hbody, trivial⟩
  | .foreachLoop _ item collection body, h => by
    simp only [Stmt.pieces, legible_cons, legible_append] at h
    obtain ⟨-, hitem, -, hcollection, -, hbody, -⟩ := h
    exact clean_tagged (by decide) ⟨clean_name hitem, Expr.clean_slotForm hcollection,
      Block.clean_slotForm hbody, trivial⟩
  | .breakLoop _, _ => clean_tagged (by decide) trivial
  | .nextRound _, _ => clean_tagged (by decide) trivial
  | .returnValue _ none, _ => clean_tagged (by decide) trivial
  | .returnValue _ (some value), h => by
    simp only [Stmt.pieces, legible_cons, legible_lead] at h
    exact clean_tagged (by decide) ⟨Expr.clean_form h.2, trivial⟩

theorem Stmt.clean_listForms : ∀ {xs : List Stmt}, Legible (Stmt.listPieces xs) →
    CleanItems (Stmt.listForms xs)
  | [], _ => trivial
  | x :: xs, h => by
    simp only [Stmt.listPieces, legible_append, legible_lead] at h
    exact ⟨Stmt.clean_form h.1, Stmt.clean_listForms h.2⟩

theorem Branch.clean_elseifs : ∀ {bs : List Branch}, Legible (Branch.elseifPieces bs) →
    CleanItems (Branch.listForms "elseif" bs)
  | [], _ => trivial
  | ⟨_, test, body⟩ :: bs, h => by
    simp only [Branch.elseifPieces, legible_cons, legible_append] at h
    exact ⟨clean_tagged (by decide) ⟨Expr.clean_slotForm h.2.1, Block.clean_slotForm h.2.2.1,
      trivial⟩, Branch.clean_elseifs h.2.2.2⟩

theorem Branch.clean_whens : ∀ {bs : List Branch}, Legible (Branch.whenPieces bs) →
    CleanItems (Branch.listForms "when" bs)
  | [], _ => trivial
  | ⟨_, test, body⟩ :: bs, h => by
    simp only [Branch.whenPieces, legible_cons, legible_append] at h
    exact ⟨clean_tagged (by decide) ⟨Expr.clean_slotForm h.2.1, Block.clean_slotForm h.2.2.2.1,
      trivial⟩, Branch.clean_whens h.2.2.2.2⟩

end

end LarkCheck
