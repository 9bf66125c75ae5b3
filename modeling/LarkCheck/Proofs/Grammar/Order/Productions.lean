import LarkCheck.Proofs.Grammar.Order.Basic

/-!
# Productions give their statements in order

Each production puts the nodes of its parts together in the order in which it read
them, except that a class literal has the arguments for its base class in front of its
parameters. A production takes the order of the nesting productions for granted;
`Nested.ofLevels` then has it level by level.
-/

namespace LarkCheck

open Token LarkCheck.Parser

/-- The nesting productions give what stands behind their first token, or a statement there. -/
structure Nested.Orders (inner : Nested) : Prop where
  stmt : Along inner.stmt Stmt.nodes
  expr : Behind inner.expr Expr.nodes
  unary : Behind inner.unary Expr.nodes

namespace Parser

variable {inner : Nested} {s s' : State} {lo : Location}

theorem block_along (hi : inner.Orders) : Along (block inner) Block.nodes := by
  intro s b s' hs h
  obtain ⟨t, s₁, h₁, h⟩ := bind_eq_ok.1 h
  obtain ⟨stmts, s₂, h₂, h⟩ := bind_eq_ok.1 h
  obtain ⟨rfl, rfl⟩ := pure_eq_ok.1 h
  obtain ⟨rfl, rfl⟩ := current_eq_ok.1 h₁
  exact many_along lists_stmts (fun s a s' hs _ h => hi.stmt s a s' hs h) _ _ _ hs h₂

theorem blockToEnd_along (hi : inner.Orders) : Along (blockToEnd inner) Block.nodes := by
  intro s b s' hs h
  simp only [blockToEnd, bind_eq_ok, pure_eq_ok] at h
  obtain ⟨body, s₁, h₁, t, s₂, h₂, rfl, rfl⟩ := h
  have r₁ := block_along hi _ _ _ hs h₁
  exact r₁.passed (expect_behind (by simp) _ _ _ _ r₁.inOrder h₂).trails

theorem param_along (hi : inner.Orders) : Along (param inner) Param.nodes := by
  intro s p s' hs h
  simp only [param, bind_eq_ok, current_eq_ok] at h
  obtain ⟨t, s₁, ⟨rfl, rfl⟩, h⟩ := h
  split at h
  · rename_i hk
    simp only [outputParam, bind_eq_ok, current_eq_ok] at h
    obtain ⟨t, s₂, h₂, name, s₃, h₃, next, s₄, ⟨rfl, rfl⟩, h⟩ := h
    split at h
    · simp [failAt] at h
    · obtain ⟨rfl, rfl⟩ := pure_eq_ok.1 h
      have r₂ := (advance_between hs (by simp [hk]) h₂).2
      exact (r₂.append (identifier_behind _ _ _ r₂.inOrder h₃).trails).trails
  · simp only [valueParam, bind_eq_ok, pure_eq_ok] at h
    obtain ⟨name, s₂, h₂, default, s₃, h₃, rfl, rfl⟩ := h
    have r₂ := identifier_behind _ _ _ hs h₂
    have r₃ := after?_along (by simp) hi.expr.along _ _ _ r₂.inOrder h₃
    cases default <;> exact (r₂.append r₃).trails

theorem params_behind (hi : inner.Orders) : Behind (params inner) Param.listNodes := by
  intro s ps s' hs h
  simp only [params, bind_eq_ok, pure_eq_ok] at h
  obtain ⟨t, s₁, h₁, ps, s₂, h₂, t', s₃, h₃, rfl, rfl⟩ := h
  have r₁ := expect_behind (by simp) _ _ _ _ hs h₁
  have r₂ := separatedUntil_along lists_params (param_along hi) _ _ _ _ r₁.inOrder h₂
  have r₃ := expect_behind (by simp) _ _ _ _ r₂.inOrder h₃
  exact r₁.append (r₂.passed r₃.trails)

theorem exprsTo_along (hi : inner.Orders) (close : Punctuation) (code : Diagnostic.Code) :
    Along (exprsTo inner close code) Expr.listNodes := by
  intro s es s' hs h
  simp only [exprsTo, bind_eq_ok, pure_eq_ok] at h
  obtain ⟨es, s₁, h₁, t, s₂, h₂, rfl, rfl⟩ := h
  have r₁ := separatedUntil_along lists_exprs hi.expr.along _ _ _ _ hs h₁
  exact r₁.passed (expect_behind (by simp) _ _ _ _ r₁.inOrder h₂).trails

section Literals

variable {e : Expr} (hi : inner.Orders) (hs : s.InOrder) (hne : s.current.kind ≠ .eof)
include hi hs hne

theorem routine_between (h : routine inner s = .ok e s') :
    Between s.current.loc e.nodes s' := by
  simp only [routine, bind_eq_ok, pure_eq_ok] at h
  obtain ⟨first, s₁, h₁, ps, s₂, h₂, body, s₃, h₃, rfl, rfl⟩ := h
  have r₁ := (advance_between hs hne h₁).2
  have r₂ := params_behind hi _ _ _ r₁.inOrder h₂
  have r₃ := blockToEnd_along hi _ _ _ r₂.inOrder h₃
  exact (r₁.append (r₂.trails.append r₃)).expr trivial

theorem package_between (h : package inner s = .ok e s') :
    Between s.current.loc e.nodes s' := by
  simp only [package, bind_eq_ok, pure_eq_ok] at h
  obtain ⟨first, s₁, h₁, name, s₂, h₂, body, s₃, h₃, rfl, rfl⟩ := h
  have r₁ := (advance_between hs hne h₁).2
  have r₂ := identifier_behind _ _ _ r₁.inOrder h₂
  have r₃ := blockToEnd_along hi _ _ _ r₂.inOrder h₃
  exact (r₁.append (r₂.trails.append r₃)).expr trivial

theorem array_between (h : array inner s = .ok e s') : Between s.current.loc e.nodes s' := by
  simp only [array, bind_eq_ok, pure_eq_ok] at h
  obtain ⟨first, s₁, h₁, items, s₂, h₂, rfl, rfl⟩ := h
  have r₁ := (advance_between hs hne h₁).2
  exact (r₁.append (exprsTo_along hi _ _ _ _ _ r₁.inOrder h₂)).expr trivial

theorem hash_between (h : hash inner s = .ok e s') : Between s.current.loc e.nodes s' := by
  have pair : Along (pair inner) fun p =>
      Expr.optionNodes p.key ++ Expr.optionNodes p.value := fun s p s' hs h => by
    simp only [Parser.pair, bind_eq_ok, pure_eq_ok] at h
    obtain ⟨key, s₁, h₁, t, s₂, h₂, value, s₃, h₃, rfl, rfl⟩ := h
    have r₁ := hi.expr _ _ _ hs h₁
    have r₂ := expect_behind (by simp) _ _ _ _ r₁.inOrder h₂
    have r₃ := hi.expr _ _ _ r₂.inOrder h₃
    exact (r₁.append (r₂.trails.append r₃.trails)).trails
  simp only [hash, bind_eq_ok, pure_eq_ok] at h
  obtain ⟨first, s₁, h₁, pairs, s₂, h₂, t, s₃, h₃, rfl, rfl⟩ := h
  have r₁ := (advance_between hs hne h₁).2
  have r₂ := separatedUntil_along lists_pairs pair _ _ _ _ r₁.inOrder h₂
  have r₃ := expect_behind (by simp) _ _ _ _ r₂.inOrder h₃
  exact (r₁.append (r₂.passed r₃.trails)).expr trivial

theorem paren_between (h : paren inner s = .ok e s') : Between s.current.loc e.nodes s' := by
  simp only [paren, bind_eq_ok, pure_eq_ok] at h
  obtain ⟨first, s₁, h₁, e, s₂, h₂, t, s₃, h₃, rfl, rfl⟩ := h
  have r₁ := (advance_between hs hne h₁).2
  have r₂ := hi.expr _ _ _ r₁.inOrder h₂
  have r₃ := expect_behind (by simp) _ _ _ _ r₂.inOrder h₃
  exact (r₁.append (r₂.trails.passed r₃.trails)).expr trivial

end Literals

theorem base_behind (hi : inner.Orders) :
    Behind (base inner) fun b => Expr.listNodes b.args := by
  intro s b s' hs h
  simp only [base, bind_eq_ok, pure_eq_ok] at h
  obtain ⟨name, s₁, h₁, t, s₂, h₂, args, s₃, h₃, rfl, rfl⟩ := h
  have r₁ := identifier_behind _ _ _ hs h₁
  have r₂ := expect_behind (by simp) _ _ _ _ r₁.inOrder h₂
  have r₃ := exprsTo_along hi _ _ _ _ _ r₂.inOrder h₃
  exact r₁.append (r₂.trails.append r₃)

theorem sectionBody_along (hi : inner.Orders) (access : Access) :
    Along (sectionBody inner access) fun x => Block.optionNodes x.body := by
  intro s x s' hs h
  simp only [sectionBody, bind_eq_ok, pure_eq_ok, current_eq_ok] at h
  obtain ⟨t, s₁, ⟨rfl, rfl⟩, body, s₂, h, rfl, rfl⟩ := h
  exact block_along hi _ _ _ hs h

theorem sections_along (hi : inner.Orders) : Along (sections inner) Section.listNodes := by
  intro s xs s' hs h
  obtain ⟨first, s₁, h₁, h⟩ := bind_eq_ok.1 h
  obtain ⟨further, s₂, h₂, h⟩ := bind_eq_ok.1 h
  obtain ⟨rfl, rfl⟩ := pure_eq_ok.1 h
  have r₁ := sectionBody_along hi _ _ _ _ hs h₁
  have r₂ := many_along lists_sections (fun s x s' hs hm h => ?_) _ _ _ r₁.inOrder h₂
  · rw [lists_sections.cons]
    exact r₁.append r₂
  · simp only [furtherSection, bind_eq_ok] at h
    obtain ⟨word, s₁, h₁, h₂⟩ := h
    obtain ⟨access, haccess⟩ := Option.isSome_iff_exists.1 hm
    have r₁ := (advance_between hs (by simp [accessOf?_eq_some haccess]) h₁).2
    exact (r₁.append (sectionBody_along hi _ _ _ _ r₁.inOrder h₂)).trails

theorem classDef_between {e : Expr} (hi : inner.Orders) (hs : s.InOrder)
    (hne : s.current.kind ≠ .eof) (h : classDef inner s = .ok e s') :
    Between s.current.loc e.nodes s' := by
  simp only [classDef, bind_eq_ok, pure_eq_ok] at h
  obtain ⟨first, s₁, h₁, name, s₂, h₂, ps, s₃, h₃, b, s₄, h₄, names, s₅, h₅, xs, s₆, h₆,
    t, s₇, h₇, rfl, rfl⟩ := h
  have r₁ := (advance_between hs hne h₁).2
  have r₂ := identifier_behind _ _ _ r₁.inOrder h₂
  have r₃ := params_behind hi _ _ _ r₂.inOrder h₃
  have r₄ := after?_along (by simp) (base_behind hi).along _ _ _ r₃.inOrder h₄
  have hnames : Along (separated identifier) fun _ => [] :=
    separated_along lists_names identifier_behind.along
  have r₅ := after?_along (by simp) hnames _ _ _ r₄.inOrder h₅
  have r₆ := sections_along hi _ _ _ r₅.inOrder h₆
  have r₇ := expect_behind (by simp) _ _ _ _ r₆.inOrder h₇
  have hparams := r₁.append (r₂.trails.append r₃.trails)
  have hbase : Trails s₃ (Base.optionNodes b) s₅ := by
    rcases b with _ | ⟨_, _⟩ <;> cases names <;> exact r₄.passed r₅
  exact (hparams.classDef hbase r₆).passed r₇.trails

theorem atom_behind : Behind atom Expr.nodes := by
  intro s e s' hs h
  unfold atom at h
  split at h
  · rename_i e₁ he
    simp only [bind_eq_ok, pure_eq_ok] at h
    obtain ⟨t, s₁, h, rfl, rfl⟩ := h
    have r := (advance_between hs (atom?_eq_some he).1 h).2
    unfold atom? at he
    split at he <;> cases he <;> exact r.expr trivial
  · exact absurd h fail_ne_ok

theorem primary_behind (hi : inner.Orders) : Behind (primary inner) Expr.nodes := by
  intro s e s' hs h
  unfold primary at h
  split at h
  · exact routine_between hi hs (by simp [*]) h
  · exact classDef_between hi hs (by simp [*]) h
  · exact package_between hi hs (by simp [*]) h
  · exact array_between hi hs (by simp [*]) h
  · exact hash_between hi hs (by simp [*]) h
  · exact paren_between hi hs (by simp [*]) h
  · exact atom_behind _ _ _ hs h

theorem Between.raised {ns : List Node} {u : Unit} (h : Between lo ns s)
    (hraise : raise s = .ok u s') : Between lo ns s' := by
  obtain ⟨-, rfl⟩ := raise_eq_ok hraise
  exact h.of_eq rfl rfl

/-- A link of a postfix chain comes behind all that the chain holds so far. -/
theorem postfixLink_between (hi : inner.Orders) {e e' : Expr} (he : Between lo e.nodes s)
    (hk : opensPostfix s.current.kind = true) (h : postfixLink inner e s = .ok e' s') :
    Between lo e'.nodes s' := by
  simp only [postfixLink, bind_eq_ok] at h
  obtain ⟨u, s₁, h₁, mark, s₂, h₂, h⟩ := h
  obtain ⟨p, hk, hp⟩ := opensPostfix_eq_true hk
  have r₁ := he.raised h₁
  obtain ⟨-, rfl⟩ := raise_eq_ok h₁
  obtain ⟨rfl, r₂⟩ := advance_between r₁.inOrder (by simp [hk]) h₂
  have r := r₁.passed r₂.trails
  obtain rfl | rfl | rfl := hp
  · simp only [hk, bind_eq_ok, pure_eq_ok] at h
    obtain ⟨args, s₃, h₃, rfl, rfl⟩ := h
    exact (r.append (exprsTo_along hi _ _ _ _ _ r.inOrder h₃)).expr trivial
  · simp only [hk, bind_eq_ok, pure_eq_ok] at h
    obtain ⟨index, s₃, h₃, t, s₄, h₄, rfl, rfl⟩ := h
    have r₃ := hi.expr _ _ _ r.inOrder h₃
    have r₄ := expect_behind (by simp) _ _ _ _ r₃.inOrder h₄
    exact (r.append (r₃.trails.passed r₄.trails)).expr trivial
  · simp only [hk, bind_eq_ok, pure_eq_ok] at h
    obtain ⟨name, s₃, h₃, rfl, rfl⟩ := h
    exact (r.passed (identifier_behind _ _ _ r.inOrder h₃).trails).expr trivial

theorem postfixed_behind (hi : inner.Orders) : Behind (postfixed inner) Expr.nodes := by
  refine chain_behind fun s e s' hs h => ?_
  obtain ⟨first, s₁, h₁, h⟩ := bind_eq_ok.1 h
  exact links_keeps (I := fun e s₂ => Between s.current.loc e.nodes s₂)
    (fun _ _ _ _ he hk h => postfixLink_between hi he hk h) (primary_behind hi _ _ _ hs h₁) h

theorem unary_behind (hi : inner.Orders) : Behind (unary inner) Expr.nodes := by
  intro s e s' hs h
  unfold unary at h
  split at h
  · rename_i op hop
    simp only [bind_eq_ok, pure_eq_ok] at h
    obtain ⟨first, s₁, h₁, operand, s₂, h₂, rfl, rfl⟩ := h
    have hk := Kind.operator?_eq_some.1 (Option.filter_eq_some_iff.1 hop).1
    have r₁ := (advance_between hs (by simp [hk]) h₁).2
    exact (r₁.append (hi.unary _ _ _ r₁.inOrder h₂).trails).expr trivial
  · exact postfixed_behind hi _ _ _ hs h

/-- So does an operator with its right operand. -/
theorem binaryLink_between {least : Level}
    (hright : ∀ level, least.rank ≤ level.rank → Behind (rightOperand inner level) Expr.nodes)
    {e e' : Expr} (he : Between lo e.nodes s)
    (hm : (binaryOf? least s.current.kind).isSome = true)
    (h : binaryLink inner least e s = .ok e' s') : Between lo e'.nodes s' := by
  obtain ⟨op, level, hk, -, hle, t, s₁, u, s₂, right, h₁, h₂, h₃, rfl⟩ := binaryLink_eq_ok hm h
  have r₁ := (advance_between he.inOrder (by simp [hk]) h₁).2
  have r := (he.passed r₁.trails).raised h₂
  exact (r.append (hright level hle _ _ _ r.inOrder h₃).trails).expr trivial

theorem climb_behind (hi : inner.Orders) (least : Level) :
    Behind (climb inner least) Expr.nodes := by
  refine climb_induction (P := fun _ p => Behind p Expr.nodes) (unary_behind hi)
    (fun least hright => ?_) least
  rw [climb]
  refine chain_behind fun s e s' hs h => ?_
  obtain ⟨first, s₁, h₁, h⟩ := bind_eq_ok.1 h
  exact links_keeps (I := fun e s₂ => Between s.current.loc e.nodes s₂)
    (fun _ _ _ _ he hm h => binaryLink_between hright he hm h) (unary_behind hi _ _ _ hs h₁) h

theorem assignment_behind (hi : inner.Orders) : Behind (assignment inner) Expr.nodes := by
  intro s e s' hs h
  simp only [assignment, bind_eq_ok, current_eq_ok] at h
  obtain ⟨target, s₁, h₁, t, s₂, ⟨rfl, rfl⟩, h⟩ := h
  have r₁ := climb_behind hi _ _ _ _ hs h₁
  split at h
  · rename_i hk
    split at h
    · simp only [bind_eq_ok, pure_eq_ok] at h
      obtain ⟨t, s₃, h₃, value, s₄, h₄, rfl, rfl⟩ := h
      have r₂ := (advance_between r₁.inOrder (by simp [hk]) h₃).2
      have r₃ := hi.expr _ _ _ r₂.inOrder h₄
      exact (r₁.append (r₂.trails.append r₃.trails)).expr trivial
    · simp [failAt] at h
  · obtain ⟨rfl, rfl⟩ := pure_eq_ok.1 h
    exact r₁

theorem otherwise_along (hi : inner.Orders) : Along (otherwise inner) Block.optionNodes := by
  intro s b s' hs h
  have r := after?_along (by simp) (block_along hi) _ _ _ hs h
  cases b <;> exact r

theorem elseifBranch_trails (hi : inner.Orders) {b : Branch} (hs : s.InOrder)
    (hne : s.current.kind ≠ .eof) (h : elseifBranch inner s = .ok b s') :
    Trails s (Expr.optionNodes b.test ++ Block.optionNodes b.body) s' := by
  simp only [elseifBranch, bind_eq_ok, pure_eq_ok] at h
  obtain ⟨word, s₁, h₁, test, s₂, h₂, body, s₃, h₃, rfl, rfl⟩ := h
  have r₁ := (advance_between hs hne h₁).2
  have r₂ := hi.expr _ _ _ r₁.inOrder h₂
  have r₃ := block_along hi _ _ _ r₂.inOrder h₃
  exact (r₁.append (r₂.trails.append r₃)).trails

theorem whenClause_along (hi : inner.Orders) : Along (whenClause inner) fun b =>
    Expr.optionNodes b.test ++ Block.optionNodes b.body := by
  intro s b s' hs h
  simp only [whenClause, bind_eq_ok, pure_eq_ok] at h
  obtain ⟨word, s₁, h₁, test, s₂, h₂, t, s₃, h₃, body, s₄, h₄, rfl, rfl⟩ := h
  have r₁ := expect_behind (by simp) _ _ _ _ hs h₁
  have r₂ := hi.expr _ _ _ r₁.inOrder h₂
  have r₃ := expect_behind (by simp) _ _ _ _ r₂.inOrder h₃
  have r₄ := block_along hi _ _ _ r₃.inOrder h₄
  exact (r₁.append ((r₂.trails.passed r₃.trails).append r₄)).trails

theorem loopBody_along (hi : inner.Orders) : Along (loopBody inner) Block.nodes := by
  intro s b s' hs h
  simp only [loopBody, bind_eq_ok] at h
  obtain ⟨t, s₁, h₁, h₂⟩ := h
  have r₁ := expect_behind (by simp) _ _ _ _ hs h₁
  exact (r₁.append (blockToEnd_along hi _ _ _ r₁.inOrder h₂)).trails

section Statements

variable {x : Stmt} (hs : s.InOrder) (hne : s.current.kind ≠ .eof)
include hs hne

theorem importStmt_trails (h : importStmt s = .ok x s') : Trails s x.nodes s' := by
  obtain ⟨word, s₁, h₁, h⟩ := bind_eq_ok.1 h
  obtain ⟨first, s₂, h₂, h⟩ := bind_eq_ok.1 h
  obtain ⟨further, s₃, h₃, h⟩ := bind_eq_ok.1 h
  obtain ⟨rfl, rfl⟩ := pure_eq_ok.1 h
  obtain ⟨rfl, r₁⟩ := advance_between hs hne h₁
  have r₂ := identifier_behind _ _ _ r₁.inOrder h₂
  have r₃ := many_along lists_names (fun s n s' hs hm h => ?_) _ _ _ r₂.inOrder h₃
  · exact .stmt rfl (r₁.append (r₂.trails.append r₃))
  · simp only [bind_eq_ok] at h
    obtain ⟨t, s₁, h₁, h₂⟩ := h
    have r₁ := (advance_between hs (ne_eof_of_isAt (by simp) hm) h₁).2
    exact (r₁.append (identifier_behind _ _ _ r₁.inOrder h₂).trails).trails

theorem wordStmt_trails {build : Location → Stmt} (hloc : ∀ loc, (build loc).loc = loc)
    (hnodes : ∀ loc, (build loc).nodes = [.stmt (build loc)]) (h : wordStmt build s = .ok x s') :
    Trails s x.nodes s' := by
  simp only [wordStmt, bind_eq_ok, pure_eq_ok] at h
  obtain ⟨word, s₁, h, rfl, rfl⟩ := h
  obtain ⟨rfl, r⟩ := advance_between hs hne h
  rw [hnodes]
  exact .stmt (hloc _) r

variable (hi : inner.Orders)
include hi

theorem condStmt_trails (h : condStmt inner s = .ok x s') : Trails s x.nodes s' := by
  obtain ⟨word, s₁, h₁, h⟩ := bind_eq_ok.1 h
  obtain ⟨test, s₂, h₂, h⟩ := bind_eq_ok.1 h
  obtain ⟨body, s₃, h₃, h⟩ := bind_eq_ok.1 h
  obtain ⟨elseifs, s₄, h₄, h⟩ := bind_eq_ok.1 h
  simp only [bind_eq_ok, pure_eq_ok] at h
  obtain ⟨otherwise, s₅, h₅, t, s₆, h₆, rfl, rfl⟩ := h
  obtain ⟨rfl, r₁⟩ := advance_between hs hne h₁
  have r₂ := hi.expr _ _ _ r₁.inOrder h₂
  have r₃ := block_along hi _ _ _ r₂.inOrder h₃
  have r₄ := many_along lists_branches (fun s b s' hs hm h =>
    elseifBranch_trails hi hs (ne_eof_of_isAt (by simp) hm) h) _ _ _ r₃.inOrder h₄
  have r₅ := otherwise_along hi _ _ _ r₄.inOrder h₅
  have r₆ := expect_behind (by simp) _ _ _ _ r₅.inOrder h₆
  exact .stmt rfl
    (r₁.append (r₂.trails.append (r₃.append (r₄.append (r₅.passed r₆.trails)))))

theorem caseStmt_trails (h : caseStmt inner s = .ok x s') : Trails s x.nodes s' := by
  obtain ⟨word, s₁, h₁, h⟩ := bind_eq_ok.1 h
  obtain ⟨subject, s₂, h₂, h⟩ := bind_eq_ok.1 h
  obtain ⟨first, s₃, h₃, h⟩ := bind_eq_ok.1 h
  obtain ⟨further, s₄, h₄, h⟩ := bind_eq_ok.1 h
  simp only [bind_eq_ok, pure_eq_ok] at h
  obtain ⟨otherwise, s₅, h₅, t, s₆, h₆, rfl, rfl⟩ := h
  obtain ⟨rfl, r₁⟩ := advance_between hs hne h₁
  have r₂ := hi.expr _ _ _ r₁.inOrder h₂
  have r₃ := whenClause_along hi _ _ _ r₂.inOrder h₃
  have r₄ := many_along lists_branches (fun s b s' hs _ h => whenClause_along hi s b s' hs h)
    _ _ _ r₃.inOrder h₄
  have r₅ := otherwise_along hi _ _ _ r₄.inOrder h₅
  have r₆ := expect_behind (by simp) _ _ _ _ r₅.inOrder h₆
  have whens : Trails s₂ (Branch.listNodes (first :: further)) s₄ := by
    rw [lists_branches.cons]
    exact r₃.append r₄
  exact .stmt rfl (r₁.append (r₂.trails.append (whens.append (r₅.passed r₆.trails))))

theorem whileStmt_trails (h : whileStmt inner s = .ok x s') : Trails s x.nodes s' := by
  simp only [whileStmt, bind_eq_ok, pure_eq_ok] at h
  obtain ⟨word, s₁, h₁, test, s₂, h₂, body, s₃, h₃, rfl, rfl⟩ := h
  obtain ⟨rfl, r₁⟩ := advance_between hs hne h₁
  have r₂ := hi.expr _ _ _ r₁.inOrder h₂
  have r₃ := loopBody_along hi _ _ _ r₂.inOrder h₃
  exact .stmt rfl (r₁.append (r₂.trails.append r₃))

theorem forStmt_trails (h : forStmt inner s = .ok x s') : Trails s x.nodes s' := by
  simp only [forStmt, bind_eq_ok, pure_eq_ok] at h
  obtain ⟨word, s₁, h₁, init, s₂, h₂, t, s₃, h₃, test, s₄, h₄, t', s₅, h₅, step, s₆, h₆,
    body, s₇, h₇, rfl, rfl⟩ := h
  obtain ⟨rfl, r₁⟩ := advance_between hs hne h₁
  have r₂ := hi.expr _ _ _ r₁.inOrder h₂
  have r₃ := expect_behind (by simp) _ _ _ _ r₂.inOrder h₃
  have r₄ := hi.expr _ _ _ r₃.inOrder h₄
  have r₅ := expect_behind (by simp) _ _ _ _ r₄.inOrder h₅
  have r₆ := hi.expr _ _ _ r₅.inOrder h₆
  have r₇ := loopBody_along hi _ _ _ r₆.inOrder h₇
  exact .stmt rfl (r₁.append ((r₂.trails.passed r₃.trails).append
    ((r₄.trails.passed r₅.trails).append (r₆.trails.append r₇))))

theorem foreachStmt_trails (h : foreachStmt inner s = .ok x s') : Trails s x.nodes s' := by
  simp only [foreachStmt, bind_eq_ok, pure_eq_ok] at h
  obtain ⟨word, s₁, h₁, item, s₂, h₂, t, s₃, h₃, collection, s₄, h₄, body, s₅, h₅, rfl, rfl⟩ := h
  obtain ⟨rfl, r₁⟩ := advance_between hs hne h₁
  have r₂ := identifier_behind _ _ _ r₁.inOrder h₂
  have r₃ := expect_behind (by simp) _ _ _ _ r₂.inOrder h₃
  have r₄ := hi.expr _ _ _ r₃.inOrder h₄
  have r₅ := loopBody_along hi _ _ _ r₄.inOrder h₅
  exact .stmt rfl (r₁.append ((r₂.trails.passed r₃.trails).append (r₄.trails.append r₅)))

theorem returnStmt_trails (h : returnStmt inner s = .ok x s') : Trails s x.nodes s' := by
  simp only [returnStmt, bind_eq_ok, current_eq_ok] at h
  obtain ⟨word, s₁, h₁, t, s₂, ⟨rfl, rfl⟩, h⟩ := h
  obtain ⟨rfl, r₁⟩ := advance_between hs hne h₁
  split at h
  · simp only [bind_eq_ok, pure_eq_ok] at h
    obtain ⟨value, s₃, h₃, rfl, rfl⟩ := h
    exact .stmt rfl (r₁.append (hi.expr _ _ _ r₁.inOrder h₃).trails)
  · obtain ⟨rfl, rfl⟩ := pure_eq_ok.1 h
    exact .stmt rfl r₁

end Statements

theorem stmt_along (hi : inner.Orders) : Along (Parser.stmt inner) Stmt.nodes := by
  intro s x s' hs h
  unfold Parser.stmt at h
  split at h
  · exact importStmt_trails hs (by simp [*]) h
  · exact condStmt_trails hs (by simp [*]) hi h
  · exact caseStmt_trails hs (by simp [*]) hi h
  · exact whileStmt_trails hs (by simp [*]) hi h
  · exact forStmt_trails hs (by simp [*]) hi h
  · exact foreachStmt_trails hs (by simp [*]) hi h
  · exact wordStmt_trails hs (by simp [*]) (fun _ => rfl) (fun _ => rfl) h
  · exact wordStmt_trails hs (by simp [*]) (fun _ => rfl) (fun _ => rfl) h
  · exact returnStmt_trails hs (by simp [*]) hi h
  · simp only [exprStmt, bind_eq_ok, pure_eq_ok, current_eq_ok] at h
    obtain ⟨t, s₁, ⟨rfl, rfl⟩, e, s₂, h, rfl, rfl⟩ := h
    exact .stmt rfl (hi.expr _ _ _ hs h)

end Parser

/-- By induction on the levels: the productions of a level nest those of the one below. -/
theorem Nested.orders_ofLevels (levels : Nat) : (Nested.ofLevels levels).Orders := by
  induction levels with
  | zero => constructor <;> exact fun _ _ _ _ h => absurd h fail_ne_ok
  | succ levels ih =>
    rw [Nested.ofLevels]
    constructor <;> dsimp only
    · exact nested_along (stmt_along ih)
    · exact nested_behind (assignment_behind ih)
    · exact nested_behind (unary_behind ih)

end LarkCheck
