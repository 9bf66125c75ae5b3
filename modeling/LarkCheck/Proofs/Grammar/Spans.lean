import LarkCheck.Proofs.Grammar.Success

/-!
# What the productions read

Each production, when it succeeds, has read the pieces of the node it gives and
nothing else, and has moved the counters by the weight of the node. A production
takes this of the nesting productions for granted; `Nested.ofLevels` then has it
level by level.
-/

namespace LarkCheck

open Token LarkCheck.Parser

/-- The nesting productions read what they give, one level deeper. -/
structure Nested.Reads (inner : Nested) : Prop where
  stmt : Parser.Reads inner.stmt Stmt.pieces fun x => x.weight.deeper
  expr : Parser.Reads inner.expr Expr.pieces fun e => e.weight.deeper
  unary : Parser.Reads inner.unary Expr.pieces fun e => e.weight.deeper

namespace Parser

variable {α β : Type} {inner : Nested} {s s' : State}

theorem block_spans (hi : inner.Reads) : Reads (block inner) Block.pieces Block.weight := by
  intro s b s' hs h
  obtain ⟨t, s₁, h₁, h⟩ := bind_eq_ok.1 h
  obtain ⟨stmts, s₂, h₂, h⟩ := bind_eq_ok.1 h
  obtain ⟨rfl, rfl⟩ := pure_eq_ok.1 h
  obtain ⟨rfl, rfl⟩ := current_eq_ok.1 h₁
  exact many_spans listed_stmts
    (fun s a s' hs _ h => (hi.stmt s a s' hs h).of_eq (by simp) rfl rfl) hs h₂

theorem blockToEnd_spans (hi : inner.Reads) : Reads (blockToEnd inner)
    (fun b => b.pieces ++ [.word .endKw]) Block.weight := by
  intro s b s' hs h
  simp only [blockToEnd, bind_eq_ok, pure_eq_ok] at h
  obtain ⟨body, s₁, h₁, t, s₂, h₂, rfl, rfl⟩ := h
  have r₁ := block_spans hi _ _ _ hs h₁
  have r₂ := (expect_spans r₁.ready (by simp) h₂).2
  exact (r₁.trans r₂).of_eq rfl (by simp) (by simp)

theorem outputParam_spans {loc : Location} {p : Param} (hs : s.Ready)
    (hk : s.current.kind = .keyword .outKw) (h : outputParam loc s = .ok p s') :
    Spans s p.pieces p.weight s' := by
  simp only [outputParam, bind_eq_ok, current_eq_ok] at h
  obtain ⟨t, s₁, h₁, name, s₂, h₂, next, s₃, ⟨rfl, rfl⟩, h⟩ := h
  split at h
  · simp [failAt] at h
  · obtain ⟨rfl, rfl⟩ := pure_eq_ok.1 h
    have r₁ := (advance_spans hs hk (by simp) h₁).2
    exact (r₁.trans (identifier_spans r₁.ready h₂)).of_eq rfl rfl rfl

theorem valueParam_spans (hi : inner.Reads) {loc : Location} {p : Param} (hs : s.Ready)
    (h : valueParam inner loc s = .ok p s') : Spans s p.pieces p.weight s' := by
  simp only [valueParam, bind_eq_ok, pure_eq_ok] at h
  obtain ⟨name, s₁, h₁, default, s₂, h₂, rfl, rfl⟩ := h
  have r₁ := identifier_spans hs h₁
  obtain ⟨rfl, r₂⟩ | ⟨e, rfl, r₂⟩ := after?_spans hi.expr (by simp) r₁.ready h₂
  · exact (r₁.trans r₂).of_eq rfl rfl rfl
  · exact (r₁.trans r₂).of_eq rfl (by simp [Param.weight]) (by simp [Param.weight])

theorem param_spans (hi : inner.Reads) : Reads (param inner) Param.pieces Param.weight := by
  intro s p s' hs h
  simp only [param, bind_eq_ok, current_eq_ok] at h
  obtain ⟨t, s₁, ⟨rfl, rfl⟩, h⟩ := h
  split at h
  · rename_i hk
    exact outputParam_spans hs hk h
  · exact valueParam_spans hi hs h

theorem params_spans (hi : inner.Reads) : Reads (params inner)
    (fun ps => .mark .lparen :: (Param.listPieces ps ++ [.mark .rparen])) Param.listWeight := by
  intro s ps s' hs h
  simp only [params, bind_eq_ok, pure_eq_ok] at h
  obtain ⟨t, s₁, h₁, ps, s₂, h₂, t', s₃, h₃, rfl, rfl⟩ := h
  have r₁ := (expect_spans hs (by simp) h₁).2
  have r₂ := separatedUntil_spans separated_params (param_spans hi) _ _ _ _ r₁.ready h₂
  have r₃ := (expect_spans r₂.ready (by simp) h₃).2
  exact (r₁.trans (r₂.trans r₃)).of_eq rfl (by simp) (by simp)

theorem exprsTo_spans (hi : inner.Reads) (close : Punctuation) (code : Diagnostic.Code) :
    Reads (exprsTo inner close code) (fun es => Expr.listPieces es ++ [.mark close])
      Expr.listWeight := by
  intro s es s' hs h
  simp only [exprsTo, bind_eq_ok, pure_eq_ok] at h
  obtain ⟨es, s₁, h₁, t, s₂, h₂, rfl, rfl⟩ := h
  have r₁ := separatedUntil_spans separated_exprs hi.expr _ _ _ _ hs h₁
  have r₂ := (expect_spans r₁.ready (by simp) h₂).2
  exact (r₁.trans r₂).of_eq rfl (by simp) (by simp)

theorem routine_spans (hi : inner.Reads) {e : Expr} (hs : s.Ready)
    (hk : s.current.kind = .keyword .routineKw) (h : routine inner s = .ok e s') :
    Spans s e.pieces e.weight s' := by
  simp only [routine, bind_eq_ok, pure_eq_ok] at h
  obtain ⟨first, s₁, h₁, ps, s₂, h₂, body, s₃, h₃, rfl, rfl⟩ := h
  have r₁ := (advance_spans hs hk (by simp) h₁).2
  have r₂ := params_spans hi _ _ _ r₁.ready h₂
  have r₃ := blockToEnd_spans hi _ _ _ r₂.ready h₃
  refine (r₁.trans (r₂.trans r₃)).of_eq ?_ ?_ ?_
  · simp [Expr.pieces, Block.slotPieces]
  · simp [Expr.weight, Block.slotWeight]
  · simp [Expr.weight, Block.slotWeight]

theorem base_spans (hi : inner.Reads) : Reads (base inner)
    (fun b => .name b.name.text :: .mark .lparen :: (Expr.listPieces b.args ++ [.mark .rparen]))
    (fun b => Expr.listWeight b.args) := by
  intro s b s' hs h
  simp only [base, bind_eq_ok, pure_eq_ok] at h
  obtain ⟨name, s₁, h₁, t, s₂, h₂, args, s₃, h₃, rfl, rfl⟩ := h
  have r₁ := identifier_spans hs h₁
  have r₂ := (expect_spans r₁.ready (by simp) h₂).2
  have r₃ := exprsTo_spans hi _ _ _ _ _ r₂.ready h₃
  exact (r₁.trans (r₂.trans r₃)).of_eq rfl (by simp) (by simp)

theorem sectionBody_spans (hi : inner.Reads) {access : Access} {x : Section} (hs : s.Ready)
    (h : sectionBody inner access s = .ok x s') :
    x.access = access ∧ Spans s (Block.slotPieces x.body) (Block.slotWeight x.body) s' := by
  simp only [sectionBody, bind_eq_ok, pure_eq_ok, current_eq_ok] at h
  obtain ⟨t, s₁, ⟨rfl, rfl⟩, body, s₂, h, rfl, rfl⟩ := h
  exact ⟨rfl, block_spans hi _ _ _ hs h⟩

theorem accessOf?_eq_some {kind : Kind} {access : Access} (h : accessOf? kind = some access) :
    kind = .keyword access.keyword := by
  unfold accessOf? at h
  split at h <;> cases h <;> rfl

theorem furtherSection_spans (hi : inner.Reads) {x : Section} (hs : s.Ready)
    (hk : (accessOf? s.current.kind).isSome = true) (h : furtherSection inner s = .ok x s') :
    Spans s (.word x.access.keyword :: Block.slotPieces x.body) (Block.slotWeight x.body) s' := by
  simp only [furtherSection, bind_eq_ok] at h
  obtain ⟨t, s₁, h₁, h₂⟩ := h
  obtain ⟨access, haccess⟩ := Option.isSome_iff_exists.1 hk
  obtain ⟨rfl, r₁⟩ := advance_spans hs (accessOf?_eq_some haccess) (by simp) h₁
  rw [haccess] at h₂
  obtain ⟨hx, r₂⟩ := sectionBody_spans hi r₁.ready h₂
  rw [hx]
  exact (r₁.trans r₂).of_eq rfl (by simp) (by simp)

theorem sections_spans (hi : inner.Reads) :
    Reads (sections inner) Section.listPieces Section.listWeight := by
  intro s xs s' hs h
  obtain ⟨first, s₁, h₁, h⟩ := bind_eq_ok.1 h
  obtain ⟨further, s₂, h₂, h⟩ := bind_eq_ok.1 h
  obtain ⟨rfl, rfl⟩ := pure_eq_ok.1 h
  have r₁ := (sectionBody_spans hi hs h₁).2
  have r₂ := many_spans listed_sections (fun _ _ _ hs hm h => furtherSection_spans hi hs hm h)
    r₁.ready h₂
  obtain ⟨_, _, _⟩ := first
  exact r₁.trans r₂

theorem includes_spans {names : Option (List Name)} (hs : s.Ready)
    (h : after? (.keyword .includeKw) (separated identifier) s = .ok names s') :
    Spans s (Piece.includes (names.getD [])) .zero s' := by
  have hp := separated_spans separated_names fun _ _ _ hs h => identifier_spans hs h
  obtain ⟨rfl, r⟩ | ⟨names, rfl, r⟩ := after?_spans hp (by simp) hs h
  · exact r
  · -- at least one name has been read, so the word stands there
    cases names with
    | cons first further => exact r
    | nil =>
      unfold after? at h
      split at h
      · simp only [bind_eq_ok, map_eq_ok] at h
        obtain ⟨t, s₁, -, names, h, hnames⟩ := h
        cases hnames
        obtain ⟨first, s₂, -, h⟩ := bind_eq_ok.1 h
        obtain ⟨further, s₃, -, h⟩ := bind_eq_ok.1 h
        exact absurd (pure_eq_ok.1 h).1 (by simp)
      · cases h

theorem baseOption_spans (hi : inner.Reads) {b : Option Base} (hs : s.Ready)
    (h : after? (.punctuation .colon) (base inner) s = .ok b s') :
    Spans s (Base.optionPieces b) (Base.optionWeight b) s' := by
  obtain ⟨rfl, r⟩ | ⟨b, rfl, r⟩ := after?_spans (base_spans hi) (by simp) hs h
  · exact r
  · obtain ⟨_, _⟩ := b
    exact r

theorem classDef_spans (hi : inner.Reads) {e : Expr} (hs : s.Ready)
    (hk : s.current.kind = .keyword .classKw) (h : classDef inner s = .ok e s') :
    Spans s e.pieces e.weight s' := by
  simp only [classDef, bind_eq_ok, pure_eq_ok] at h
  obtain ⟨first, s₁, h₁, name, s₂, h₂, ps, s₃, h₃, b, s₄, h₄, names, s₅, h₅, xs, s₆, h₆,
    t, s₇, h₇, rfl, rfl⟩ := h
  have r₁ := (advance_spans hs hk (by simp) h₁).2
  have r₂ := identifier_spans r₁.ready h₂
  have r₃ := params_spans hi _ _ _ r₂.ready h₃
  have r₄ := baseOption_spans hi r₃.ready h₄
  have r₅ := includes_spans r₄.ready h₅
  have r₆ := sections_spans hi _ _ _ r₅.ready h₆
  have r₇ := (expect_spans r₆.ready (by simp) h₇).2
  refine (r₁.trans (r₂.trans (r₃.trans (r₄.trans (r₅.trans (r₆.trans r₇)))))).of_eq ?_ ?_ ?_
  · simp [Expr.pieces]
  · simp [Expr.weight]
  · simp [Expr.weight]

theorem package_spans (hi : inner.Reads) {e : Expr} (hs : s.Ready)
    (hk : s.current.kind = .keyword .packageKw) (h : package inner s = .ok e s') :
    Spans s e.pieces e.weight s' := by
  simp only [package, bind_eq_ok, pure_eq_ok] at h
  obtain ⟨first, s₁, h₁, name, s₂, h₂, body, s₃, h₃, rfl, rfl⟩ := h
  have r₁ := (advance_spans hs hk (by simp) h₁).2
  have r₂ := identifier_spans r₁.ready h₂
  have r₃ := blockToEnd_spans hi _ _ _ r₂.ready h₃
  refine (r₁.trans (r₂.trans r₃)).of_eq ?_ ?_ ?_
  · simp [Expr.pieces, Block.slotPieces]
  · simp [Expr.weight, Block.slotWeight]
  · simp [Expr.weight, Block.slotWeight]

theorem array_spans (hi : inner.Reads) {e : Expr} (hs : s.Ready)
    (hk : s.current.kind = .punctuation .lbracket) (h : array inner s = .ok e s') :
    Spans s e.pieces e.weight s' := by
  simp only [array, bind_eq_ok, pure_eq_ok] at h
  obtain ⟨first, s₁, h₁, items, s₂, h₂, rfl, rfl⟩ := h
  have r₁ := (advance_spans hs hk (by simp) h₁).2
  have r₂ := exprsTo_spans hi _ _ _ _ _ r₁.ready h₂
  exact (r₁.trans r₂).of_eq rfl (by simp [Expr.weight]) (by simp [Expr.weight])

theorem pair_spans (hi : inner.Reads) : Reads (pair inner) Pair.pieces Pair.weight := by
  intro s p s' hs h
  simp only [pair, bind_eq_ok, pure_eq_ok] at h
  obtain ⟨key, s₁, h₁, t, s₂, h₂, value, s₃, h₃, rfl, rfl⟩ := h
  have r₁ := hi.expr _ _ _ hs h₁
  have r₂ := (expect_spans r₁.ready (by simp) h₂).2
  have r₃ := hi.expr _ _ _ r₂.ready h₃
  refine (r₁.trans (r₂.trans r₃)).of_eq ?_ ?_ ?_
  · simp [Pair.pieces, Expr.slotPieces, Piece.mark]
  · simp [Pair.weight, Expr.slotWeight]
  · simp [Pair.weight, Expr.slotWeight]

theorem hash_spans (hi : inner.Reads) {e : Expr} (hs : s.Ready)
    (hk : s.current.kind = .punctuation .lbrace) (h : hash inner s = .ok e s') :
    Spans s e.pieces e.weight s' := by
  simp only [hash, bind_eq_ok, pure_eq_ok] at h
  obtain ⟨first, s₁, h₁, pairs, s₂, h₂, t, s₃, h₃, rfl, rfl⟩ := h
  have r₁ := (advance_spans hs hk (by simp) h₁).2
  have r₂ := separatedUntil_spans separated_pairs (pair_spans hi) _ _ _ _ r₁.ready h₂
  have r₃ := (expect_spans r₂.ready (by simp) h₃).2
  exact (r₁.trans (r₂.trans r₃)).of_eq rfl (by simp [Expr.weight]) (by simp [Expr.weight])

theorem paren_spans (hi : inner.Reads) {e : Expr} (hs : s.Ready)
    (hk : s.current.kind = .punctuation .lparen) (h : paren inner s = .ok e s') :
    Spans s e.pieces e.weight s' := by
  simp only [paren, bind_eq_ok, pure_eq_ok] at h
  obtain ⟨first, s₁, h₁, e, s₂, h₂, t, s₃, h₃, rfl, rfl⟩ := h
  have r₁ := (advance_spans hs hk (by simp) h₁).2
  have r₂ := hi.expr _ _ _ r₁.ready h₂
  have r₃ := (expect_spans r₂.ready (by simp) h₃).2
  refine (r₁.trans (r₂.trans r₃)).of_eq ?_ ?_ ?_
  · simp [Expr.pieces, Expr.slotPieces]
  · simp [Expr.weight, Expr.slotWeight]
  · simp [Expr.weight, Expr.slotWeight]

theorem atom?_eq_some {loc : Location} {kind : Kind} {e : Expr} (h : atom? loc kind = some e) :
    kind ≠ .eof ∧ e.pieces = [.free kind] ∧ e.weight = .zero := by
  unfold atom? at h
  split at h <;> cases h <;> exact ⟨by simp, rfl, rfl⟩

theorem atom_spans : Reads atom Expr.pieces Expr.weight := by
  intro s e s' hs h
  unfold atom at h
  split at h
  · rename_i e₁ he
    simp only [bind_eq_ok, pure_eq_ok] at h
    obtain ⟨t, s₁, h, rfl, rfl⟩ := h
    obtain ⟨hne, hp, hw⟩ := atom?_eq_some he
    rw [hp, hw]
    exact (advance_spans hs rfl hne h).2
  · exact absurd h fail_ne_ok

theorem primary_spans (hi : inner.Reads) : Reads (primary inner) Expr.pieces Expr.weight := by
  intro s e s' hs h
  unfold primary at h
  split at h
  · exact routine_spans hi hs ‹_› h
  · exact classDef_spans hi hs ‹_› h
  · exact package_spans hi hs ‹_› h
  · exact array_spans hi hs ‹_› h
  · exact hash_spans hi hs ‹_› h
  · exact paren_spans hi hs ‹_› h
  · exact atom_spans _ _ _ hs h

/-- A link of a postfix chain puts its node on top of the chain so far. -/
theorem postfixLink_chained (hi : inner.Reads) {s₀ : State} {e e' : Expr}
    (hc : Chained s₀ e.pieces e.weight s) (hk : opensPostfix s.current.kind = true)
    (h : postfixLink inner e s = .ok e' s') : Chained s₀ e'.pieces e'.weight s' := by
  simp only [postfixLink, bind_eq_ok] at h
  obtain ⟨u, s₁, h₁, mark, s₂, h₂, h⟩ := h
  obtain ⟨hs₁, kept⟩ := raise_ready hc.ready h₁
  obtain ⟨p, hk, hp⟩ := opensPostfix_eq_true hk
  rw [← kept] at hk
  obtain ⟨rfl, r⟩ := advance_spans hs₁ hk (by simp) h₂
  obtain rfl | rfl | rfl := hp
  · simp only [hk, bind_eq_ok, pure_eq_ok] at h
    obtain ⟨args, s₃, h₃, rfl, rfl⟩ := h
    have r₃ := exprsTo_spans hi _ _ _ _ _ r.ready h₃
    exact hc.link h₁ ((r.trans r₃).of_eq rfl (by simp) (by simp))
  · simp only [hk, bind_eq_ok, pure_eq_ok] at h
    obtain ⟨index, s₃, h₃, t, s₄, h₄, rfl, rfl⟩ := h
    have r₃ := hi.expr _ _ _ r.ready h₃
    have r₄ := (expect_spans r₃.ready (by simp) h₄).2
    refine hc.link h₁ ((r.trans (r₃.trans r₄)).of_eq rfl ?_ ?_)
    · simp [Expr.slotWeight]
    · simp [Expr.slotWeight]
  · simp only [hk, bind_eq_ok, pure_eq_ok] at h
    obtain ⟨name, s₃, h₃, rfl, rfl⟩ := h
    exact hc.link h₁ (r.trans (identifier_spans r.ready h₃))

theorem postfixed_spans (hi : inner.Reads) :
    Reads (postfixed inner) Expr.pieces Expr.weight := by
  refine chain_spans fun s₀ e s hs hpeak h => ?_
  obtain ⟨first, s₁, h₁, h⟩ := bind_eq_ok.1 h
  exact links_keeps (I := fun e s => Chained s₀ e.pieces e.weight s)
    (fun _ _ _ _ hc hm h => postfixLink_chained hi hc hm h)
    (.of_spans hpeak (primary_spans hi _ _ _ hs h₁)) h

theorem unary_spans (hi : inner.Reads) : Reads (unary inner) Expr.pieces Expr.weight := by
  intro s e s' hs h
  unfold unary at h
  split at h
  · rename_i op hop
    simp only [bind_eq_ok, pure_eq_ok] at h
    obtain ⟨first, s₁, h₁, operand, s₂, h₂, rfl, rfl⟩ := h
    have hk := Kind.operator?_eq_some.1 (Option.filter_eq_some_iff.1 hop).1
    have r₁ := (advance_spans hs hk (by simp) h₁).2
    have r₂ := hi.unary _ _ _ r₁.ready h₂
    refine (r₁.trans r₂).of_eq rfl ?_ ?_
    · simp [Expr.weight, Expr.slotWeight]
    · simp [Expr.weight, Expr.slotWeight]
  · exact postfixed_spans hi _ _ _ hs h

theorem binaryLink_chained {least : Level}
    (hright : ∀ level, least.rank ≤ level.rank →
      Reads (rightOperand inner level) Expr.pieces Expr.weight) {s₀ : State} {e e' : Expr}
    (hc : Chained s₀ e.pieces e.weight s) (hm : (binaryOf? least s.current.kind).isSome = true)
    (h : binaryLink inner least e s = .ok e' s') : Chained s₀ e'.pieces e'.weight s' := by
  obtain ⟨op, level, hk, -, hle, t, s₁, u, s₂, right, h₁, h₂, h₃, rfl⟩ := binaryLink_eq_ok hm h
  have r₁ := (advance_spans hc.ready hk (by simp) h₁).2
  have c := (hc.read r₁).link h₂ (hright level hle _ _ _ (raise_ready r₁.ready h₂).1 h₃)
  rw [List.append_assoc] at c
  exact c

theorem climb_spans (hi : inner.Reads) (least : Level) :
    Reads (climb inner least) Expr.pieces Expr.weight := by
  refine climb_induction (P := fun _ p => Reads p Expr.pieces Expr.weight) (unary_spans hi)
    (fun least hright => ?_) least
  rw [climb]
  refine chain_spans fun s₀ e s hs hpeak h => ?_
  obtain ⟨first, s₁, h₁, h⟩ := bind_eq_ok.1 h
  exact links_keeps (I := fun e s => Chained s₀ e.pieces e.weight s)
    (fun _ _ _ _ hc hm h => binaryLink_chained hright hc hm h)
    (.of_spans hpeak (unary_spans hi _ _ _ hs h₁)) h

theorem rightOperand_spans (hi : inner.Reads) (level : Level) :
    Reads (rightOperand inner level) Expr.pieces Expr.weight :=
  rightOperand_of_climb (P := fun _ p => Reads p Expr.pieces Expr.weight) (unary_spans hi)
    (climb_spans hi) level

theorem assignment_spans (hi : inner.Reads) :
    Reads (assignment inner) Expr.pieces Expr.weight := by
  intro s e s' hs h
  simp only [assignment, bind_eq_ok, current_eq_ok] at h
  obtain ⟨target, s₁, h₁, t, s₂, ⟨rfl, rfl⟩, h⟩ := h
  have r₁ := climb_spans hi _ _ _ _ hs h₁
  split at h
  · rename_i hk
    split at h
    · simp only [bind_eq_ok, pure_eq_ok] at h
      obtain ⟨t, s₃, h₃, value, s₄, h₄, rfl, rfl⟩ := h
      have r₂ := (advance_spans r₁.ready hk (by simp) h₃).2
      have r₃ := hi.expr _ _ _ r₂.ready h₄
      refine (r₁.trans (r₂.trans r₃)).of_eq rfl ?_ ?_
      · simp [Expr.weight, Expr.slotWeight]
      · simp [Expr.weight, Expr.slotWeight]
    · simp [failAt] at h
  · obtain ⟨rfl, rfl⟩ := pure_eq_ok.1 h
    exact r₁

theorem importStmt_spans {x : Stmt} (hs : s.Ready) (hk : s.current.kind = .keyword .importKw)
    (h : importStmt s = .ok x s') : Spans s x.pieces x.weight s' := by
  obtain ⟨word, s₁, h₁, h⟩ := bind_eq_ok.1 h
  obtain ⟨first, s₂, h₂, h⟩ := bind_eq_ok.1 h
  obtain ⟨further, s₃, h₃, h⟩ := bind_eq_ok.1 h
  obtain ⟨rfl, rfl⟩ := pure_eq_ok.1 h
  have r₁ := (advance_spans hs hk (by simp) h₁).2
  have r₂ := identifier_spans r₁.ready h₂
  have r₃ := many_spans listed_path (fun s n s' hs hm h => ?_) r₂.ready h₃
  · exact (r₁.trans (r₂.trans r₃)).of_eq rfl rfl rfl
  · simp only [bind_eq_ok] at h
    obtain ⟨t, s₁, h₁, h₂⟩ := h
    have r₁ := (advance_spans hs (by simpa [State.isAt] using hm) (by simp) h₁).2
    exact r₁.trans (identifier_spans r₁.ready h₂)

theorem otherwise_spans (hi : inner.Reads) {b : Option Block} (hs : s.Ready)
    (h : otherwise inner s = .ok b s') : Spans s (Block.elsePieces b) (Block.slotWeight b) s' := by
  obtain ⟨rfl, r⟩ | ⟨b, rfl, r⟩ := after?_spans (block_spans hi) (by simp) hs h
  · exact r
  · exact r

theorem elseifBranch_spans (hi : inner.Reads) {b : Branch} (hs : s.Ready)
    (hk : s.current.kind = .keyword .elseifKw) (h : elseifBranch inner s = .ok b s') :
    Spans s (.word .elseifKw :: (Expr.slotPieces b.test ++ Block.slotPieces b.body)) b.weight
      s' := by
  simp only [elseifBranch, bind_eq_ok, pure_eq_ok] at h
  obtain ⟨word, s₁, h₁, test, s₂, h₂, body, s₃, h₃, rfl, rfl⟩ := h
  have r₁ := (advance_spans hs hk (by simp) h₁).2
  have r₂ := hi.expr _ _ _ r₁.ready h₂
  have r₃ := block_spans hi _ _ _ r₂.ready h₃
  refine (r₁.trans (r₂.trans r₃)).of_eq rfl ?_ ?_
  · simp [Branch.weight, Expr.slotWeight, Block.slotWeight]
  · simp [Branch.weight, Expr.slotWeight, Block.slotWeight]

theorem condStmt_spans (hi : inner.Reads) {x : Stmt} (hs : s.Ready)
    (hk : s.current.kind = .keyword .ifKw) (h : condStmt inner s = .ok x s') :
    Spans s x.pieces x.weight s' := by
  obtain ⟨word, s₁, h₁, h⟩ := bind_eq_ok.1 h
  obtain ⟨test, s₂, h₂, h⟩ := bind_eq_ok.1 h
  obtain ⟨body, s₃, h₃, h⟩ := bind_eq_ok.1 h
  obtain ⟨elseifs, s₄, h₄, h⟩ := bind_eq_ok.1 h
  simp only [bind_eq_ok, pure_eq_ok] at h
  obtain ⟨otherwise, s₅, h₅, t, s₆, h₆, rfl, rfl⟩ := h
  have r₁ := (advance_spans hs hk (by simp) h₁).2
  have r₂ := hi.expr _ _ _ r₁.ready h₂
  have r₃ := block_spans hi _ _ _ r₂.ready h₃
  have r₄ := many_spans listed_elseifs
    (fun s b s' hs hm h => elseifBranch_spans hi hs (by simpa [State.isAt] using hm) h) r₃.ready h₄
  have r₅ := otherwise_spans hi r₄.ready h₅
  have r₆ := (expect_spans r₅.ready (by simp) h₆).2
  refine (r₁.trans (r₂.trans (r₃.trans (r₄.trans (r₅.trans r₆))))).of_eq rfl ?_ ?_
  · simp [Stmt.weight, Expr.slotWeight, Block.slotWeight]
  · simp [Stmt.weight, Expr.slotWeight, Block.slotWeight]

theorem whenClause_spans (hi : inner.Reads) : Reads (whenClause inner)
    (fun b => .word .whenKw :: (Expr.slotPieces b.test ++
      .word .thenKw :: Block.slotPieces b.body)) Branch.weight := by
  intro s b s' hs h
  simp only [whenClause, bind_eq_ok, pure_eq_ok] at h
  obtain ⟨word, s₁, h₁, test, s₂, h₂, t, s₃, h₃, body, s₄, h₄, rfl, rfl⟩ := h
  have r₁ := (expect_spans hs (by simp) h₁).2
  have r₂ := hi.expr _ _ _ r₁.ready h₂
  have r₃ := (expect_spans r₂.ready (by simp) h₃).2
  have r₄ := block_spans hi _ _ _ r₃.ready h₄
  refine (r₁.trans (r₂.trans (r₃.trans r₄))).of_eq rfl ?_ ?_
  · simp [Branch.weight, Expr.slotWeight, Block.slotWeight]
  · simp [Branch.weight, Expr.slotWeight, Block.slotWeight]

theorem caseStmt_spans (hi : inner.Reads) {x : Stmt} (hs : s.Ready)
    (hk : s.current.kind = .keyword .caseKw) (h : caseStmt inner s = .ok x s') :
    Spans s x.pieces x.weight s' := by
  obtain ⟨word, s₁, h₁, h⟩ := bind_eq_ok.1 h
  obtain ⟨subject, s₂, h₂, h⟩ := bind_eq_ok.1 h
  obtain ⟨first, s₃, h₃, h⟩ := bind_eq_ok.1 h
  obtain ⟨further, s₄, h₄, h⟩ := bind_eq_ok.1 h
  simp only [bind_eq_ok, pure_eq_ok] at h
  obtain ⟨otherwise, s₅, h₅, t, s₆, h₆, rfl, rfl⟩ := h
  have r₁ := (advance_spans hs hk (by simp) h₁).2
  have r₂ := hi.expr _ _ _ r₁.ready h₂
  have r₃ := whenClause_spans hi _ _ _ r₂.ready h₃
  have r₄ := many_spans listed_whens (fun _ _ _ hs _ h => whenClause_spans hi _ _ _ hs h)
    r₃.ready h₄
  have r₅ := otherwise_spans hi r₄.ready h₅
  have r₆ := (expect_spans r₅.ready (by simp) h₆).2
  refine (r₁.trans (r₂.trans ((r₃.trans r₄).trans (r₅.trans r₆)))).of_eq ?_ ?_ ?_
  · obtain ⟨_, _, _⟩ := first
    simp [Stmt.pieces, Expr.slotPieces, Branch.whenPieces]
  · simp [Stmt.weight, Expr.slotWeight, Branch.listWeight]
  · simp [Stmt.weight, Expr.slotWeight, Branch.listWeight]

theorem loopBody_spans (hi : inner.Reads) : Reads (loopBody inner)
    (fun b => .word .doKw :: (b.pieces ++ [.word .endKw])) Block.weight := by
  intro s b s' hs h
  simp only [loopBody, bind_eq_ok] at h
  obtain ⟨t, s₁, h₁, h₂⟩ := h
  have r₁ := (expect_spans hs (by simp) h₁).2
  have r₂ := blockToEnd_spans hi _ _ _ r₁.ready h₂
  exact (r₁.trans r₂).of_eq rfl (by simp) (by simp)

theorem whileStmt_spans (hi : inner.Reads) {x : Stmt} (hs : s.Ready)
    (hk : s.current.kind = .keyword .whileKw) (h : whileStmt inner s = .ok x s') :
    Spans s x.pieces x.weight s' := by
  simp only [whileStmt, bind_eq_ok, pure_eq_ok] at h
  obtain ⟨word, s₁, h₁, test, s₂, h₂, body, s₃, h₃, rfl, rfl⟩ := h
  have r₁ := (advance_spans hs hk (by simp) h₁).2
  have r₂ := hi.expr _ _ _ r₁.ready h₂
  have r₃ := loopBody_spans hi _ _ _ r₂.ready h₃
  refine (r₁.trans (r₂.trans r₃)).of_eq rfl ?_ ?_
  · simp [Stmt.weight, Expr.slotWeight, Block.slotWeight]
  · simp [Stmt.weight, Expr.slotWeight, Block.slotWeight]

theorem forStmt_spans (hi : inner.Reads) {x : Stmt} (hs : s.Ready)
    (hk : s.current.kind = .keyword .forKw) (h : forStmt inner s = .ok x s') :
    Spans s x.pieces x.weight s' := by
  simp only [forStmt, bind_eq_ok, pure_eq_ok] at h
  obtain ⟨word, s₁, h₁, init, s₂, h₂, t, s₃, h₃, test, s₄, h₄, t', s₅, h₅, step, s₆, h₆,
    body, s₇, h₇, rfl, rfl⟩ := h
  have r₁ := (advance_spans hs hk (by simp) h₁).2
  have r₂ := hi.expr _ _ _ r₁.ready h₂
  have r₃ := (expect_spans r₂.ready (by simp) h₃).2
  have r₄ := hi.expr _ _ _ r₃.ready h₄
  have r₅ := (expect_spans r₄.ready (by simp) h₅).2
  have r₆ := hi.expr _ _ _ r₅.ready h₆
  have r₇ := loopBody_spans hi _ _ _ r₆.ready h₇
  refine (r₁.trans (r₂.trans (r₃.trans (r₄.trans (r₅.trans (r₆.trans r₇)))))).of_eq rfl ?_ ?_
  · simp [Stmt.weight, Expr.slotWeight, Block.slotWeight]
  · simp [Stmt.weight, Expr.slotWeight, Block.slotWeight]

theorem foreachStmt_spans (hi : inner.Reads) {x : Stmt} (hs : s.Ready)
    (hk : s.current.kind = .keyword .foreachKw) (h : foreachStmt inner s = .ok x s') :
    Spans s x.pieces x.weight s' := by
  simp only [foreachStmt, bind_eq_ok, pure_eq_ok] at h
  obtain ⟨word, s₁, h₁, item, s₂, h₂, t, s₃, h₃, collection, s₄, h₄, body, s₅, h₅, rfl, rfl⟩ := h
  have r₁ := (advance_spans hs hk (by simp) h₁).2
  have r₂ := identifier_spans r₁.ready h₂
  have r₃ := (expect_spans r₂.ready (by simp) h₃).2
  have r₄ := hi.expr _ _ _ r₃.ready h₄
  have r₅ := loopBody_spans hi _ _ _ r₄.ready h₅
  refine (r₁.trans (r₂.trans (r₃.trans (r₄.trans r₅)))).of_eq rfl ?_ ?_
  · simp [Stmt.weight, Expr.slotWeight, Block.slotWeight]
  · simp [Stmt.weight, Expr.slotWeight, Block.slotWeight]

theorem returnStmt_spans (hi : inner.Reads) {x : Stmt} (hs : s.Ready)
    (hk : s.current.kind = .keyword .returnKw) (h : returnStmt inner s = .ok x s') :
    Spans s x.pieces x.weight s' := by
  simp only [returnStmt, bind_eq_ok, current_eq_ok] at h
  obtain ⟨word, s₁, h₁, t, s₂, ⟨rfl, rfl⟩, h⟩ := h
  have r₁ := (advance_spans hs hk (by simp) h₁).2
  split at h
  · simp only [bind_eq_ok, pure_eq_ok] at h
    obtain ⟨value, s₃, h₃, rfl, rfl⟩ := h
    refine (r₁.trans (hi.expr _ _ _ r₁.ready h₃)).of_eq ?_ ?_ ?_
    · simp [Stmt.pieces]
    · simp [Stmt.weight]
    · simp [Stmt.weight]
  · obtain ⟨rfl, rfl⟩ := pure_eq_ok.1 h
    exact r₁

theorem wordStmt_spans {build : Location → Stmt} {kw : Keyword} {x : Stmt} (hs : s.Ready)
    (hk : s.current.kind = .keyword kw) (hp : ∀ loc, (build loc).pieces = [.word kw])
    (hw : ∀ loc, (build loc).weight = .zero) (h : wordStmt build s = .ok x s') :
    Spans s x.pieces x.weight s' := by
  simp only [wordStmt, bind_eq_ok, pure_eq_ok] at h
  obtain ⟨word, s₁, h, rfl, rfl⟩ := h
  rw [hp, hw]
  exact (advance_spans hs hk (by simp) h).2

theorem exprStmt_spans (hi : inner.Reads) : Reads (exprStmt inner) Stmt.pieces Stmt.weight := by
  intro s x s' hs h
  simp only [exprStmt, bind_eq_ok, pure_eq_ok, current_eq_ok] at h
  obtain ⟨t, s₁, ⟨rfl, rfl⟩, e, s₂, h, rfl, rfl⟩ := h
  exact hi.expr _ _ _ hs h

theorem stmt_spans (hi : inner.Reads) : Reads (stmt inner) Stmt.pieces Stmt.weight := by
  intro s x s' hs h
  unfold stmt at h
  split at h
  · exact importStmt_spans hs ‹_› h
  · exact condStmt_spans hi hs ‹_› h
  · exact caseStmt_spans hi hs ‹_› h
  · exact whileStmt_spans hi hs ‹_› h
  · exact forStmt_spans hi hs ‹_› h
  · exact foreachStmt_spans hi hs ‹_› h
  · exact wordStmt_spans hs ‹_› (fun _ => rfl) (fun _ => rfl) h
  · exact wordStmt_spans hs ‹_› (fun _ => rfl) (fun _ => rfl) h
  · exact returnStmt_spans hi hs ‹_› h
  · exact exprStmt_spans hi _ _ _ hs h

end Parser

/-- By induction on the levels: the productions of a level nest those of the one below. -/
theorem Nested.reads_ofLevels (levels : Nat) : (Nested.ofLevels levels).Reads := by
  induction levels with
  | zero =>
    constructor <;> exact fun _ _ _ _ h => absurd h fail_ne_ok
  | succ levels ih =>
    rw [Nested.ofLevels]
    constructor <;> dsimp only
    · exact nested_spans (stmt_spans ih)
    · exact nested_spans (assignment_spans ih)
    · exact nested_spans (unary_spans ih)

end LarkCheck
