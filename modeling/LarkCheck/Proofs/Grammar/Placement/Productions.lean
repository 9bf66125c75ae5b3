import LarkCheck.Proofs.Grammar.Placement.Basic

/-!
# Every node stands at its first token

A production takes the place of its node from the token at which it begins, or from the
node that it was given to build on, which began there. Its first part is at that token
too, and each further part is past the pieces that were read before it. A production
takes this of the nesting productions for granted; `Nested.ofLevels` then has it level
by level.
-/

namespace LarkCheck

open Token Piece LarkCheck.Parser

/-- The nesting productions place what they give. -/
structure Nested.Places (inner : Nested) : Prop where
  stmt : Parser.Places inner.stmt Stmt.Placed
  expr : Parser.Places inner.expr Expr.Placed
  unary : Parser.Places inner.unary Expr.Placed

namespace Parser

variable {s s' s₀ : State}

variable {inner : Nested} (hi : inner.Reads) (hp : inner.Places)
include hi hp

theorem block_places : Places (block inner) Block.Placed := by
  intro s b s' hs h
  have r := block_spans hi _ _ _ hs h
  obtain ⟨t, s₁, h₁, h⟩ := bind_eq_ok.1 h
  obtain ⟨stmts, s₂, h₂, h⟩ := bind_eq_ok.1 h
  obtain ⟨rfl, rfl⟩ := pure_eq_ok.1 h
  obtain ⟨rfl, rfl⟩ := current_eq_ok.1 h₁
  exact ⟨r.stands, many_places placesEach_stmts
    (fun _ _ _ hs _ h => ⟨⟨_, hi.stmt _ _ _ hs h⟩, hp.stmt _ _ _ hs h⟩) _ _ _ hs h₂⟩

theorem blockToEnd_places : Places (blockToEnd inner) Block.Placed := by
  intro s b s' hs h
  simp only [blockToEnd, bind_eq_ok, pure_eq_ok] at h
  obtain ⟨body, s₁, h₁, t, s₂, h₂, rfl, rfl⟩ := h
  exact block_places hi hp _ _ _ hs h₁

theorem param_places : Places (param inner) Param.Placed := by
  intro s p s' hs h
  have r := param_spans hi _ _ _ hs h
  simp only [param, bind_eq_ok, current_eq_ok] at h
  obtain ⟨t, s₁, ⟨rfl, rfl⟩, h⟩ := h
  split at h
  · simp only [outputParam, bind_eq_ok, current_eq_ok] at h
    obtain ⟨t, s₂, h₂, name, s₃, h₃, next, s₄, ⟨rfl, rfl⟩, h⟩ := h
    split at h
    · simp [failAt] at h
    · obtain ⟨rfl, rfl⟩ := pure_eq_ok.1 h
      exact r.stands
  · simp only [valueParam, bind_eq_ok, pure_eq_ok] at h
    obtain ⟨name, s₂, h₂, default, s₃, h₃, rfl, rfl⟩ := h
    have r₂ := identifier_spans hs h₂
    refine ⟨r.stands, ?_⟩
    obtain rfl | ⟨e, rfl, he⟩ := after?_places (by simp) hp.expr r₂.ready h₃
    · trivial
    · rwa [r₂.past_eq, ← past_append] at he

theorem params_places :
    Places (params inner) fun ps ts => Param.PlacedList ps (past [mark .lparen] ts) := by
  intro s ps s' hs h
  simp only [params, bind_eq_ok, pure_eq_ok] at h
  obtain ⟨t, s₁, h₁, ps, s₂, h₂, t', s₃, h₃, rfl, rfl⟩ := h
  have r₁ := (expect_spans hs (by simp) h₁).2
  have hps := separatedUntil_places placesEach_params (param_spans hi) (param_places hi hp)
    _ _ _ _ r₁.ready h₂
  rwa [r₁.past_eq] at hps

theorem exprsTo_places (close : Punctuation) (code : Diagnostic.Code) :
    Places (exprsTo inner close code) Expr.PlacedList := by
  intro s es s' hs h
  simp only [exprsTo, bind_eq_ok, pure_eq_ok] at h
  obtain ⟨es, s₁, h₁, t, s₂, h₂, rfl, rfl⟩ := h
  exact separatedUntil_places placesEach_exprs hi.expr hp.expr _ _ _ _ hs h₁

theorem routine_places {e : Expr} (hs : s.Ready) (hk : s.current.kind = .keyword .routineKw)
    (h : routine inner s = .ok e s') : e.Placed s.tokens := by
  have r := routine_spans hi hs hk h
  simp only [routine, bind_eq_ok, pure_eq_ok] at h
  obtain ⟨first, s₁, h₁, ps, s₂, h₂, body, s₃, h₃, rfl, rfl⟩ := h
  obtain ⟨rfl, r₁⟩ := advance_spans hs hk (by simp) h₁
  have r₂ := params_spans hi _ _ _ r₁.ready h₂
  have hparams := params_places hi hp _ _ _ r₁.ready h₂
  have hbody := blockToEnd_places hi hp _ _ _ r₂.ready h₃
  rw [r₁.past_eq, ← past_append] at hparams
  rw [(r₁.trans r₂).past_eq] at hbody
  exact ⟨r.stands, hparams, hbody⟩

theorem base_places : Places (base inner) fun b ts =>
    Stands b.name.loc [name b.name.text] ts ∧
      Expr.PlacedList b.args (past [name b.name.text, mark .lparen] ts) := by
  intro s b s' hs h
  simp only [base, bind_eq_ok, pure_eq_ok] at h
  obtain ⟨name, s₁, h₁, t, s₂, h₂, args, s₃, h₃, rfl, rfl⟩ := h
  have r₁ := identifier_spans hs h₁
  have r₂ := (expect_spans r₁.ready (by simp) h₂).2
  have hargs := exprsTo_places hi hp _ _ _ _ _ r₂.ready h₃
  rw [(r₁.trans r₂).past_eq] at hargs
  exact ⟨identifier_stands hs h₁, hargs⟩

theorem baseOption_places {b : Option Base} (hs : s.Ready)
    (h : after? (.punctuation .colon) (base inner) s = .ok b s') :
    Base.PlacedOption b s.tokens := by
  obtain rfl | ⟨⟨name, args⟩, rfl, hname, hargs⟩ := after?_places (by simp) (base_places hi hp) hs h
  · trivial
  · rw [← past_append] at hargs
    exact ⟨hname, hargs⟩

omit hi hp in
theorem includes_places {names : Option (List Name)} (hs : s.Ready)
    (h : after? (.keyword .includeKw) (separated identifier) s = .ok names s') :
    Name.PlacedList (names.getD []) (past [word .includeKw] s.tokens) := by
  have hname : Places identifier fun n ts => Stands n.loc [name n.text] ts :=
    fun _ _ _ hs h => identifier_stands hs h
  have hnames := separated_places placesEach_names (fun _ _ _ hs h => identifier_spans hs h) hname
  obtain rfl | ⟨names, rfl, hplaced⟩ := after?_places (by simp) hnames hs h
  · trivial
  · exact hplaced

theorem sectionBody_places (access : Access) :
    Places (sectionBody inner access) Section.Placed := by
  intro s x s' hs h
  have r := (sectionBody_spans hi hs h).2
  simp only [sectionBody, bind_eq_ok, pure_eq_ok, current_eq_ok] at h
  obtain ⟨t, s₁, ⟨rfl, rfl⟩, body, s₂, h, rfl, rfl⟩ := h
  exact ⟨r.stands, block_places hi hp _ _ _ hs h⟩

theorem sections_places : Places (sections inner) Section.PlacedList := by
  intro s xs s' hs h
  obtain ⟨first, s₁, h₁, h⟩ := bind_eq_ok.1 h
  obtain ⟨further, s₂, h₂, h⟩ := bind_eq_ok.1 h
  obtain ⟨rfl, rfl⟩ := pure_eq_ok.1 h
  have r₁ := (sectionBody_spans hi hs h₁).2
  have hfurther := many_places placesEach_sections (fun s x s' hs hm h => ?_) _ _ _ r₁.ready h₂
  · rw [r₁.past_eq] at hfurther
    exact ⟨sectionBody_places hi hp _ _ _ _ hs h₁, hfurther⟩
  · have r := furtherSection_spans hi hs hm h
    refine ⟨⟨_, r⟩, ?_⟩
    simp only [furtherSection, bind_eq_ok] at h
    obtain ⟨word, s₁, h₁, h₂⟩ := h
    obtain ⟨access, haccess⟩ := Option.isSome_iff_exists.1 hm
    obtain ⟨rfl, r₁⟩ := advance_spans hs (accessOf?_eq_some haccess) (by simp) h₁
    have hplaced := sectionBody_places hi hp _ _ _ _ r₁.ready h₂
    rwa [r₁.past_eq] at hplaced

theorem classDef_places {e : Expr} (hs : s.Ready) (hk : s.current.kind = .keyword .classKw)
    (h : classDef inner s = .ok e s') : e.Placed s.tokens := by
  have r := classDef_spans hi hs hk h
  simp only [classDef, bind_eq_ok, pure_eq_ok] at h
  obtain ⟨first, s₁, h₁, name, s₂, h₂, ps, s₃, h₃, b, s₄, h₄, names, s₅, h₅, xs, s₆, h₆,
    t, s₇, h₇, rfl, rfl⟩ := h
  obtain ⟨rfl, r₁⟩ := advance_spans hs hk (by simp) h₁
  have r₂ := r₁.trans (identifier_spans r₁.ready h₂)
  have r₃ := r₂.trans (params_spans hi _ _ _ r₂.ready h₃)
  have r₄ := r₃.trans (baseOption_spans hi r₃.ready h₄)
  have r₅ := r₄.trans (includes_spans r₄.ready h₅)
  have hparams := params_places hi hp _ _ _ r₂.ready h₃
  have hbase := baseOption_places hi hp r₃.ready h₄
  have hincludes := includes_places r₄.ready h₅
  have hsections := sections_places hi hp _ _ _ r₅.ready h₆
  rw [r₂.past_eq, ← past_append] at hparams
  rw [r₃.past_eq] at hbase
  rw [r₄.past_eq, ← past_append] at hincludes
  rw [r₅.past_eq] at hsections
  simp only [List.append_assoc, List.cons_append] at hincludes hsections
  exact ⟨r.stands, hparams, hbase, hincludes, hsections⟩

theorem package_places {e : Expr} (hs : s.Ready) (hk : s.current.kind = .keyword .packageKw)
    (h : package inner s = .ok e s') : e.Placed s.tokens := by
  have r := package_spans hi hs hk h
  simp only [package, bind_eq_ok, pure_eq_ok] at h
  obtain ⟨first, s₁, h₁, name, s₂, h₂, body, s₃, h₃, rfl, rfl⟩ := h
  obtain ⟨rfl, r₁⟩ := advance_spans hs hk (by simp) h₁
  have r₂ := r₁.trans (identifier_spans r₁.ready h₂)
  have hbody := blockToEnd_places hi hp _ _ _ r₂.ready h₃
  rw [r₂.past_eq] at hbody
  exact ⟨r.stands, hbody⟩

theorem array_places {e : Expr} (hs : s.Ready) (hk : s.current.kind = .punctuation .lbracket)
    (h : array inner s = .ok e s') : e.Placed s.tokens := by
  have r := array_spans hi hs hk h
  simp only [array, bind_eq_ok, pure_eq_ok] at h
  obtain ⟨first, s₁, h₁, items, s₂, h₂, rfl, rfl⟩ := h
  obtain ⟨rfl, r₁⟩ := advance_spans hs hk (by simp) h₁
  have hitems := exprsTo_places hi hp _ _ _ _ _ r₁.ready h₂
  rw [r₁.past_eq] at hitems
  exact ⟨r.stands, hitems⟩

theorem pair_places : Places (pair inner) Pair.Placed := by
  intro s p s' hs h
  have r := pair_spans hi _ _ _ hs h
  simp only [pair, bind_eq_ok, pure_eq_ok] at h
  obtain ⟨key, s₁, h₁, t, s₂, h₂, value, s₃, h₃, rfl, rfl⟩ := h
  have r₁ := hi.expr _ _ _ hs h₁
  have r₂ := r₁.trans (expect_spans r₁.ready (by simp) h₂).2
  have hkey := hp.expr _ _ _ hs h₁
  have hvalue := hp.expr _ _ _ r₂.ready h₃
  rw [r₂.past_eq] at hvalue
  exact ⟨⟨hkey.stands.loc_eq, r.stands.isYield⟩, hkey, hvalue⟩

theorem hash_places {e : Expr} (hs : s.Ready) (hk : s.current.kind = .punctuation .lbrace)
    (h : hash inner s = .ok e s') : e.Placed s.tokens := by
  have r := hash_spans hi hs hk h
  simp only [hash, bind_eq_ok, pure_eq_ok] at h
  obtain ⟨first, s₁, h₁, pairs, s₂, h₂, t, s₃, h₃, rfl, rfl⟩ := h
  obtain ⟨rfl, r₁⟩ := advance_spans hs hk (by simp) h₁
  have hpairs := separatedUntil_places placesEach_pairs (pair_spans hi) (pair_places hi hp)
    _ _ _ _ r₁.ready h₂
  rw [r₁.past_eq] at hpairs
  exact ⟨r.stands, hpairs⟩

theorem paren_places {e : Expr} (hs : s.Ready) (hk : s.current.kind = .punctuation .lparen)
    (h : paren inner s = .ok e s') : e.Placed s.tokens := by
  have r := paren_spans hi hs hk h
  simp only [paren, bind_eq_ok, pure_eq_ok] at h
  obtain ⟨first, s₁, h₁, e, s₂, h₂, t, s₃, h₃, rfl, rfl⟩ := h
  obtain ⟨rfl, r₁⟩ := advance_spans hs hk (by simp) h₁
  have hinner := hp.expr _ _ _ r₁.ready h₂
  rw [r₁.past_eq] at hinner
  exact ⟨r.stands, hinner⟩

omit hi hp in
theorem atom_places : Places atom Expr.Placed := by
  intro s e s' hs h
  have r := atom_spans _ _ _ hs h
  unfold atom at h
  split at h
  · rename_i e₁ he
    simp only [bind_eq_ok, pure_eq_ok] at h
    obtain ⟨t, s₁, h, rfl, rfl⟩ := h
    unfold atom? at he
    split at he <;> cases he <;> exact r.stands
  · exact absurd h fail_ne_ok

theorem primary_places : Places (primary inner) Expr.Placed := by
  intro s e s' hs h
  unfold primary at h
  split at h
  · exact routine_places hi hp hs ‹_› h
  · exact classDef_places hi hp hs ‹_› h
  · exact package_places hi hp hs ‹_› h
  · exact array_places hi hp hs ‹_› h
  · exact hash_places hi hp hs ‹_› h
  · exact paren_places hi hp hs ‹_› h
  · exact atom_places _ _ _ hs h

/-- A link keeps what the chain holds at the token where the chain began, and reads its own part
past that. -/
theorem postfixLink_places {e e' : Expr} (hc : Chained s₀ e.pieces e.weight s)
    (he : e.Placed s₀.tokens) (hk : opensPostfix s.current.kind = true)
    (h : postfixLink inner e s = .ok e' s') : e'.Placed s₀.tokens := by
  have hc' := postfixLink_chained hi hc hk h
  have stands : Stands e.loc e'.pieces s₀.tokens :=
    ⟨he.stands.loc_eq, s'.kinds, hc'.kinds_eq.symm⟩
  simp only [postfixLink, bind_eq_ok] at h
  obtain ⟨u, s₁, h₁, mark, s₂, h₂, h⟩ := h
  obtain ⟨hs₁, kept⟩ := raise_ready hc.ready h₁
  obtain ⟨p, hk, hp'⟩ := opensPostfix_eq_true hk
  rw [← kept] at hk
  obtain ⟨rfl, r⟩ := advance_spans hs₁ hk (by simp) h₂
  have hpast : s₂.tokens = past (e.pieces ++ [.mark p]) s₀.tokens := by
    obtain ⟨-, rfl⟩ := raise_eq_ok h₁
    rw [past_append, ← hc.past_eq]
    exact r.past_eq
  obtain rfl | rfl | rfl := hp'
  · simp only [hk, bind_eq_ok, pure_eq_ok] at h
    obtain ⟨args, s₃, h₃, rfl, rfl⟩ := h
    exact ⟨stands, he, hpast ▸ exprsTo_places hi hp _ _ _ _ _ r.ready h₃⟩
  · simp only [hk, bind_eq_ok, pure_eq_ok] at h
    obtain ⟨index, s₃, h₃, t, s₄, h₄, rfl, rfl⟩ := h
    exact ⟨stands, he, hpast ▸ hp.expr _ _ _ r.ready h₃⟩
  · simp only [hk, bind_eq_ok, pure_eq_ok] at h
    obtain ⟨name, s₃, h₃, rfl, rfl⟩ := h
    exact ⟨stands, he⟩

omit hi hp in
theorem chain_places {p : Parser α} {placed : α → List Token → Prop}
    (hp : ∀ s₀ a s, s₀.Ready → s₀.peak = s₀.level → p s₀ = .ok a s → placed a s₀.tokens) :
    Places (chain p) placed := by
  intro s a s' hs h
  obtain ⟨s₁, hrun, -⟩ := chain_eq_ok h
  exact hp { s with peak := s.level } _ _ ⟨hs.toBounded.opened, hs.synced⟩ rfl hrun

theorem postfixed_places : Places (postfixed inner) Expr.Placed := by
  refine chain_places fun s₀ e s hs hpeak h => ?_
  obtain ⟨first, s₁, h₁, h⟩ := bind_eq_ok.1 h
  have hfirst : Chained s₀ first.pieces first.weight s₁ ∧ first.Placed s₀.tokens :=
    ⟨.of_spans hpeak (primary_spans hi _ _ _ hs h₁), primary_places hi hp _ _ _ hs h₁⟩
  exact (links_keeps (I := fun e s => Chained s₀ e.pieces e.weight s ∧ e.Placed s₀.tokens)
    (fun _ _ _ _ hc hm h => ⟨postfixLink_chained hi hc.1 hm h,
      postfixLink_places hi hp hc.1 hc.2 hm h⟩) hfirst h).2

theorem unary_places : Places (unary inner) Expr.Placed := by
  intro s e s' hs h
  have r := unary_spans hi _ _ _ hs h
  unfold unary at h
  split at h
  · rename_i op hop
    simp only [bind_eq_ok, pure_eq_ok] at h
    obtain ⟨first, s₁, h₁, operand, s₂, h₂, rfl, rfl⟩ := h
    have hk := Kind.operator?_eq_some.1 (Option.filter_eq_some_iff.1 hop).1
    obtain ⟨rfl, r₁⟩ := advance_spans hs hk (by simp) h₁
    have hoperand := hp.unary _ _ _ r₁.ready h₂
    rw [r₁.past_eq] at hoperand
    exact ⟨r.stands, hoperand⟩
  · exact postfixed_places hi hp _ _ _ hs h

omit hp in
theorem binaryLink_places {least : Level}
    (hright : ∀ level, least.rank ≤ level.rank → Places (rightOperand inner level) Expr.Placed)
    {e e' : Expr} (hc : Chained s₀ e.pieces e.weight s) (he : e.Placed s₀.tokens)
    (hm : (binaryOf? least s.current.kind).isSome = true)
    (h : binaryLink inner least e s = .ok e' s') : e'.Placed s₀.tokens := by
  have hc' := binaryLink_chained (fun level _ => rightOperand_spans hi level) hc hm h
  have stands : Stands e.loc e'.pieces s₀.tokens :=
    ⟨he.stands.loc_eq, s'.kinds, hc'.kinds_eq.symm⟩
  obtain ⟨op, level, hk, -, hle, t, s₁, u, s₂, right, h₁, h₂, h₃, rfl⟩ := binaryLink_eq_ok hm h
  have r₁ := (advance_spans hc.ready hk (by simp) h₁).2
  have hoperand := hright level hle _ _ _ (raise_ready r₁.ready h₂).1 h₃
  obtain ⟨-, rfl⟩ := raise_eq_ok h₂
  have hpast := (hc.read r₁).past_eq
  exact ⟨stands, he, hpast ▸ hoperand⟩

theorem climb_places (least : Level) : Places (climb inner least) Expr.Placed := by
  refine climb_induction (P := fun _ p => Places p Expr.Placed) (unary_places hi hp)
    (fun least hright => ?_) least
  rw [climb]
  refine chain_places fun s₀ e s hs hpeak h => ?_
  obtain ⟨first, s₁, h₁, h⟩ := bind_eq_ok.1 h
  have hfirst : Chained s₀ first.pieces first.weight s₁ ∧ first.Placed s₀.tokens :=
    ⟨.of_spans hpeak (unary_spans hi _ _ _ hs h₁), unary_places hi hp _ _ _ hs h₁⟩
  exact (links_keeps (I := fun e s => Chained s₀ e.pieces e.weight s ∧ e.Placed s₀.tokens)
    (fun _ _ _ _ hc hm h =>
      ⟨binaryLink_chained (fun level _ => rightOperand_spans hi level) hc.1 hm h,
        binaryLink_places hi hright hc.1 hc.2 hm h⟩) hfirst h).2

theorem assignment_places : Places (assignment inner) Expr.Placed := by
  intro s e s' hs h
  have r := assignment_spans hi _ _ _ hs h
  simp only [assignment, bind_eq_ok, current_eq_ok] at h
  obtain ⟨target, s₁, h₁, t, s₂, ⟨rfl, rfl⟩, h⟩ := h
  have r₁ := climb_spans hi _ _ _ _ hs h₁
  have htarget := climb_places hi hp _ _ _ _ hs h₁
  split at h
  · rename_i hk
    split at h
    · simp only [bind_eq_ok, pure_eq_ok] at h
      obtain ⟨t, s₃, h₃, value, s₄, h₄, rfl, rfl⟩ := h
      have r₂ := r₁.trans (advance_spans r₁.ready hk (by simp) h₃).2
      have hvalue := hp.expr _ _ _ r₂.ready h₄
      rw [r₂.past_eq] at hvalue
      exact ⟨⟨htarget.stands.loc_eq, r.stands.isYield⟩, htarget, hvalue⟩
    · simp [failAt] at h
  · obtain ⟨rfl, rfl⟩ := pure_eq_ok.1 h
    exact htarget

theorem otherwise_places {b : Option Block} (hs : s.Ready) (h : otherwise inner s = .ok b s') :
    Block.PlacedElse b s.tokens := by
  obtain rfl | ⟨b, rfl, hb⟩ := after?_places (by simp) (block_places hi hp) hs h
  · trivial
  · exact hb

theorem elseifBranch_places {b : Branch} (hs : s.Ready)
    (hk : s.current.kind = .keyword .elseifKw) (h : elseifBranch inner s = .ok b s') :
    b.PlacedElseif s.tokens := by
  have r := elseifBranch_spans hi hs hk h
  simp only [elseifBranch, bind_eq_ok, pure_eq_ok] at h
  obtain ⟨word, s₁, h₁, test, s₂, h₂, body, s₃, h₃, rfl, rfl⟩ := h
  obtain ⟨rfl, r₁⟩ := advance_spans hs hk (by simp) h₁
  have r₂ := r₁.trans (hi.expr _ _ _ r₁.ready h₂)
  have htest := hp.expr _ _ _ r₁.ready h₂
  have hbody := block_places hi hp _ _ _ r₂.ready h₃
  rw [r₁.past_eq] at htest
  rw [r₂.past_eq] at hbody
  exact ⟨r.stands, htest, hbody⟩

theorem whenClause_places : Places (whenClause inner) Branch.PlacedWhen := by
  intro s b s' hs h
  have r := whenClause_spans hi _ _ _ hs h
  simp only [whenClause, bind_eq_ok, pure_eq_ok] at h
  obtain ⟨word, s₁, h₁, test, s₂, h₂, t, s₃, h₃, body, s₄, h₄, rfl, rfl⟩ := h
  obtain ⟨rfl, r₁⟩ := expect_spans hs (by simp) h₁
  have r₂ := r₁.trans (hi.expr _ _ _ r₁.ready h₂)
  have r₃ := r₂.trans (expect_spans r₂.ready (by simp) h₃).2
  have htest := hp.expr _ _ _ r₁.ready h₂
  have hbody := block_places hi hp _ _ _ r₃.ready h₄
  rw [r₁.past_eq] at htest
  rw [r₃.past_eq] at hbody
  exact ⟨r.stands, htest, hbody⟩

theorem loopBody_places :
    Places (loopBody inner) fun b ts => b.Placed (past [word .doKw] ts) := by
  intro s b s' hs h
  simp only [loopBody, bind_eq_ok] at h
  obtain ⟨t, s₁, h₁, h₂⟩ := h
  have r₁ := (expect_spans hs (by simp) h₁).2
  exact r₁.past_eq ▸ blockToEnd_places hi hp _ _ _ r₁.ready h₂

theorem condStmt_places {x : Stmt} (hs : s.Ready) (hk : s.current.kind = .keyword .ifKw)
    (h : condStmt inner s = .ok x s') : x.Placed s.tokens := by
  have r := condStmt_spans hi hs hk h
  obtain ⟨word, s₁, h₁, h⟩ := bind_eq_ok.1 h
  obtain ⟨test, s₂, h₂, h⟩ := bind_eq_ok.1 h
  obtain ⟨body, s₃, h₃, h⟩ := bind_eq_ok.1 h
  obtain ⟨elseifs, s₄, h₄, h⟩ := bind_eq_ok.1 h
  simp only [bind_eq_ok, pure_eq_ok] at h
  obtain ⟨otherwise, s₅, h₅, t, s₆, h₆, rfl, rfl⟩ := h
  obtain ⟨rfl, r₁⟩ := advance_spans hs hk (by simp) h₁
  have elseif : ∀ s b s', s.Ready → s.isAt (.keyword .elseifKw) = true →
      elseifBranch inner s = .ok b s' →
      Spans s (.word .elseifKw :: (Expr.slotPieces b.test ++ Block.slotPieces b.body)) b.weight
        s' :=
    fun s b s' hs hm h => elseifBranch_spans hi hs (by simpa [State.isAt] using hm) h
  have r₂ := r₁.trans (hi.expr _ _ _ r₁.ready h₂)
  have r₃ := r₂.trans (block_spans hi _ _ _ r₂.ready h₃)
  have r₄ := r₃.trans (many_spans listed_elseifs elseif r₃.ready h₄)
  have htest := hp.expr _ _ _ r₁.ready h₂
  have hbody := block_places hi hp _ _ _ r₂.ready h₃
  have helseifs := many_places placesEach_elseifs (fun s b s' hs hm h =>
    ⟨⟨_, elseif s b s' hs hm h⟩,
      elseifBranch_places hi hp hs (by simpa [State.isAt] using hm) h⟩) _ _ _ r₃.ready h₄
  have hotherwise := otherwise_places hi hp r₄.ready h₅
  rw [r₁.past_eq] at htest
  rw [r₂.past_eq] at hbody
  rw [r₃.past_eq] at helseifs
  rw [r₄.past_eq] at hotherwise
  simp only [List.append_assoc] at helseifs hotherwise
  exact ⟨r.stands, htest, hbody, helseifs, hotherwise⟩

theorem caseStmt_places {x : Stmt} (hs : s.Ready) (hk : s.current.kind = .keyword .caseKw)
    (h : caseStmt inner s = .ok x s') : x.Placed s.tokens := by
  have r := caseStmt_spans hi hs hk h
  obtain ⟨word, s₁, h₁, h⟩ := bind_eq_ok.1 h
  obtain ⟨subject, s₂, h₂, h⟩ := bind_eq_ok.1 h
  obtain ⟨first, s₃, h₃, h⟩ := bind_eq_ok.1 h
  obtain ⟨further, s₄, h₄, h⟩ := bind_eq_ok.1 h
  simp only [bind_eq_ok, pure_eq_ok] at h
  obtain ⟨otherwise, s₅, h₅, t, s₆, h₆, rfl, rfl⟩ := h
  obtain ⟨rfl, r₁⟩ := advance_spans hs hk (by simp) h₁
  have r₂ := r₁.trans (hi.expr _ _ _ r₁.ready h₂)
  have rfirst := whenClause_spans hi _ _ _ r₂.ready h₃
  have rfurther := many_spans listed_whens (fun _ _ _ hs _ h => whenClause_spans hi _ _ _ hs h)
    rfirst.ready h₄
  have rwhens := r₂.trans (rfirst.trans rfurther)
  rw [← listed_whens.pieces_cons] at rwhens
  have hsubject := hp.expr _ _ _ r₁.ready h₂
  have hfirst := whenClause_places hi hp _ _ _ r₂.ready h₃
  have hfurther := many_places placesEach_whens (fun s b s' hs _ h =>
    ⟨⟨_, whenClause_spans hi _ _ _ hs h⟩, whenClause_places hi hp _ _ _ hs h⟩)
    _ _ _ rfirst.ready h₄
  have hotherwise := otherwise_places hi hp rwhens.ready h₅
  rw [rfirst.past_eq] at hfurther
  have hwhens := placesEach_whens.cons hfirst hfurther
  rw [r₁.past_eq] at hsubject
  rw [r₂.past_eq] at hwhens
  rw [rwhens.past_eq] at hotherwise
  exact ⟨r.stands, hsubject, hwhens, hotherwise⟩

theorem whileStmt_places {x : Stmt} (hs : s.Ready) (hk : s.current.kind = .keyword .whileKw)
    (h : whileStmt inner s = .ok x s') : x.Placed s.tokens := by
  have r := whileStmt_spans hi hs hk h
  simp only [whileStmt, bind_eq_ok, pure_eq_ok] at h
  obtain ⟨word, s₁, h₁, test, s₂, h₂, body, s₃, h₃, rfl, rfl⟩ := h
  obtain ⟨rfl, r₁⟩ := advance_spans hs hk (by simp) h₁
  have r₂ := r₁.trans (hi.expr _ _ _ r₁.ready h₂)
  have htest := hp.expr _ _ _ r₁.ready h₂
  have hbody := loopBody_places hi hp _ _ _ r₂.ready h₃
  rw [r₁.past_eq] at htest
  rw [r₂.past_eq, ← past_append] at hbody
  exact ⟨r.stands, htest, hbody⟩

theorem forStmt_places {x : Stmt} (hs : s.Ready) (hk : s.current.kind = .keyword .forKw)
    (h : forStmt inner s = .ok x s') : x.Placed s.tokens := by
  have r := forStmt_spans hi hs hk h
  simp only [forStmt, bind_eq_ok, pure_eq_ok] at h
  obtain ⟨word, s₁, h₁, init, s₂, h₂, t, s₃, h₃, test, s₄, h₄, t', s₅, h₅, step, s₆, h₆,
    body, s₇, h₇, rfl, rfl⟩ := h
  obtain ⟨rfl, r₁⟩ := advance_spans hs hk (by simp) h₁
  have r₂ := r₁.trans (hi.expr _ _ _ r₁.ready h₂)
  have r₃ := r₂.trans (expect_spans r₂.ready (by simp) h₃).2
  have r₄ := r₃.trans (hi.expr _ _ _ r₃.ready h₄)
  have r₅ := r₄.trans (expect_spans r₄.ready (by simp) h₅).2
  have r₆ := r₅.trans (hi.expr _ _ _ r₅.ready h₆)
  have hinit := hp.expr _ _ _ r₁.ready h₂
  have htest := hp.expr _ _ _ r₃.ready h₄
  have hstep := hp.expr _ _ _ r₅.ready h₆
  have hbody := loopBody_places hi hp _ _ _ r₆.ready h₇
  rw [r₁.past_eq] at hinit
  rw [r₃.past_eq] at htest
  rw [r₅.past_eq] at hstep
  rw [r₆.past_eq, ← past_append] at hbody
  simp only [List.append_assoc] at hstep hbody
  exact ⟨r.stands, hinit, htest, hstep, hbody⟩

theorem foreachStmt_places {x : Stmt} (hs : s.Ready)
    (hk : s.current.kind = .keyword .foreachKw) (h : foreachStmt inner s = .ok x s') :
    x.Placed s.tokens := by
  have r := foreachStmt_spans hi hs hk h
  simp only [foreachStmt, bind_eq_ok, pure_eq_ok] at h
  obtain ⟨word, s₁, h₁, item, s₂, h₂, t, s₃, h₃, collection, s₄, h₄, body, s₅, h₅, rfl, rfl⟩ := h
  obtain ⟨rfl, r₁⟩ := advance_spans hs hk (by simp) h₁
  have r₂ := r₁.trans (identifier_spans r₁.ready h₂)
  have r₃ := r₂.trans (expect_spans r₂.ready (by simp) h₃).2
  have r₄ := r₃.trans (hi.expr _ _ _ r₃.ready h₄)
  have hitem := identifier_stands r₁.ready h₂
  have hcollection := hp.expr _ _ _ r₃.ready h₄
  have hbody := loopBody_places hi hp _ _ _ r₄.ready h₅
  rw [r₁.past_eq] at hitem
  rw [r₃.past_eq] at hcollection
  rw [r₄.past_eq, ← past_append] at hbody
  exact ⟨r.stands, hitem, hcollection, hbody⟩

theorem returnStmt_places {x : Stmt} (hs : s.Ready) (hk : s.current.kind = .keyword .returnKw)
    (h : returnStmt inner s = .ok x s') : x.Placed s.tokens := by
  have r := returnStmt_spans hi hs hk h
  simp only [returnStmt, bind_eq_ok, current_eq_ok] at h
  obtain ⟨word, s₁, h₁, t, s₂, ⟨rfl, rfl⟩, h⟩ := h
  obtain ⟨rfl, r₁⟩ := advance_spans hs hk (by simp) h₁
  split at h
  · simp only [bind_eq_ok, pure_eq_ok] at h
    obtain ⟨value, s₃, h₃, rfl, rfl⟩ := h
    exact ⟨r.stands, r₁.past_eq ▸ hp.expr _ _ _ r₁.ready h₃⟩
  · obtain ⟨rfl, rfl⟩ := pure_eq_ok.1 h
    exact ⟨r.stands, trivial⟩

theorem stmt_places : Places (stmt inner) Stmt.Placed := by
  intro s x s' hs h
  have r := stmt_spans hi _ _ _ hs h
  unfold stmt at h
  split at h
  · obtain ⟨word, s₁, h₁, h⟩ := bind_eq_ok.1 h
    obtain ⟨first, s₂, -, h⟩ := bind_eq_ok.1 h
    obtain ⟨further, s₃, -, h⟩ := bind_eq_ok.1 h
    obtain ⟨rfl, rfl⟩ := pure_eq_ok.1 h
    obtain rfl := advance_fst h₁
    exact r.stands
  · exact condStmt_places hi hp hs ‹_› h
  · exact caseStmt_places hi hp hs ‹_› h
  · exact whileStmt_places hi hp hs ‹_› h
  · exact forStmt_places hi hp hs ‹_› h
  · exact foreachStmt_places hi hp hs ‹_› h
  · obtain ⟨word, s₁, h₁, h⟩ := bind_eq_ok.1 h
    obtain ⟨rfl, rfl⟩ := pure_eq_ok.1 h
    obtain rfl := advance_fst h₁
    exact r.stands
  · obtain ⟨word, s₁, h₁, h⟩ := bind_eq_ok.1 h
    obtain ⟨rfl, rfl⟩ := pure_eq_ok.1 h
    obtain rfl := advance_fst h₁
    exact r.stands
  · exact returnStmt_places hi hp hs ‹_› h
  · simp only [exprStmt, bind_eq_ok, pure_eq_ok, current_eq_ok] at h
    obtain ⟨t, s₁, ⟨rfl, rfl⟩, e, s₂, h, rfl, rfl⟩ := h
    exact ⟨r.stands, hp.expr _ _ _ hs h⟩

end Parser

/-- By induction on the levels: the productions of a level nest those of the one below. -/
theorem Nested.places_ofLevels (levels : Nat) : (Nested.ofLevels levels).Places := by
  induction levels with
  | zero => constructor <;> exact fun _ _ _ _ h => absurd h fail_ne_ok
  | succ levels ih =>
    have hi := Nested.reads_ofLevels levels
    rw [Nested.ofLevels]
    constructor <;> dsimp only
    · exact nested_places (stmt_places hi ih)
    · exact nested_places (assignment_places hi ih)
    · exact nested_places (unary_places hi ih)

/-- Every node of an accepted text's tree stands where the lexer found the first token of its
yield, and every block without statements where it found the token that ends the block. -/
theorem placed_of_parse {log : Log} {text : List Char} {unit : Block}
    (h : (parse log text).1 = some unit) :
    ∃ tokens, lex log text = (some tokens, (parse log text).2) ∧
      tokens.map (·.kind) = unit.yield ++ [.eof] ∧ unit.Placed tokens := by
  obtain ⟨s, hunit, herror, hlog⟩ := parse_fst_eq_some h
  obtain ⟨hkinds, hnews, -, -⟩ := Parser.unit_spans (endsOnce_readings _) hunit
  refine ⟨(readings (.start text)).filterMap (·.token), ?_, hkinds, ?_⟩
  · rw [hnews] at herror hlog
    simp [lex, herror, hlog]
  · simp only [Parser.unit, bind_eq_ok, current_eq_ok] at hunit
    obtain ⟨t, s₁, h₁, body, s₂, h₂, next, s₃, ⟨rfl, rfl⟩, hunit⟩ := hunit
    obtain ⟨hready, htokens, -⟩ := advance_start (endsOnce_readings _) h₁
    rw [← htokens]
    split at hunit
    · obtain ⟨rfl, rfl⟩ := pure_eq_ok.1 hunit
      exact block_places (Nested.reads_ofLevels _) (Nested.places_ofLevels _) _ _ _ hready h₂
    · exact absurd hunit fail_ne_ok

theorem placed_of_parse_classText :
    ∃ unit tokens, (parse (.empty "u") classText).1 = some unit ∧
      lex (.empty "u") classText = (some tokens, (parse (.empty "u") classText).2) ∧
      tokens.map (·.kind) = unit.yield ++ [.eof] ∧ unit.Placed tokens := by
  have accepted : (parse (.empty "u") classText).1.isSome = true := by decide +kernel
  obtain ⟨unit, h⟩ := Option.isSome_iff_exists.1 accepted
  obtain ⟨tokens, hlex⟩ := placed_of_parse h
  exact ⟨unit, tokens, h, hlex⟩

end LarkCheck
