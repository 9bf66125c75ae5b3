import LarkCheck.Proofs.Grammar.Steps

/-!
# Enough levels

The productions that nest are built level by level, and with no level left they give
up. They never do so for want of levels: where none is left the guard of nesting lets
nothing pass either. So the productions are those that a recursion without levels
would give, which the guard brings to its end.
-/

namespace LarkCheck

open Token

namespace Parser

variable {α β : Type} {d : Nat}

/-- At this depth the two parsers do the same, and they come back to it. -/
def Agree (d : Nat) (p q : Parser α) : Prop :=
  ∀ s, s.depth = d → p s = q s ∧ ∀ a s', p s = .ok a s' → s'.depth = d

end Parser

/-- The nesting productions do the same at this depth. -/
structure Nested.Agree (d : Nat) (inner inner' : Nested) : Prop where
  stmt : Parser.Agree d inner.stmt inner'.stmt
  expr : Parser.Agree d inner.expr inner'.expr
  unary : Parser.Agree d inner.unary inner'.unary

namespace Parser

variable {α β : Type} {d : Nat} {inner inner' : Nested}

theorem agree_self {p : Parser α}
    (hp : Keeps (fun s s' => s'.depth = s.depth) (fun _ _ => True) p) : Agree d p p :=
  fun _ hs => ⟨rfl, fun _ _ h => (depth_eq_of_keeps hp h).trans hs⟩

theorem agree_advance : Agree d advance advance :=
  agree_self stepLaw_depth.advance

theorem agree_pure (a : α) : Agree d (pure a : Parser α) (pure a) :=
  agree_self (stepLaw_depth.pure a)

theorem agree_current : Agree d current current :=
  agree_self stepLaw_depth.current_keeps

theorem agree_expect (kind : Kind) {code : Diagnostic.Code} (hcode : code.isSyntax = true) :
    Agree d (expect kind code) (expect kind code) :=
  agree_self (stepLaw_depth.expect_keeps kind hcode)

theorem agree_identifier : Agree d identifier identifier :=
  agree_self stepLaw_depth.identifier_keeps

theorem Agree.bind {p q : Parser α} {f g : α → Parser β} (hp : Agree d p q)
    (hf : ∀ a, Agree d (f a) (g a)) : Agree d (p >>= f) (q >>= g) := by
  intro s hs
  obtain ⟨heq, hdepth⟩ := hp s hs
  constructor
  · change EStateM.bind p f s = EStateM.bind q g s
    unfold EStateM.bind
    rw [← heq]
    cases hrun : p s with
    | error e s₁ => rfl
    | ok a s₁ => exact (hf a s₁ (hdepth a s₁ hrun)).1
  · intro b s₂ h
    obtain ⟨a, s₁, h₁, h₂⟩ := bind_eq_ok.1 h
    exact (hf a s₁ (hdepth a s₁ h₁)).2 b s₂ h₂

theorem Agree.after? {p q : Parser α} (kind : Kind) (hp : Agree d p q) :
    Agree d (after? kind p) (after? kind q) := by
  intro s hs
  have hsome : Agree d (some <$> p) (some <$> q) := hp.bind fun a => agree_pure (some a)
  have hread := (agree_advance.bind fun _ => hsome) s hs
  unfold Parser.after?
  by_cases hk : s.isAt kind = true
  · rw [if_pos hk, if_pos hk]
    exact hread
  · rw [if_neg hk, if_neg hk]
    refine ⟨rfl, fun a s' h => ?_⟩
    cases h
    exact hs

theorem Agree.many {p q : Parser α} (more : State → Bool) (hp : Agree d p q) :
    Agree d (many more p) (many more q) := by
  intro s hs
  fun_induction Parser.many more p s with
  | case1 s hm a s₁ ha hlt rest s₂ hrest ih =>
    obtain ⟨heq, hdepth⟩ := hp s hs
    obtain ⟨heq', hdepth'⟩ := ih (hdepth a s₁ ha)
    rw [Parser.many.eq_def more q, if_pos hm, ← heq, ha]
    dsimp only
    rw [if_pos hlt, ← heq', hrest]
    refine ⟨rfl, fun as s' h => ?_⟩
    cases h
    exact hdepth' _ _ hrest
  | case2 s hm a s₁ ha hlt e s₂ hrest ih =>
    obtain ⟨heq, hdepth⟩ := hp s hs
    obtain ⟨heq', -⟩ := ih (hdepth a s₁ ha)
    rw [Parser.many.eq_def more q, if_pos hm, ← heq, ha]
    dsimp only
    rw [if_pos hlt, ← heq', hrest]
    refine ⟨rfl, fun as s' h => ?_⟩
    cases h
  | case3 s hm a s₁ ha hnot =>
    obtain ⟨heq, hdepth⟩ := hp s hs
    rw [Parser.many.eq_def more q, if_pos hm, ← heq, ha]
    dsimp only
    rw [if_neg hnot]
    refine ⟨rfl, fun as s' h => ?_⟩
    cases h
    exact hdepth _ _ ha
  | case4 s hm e s₁ ha =>
    obtain ⟨heq, -⟩ := hp s hs
    rw [Parser.many.eq_def more q, if_pos hm, ← heq, ha]
    refine ⟨rfl, fun as s' h => ?_⟩
    cases h
  | case5 s hm =>
    rw [Parser.many.eq_def more q, if_neg hm]
    refine ⟨rfl, fun as s' h => ?_⟩
    cases h
    exact hs

theorem agree_links {link link' : α → Parser α} (more : State → Bool)
    (hlink : ∀ a, Agree d (link a) (link' a)) (a : α) :
    Agree d (links more link a) (links more link' a) := by
  intro s hs
  fun_induction links more link a s with
  | case1 a s hm b s₁ hb hlt ih =>
    obtain ⟨heq, hdepth⟩ := hlink a s hs
    rw [links.eq_def more link', if_pos hm, ← heq, hb]
    dsimp only
    rw [if_pos hlt]
    exact ih (hdepth b s₁ hb)
  | case2 a s hm b s₁ hb hnot =>
    obtain ⟨heq, hdepth⟩ := hlink a s hs
    rw [links.eq_def more link', if_pos hm, ← heq, hb]
    dsimp only
    rw [if_neg hnot]
    refine ⟨rfl, fun c s' h => ?_⟩
    cases h
    exact hdepth _ _ hb
  | case3 a s hm e s₁ hb =>
    obtain ⟨heq, -⟩ := hlink a s hs
    rw [links.eq_def more link', if_pos hm, ← heq, hb]
    refine ⟨rfl, fun c s' h => ?_⟩
    cases h
  | case4 a s hm =>
    rw [links.eq_def more link', if_neg hm]
    refine ⟨rfl, fun c s' h => ?_⟩
    cases h
    exact hs

theorem Agree.separated {p q : Parser α} (hp : Agree d p q) :
    Agree d (separated p) (separated q) := by
  refine hp.bind fun first => ?_
  have hfurther := Agree.many (·.isAt (.punctuation .comma)) (agree_advance.bind fun _ => hp)
  exact hfurther.bind fun rest => agree_pure _

theorem Agree.separatedUntil {p q : Parser α} (close : Punctuation) (hp : Agree d p q) :
    Agree d (separatedUntil close p) (separatedUntil close q) := by
  intro s hs
  unfold Parser.separatedUntil
  by_cases hk : s.isAt (.punctuation close) = true
  · rw [if_pos hk, if_pos hk]
    refine ⟨rfl, fun as s' h => ?_⟩
    cases h
    exact hs
  · rw [if_neg hk, if_neg hk]
    exact hp.separated s hs

/-- What stands behind the guard is read one level deeper. -/
theorem Agree.nested {p q : Parser α} (hp : Agree (d + 1) p q) :
    Agree d (nested p) (nested q) := by
  intro s hs
  obtain ⟨heq, hdepth⟩ := hp s.enter (congrArg (· + 1) hs)
  unfold State.enter at heq hdepth
  unfold Parser.nested
  split
  · exact ⟨rfl, fun a s' h => absurd h fail_ne_ok⟩
  · rw [← heq]
    refine ⟨rfl, fun a s' h => ?_⟩
    split at h
    · rename_i hrun
      cases h
      have hinside := hdepth _ _ hrun
      simp only [State.leave]
      omega
    · cases h

theorem Agree.chain {p q : Parser α} (hp : Agree d p q) : Agree d (chain p) (chain q) := by
  intro s hs
  obtain ⟨heq, hdepth⟩ := hp { s with peak := s.level } hs
  unfold Parser.chain
  rw [← heq]
  refine ⟨rfl, fun a s' h => ?_⟩
  split at h
  · rename_i hrun
    cases h
    have hinside := hdepth _ _ hrun
    exact hinside
  · cases h

theorem block_agree (hi : Nested.Agree d inner inner') : Agree d (block inner) (block inner') :=
  agree_current.bind fun _ => (hi.stmt.many _).bind fun _ => agree_pure _

theorem blockToEnd_agree (hi : Nested.Agree d inner inner') :
    Agree d (blockToEnd inner) (blockToEnd inner') :=
  (block_agree hi).bind fun _ => (agree_expect _ rfl).bind fun _ => agree_pure _

/-- The report of a default is about no nesting production. -/
theorem outputParam_agree (loc : Location) : Agree d (outputParam loc) (outputParam loc) := by
  refine agree_advance.bind fun _ => agree_identifier.bind fun name => ?_
  refine agree_current.bind fun next => ?_
  split
  · exact fun s hs => ⟨rfl, fun a s' h => nomatch h⟩
  · exact agree_pure _

theorem param_agree (hi : Nested.Agree d inner inner') : Agree d (param inner) (param inner') := by
  refine agree_current.bind fun first => ?_
  split
  · exact outputParam_agree _
  · exact agree_identifier.bind fun _ => (hi.expr.after? _).bind fun _ => agree_pure _

theorem params_agree (hi : Nested.Agree d inner inner') :
    Agree d (params inner) (params inner') :=
  (agree_expect _ rfl).bind fun _ => ((param_agree hi).separatedUntil _).bind fun _ =>
    (agree_expect _ rfl).bind fun _ => agree_pure _

theorem exprsTo_agree (hi : Nested.Agree d inner inner') (close : Punctuation)
    {code : Diagnostic.Code} (hcode : code.isSyntax = true) :
    Agree d (exprsTo inner close code) (exprsTo inner' close code) :=
  (hi.expr.separatedUntil _).bind fun _ => (agree_expect _ hcode).bind fun _ => agree_pure _

theorem routine_agree (hi : Nested.Agree d inner inner') :
    Agree d (routine inner) (routine inner') :=
  agree_advance.bind fun _ => (params_agree hi).bind fun _ =>
    (blockToEnd_agree hi).bind fun _ => agree_pure _

theorem base_agree (hi : Nested.Agree d inner inner') : Agree d (base inner) (base inner') :=
  agree_identifier.bind fun _ => (agree_expect _ rfl).bind fun _ =>
    (exprsTo_agree hi _ rfl).bind fun _ => agree_pure _

theorem sectionBody_agree (hi : Nested.Agree d inner inner') (access : Access) :
    Agree d (sectionBody inner access) (sectionBody inner' access) :=
  agree_current.bind fun _ => (block_agree hi).bind fun _ => agree_pure _

theorem sections_agree (hi : Nested.Agree d inner inner') :
    Agree d (sections inner) (sections inner') := by
  refine (sectionBody_agree hi _).bind fun first => ?_
  refine Agree.bind (Agree.many _ ?_) fun further => agree_pure _
  exact agree_advance.bind fun _ => sectionBody_agree hi _

theorem classDef_agree (hi : Nested.Agree d inner inner') :
    Agree d (classDef inner) (classDef inner') :=
  agree_advance.bind fun _ => agree_identifier.bind fun _ => (params_agree hi).bind fun _ =>
    ((base_agree hi).after? _).bind fun _ => ((agree_identifier.separated).after? _).bind fun _ =>
      (sections_agree hi).bind fun _ => (agree_expect _ rfl).bind fun _ => agree_pure _

theorem package_agree (hi : Nested.Agree d inner inner') :
    Agree d (package inner) (package inner') :=
  agree_advance.bind fun _ => agree_identifier.bind fun _ =>
    (blockToEnd_agree hi).bind fun _ => agree_pure _

theorem array_agree (hi : Nested.Agree d inner inner') : Agree d (array inner) (array inner') :=
  agree_advance.bind fun _ => (exprsTo_agree hi _ rfl).bind fun _ => agree_pure _

theorem pair_agree (hi : Nested.Agree d inner inner') : Agree d (pair inner) (pair inner') :=
  hi.expr.bind fun _ => (agree_expect _ rfl).bind fun _ => hi.expr.bind fun _ => agree_pure _

theorem hash_agree (hi : Nested.Agree d inner inner') : Agree d (hash inner) (hash inner') :=
  agree_advance.bind fun _ => ((pair_agree hi).separatedUntil _).bind fun _ =>
    (agree_expect _ rfl).bind fun _ => agree_pure _

theorem paren_agree (hi : Nested.Agree d inner inner') : Agree d (paren inner) (paren inner') :=
  agree_advance.bind fun _ => hi.expr.bind fun _ => (agree_expect _ rfl).bind fun _ =>
    agree_pure _

theorem primary_agree (hi : Nested.Agree d inner inner') :
    Agree d (primary inner) (primary inner') := by
  intro s hs
  unfold primary
  split
  · exact routine_agree hi s hs
  · exact classDef_agree hi s hs
  · exact package_agree hi s hs
  · exact array_agree hi s hs
  · exact hash_agree hi s hs
  · exact paren_agree hi s hs
  · exact agree_self stepLaw_depth.atom_keeps s hs

theorem agree_raise : Agree d raise raise :=
  agree_self stepLaw_depth.raise_keeps

theorem postfixLink_agree (hi : Nested.Agree d inner inner') (e : Expr) :
    Agree d (postfixLink inner e) (postfixLink inner' e) := by
  refine agree_raise.bind fun _ => agree_advance.bind fun mark => ?_
  split
  · exact (exprsTo_agree hi _ rfl).bind fun _ => agree_pure _
  · exact hi.expr.bind fun _ => (agree_expect _ rfl).bind fun _ => agree_pure _
  · exact agree_identifier.bind fun _ => agree_pure _

theorem postfixed_agree (hi : Nested.Agree d inner inner') :
    Agree d (postfixed inner) (postfixed inner') :=
  Agree.chain ((primary_agree hi).bind fun first => agree_links _ (postfixLink_agree hi) first)

theorem unary_agree (hi : Nested.Agree d inner inner') : Agree d (unary inner) (unary inner') := by
  intro s hs
  unfold unary
  split
  · have hoperand := agree_advance.bind fun first => hi.unary.bind fun operand =>
      agree_pure (Expr.unary first.loc ‹Operator› (some operand))
    exact hoperand s hs
  · exact postfixed_agree hi s hs

theorem binaryLink_agree {least : Level}
    (hright : ∀ level, least.rank ≤ level.rank →
      Agree d (rightOperand inner level) (rightOperand inner' level)) (left : Expr) :
    Agree d (binaryLink inner least left) (binaryLink inner' least left) := by
  intro s hs
  rw [binaryLink, binaryLink]
  split
  · rename_i op level hop
    have hlink := agree_advance.bind fun _ => agree_raise.bind fun _ =>
      (hright level (binaryOf?_eq_some.1 hop).2.2).bind fun right =>
        agree_pure (Expr.binary left.loc level op (some left) (some right))
    exact hlink s hs
  · refine ⟨rfl, fun e s' h => ?_⟩
    cases h
    exact hs

theorem climb_agree (hi : Nested.Agree d inner inner') (least : Level) :
    Agree d (climb inner least) (climb inner' least) := by
  refine climb_related (R := fun _ p q => Agree d p q) (unary_agree hi)
    (fun least hright => ?_) least
  rw [climb, climb]
  exact Agree.chain ((unary_agree hi).bind fun first =>
    agree_links _ (binaryLink_agree hright) first)

theorem assignment_agree (hi : Nested.Agree d inner inner') :
    Agree d (assignment inner) (assignment inner') := by
  refine (climb_agree hi .loosest).bind fun target => agree_current.bind fun next => ?_
  split
  · split
    · exact agree_advance.bind fun _ => hi.expr.bind fun _ => agree_pure _
    · exact fun s hs => ⟨rfl, fun a s' h => nomatch h⟩
  · exact agree_pure _

theorem otherwise_agree (hi : Nested.Agree d inner inner') :
    Agree d (otherwise inner) (otherwise inner') :=
  (block_agree hi).after? _

theorem elseifBranch_agree (hi : Nested.Agree d inner inner') :
    Agree d (elseifBranch inner) (elseifBranch inner') :=
  agree_advance.bind fun _ => hi.expr.bind fun _ => (block_agree hi).bind fun _ => agree_pure _

theorem condStmt_agree (hi : Nested.Agree d inner inner') :
    Agree d (condStmt inner) (condStmt inner') :=
  agree_advance.bind fun _ => hi.expr.bind fun _ => (block_agree hi).bind fun _ =>
    ((elseifBranch_agree hi).many _).bind fun _ => (otherwise_agree hi).bind fun _ =>
      (agree_expect _ rfl).bind fun _ => agree_pure _

theorem whenClause_agree (hi : Nested.Agree d inner inner') :
    Agree d (whenClause inner) (whenClause inner') :=
  (agree_expect _ rfl).bind fun _ => hi.expr.bind fun _ => (agree_expect _ rfl).bind fun _ =>
    (block_agree hi).bind fun _ => agree_pure _

theorem caseStmt_agree (hi : Nested.Agree d inner inner') :
    Agree d (caseStmt inner) (caseStmt inner') :=
  agree_advance.bind fun _ => hi.expr.bind fun _ => (whenClause_agree hi).bind fun _ =>
    ((whenClause_agree hi).many _).bind fun _ => (otherwise_agree hi).bind fun _ =>
      (agree_expect _ rfl).bind fun _ => agree_pure _

theorem loopBody_agree (hi : Nested.Agree d inner inner') :
    Agree d (loopBody inner) (loopBody inner') :=
  (agree_expect _ rfl).bind fun _ => blockToEnd_agree hi

theorem whileStmt_agree (hi : Nested.Agree d inner inner') :
    Agree d (whileStmt inner) (whileStmt inner') :=
  agree_advance.bind fun _ => hi.expr.bind fun _ => (loopBody_agree hi).bind fun _ =>
    agree_pure _

theorem forStmt_agree (hi : Nested.Agree d inner inner') :
    Agree d (forStmt inner) (forStmt inner') :=
  agree_advance.bind fun _ => hi.expr.bind fun _ => (agree_expect _ rfl).bind fun _ =>
    hi.expr.bind fun _ => (agree_expect _ rfl).bind fun _ => hi.expr.bind fun _ =>
      (loopBody_agree hi).bind fun _ => agree_pure _

theorem foreachStmt_agree (hi : Nested.Agree d inner inner') :
    Agree d (foreachStmt inner) (foreachStmt inner') :=
  agree_advance.bind fun _ => agree_identifier.bind fun _ => (agree_expect _ rfl).bind fun _ =>
    hi.expr.bind fun _ => (loopBody_agree hi).bind fun _ => agree_pure _

theorem returnStmt_agree (hi : Nested.Agree d inner inner') :
    Agree d (returnStmt inner) (returnStmt inner') := by
  refine agree_advance.bind fun word => agree_current.bind fun next => ?_
  split
  · exact hi.expr.bind fun _ => agree_pure _
  · exact agree_pure _

theorem exprStmt_agree (hi : Nested.Agree d inner inner') :
    Agree d (exprStmt inner) (exprStmt inner') :=
  agree_current.bind fun _ => hi.expr.bind fun _ => agree_pure _

theorem stmt_agree (hi : Nested.Agree d inner inner') :
    Agree d (Parser.stmt inner) (Parser.stmt inner') := by
  intro s hs
  unfold Parser.stmt
  split
  · exact agree_self stepLaw_depth.importStmt_keeps s hs
  · exact condStmt_agree hi s hs
  · exact caseStmt_agree hi s hs
  · exact whileStmt_agree hi s hs
  · exact forStmt_agree hi s hs
  · exact foreachStmt_agree hi s hs
  · exact agree_self (stepLaw_depth.wordStmt_keeps _) s hs
  · exact agree_self (stepLaw_depth.wordStmt_keeps _) s hs
  · exact returnStmt_agree hi s hs
  · exact exprStmt_agree hi s hs

end Parser

namespace Nested

open LarkCheck.Parser

/-- Where the guard lets nothing pass, having no level left makes no difference. -/
theorem fail_agree {α : Type} {d : Nat} (hd : maxNesting ≤ d) (p : Parser α) :
    Parser.Agree d (fail .nestingTooDeep) (nested p) ∧
      Parser.Agree d (nested p) (fail .nestingTooDeep) := by
  have hnested : ∀ s, s.depth = d → nested p s = fail .nestingTooDeep s := by
    intro s hs
    unfold nested
    rw [if_pos (.inl (hs ▸ hd))]
  constructor
  · exact fun s hs => ⟨(hnested s hs).symm, fun a s' h => absurd h fail_ne_ok⟩
  · refine fun s hs => ⟨hnested s hs, fun a s' h => ?_⟩
    rw [hnested s hs] at h
    exact absurd h fail_ne_ok

/-- By induction on the levels: at each of them the guard has one less to let pass. -/
theorem ofLevels_agree {m n d : Nat} (hm : maxNesting ≤ d + m) (hn : maxNesting ≤ d + n) :
    Nested.Agree d (ofLevels m) (ofLevels n) := by
  induction m generalizing n d with
  | zero =>
    cases n with
    | zero => constructor <;> exact agree_self (stepLaw_depth.fail_keeps rfl)
    | succ n =>
      have hd : maxNesting ≤ d := hm
      rw [ofLevels.eq_1, ofLevels.eq_2]
      constructor <;> dsimp only <;> exact (fail_agree hd _).1
  | succ m ih =>
    cases n with
    | zero =>
      have hd : maxNesting ≤ d := hn
      rw [ofLevels.eq_1, ofLevels.eq_2]
      constructor <;> dsimp only <;> exact (fail_agree hd _).2
    | succ n =>
      have hinner : Nested.Agree (d + 1) (ofLevels m) (ofLevels n) := ih (by omega) (by omega)
      rw [ofLevels.eq_2, ofLevels.eq_2]
      constructor <;> dsimp only
      · exact (stmt_agree hinner).nested
      · exact (assignment_agree hinner).nested
      · exact (unary_agree hinner).nested

/-- The nesting productions are what they are built from one level deeper: they recur until the
guard stops them. -/
structure Recurs (inner : Nested) : Prop where
  stmt : inner.stmt = nested (Parser.stmt inner)
  expr : inner.expr = nested (assignment inner)
  unary : inner.unary = nested (Parser.unary inner)

theorem recurs_ofLevels {levels : Nat} (hlevels : maxNesting ≤ levels) :
    (ofLevels levels).Recurs := by
  have hagree (s : State) : Nested.Agree s.depth (ofLevels levels) (ofLevels (levels + 1)) :=
    ofLevels_agree (by omega) (by omega)
  rw [ofLevels.eq_2] at hagree
  constructor
  · exact funext fun s => ((hagree s).stmt s rfl).1
  · exact funext fun s => ((hagree s).expr s rfl).1
  · exact funext fun s => ((hagree s).unary s rfl).1

end Nested

end LarkCheck
