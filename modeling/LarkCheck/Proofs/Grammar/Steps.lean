import LarkCheck.Proofs.Grammar.Success

/-!
# What every run of a parser keeps

All that a parser does to its state it does in a few sorts of steps: it takes a
token, reports why it stops, enters and leaves a nested construct, opens and closes
a chain, and raises the level. A relation between the states before and after that
each of these steps keeps is kept by every production, whether the run succeeds or
stops. No production goes on after a part of it has stopped.
-/

namespace LarkCheck

open Token

namespace Parser

variable {α β : Type}

/-- The run led from `s` by `R` to where it succeeded or by `F` to where it stopped. -/
inductive Kept (R F : State → State → Prop) (s : State) : EStateM.Result Stopped State α → Prop
  | ok {a : α} {s' : State} (h : R s s') : Kept R F s (.ok a s')
  | error {e : Stopped} {s' : State} (h : F s s') : Kept R F s (.error e s')

theorem Kept.of_ok {R F : State → State → Prop} {s s' : State} {a : α}
    (h : Kept R F s (.ok a s')) : R s s' := by
  cases h with
  | ok h => exact h

theorem Kept.of_error {R F : State → State → Prop} {s s' : State} {e : Stopped}
    (h : Kept R F s (.error e s' : EStateM.Result Stopped State α)) : F s s' := by
  cases h with
  | error h => exact h

def Keeps (R F : State → State → Prop) (p : Parser α) : Prop :=
  ∀ s, Kept R F s (p s)

/-- A report with this place and code is about the current token. Only a wrong target is reported
at its own place, in front of the `=` after it. -/
def State.Blames (s : State) (loc : Location) (code : Diagnostic.Code) : Prop :=
  loc = s.current.loc ∨ code = .expectedTarget ∧ s.current.kind = .operator .assign

/-- The steps of a parser keep the relations `R` and `F`. -/
structure StepLaw (R F : State → State → Prop) : Prop where
  refl : ∀ s, R s s
  trans : ∀ {s s₁ s₂}, R s s₁ → R s₁ s₂ → R s s₂
  stop : ∀ {s s₁ s₂}, R s s₁ → F s₁ s₂ → F s s₂
  advance : Keeps R F advance
  report : ∀ s loc code note, code.isSyntax = true → s.Blames loc code →
    F s { s with news := s.news ++ [Diagnostic.of code loc [note]] }
  leave : ∀ {s s'}, s.depth < maxNesting → s.level < maxTreeDepth → R s.enter s' → R s s'.leave
  leave_stop : ∀ {s s'}, s.depth < maxNesting → s.level < maxTreeDepth → F s.enter s' →
    F s s'.leave
  close : ∀ {s s'}, R { s with peak := s.level } s' →
    R s { s' with level := s.level, peak := max s'.peak s.peak }
  close_stop : ∀ {s s'}, F { s with peak := s.level } s' → F s s'
  raise : ∀ s, s.peak < maxTreeDepth → R s { s with level := s.peak + 1, peak := s.peak + 1 }

end Parser

/-- The nesting productions keep the relations. -/
structure Nested.Keeps (R F : Parser.State → Parser.State → Prop) (inner : Nested) : Prop where
  stmt : Parser.Keeps R F inner.stmt
  expr : Parser.Keeps R F inner.expr
  unary : Parser.Keeps R F inner.unary

namespace Parser.StepLaw

variable {α β : Type} {R F : State → State → Prop} {inner : Nested}

theorem pure (law : StepLaw R F) (a : α) : Keeps R F (Pure.pure a : Parser α) :=
  fun s => .ok (law.refl s)

theorem bind (law : StepLaw R F) {p : Parser α} {f : α → Parser β} (hp : Keeps R F p)
    (hf : ∀ a, Keeps R F (f a)) : Keeps R F (p >>= f) := by
  intro s
  have h := hp s
  change Kept R F s (EStateM.bind p f s)
  unfold EStateM.bind
  generalize p s = first at h ⊢
  cases h with
  | error h => exact .error h
  | @ok a s₁ h =>
    have h' := hf a s₁
    dsimp only
    generalize f a s₁ = second at h' ⊢
    cases h' with
    | error h' => exact .error (law.stop h h')
    | ok h' => exact .ok (law.trans h h')

theorem current_keeps (law : StepLaw R F) : Keeps R F current :=
  fun s => .ok (law.refl s)

theorem failAt_kept (law : StepLaw R F) {code : Diagnostic.Code} (hcode : code.isSyntax = true)
    {s : State} {loc : Location} (hloc : s.Blames loc code) (note : String) :
    Kept R F s ((failAt loc code note : Parser α) s) :=
  .error (law.report s loc code note hcode hloc)

theorem fail_keeps (law : StepLaw R F) {code : Diagnostic.Code} (hcode : code.isSyntax = true) :
    Keeps R F (fail code : Parser α) :=
  fun _ => law.failAt_kept hcode (.inl rfl) _

theorem expect_keeps (law : StepLaw R F) (kind : Kind) {code : Diagnostic.Code}
    (hcode : code.isSyntax = true) : Keeps R F (expect kind code) := by
  intro s
  unfold expect
  split
  · exact law.advance s
  · exact law.fail_keeps hcode s

theorem after?_keeps (law : StepLaw R F) (kind : Kind) {p : Parser α} (hp : Keeps R F p) :
    Keeps R F (after? kind p) := by
  intro s
  unfold after?
  split
  · have hmap : Keeps R F (some <$> p) := law.bind hp fun a => law.pure (some a)
    exact law.bind law.advance (fun _ => hmap) s
  · exact .ok (law.refl s)

theorem identifier_keeps (law : StepLaw R F) : Keeps R F identifier := by
  intro s
  unfold identifier
  split
  · exact law.bind law.advance (fun _ => law.pure _) s
  · exact law.fail_keeps rfl s

theorem many_keeps (law : StepLaw R F) (more : State → Bool) {item : Parser α}
    (hitem : Keeps R F item) : Keeps R F (many more item) := by
  intro s
  fun_induction many more item s with
  | case1 s _ a s₁ ha _ rest s₂ hrest ih =>
    have h := hitem s
    rw [ha] at h
    rw [hrest] at ih
    exact .ok (law.trans h.of_ok ih.of_ok)
  | case2 s _ a s₁ ha _ e s₂ hrest ih =>
    have h := hitem s
    rw [ha] at h
    rw [hrest] at ih
    exact .error (law.stop h.of_ok ih.of_error)
  | case3 s _ a s₁ ha =>
    have h := hitem s
    rw [ha] at h
    exact .ok h.of_ok
  | case4 s _ e s₁ ha =>
    have h := hitem s
    rw [ha] at h
    exact .error h.of_error
  | case5 s => exact .ok (law.refl s)

theorem links_keeps (law : StepLaw R F) (more : State → Bool) {link : α → Parser α}
    (hlink : ∀ a, Keeps R F (link a)) (a : α) : Keeps R F (links more link a) := by
  intro s
  fun_induction links more link a s with
  | case1 a s _ b s₁ hb _ ih =>
    have h := hlink a s
    rw [hb] at h
    generalize links more link b s₁ = further at ih ⊢
    cases ih with
    | ok ih => exact .ok (law.trans h.of_ok ih)
    | error ih => exact .error (law.stop h.of_ok ih)
  | case2 a s _ b s₁ hb | case3 a s _ e s₁ hb =>
    have h := hlink a s
    rw [hb] at h
    exact h
  | case4 a s => exact .ok (law.refl s)

theorem separated_keeps (law : StepLaw R F) {item : Parser α} (hitem : Keeps R F item) :
    Keeps R F (separated item) := by
  refine law.bind hitem fun first => ?_
  refine law.bind (law.many_keeps _ ?_) fun rest => law.pure _
  exact law.bind law.advance fun _ => hitem

theorem separatedUntil_keeps (law : StepLaw R F) (close : Punctuation) {item : Parser α}
    (hitem : Keeps R F item) : Keeps R F (separatedUntil close item) := by
  intro s
  unfold separatedUntil
  split
  · exact .ok (law.refl s)
  · exact law.separated_keeps hitem s

theorem nested_keeps (law : StepLaw R F) {p : Parser α} (hp : Keeps R F p) :
    Keeps R F (nested p) := by
  intro s
  unfold nested
  split
  · exact law.fail_keeps rfl s
  · rename_i hguard
    have hdepth : s.depth < maxNesting := by omega
    have hlevel : s.level < maxTreeDepth := by omega
    have h := hp s.enter
    unfold State.enter at h
    split
    · rename_i hrun
      rw [hrun] at h
      cases h with
      | ok h => exact .ok (law.leave hdepth hlevel h)
    · rename_i hrun
      rw [hrun] at h
      cases h with
      | error h => exact .error (law.leave_stop hdepth hlevel h)

theorem chain_keeps (law : StepLaw R F) {p : Parser α} (hp : Keeps R F p) :
    Keeps R F (chain p) := by
  intro s
  unfold chain
  have h := hp { s with peak := s.level }
  generalize p { s with peak := s.level } = inside at h ⊢
  cases h with
  | ok h => exact .ok (law.close h)
  | error h => exact .error (law.close_stop h)

theorem raise_keeps (law : StepLaw R F) : Keeps R F Parser.raise := by
  intro s
  unfold Parser.raise
  split
  · exact law.fail_keeps rfl s
  · exact .ok (law.raise s (by omega))

theorem block_keeps (law : StepLaw R F) (hi : inner.Keeps R F) : Keeps R F (block inner) := by
  refine law.bind law.current_keeps fun first => ?_
  exact law.bind (law.many_keeps _ hi.stmt) fun stmts => law.pure _

theorem blockToEnd_keeps (law : StepLaw R F) (hi : inner.Keeps R F) :
    Keeps R F (blockToEnd inner) := by
  refine law.bind (law.block_keeps hi) fun body => ?_
  exact law.bind (law.expect_keeps _ rfl) fun _ => law.pure _

theorem param_keeps (law : StepLaw R F) (hi : inner.Keeps R F) : Keeps R F (param inner) := by
  refine law.bind law.current_keeps fun first => ?_
  split
  · refine law.bind law.advance fun _ => ?_
    refine law.bind law.identifier_keeps fun name s => ?_
    -- the report is about the token that the parser looks at
    change Kept R F s ((if s.current.kind = .operator .assign then _ else _ : Parser Param) s)
    split
    · exact law.failAt_kept rfl (.inl rfl) _
    · exact law.pure _ s
  · refine law.bind law.identifier_keeps fun name => ?_
    exact law.bind (law.after?_keeps _ hi.expr) fun default => law.pure _

theorem params_keeps (law : StepLaw R F) (hi : inner.Keeps R F) : Keeps R F (params inner) := by
  refine law.bind (law.expect_keeps _ rfl) fun _ => ?_
  refine law.bind (law.separatedUntil_keeps _ (law.param_keeps hi)) fun params => ?_
  exact law.bind (law.expect_keeps _ rfl) fun _ => law.pure _

theorem exprsTo_keeps (law : StepLaw R F) (hi : inner.Keeps R F) (close : Punctuation)
    {code : Diagnostic.Code} (hcode : code.isSyntax = true) :
    Keeps R F (exprsTo inner close code) := by
  refine law.bind (law.separatedUntil_keeps _ hi.expr) fun items => ?_
  exact law.bind (law.expect_keeps _ hcode) fun _ => law.pure _

theorem routine_keeps (law : StepLaw R F) (hi : inner.Keeps R F) : Keeps R F (routine inner) := by
  refine law.bind law.advance fun first => ?_
  refine law.bind (law.params_keeps hi) fun params => ?_
  exact law.bind (law.blockToEnd_keeps hi) fun body => law.pure _

theorem base_keeps (law : StepLaw R F) (hi : inner.Keeps R F) : Keeps R F (base inner) := by
  refine law.bind law.identifier_keeps fun name => ?_
  refine law.bind (law.expect_keeps _ rfl) fun _ => ?_
  exact law.bind (law.exprsTo_keeps hi _ rfl) fun args => law.pure _

theorem sectionBody_keeps (law : StepLaw R F) (hi : inner.Keeps R F) (access : Access) :
    Keeps R F (sectionBody inner access) := by
  refine law.bind law.current_keeps fun first => ?_
  exact law.bind (law.block_keeps hi) fun body => law.pure _

theorem sections_keeps (law : StepLaw R F) (hi : inner.Keeps R F) :
    Keeps R F (sections inner) := by
  refine law.bind (law.sectionBody_keeps hi _) fun first => ?_
  refine law.bind (law.many_keeps _ ?_) fun further => law.pure _
  exact law.bind law.advance fun word => law.sectionBody_keeps hi _

theorem classDef_keeps (law : StepLaw R F) (hi : inner.Keeps R F) :
    Keeps R F (classDef inner) := by
  refine law.bind law.advance fun first => ?_
  refine law.bind law.identifier_keeps fun name => ?_
  refine law.bind (law.params_keeps hi) fun params => ?_
  refine law.bind (law.after?_keeps _ (law.base_keeps hi)) fun base => ?_
  have hnames : Keeps R F (separated identifier) := law.separated_keeps law.identifier_keeps
  refine law.bind (law.after?_keeps _ hnames) fun includes => ?_
  refine law.bind (law.sections_keeps hi) fun sections => ?_
  exact law.bind (law.expect_keeps _ rfl) fun _ => law.pure _

theorem package_keeps (law : StepLaw R F) (hi : inner.Keeps R F) : Keeps R F (package inner) := by
  refine law.bind law.advance fun first => ?_
  refine law.bind law.identifier_keeps fun name => ?_
  exact law.bind (law.blockToEnd_keeps hi) fun body => law.pure _

theorem array_keeps (law : StepLaw R F) (hi : inner.Keeps R F) : Keeps R F (array inner) := by
  refine law.bind law.advance fun first => ?_
  exact law.bind (law.exprsTo_keeps hi _ rfl) fun items => law.pure _

theorem pair_keeps (law : StepLaw R F) (hi : inner.Keeps R F) : Keeps R F (pair inner) := by
  refine law.bind hi.expr fun key => ?_
  refine law.bind (law.expect_keeps _ rfl) fun _ => ?_
  exact law.bind hi.expr fun value => law.pure _

theorem hash_keeps (law : StepLaw R F) (hi : inner.Keeps R F) : Keeps R F (hash inner) := by
  refine law.bind law.advance fun first => ?_
  refine law.bind (law.separatedUntil_keeps _ (law.pair_keeps hi)) fun pairs => ?_
  exact law.bind (law.expect_keeps _ rfl) fun _ => law.pure _

theorem paren_keeps (law : StepLaw R F) (hi : inner.Keeps R F) : Keeps R F (paren inner) := by
  refine law.bind law.advance fun first => ?_
  refine law.bind hi.expr fun e => ?_
  exact law.bind (law.expect_keeps _ rfl) fun _ => law.pure _

theorem atom_keeps (law : StepLaw R F) : Keeps R F atom := by
  intro s
  unfold atom
  split
  · exact law.bind law.advance (fun _ => law.pure _) s
  · exact law.fail_keeps rfl s

theorem primary_keeps (law : StepLaw R F) (hi : inner.Keeps R F) : Keeps R F (primary inner) := by
  intro s
  unfold primary
  split
  · exact law.routine_keeps hi s
  · exact law.classDef_keeps hi s
  · exact law.package_keeps hi s
  · exact law.array_keeps hi s
  · exact law.hash_keeps hi s
  · exact law.paren_keeps hi s
  · exact law.atom_keeps s

theorem postfixLink_keeps (law : StepLaw R F) (hi : inner.Keeps R F) (e : Expr) :
    Keeps R F (postfixLink inner e) := by
  refine law.bind law.raise_keeps fun _ => ?_
  refine law.bind law.advance fun mark => ?_
  split
  · exact law.bind (law.exprsTo_keeps hi _ rfl) fun args => law.pure _
  · refine law.bind hi.expr fun index => ?_
    exact law.bind (law.expect_keeps _ rfl) fun _ => law.pure _
  · exact law.bind law.identifier_keeps fun name => law.pure _

theorem postfixed_keeps (law : StepLaw R F) (hi : inner.Keeps R F) :
    Keeps R F (postfixed inner) := by
  refine law.chain_keeps ?_
  exact law.bind (law.primary_keeps hi) fun first =>
    law.links_keeps _ (law.postfixLink_keeps hi) first

theorem unary_keeps (law : StepLaw R F) (hi : inner.Keeps R F) : Keeps R F (unary inner) := by
  intro s
  unfold unary
  split
  · refine law.bind law.advance (fun first => ?_) s
    exact law.bind hi.unary fun operand => law.pure _
  · exact law.postfixed_keeps hi s

theorem binaryLink_keeps (law : StepLaw R F) {least : Level}
    (hright : ∀ level, least.rank ≤ level.rank → Keeps R F (rightOperand inner level))
    (left : Expr) : Keeps R F (binaryLink inner least left) := by
  intro s
  rw [binaryLink]
  split
  · rename_i op level hop
    refine law.bind law.advance (fun _ => ?_) s
    refine law.bind law.raise_keeps fun _ => ?_
    exact law.bind (hright level (binaryOf?_eq_some.1 hop).2.2) fun right => law.pure _
  · exact .ok (law.refl s)

theorem climb_keeps (law : StepLaw R F) (hi : inner.Keeps R F) (least : Level) :
    Keeps R F (climb inner least) := by
  refine climb_induction (P := fun _ p => Keeps R F p) (law.unary_keeps hi)
    (fun least hright => ?_) least
  rw [climb]
  refine law.chain_keeps ?_
  exact law.bind (law.unary_keeps hi) fun first =>
    law.links_keeps _ (law.binaryLink_keeps hright) first

theorem assignment_keeps (law : StepLaw R F) (hi : inner.Keeps R F) :
    Keeps R F (assignment inner) := by
  refine law.bind (law.climb_keeps hi .loosest) fun target s => ?_
  change Kept R F s ((if s.current.kind = .operator .assign then _ else _ : Parser Expr) s)
  split
  · rename_i hnext
    split
    · refine law.bind law.advance (fun _ => ?_) s
      exact law.bind hi.expr fun value => law.pure _
    · exact law.failAt_kept rfl (.inr ⟨rfl, hnext⟩) _
  · exact law.pure _ s

theorem importStmt_keeps (law : StepLaw R F) : Keeps R F importStmt := by
  refine law.bind law.advance fun word => ?_
  refine law.bind law.identifier_keeps fun first => ?_
  refine law.bind (law.many_keeps _ ?_) fun further => law.pure _
  exact law.bind law.advance fun _ => law.identifier_keeps

theorem otherwise_keeps (law : StepLaw R F) (hi : inner.Keeps R F) :
    Keeps R F (otherwise inner) :=
  law.after?_keeps _ (law.block_keeps hi)

theorem elseifBranch_keeps (law : StepLaw R F) (hi : inner.Keeps R F) :
    Keeps R F (elseifBranch inner) := by
  refine law.bind law.advance fun word => ?_
  refine law.bind hi.expr fun test => ?_
  exact law.bind (law.block_keeps hi) fun body => law.pure _

theorem condStmt_keeps (law : StepLaw R F) (hi : inner.Keeps R F) :
    Keeps R F (condStmt inner) := by
  refine law.bind law.advance fun word => ?_
  refine law.bind hi.expr fun test => ?_
  refine law.bind (law.block_keeps hi) fun body => ?_
  refine law.bind (law.many_keeps _ (law.elseifBranch_keeps hi)) fun elseifs => ?_
  refine law.bind (law.otherwise_keeps hi) fun otherwise => ?_
  exact law.bind (law.expect_keeps _ rfl) fun _ => law.pure _

theorem whenClause_keeps (law : StepLaw R F) (hi : inner.Keeps R F) :
    Keeps R F (whenClause inner) := by
  refine law.bind (law.expect_keeps _ rfl) fun word => ?_
  refine law.bind hi.expr fun test => ?_
  refine law.bind (law.expect_keeps _ rfl) fun _ => ?_
  exact law.bind (law.block_keeps hi) fun body => law.pure _

theorem caseStmt_keeps (law : StepLaw R F) (hi : inner.Keeps R F) :
    Keeps R F (caseStmt inner) := by
  refine law.bind law.advance fun word => ?_
  refine law.bind hi.expr fun subject => ?_
  refine law.bind (law.whenClause_keeps hi) fun first => ?_
  refine law.bind (law.many_keeps _ (law.whenClause_keeps hi)) fun further => ?_
  refine law.bind (law.otherwise_keeps hi) fun otherwise => ?_
  exact law.bind (law.expect_keeps _ rfl) fun _ => law.pure _

theorem loopBody_keeps (law : StepLaw R F) (hi : inner.Keeps R F) :
    Keeps R F (loopBody inner) :=
  law.bind (law.expect_keeps _ rfl) fun _ => law.blockToEnd_keeps hi

theorem whileStmt_keeps (law : StepLaw R F) (hi : inner.Keeps R F) :
    Keeps R F (whileStmt inner) := by
  refine law.bind law.advance fun word => ?_
  refine law.bind hi.expr fun test => ?_
  exact law.bind (law.loopBody_keeps hi) fun body => law.pure _

theorem forStmt_keeps (law : StepLaw R F) (hi : inner.Keeps R F) : Keeps R F (forStmt inner) := by
  refine law.bind law.advance fun word => ?_
  refine law.bind hi.expr fun init => ?_
  refine law.bind (law.expect_keeps _ rfl) fun _ => ?_
  refine law.bind hi.expr fun test => ?_
  refine law.bind (law.expect_keeps _ rfl) fun _ => ?_
  refine law.bind hi.expr fun step => ?_
  exact law.bind (law.loopBody_keeps hi) fun body => law.pure _

theorem foreachStmt_keeps (law : StepLaw R F) (hi : inner.Keeps R F) :
    Keeps R F (foreachStmt inner) := by
  refine law.bind law.advance fun word => ?_
  refine law.bind law.identifier_keeps fun item => ?_
  refine law.bind (law.expect_keeps _ rfl) fun _ => ?_
  refine law.bind hi.expr fun collection => ?_
  exact law.bind (law.loopBody_keeps hi) fun body => law.pure _

theorem returnStmt_keeps (law : StepLaw R F) (hi : inner.Keeps R F) :
    Keeps R F (returnStmt inner) := by
  refine law.bind law.advance fun word => ?_
  refine law.bind law.current_keeps fun next => ?_
  split
  · exact law.bind hi.expr fun value => law.pure _
  · exact law.pure _

theorem wordStmt_keeps (law : StepLaw R F) (build : Location → Stmt) :
    Keeps R F (wordStmt build) :=
  law.bind law.advance fun _ => law.pure _

theorem exprStmt_keeps (law : StepLaw R F) (hi : inner.Keeps R F) :
    Keeps R F (exprStmt inner) := by
  refine law.bind law.current_keeps fun first => ?_
  exact law.bind hi.expr fun e => law.pure _

theorem stmt_keeps (law : StepLaw R F) (hi : inner.Keeps R F) :
    Keeps R F (Parser.stmt inner) := by
  intro s
  unfold Parser.stmt
  split
  · exact law.importStmt_keeps s
  · exact law.condStmt_keeps hi s
  · exact law.caseStmt_keeps hi s
  · exact law.whileStmt_keeps hi s
  · exact law.forStmt_keeps hi s
  · exact law.foreachStmt_keeps hi s
  · exact law.wordStmt_keeps _ s
  · exact law.wordStmt_keeps _ s
  · exact law.returnStmt_keeps hi s
  · exact law.exprStmt_keeps hi s

/-- By induction on the levels; with none left only a report is possible. -/
theorem nested_ofLevels (law : StepLaw R F) (levels : Nat) :
    (Nested.ofLevels levels).Keeps R F := by
  induction levels with
  | zero => constructor <;> exact law.fail_keeps rfl
  | succ levels ih =>
    rw [Nested.ofLevels]
    constructor <;> dsimp only
    · exact law.nested_keeps (law.stmt_keeps ih)
    · exact law.nested_keeps (law.assignment_keeps ih)
    · exact law.nested_keeps (law.unary_keeps ih)

/-- A whole unit keeps what each step keeps. -/
theorem unit_keeps (law : StepLaw R F) : Keeps R F Parser.unit := by
  refine law.bind law.advance fun _ => ?_
  refine law.bind (law.block_keeps (law.nested_ofLevels _)) fun body => ?_
  refine law.bind law.current_keeps fun next => ?_
  split
  · exact law.pure _
  · exact law.fail_keeps rfl

end Parser.StepLaw

namespace Parser

variable {α : Type} {s s' : State}

theorem advance_sameCounters : Keeps SameCounters SameCounters advance := by
  intro s
  obtain ⟨current, ⟨items, size, hsize⟩, news, depth, level, peak⟩ := s
  cases items with
  | nil => exact .ok ⟨rfl, rfl, rfl⟩
  | cons r rest =>
    cases ht : r.token with
    | none =>
      simp only [advance, ht]
      exact .error ⟨rfl, rfl, rfl⟩
    | some token =>
      simp only [advance, ht]
      exact .ok ⟨rfl, rfl, rfl⟩

/-- Every step of a parser that succeeds keeps the depth. -/
theorem stepLaw_depth : StepLaw (fun s s' => s'.depth = s.depth) (fun _ _ => True) where
  refl _ := rfl
  trans h h' := h'.trans h
  stop _ _ := trivial
  advance s := by
    have hkept := advance_sameCounters s
    generalize Parser.advance s = run at hkept ⊢
    cases hkept with
    | ok h => exact .ok h.depth_eq
    | error h => exact .error trivial
  report _ _ _ _ _ _ := trivial
  leave _ _ h := congrArg (· - 1) h
  leave_stop _ _ _ := trivial
  close h := h
  close_stop _ := trivial
  raise _ _ := rfl

theorem depth_eq_of_keeps {p : Parser α} {a : α}
    (h : Keeps (fun s s' => s'.depth = s.depth) (fun _ _ => True) p) (hrun : p s = .ok a s') :
    s'.depth = s.depth := by
  have hkept := h s
  rw [hrun] at hkept
  exact hkept.of_ok

end Parser

end LarkCheck
