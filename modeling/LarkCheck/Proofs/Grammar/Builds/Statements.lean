import LarkCheck.Grammar.Statement
import LarkCheck.Proofs.Grammar.Builds.Operators

/-!
# What the productions of statements build

Words stand between the parts of most statements. Where there is none, the first
token of what follows tells that the part before has ended, and for `return` the
line on which it stands.
-/

namespace LarkCheck

open Token LarkCheck.Parser Piece

namespace Parser

variable {inner : Nested} {d : Nat} {s : State} {rest : List Piece}

theorem import_builds {loc : Location} {path : List String} (hpath : path ≠ [])
    (hdot : headKind rest ≠ .punctuation .dot)
    (hs : Faces d s ((Stmt.importPath loc path).pieces ++ rest)) :
    Gives s .zero (fun y => y.erase = (Stmt.importPath loc path).erase) d rest (importStmt s) := by
  obtain ⟨text, path, rfl⟩ := List.exists_cons_of_ne_nil hpath
  obtain ⟨names, rfl⟩ : ∃ names : List Name, names.map (·.text) = path :=
    ⟨path.map (⟨.start, ·⟩), by simp [Function.comp_def]⟩
  refine (advance_gives hs).read fun first s₁ _ hs₁ => ?_
  refine (identifier_gives hs₁).read fun n s₂ hn hs₂ => ?_
  have further : Gives s₂ .zero (fun ms => ms.map (·.text) = names.map (·.text)) d rest
      (many (·.isAt (.punctuation .dot)) (do let _ ← advance; identifier) s₂) := by
    refine manyAt_gives listed_path hdot (fun m _ ms s hs => ?_) hs₂
    exact (advance_gives hs).read fun _ s₁ _ hs₁ => identifier_gives hs₁
  refine further.last fun ms hms => ?_
  simp only [Stmt.erase, List.map_cons, hn, hms]

theorem otherwise_builds (hi : inner.Builds d) {b : Option Block}
    (h : AllCanonical (Block.optionNodes b)) (hapart : ∀ b' ∈ b, b'.Apart)
    (hs : Faces d s (Block.elsePieces b ++ word .endKw :: rest)) :
    Gives s (Block.slotWeight b) (fun b' => Block.eraseSlot b' = Block.eraseSlot b) d
      (word .endKw :: rest) (otherwise inner s) := by
  cases b with
  | none =>
    refine (after?_gives_none hs (by simp [Block.elsePieces])).imp ?_
    rintro _ rfl
    rfl
  | some b =>
    have hend : EndsBlock (word .endKw :: rest) := rfl
    refine (after?_gives_some (block_builds hi h (hapart b rfl)) hs hend).imp ?_
    rintro _ ⟨b', rfl, hb'⟩
    simp only [Block.eraseSlot, hb']

theorem headKind_elsePieces_ne {b : Option Block} {kw : Keyword}
    (h : kw ≠ .elseKw ∧ kw ≠ .endKw) :
    headKind (Block.elsePieces b ++ word .endKw :: rest) ≠ .keyword kw := by
  cases b <;> simp [Block.elsePieces, h.1.symm, h.2.symm]

theorem endsBlock_elsePieces (b : Option Block) :
    EndsBlock (Block.elsePieces b ++ word .endKw :: rest) := by
  cases b <;> rfl

theorem endsBlock_elseifPieces (bs : List Branch) (hrest : EndsBlock rest) :
    EndsBlock (Branch.elseifPieces bs ++ rest) := by
  cases bs with
  | nil => exact hrest
  | cons b bs =>
    cases b
    rfl

theorem endsBlock_whenPieces (bs : List Branch) (hrest : EndsBlock rest) :
    EndsBlock (Branch.whenPieces bs ++ rest) := by
  cases bs with
  | nil => exact hrest
  | cons b bs =>
    cases b
    rfl

/-- The expression is there, as a canonical tree has it. -/
def Given (slot : Option Expr) : Prop :=
  ∃ e, slot = some e ∧ AllCanonical e.nodes

theorem given_of_isSome {slot : Option Expr} (hfilled : slot.isSome = true)
    (h : AllCanonical (Expr.optionNodes slot)) : Given slot := by
  obtain ⟨e, rfl⟩ := Option.isSome_iff_exists.1 hfilled
  exact ⟨e, rfl, h⟩

theorem branches_of_filled {bs : List Branch} (hfilled : ∀ b ∈ bs, b.Filled)
    (h : AllCanonical (Branch.listNodes bs))
    (hapart : ∀ body ∈ bs.filterMap (·.body), body.Apart) :
    ∀ b ∈ bs, Given b.test ∧ Placed b.body := by
  intro b hb
  have hnodes := fun n hn => h n (Branch.mem_listNodes.2 ⟨b, hb, hn⟩)
  refine ⟨given_of_isSome (hfilled b hb).1 fun n hn => hnodes n (.inl hn),
    placed_of_isSome (hfilled b hb).2 (fun n hn => hnodes n (.inr hn)) fun body hbody => ?_⟩
  exact hapart body (List.mem_filterMap.2 ⟨b, hb, hbody⟩)

/-- A block that follows a test without a word between, where the test ends. -/
theorem ends_block {b : Block} (h : AllCanonical b.nodes) (hjoins : b.joins = false)
    (hrest : EndsBlock rest) : Ends (b.pieces ++ rest) := by
  obtain ⟨loc, xs⟩ := b
  exact ends_listPieces (AllCanonical.grammatical h) hjoins hrest.ends

theorem elseif_builds (hi : inner.Builds d) {b : Branch} (htest : Given b.test)
    (hbody : Placed b.body) (hjoins : ∀ body ∈ b.body, body.joins = false)
    (hrest : EndsBlock rest)
    (hs : Faces d s (word .elseifKw :: (Expr.slotPieces b.test ++
      (Block.slotPieces b.body ++ rest)))) :
    Gives s b.weight (fun b' => b'.erase = b.erase) d rest (elseifBranch inner s) := by
  obtain ⟨loc, test, body⟩ := b
  obtain ⟨e, rfl, he⟩ := htest
  obtain ⟨b, rfl, hb, hapart⟩ := hbody
  refine (advance_gives hs).read fun first s₁ _ hs₁ => ?_
  refine (hi.expr e he s₁ _ hs₁ (ends_block hb (hjoins b rfl) hrest)).bind fun e' s₂ he' hs₂ => ?_
  refine (block_builds hi hb hapart s₂ rest hs₂ hrest).last fun b' hb' => ?_
  simp only [Branch.erase, Expr.eraseSlot, Block.eraseSlot, he', hb']

theorem when_builds (hi : inner.Builds d) {b : Branch} (htest : Given b.test)
    (hbody : Placed b.body) (hrest : EndsBlock rest)
    (hs : Faces d s (word .whenKw :: (Expr.slotPieces b.test ++
      word .thenKw :: (Block.slotPieces b.body ++ rest)))) :
    Gives s b.weight (fun b' => b'.erase = b.erase) d rest (whenClause inner s) := by
  obtain ⟨loc, test, body⟩ := b
  obtain ⟨e, rfl, he⟩ := htest
  obtain ⟨b, rfl, hb, hapart⟩ := hbody
  refine (expect_gives hs).read fun first s₁ _ hs₁ => ?_
  refine (hi.expr e he s₁ _ hs₁ (ends_word _)).bind fun e' s₂ he' hs₂ => ?_
  refine (expect_gives hs₂).read fun _ s₃ _ hs₃ => ?_
  refine (block_builds hi hb hapart s₃ rest hs₃ hrest).last fun b' hb' => ?_
  simp only [Branch.erase, Expr.eraseSlot, Block.eraseSlot, he', hb']

theorem cond_builds (hi : inner.Builds d) {loc : Location} {test : Option Expr}
    {body otherwise : Option Block} {elseifs : List Branch}
    (h : AllCanonical (Stmt.cond loc test body elseifs otherwise).nodes)
    (hs : Faces d s ((Stmt.cond loc test body elseifs otherwise).pieces ++ rest)) :
    Gives s (Stmt.cond loc test body elseifs otherwise).weight
      (fun y => y.erase = (Stmt.cond loc test body elseifs otherwise).erase) d rest
      (condStmt inner s) := by
  obtain ⟨⟨⟨htest, hbody, hfilled⟩, hapart, hjoins⟩, h⟩ := AllNodes.cons_iff.1 h
  obtain ⟨hte, h⟩ := AllNodes.append_iff.1 h
  obtain ⟨hbo, h⟩ := AllNodes.append_iff.1 h
  obtain ⟨hel, hot⟩ := AllNodes.append_iff.1 h
  simp only [Node.blocks, Node.tested, List.mem_append, Option.mem_toList] at hapart hjoins
  obtain ⟨e, rfl, he⟩ := given_of_isSome htest hte
  obtain ⟨b, rfl, hb, hap⟩ := placed_of_isSome hbody hbo fun b hb => hapart b (.inl hb)
  have branches := branches_of_filled hfilled hel fun b hb => hapart b (.inr (.inl hb))
  have hother : EndsBlock (Block.elsePieces otherwise ++ word .endKw :: rest) :=
    endsBlock_elsePieces otherwise
  have hend := endsBlock_elseifPieces elseifs hother
  simp only [Stmt.pieces, Expr.slotPieces, Block.slotPieces, List.cons_append, List.append_assoc,
    List.nil_append] at hs
  refine (advance_gives hs).read fun first s₁ _ hs₁ => ?_
  refine (hi.expr e he s₁ _ hs₁ (ends_block hb (hjoins b (.inl rfl)) hend)).bind
    fun e' s₂ he' hs₂ => ?_
  refine (block_builds hi hb hap s₂ _ hs₂ hend).bind fun b' s₃ hb' hs₃ => ?_
  have further : Gives s₃ (Branch.listWeight elseifs)
      (fun bs => bs.map Branch.erase = elseifs.map Branch.erase) d
      (Block.elsePieces otherwise ++ word .endKw :: rest)
      (many (·.isAt (.keyword .elseifKw)) (elseifBranch inner) s₃) := by
    refine manyAt_gives listed_elseifs (headKind_elsePieces_ne (by simp))
      (fun b hb bs s hs => ?_) hs₃
    refine elseif_builds hi (branches b hb).1 (branches b hb).2 ?_
      (endsBlock_elseifPieces bs hother) (by simpa [word] using hs)
    exact fun body hbody => hjoins body (.inr (List.mem_filterMap.2 ⟨b, hb, hbody⟩))
  refine further.bind fun bs s₄ hbs hs₄ => ?_
  refine (otherwise_builds hi hot (fun b hb => hapart b (.inr (.inr hb))) hs₄).before
    fun o s₅ ho hs₅ => ?_
  refine (expect_gives hs₅).last fun _ _ => ?_
  simp only [Stmt.erase, Expr.eraseSlot, Block.eraseSlot, Branch.eraseList_eq_map, he', hb', hbs,
    ho]

theorem case_builds (hi : inner.Builds d) {loc : Location} {subject : Option Expr}
    {whens : List Branch} {otherwise : Option Block}
    (h : AllCanonical (Stmt.case loc subject whens otherwise).nodes)
    (hs : Faces d s ((Stmt.case loc subject whens otherwise).pieces ++ rest)) :
    Gives s (Stmt.case loc subject whens otherwise).weight
      (fun y => y.erase = (Stmt.case loc subject whens otherwise).erase) d rest
      (caseStmt inner s) := by
  obtain ⟨⟨⟨hsubject, hne, hfilled⟩, hapart, -⟩, h⟩ := AllNodes.cons_iff.1 h
  obtain ⟨hsu, h⟩ := AllNodes.append_iff.1 h
  obtain ⟨hwh, hot⟩ := AllNodes.append_iff.1 h
  simp only [Node.blocks, List.mem_append, Option.mem_toList] at hapart
  obtain ⟨e, rfl, he⟩ := given_of_isSome hsubject hsu
  have branches := branches_of_filled hfilled hwh fun b hb => hapart b (.inl hb)
  obtain ⟨b, bs, rfl⟩ := List.exists_cons_of_ne_nil hne
  have hother : EndsBlock (Block.elsePieces otherwise ++ word .endKw :: rest) :=
    endsBlock_elsePieces otherwise
  simp only [Stmt.pieces, Expr.slotPieces, listed_whens.pieces_cons, List.cons_append,
    List.append_assoc, List.nil_append] at hs
  simp only [Stmt.weight, listed_whens.weight_cons]
  refine (advance_gives hs).read fun first s₁ _ hs₁ => ?_
  refine (hi.expr e he s₁ _ hs₁ (ends_word _)).bind fun e' s₂ he' hs₂ => ?_
  -- The first clause is read apart from the further ones, but weighs as one of their list.
  have first := branches b List.mem_cons_self
  refine Gives.of_eq (v := b.weight.join ((Branch.listWeight bs).join (Block.slotWeight otherwise)))
    ?_ (by simp [Nat.max_assoc]) (by simp [Nat.max_assoc])
  refine (when_builds hi first.1 first.2 (endsBlock_whenPieces bs hother) (by simpa using hs₂)).bind
    fun b' s₃ hb' hs₃ => ?_
  have further : Gives s₃ (Branch.listWeight bs)
      (fun cs => cs.map Branch.erase = bs.map Branch.erase) d
      (Block.elsePieces otherwise ++ word .endKw :: rest)
      (many (·.isAt (.keyword .whenKw)) (whenClause inner) s₃) := by
    refine manyAt_gives listed_whens (headKind_elsePieces_ne (by simp))
      (fun c hc cs s hs => ?_) hs₃
    have hc := branches c (List.mem_cons_of_mem b hc)
    exact when_builds hi hc.1 hc.2 (endsBlock_whenPieces cs hother) (by simpa [word] using hs)
  refine further.bind fun cs s₄ hcs hs₄ => ?_
  refine (otherwise_builds hi hot (fun b hb => hapart b (.inr hb)) hs₄).before
    fun o s₅ ho hs₅ => ?_
  refine (expect_gives hs₅).last fun _ _ => ?_
  simp only [Stmt.erase, Expr.eraseSlot, Branch.eraseList_eq_map, List.map_cons, he', hb', hcs, ho]

theorem loopBody_builds (hi : inner.Builds d) {b : Block} (h : AllCanonical b.nodes)
    (hapart : b.Apart) (hs : Faces d s (word .doKw :: (b.pieces ++ word .endKw :: rest))) :
    Gives s b.weight (fun b' => b'.erase = b.erase) d rest (loopBody inner s) :=
  (expect_gives hs).read fun _ _ _ hs₁ => blockToEnd_builds hi h hapart hs₁

theorem while_builds (hi : inner.Builds d) {loc : Location} {test : Option Expr}
    {body : Option Block} (h : AllCanonical (Stmt.whileLoop loc test body).nodes)
    (hs : Faces d s ((Stmt.whileLoop loc test body).pieces ++ rest)) :
    Gives s (Stmt.whileLoop loc test body).weight
      (fun y => y.erase = (Stmt.whileLoop loc test body).erase) d rest (whileStmt inner s) := by
  obtain ⟨⟨⟨htest, hbody⟩, hapart, -⟩, h⟩ := AllNodes.cons_iff.1 h
  obtain ⟨hte, hbo⟩ := AllNodes.append_iff.1 h
  simp only [Node.blocks, Option.mem_toList] at hapart
  obtain ⟨e, rfl, he⟩ := given_of_isSome htest hte
  obtain ⟨b, rfl, hb, hap⟩ := placed_of_isSome hbody hbo hapart
  simp only [Stmt.pieces, Expr.slotPieces, Block.slotPieces, List.cons_append, List.append_assoc,
    List.nil_append] at hs
  refine (advance_gives hs).read fun first s₁ _ hs₁ => ?_
  refine (hi.expr e he s₁ _ hs₁ (ends_word _)).bind fun e' s₂ he' hs₂ => ?_
  refine (loopBody_builds hi hb hap hs₂).last fun b' hb' => ?_
  simp only [Stmt.erase, Expr.eraseSlot, Block.eraseSlot, he', hb']

theorem for_builds (hi : inner.Builds d) {loc : Location} {init test step : Option Expr}
    {body : Option Block} (h : AllCanonical (Stmt.forLoop loc init test step body).nodes)
    (hs : Faces d s ((Stmt.forLoop loc init test step body).pieces ++ rest)) :
    Gives s (Stmt.forLoop loc init test step body).weight
      (fun y => y.erase = (Stmt.forLoop loc init test step body).erase) d rest
      (forStmt inner s) := by
  obtain ⟨⟨⟨hinit, htest, hstep, hbody⟩, hapart, -⟩, h⟩ := AllNodes.cons_iff.1 h
  obtain ⟨hin, h⟩ := AllNodes.append_iff.1 h
  obtain ⟨hte, h⟩ := AllNodes.append_iff.1 h
  obtain ⟨hst, hbo⟩ := AllNodes.append_iff.1 h
  simp only [Node.blocks, Option.mem_toList] at hapart
  obtain ⟨i, rfl, hi'⟩ := given_of_isSome hinit hin
  obtain ⟨t, rfl, ht⟩ := given_of_isSome htest hte
  obtain ⟨e, rfl, he⟩ := given_of_isSome hstep hst
  obtain ⟨b, rfl, hb, hap⟩ := placed_of_isSome hbody hbo hapart
  simp only [Stmt.pieces, Expr.slotPieces, Block.slotPieces, List.cons_append, List.append_assoc,
    List.nil_append] at hs
  refine (advance_gives hs).read fun first s₁ _ hs₁ => ?_
  refine (hi.expr i hi' s₁ _ hs₁ (ends_mark (by simp))).bind fun i' s₂ hi' hs₂ => ?_
  refine (expect_gives hs₂).read fun _ s₃ _ hs₃ => ?_
  refine (hi.expr t ht s₃ _ hs₃ (ends_mark (by simp))).bind fun t' s₄ ht' hs₄ => ?_
  refine (expect_gives hs₄).read fun _ s₅ _ hs₅ => ?_
  refine (hi.expr e he s₅ _ hs₅ (ends_word _)).bind fun e' s₆ he' hs₆ => ?_
  refine (loopBody_builds hi hb hap hs₆).last fun b' hb' => ?_
  simp only [Stmt.erase, Expr.eraseSlot, Block.eraseSlot, hi', ht', he', hb']

theorem foreach_builds (hi : inner.Builds d) {loc : Location} {item : Name}
    {collection : Option Expr} {body : Option Block}
    (h : AllCanonical (Stmt.foreachLoop loc item collection body).nodes)
    (hs : Faces d s ((Stmt.foreachLoop loc item collection body).pieces ++ rest)) :
    Gives s (Stmt.foreachLoop loc item collection body).weight
      (fun y => y.erase = (Stmt.foreachLoop loc item collection body).erase) d rest
      (foreachStmt inner s) := by
  obtain ⟨⟨⟨hcollection, hbody⟩, hapart, -⟩, h⟩ := AllNodes.cons_iff.1 h
  obtain ⟨hco, hbo⟩ := AllNodes.append_iff.1 h
  simp only [Node.blocks, Option.mem_toList] at hapart
  obtain ⟨e, rfl, he⟩ := given_of_isSome hcollection hco
  obtain ⟨b, rfl, hb, hap⟩ := placed_of_isSome hbody hbo hapart
  simp only [Stmt.pieces, Expr.slotPieces, Block.slotPieces, List.cons_append, List.append_assoc,
    List.nil_append] at hs
  refine (advance_gives hs).read fun first s₁ _ hs₁ => ?_
  refine (identifier_gives hs₁).read fun n s₂ hn hs₂ => ?_
  refine (expect_gives hs₂).read fun _ s₃ _ hs₃ => ?_
  refine (hi.expr e he s₃ _ hs₃ (ends_word _)).bind fun e' s₄ he' hs₄ => ?_
  refine (loopBody_builds hi hb hap hs₄).last fun b' hb' => ?_
  simp only [Stmt.erase, Name.erase, Expr.eraseSlot, Block.eraseSlot, hn, he', hb']

/-- A value that begins on the line of its word is read. -/
theorem returnSome_builds (hi : inner.Builds d) {loc : Location} {e : Expr}
    (h : AllCanonical e.nodes) (hrest : Ends rest)
    (hs : Faces d s ((Stmt.returnValue loc (some e)).pieces ++ rest)) :
    Gives s e.weight.deeper (fun y => y.erase = (Stmt.returnValue loc (some e)).erase) d rest
      (returnStmt inner s) := by
  obtain ⟨p, ps, heq, hp, -⟩ := e.head_pieces h.grammatical
  simp only [Stmt.pieces, List.cons_append] at hs
  refine advance_bind_gives hs fun s₁ hs₁ hline => ?_
  refine (current_gives hs₁).read fun next s₂ hnext hs₂ => ?_
  subst hnext
  have hstart : s₁.current.kind.startsExpression = true := by
    rw [hs₁.kind_eq, heq]
    exact hp
  have hsame : s₁.current.loc.line = s.current.loc.line := by
    rw [heq] at hline
    exact (hline _ rfl).symm
  rw [if_pos (by simp [hstart, hsame])]
  refine (hi.expr e h s₂ rest (Faces.lead_iff.1 hs₂) hrest).last fun e' he' => ?_
  simp only [Stmt.erase, Expr.eraseSlot, he']

/-- What begins an expression on a later line is not the value. -/
theorem returnNone_builds {loc : Location}
    (hrest : ∀ p ∈ rest.head?, p.spacing = .line ∨ p.kind.startsExpression = false)
    (hs : Faces d s ((Stmt.returnValue loc none).pieces ++ rest)) :
    Gives s .zero (fun y => y.erase = (Stmt.returnValue loc none).erase) d rest
      (returnStmt inner s) := by
  simp only [Stmt.pieces, List.cons_append, List.nil_append] at hs
  refine advance_bind_gives hs fun s₁ hs₁ hline => ?_
  refine (current_gives hs₁).read fun next s₂ hnext hs₂ => ?_
  subst hnext
  have hnot : ¬ (s₁.current.kind.startsExpression = true ∧
      s₁.current.loc.line = s.current.loc.line) := by
    rintro ⟨hstart, hsame⟩
    rw [hs₁.kind_eq] at hstart
    cases rest with
    | nil => cases hstart
    | cons p ps =>
      obtain hp | hp := hrest p rfl
      · have hlt := hline p rfl
        rw [hp] at hlt
        exact Nat.lt_irrefl _ (hsame ▸ hlt)
      · rw [headKind_cons, hp] at hstart
        cases hstart
  rw [if_neg (by simpa using hnot)]
  exact gives_pure hs₂ rfl

theorem word_builds {kw : Keyword} {build : Location → Stmt} {x : Stmt}
    (hx : ∀ loc, (build loc).erase = x.erase) (hs : Faces d s (word kw :: rest)) :
    Gives s .zero (fun y => y.erase = x.erase) d rest (wordStmt build s) :=
  (advance_gives hs).last fun _ _ => hx _

theorem exprStmt_builds (hi : inner.Builds d) {loc : Location} {e : Expr}
    (h : AllCanonical e.nodes) (hrest : Ends rest) (hs : Faces d s (e.pieces ++ rest)) :
    Gives s e.weight.deeper (fun y => y.erase = (Stmt.expr loc (some e)).erase) d rest
      (exprStmt inner s) := by
  refine (current_gives hs).read fun first s₁ _ hs₁ => ?_
  refine (hi.expr e h s₁ rest hs₁ hrest).last fun e' he' => ?_
  simp only [Stmt.erase, Expr.eraseSlot, he']

/-- Words that begin statements begin no expressions. -/
theorem stmt_eq_exprStmt (h : s.current.kind.startsExpression = true) :
    Parser.stmt inner s = exprStmt inner s := by
  unfold Parser.stmt
  cases hk : s.current.kind with
  | keyword kw =>
    rw [hk] at h
    cases kw <;> first | rfl | cases h
  | _ => rfl

theorem stmt_builds (hi : inner.Builds d) {x : Stmt} (h : AllCanonical x.nodes) :
    Builds (Parser.stmt inner) d x.pieces x.weight x.Ends fun y => y.erase = x.erase := by
  intro s rest hs hrest
  by_cases hexpr : ∃ loc e, x = .expr loc e
  · obtain ⟨loc, e, rfl⟩ := hexpr
    obtain ⟨⟨hfilled, -, -⟩, h⟩ := AllNodes.cons_iff.1 h
    obtain ⟨e, rfl, he⟩ := given_of_isSome hfilled h
    have hstart : s.current.kind.startsExpression = true := by
      obtain ⟨p, ps, heq, hp, -⟩ := e.head_pieces he.grammatical
      rw [hs.kind_eq, Stmt.pieces, Expr.slotPieces, heq]
      exact hp
    rw [stmt_eq_exprStmt hstart]
    exact exprStmt_builds hi he (hrest.expr rfl) hs
  · unfold Parser.stmt
    rw [hs.kind_eq]
    cases x with
    | importPath loc path =>
      obtain ⟨⟨hpath, -, -⟩, -⟩ := AllNodes.cons_iff.1 h
      exact import_builds hpath hrest.dot hs
    | expr loc e => exact absurd ⟨loc, e, rfl⟩ hexpr
    | cond => exact cond_builds hi h hs
    | case => exact case_builds hi h hs
    | whileLoop => exact while_builds hi h hs
    | forLoop => exact for_builds hi h hs
    | foreachLoop => exact foreach_builds hi h hs
    | breakLoop loc => exact word_builds (fun _ => rfl) hs
    | nextRound loc => exact word_builds (fun _ => rfl) hs
    | returnValue loc value =>
      cases value with
      | none => exact returnNone_builds hrest.apart hs
      | some e => exact returnSome_builds hi (AllNodes.cons_iff.1 h).2 (hrest.expr rfl) hs

end Parser

/-- With as many levels left as the guard of nesting lets through, the nesting productions build
all that fits. -/
theorem Nested.builds_ofLevels (levels d : Nat) (hd : d + levels = maxNesting) :
    (Nested.ofLevels levels).Builds d := by
  induction levels generalizing d with
  | zero =>
    have stops : ∀ {α : Type} {ps : List Piece} {w : Weight} {follow : List Piece → Prop}
        {same : α → Prop}, Parser.Builds (fail .nestingTooDeep : Parser α) d ps w.deeper follow
          same := by
      intro α ps w follow same s rest hs _
      obtain ⟨e, s', hrun, hdeep⟩ := @fail_tooDeep α _ hs.news_eq
      refine .inl ⟨e, s', hrun, hdeep, fun hfits => ?_⟩
      have := hs.depth_eq
      simp only [Fits, Weight.nest_deeper] at hfits
      omega
    exact ⟨fun _ _ => stops, fun _ _ => stops, fun _ _ _ _ => stops⟩
  | succ levels ih =>
    have hi := ih (d + 1) (by omega)
    rw [Nested.ofLevels]
    constructor <;> dsimp only
    · exact fun x h => nested_builds (stmt_builds hi h)
    · exact fun e h => nested_builds (assignment_builds hi h)
    · exact fun e h hassign hlevel => nested_builds (unary_builds hi h hassign hlevel)

end LarkCheck
