import LarkCheck.Proofs.Grammar.Success
import LarkCheck.Proofs.Tree.Children
import LarkCheck.Proofs.Tree.Shape

/-!
# The nodes of a parsed tree

Every node of an accepted text's tree has the shape that the grammar asks for. The
loop that reads the binary operators carries the argument: what it has read so far
can be the left operand of the operator in front of it, and where it ends no operator
stands in front that binds as tightly as those of the chain. A right operand is such
a chain, from the next tighter level on.
-/

namespace LarkCheck

open Token LarkCheck.Parser

/-- Nodes that all have the shape of the grammar. -/
abbrev AllGrammatical : List Node → Prop := AllNodes Node.Grammatical

namespace Parser

variable {α β : Type}

/-- The run went on from `s`, and the readings lead to the end of the file where it ended. -/
structure Onward (s s' : State) : Prop where
  synced : s'.Synced
  size_le : s'.ahead.size ≤ s.ahead.size

theorem Onward.refl {s : State} (hs : s.Synced) : Onward s s :=
  ⟨hs, Nat.le_refl _⟩

theorem Onward.trans {s s₁ s₂ : State} (h : Onward s s₁) (h' : Onward s₁ s₂) : Onward s s₂ :=
  ⟨h'.synced, Nat.le_trans h'.size_le h.size_le⟩

/-- The parser goes on wherever it succeeds, and what it gives satisfies `P`. -/
def Ensures (p : Parser α) (P : α → Prop) : Prop :=
  ∀ s a s', s.Synced → p s = .ok a s' → Onward s s' ∧ P a

namespace Ensures

variable {p : Parser α} {P : α → Prop}

theorem pure {a : α} (h : P a) : Ensures (Pure.pure a) P := by
  intro s b s' hs hrun
  obtain ⟨rfl, rfl⟩ := pure_eq_ok.1 hrun
  exact ⟨.refl hs, h⟩

theorem bind {f : α → Parser β} {Q : β → Prop} (hp : Ensures p P)
    (hf : ∀ a, P a → Ensures (f a) Q) : Ensures (p >>= f) Q := by
  intro s b s' hs h
  obtain ⟨a, s₁, h₁, h⟩ := bind_eq_ok.1 h
  obtain ⟨ho, ha⟩ := hp _ _ _ hs h₁
  obtain ⟨ho', hb⟩ := hf a ha _ _ _ ho.synced h
  exact ⟨ho.trans ho', hb⟩

theorem mono {Q : α → Prop} (hp : Ensures p P) (hPQ : ∀ a, P a → Q a) : Ensures p Q :=
  fun s a s' hs h => (hp s a s' hs h).imp_right (hPQ a)

theorem many (hp : Ensures p P) (more : State → Bool) :
    Ensures (Parser.many more p) fun as => ∀ a ∈ as, P a := by
  intro s as s' hs h
  fun_induction Parser.many more p s generalizing as s' with
  | case1 s _ a s₁ ha _ rest s₂ hrest ih =>
    cases h
    obtain ⟨ho, hP⟩ := hp _ _ _ hs ha
    obtain ⟨ho', hrest⟩ := ih _ _ ho.synced hrest
    exact ⟨ho.trans ho', List.forall_mem_cons.2 ⟨hP, hrest⟩⟩
  | case2 => cases h
  | case3 s _ a s₁ ha =>
    cases h
    simpa using hp _ _ _ hs ha
  | case4 => cases h
  | case5 =>
    cases h
    exact ⟨.refl hs, by simp⟩

theorem links {link : α → Parser α} (hlink : ∀ a, P a → Ensures (link a) P)
    (more : State → Bool) {a : α} (ha : P a) : Ensures (Parser.links more link a) P := by
  intro s b s' hs h
  refine links_keeps (I := fun b s' => Onward s s' ∧ P b) (fun a b s₁ s₂ hI _ h => ?_)
    ⟨.refl hs, ha⟩ h
  obtain ⟨ho, hb⟩ := hlink a hI.2 _ _ _ hI.1.synced h
  exact ⟨hI.1.trans ho, hb⟩

theorem nested (hp : Ensures p P) : Ensures (Parser.nested p) P := by
  intro s a s' hs h
  obtain ⟨-, s₁, hrun, rfl⟩ := nested_eq_ok h
  obtain ⟨ho, ha⟩ := hp s.enter _ _ hs hrun
  exact ⟨⟨ho.synced, ho.size_le⟩, ha⟩

theorem chain (hp : Ensures p P) : Ensures (Parser.chain p) P := by
  intro s a s' hs h
  obtain ⟨s₁, hrun, rfl⟩ := chain_eq_ok h
  obtain ⟨ho, ha⟩ := hp { s with peak := s.level } _ _ hs hrun
  exact ⟨⟨ho.synced, ho.size_le⟩, ha⟩

end Ensures

theorem current_ensures : Ensures current fun _ => True := by
  intro s t s' hs h
  cases h
  exact ⟨.refl hs, trivial⟩

/-- Away from the end of the file a token is taken, so there are fewer readings ahead. -/
theorem advance_size_lt {s s' : State} {t : Token} (hs : s.Synced) (hne : s.current.kind ≠ .eof)
    (h : advance s = .ok t s') : s'.ahead.size < s.ahead.size := by
  obtain ⟨-, -, -, r, hitems, -⟩ := advance_reading hs hne h
  rw [s.ahead.size_eq, s'.ahead.size_eq, hitems]
  exact Nat.lt_succ_self _

theorem advance_ensures : Ensures advance fun _ => True := by
  intro s t s' hs h
  by_cases heof : s.current.kind = .eof
  · rw [advance_eof hs heof] at h
    cases h
    exact ⟨.refl hs, trivial⟩
  · exact ⟨⟨(advance_reading hs heof h).2.1, Nat.le_of_lt (advance_size_lt hs heof h)⟩, trivial⟩

theorem expect_ensures (kind : Kind) (code : Diagnostic.Code) :
    Ensures (expect kind code) fun _ => True := by
  intro s t s' hs h
  unfold expect at h
  split at h
  · exact advance_ensures _ _ _ hs h
  · exact absurd h fail_ne_ok

theorem identifier_ensures : Ensures identifier fun _ => True := by
  intro s name s' hs h
  unfold identifier at h
  split at h
  · rename_i text _
    have named : Ensures (do let token ← advance; return Name.mk token.loc text) fun _ => True :=
      advance_ensures.bind fun _ _ => .pure trivial
    exact named _ _ _ hs h
  · exact absurd h fail_ne_ok

theorem raise_ensures : Ensures raise fun _ => True := by
  intro s u s' hs h
  obtain ⟨-, rfl⟩ := raise_eq_ok h
  exact ⟨⟨hs, Nat.le_refl _⟩, trivial⟩

theorem after?_ensures {kind : Kind} {p : Parser α} {P : α → Prop} (hp : Ensures p P) :
    Ensures (after? kind p) fun o => ∀ a, o = some a → P a := by
  intro s o s' hs h
  unfold after? at h
  split at h
  · have hsome : Ensures (some <$> p) fun o => ∀ a, o = some a → P a :=
      hp.bind fun a ha => .pure fun _ h => Option.some.inj h ▸ ha
    exact advance_ensures.bind (fun _ _ => hsome) _ _ _ hs h
  · cases h
    exact ⟨.refl hs, nofun⟩

theorem separated_ensures {item : Parser α} {P : α → Prop} (hp : Ensures item P) :
    Ensures (separated item) fun as => ∀ a ∈ as, P a := by
  have further : Ensures (do let _ ← advance; item) P := advance_ensures.bind fun _ _ => hp
  exact hp.bind fun first hfirst => (further.many _).bind fun rest hrest =>
    .pure (List.forall_mem_cons.2 ⟨hfirst, hrest⟩)

theorem separatedUntil_ensures {item : Parser α} {P : α → Prop} (hp : Ensures item P)
    (close : Punctuation) : Ensures (separatedUntil close item) fun as => ∀ a ∈ as, P a := by
  intro s as s' hs h
  unfold separatedUntil at h
  split at h
  · cases h
    exact ⟨.refl hs, by simp⟩
  · exact separated_ensures hp _ _ _ hs h

end Parser

/-- The nesting productions give nodes of the grammar, and an operand that is neither binary nor an
assignment. -/
structure Nested.Ensures (inner : Nested) : Prop where
  stmt : Parser.Ensures inner.stmt fun x => AllGrammatical x.nodes
  expr : Parser.Ensures inner.expr fun e => AllGrammatical e.nodes
  unary : Parser.Ensures inner.unary fun e =>
    AllGrammatical e.nodes ∧ e.isAssignment = false ∧ e.level? = none

namespace Parser

variable {inner : Nested}

theorem block_ensures (hi : inner.Ensures) :
    Ensures (block inner) fun b => AllGrammatical b.nodes :=
  current_ensures.bind fun _ _ => (hi.stmt.many _).bind fun stmts hstmts => .pure fun n hn => by
    obtain ⟨x, hx, hn⟩ := Stmt.mem_listNodes.1 hn
    exact hstmts x hx n hn

theorem blockToEnd_ensures (hi : inner.Ensures) :
    Ensures (blockToEnd inner) fun b => AllGrammatical b.nodes :=
  (block_ensures hi).bind fun _ hbody => (expect_ensures _ _).bind fun _ _ => .pure hbody

theorem outputParam_ensures (loc : Location) :
    Ensures (outputParam loc) fun p => AllGrammatical p.nodes := by
  refine advance_ensures.bind fun _ _ => identifier_ensures.bind fun name _ =>
    current_ensures.bind fun next _ => ?_
  split
  · exact fun _ _ _ _ h => by cases h
  · exact .pure AllNodes.nil

theorem valueParam_ensures (hi : inner.Ensures) (loc : Location) :
    Ensures (valueParam inner loc) fun p => AllGrammatical p.nodes := by
  refine identifier_ensures.bind fun name _ => (after?_ensures hi.expr).bind fun default h => ?_
  refine .pure ?_
  cases default with
  | none => exact AllNodes.nil
  | some e => exact h e rfl

theorem param_ensures (hi : inner.Ensures) :
    Ensures (param inner) fun p => AllGrammatical p.nodes := by
  refine current_ensures.bind fun first _ => ?_
  split
  · exact outputParam_ensures _
  · exact valueParam_ensures hi _

theorem params_ensures (hi : inner.Ensures) :
    Ensures (params inner) fun ps => AllGrammatical (Param.listNodes ps) :=
  (expect_ensures _ _).bind fun _ _ => (separatedUntil_ensures (param_ensures hi) _).bind
    fun ps hps => (expect_ensures _ _).bind fun _ _ => .pure fun n hn => by
      obtain ⟨p, hp, hn⟩ := Param.mem_listNodes.1 hn
      exact hps p hp n hn

theorem exprsTo_ensures (hi : inner.Ensures) (close : Punctuation) (code : Diagnostic.Code) :
    Ensures (exprsTo inner close code) fun es => AllGrammatical (Expr.listNodes es) :=
  (separatedUntil_ensures hi.expr _).bind fun es hes => (expect_ensures _ _).bind fun _ _ =>
    .pure fun n hn => by
      obtain ⟨e, he, hn⟩ := Expr.mem_listNodes.1 hn
      exact hes e he n hn

/-- What holds of everything that can stand at the bottom of a postfix chain. -/
def IsOperand (e : Expr) : Prop := AllGrammatical e.nodes ∧ e.isPostfix = true

theorem routine_ensures (hi : inner.Ensures) : Ensures (routine inner) IsOperand := by
  refine advance_ensures.bind fun first _ => (params_ensures hi).bind fun ps hps =>
    (blockToEnd_ensures hi).bind fun body hbody => .pure ⟨?_, rfl⟩
  simp [Expr.nodes, Block.optionNodes, Node.Grammatical, Expr.Laddered, Expr.Filled, hps, hbody]

theorem base_ensures (hi : inner.Ensures) :
    Ensures (base inner) fun b => AllGrammatical (Expr.listNodes b.args) :=
  identifier_ensures.bind fun _ _ => (expect_ensures _ _).bind fun _ _ =>
    (exprsTo_ensures hi _ _).bind fun _ hargs => .pure hargs

/-- A section has its body, whose nodes are those of the grammar. -/
def IsSection (x : Section) : Prop :=
  x.body.isSome = true ∧ AllGrammatical (Block.optionNodes x.body)

theorem sectionBody_ensures (hi : inner.Ensures) (access : Access) :
    Ensures (sectionBody inner access) fun x => x.access = access ∧ IsSection x :=
  current_ensures.bind fun _ _ => (block_ensures hi).bind fun _ hbody => .pure ⟨rfl, rfl, hbody⟩

theorem sections_ensures (hi : inner.Ensures) : Ensures (sections inner) fun xs =>
    xs.head?.map (·.access) = some .publicPart ∧ ∀ x ∈ xs, IsSection x := by
  have further : Ensures (furtherSection inner) IsSection := advance_ensures.bind fun _ _ =>
    (sectionBody_ensures hi _).mono fun _ hx => hx.2
  refine (sectionBody_ensures hi _).bind fun first hfirst => (further.many _).bind
    fun rest hrest => .pure ⟨?_, List.forall_mem_cons.2 ⟨hfirst.2, hrest⟩⟩
  simp [hfirst.1]

theorem classDef_ensures (hi : inner.Ensures) : Ensures (classDef inner) IsOperand := by
  refine advance_ensures.bind fun first _ => identifier_ensures.bind fun name _ =>
    (params_ensures hi).bind fun ps hps => (after?_ensures (base_ensures hi)).bind fun b hb =>
    (after?_ensures (separated_ensures identifier_ensures)).bind fun names _ =>
    (sections_ensures hi).bind fun xs hxs => (expect_ensures _ _).bind fun _ _ => .pure ⟨?_, rfl⟩
  have hbase : AllGrammatical (Base.optionNodes b) := by
    cases b with
    | none => exact AllNodes.nil
    | some b =>
      obtain ⟨name, args⟩ := b
      exact hb _ rfl
  have hsections : AllGrammatical (Section.listNodes xs) := by
    intro n hn
    obtain ⟨x, hx, hn⟩ := Section.mem_listNodes.1 hn
    exact (hxs.2 x hx).2 n hn
  simp only [Expr.nodes, AllNodes.cons_iff, AllNodes.append_iff]
  exact ⟨⟨trivial, hxs.1, fun x hx => (hxs.2 x hx).1⟩, hbase, hps, hsections⟩

theorem package_ensures (hi : inner.Ensures) : Ensures (package inner) IsOperand := by
  refine advance_ensures.bind fun first _ => identifier_ensures.bind fun name _ =>
    (blockToEnd_ensures hi).bind fun body hbody => .pure ⟨?_, rfl⟩
  simp [Expr.nodes, Block.optionNodes, Node.Grammatical, Expr.Laddered, Expr.Filled, hbody]

theorem array_ensures (hi : inner.Ensures) : Ensures (array inner) IsOperand := by
  refine advance_ensures.bind fun first _ => (exprsTo_ensures hi _ _).bind fun items hitems =>
    .pure ⟨?_, rfl⟩
  simp [Expr.nodes, Node.Grammatical, Expr.Laddered, Expr.Filled, hitems]

/-- A pair has both its sides, whose nodes are those of the grammar. -/
def IsPair (p : Pair) : Prop :=
  (p.key.isSome = true ∧ p.value.isSome = true) ∧
    AllGrammatical (Expr.optionNodes p.key) ∧ AllGrammatical (Expr.optionNodes p.value)

theorem pair_ensures (hi : inner.Ensures) : Ensures (pair inner) IsPair :=
  hi.expr.bind fun _ hkey => (expect_ensures _ _).bind fun _ _ => hi.expr.bind fun _ hvalue =>
    .pure ⟨⟨rfl, rfl⟩, hkey, hvalue⟩

theorem hash_ensures (hi : inner.Ensures) : Ensures (hash inner) IsOperand := by
  refine advance_ensures.bind fun first _ => (separatedUntil_ensures (pair_ensures hi) _).bind
    fun pairs hpairs => (expect_ensures _ _).bind fun _ _ => .pure ⟨?_, rfl⟩
  have hnodes : AllGrammatical (Pair.listNodes pairs) := by
    intro n hn
    obtain ⟨p, hp, hn | hn⟩ := Pair.mem_listNodes.1 hn
    · exact (hpairs p hp).2.1 n hn
    · exact (hpairs p hp).2.2 n hn
  simp only [Expr.nodes, AllNodes.cons_iff]
  exact ⟨⟨trivial, fun p hp => (hpairs p hp).1⟩, hnodes⟩

theorem paren_ensures (hi : inner.Ensures) : Ensures (paren inner) IsOperand := by
  refine advance_ensures.bind fun first _ => hi.expr.bind fun e he =>
    (expect_ensures _ _).bind fun _ _ => .pure ⟨?_, rfl⟩
  simp [Expr.nodes, Expr.optionNodes, Node.Grammatical, Expr.Laddered, Expr.Filled, he]

theorem isOperand_of_atom {loc : Location} {kind : Kind} {e : Expr} (h : atom? loc kind = some e) :
    IsOperand e := by
  unfold atom? at h
  split at h <;> cases h <;>
    exact ⟨by simp [Expr.nodes, Node.Grammatical, Expr.Laddered, Expr.Filled], rfl⟩

theorem atom_ensures : Ensures atom IsOperand := by
  intro s e s' hs h
  unfold atom at h
  split at h
  · rename_i he
    exact advance_ensures.bind (fun _ _ => .pure (isOperand_of_atom he)) _ _ _ hs h
  · exact absurd h fail_ne_ok

theorem primary_ensures (hi : inner.Ensures) : Ensures (primary inner) IsOperand := by
  intro s e s' hs h
  unfold primary at h
  split at h
  · exact routine_ensures hi _ _ _ hs h
  · exact classDef_ensures hi _ _ _ hs h
  · exact package_ensures hi _ _ _ hs h
  · exact array_ensures hi _ _ _ hs h
  · exact hash_ensures hi _ _ _ hs h
  · exact paren_ensures hi _ _ _ hs h
  · exact atom_ensures _ _ _ hs h

theorem postfixLink_ensures (hi : inner.Ensures) {e : Expr} (he : IsOperand e) :
    Ensures (postfixLink inner e) IsOperand := by
  obtain ⟨he, hpost⟩ := he
  refine raise_ensures.bind fun _ _ => advance_ensures.bind fun mark _ => ?_
  split
  · refine (exprsTo_ensures hi _ _).bind fun args hargs => .pure ⟨?_, rfl⟩
    simp [Expr.nodes, Expr.optionNodes, Node.Grammatical, Expr.Laddered, Expr.Filled, he, hpost,
      hargs]
  · refine hi.expr.bind fun index hindex => (expect_ensures _ _).bind fun _ _ => .pure ⟨?_, rfl⟩
    simp [Expr.nodes, Expr.optionNodes, Node.Grammatical, Expr.Laddered, Expr.Filled, he, hpost,
      hindex]
  · refine identifier_ensures.bind fun name _ => .pure ⟨?_, rfl⟩
    simp [Expr.nodes, Expr.optionNodes, Node.Grammatical, Expr.Laddered, Expr.Filled, he, hpost]

theorem postfixed_ensures (hi : inner.Ensures) : Ensures (postfixed inner) IsOperand :=
  .chain <| (primary_ensures hi).bind fun _ hfirst =>
    .links (fun _ he => postfixLink_ensures hi he) _ hfirst

theorem unary_ensures (hi : inner.Ensures) : Ensures (unary inner) fun e =>
    AllGrammatical e.nodes ∧ e.isAssignment = false ∧ e.level? = none := by
  intro s e s' hs h
  unfold unary at h
  split at h
  · rename_i op hop
    have hunary : op.isUnary = true := (Option.filter_eq_some_iff.1 hop).2
    have prefixed : Ensures (do
        let first ← advance
        let operand ← inner.unary
        return Expr.unary first.loc op (some operand)) fun e =>
          AllGrammatical e.nodes ∧ e.isAssignment = false ∧ e.level? = none := by
      refine advance_ensures.bind fun first _ => hi.unary.bind fun operand hoperand => ?_
      obtain ⟨hnodes, hassign, hlevel⟩ := hoperand
      refine .pure ⟨?_, rfl, rfl⟩
      simp [Expr.nodes, Expr.optionNodes, Node.Grammatical, Expr.Laddered, Expr.Filled, hnodes,
        hassign, hlevel, hunary]
    exact prefixed _ _ _ hs h
  · obtain ⟨ho, hnodes, hpost⟩ := postfixed_ensures hi _ _ _ hs h
    exact ⟨ho, hnodes, Expr.not_operator_of_isPostfix hpost⟩

/-- A binary operator of the level stands in front. -/
def State.Faces (s : State) (level : Level) : Prop :=
  ∃ op : Operator, s.current.kind = .operator op ∧ op.level? = some level

/-- A chain from the rank `r` on, which began at `s₀`, so far. It can be the left operand of the
operator in front, whatever that is: one that binds more tightly than the last of the chain has
been read with the right operand of that. -/
structure ChainSoFar (s₀ : State) (r : Nat) (e : Expr) (s : State) : Prop where
  onward : Onward s₀ s
  nodes : AllGrammatical e.nodes
  binds : e.BindsFrom r
  left : ∀ level, s.Faces level → e.BindsFrom level.rank

/-- The parser reads chains from the rank `r` on, and to their end: none of the operators that may
stand in such a chain is left in front. -/
def ReadsChain (r : Nat) (p : Parser Expr) : Prop :=
  ∀ s e s', s.Synced → p s = .ok e s' →
    Onward s s' ∧ AllGrammatical e.nodes ∧ e.BindsFrom r ∧ ∀ level, s'.Faces level → level.rank < r

theorem unary_readsChain (hi : inner.Ensures) : ReadsChain 9 (unary inner) := by
  intro s e s' hs h
  obtain ⟨ho, hnodes, hassign, hlevel⟩ := unary_ensures hi _ _ _ hs h
  exact ⟨ho, hnodes, Expr.bindsFrom_of_level?_eq_none hassign hlevel, fun level _ => level.rank_lt⟩

/-- The right operand ends in front of an operator that binds no more tightly than the one before
it, so the two operands and the operator between them can be the left operand there. -/
theorem binaryLink_ensures {least : Level}
    (hright : ∀ level, least.rank ≤ level.rank →
      ReadsChain (level.rank + 1) (rightOperand inner level))
    {s₀ s s' : State} {left e : Expr} (hleft : ChainSoFar s₀ least.rank left s)
    (hm : (binaryOf? least s.current.kind).isSome = true)
    (h : binaryLink inner least left s = .ok e s') :
    ChainSoFar s₀ least.rank e s' ∧ s'.ahead.size < s.ahead.size := by
  have hs := hleft.onward.synced
  obtain ⟨op, level, hk, hlevel, hle, t, s₁, u, s₂, right, h₁, h₂, h₃, rfl⟩ :=
    binaryLink_eq_ok hm h
  have ho₁ := (advance_ensures _ _ _ hs h₁).1
  have ho₂ := (raise_ensures _ _ _ ho₁.synced h₂).1
  obtain ⟨ho₃, hnodes, hbinds, hends⟩ := hright level hle _ _ _ ho₂.synced h₃
  have ho := ho₂.trans ho₃
  have hlt := advance_size_lt hs (by simp [hk]) h₁
  have hfits := hleft.left level ⟨op, hk, hlevel⟩
  refine ⟨⟨hleft.onward.trans (ho₁.trans ho), ?_, ?_, ?_⟩, Nat.lt_of_le_of_lt ho.size_le hlt⟩
  · simp only [Expr.nodes, Expr.optionNodes, AllNodes.cons_iff, AllNodes.append_iff]
    exact ⟨⟨⟨hlevel, ⟨left, rfl, hfits⟩, right, rfl, hbinds⟩, trivial⟩, hleft.nodes, hnodes⟩
  · exact Expr.bindsFrom_binary hle
  · exact fun next hnext => Expr.bindsFrom_binary (Nat.le_of_lt_succ (hends next hnext))

theorem climb_readsChain (hi : inner.Ensures) (least : Level) :
    ReadsChain least.rank (climb inner least) := by
  refine climb_induction (unary_readsChain hi) (fun least hright s e s' hs h => ?_) least
  rw [climb] at h
  obtain ⟨s₁, hrun, rfl⟩ := chain_eq_ok h
  obtain ⟨first, s₂, h₂, h₃⟩ := bind_eq_ok.1 hrun
  obtain ⟨ho, hnodes, hbinds, -⟩ := unary_readsChain hi { s with peak := s.level } _ _ hs h₂
  have begun : ChainSoFar { s with peak := s.level } least.rank first s₂ :=
    ⟨ho, hnodes, hbinds.mono (Nat.le_of_lt least.rank_lt),
      fun level _ => hbinds.mono (Nat.le_of_lt level.rank_lt)⟩
  obtain ⟨hchain, hends⟩ := links_ends (fun _ _ _ _ => binaryLink_ensures hright) begun h₃
  refine ⟨⟨hchain.onward.synced, hchain.onward.size_le⟩, hchain.nodes, hchain.binds, ?_⟩
  rintro level ⟨op, hk, hlevel⟩
  refine Nat.lt_of_not_le fun hle => ?_
  have hnext := binaryOf?_eq_some.2 ⟨hk, hlevel, hle⟩
  rw [hnext] at hends
  cases hends

theorem assignment_ensures (hi : inner.Ensures) :
    Ensures (assignment inner) fun e => AllGrammatical e.nodes := by
  have target : Ensures (climb inner .loosest) fun e => AllGrammatical e.nodes :=
    fun s e s' hs h => by
      obtain ⟨ho, hnodes, -⟩ := climb_readsChain hi _ _ _ _ hs h
      exact ⟨ho, hnodes⟩
  refine target.bind fun target htarget => current_ensures.bind fun next _ => ?_
  split
  · split
    · rename_i hassignable
      refine advance_ensures.bind fun _ _ => hi.expr.bind fun value hvalue => .pure ?_
      simp [Expr.nodes, Expr.optionNodes, Node.Grammatical, Expr.Laddered, Expr.Filled, htarget,
        hassignable, hvalue]
    · exact fun _ _ _ _ h => by cases h
  · exact .pure htarget

theorem importStmt_ensures : Ensures importStmt fun x => AllGrammatical x.nodes := by
  refine advance_ensures.bind fun word _ => identifier_ensures.bind fun first _ => ?_
  refine ((advance_ensures.bind fun _ _ => identifier_ensures).many _).bind fun further _ =>
    .pure ?_
  simp [Stmt.nodes, Node.Grammatical, Stmt.Filled]

theorem otherwise_ensures (hi : inner.Ensures) :
    Ensures (otherwise inner) fun b => AllGrammatical (Block.optionNodes b) :=
  (after?_ensures (block_ensures hi)).mono fun b hb => by
    cases b with
    | none => exact AllNodes.nil
    | some b => exact hb b rfl

/-- A branch has its test and its body, whose nodes are those of the grammar. -/
def IsBranch (b : Branch) : Prop :=
  b.Filled ∧ AllGrammatical (Expr.optionNodes b.test) ∧ AllGrammatical (Block.optionNodes b.body)

theorem branches_grammatical {bs : List Branch} (h : ∀ b ∈ bs, IsBranch b) :
    AllGrammatical (Branch.listNodes bs) := by
  intro n hn
  obtain ⟨b, hb, hn | hn⟩ := Branch.mem_listNodes.1 hn
  · exact (h b hb).2.1 n hn
  · exact (h b hb).2.2 n hn

theorem elseifBranch_ensures (hi : inner.Ensures) : Ensures (elseifBranch inner) IsBranch :=
  advance_ensures.bind fun _ _ => hi.expr.bind fun _ htest => (block_ensures hi).bind
    fun _ hbody => .pure ⟨⟨rfl, rfl⟩, htest, hbody⟩

theorem condStmt_ensures (hi : inner.Ensures) :
    Ensures (condStmt inner) fun x => AllGrammatical x.nodes := by
  refine advance_ensures.bind fun word _ => hi.expr.bind fun test htest =>
    (block_ensures hi).bind fun body hbody => ((elseifBranch_ensures hi).many _).bind
    fun elseifs helseifs => (otherwise_ensures hi).bind fun otherwise hotherwise =>
    (expect_ensures _ _).bind fun _ _ => .pure ?_
  simp only [Stmt.nodes, AllNodes.cons_iff, AllNodes.append_iff]
  exact ⟨⟨rfl, rfl, fun b hb => (helseifs b hb).1⟩, htest, hbody, branches_grammatical helseifs,
    hotherwise⟩

theorem whenClause_ensures (hi : inner.Ensures) : Ensures (whenClause inner) IsBranch :=
  (expect_ensures _ _).bind fun _ _ => hi.expr.bind fun _ htest => (expect_ensures _ _).bind
    fun _ _ => (block_ensures hi).bind fun _ hbody => .pure ⟨⟨rfl, rfl⟩, htest, hbody⟩

theorem caseStmt_ensures (hi : inner.Ensures) :
    Ensures (caseStmt inner) fun x => AllGrammatical x.nodes := by
  refine advance_ensures.bind fun word _ => hi.expr.bind fun subject hsubject =>
    (whenClause_ensures hi).bind fun first hfirst => ((whenClause_ensures hi).many _).bind
    fun further hfurther => (otherwise_ensures hi).bind fun otherwise hotherwise =>
    (expect_ensures _ _).bind fun _ _ => .pure ?_
  have hwhens : ∀ b ∈ first :: further, IsBranch b := List.forall_mem_cons.2 ⟨hfirst, hfurther⟩
  simp only [Stmt.nodes, AllNodes.cons_iff, AllNodes.append_iff]
  exact ⟨⟨rfl, List.cons_ne_nil _ _, fun b hb => (hwhens b hb).1⟩, hsubject,
    branches_grammatical hwhens, hotherwise⟩

theorem loopBody_ensures (hi : inner.Ensures) :
    Ensures (loopBody inner) fun b => AllGrammatical b.nodes :=
  (expect_ensures _ _).bind fun _ _ => blockToEnd_ensures hi

theorem whileStmt_ensures (hi : inner.Ensures) :
    Ensures (whileStmt inner) fun x => AllGrammatical x.nodes := by
  refine advance_ensures.bind fun word _ => hi.expr.bind fun test htest =>
    (loopBody_ensures hi).bind fun body hbody => .pure ?_
  simp only [Stmt.nodes, AllNodes.cons_iff, AllNodes.append_iff]
  exact ⟨⟨rfl, rfl⟩, htest, hbody⟩

theorem forStmt_ensures (hi : inner.Ensures) :
    Ensures (forStmt inner) fun x => AllGrammatical x.nodes := by
  refine advance_ensures.bind fun word _ => hi.expr.bind fun init hinit =>
    (expect_ensures _ _).bind fun _ _ => hi.expr.bind fun test htest =>
    (expect_ensures _ _).bind fun _ _ => hi.expr.bind fun step hstep =>
    (loopBody_ensures hi).bind fun body hbody => .pure ?_
  simp only [Stmt.nodes, AllNodes.cons_iff, AllNodes.append_iff]
  exact ⟨⟨rfl, rfl, rfl, rfl⟩, hinit, htest, hstep, hbody⟩

theorem foreachStmt_ensures (hi : inner.Ensures) :
    Ensures (foreachStmt inner) fun x => AllGrammatical x.nodes := by
  refine advance_ensures.bind fun word _ => identifier_ensures.bind fun item _ =>
    (expect_ensures _ _).bind fun _ _ => hi.expr.bind fun collection hcollection =>
    (loopBody_ensures hi).bind fun body hbody => .pure ?_
  simp only [Stmt.nodes, AllNodes.cons_iff, AllNodes.append_iff]
  exact ⟨⟨rfl, rfl⟩, hcollection, hbody⟩

theorem returnStmt_ensures (hi : inner.Ensures) :
    Ensures (returnStmt inner) fun x => AllGrammatical x.nodes := by
  refine advance_ensures.bind fun word _ => current_ensures.bind fun next _ => ?_
  split
  · exact hi.expr.bind fun value hvalue => .pure (AllNodes.cons_iff.2 ⟨trivial, hvalue⟩)
  · exact .pure (AllNodes.cons_iff.2 ⟨trivial, AllNodes.nil⟩)

theorem wordStmt_ensures {build : Location → Stmt}
    (hbuild : ∀ loc, AllGrammatical (build loc).nodes) :
    Ensures (wordStmt build) fun x => AllGrammatical x.nodes :=
  advance_ensures.bind fun _ _ => .pure (hbuild _)

theorem exprStmt_ensures (hi : inner.Ensures) :
    Ensures (exprStmt inner) fun x => AllGrammatical x.nodes :=
  current_ensures.bind fun _ _ => hi.expr.bind fun _ he => .pure (AllNodes.cons_iff.2 ⟨rfl, he⟩)

theorem stmt_ensures (hi : inner.Ensures) :
    Ensures (stmt inner) fun x => AllGrammatical x.nodes := by
  intro s x s' hs h
  unfold stmt at h
  split at h
  · exact importStmt_ensures _ _ _ hs h
  · exact condStmt_ensures hi _ _ _ hs h
  · exact caseStmt_ensures hi _ _ _ hs h
  · exact whileStmt_ensures hi _ _ _ hs h
  · exact forStmt_ensures hi _ _ _ hs h
  · exact foreachStmt_ensures hi _ _ _ hs h
  · exact wordStmt_ensures (fun _ => by simp [Stmt.nodes, Node.Grammatical, Stmt.Filled])
      _ _ _ hs h
  · exact wordStmt_ensures (fun _ => by simp [Stmt.nodes, Node.Grammatical, Stmt.Filled])
      _ _ _ hs h
  · exact returnStmt_ensures hi _ _ _ hs h
  · exact exprStmt_ensures hi _ _ _ hs h

end Parser

theorem Nested.ensures_ofLevels (levels : Nat) : (Nested.ofLevels levels).Ensures := by
  induction levels with
  | zero => constructor <;> exact fun _ _ _ _ h => absurd h fail_ne_ok
  | succ levels ih =>
    rw [Nested.ofLevels]
    constructor <;> dsimp only
    · exact .nested (stmt_ensures ih)
    · exact .nested (assignment_ensures ih)
    · exact .nested (unary_ensures ih)

/-- Every node of an accepted text's tree has the shape of the grammar. -/
theorem grammatical_of_parse {log : Log} {text : List Char} {unit : Block}
    (h : (parse log text).1 = some unit) {n : Node} (hn : n ∈ unit.nodes) : n.Grammatical := by
  obtain ⟨s, hunit, -, -⟩ := parse_fst_eq_some h
  simp only [Parser.unit, bind_eq_ok] at hunit
  obtain ⟨t, s₁, h₁, body, s₂, h₂, next, s₃, -, hunit⟩ := hunit
  have hs₁ : s₁.Synced := synced_of_advance (endsOnce_readings _) h₁
  split at hunit
  · obtain ⟨rfl, rfl⟩ := pure_eq_ok.1 hunit
    exact (block_ensures (Nested.ensures_ofLevels _) _ _ _ hs₁ h₂).2 n hn
  · exact absurd hunit fail_ne_ok

/-- Every expression of an accepted text's tree respects the precedence ladder. -/
theorem laddered_of_parse {log : Log} {text : List Char} {unit : Block}
    (h : (parse log text).1 = some unit) {e : Expr} (he : Node.expr e ∈ unit.nodes) :
    e.Laddered :=
  (grammatical_of_parse h he).1

/-- Chains on five rungs, with every other operator among them. -/
def mixedText : List Char :=
  "a[i] = b - c - -d.e(f) * 2 < g || (h = i) && !j".toList

/-- The levels of the binary nodes among some nodes. -/
def levels (nodes : List Node) : List Level :=
  nodes.filterMap fun n => match n with
    | .expr e => e.level?
    | .stmt _ => none

theorem laddered_of_parse_mixedText :
    ∃ unit e, (parse (.empty "u") mixedText).1 = some unit ∧
      levels unit.nodes =
        [.logicalOr, .relational, .additive, .additive, .multiplicative, .logicalAnd] ∧
      Node.expr e ∈ unit.nodes ∧ e.level? = some .additive ∧ e.Laddered := by
  have accepted : (parse (.empty "u") mixedText).1.map (fun unit => levels unit.nodes) =
      some [.logicalOr, .relational, .additive, .additive, .multiplicative, .logicalAnd] := by
    decide +kernel
  obtain ⟨unit, h, hlevels⟩ := Option.map_eq_some_iff.1 accepted
  have hmem : Level.additive ∈ levels unit.nodes := by simp [hlevels]
  obtain ⟨n, hn, hlevel⟩ := List.mem_filterMap.1 hmem
  cases n with
  | stmt x => cases hlevel
  | expr e => exact ⟨unit, e, h, hlevels, hn, hlevel, laddered_of_parse h hn⟩

end LarkCheck
