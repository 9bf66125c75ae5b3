import LarkCheck.Proofs.Grammar.Follow
import LarkCheck.Proofs.Tree.Erase

/-!
# What the productions of literals build

A production builds the node in front of whose pieces it stands, if a canonical
tree holds the node and what follows lets it end there. It takes this of the
nesting productions for granted; `Nested.ofLevels` then has it level by level.
-/

namespace LarkCheck

open Token LarkCheck.Parser Piece

/-- Nodes that all are as a canonical tree has them. -/
abbrev AllCanonical : List Node → Prop := AllNodes Node.Canonical

theorem AllCanonical.grammatical {ns : List Node} (h : AllCanonical ns) :
    AllNodes Node.Grammatical ns :=
  fun n hn => (h n hn).grammatical

/-- The nesting productions build what stands `d` constructs deep. -/
structure Nested.Builds (inner : Nested) (d : Nat) : Prop where
  stmt : ∀ x : Stmt, AllCanonical x.nodes →
    Parser.Builds inner.stmt d x.pieces x.weight.deeper x.Ends fun y => y.erase = x.erase
  expr : ∀ e : Expr, AllCanonical e.nodes →
    Parser.Builds inner.expr d e.pieces e.weight.deeper Ends fun e' => e'.erase = e.erase
  unary : ∀ e : Expr, AllCanonical e.nodes → e.isAssignment = false → e.level? = none →
    Parser.Builds inner.unary d e.pieces e.weight.deeper (Stops 9) fun e' => e'.erase = e.erase

namespace Parser

variable {inner : Nested} {d : Nat} {s : State} {rest : List Piece}

theorem block_builds (hi : inner.Builds d) {b : Block} (h : AllCanonical b.nodes)
    (hapart : b.Apart) :
    Builds (block inner) d b.pieces b.weight EndsBlock fun b' => b'.erase = b.erase := by
  obtain ⟨loc, xs⟩ := b
  intro s rest hs hrest
  refine (current_gives hs).read fun first s₁ _ hs₁ => ?_
  have stmts : Gives s₁ (Stmt.listWeight xs) (fun ys => ys.map Stmt.erase = xs.map Stmt.erase) d
      rest (many (fun s => !s.current.kind.endsBlock) inner.stmt s₁) := by
    refine many_gives listed_stmts
      (P := fun xs => AllCanonical (Stmt.listNodes xs) ∧ Stmt.Apart xs) ?_ ?_ ?_ ?_ ?_
      ⟨h, hapart⟩ hs₁
    · exact fun x xs h => ⟨(AllNodes.append_iff.1 h.1).2, h.2.2⟩
    · intro x xs h
      obtain ⟨p, ps, heq, -⟩ := Stmt.head_pieces (AllNodes.append_iff.1 h.1.grammatical).1
      simp [heq, lead]
    · intro x xs s h hs
      obtain ⟨p, ps, heq, hp⟩ := Stmt.head_pieces (AllNodes.append_iff.1 h.1.grammatical).1
      rw [heq] at hs
      simpa [hs.kind_eq, lead] using endsBlock_of_startsStatement hp
    · intro s hs
      rw [hs.kind_eq, show (headKind rest).endsBlock = true from hrest]
      rfl
    · intro x xs s h hs
      obtain ⟨hx, hxs⟩ := AllNodes.append_iff.1 h.1
      exact hi.stmt x hx s _ (Faces.lead_iff.1 hs)
        (stmt_ends_listPieces (AllCanonical.grammatical hxs) h.2.1 hrest)
  exact stmts.last fun ys hys => by simp only [Block.erase, Stmt.eraseList_eq_map, hys]

theorem blockToEnd_builds (hi : inner.Builds d) {b : Block} (h : AllCanonical b.nodes)
    (hapart : b.Apart) (hs : Faces d s (b.pieces ++ word .endKw :: rest)) :
    Gives s b.weight (fun b' => b'.erase = b.erase) d rest (blockToEnd inner s) := by
  refine (block_builds hi h hapart s _ hs rfl).before fun body s₁ hb hs₁ => ?_
  exact (expect_gives hs₁).last fun _ _ => hb

theorem param_builds (hi : inner.Builds d) {p : Param} (h : AllCanonical p.nodes) :
    Builds (param inner) d p.pieces p.weight Ends fun p' => p'.erase = p.erase := by
  intro s rest hs hrest
  refine (current_gives hs).read fun first s₁ hfirst hs₁ => ?_
  subst hfirst
  rcases p with ⟨loc, text, _ | e⟩ | ⟨loc, text⟩
  · have hk : s.current.kind ≠ .keyword .outKw := by
      simp [hs.kind_eq, Param.pieces]
    rw [if_neg hk]
    refine (identifier_gives hs₁).read fun n s₂ hn hs₂ => ?_
    refine (after?_gives_none hs₂ hrest.2).last fun o ho => ?_
    subst hn ho
    rfl
  · have hk : s.current.kind ≠ .keyword .outKw := by
      simp [hs.kind_eq, Param.pieces]
    rw [if_neg hk]
    refine (identifier_gives hs₁).read fun n s₂ hn hs₂ => ?_
    refine (after?_gives_some (hi.expr e h) hs₂ hrest).last ?_
    rintro _ ⟨e', rfl, he'⟩
    subst hn
    simp only [Param.erase, Expr.eraseSlot, he']
  · have hk : s.current.kind = .keyword .outKw := by
      simp [hs.kind_eq, Param.pieces]
    rw [if_pos hk]
    refine (advance_gives hs₁).read fun t s₂ _ hs₂ => ?_
    refine (identifier_gives hs₂).read fun n s₃ hn hs₃ => ?_
    refine (current_gives hs₃).read fun next s₄ hnext hs₄ => ?_
    subst hn hnext
    have hk : s₃.current.kind ≠ .operator .assign := by
      rw [hs₃.kind_eq]
      exact hrest.2
    rw [if_neg hk]
    exact gives_pure hs₄ rfl

theorem headKind_param_ne (p : Param) (ps : List Piece) :
    headKind (p.pieces ++ ps) ≠ .punctuation .rparen := by
  rcases p with ⟨loc, text, _ | e⟩ | ⟨loc, text⟩ <;> simp [Param.pieces]

theorem params_builds (hi : inner.Builds d) {ps : List Param}
    (h : AllCanonical (Param.listNodes ps))
    (hs : Faces d s (mark .lparen :: (Param.listPieces ps ++ mark .rparen :: rest))) :
    Gives s (Param.listWeight ps) (fun qs => Param.eraseList qs = Param.eraseList ps) d rest
      (params inner s) := by
  refine (expect_gives hs).read fun t s₁ _ hs₁ => ?_
  have items : Gives s₁ (Param.listWeight ps)
      (fun qs => qs.map Param.erase = ps.map Param.erase) d (mark .rparen :: rest)
      (separatedUntil .rparen (param inner) s₁) := by
    refine separatedUntil_builds separated_params (fun _ => ends_mark (by simp))
      (fun _ => ends_mark (by simp)) (by simp) (fun p _ => headKind_param_ne p) ?_ hs₁
    exact fun p hp => param_builds hi fun n hn => h n (Param.mem_listNodes.2 ⟨p, hp, hn⟩)
  refine items.before fun qs s₂ hqs hs₂ => ?_
  exact (expect_gives hs₂).last fun _ _ => by simpa only [Param.eraseList_eq_map] using hqs

theorem headKind_expr_ne {e : Expr} (h : AllCanonical e.nodes) {mark : Punctuation}
    (hmark : (Kind.punctuation mark).startsExpression = false) (ps : List Piece) :
    headKind (e.pieces ++ ps) ≠ .punctuation mark := by
  obtain ⟨p, qs, heq, hp, -⟩ := e.head_pieces h.grammatical
  rw [heq]
  rintro (hk : p.kind = _)
  rw [hk, hmark] at hp
  cases hp

theorem exprsTo_builds (hi : inner.Builds d) {close : Punctuation} {code : Diagnostic.Code}
    {es : List Expr} (hclose : ∀ ps, Ends (mark close :: ps)) (hne : close ≠ .comma)
    (hstart : (Kind.punctuation close).startsExpression = false)
    (h : AllCanonical (Expr.listNodes es))
    (hs : Faces d s (Expr.listPieces es ++ mark close :: rest)) :
    Gives s (Expr.listWeight es) (fun fs => Expr.eraseList fs = Expr.eraseList es) d rest
      (exprsTo inner close code s) := by
  have hmem : ∀ e ∈ es, AllCanonical e.nodes :=
    fun e he n hn => h n (Expr.mem_listNodes.2 ⟨e, he, hn⟩)
  have items : Gives s (Expr.listWeight es)
      (fun fs => fs.map Expr.erase = es.map Expr.erase) d (mark close :: rest)
      (separatedUntil close inner.expr s) :=
    separatedUntil_builds separated_exprs (fun _ => ends_mark (by simp)) hclose hne
      (fun e he => headKind_expr_ne (hmem e he) hstart) (fun e he => hi.expr e (hmem e he)) hs
  refine items.before fun fs s₁ hfs hs₁ => ?_
  exact (expect_gives hs₁).last fun _ _ => by simpa only [Expr.eraseList_eq_map] using hfs

theorem routine_builds (hi : inner.Builds d) {loc : Location} {ps : List Param}
    {body : Option Block} (h : AllCanonical (Expr.routine loc ps body).nodes)
    (hs : Faces d s ((Expr.routine loc ps body).pieces ++ rest)) :
    Gives s (Expr.routine loc ps body).weight
      (fun e => e.erase = (Expr.routine loc ps body).erase) d rest (routine inner s) := by
  obtain ⟨⟨⟨-, hfilled⟩, hapart, -⟩, h⟩ := AllNodes.cons_iff.1 h
  obtain ⟨hparams, hbody⟩ := AllNodes.append_iff.1 h
  obtain ⟨b, rfl⟩ := Option.isSome_iff_exists.1 hfilled
  simp only [Expr.pieces, Block.slotPieces, List.cons_append, List.append_assoc,
    List.nil_append] at hs
  refine (advance_gives hs).read fun first s₁ _ hs₁ => ?_
  refine (params_builds hi hparams hs₁).bind fun qs s₂ hqs hs₂ => ?_
  refine (blockToEnd_builds hi hbody (hapart b (by simp [Node.blocks])) hs₂).last fun b' hb' => ?_
  simp only [Expr.erase, Block.eraseSlot, hqs, hb']

theorem package_builds (hi : inner.Builds d) {loc : Location} {text : String}
    {body : Option Block} (h : AllCanonical (Expr.package loc text body).nodes)
    (hs : Faces d s ((Expr.package loc text body).pieces ++ rest)) :
    Gives s (Expr.package loc text body).weight
      (fun e => e.erase = (Expr.package loc text body).erase) d rest (package inner s) := by
  obtain ⟨⟨⟨-, hfilled⟩, hapart, -⟩, hbody⟩ := AllNodes.cons_iff.1 h
  obtain ⟨b, rfl⟩ := Option.isSome_iff_exists.1 hfilled
  simp only [Expr.pieces, Block.slotPieces, List.cons_append, List.append_assoc,
    List.nil_append] at hs
  refine (advance_gives hs).read fun first s₁ _ hs₁ => ?_
  refine (identifier_gives hs₁).read fun n s₂ hn hs₂ => ?_
  refine (blockToEnd_builds hi hbody (hapart b (by simp [Node.blocks])) hs₂).last fun b' hb' => ?_
  simp only [Expr.erase, Block.eraseSlot, hn, hb']

theorem array_builds (hi : inner.Builds d) {loc : Location} {items : List Expr}
    (h : AllCanonical (Expr.array loc items).nodes)
    (hs : Faces d s ((Expr.array loc items).pieces ++ rest)) :
    Gives s (Expr.array loc items).weight (fun e => e.erase = (Expr.array loc items).erase) d rest
      (array inner s) := by
  simp only [Expr.pieces, List.cons_append, List.append_assoc, List.nil_append] at hs
  refine (advance_gives hs).read fun first s₁ _ hs₁ => ?_
  refine (exprsTo_builds hi (fun _ => ends_mark (by simp)) (by simp) rfl
    (AllNodes.cons_iff.1 h).2 hs₁).last fun es hes => ?_
  simp only [Expr.erase, hes]

theorem paren_builds (hi : inner.Builds d) {loc : Location} {e : Option Expr}
    (h : AllCanonical (Expr.paren loc e).nodes)
    (hs : Faces d s ((Expr.paren loc e).pieces ++ rest)) :
    Gives s (Expr.paren loc e).weight (fun e' => e'.erase = (Expr.paren loc e).erase) d rest
      (paren inner s) := by
  obtain ⟨⟨⟨-, hfilled⟩, -, -⟩, h⟩ := AllNodes.cons_iff.1 h
  obtain ⟨e, rfl⟩ := Option.isSome_iff_exists.1 hfilled
  simp only [Expr.pieces, Expr.slotPieces, List.cons_append, List.append_assoc,
    List.nil_append] at hs
  refine (advance_gives hs).read fun first s₁ _ hs₁ => ?_
  refine (hi.expr e h _ _ hs₁ (ends_mark (by simp))).before fun e' s₂ he' hs₂ => ?_
  exact (expect_gives hs₂).last fun _ _ => by simp only [Expr.erase, Expr.eraseSlot, he']

/-- A block begins with a statement, unless what follows is at its end already. -/
theorem headKind_block_ne {b : Block} (h : AllCanonical b.nodes) (hrest : EndsBlock rest)
    {kind : Kind} (hstart : kind.startsStatement = false) (hend : kind.endsBlock = false) :
    headKind (b.pieces ++ rest) ≠ kind := by
  obtain ⟨loc, _ | ⟨x, xs⟩⟩ := b
  · rintro rfl
    exact absurd hrest (by simpa [Block.pieces, Stmt.listPieces, EndsBlock] using hend)
  · obtain ⟨p, ps, heq, hp⟩ := Stmt.head_pieces (AllNodes.append_iff.1 h.grammatical).1
    rw [Block.pieces, Stmt.listPieces, heq]
    exact ne_of_startsStatement hp hstart

theorem base_builds (hi : inner.Builds d) {b : Base} (h : AllCanonical (Expr.listNodes b.args))
    (hs : Faces d s (name b.name.text :: mark .lparen ::
      (Expr.listPieces b.args ++ mark .rparen :: rest))) :
    Gives s (Expr.listWeight b.args) (fun b' => b'.erase = b.erase) d rest (base inner s) := by
  obtain ⟨n, args⟩ := b
  refine (identifier_gives hs).read fun n' s₁ hn hs₁ => ?_
  refine (expect_gives hs₁).read fun t s₂ _ hs₂ => ?_
  refine (exprsTo_builds hi (fun _ => ends_mark (by simp)) (by simp) rfl h hs₂).last
    fun es hes => ?_
  simp only [Base.erase, Name.erase, hn, hes]

/-- The block is there, as a canonical tree has it. -/
def Placed (block : Option Block) : Prop :=
  ∃ b, block = some b ∧ AllCanonical b.nodes ∧ b.Apart

theorem placed_of_isSome {block : Option Block} (hfilled : block.isSome = true)
    (h : AllCanonical (Block.optionNodes block)) (hapart : ∀ b ∈ block, b.Apart) :
    Placed block := by
  obtain ⟨b, rfl⟩ := Option.isSome_iff_exists.1 hfilled
  exact ⟨b, rfl, h, hapart b rfl⟩

theorem sectionBody_builds (hi : inner.Builds d) {x : Section} (h : Placed x.body)
    (hrest : EndsBlock rest) (hs : Faces d s (Block.slotPieces x.body ++ rest)) :
    Gives s (Block.slotWeight x.body) (fun y => y.erase = x.erase) d rest
      (sectionBody inner x.access s) := by
  obtain ⟨loc, access, body⟩ := x
  obtain ⟨b, rfl, hb, hapart⟩ := h
  refine (current_gives hs).read fun first s₁ _ hs₁ => ?_
  refine (block_builds hi hb hapart s₁ _ hs₁ hrest).last fun b' hb' => ?_
  simp only [Section.erase, Block.eraseSlot, hb']

theorem accessOf?_keyword (access : Access) :
    accessOf? (.keyword access.keyword) = some access := by
  cases access <;> rfl

theorem endsBlock_furtherPieces (xs : List Section) (hrest : EndsBlock rest) :
    EndsBlock (Section.furtherPieces xs ++ rest) := by
  rcases xs with _ | ⟨⟨loc, access, body⟩, xs⟩
  · exact hrest
  · cases access <;> rfl

theorem sections_builds (hi : inner.Builds d) {x : Section} {xs : List Section}
    (hfirst : x.access = .publicPart) (h : ∀ y ∈ x :: xs, Placed y.body)
    (hs : Faces d s (Section.listPieces (x :: xs) ++ word .endKw :: rest)) :
    Gives s (Section.listWeight (x :: xs))
      (fun ys => Section.eraseList ys = Section.eraseList (x :: xs)) d (word .endKw :: rest)
      (sections inner s) := by
  have hlist : Section.listPieces (x :: xs) =
      Block.slotPieces x.body ++ Section.furtherPieces xs := by
    cases x
    rfl
  have hend : ∀ ys, EndsBlock (Section.furtherPieces ys ++ word .endKw :: rest) :=
    fun ys => endsBlock_furtherPieces ys rfl
  rw [hlist, List.append_assoc] at hs
  unfold sections
  rw [← hfirst, listed_sections.weight_cons]
  refine (sectionBody_builds hi (h x (by simp)) (hend xs) hs).bind fun y s₁ hy hs₁ => ?_
  have further : Gives s₁ (Section.listWeight xs)
      (fun ys => ys.map Section.erase = xs.map Section.erase) d (word .endKw :: rest)
      (many (fun s => (accessOf? s.current.kind).isSome) (furtherSection inner) s₁) := by
    refine many_gives listed_sections (P := fun ys => ∀ y ∈ ys, Placed y.body) ?_ ?_ ?_ ?_ ?_
      (fun y hy => h y (List.mem_cons_of_mem x hy)) hs₁
    · exact fun y ys h z hz => h z (List.mem_cons_of_mem y hz)
    · exact fun _ _ _ => List.cons_ne_nil _ _
    · intro y ys s _ hs
      rw [hs.kind_eq]
      simp [accessOf?_keyword]
    · intro s hs
      rw [hs.kind_eq]
      rfl
    · intro y ys s h hs
      refine (advance_gives hs).read fun t s₁ ht hs₁ => ?_
      have hk : accessOf? t.kind = some y.access := by
        rw [ht, hs.kind_eq]
        exact accessOf?_keyword y.access
      rw [hk]
      exact sectionBody_builds hi (h y (by simp)) (hend ys) hs₁
  refine further.last fun ys hys => ?_
  simp only [Section.eraseList_eq_map, List.map_cons, hy, hys]

theorem includes_builds {names : List Name} (hk : headKind rest ≠ .keyword .includeKw)
    (hcomma : headKind rest ≠ .punctuation .comma) (hs : Faces d s (includes names ++ rest)) :
    Gives s .zero (fun o => (o.getD []).map Name.erase = names.map Name.erase) d rest
      (after? (.keyword .includeKw) (separated identifier) s) := by
  cases names with
  | nil =>
    refine (after?_gives_none hs hk).imp ?_
    rintro _ rfl
    rfl
  | cons n names =>
    have item : ∀ m ∈ n :: names, Builds identifier d [name m.text] .zero (fun _ => True)
        fun m' => m'.erase = m.erase := by
      intro m _ s rest hs _
      refine (identifier_gives hs).imp fun m' hm' => ?_
      simp only [Name.erase, hm']
    have items := separated_builds separated_names (fun _ => trivial) item
    refine (after?_gives_some items hs ⟨trivial, hcomma⟩).imp ?_
    rintro _ ⟨ms, rfl, hms⟩
    exact hms

theorem baseOption_builds (hi : inner.Builds d) {b : Option Base}
    (h : AllCanonical (Base.optionNodes b)) (hk : headKind rest ≠ .punctuation .colon)
    (hs : Faces d s (Base.optionPieces b ++ rest)) :
    Gives s (Base.optionWeight b) (fun b' => Base.eraseOption b' = Base.eraseOption b) d rest
      (after? (.punctuation .colon) (base inner) s) := by
  cases b with
  | none =>
    refine (after?_gives_none hs hk).imp ?_
    rintro _ rfl
    rfl
  | some b =>
    obtain ⟨n, args⟩ := b
    have item : Builds (base inner) d
        (name n.text :: mark .lparen :: (Expr.listPieces args ++ [mark .rparen]))
        (Expr.listWeight args) (fun _ => True) fun b' => b'.erase = Base.erase ⟨n, args⟩ := by
      intro s rest hs _
      simp only [List.cons_append, List.append_assoc, List.nil_append] at hs
      exact base_builds hi (b := ⟨n, args⟩) h hs
    refine (after?_gives_some item hs trivial).imp ?_
    rintro _ ⟨b', rfl, hb'⟩
    simp only [Base.eraseOption, hb']

theorem classDef_builds (hi : inner.Builds d) {loc : Location} {text : String} {ps : List Param}
    {b : Option Base} {names : List Name} {xs : List Section}
    (h : AllCanonical (Expr.classDef loc text ps b names xs).nodes)
    (hs : Faces d s ((Expr.classDef loc text ps b names xs).pieces ++ rest)) :
    Gives s (Expr.classDef loc text ps b names xs).weight
      (fun e => e.erase = (Expr.classDef loc text ps b names xs).erase) d rest
      (classDef inner s) := by
  obtain ⟨⟨⟨-, hfirst, hfilled⟩, hapart, -⟩, h⟩ := AllNodes.cons_iff.1 h
  obtain ⟨hbase, h⟩ := AllNodes.append_iff.1 h
  obtain ⟨hparams, hsections⟩ := AllNodes.append_iff.1 h
  have canonical : ∀ x ∈ xs, Placed x.body := by
    intro x hx
    refine placed_of_isSome (hfilled x hx) ?_ ?_
    · exact fun n hn => hsections n (Section.mem_listNodes.2 ⟨x, hx, hn⟩)
    · exact fun b hb => hapart b (List.mem_filterMap.2 ⟨x, hx, hb⟩)
  obtain ⟨x, xs, rfl⟩ : ∃ x xs', xs = x :: xs' := by
    cases xs with
    | nil => cases hfirst
    | cons x xs => exact ⟨x, xs, rfl⟩
  have hpublic : x.access = .publicPart := by simpa using hfirst
  have head : ∀ kind : Kind, kind.startsStatement = false → kind.endsBlock = false →
      headKind (Section.listPieces (x :: xs) ++ word .endKw :: rest) ≠ kind := by
    intro kind hstart hend
    obtain ⟨body, hbody, hnodes, -⟩ := canonical x (by simp)
    obtain ⟨loc, access, _⟩ := x
    obtain rfl := hbody
    have hblock : EndsBlock (word .endKw :: rest) := rfl
    rw [Section.listPieces, List.append_assoc]
    exact headKind_block_ne hnodes (endsBlock_furtherPieces xs hblock) hstart hend
  simp only [Expr.pieces, List.cons_append, List.append_assoc, List.nil_append] at hs
  refine (advance_gives hs).read fun first s₁ _ hs₁ => ?_
  refine (identifier_gives hs₁).read fun n s₂ hn hs₂ => ?_
  refine (params_builds hi hparams hs₂).bind fun qs s₃ hqs hs₃ => ?_
  refine (baseOption_builds hi hbase ?_ hs₃).bind fun b' s₄ hb' hs₄ => ?_
  · cases names with
    | nil => exact head _ rfl rfl
    | cons n names => simp [includes]
  refine (includes_builds (head _ rfl rfl) (head _ rfl rfl) hs₄).read fun ms s₅ hms hs₅ => ?_
  refine (sections_builds hi hpublic canonical hs₅).before fun ys s₆ hys hs₆ => ?_
  refine (expect_gives hs₆).last fun _ _ => ?_
  simp only [Expr.erase, hn, hqs, hb', hms, hys]

theorem pair_builds (hi : inner.Builds d) {p : Pair}
    (hp : p.key.isSome = true ∧ p.value.isSome = true)
    (h : AllCanonical (Expr.optionNodes p.key) ∧ AllCanonical (Expr.optionNodes p.value)) :
    Builds (pair inner) d p.pieces p.weight Ends fun q => q.erase = p.erase := by
  obtain ⟨loc, key, value⟩ := p
  obtain ⟨key, rfl⟩ := Option.isSome_iff_exists.1 hp.1
  obtain ⟨value, rfl⟩ := Option.isSome_iff_exists.1 hp.2
  intro s rest hs hrest
  simp only [Pair.pieces, Expr.slotPieces, List.append_assoc, List.cons_append] at hs
  refine (hi.expr key h.1 _ _ hs (ends_mark (by simp))).bind fun k s₁ hk hs₁ => ?_
  refine (expect_gives hs₁).read fun t s₂ _ hs₂ => ?_
  refine (hi.expr value h.2 _ _ hs₂ hrest).last fun v hv => ?_
  simp only [Pair.erase, Expr.eraseSlot, hk, hv]

theorem hash_builds (hi : inner.Builds d) {loc : Location} {ps : List Pair}
    (h : AllCanonical (Expr.hash loc ps).nodes)
    (hs : Faces d s ((Expr.hash loc ps).pieces ++ rest)) :
    Gives s (Expr.hash loc ps).weight (fun e => e.erase = (Expr.hash loc ps).erase) d rest
      (hash inner s) := by
  obtain ⟨⟨⟨-, hfilled⟩, -, -⟩, h⟩ := AllNodes.cons_iff.1 h
  have hnodes : ∀ p ∈ ps, AllCanonical (Expr.optionNodes p.key) ∧
      AllCanonical (Expr.optionNodes p.value) := fun p hp =>
    ⟨fun n hn => h n (Pair.mem_listNodes.2 ⟨p, hp, .inl hn⟩),
      fun n hn => h n (Pair.mem_listNodes.2 ⟨p, hp, .inr hn⟩)⟩
  simp only [Expr.pieces, List.cons_append, List.append_assoc, List.nil_append] at hs
  refine (advance_gives hs).read fun first s₁ _ hs₁ => ?_
  have items : Gives s₁ (Pair.listWeight ps) (fun qs => qs.map Pair.erase = ps.map Pair.erase) d
      (mark .rbrace :: rest) (separatedUntil .rbrace (pair inner) s₁) := by
    refine separatedUntil_builds separated_pairs (fun _ => ends_mark (by simp))
      (fun _ => ends_mark (by simp)) (by simp) ?_ ?_ hs₁
    · intro p hp qs
      obtain ⟨key, hkey⟩ := Option.isSome_iff_exists.1 (hfilled p hp).1
      have := (hnodes p hp).1
      obtain ⟨loc, _, value⟩ := p
      obtain rfl := hkey
      rw [Pair.pieces, List.append_assoc]
      exact headKind_expr_ne this rfl _
    · exact fun p hp => pair_builds hi (hfilled p hp) (hnodes p hp)
  refine items.before fun qs s₂ hqs hs₂ => ?_
  refine (expect_gives hs₂).last fun _ _ => ?_
  simp only [Expr.erase, Pair.eraseList_eq_map, hqs]

theorem atom_builds {e : Expr} {p : Piece}
    (he : ∀ loc, (atom? loc p.kind).map Expr.erase = some e.erase)
    (hs : Faces d s (p :: rest)) :
    Gives s .zero (fun e' => e'.erase = e.erase) d rest (atom s) := by
  obtain ⟨e', heq, he'⟩ := Option.map_eq_some_iff.1 (he s.current.loc)
  unfold atom
  rw [hs.kind_eq, headKind_cons, heq]
  exact (advance_gives hs).last fun _ _ => he'

theorem primary_builds (hi : inner.Builds d) {e : Expr} (h : AllCanonical e.nodes)
    (hpost : e.isPostfix = true) (hlink : e.isLink = false) (hs : Faces d s (e.pieces ++ rest)) :
    Gives s e.weight (fun e' => e'.erase = e.erase) d rest (primary inner s) := by
  unfold primary
  cases e with
  | ident | nil | bool | int | real | string | receiver =>
    rw [hs.kind_eq]
    exact atom_builds (fun _ => rfl) hs
  | array loc items =>
    rw [hs.kind_eq]
    exact array_builds hi h hs
  | hash loc pairs =>
    rw [hs.kind_eq]
    exact hash_builds hi h hs
  | routine loc ps body =>
    rw [hs.kind_eq]
    exact routine_builds hi h hs
  | classDef loc text ps b names xs =>
    rw [hs.kind_eq]
    exact classDef_builds hi h hs
  | package loc text body =>
    rw [hs.kind_eq]
    exact package_builds hi h hs
  | paren loc inner =>
    rw [hs.kind_eq]
    exact paren_builds hi h hs
  | index | call | member => cases hlink
  | unary | binary | assign => cases hpost

end Parser

end LarkCheck
