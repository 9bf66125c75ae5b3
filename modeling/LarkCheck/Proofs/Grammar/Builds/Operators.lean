import LarkCheck.Proofs.Grammar.Builds.Literals

/-!
# What the productions of operators build

A chain is read link by link, so its tree is taken apart from the top down to the
start of the chain. Each link finds below it all that was read before, and in
front of it a token that does not let the rest of the chain go on without it. The
binary operators of all levels stand in one chain: the right operand of an operator
ends in front of the next one that does not bind more tightly.
-/

namespace LarkCheck

open Token LarkCheck.Parser Piece

namespace Parser

variable {inner : Nested} {d : Nat} {s : State} {rest : List Piece}

section Links

variable {s₀ : State} {v : Weight} {loc : Location} {object e : Expr}

theorem callLink_reaches (hi : inner.Builds d) {args : List Expr} (he : e.erase = object.erase)
    (h : AllCanonical (Expr.listNodes args)) (hg : Grown s₀ v s)
    (hs : Faces d s (mark .lparen :: (Expr.listPieces args ++ mark .rparen :: rest))) :
    Reaches .ok (Fits s₀ (v.link (Expr.listWeight args)))
      (Grown s₀ (v.link (Expr.listWeight args)))
      (fun e' => e'.erase = (Expr.call loc (some object) args).erase) d rest
      (postfixLink inner e s) := by
  refine raise_reaches hg hs fun s₁ hs₁ => (advance_gives hs₁).read fun t s₂ ht hs₂ => ?_
  have hk : t.kind = .punctuation .lparen := by
    rw [ht, hs₁.kind_eq]
    rfl
  rw [hk]
  refine (exprsTo_builds hi (fun _ => ends_mark (by simp)) (by simp) rfl h hs₂).last
    fun es hes => ?_
  simp only [Expr.erase, Expr.eraseSlot, he, hes]

theorem indexLink_reaches (hi : inner.Builds d) {index : Expr} (he : e.erase = object.erase)
    (h : AllCanonical index.nodes) (hg : Grown s₀ v s)
    (hs : Faces d s (mark .lbracket :: (index.pieces ++ mark .rbracket :: rest))) :
    Reaches .ok (Fits s₀ (v.link index.weight.deeper)) (Grown s₀ (v.link index.weight.deeper))
      (fun e' => e'.erase = (Expr.index loc (some object) (some index)).erase) d rest
      (postfixLink inner e s) := by
  refine raise_reaches hg hs fun s₁ hs₁ => (advance_gives hs₁).read fun t s₂ ht hs₂ => ?_
  have hk : t.kind = .punctuation .lbracket := by
    rw [ht, hs₁.kind_eq]
    rfl
  rw [hk]
  refine (hi.expr index h _ _ hs₂ (ends_mark (by simp))).before fun i s₃ hi' hs₃ => ?_
  refine (expect_gives hs₃).last fun _ _ => ?_
  simp only [Expr.erase, Expr.eraseSlot, he, hi']

theorem memberLink_reaches {text : String} (he : e.erase = object.erase) (hg : Grown s₀ v s)
    (hs : Faces d s (mark .dot :: name text :: rest)) :
    Reaches .ok (Fits s₀ (v.link .zero)) (Grown s₀ (v.link .zero))
      (fun e' => e'.erase = (Expr.member loc (some object) text).erase) d rest
      (postfixLink inner e s) := by
  refine raise_reaches hg hs fun s₁ hs₁ => (advance_gives hs₁).read fun t s₂ ht hs₂ => ?_
  have hk : t.kind = .punctuation .dot := by
    rw [ht, hs₁.kind_eq]
    rfl
  rw [hk]
  refine (identifier_gives hs₂).last fun n hn => ?_
  simp only [Expr.erase, Expr.eraseSlot, he, hn]

end Links

/-- The links of a postfix chain are read one by one, on top of the same object. -/
theorem postfixLinks_reach (hi : inner.Builds d) (e : Expr) (h : AllCanonical e.nodes)
    (hpost : e.isPostfix = true) (rest : List Piece) (hs : Faces d s (e.pieces ++ rest))
    (hpeak : s.peak = s.level) :
    Reaches (links (fun s => opensPostfix s.current.kind) (postfixLink inner)) (Fits s e.weight)
      (Grown s e.weight) (fun e' => e'.erase = e.erase) d rest
      ((primary inner >>= fun first =>
        links (fun s => opensPostfix s.current.kind) (postfixLink inner) first) s) := by
  by_cases hlink : e.isLink = true
  · cases e with
    | index loc object index =>
      obtain ⟨⟨⟨⟨o, rfl, ho⟩, hfilled⟩, -, -⟩, h⟩ := AllNodes.cons_iff.1 h
      obtain ⟨hobject, hindex⟩ := AllNodes.append_iff.1 h
      obtain ⟨i, rfl⟩ := Option.isSome_iff_exists.1 hfilled
      simp only [Expr.pieces, Expr.slotPieces, List.append_assoc, List.cons_append,
        List.nil_append] at hs
      refine (postfixLinks_reach hi o hobject ho _ hs hpeak).link ?_ ?_ ?_
      · exact fun s hs => by simp [hs.kind_eq, opensPostfix]
      · simp only [List.length_cons, List.length_append]
        omega
      · exact fun a s₁ ha hg hs₁ => indexLink_reaches hi ha hindex hg hs₁
    | call loc callee args =>
      obtain ⟨⟨⟨⟨o, rfl, ho⟩, -⟩, -, -⟩, h⟩ := AllNodes.cons_iff.1 h
      obtain ⟨hcallee, hargs⟩ := AllNodes.append_iff.1 h
      simp only [Expr.pieces, Expr.slotPieces, List.append_assoc, List.cons_append,
        List.nil_append] at hs
      refine (postfixLinks_reach hi o hcallee ho _ hs hpeak).link ?_ ?_ ?_
      · exact fun s hs => by simp [hs.kind_eq, opensPostfix]
      · simp only [List.length_cons, List.length_append]
        omega
      · exact fun a s₁ ha hg hs₁ => callLink_reaches hi ha hargs hg hs₁
    | member loc object text =>
      obtain ⟨⟨⟨⟨o, rfl, ho⟩, -⟩, -, -⟩, hobject⟩ := AllNodes.cons_iff.1 h
      simp only [Expr.pieces, Expr.slotPieces, List.append_assoc, List.cons_append,
        List.nil_append] at hs
      refine (postfixLinks_reach hi o hobject ho _ hs hpeak).link ?_ ?_ ?_
      · exact fun s hs => by simp [hs.kind_eq, opensPostfix]
      · simp only [List.length_cons]
        omega
      · exact fun a s₁ ha hg hs₁ => memberLink_reaches ha hg hs₁
    | _ => cases hlink
  · exact (primary_builds hi h hpost (by simpa using hlink) hs).startsLinks hpeak
termination_by e

theorem postfixed_builds (hi : inner.Builds d) {e : Expr} (h : AllCanonical e.nodes)
    (hpost : e.isPostfix = true) :
    Builds (postfixed inner) d e.pieces e.weight
      (fun rest => opensPostfix (headKind rest) = false) fun e' => e'.erase = e.erase := by
  intro s rest hs hrest
  refine chain_gives hs fun s₀ hs₀ hpeak => ?_
  refine (postfixLinks_reach hi e h hpost rest hs₀ hpeak).done fun s hs => ?_
  rw [hs.kind_eq, hrest]

theorem unary_builds (hi : inner.Builds d) {e : Expr} (h : AllCanonical e.nodes)
    (hassign : e.isAssignment = false) (hlevel : e.level? = none) :
    Builds (unary inner) d e.pieces e.weight (Stops 9) fun e' => e'.erase = e.erase := by
  intro s rest hs hrest
  unfold unary
  by_cases hpost : e.isPostfix = true
  · obtain ⟨p, ps, heq, -, hunary⟩ := e.head_pieces h.grammatical
    have hk : unaryOf? s.current.kind = none := by
      rw [hs.kind_eq, heq]
      exact hunary hpost
    rw [hk]
    exact postfixed_builds hi h hpost s rest hs hrest.opensPostfix_eq
  · cases e with
    | unary loc op operand =>
      obtain ⟨⟨⟨⟨hop, o, rfl, ho⟩, -⟩, -, -⟩, hoperand⟩ := AllNodes.cons_iff.1 h
      have hk : unaryOf? s.current.kind = some op := by
        rw [hs.kind_eq]
        simp [Expr.pieces, unaryOf?, Kind.operator?, hop]
      rw [hk]
      refine (advance_gives hs).read fun first s₁ _ hs₁ => ?_
      refine (hi.unary o hoperand ho.1 ho.2 s₁ rest hs₁ hrest).last fun e' he' => ?_
      simp only [Expr.erase, Expr.eraseSlot, he']
    | binary => cases hlevel
    | assign => cases hassign
    | _ => exact absurd rfl hpost

/-- The parser reads the operands that bind from the rank `r` on. -/
def OperandBuilds (operand : Parser Expr) (d r : Nat) : Prop :=
  ∀ e : Expr, AllCanonical e.nodes → e.BindsFrom r →
    Builds operand d e.pieces e.weight (Stops r) fun e' => e'.erase = e.erase

theorem unary_operandBuilds (hi : inner.Builds d) : OperandBuilds (unary inner) d 9 := by
  intro e h hbinds
  refine unary_builds hi h hbinds.1 ?_
  cases hl : e.level? with
  | none => rfl
  | some level =>
    have := hbinds.2 level hl
    have := level.rank_lt
    omega

section Climb

variable {least : Level}
  (hright : ∀ level, least.rank ≤ level.rank →
    OperandBuilds (rightOperand inner level) d (level.rank + 1))

include hright

theorem binaryLink_reaches {s₀ : State} {v : Weight} {loc : Location} {op : Operator}
    {level : Level} {left right e : Expr} (hle : least.rank ≤ level.rank)
    (hop : op.level? = some level) (he : e.erase = left.erase) (h : AllCanonical right.nodes)
    (hbinds : right.BindsFrom (level.rank + 1)) (hg : Grown s₀ v s)
    (hs : Faces d s (symbol op :: (right.pieces ++ rest))) (hrest : Stops (level.rank + 1) rest) :
    Reaches .ok (Fits s₀ (v.link right.weight)) (Grown s₀ (v.link right.weight))
      (fun e' => e'.erase = (Expr.binary loc level op (some left) (some right)).erase) d rest
      (binaryLink inner least e s) := by
  have hk : binaryOf? least s.current.kind = some (op, level) :=
    binaryOf?_eq_some.2 ⟨hs.kind_eq, hop, hle⟩
  obtain ⟨s₁, hrun, hw, hs₁, -⟩ := advance_eq hs
  rw [binaryLink_of_some hk]
  change Reaches _ _ _ _ _ _ (EStateM.bind advance _ s)
  rw [EStateM.bind, hrun]
  refine raise_reaches (hg.read hs.toBounded hw) hs₁ fun s₂ hs₂ => ?_
  refine (hright level hle right h hbinds s₂ rest hs₂ hrest).last fun e' he' => ?_
  simp only [Expr.erase, Expr.eraseSlot, he, he']

/-- The operators of a chain are read one by one, on top of the same left operand. What follows the
last operand must not go on with it; whether it goes on with the chain does not matter. -/
theorem binaryLinks_reach (hi : inner.Builds d) (e : Expr) (h : AllCanonical e.nodes)
    (hbinds : e.BindsFrom least.rank) (rest : List Piece) (hs : Faces d s (e.pieces ++ rest))
    (hrest : Stops e.lastRank rest) (hpeak : s.peak = s.level) :
    Reaches (links (fun s => (binaryOf? least s.current.kind).isSome) (binaryLink inner least))
      (Fits s e.weight) (Grown s e.weight) (fun e' => e'.erase = e.erase) d rest
      ((unary inner >>= fun first =>
        links (fun s => (binaryOf? least s.current.kind).isSome) (binaryLink inner least) first)
        s) := by
  cases hlevel : e.level? with
  | some level =>
    cases e with
    | binary loc own op left right =>
      cases hlevel
      have hle : least.rank ≤ level.rank := hbinds.2 level rfl
      obtain ⟨⟨⟨⟨hop, ⟨l, rfl, hl⟩, r, rfl, hr⟩, -⟩, -, -⟩, h⟩ := AllNodes.cons_iff.1 h
      obtain ⟨hleft, hcanonical⟩ := AllNodes.append_iff.1 h
      simp only [Expr.pieces, Expr.slotPieces, List.append_assoc, List.cons_append] at hs
      -- The last operand on the left is tighter than the operator, so it ends in front of it.
      have hstops : Stops l.lastRank (symbol op :: (r.pieces ++ rest)) :=
        stops_symbol hop hl.lt_lastRank
      refine (binaryLinks_reach hi l hleft (hl.mono hle) _ hs hstops hpeak).link ?_ ?_ ?_
      · exact fun s hs => by simp [binaryOf?_eq_some.2 ⟨hs.kind_eq, hop, hle⟩]
      · simp only [List.length_cons, List.length_append]
        omega
      · exact fun a s₁ ha hg hs₁ =>
          binaryLink_reaches hright hle hop ha hcanonical hr hg hs₁ hrest
    | _ => cases hlevel
  | none =>
    rw [Expr.lastRank, hlevel] at hrest
    exact (unary_builds hi h hbinds.1 hlevel s rest hs hrest).startsLinks hpeak
termination_by e

end Climb

theorem climb_builds (hi : inner.Builds d) (least : Level) :
    OperandBuilds (climb inner least) d least.rank := by
  refine climb_induction (P := fun r p => OperandBuilds p d r) (unary_operandBuilds hi)
    (fun least hright e h hbinds s rest hs hrest => ?_) least
  rw [climb]
  refine chain_gives hs fun s₀ hs₀ hpeak => ?_
  refine (binaryLinks_reach hright hi e h hbinds rest hs₀
    (hrest.mono (Nat.le_of_lt hbinds.lt_lastRank)) hpeak).done fun s hs => ?_
  rw [hs.kind_eq, hrest.binaryOf?_eq]
  rfl

theorem assignment_builds (hi : inner.Builds d) {e : Expr} (h : AllCanonical e.nodes) :
    Builds (assignment inner) d e.pieces e.weight Ends fun e' => e'.erase = e.erase := by
  intro s rest hs hrest
  by_cases hassign : e.isAssignment = true
  · cases e with
    | assign loc target value =>
      obtain ⟨⟨⟨⟨t, rfl, ht⟩, hfilled⟩, -, -⟩, h⟩ := AllNodes.cons_iff.1 h
      obtain ⟨htarget, hvalue⟩ := AllNodes.append_iff.1 h
      obtain ⟨v, rfl⟩ := Option.isSome_iff_exists.1 hfilled
      simp only [Expr.pieces, Expr.slotPieces, List.append_assoc, List.cons_append] at hs
      refine (climb_builds hi .loosest t htarget (Expr.bindsFrom_of_isAssignable ht) s _ hs
        rfl).bind fun t' s₁ ht' hs₁ => ?_
      refine (current_gives hs₁).read fun next s₂ hnext hs₂ => ?_
      have hk : next.kind = .operator .assign := by
        rw [hnext, hs₁.kind_eq]
        rfl
      rw [if_pos hk, if_pos ((Expr.isAssignable_of_erase ht').trans ht)]
      refine (advance_gives hs₂).read fun _ s₃ _ hs₃ => ?_
      refine (hi.expr v hvalue s₃ rest hs₃ hrest).last fun v' hv' => ?_
      simp only [Expr.erase, Expr.eraseSlot, ht', hv']
    | _ => cases hassign
  · have hbinds : e.BindsFrom 0 := ⟨by simpa using hassign, fun _ _ => Nat.zero_le _⟩
    refine (climb_builds hi .loosest e h hbinds s rest hs hrest.1).before fun e' s₁ he' hs₁ => ?_
    refine (current_gives hs₁).read fun next s₂ hnext hs₂ => ?_
    have hk : next.kind ≠ .operator .assign := by
      rw [hnext, hs₁.kind_eq]
      exact hrest.2
    rw [if_neg hk]
    exact gives_pure hs₂ he'

end Parser

end LarkCheck
