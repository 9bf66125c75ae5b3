import LarkCheck.Proofs.Grammar.Twin.Literals
import LarkCheck.Proofs.Tree.Shape

/-!
# Operators on tokens that begin alike

The links of a chain are read on top of one another, so the two runs stand at the
same level in front of each. An expression goes on as long as it can: it ends in
front of a token of a later line only if that token does not continue it.
-/

namespace LarkCheck

open Token

namespace Parser

variable {f : Location → Location} {tight : Bool} {n : Nat} {inner : Nested} {P : Prop}
  {s : State} {e e' : Expr}

theorem kind_move (token : Token) : (move f token).kind = token.kind := rfl

theorem Twin.postfixLink (hi : inner.Twins f n) (hs : s.Sound)
    (hk : opensPostfix s.current.kind = true) :
    Twin f true s (postfixLink inner e) (postfixLink inner (move f e)) (fun _ => True) true
      [.nil] := by
  obtain ⟨mark, hmark, hk⟩ := opensPostfix_eq_true hk
  refine .raise hs fun {s₁} hs₁ hcurrent => ?_
  have hkind : s₁.current.kind = .punctuation mark := by rw [hcurrent, hmark]
  have heof : s₁.current.kind ≠ .eof := by simp [hkind]
  rcases hk with rfl | rfl | rfl
  · refine .take [.punctuation .rparen] hs₁ heof fun s₂ => ?_
    simp only [kind_move, hkind]
    refine .bind [] (Part.exprsTo hi .rparen ⟨rfl, by simp⟩ (by simp)).free (fun _ _ => trivial)
      (.inl rfl) fun args args' s₃ => .pure ?_
    rintro ⟨-, rfl⟩
    simp [move, Expr.move, ← Expr.loc_move]
  · refine .enter (n := n) [.nil, .punctuation .rbracket] hs₁ heof (fun s₂ => ?_) fun hno => ?_
    · simp only [kind_move, hkind]
      refine .bind [.punctuation .rbracket] hi.expr.tail (fun _ _ => ⟨rfl, by simp⟩) (.inl rfl)
        fun index index' s₃ => ?_
      refine .expect [] (by simp) trivial fun _ _ s₄ => .pure ?_
      rintro ⟨⟨-, rfl⟩, -⟩
      simp [move, Expr.move, ← Expr.loc_move]
    · simp only [hkind]
      exact (hi.blocked hno).bind
  · refine .take [.ident "x"] hs₁ heof fun s₂ => ?_
    simp only [kind_move, hkind]
    refine .identifier [] fun name name' s₃ => .pure ?_
    rintro ⟨-, rfl⟩
    simp [move, Expr.move, ← Expr.loc_move]

/-- Links on top of the same value. -/
theorem Tail.links {more : State → Bool} {m : Kind → Bool} {link : Expr → Parser Expr}
    {F Fi : Kind → Prop} {ci : List Kind} (hmore : ∀ s, more s = m s.current.kind)
    (hlink : ∀ {e s}, s.Sound → m s.current.kind = true →
      Twin f tight s (link e) (link (move f e)) Fi true ci)
    (hci : ci ≠ []) (hF : ∀ kind, F kind → m kind = false ∧ Fi kind) (he : P → e' = move f e) :
    Tail f tight n false P s (links more link e) (links more link e') F true [] where
  twin hP hs _ := by
    rw [he hP]
    exact .links hmore hlink hci hF hs
  starts := .stay fun t ht => ⟨_, links_stops hmore (hF _ ht).1⟩

theorem Part.postfixed (hi : inner.Twins f n) :
    Part f tight 0 false (postfixed inner) (Kind.Quiet 9) true [.nil] := by
  refine .chain (.of_tail (fun s => ?_) nofun)
  refine .bind [] (Part.primary hi).free (fun _ _ => trivial) (.inl rfl) fun first first' s₁ => ?_
  exact .links (m := opensPostfix) (fun _ => rfl) (fun hs hk => .postfixLink hi hs hk)
    (List.cons_ne_nil _ _) (fun kind h => ⟨Token.Kind.Quiet.opensPostfix_eq h, trivial⟩)
    fun h => h.2

theorem Part.unary (hi : inner.Twins f n) :
    Part f tight 0 false (unary inner) (Kind.Quiet 9) true [.nil] where
  twin {s} hs := by
    cases hop : unaryOf? s.current.kind with
    | none =>
      have postfixes : ∀ {t : State}, t.current.kind = s.current.kind →
          Parser.unary inner t = Parser.postfixed inner t := fun ht => by
        simp only [Parser.unary, ht, hop]
      exact ((Part.postfixed hi).twin hs).of_eq (postfixes rfl)
        (fun t ht => postfixes (kind_eq_of_move ht)) (List.cons_ne_nil _ _)
    | some op =>
      have signs : ∀ {t : State}, t.current.kind = s.current.kind → Parser.unary inner t =
          (do
            let first ← advance
            let operand ← inner.unary
            return .unary first.loc op (some operand) : Parser Expr) t := fun ht => by
        simp only [Parser.unary, ht, hop]
      have hk : s.current.kind ≠ .eof := fun hk => by
        rw [hk] at hop
        cases hop
      refine Twin.of_eq ?_ (signs rfl) (fun t ht => signs (kind_eq_of_move ht))
        (List.cons_ne_nil _ _)
      have hunary : Part f tight n true inner.unary (Kind.Quiet 9) true [.nil] := hi.unary
      refine .enter [.nil] hs hk (fun s₁ => ?_) fun hno => (hunary.blocked rfl hno).bind
      refine .bind [] hunary.tail (fun _ => id) (.inl rfl) fun operand operand' s₂ => .pure ?_
      rintro ⟨-, rfl⟩
      simp [move, Expr.move]
  starts :=
    have hpostfixed : Part f tight 0 false (Parser.postfixed inner) (Kind.Quiet 9) true [.nil] :=
      .postfixed hi
    .of_eq fun token htoken => ⟨_, hpostfixed.starts, fun t ht => by
      have hop : unaryOf? Kind.nil = none := rfl
      simp only [Parser.unary, ht, htoken, hop]⟩
  blocked := nofun

theorem binaryLink_eq {least level : Level} {op : Operator}
    (hop : binaryOf? least s.current.kind = some (op, level)) :
    binaryLink inner least e s = (ascend >>= fun _ => (do
      let right ← rightOperand inner level
      return .binary e.loc level op (some e) (some right) : Parser Expr)) s := by
  rw [binaryLink_of_some hop]
  simp only [ascend, bind_assoc, pure_bind]

/-- A token that does not go on with the chain does not go on with its last operand either. -/
theorem Twin.binaryLink {least : Level}
    (hright : ∀ level : Level, least.rank ≤ level.rank → ∀ {tight},
      Part f tight 0 false (rightOperand inner level) (Kind.Quiet (level.rank + 1)) true [.nil])
    (hs : s.Sound) (hk : (binaryOf? least s.current.kind).isSome = true) :
    Twin f true s (binaryLink inner least e) (binaryLink inner least (move f e))
      (Kind.Quiet least.rank) true [.nil] := by
  obtain ⟨⟨op, level⟩, hop⟩ := Option.isSome_iff_exists.1 hk
  obtain ⟨hkind, -, hle⟩ := binaryOf?_eq_some.1 hop
  refine .of_eq ?_ (binaryLink_eq hop)
    (fun t ht => binaryLink_eq (by rw [kind_eq_of_move ht, hop])) (List.cons_ne_nil _ _)
  refine .ascend [.nil] hs (by simp [hkind]) fun s₁ => ?_
  refine .bind [] (hright level hle).free
    (fun kind h => Token.Kind.Quiet.mono h (Nat.le_succ_of_le hle)) (.inl rfl)
    fun right right' s₂ => .pure ?_
  rintro ⟨-, rfl⟩
  simp [move, Expr.move, ← Expr.loc_move]

theorem Part.climb (hi : inner.Twins f n) (least : Level) :
    Part f tight 0 false (climb inner least) (Kind.Quiet least.rank) true [.nil] := by
  refine climb_induction
    (P := fun r p => ∀ {tight}, Part f tight 0 false p (Kind.Quiet r) true [.nil]) (.unary hi)
    (fun least hright => ?_) least
  intro tight
  rw [Parser.climb]
  refine .chain (.of_tail (fun s => ?_) fun h => by cases h)
  refine .bind [] (Part.unary hi).free
    (fun kind h => Token.Kind.Quiet.mono h (Nat.le_of_lt least.rank_lt)) (.inl rfl)
    fun first first' s₁ => ?_
  exact .links (m := fun kind => (binaryOf? least kind).isSome) (fun _ => rfl)
    (fun hs hk => .binaryLink hright hs hk) (List.cons_ne_nil _ _)
    (fun kind h => ⟨by rw [Token.Kind.Quiet.binaryOf?_eq h, Option.isSome_none], h⟩) fun h => h.2

/-- After what may be the target of an assignment. -/
def endOfAssignment (inner : Nested) (target : Expr) : Parser Expr := do
  let next ← current
  if next.kind = .operator .assign then
    if target.isAssignable then
      let _ ← advance
      let value ← inner.expr
      return .assign target.loc (some target) (some value)
    else
      failAt target.loc .expectedTarget ("cannot assign to " ++ target.kindName)
  else
    return target

theorem endOfAssignment_stops (h : s.current.kind ≠ .operator .assign) :
    endOfAssignment inner e s = .ok e s := by
  rw [endOfAssignment, current_bind, if_neg h]
  rfl

theorem Twin.endOfAssignment (hi : inner.Twins f n) (hs : s.Sound) :
    Twin f tight s (endOfAssignment inner e) (endOfAssignment inner (move f e)) Kind.Ending true
      [] := by
  by_cases hk : s.current.kind = .operator .assign
  · by_cases hassign : e.isAssignable = true
    · have assigns : ∀ {e : Expr} {t : State}, t.current.kind = .operator .assign →
          e.isAssignable = true → Parser.endOfAssignment inner e t = (do
            let _ ← advance
            let value ← inner.expr
            return .assign e.loc (some e) (some value) : Parser Expr) t := fun hk ha => by
        rw [Parser.endOfAssignment, current_bind, if_pos hk, if_pos ha]
      have htaken : Twin f tight s (do
            let _ ← advance
            let value ← inner.expr
            return .assign e.loc (some e) (some value) : Parser Expr) (do
            let _ ← advance
            let value ← inner.expr
            return .assign (move f e).loc (some (move f e)) (some value) : Parser Expr)
          Kind.Ending true [.nil] := by
        refine .enter [.nil] hs (by simp [hk]) (fun s₁ => ?_) fun hno =>
          (hi.blocked hno).bind
        refine .bind [] hi.expr.tail (fun _ => id) (.inl rfl) fun value value' s₂ => .pure ?_
        rintro ⟨-, rfl⟩
        simp [move, Expr.move, ← Expr.loc_move]
      refine Twin.mono (htaken.of_eq (assigns hk hassign) (fun t ht => assigns ?_ ?_)
        (List.cons_ne_nil _ _)) (fun _ => id) id nofun
      · rw [kind_eq_of_move ht, hk]
      · exact (Expr.isAssignable_move e).trans hassign
    · have fails : ∀ {e : Expr} {t : State}, t.current.kind = .operator .assign →
          ¬e.isAssignable = true →
          ∃ x t', Parser.endOfAssignment inner e t = .error x t' ∧ Passed t [] t' := fun hk ha => by
        rw [Parser.endOfAssignment, current_bind, if_pos hk, if_neg ha]
        exact ⟨_, _, rfl, rfl⟩
      refine .fault (fails hk hassign) fun t ht => ?_
      obtain ⟨x, t', hrun, -⟩ := fails ((kind_eq_of_move ht).trans hk)
        fun ha => hassign ((Expr.isAssignable_move e).symm.trans ha)
      exact ⟨x, t', hrun⟩
  · refine .stay hs (endOfAssignment_stops hk) fun t ht =>
      ⟨_, endOfAssignment_stops ?_, fun _ => rfl⟩
    exact ht.elim (fun ht => kind_eq_of_move ht ▸ hk) (·.2)

theorem Part.assignment (hi : inner.Twins f n) :
    Part f tight 0 false (assignment inner) Kind.Ending true [.nil] := by
  refine .of_tail (fun s => ?_) nofun
  refine .bind [] (Part.climb hi .loosest).free (fun _ h => h.1) (.inl rfl)
    fun target target' s₁ => ⟨?_, .stay fun t ht => ⟨_, endOfAssignment_stops ht.2⟩⟩
  rintro ⟨-, rfl⟩ hs -
  exact .endOfAssignment hi hs

end Parser

end LarkCheck
