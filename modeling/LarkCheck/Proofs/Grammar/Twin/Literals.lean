import LarkCheck.Proofs.Grammar.Follow
import LarkCheck.Proofs.Grammar.Twin.Guard

/-!
# Literals on tokens that begin alike

Each production is put together from the rules of its parts. The tokens that may
follow a part, and those that can stand for the rest of the production, are written
down where the part ends.
-/

namespace LarkCheck

open Token

/-- An expression ends in front of the token. -/
def Token.Kind.Ending (kind : Kind) : Prop :=
  kind.Quiet 0 ∧ kind ≠ .operator .assign

/-- A block ends in front of the token. -/
def Token.Kind.Closing (kind : Kind) : Prop :=
  kind.endsBlock = true

theorem Token.Kind.Closing.ending {kind : Kind} (h : kind.Closing) : kind.Ending := by
  unfold Kind.Closing at h
  unfold Kind.Ending Kind.Quiet
  cases kind <;> first | exact ⟨rfl, by simp⟩ | cases h

/-- The nesting productions on tokens that begin alike. -/
structure Nested.Twins (f : Location → Location) (n : Nat) (inner : Nested) : Prop where
  stmt : ∀ {tight s}, s.Sound →
    Parser.Twin f tight s inner.stmt inner.stmt Kind.Ending true [.nil]
  expr : ∀ {tight}, Parser.Part f tight n true inner.expr Kind.Ending true [.nil]
  unary : ∀ {tight}, Parser.Part f tight n true inner.unary (Kind.Quiet 9) true [.nil]
  steady : Parser.Steady inner.expr
  overruns : ∀ {s}, ¬Parser.Room n s → ∃ x s', inner.expr s = .error x s' ∧ s'.Overran

theorem Nested.Twins.blocked {f : Location → Location} {n : Nat} {inner : Nested}
    (hi : inner.Twins f n) {s : Parser.State} (hno : ¬Parser.Room n s) :
    Parser.Blocked s inner.expr := by
  obtain ⟨x, s', hrun, hover⟩ := hi.overruns hno
  exact ⟨x, s', hrun, hover.not_objected⟩

namespace Parser

instance : Nonempty Expr := ⟨.nil .start⟩
instance : Nonempty Base := ⟨⟨⟨.start, ""⟩, []⟩⟩
instance : Nonempty Section := ⟨⟨.start, .publicPart, none⟩⟩
instance : Nonempty Block := ⟨⟨.start, []⟩⟩
instance : Nonempty Branch := ⟨⟨.start, none, none⟩⟩

variable {f : Location → Location} {tight : Bool} {n : Nat} {inner : Nested} {P : Prop}
  {s : State}

/-- A block is empty in front of a token that ends it. -/
theorem stmts_stop (h : s.current.kind.Closing) :
    Parser.many (fun s => !s.current.kind.endsBlock) inner.stmt s = .ok [] s :=
  many_eq_nil (by simp [show s.current.kind.endsBlock = true from h])

theorem Part.stmts (hi : inner.Twins f n) :
    Part f tight 0 false (Parser.many (fun s => !s.current.kind.endsBlock) inner.stmt)
      Kind.Closing true [] :=
  .many (m := fun kind => !kind.endsBlock) (fun _ => rfl) (fun hs _ => hi.stmt hs)
    (List.cons_ne_nil _ _) fun kind h => ⟨by simp [show kind.endsBlock = true from h], h.ending⟩

theorem Part.block (hi : inner.Twins f n) :
    Part f tight 0 false (block inner) Kind.Closing false [] := by
  refine .of_tail (fun s => ?_) nofun
  refine .bind [] .current (fun _ _ => trivial) (.inr (.inr ⟨rfl, ?_⟩)) fun first first' s₁ => ?_
  · exact blind_of_starts fun first t h => ⟨_, by rw [bind_of_ok (stmts_stop h)]; rfl⟩
  refine .bind [] (Part.stmts hi).free (fun _ => id) (.inl rfl) fun xs ys s₂ => .pure ?_
  rintro ⟨⟨-, rfl⟩, rfl⟩
  simp [move, Block.move]

theorem block_stops (h : s.current.kind.Closing) : ∃ b, block inner s = .ok b s :=
  ⟨_, bind_of_ok (stmts_stop h)⟩

theorem Part.blockToEnd (hi : inner.Twins f n) :
    Part f tight 0 false (blockToEnd inner) (fun _ => True) true [.keyword .endKw] := by
  refine .of_tail (fun s => ?_) nofun
  refine .bind [.keyword .endKw] (Part.block hi).free (fun _ _ => rfl) (.inr (.inl (by simp)))
    fun body body' s₁ => ?_
  exact .expect [] (by simp) (by decide) fun _ _ s₂ => .pure fun ⟨⟨_, hbody⟩, _⟩ => hbody

/-- After the name of a parameter without a default. -/
def endOfOutput (loc : Location) (name : Name) : Parser Param := do
  let next ← current
  if next.kind = .operator .assign then
    failAt next.loc .outputParameterDefault ("`out " ++ name.text ++ "` cannot have a default")
  else
    return .output loc name.text

theorem Tail.endOfOutput {loc : Location} {name name' : Name} (h : P → name' = move f name) :
    Tail f tight n false P s (endOfOutput loc name) (endOfOutput (f loc) name') Kind.Ending true []
    where
  twin hP hs _ := by
    have stays : ∀ {loc name} {t : State}, t.current.kind ≠ .operator .assign →
        Parser.endOfOutput loc name t = .ok (.output loc name.text) t := fun h => by
      rw [Parser.endOfOutput, current_bind, if_neg h]
      rfl
    by_cases hk : s.current.kind = .operator .assign
    · have fails : ∀ {loc name} {t : State}, t.current.kind = .operator .assign →
          ∃ x t', Parser.endOfOutput loc name t = .error x t' ∧ Passed t [] t' := fun h => by
        rw [Parser.endOfOutput, current_bind, if_pos h]
        exact ⟨_, _, rfl, rfl⟩
      refine .fault (fails hk) fun t ht => ?_
      obtain ⟨x, t', hrun, -⟩ := fails ((kind_eq_of_move ht).trans hk)
      exact ⟨x, t', hrun⟩
    · refine .stay hs (stays hk) fun t ht => ⟨_, stays ?_, fun _ => ?_⟩
      · exact ht.elim (fun ht => (kind_eq_of_move ht) ▸ hk) (·.2)
      · rw [h hP]
        rfl
  starts := .stay fun t ht => ⟨.output (f loc) name'.text, by
    rw [Parser.endOfOutput, current_bind, if_neg ht.2]
    rfl⟩

theorem Twin.outputParam {loc : Location} (hs : s.Sound) (hk : s.current.kind ≠ .eof) :
    Twin f tight s (outputParam loc) (outputParam (f loc)) Kind.Ending true [.nil] := by
  refine .take [.ident "x"] hs hk fun s₁ => ?_
  exact .identifier [] fun name name' s₂ => .endOfOutput fun ⟨_, hname⟩ => hname

theorem Tail.valueParam (hi : inner.Twins f n) {loc loc' : Location} (h : P → loc' = f loc) :
    Tail f tight 0 false P s (valueParam inner loc) (valueParam inner loc') Kind.Ending true
      [.ident "x"] := by
  refine .identifier [] fun name name' s₁ => ?_
  refine .bind [] (hi.expr.after? (by simp)).free (fun _ h => ⟨h, h.2⟩) (.inl rfl)
    fun default default' s₂ => .pure ?_
  rintro ⟨⟨hP, rfl⟩, rfl⟩
  simp [move, Param.move, h hP]

theorem param_of_out (h : s.current.kind = .keyword .outKw) :
    param inner s = outputParam s.current.loc s := by
  rw [param, current_bind, if_pos h]

theorem param_of_not_out (h : s.current.kind ≠ .keyword .outKw) :
    param inner s = valueParam inner s.current.loc s := by
  rw [param, current_bind, if_neg h]

theorem Part.param (hi : inner.Twins f n) :
    Part f tight 0 false (param inner) Kind.Ending true [.ident "x"] where
  twin {s} hs := by
    by_cases hk : s.current.kind = .keyword .outKw
    · refine Twin.mono (.of_eq (.outputParam hs (by simp [hk])) (param_of_out hk) (fun t ht => ?_)
        (List.cons_ne_nil _ _)) (fun _ => id) id fun _ => List.cons_ne_nil _ _
      rw [param_of_out ((kind_eq_of_move ht).trans hk), ht]
      rfl
    · refine .of_eq ((Tail.valueParam (P := True) hi fun _ => rfl).twin trivial hs nofun)
        (param_of_not_out hk) (fun t ht => ?_) (List.cons_ne_nil _ _)
      rw [param_of_not_out (kind_eq_of_move ht ▸ hk), ht]
      rfl
  starts := .of_eq fun token htoken => by
    have hvalue : Tail f tight 0 false False (.start []) (valueParam inner token.loc)
        (valueParam inner token.loc) Kind.Ending true [.ident "x"] := .valueParam hi nofun
    exact ⟨_, hvalue.starts, fun t ht => by rw [param_of_not_out (by simp [ht, htoken]), ht]⟩
  blocked := nofun

theorem Part.params (hi : inner.Twins f n) :
    Part f tight 0 false (params inner) (fun _ => True) true
      [.punctuation .lparen, .punctuation .rparen] := by
  refine .of_tail (fun s => ?_) nofun
  refine .expect [.punctuation .rparen] (by simp) (by decide) fun _ _ s₁ => ?_
  refine .bind [.punctuation .rparen] ((Part.param hi).separatedUntil .rparen (List.cons_ne_nil _ _)
    ⟨rfl, by simp⟩ (by simp)).free (fun _ _ => rfl) (.inl rfl) fun ps ps' s₂ => ?_
  exact .expect [] (by simp) (by decide) fun _ _ s₃ => .pure fun ⟨⟨_, hps⟩, _⟩ => hps

/-- A closing mark is not a comma, and no expression goes on with it. -/
theorem Part.exprsTo (hi : inner.Twins f n) (close : Punctuation) {code : Diagnostic.Code}
    (hclose : (Kind.punctuation close).Ending) (hne : close ≠ .comma) :
    Part f tight 0 false (exprsTo inner close code) (fun _ => True) true [.punctuation close] := by
  refine .of_tail (fun s => ?_) nofun
  refine .bind [.punctuation close] (hi.expr.separatedUntil close (List.cons_ne_nil _ _)
    hclose hne).free (fun _ _ => rfl) (.inl rfl) fun es es' s₁ => ?_
  exact .expect [] (by simp) trivial fun _ _ s₂ => .pure fun ⟨⟨_, hes⟩, _⟩ => hes

theorem Twin.routine (hi : inner.Twins f n) (hs : s.Sound) (hk : s.current.kind ≠ .eof) :
    Twin f tight s (routine inner) (routine inner) (fun _ => True) true [.nil] := by
  refine .take [.punctuation .lparen, .punctuation .rparen, .keyword .endKw] hs hk fun s₁ => ?_
  refine .bind [.keyword .endKw] (Part.params hi).free (fun _ _ => trivial) (.inl rfl)
    fun ps ps' s₂ => ?_
  refine .bind [] (Part.blockToEnd hi).free (fun _ _ => trivial) (.inl rfl)
    fun body body' s₃ => .pure ?_
  rintro ⟨⟨-, rfl⟩, rfl⟩
  simp [move, Expr.move]

theorem Part.base (hi : inner.Twins f n) :
    Part f tight 0 false (base inner) (fun _ => True) true
      [.ident "x", .punctuation .lparen, .punctuation .rparen] := by
  refine .of_tail (fun s => ?_) nofun
  refine .identifier [.punctuation .lparen, .punctuation .rparen] fun name name' s₁ => ?_
  refine .expect [.punctuation .rparen] (by simp) trivial fun _ _ s₂ => ?_
  refine .bind [] (Part.exprsTo hi .rparen ⟨rfl, by simp⟩ (by simp)).free (fun _ _ => trivial)
    (.inl rfl) fun args args' s₃ => .pure ?_
  rintro ⟨⟨⟨-, rfl⟩, -⟩, rfl⟩
  simp [move, Base.move]

theorem Part.sectionBody (hi : inner.Twins f n) (access : Access) :
    Part f tight 0 false (sectionBody inner access) Kind.Closing false [] := by
  refine .of_tail (fun s => ?_) nofun
  refine .bind [] .current (fun _ _ => trivial) (.inr (.inr ⟨rfl, ?_⟩)) fun first first' s₁ => ?_
  · refine blind_of_starts fun first t h => ?_
    obtain ⟨b, hb⟩ := @block_stops inner _ h
    exact ⟨_, by rw [bind_of_ok hb]; rfl⟩
  refine .bind [] (Part.block hi).free (fun _ => id) (.inr (.inr ⟨rfl, ?_⟩))
    fun body body' s₂ => .pure ?_
  · exact blind_of_starts fun body t _ => ⟨_, rfl⟩
  rintro ⟨⟨-, rfl⟩, rfl⟩
  simp [move, Section.move]

theorem Twin.furtherSection (hi : inner.Twins f n) (hs : s.Sound)
    (hk : s.current.kind ≠ .eof) :
    Twin f tight s (furtherSection inner) (furtherSection inner) Kind.Closing false [.nil] :=
  .take [] hs hk fun _ => (Part.sectionBody hi _).free

/-- The kinds of tokens after which no section of a class follows. -/
def EndsSections (kind : Kind) : Prop :=
  kind.Closing ∧ accessOf? kind = none

theorem Part.sections (hi : inner.Twins f n) :
    Part f tight 0 false (sections inner) EndsSections false [] := by
  have further : Part f tight 0 false (Parser.many
      (fun s => (accessOf? s.current.kind).isSome) (furtherSection inner)) EndsSections false [] :=
    .many (m := fun kind => (accessOf? kind).isSome) (fun _ => rfl)
      (fun hs hm => .furtherSection hi hs fun hk => by
        rw [hk] at hm
        cases hm)
      (List.cons_ne_nil _ _) fun kind h => ⟨by rw [h.2]; rfl, h.1⟩
  refine .of_tail (fun s => ?_) nofun
  refine .bind [] (Part.sectionBody hi _).free (fun _ h => h.1) (.inr (.inr ⟨rfl, ?_⟩))
    fun x x' s₁ => ?_
  · refine blind_of_starts fun x t h => ⟨[x], ?_⟩
    rw [bind_of_ok (many_eq_nil (by rw [h.2]; rfl))]
    rfl
  refine .bind [] further.free (fun _ => id) (.inr (.inr ⟨rfl, ?_⟩)) fun xs xs' s₂ => .pure ?_
  · exact blind_of_starts fun xs t _ => ⟨_, rfl⟩
  rintro ⟨⟨-, rfl⟩, rfl⟩
  rfl

theorem Twin.classDef (hi : inner.Twins f n) (hs : s.Sound) (hk : s.current.kind ≠ .eof) :
    Twin f tight s (classDef inner) (classDef inner) (fun _ => True) true [.nil] := by
  have colon_ne_eof : Kind.punctuation .colon ≠ .eof := by simp
  have include_ne_eof : Kind.keyword .includeKw ≠ .eof := by simp
  refine .take [.ident "x", .punctuation .lparen, .punctuation .rparen, .keyword .endKw] hs hk
    fun s₁ => ?_
  refine .identifier [.punctuation .lparen, .punctuation .rparen, .keyword .endKw]
    fun name name' s₂ => ?_
  refine .bind [.keyword .endKw] (Part.params hi).free (fun _ _ => trivial) (.inl rfl)
    fun ps ps' s₃ => ?_
  refine .bind [.keyword .endKw] ((Part.base hi).after? colon_ne_eof).free
    (fun _ _ => ⟨trivial, by simp⟩) (.inl rfl) fun base base' s₄ => ?_
  refine .bind [.keyword .endKw] (Part.identifier.separated.after? include_ne_eof).free
    (fun _ _ => ⟨⟨trivial, by simp⟩, by simp⟩) (.inl rfl) fun names names' s₅ => ?_
  refine .bind [.keyword .endKw] (Part.sections hi).free (fun _ _ => ⟨rfl, rfl⟩)
    (.inr (.inl (by simp))) fun xs xs' s₆ => ?_
  refine .expect [] (by simp) (by decide) fun _ _ s₇ => .pure ?_
  rintro ⟨⟨⟨⟨⟨⟨-, rfl⟩, rfl⟩, rfl⟩, rfl⟩, rfl⟩, -⟩
  cases names <;> simp [move, Expr.move]

theorem Twin.package (hi : inner.Twins f n) (hs : s.Sound) (hk : s.current.kind ≠ .eof) :
    Twin f tight s (package inner) (package inner) (fun _ => True) true [.nil] := by
  refine .take [.ident "x", .keyword .endKw] hs hk fun s₁ => ?_
  refine .identifier [.keyword .endKw] fun name name' s₂ => ?_
  refine .bind [] (Part.blockToEnd hi).free (fun _ _ => trivial) (.inl rfl)
    fun body body' s₃ => .pure ?_
  rintro ⟨⟨-, rfl⟩, rfl⟩
  simp [move, Expr.move]

theorem Twin.array (hi : inner.Twins f n) (hs : s.Sound) (hk : s.current.kind ≠ .eof) :
    Twin f tight s (array inner) (array inner) (fun _ => True) true [.nil] := by
  refine .take [.punctuation .rbracket] hs hk fun s₁ => ?_
  refine .bind [] (Part.exprsTo hi .rbracket ⟨rfl, by simp⟩ (by simp)).free (fun _ _ => trivial)
    (.inl rfl) fun items items' s₂ => .pure ?_
  rintro ⟨-, rfl⟩
  simp [move, Expr.move]

theorem Part.pair (hi : inner.Twins f n) :
    Part f tight n true (pair inner) Kind.Ending true [.nil, .punctuation .colon, .nil] := by
  refine .of_tail (fun s => ?_) fun _ hno => (hi.blocked hno).bind
  refine .keep [.punctuation .colon, .nil] hi.expr.tail ⟨hi.steady, hi.steady⟩
    (fun _ _ => ⟨rfl, by simp⟩) (.inl rfl) fun key key' s₁ => ?_
  refine .expect [.nil] (by simp) trivial fun _ _ s₂ => ?_
  refine .bind [] hi.expr.tail (fun _ => id) (.inl rfl) fun value value' s₃ => .pure ?_
  rintro ⟨⟨⟨-, rfl⟩, -⟩, rfl⟩
  simp [move, Pair.move, ← Expr.loc_move]

theorem Twin.hash (hi : inner.Twins f n) (hs : s.Sound) (hk : s.current.kind ≠ .eof) :
    Twin f tight s (hash inner) (hash inner) (fun _ => True) true [.nil] := by
  refine .take [.punctuation .rbrace] hs hk fun s₁ => ?_
  refine .bind [.punctuation .rbrace] ((Part.pair hi).separatedUntil .rbrace (List.cons_ne_nil _ _)
    ⟨rfl, by simp⟩ (by simp)).free (fun _ _ => rfl) (.inl rfl) fun pairs pairs' s₂ => ?_
  refine .expect [] (by simp) trivial fun _ _ s₃ => .pure ?_
  rintro ⟨⟨-, rfl⟩, -⟩
  simp [move, Expr.move]

theorem Twin.paren (hi : inner.Twins f n) (hs : s.Sound) (hk : s.current.kind ≠ .eof) :
    Twin f tight s (paren inner) (paren inner) (fun _ => True) true [.nil] := by
  refine .enter [.nil, .punctuation .rparen] hs hk (fun s₁ => ?_)
    fun hno => (hi.blocked hno).bind
  refine .bind [.punctuation .rparen] hi.expr.tail (fun _ _ => ⟨rfl, by simp⟩) (.inl rfl)
    fun e e' s₂ => ?_
  refine .expect [] (by simp) trivial fun _ _ s₃ => .pure ?_
  rintro ⟨⟨-, rfl⟩, -⟩
  simp [move, Expr.move]

theorem takes_atom : Takes atom fun token => atom? token.loc token.kind where
  take {s a} hv := by
    unfold atom
    rw [hv]
  fault {s} hv := by
    refine ⟨.expectedExpression, ?_⟩
    unfold atom
    rw [hv]
  move f t := by
    obtain ⟨kind, loc⟩ := t
    cases kind with
    | keyword kw => cases kw <;> rfl
    | _ => rfl
  eof t ht := by rw [ht]; rfl

theorem Part.atom : Part f tight 0 false atom (fun _ => True) true [.nil] :=
  takes_atom.part trivial fun t ht => by rw [ht]; rfl

theorem Part.primary (hi : inner.Twins f n) :
    Part f tight 0 false (primary inner) (fun _ => True) true [.nil] where
  twin {s} hs := by
    have dispatch : ∀ {p : Parser Expr}, Twin f tight s p p (fun _ => True) true [.nil] →
        (∀ t : State, t.current.kind = s.current.kind → Parser.primary inner t = p t) →
        Twin f tight s (Parser.primary inner) (Parser.primary inner) (fun _ => True) true [.nil] :=
      fun h heq => h.of_eq (heq s rfl) (fun t ht => heq t (kind_eq_of_move ht))
        (List.cons_ne_nil _ _)
    cases hk : s.current.kind with
    | keyword kw =>
      cases kw with
      | routineKw =>
        exact dispatch (.routine hi hs (by simp [hk]))
          fun t ht => by simp only [Parser.primary, ht, hk]
      | classKw =>
        exact dispatch (.classDef hi hs (by simp [hk]))
          fun t ht => by simp only [Parser.primary, ht, hk]
      | packageKw =>
        exact dispatch (.package hi hs (by simp [hk]))
          fun t ht => by simp only [Parser.primary, ht, hk]
      | _ => exact dispatch (Part.atom.twin hs) fun t ht => by simp only [Parser.primary, ht, hk]
    | punctuation mark =>
      cases mark with
      | lbracket =>
        exact dispatch (.array hi hs (by simp [hk]))
          fun t ht => by simp only [Parser.primary, ht, hk]
      | lbrace =>
        exact dispatch (.hash hi hs (by simp [hk]))
          fun t ht => by simp only [Parser.primary, ht, hk]
      | lparen =>
        exact dispatch (.paren hi hs (by simp [hk]))
          fun t ht => by simp only [Parser.primary, ht, hk]
      | _ => exact dispatch (Part.atom.twin hs) fun t ht => by simp only [Parser.primary, ht, hk]
    | _ => exact dispatch (Part.atom.twin hs) fun t ht => by simp only [Parser.primary, ht, hk]
  starts :=
    have hatom : Part f tight 0 false Parser.atom (fun _ => True) true [.nil] := .atom
    .of_eq fun token htoken =>
      ⟨_, hatom.starts, fun t ht => by simp only [Parser.primary, ht, htoken]⟩
  blocked := nofun

end Parser

end LarkCheck
