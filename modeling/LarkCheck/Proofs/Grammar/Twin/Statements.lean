import LarkCheck.Grammar.Statement
import LarkCheck.Proofs.Grammar.Twin.Operators

/-!
# Statements on tokens that begin alike

A statement ends in front of a token of a later line that does not go on with an
expression. Where there is no room, most statements do not get past their first
word. Only the head of a `foreach` goes on without room up to its collection, so
that nothing completes it.
-/

namespace LarkCheck

open Token

namespace Parser

variable {f : Location → Location} {tight : Bool} {n : Nat} {inner : Nested} {P : Prop}
  {s s₁ s' t : State} {α : Type}

theorem Twin.importStmt (hs : s.Sound) (hk : s.current.kind ≠ .eof) :
    Twin f tight s importStmt importStmt Kind.Ending true [.nil] := by
  have hdot : ∀ kind : Kind, kind.Ending → kind ≠ .punctuation .dot := by
    rintro _ ⟨hquiet, -⟩ rfl
    cases hquiet
  have further : Part f tight 0 false (Parser.many (·.isAt (.punctuation .dot))
      (advance >>= fun _ => identifier)) Kind.Ending true [] :=
    .many (m := fun kind => decide (kind = .punctuation .dot)) (fun _ => rfl)
      (fun hs hm => .prefixed .identifier hs (by
        rw [of_decide_eq_true hm]
        simp)) (List.cons_ne_nil .nil []) fun kind h => ⟨decide_eq_false (hdot kind h), trivial⟩
  refine .take [.ident "x"] hs hk fun s₁ => ?_
  refine .identifier [] fun first first' s₂ => ?_
  refine .bind [] further.free (fun _ => id) (.inl rfl) fun names names' s₃ => .pure ?_
  rintro ⟨⟨-, rfl⟩, rfl⟩
  simp [move, Stmt.move, Function.comp_def]

theorem Twin.wordStmt (build : Location → Stmt)
    (hbuild : ∀ loc, (build loc).move f = build (f loc)) (hs : s.Sound)
    (hk : s.current.kind ≠ .eof) :
    Twin f tight s (wordStmt build) (wordStmt build) Kind.Ending true [.nil] :=
  .take [] hs hk fun _ => .pure fun _ => (hbuild _).symm

theorem Part.otherwise (hi : inner.Twins f n) :
    Part f tight 0 false (otherwise inner) (fun kind => kind.Closing ∧ kind ≠ .keyword .elseKw)
      false [] :=
  (Part.block hi).after? (by simp)

theorem Twin.elseifBranch (hi : inner.Twins f n) (hs : s.Sound) (hk : s.current.kind ≠ .eof) :
    Twin f tight s (elseifBranch inner) (elseifBranch inner) Kind.Closing false [.nil] := by
  refine .enter [.nil] hs hk (fun s₁ => ?_) fun hno =>
    (hi.blocked hno).bind
  refine .bind [] hi.expr.tail (fun _ h => Token.Kind.Closing.ending h) (.inl rfl)
    fun test test' s₂ => ?_
  refine .bind [] (Part.block hi).free (fun _ => id) (.inr (.inr ⟨rfl, ?_⟩))
    fun body body' s₃ => .pure ?_
  · exact blind_of_starts fun body t _ => ⟨_, rfl⟩
  rintro ⟨⟨-, rfl⟩, rfl⟩
  simp [move, Branch.move]

/-- After the conditions and blocks of a statement with branches, or its clauses. -/
theorem Twin.condStmt (hi : inner.Twins f n) (hs : s.Sound) (hk : s.current.kind ≠ .eof) :
    Twin f tight s (condStmt inner) (condStmt inner) Kind.Ending true [.nil] := by
  have further : Part f tight 0 false (Parser.many (·.isAt (.keyword .elseifKw))
      (Parser.elseifBranch inner)) (fun kind => kind.Closing ∧ kind ≠ .keyword .elseifKw)
      false [] :=
    .many (m := fun kind => decide (kind = .keyword .elseifKw)) (fun _ => rfl)
      (fun hs hm => .elseifBranch hi hs (by
        rw [of_decide_eq_true hm]
        simp)) (List.cons_ne_nil _ _) fun kind h => ⟨decide_eq_false h.2, h.1⟩
  have hend : [Kind.keyword .endKw] ≠ [] := List.cons_ne_nil _ _
  refine .enter [.nil, .keyword .endKw] hs hk (fun s₁ => ?_) fun hno =>
    (hi.blocked hno).bind
  refine .bind [.keyword .endKw] hi.expr.tail (fun _ _ => ⟨rfl, by simp⟩) (.inl rfl)
    fun test test' s₂ => ?_
  refine .bind [.keyword .endKw] (Part.block hi).free (fun _ _ => rfl) (.inr (.inl hend))
    fun body body' s₃ => ?_
  refine .bind [.keyword .endKw] further.free (fun _ _ => ⟨rfl, by simp⟩) (.inr (.inl hend))
    fun elseifs elseifs' s₄ => ?_
  refine .bind [.keyword .endKw] (Part.otherwise hi).free (fun _ _ => ⟨rfl, by simp⟩)
    (.inr (.inl hend)) fun other other' s₅ => ?_
  refine .expect [] (by simp) (by decide) fun _ _ s₆ => .pure ?_
  rintro ⟨⟨⟨⟨⟨-, rfl⟩, rfl⟩, rfl⟩, rfl⟩, -⟩
  simp [move, Stmt.move]

theorem Tail.whenClause (hi : inner.Twins f n) (s : State) :
    Tail f tight n true P s (whenClause inner) (whenClause inner) Kind.Closing false
      [.keyword .whenKw, .nil, .keyword .thenKw] := by
  refine .expect [.nil, .keyword .thenKw] (by simp) (by decide) fun word word' s₁ => ?_
  refine .bind [.keyword .thenKw] hi.expr.tail (fun _ _ => ⟨rfl, by simp⟩) (.inl rfl)
    fun test test' s₂ => ?_
  refine .expect [] (by simp) (by decide) fun _ _ s₃ => ?_
  refine .bind [] (Part.block hi).free (fun _ => id) (.inr (.inr ⟨rfl, ?_⟩))
    fun body body' s₄ => .pure ?_
  · exact blind_of_starts fun body t _ => ⟨_, rfl⟩
  rintro ⟨⟨⟨⟨-, rfl⟩, rfl⟩, -⟩, rfl⟩
  simp [move, Branch.move]

/-- Without room a clause does not get past its word. -/
theorem blocked_whenClause (hi : inner.Twins f n) (hs : s.Sound)
    (hk : s.current.kind = .keyword .whenKw) (hno : ¬Room n s) : Blocked s (whenClause inner) := by
  have hexpect : expect (.keyword .whenKw) .expectedWhen s = advance s :=
    if_pos (by simpa [State.isAt] using hk)
  obtain ⟨s₁, hrun, -, -, hsame⟩ | ⟨x, s', hrun, hobj⟩ := advance_cases hs (by simp [hk])
  · obtain ⟨x, s', hexpr, hobj⟩ := hi.blocked fun h => hno (hsame.room_before h)
    exact ⟨x, s', by rw [whenClause, bind_of_ok (hexpect.trans hrun), bind_of_error hexpr], hobj⟩
  · exact ⟨x, s', bind_of_error (hexpect.trans hrun), hobj⟩

theorem Twin.whenClause (hi : inner.Twins f n) (hs : s.Sound)
    (hk : s.current.kind = .keyword .whenKw) :
    Twin f tight s (whenClause inner) (whenClause inner) Kind.Closing false
      [.keyword .whenKw, .nil, .keyword .thenKw] := by
  by_cases hroom : Room n s
  · exact (Tail.whenClause hi s).twin trivial hs fun _ => hroom
  · exact (blocked_whenClause hi hs hk hroom).twin

theorem Twin.caseStmt (hi : inner.Twins f n) (hs : s.Sound) (hk : s.current.kind ≠ .eof) :
    Twin f tight s (caseStmt inner) (caseStmt inner) Kind.Ending true [.nil] := by
  have further : Part f tight 0 false (Parser.many (·.isAt (.keyword .whenKw))
      (Parser.whenClause inner)) (fun kind => kind.Closing ∧ kind ≠ .keyword .whenKw) false [] :=
    .many (m := fun kind => decide (kind = .keyword .whenKw)) (fun _ => rfl)
      (fun hs hm => .whenClause hi hs (of_decide_eq_true hm)) (List.cons_ne_nil _ _)
      fun kind h => ⟨decide_eq_false h.2, h.1⟩
  have hend : [Kind.keyword .endKw] ≠ [] := List.cons_ne_nil _ _
  refine .enter [.nil, .keyword .whenKw, .nil, .keyword .thenKw, .keyword .endKw] hs hk
    (fun s₁ => ?_) fun hno => (hi.blocked hno).bind
  refine .keep [.keyword .whenKw, .nil, .keyword .thenKw, .keyword .endKw] hi.expr.tail
    ⟨hi.steady, hi.steady⟩ (fun _ _ => ⟨rfl, by simp⟩) (.inl rfl) fun subject subject' s₂ => ?_
  refine .bind [.keyword .endKw] (Tail.whenClause hi s₂) (fun _ _ => rfl) (.inr (.inl hend))
    fun clause clause' s₃ => ?_
  refine .bind [.keyword .endKw] further.free (fun _ _ => ⟨rfl, by simp⟩) (.inr (.inl hend))
    fun clauses clauses' s₄ => ?_
  refine .bind [.keyword .endKw] (Part.otherwise hi).free (fun _ _ => ⟨rfl, by simp⟩)
    (.inr (.inl hend)) fun other other' s₅ => ?_
  refine .expect [] (by simp) (by decide) fun _ _ s₆ => .pure ?_
  rintro ⟨⟨⟨⟨⟨-, rfl⟩, rfl⟩, rfl⟩, rfl⟩, -⟩
  simp [move, Stmt.move]

theorem Part.loopBody (hi : inner.Twins f n) :
    Part f tight 0 false (loopBody inner) (fun _ => True) true
      [.keyword .doKw, .keyword .endKw] := by
  refine .of_tail (fun s => ?_) nofun
  have hbody : Part f tight 0 false (Parser.blockToEnd inner) (fun _ => True) true
      [.keyword .endKw] := .blockToEnd hi
  refine .expect [.keyword .endKw] (by simp) (by decide) fun _ _ s₁ => ?_
  exact ⟨fun _ hs _ => (Part.blockToEnd hi).twin hs, hbody.starts⟩

theorem Twin.whileStmt (hi : inner.Twins f n) (hs : s.Sound) (hk : s.current.kind ≠ .eof) :
    Twin f tight s (whileStmt inner) (whileStmt inner) Kind.Ending true [.nil] := by
  refine .enter [.nil, .keyword .doKw, .keyword .endKw] hs hk (fun s₁ => ?_) fun hno =>
    (hi.blocked hno).bind
  refine .bind [.keyword .doKw, .keyword .endKw] hi.expr.tail (fun _ _ => ⟨rfl, by simp⟩)
    (.inl rfl) fun test test' s₂ => ?_
  refine .bind [] (Part.loopBody hi).free (fun _ _ => trivial) (.inl rfl)
    fun body body' s₃ => .pure ?_
  rintro ⟨⟨-, rfl⟩, rfl⟩
  simp [move, Stmt.move]

theorem Twin.forStmt (hi : inner.Twins f n) (hs : s.Sound) (hk : s.current.kind ≠ .eof) :
    Twin f tight s (forStmt inner) (forStmt inner) Kind.Ending true [.nil] := by
  have hsteady : Steady inner.expr ∧ Steady inner.expr := ⟨hi.steady, hi.steady⟩
  refine .enter [.nil, .punctuation .comma, .nil, .punctuation .comma, .nil, .keyword .doKw,
    .keyword .endKw] hs hk (fun s₁ => ?_) fun hno => (hi.blocked hno).bind
  refine .keep [.punctuation .comma, .nil, .punctuation .comma, .nil, .keyword .doKw,
    .keyword .endKw] hi.expr.tail hsteady (fun _ _ => ⟨rfl, by simp⟩) (.inl rfl)
    fun init init' s₂ => ?_
  refine .expect [.nil, .punctuation .comma, .nil, .keyword .doKw, .keyword .endKw] (by simp)
    trivial fun _ _ s₃ => ?_
  refine .keep [.punctuation .comma, .nil, .keyword .doKw, .keyword .endKw] hi.expr.tail hsteady
    (fun _ _ => ⟨rfl, by simp⟩) (.inl rfl) fun test test' s₄ => ?_
  refine .expect [.nil, .keyword .doKw, .keyword .endKw] (by simp) trivial fun _ _ s₅ => ?_
  refine .bind [.keyword .doKw, .keyword .endKw] hi.expr.tail (fun _ _ => ⟨rfl, by simp⟩)
    (.inl rfl) fun step step' s₆ => ?_
  refine .bind [] (Part.loopBody hi).free (fun _ _ => trivial) (.inl rfl)
    fun body body' s₇ => .pure ?_
  rintro ⟨⟨⟨⟨⟨⟨-, rfl⟩, -⟩, rfl⟩, -⟩, rfl⟩, rfl⟩
  simp [move, Stmt.move]

section Foreach

theorem steady_identifier : Steady identifier :=
  takes_identifier.steady

theorem steady_expect {kind : Kind} (hk : kind ≠ .eof) (code : Diagnostic.Code) :
    Steady (expect kind code) :=
  (takes_expect hk code).steady

theorem Room.before {p : Parser α} {a : α} (h : Room n s') (hp : Steady p) (hrun : p s = .ok a s') :
    Room n s := by
  obtain ⟨hdepth, hlevel⟩ := hp hrun
  exact ⟨h.levels, hdepth ▸ h.depth_lt, hlevel ▸ h.level_lt⟩

/-- Without room the collection is never read. -/
theorem foreachStmt_ne_ok (hi : inner.Twins f n) (hno : ¬Room n t) {x : Stmt} {t' : State} :
    foreachStmt inner t ≠ .ok x t' := by
  intro hrun
  obtain ⟨word, t₁, h₁, hrun⟩ := bind_eq_ok.1 hrun
  obtain ⟨item, t₂, h₂, hrun⟩ := bind_eq_ok.1 hrun
  obtain ⟨_, t₃, h₃, hrun⟩ := bind_eq_ok.1 hrun
  obtain ⟨collection, t₄, h₄, -⟩ := bind_eq_ok.1 hrun
  have hroom : ¬Room n t₃ := fun h => hno (((h.before (steady_expect (by simp) _) h₃).before
    steady_identifier h₂).before steady_advance h₁)
  obtain ⟨y, t₅, hover, -⟩ := hi.overruns hroom
  cases hover.symm.trans h₄

theorem foreachStmt_rejects (hi : inner.Twins f n) (hno : ¬Room n t) :
    ∃ x t', foreachStmt inner t = .error x t' := by
  cases hrun : foreachStmt inner t with
  | ok x t' => exact absurd hrun (foreachStmt_ne_ok hi hno)
  | error x t' => exact ⟨x, t', rfl⟩

/-- With the head complete, the guard is what stops it. -/
theorem foreachStmt_overruns (hi : inner.Twins f n) (hno : ¬Room n t)
    {word item mark k : Token} {text : String} {rest : List (Option Token)}
    (hitem : item.kind = .ident text) (hmark : mark.kind = .keyword .inKw)
    (ht : t.pending = some word :: some item :: some mark :: some k :: rest) :
    ∃ x t', foreachStmt inner t = .error x t' ∧ t'.Overran := by
  obtain ⟨t₁, h₁, hsame₁, ht₁⟩ := advance_of_pending ht
  obtain ⟨t₂, h₂, hsame₂, ht₂⟩ := advance_of_pending ht₁
  obtain ⟨t₃, h₃, hsame₃, -⟩ := advance_of_pending ht₂
  have hname : identifier t₁ = .ok ⟨item.loc, text⟩ t₂ := by
    have hvalue : name? t₁.current = some ⟨item.loc, text⟩ := by
      rw [current_of_pending ht₁, name?, hitem]
    rw [takes_identifier.take hvalue, bind_of_ok h₂]
    rfl
  have hin : expect (.keyword .inKw) .expectedIn t₂ = .ok mark t₃ := by
    refine (if_pos ?_).trans h₃
    simpa [State.isAt, current_of_pending ht₂] using hmark
  obtain ⟨x, t', hexpr, hover⟩ := hi.overruns (s := t₃) fun h =>
    hno (hsame₁.room_before (hsame₂.room_before (hsame₃.room_before h)))
  refine ⟨x, t', ?_, hover⟩
  rw [foreachStmt, bind_of_ok h₁, bind_of_ok hname, bind_of_ok hin, bind_of_error hexpr]

theorem Barred.foreach (hi : inner.Twins f n) (hno : ¬Room n s) {xs : List Token} {c : List Kind}
    {text : String} (hheader : OpenHeader xs c)
    (hkinds : xs.map (·.kind) ++ c = [.keyword .foreachKw, .ident text, .keyword .inKw]) :
    Barred f tight (foreachStmt inner) s xs c where
  header := hheader
  rejects hab _ _ := foreachStmt_rejects hi fun h => hno
    ⟨h.levels, hab.depth_eq ▸ h.depth_lt, hab.level_eq ▸ h.level_lt⟩
  overruns {t cs k rest} hab hcs ht := by
    have hno' : ¬Room n t := fun h => hno
      ⟨h.levels, hab.depth_eq ▸ h.depth_lt, hab.level_eq ▸ h.level_lt⟩
    have hall : (move f xs ++ cs).map (·.kind) =
        [.keyword .foreachKw, .ident text, .keyword .inKw] := by
      rw [List.map_append, hcs, ← hkinds]
      simp [move, Function.comp_def]
    obtain ⟨word, ys, hys, -, hrest⟩ := List.map_eq_cons_iff.1 hall
    obtain ⟨item, zs, rfl, hitem, hrest⟩ := List.map_eq_cons_iff.1 hrest
    obtain ⟨mark, _, rfl, hmark, hnil⟩ := List.map_eq_cons_iff.1 hrest
    obtain rfl := List.map_eq_nil_iff.1 hnil
    rw [← List.append_assoc, ← List.map_append, hys] at ht
    exact foreachStmt_overruns hi hno' hitem hmark ht

theorem Twin.foreachStmt (hi : inner.Twins f n) (hs : s.Sound)
    (hk : s.current.kind = .keyword .foreachKw) :
    Twin f tight s (foreachStmt inner) (foreachStmt inner) Kind.Ending true [.nil] := by
  have heof : s.current.kind ≠ .eof := by simp [hk]
  by_cases hroom : Room n s
  · refine .within [.ident "x", .keyword .inKw, .nil, .keyword .doKw, .keyword .endKw] hs heof hroom
      fun s₁ => ?_
    refine .identifier [.keyword .inKw, .nil, .keyword .doKw, .keyword .endKw]
      fun item item' s₂ => ?_
    refine .expect [.nil, .keyword .doKw, .keyword .endKw] (by simp) (by decide)
      fun _ _ s₃ => ?_
    refine .bind [.keyword .doKw, .keyword .endKw] hi.expr.tail (fun _ _ => ⟨rfl, by simp⟩)
      (.inl rfl) fun collection collection' s₄ => ?_
    refine .bind [] (Part.loopBody hi).free (fun _ _ => trivial) (.inl rfl)
      fun body body' s₅ => .pure ?_
    rintro ⟨⟨⟨⟨-, rfl⟩, -⟩, rfl⟩, rfl⟩
    simp [move, Stmt.move]
  refine ⟨fun hrun => absurd hrun (foreachStmt_ne_ok hi hroom), fun {x s'} hrun hobj => ?_⟩
  have stuck : ∀ (text : String) {xs : List Token} {c : List Kind}, Passed s xs s' →
      OpenHeader xs c →
      xs.map (·.kind) ++ c = [.keyword .foreachKw, .ident text, .keyword .inKw] →
      Stuck f tight (Parser.foreachStmt inner) Kind.Ending s s' xs :=
    fun text xs c hpassed hheader hkinds =>
    have hbarred := Barred.foreach hi hroom hheader hkinds
    ⟨hpassed, fun hab ht => hbarred.rejects hab (List.cons_ne_nil _ _) ht,
      fun _ => .inr ⟨_, hbarred⟩⟩
  rcases bind_eq_error hrun with h₁ | ⟨word, s₁, h₁, hrun⟩
  · exact absurd hobj (advance_not_objected hs heof h₁)
  obtain ⟨rfl, hsame, htaken⟩ := @advance_reached f tight _ _ _ hs heof h₁
  rcases bind_eq_error hrun with h₂ | ⟨item, s₂, h₂, hrun⟩
  · have hpassed := takes_identifier.passed_of_objected htaken.sound h₂ hobj
    exact ⟨_, stuck "x" (htaken.passed.trans hpassed) (@OpenHeader.word [] _ hk) (by simp [hk])⟩
  obtain ⟨hname, hpassed, hs₂⟩ := takes_identifier.taken_of_ok htaken.sound h₂
  rcases bind_eq_error hrun with h₃ | ⟨_, s₃, h₃, hrun⟩
  · have hpassed' := (takes_expect (by simp) _).passed_of_objected hs₂ h₃ hobj
    refine ⟨_, stuck item.text ((htaken.passed.trans hpassed).trans hpassed')
      (@OpenHeader.item [] _ _ hk) ?_⟩
    simp [hk, kind_of_name? hname]
  have hno : ¬Room n s₃ := fun h => hroom (((h.before (steady_expect (by simp) _) h₃).before
    steady_identifier h₂).before steady_advance h₁)
  obtain ⟨y, s₄, hexpr, hover⟩ := hi.overruns hno
  cases (bind_of_error hexpr).symm.trans hrun
  exact absurd hobj hover.not_objected

end Foreach

/-- After the word `return`. -/
def returned (inner : Nested) (word : Token) : Parser Stmt := do
  let next ← current
  if next.kind.startsExpression && next.loc.line = word.loc.line then
    let value ← inner.expr
    return .returnValue word.loc (some value)
  else
    return .returnValue word.loc none

/-- Whether the token is taken for the beginning of the value. -/
def belongs (word next : Token) : Bool :=
  next.kind.startsExpression && next.loc.line = word.loc.line

theorem returned_some {word : Token} (h : belongs word s.current = true) :
    returned inner word s = (do
      let value ← inner.expr
      return .returnValue word.loc (some value) : Parser Stmt) s := by
  rw [returned, current_bind]
  exact congrFun (if_pos h) s

theorem returned_none {word : Token} (h : belongs word s.current = false) :
    returned inner word s = .ok (.returnValue word.loc none) s := by
  rw [returned, current_bind]
  exact congrFun (if_neg (by simpa [belongs] using h)) s

/-- The places keep apart what stands on different lines. -/
def KeepsLines (f : Location → Location) : Prop :=
  ∀ l l', (f l).line = (f l').line ↔ l.line = l'.line

theorem belongs_move (hf : KeepsLines f) (word next : Token) :
    belongs (move f word) (move f next) = belongs word next := by
  change (next.kind.startsExpression && decide ((f next.loc).line = (f word.loc).line)) = _
  rw [decide_eq_decide.2 (hf next.loc word.loc)]
  rfl

theorem belongs_of_later {word next : Token} (h : word.loc.line < next.loc.line) :
    belongs word next = false := by
  have hne : next.loc.line ≠ word.loc.line := by omega
  simp [belongs, hne]

/-- With a token of a later line after it, the word stands alone. -/
theorem returnStmt_alone {word k : Token} {rest : List (Option Token)}
    (ht : t.pending = some word :: some k :: rest) (hlater : belongs word k = false) :
    ∃ t', returnStmt inner t = .ok (.returnValue word.loc none) t' ∧ SameCounters t t' ∧
      t'.pending = some k :: rest := by
  obtain ⟨t', hrun, hsame, ht'⟩ := advance_of_pending ht
  refine ⟨t', ?_, hsame, ht'⟩
  change (advance >>= returned inner) t = _
  rw [bind_of_ok hrun, returned_none (by rwa [current_of_pending ht'])]

theorem Twin.returnStmt (hf : KeepsLines f) (hi : inner.Twins f n) (hs : s.Sound)
    (hk : s.current.kind ≠ .eof) :
    Twin f tight s (returnStmt inner) (returnStmt inner) Kind.Ending true [.nil] := by
  change Twin f tight s (advance >>= returned inner) (advance >>= returned inner) _ _ _
  obtain ⟨s₁, hrun, hpassed, hs₁, hsame⟩ | ⟨x, s', hrun, hobj⟩ := advance_cases hs hk
  rotate_left
  · exact Blocked.twin ⟨x, s', bind_of_error hrun, hobj⟩
  obtain ⟨-, -, htaken⟩ := @advance_reached f tight _ _ _ hs hk hrun
  cases hvalue : belongs s.current s₁.current with
  | true =>
    have hrest : Twin f tight s₁ (returned inner s.current) (returned inner (move f s.current))
        Kind.Ending true [.nil] := by
      refine Twin.of_eq ?_ (returned_some hvalue) (fun t ht => returned_some ?_)
        (List.cons_ne_nil _ _)
      · exact (hi.expr.twin hs₁).returning fun _ => rfl
      · rw [ht, belongs_move hf, hvalue]
    have hend : Completes f tight (advance >>= returned inner) Kind.Ending s [s.current] [] := by
      refine ⟨nofun, fun {t cs k rest} _ hcs ht hlater _ => ?_⟩
      obtain rfl := List.map_eq_nil_iff.1 hcs
      obtain ⟨t', hrun', -, ht'⟩ := @returnStmt_alone inner t _ _ _ ht
        (belongs_of_later (hlater _ List.mem_cons_self _ List.mem_cons_self))
      exact ⟨_, t', hrun', ht'⟩
    constructor
    · intro a s' hok
      rw [bind_of_ok hrun] at hok
      obtain ⟨ys, hne, hys⟩ := hrest.ok hok
      exact ⟨_, fun _ => List.cons_ne_nil _ _, htaken.bind hys (fun _ _ => trivial) hne (.inl rfl)⟩
    · intro x s' herror hobj
      rw [bind_of_ok hrun] at herror
      obtain ⟨ys, hys⟩ := hrest.error herror hobj
      exact ⟨_, .after htaken hys hend⟩
  | false =>
    have hnone : (advance >>= returned inner) s = .ok (.returnValue s.current.loc none) s₁ := by
      rw [bind_of_ok hrun, returned_none hvalue]
    constructor
    · intro a s' hok
      cases hnone.symm.trans hok
      refine ⟨_, fun _ => List.cons_ne_nil _ _, hpassed, hs₁, fun {t k rest} hab ht hk => ?_⟩
      obtain ⟨t', hrun', hsame', ht'⟩ := @returnStmt_alone inner t _ k _ ht (by
        rcases hk with rfl | ⟨hlater, -⟩
        · rw [belongs_move hf, hvalue]
        · exact belongs_of_later (hlater _ List.mem_cons_self))
      exact ⟨_, t', hrun', hab.of_same hsame hsame', ht', fun _ => rfl⟩
    · intro x s' herror
      cases hnone.symm.trans herror

theorem Part.exprStmt (hi : inner.Twins f n) :
    Part f tight n true (exprStmt inner) Kind.Ending true [.nil] := by
  refine .of_tail (fun s => ?_) fun {s} hr hno => ?_
  · have hcurrent : Steady Parser.current := fun h => by
      cases h
      exact ⟨rfl, rfl⟩
    refine .keep [.nil] .current ⟨hcurrent, hcurrent⟩ (fun _ _ => trivial) (.inr (.inl (by simp)))
      fun first first' s₁ => ?_
    refine .bind [] hi.expr.tail (fun _ => id) (.inl rfl) fun e e' s₂ => .pure ?_
    rintro ⟨⟨-, rfl⟩, rfl⟩
    simp [move, Stmt.move]
  · rw [Blocked, Parser.exprStmt, current_bind]
    exact (hi.blocked hno).bind

theorem Twin.stmt (hf : KeepsLines f) (hi : inner.Twins f n) (hs : s.Sound) :
    Twin f tight s (Parser.stmt inner) (Parser.stmt inner) Kind.Ending true [.nil] := by
  have dispatch : ∀ {p : Parser Stmt}, Twin f tight s p p Kind.Ending true [.nil] →
      (∀ t : State, t.current.kind = s.current.kind → Parser.stmt inner t = p t) →
      Twin f tight s (Parser.stmt inner) (Parser.stmt inner) Kind.Ending true [.nil] :=
    fun h heq => h.of_eq (heq s rfl) (fun t ht => heq t (kind_eq_of_move ht))
      (List.cons_ne_nil _ _)
  cases hk : s.current.kind with
  | keyword kw =>
    have heof : s.current.kind ≠ .eof := by simp [hk]
    cases kw with
    | importKw =>
      exact dispatch (.importStmt hs heof)
        fun t ht => by simp only [Parser.stmt, ht, hk]
    | ifKw => exact dispatch (.condStmt hi hs heof) fun t ht => by simp only [Parser.stmt, ht, hk]
    | caseKw => exact dispatch (.caseStmt hi hs heof) fun t ht => by simp only [Parser.stmt, ht, hk]
    | whileKw =>
      exact dispatch (.whileStmt hi hs heof)
        fun t ht => by simp only [Parser.stmt, ht, hk]
    | forKw => exact dispatch (.forStmt hi hs heof) fun t ht => by simp only [Parser.stmt, ht, hk]
    | foreachKw =>
      exact dispatch (.foreachStmt hi hs hk)
        fun t ht => by simp only [Parser.stmt, ht, hk]
    | breakKw =>
      exact dispatch (.wordStmt .breakLoop (fun _ => rfl) hs heof)
        fun t ht => by simp only [Parser.stmt, ht, hk]
    | nextKw =>
      exact dispatch (.wordStmt .nextRound (fun _ => rfl) hs heof)
        fun t ht => by simp only [Parser.stmt, ht, hk]
    | returnKw =>
      exact dispatch (.returnStmt hf hi hs heof)
        fun t ht => by simp only [Parser.stmt, ht, hk]
    | _ =>
      exact dispatch ((Part.exprStmt hi).twin hs)
        fun t ht => by simp only [Parser.stmt, ht, hk]
  | _ => exact dispatch ((Part.exprStmt hi).twin hs) fun t ht => by simp only [Parser.stmt, ht, hk]

end Parser

namespace Nested

open LarkCheck.Parser

variable {f : Location → Location}

theorem level_eq_of_climb {inner : Nested} {s s' : State} {least : Level} {e : Expr}
    (hrun : climb inner least s = .ok e s') : s'.level = s.level := by
  rw [climb] at hrun
  exact level_eq_of_chain hrun

theorem steady_assignment {inner : Nested} (h : Steady inner.expr)
    (hdepth : inner.Keeps (fun s s' => s'.depth = s.depth) (fun _ _ => True)) :
    Steady (assignment inner) := by
  intro s a s' hrun
  refine ⟨depth_eq_of_keeps (stepLaw_depth.assignment_keeps hdepth) hrun, ?_⟩
  obtain ⟨target, s₁, h₁, hrun⟩ := bind_eq_ok.1 hrun
  rw [← level_eq_of_climb h₁]
  rw [current_bind] at hrun
  split at hrun
  · split at hrun
    · obtain ⟨_, s₂, h₂, hrun⟩ := bind_eq_ok.1 hrun
      obtain ⟨value, s₃, h₃, hrun⟩ := bind_eq_ok.1 hrun
      obtain ⟨-, rfl⟩ := pure_eq_ok.1 hrun
      rw [(h h₃).2, (steady_advance h₂).2]
    · cases hrun
  · obtain ⟨-, rfl⟩ := pure_eq_ok.1 hrun
    rfl

/-- By induction on the levels; with none left there is no room at all. -/
theorem twins_ofLevels (hf : KeepsLines f) (levels : Nat) :
    (ofLevels levels).Twins f levels := by
  induction levels with
  | zero =>
    have hno : ∀ {s}, ¬Room 0 s := fun h => Nat.lt_irrefl 0 h.levels
    have stops : ∀ {tight F}, Part f tight 0 true (fail .nestingTooDeep : Parser Expr) F true
        [.nil] := {
      twin := fun _ => blocked_fail.twin
      starts := ⟨by simp [Kind.Writable], fun hroom _ _ _ => absurd (hroom rfl) hno⟩
      blocked := fun _ _ => blocked_fail }
    exact ⟨fun _ => blocked_fail.twin, stops, stops, fun hrun => absurd hrun fail_ne_ok,
      fun _ => overruns_fail⟩
  | succ levels ih =>
    rw [ofLevels]
    constructor <;> dsimp only
    · exact fun hs => .nested hs (.stmt hf ih)
    · exact .nested (.assignment ih)
    · exact .nested (.unary ih)
    · exact Steady.nested (steady_assignment ih.steady (stepLaw_depth.nested_ofLevels levels))
    · exact overruns_nested

end Nested

end LarkCheck
