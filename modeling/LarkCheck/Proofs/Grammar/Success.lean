import LarkCheck.Grammar.Statement
import LarkCheck.Proofs.Tree.Listed

/-!
# Successful runs

What a parser has done when it succeeds. It has read the tokens of what it built
and nothing else, it has kept the reports of the readings it took, and its
counters are where they were, except that `peak` has risen to the levels that the
construct reached. Every combinator keeps these facts, so a production has only to
name its parts in order.
-/

namespace LarkCheck

open Token

namespace Token

/-- Readings up to the end of the file, which only the last of them gives. -/
inductive EndsOnce : List Reading → Prop
  | last {r : Reading} (h : r.isEof = true) : EndsOnce [r]
  | cons {r : Reading} {rest : List Reading} (h : r.isEof = false) (hrest : EndsOnce rest) :
    EndsOnce (r :: rest)

theorem endsOnce_readings (c : Cursor) : EndsOnce (readings c) := by
  fun_induction readings c with
  | case1 c ih =>
    by_cases h : c.read.1.isEof = true
    · simpa [h] using .last h
    · simpa [h] using .cons (by simpa using h) (ih h)

end Token

namespace Parser

variable {α β : Type}

namespace State

/-- The current token and those ahead. -/
def tokens (s : State) : List Token :=
  s.current :: s.ahead.items.filterMap (·.token)

/-- The kinds of the current token and of those ahead. -/
def kinds (s : State) : List Kind :=
  s.tokens.map (·.kind)

/-- The reports so far, and those of the readings ahead. -/
def reports (s : State) : List Diagnostic :=
  s.news ++ s.ahead.items.flatMap (·.news)

/-- The current token is the end of the file, or the readings ahead lead to it. -/
def Synced (s : State) : Prop :=
  if s.current.kind = .eof then s.ahead.items = [] else EndsOnce s.ahead.items

/-- The counters are within what the guards let pass. -/
structure Bounded (s : State) : Prop where
  depth_le : s.depth ≤ maxNesting
  level_le : s.level ≤ s.peak
  peak_le : s.peak ≤ maxTreeDepth

/-- What holds of a state between any two steps of a parser. -/
structure Ready (s : State) : Prop extends Bounded s where
  synced : s.Synced

end State

/-- The counters of two states are the same. -/
structure SameCounters (s t : State) : Prop where
  depth_eq : t.depth = s.depth
  level_eq : t.level = s.level
  peak_eq : t.peak = s.peak

/-- The counters before and after a construct of weight `w`, which the guards let pass. -/
structure Weighs (s : State) (w : Weight) (s' : State) : Prop where
  depth_eq : s'.depth = s.depth
  level_eq : s'.level = s.level
  peak_eq : s'.peak = max s.peak (s.level + w.load)
  nest_le : s.depth + w.nest ≤ maxNesting
  load_le : s.level + w.load ≤ maxTreeDepth

/-- From `s` to `s'` exactly the pieces `ps` were read, as a construct of weight `w`. -/
structure Spans (s : State) (ps : List Piece) (w : Weight) (s' : State) : Prop
    extends Weighs s w s' where
  ready : s'.Ready
  suffix : s'.tokens <:+ s.tokens
  kinds_eq : s.kinds = ps.map (·.kind) ++ s'.kinds
  reports_eq : s'.reports = s.reports

/-- Every success of the parser spans the pieces of what it built. -/
def Reads (p : Parser α) (pieces : α → List Piece) (weight : α → Weight) : Prop :=
  ∀ s a s', s.Ready → p s = .ok a s' → Spans s (pieces a) (weight a) s'

namespace Weighs

/-- Nothing is weighed where the counters stay as they are. -/
theorem kept {s s' : State} (hs : s.Bounded) (hd : s'.depth = s.depth) (hl : s'.level = s.level)
    (hp : s'.peak = s.peak) : Weighs s .zero s' where
  depth_eq := hd
  level_eq := hl
  peak_eq := hp.trans (Nat.max_eq_left hs.level_le).symm
  nest_le := hs.depth_le
  load_le := Nat.le_trans hs.level_le hs.peak_le

theorem zero {s : State} (hs : s.Bounded) : Weighs s .zero s :=
  kept hs rfl rfl rfl

theorem trans {s s₁ s₂ : State} {v w : Weight} (h : Weighs s v s₁) (h' : Weighs s₁ w s₂) :
    Weighs s (v.join w) s₂ := by
  obtain ⟨hd, hl, hp, hn, hb⟩ := h
  obtain ⟨hd', hl', hp', hn', hb'⟩ := h'
  refine ⟨by omega, by omega, ?_, ?_, ?_⟩ <;> simp only [Weight.nest_join, Weight.load_join] <;>
    omega

theorem of_eq {s s' : State} {v w : Weight} (h : Weighs s v s') (hn : v.nest = w.nest)
    (hl : v.load = w.load) : Weighs s w s' := by
  cases v
  cases w
  simp only at hn hl
  subst hn hl
  exact h

end Weighs

namespace Spans

variable {s s₁ s₂ s' : State} {ps qs : List Piece} {v w : Weight}

theorem refl (hs : s.Ready) : Spans s [] .zero s where
  toWeighs := .zero hs.toBounded
  ready := hs
  suffix := List.suffix_rfl
  kinds_eq := rfl
  reports_eq := rfl

theorem trans (h : Spans s ps v s₁) (h' : Spans s₁ qs w s₂) :
    Spans s (ps ++ qs) (v.join w) s₂ where
  toWeighs := h.toWeighs.trans h'.toWeighs
  ready := h'.ready
  suffix := h'.suffix.trans h.suffix
  kinds_eq := by rw [h.kinds_eq, h'.kinds_eq, List.map_append, List.append_assoc]
  reports_eq := h'.reports_eq.trans h.reports_eq

theorem of_eq (h : Spans s ps v s') (hp : ps.map (·.kind) = qs.map (·.kind))
    (hn : v.nest = w.nest) (hl : v.load = w.load) : Spans s qs w s' where
  toWeighs := h.toWeighs.of_eq hn hl
  ready := h.ready
  suffix := h.suffix
  kinds_eq := by rw [← hp, h.kinds_eq]
  reports_eq := h.reports_eq

end Spans

theorem bind_eq_ok {p : Parser α} {f : α → Parser β} {s s₂ : State} {b : β} :
    (p >>= f) s = .ok b s₂ ↔ ∃ a s₁, p s = .ok a s₁ ∧ f a s₁ = .ok b s₂ := by
  change EStateM.bind p f s = .ok b s₂ ↔ _
  unfold EStateM.bind
  cases p s with
  | ok a s₁ =>
    constructor
    · exact fun h => ⟨a, s₁, rfl, h⟩
    · rintro ⟨_, _, h, hf⟩
      cases h
      exact hf
  | error e s₁ => simp

theorem pure_eq_ok {a b : α} {s s' : State} :
    (pure a : Parser α) s = .ok b s' ↔ a = b ∧ s = s' := by
  change EStateM.Result.ok a s = .ok b s' ↔ _
  simp

theorem map_eq_ok {f : α → β} {p : Parser α} {s s' : State} {b : β} :
    (f <$> p) s = .ok b s' ↔ ∃ a, p s = .ok a s' ∧ f a = b := by
  change EStateM.map f p s = .ok b s' ↔ _
  unfold EStateM.map
  cases p s with
  | ok a s₁ => simp; grind
  | error e s₁ => simp

theorem current_eq_ok {s s' : State} {t : Token} :
    current s = .ok t s' ↔ t = s.current ∧ s' = s := by
  simp only [current, EStateM.Result.ok.injEq]
  constructor <;> rintro ⟨rfl, rfl⟩ <;> exact ⟨rfl, rfl⟩

theorem fail_ne_ok {code : Diagnostic.Code} {s s' : State} {a : α} :
    fail code s ≠ .ok a s' := by
  simp [fail, failAt]

theorem advance_fst {s s' : State} {t : Token} (h : advance s = .ok t s') : t = s.current := by
  obtain ⟨token, ⟨items, size, hsize⟩, news, depth, level, peak⟩ := s
  cases items with
  | nil =>
    cases h
    rfl
  | cons r rest =>
    cases ht : r.token with
    | none => simp [advance, ht] at h
    | some next =>
      simp only [advance, ht, EStateM.Result.ok.injEq] at h
      exact h.1.symm

/-- Behind a token of readings that end stands the end of the file, or what leads to it. -/
theorem synced_of_advance {s s' : State} {t : Token} (hends : EndsOnce s.ahead.items)
    (h : advance s = .ok t s') : s'.Synced := by
  obtain ⟨current, ⟨items, size, hsize⟩, news, depth, level, peak⟩ := s
  cases items with
  | nil => cases hends
  | cons r rest =>
    cases ht : r.token with
    | none => simp [advance, ht] at h
    | some next =>
      simp only [advance, ht, EStateM.Result.ok.injEq] at h
      obtain ⟨-, rfl⟩ := h
      cases hends with
      | last hr =>
        have heof : next.kind = .eof := by simpa [Reading.isEof, ht] using hr
        simp [State.Synced, heof]
      | cons hr hrest =>
        have hne : next.kind ≠ .eof := by simpa [Reading.isEof, ht] using hr
        simpa [State.Synced, hne] using hrest

/-- At the end of the file nothing is taken, and the parser stays where it is. -/
theorem advance_eof {s : State} (hsync : s.Synced) (heof : s.current.kind = .eof) :
    advance s = .ok s.current s := by
  rw [State.Synced, if_pos heof] at hsync
  obtain ⟨token, ⟨items, size, hsize⟩, news, depth, level, peak⟩ := s
  cases hsync
  rfl

/-- In front of the end of the file a step takes the current token and the next reading, which gives
the new one. -/
theorem advance_reading {s s' : State} {t : Token} (hsync : s.Synced)
    (hne : s.current.kind ≠ .eof) (h : advance s = .ok t s') :
    t = s.current ∧ s'.Synced ∧ (s'.depth = s.depth ∧ s'.level = s.level ∧ s'.peak = s.peak) ∧
      ∃ r, s.ahead.items = r :: s'.ahead.items ∧ r.token = some s'.current ∧
        s'.news = s.news ++ r.news := by
  rw [State.Synced, if_neg hne] at hsync
  have hsync' := synced_of_advance hsync h
  obtain ⟨token, ⟨items, size, hsize⟩, news, depth, level, peak⟩ := s
  cases items with
  | nil => cases hsync
  | cons r rest =>
    cases ht : r.token with
    | none => simp [advance, ht] at h
    | some next =>
      simp only [advance, ht, EStateM.Result.ok.injEq] at h
      obtain ⟨rfl, rfl⟩ := h
      exact ⟨rfl, hsync', ⟨rfl, rfl, rfl⟩, r, rfl, ht, rfl⟩

theorem advance_spans {s s' : State} {t : Token} {kind : Kind} (hs : s.Ready)
    (hk : s.current.kind = kind) (hne : kind ≠ .eof) (h : advance s = .ok t s') :
    t = s.current ∧ Spans s [.free kind] .zero s' := by
  obtain ⟨bounded, hsync⟩ := hs
  subst hk
  obtain ⟨ht, hsync', ⟨hd, hl, hp⟩, r, hitems, htoken, hnews⟩ := advance_reading hsync hne h
  have bounded' : s'.Bounded := by
    refine ⟨?_, ?_, ?_⟩
    · rw [hd]
      exact bounded.depth_le
    · rw [hl, hp]
      exact bounded.level_le
    · rw [hp]
      exact bounded.peak_le
  have taken : s.tokens = s.current :: s'.tokens := by
    simp [State.tokens, hitems, htoken]
  refine ⟨ht, .kept bounded hd hl hp, ⟨bounded', hsync'⟩, ?_, ?_, ?_⟩
  · rw [taken]
    exact List.suffix_cons _ _
  · simp [State.kinds, taken]
  · simp [State.reports, hitems, hnews]

theorem expect_spans {s s' : State} {t : Token} {kind : Kind} {code : Diagnostic.Code}
    (hs : s.Ready) (hne : kind ≠ .eof) (h : expect kind code s = .ok t s') :
    t = s.current ∧ Spans s [.free kind] .zero s' := by
  unfold expect at h
  split at h
  · rename_i hk
    exact advance_spans hs (by simpa [State.isAt] using hk) hne h
  · exact absurd h fail_ne_ok

theorem identifier_spans {s s' : State} {n : Name} (hs : s.Ready)
    (h : identifier s = .ok n s') : Spans s [.name n.text] .zero s' := by
  unfold identifier at h
  split at h
  · rename_i text hk
    simp only [bind_eq_ok, pure_eq_ok] at h
    obtain ⟨t, s₁, h, rfl, rfl⟩ := h
    exact (advance_spans hs hk (by simp) h).2
  · exact absurd h fail_ne_ok

theorem after?_spans {kind : Kind} {p : Parser α} {pieces : α → List Piece} {weight : α → Weight}
    (hp : Reads p pieces weight) (hne : kind ≠ .eof) {s s' : State} {o : Option α}
    (hs : s.Ready) (h : after? kind p s = .ok o s') :
    (o = none ∧ Spans s [] .zero s') ∨
      ∃ a, o = some a ∧ Spans s (.free kind :: pieces a) (weight a) s' := by
  unfold after? at h
  split at h
  · rename_i hk
    simp only [bind_eq_ok, map_eq_ok] at h
    obtain ⟨t, s₁, h₁, a, h₂, rfl⟩ := h
    have r₁ := (advance_spans hs (by simpa [State.isAt] using hk) hne h₁).2
    have r₂ := hp _ _ _ r₁.ready h₂
    exact .inr ⟨a, rfl, (r₁.trans r₂).of_eq rfl (by simp) (by simp)⟩
  · simp only [EStateM.Result.ok.injEq] at h
    obtain ⟨rfl, rfl⟩ := h
    exact .inl ⟨rfl, .refl hs⟩

theorem many_spans {more : State → Bool} {item : Parser α} {pieces : α → List Piece}
    {weight : α → Weight} {listPieces : List α → List Piece} {listWeight : List α → Weight}
    (hl : Listed pieces weight listPieces listWeight)
    (hitem : ∀ s a s', s.Ready → more s = true → item s = .ok a s' →
      Spans s (pieces a) (weight a) s')
    {s s' : State} {as : List α} (hs : s.Ready) (h : many more item s = .ok as s') :
    Spans s (listPieces as) (listWeight as) s' := by
  have single : ∀ {s a s'}, Spans s (pieces a) (weight a) s' →
      Spans s (listPieces [a]) (listWeight [a]) s' := fun r =>
    r.of_eq (by simp [hl.pieces_cons, hl.pieces_nil]) (by simp [hl.weight_cons, hl.weight_nil])
      (by simp [hl.weight_cons, hl.weight_nil])
  fun_induction many more item s generalizing as s' with
  | case1 s hm a s₁ ha _ rest s₂ hrest ih =>
    simp only [EStateM.Result.ok.injEq] at h
    obtain ⟨rfl, rfl⟩ := h
    have r := hitem _ _ _ hs hm ha
    exact (r.trans (ih r.ready hrest)).of_eq (by rw [hl.pieces_cons])
      (by rw [hl.weight_cons]) (by rw [hl.weight_cons])
  | case2 => cases h
  | case3 s hm a s₁ ha =>
    simp only [EStateM.Result.ok.injEq] at h
    obtain ⟨rfl, rfl⟩ := h
    exact single (hitem _ _ _ hs hm ha)
  | case4 => cases h
  | case5 s hm =>
    simp only [EStateM.Result.ok.injEq] at h
    obtain ⟨rfl, rfl⟩ := h
    rw [hl.pieces_nil, hl.weight_nil]
    exact .refl hs

/-- What holds of the start of a chain and is kept by each link holds of the whole chain. -/
theorem links_keeps {more : State → Bool} {link : α → Parser α} {I : α → State → Prop}
    (step : ∀ a b s s', I a s → more s = true → link a s = .ok b s' → I b s')
    {a b : α} {s s' : State} (hI : I a s) (h : links more link a s = .ok b s') : I b s' := by
  fun_induction links more link a s with
  | case1 a s hm b₁ s₁ hb _ ih => exact ih (step _ _ _ _ hI hm hb) h
  | case2 a s hm b₁ s₁ hb =>
    simp only [EStateM.Result.ok.injEq] at h
    obtain ⟨rfl, rfl⟩ := h
    exact step _ _ _ _ hI hm hb
  | case3 => cases h
  | case4 =>
    simp only [EStateM.Result.ok.injEq] at h
    obtain ⟨rfl, rfl⟩ := h
    exact hI

/-- A chain whose links read something ends only where it may not go on. -/
theorem links_ends {more : State → Bool} {link : α → Parser α} {I : α → State → Prop}
    (step : ∀ a b s s', I a s → more s = true → link a s = .ok b s' →
      I b s' ∧ s'.ahead.size < s.ahead.size)
    {a b : α} {s s' : State} (hI : I a s) (h : links more link a s = .ok b s') :
    I b s' ∧ more s' = false := by
  fun_induction links more link a s with
  | case1 a s hm b₁ s₁ hb _ ih => exact ih (step _ _ _ _ hI hm hb).1 h
  | case2 a s hm b₁ s₁ hb hnot => exact absurd (step _ _ _ _ hI hm hb).2 hnot
  | case3 => cases h
  | case4 a s hm =>
    cases h
    exact ⟨hI, by simpa using hm⟩

section Separated

variable {item : Parser α} {pieces : α → List Piece} {weight : α → Weight}
  {listPieces furtherPieces : List α → List Piece} {listWeight : List α → Weight}

theorem separated_spans (hl : Separated pieces weight listPieces furtherPieces listWeight)
    (hp : Reads item pieces weight) : Reads (separated item) listPieces listWeight := by
  intro s as s' hs h
  obtain ⟨first, s₁, h₁, h⟩ := bind_eq_ok.1 h
  obtain ⟨rest, s₂, h₂, h⟩ := bind_eq_ok.1 h
  obtain ⟨rfl, rfl⟩ := pure_eq_ok.1 h
  have r₁ := hp _ _ _ hs h₁
  have r₂ := many_spans hl.further (fun s a s' hs hm h => ?_) r₁.ready h₂
  · refine (r₁.trans r₂).of_eq (by rw [hl.list_cons]) ?_ ?_ <;> rw [hl.further.weight_cons]
  · simp only [bind_eq_ok] at h
    obtain ⟨t, s₁, h₁, h₂⟩ := h
    have r₁ := (advance_spans hs (by simpa [State.isAt] using hm) (by simp) h₁).2
    exact (r₁.trans (hp _ _ _ r₁.ready h₂)).of_eq rfl (by simp) (by simp)

theorem separatedUntil_spans (hl : Separated pieces weight listPieces furtherPieces listWeight)
    (hp : Reads item pieces weight) (close : Punctuation) :
    Reads (separatedUntil close item) listPieces listWeight := by
  intro s as s' hs h
  unfold separatedUntil at h
  split at h
  · simp only [EStateM.Result.ok.injEq] at h
    obtain ⟨rfl, rfl⟩ := h
    rw [hl.list_nil, hl.further.weight_nil]
    exact .refl hs
  · exact separated_spans hl hp _ _ _ hs h

end Separated

/-- The state in which a construct behind the guard of nesting is read. -/
def State.enter (s : State) : State :=
  { s with depth := s.depth + 1, level := s.level + 1, peak := max s.peak (s.level + 1) }

theorem State.Bounded.enter {s : State} (hs : s.Bounded)
    (h : ¬ (maxNesting ≤ s.depth ∨ maxTreeDepth ≤ s.level)) : s.enter.Bounded := by
  obtain ⟨hdepth, hlevel, hpeak⟩ := hs
  refine ⟨?_, ?_, ?_⟩ <;> simp only [State.enter] <;> omega

theorem State.Bounded.leave {s : State} (hs : s.Bounded) : s.leave.Bounded := by
  obtain ⟨hdepth, hlevel, hpeak⟩ := hs
  refine ⟨?_, ?_, hpeak⟩ <;> simp only [State.leave] <;> omega

theorem Weighs.leave {s s' : State} {w : Weight} (h : Weighs s.enter w s') :
    Weighs s w.deeper s'.leave := by
  obtain ⟨hd, hl, hp, hn, hb⟩ := h
  simp only [State.enter] at hd hl hp hn hb
  refine ⟨?_, ?_, ?_, ?_, ?_⟩ <;>
    simp only [State.leave, Weight.nest_deeper, Weight.load_deeper] <;> omega

theorem nested_eq_ok {p : Parser α} {s s' : State} {a : α} (h : nested p s = .ok a s') :
    ¬ (maxNesting ≤ s.depth ∨ maxTreeDepth ≤ s.level) ∧
      ∃ s₁, p s.enter = .ok a s₁ ∧ s' = s₁.leave := by
  unfold nested at h
  split at h
  · exact absurd h fail_ne_ok
  · rename_i hguard
    split at h
    · rename_i hrun
      cases h
      exact ⟨hguard, _, hrun, rfl⟩
    · cases h

theorem nested_spans {p : Parser α} {pieces : α → List Piece} {weight : α → Weight}
    (hp : Reads p pieces weight) : Reads (nested p) pieces fun a => (weight a).deeper := by
  intro s a s' hs h
  obtain ⟨hguard, s₁, hrun, rfl⟩ := nested_eq_ok h
  have ready : s.enter.Ready := ⟨hs.toBounded.enter hguard, hs.synced⟩
  have r := hp _ _ _ ready hrun
  exact ⟨r.toWeighs.leave, ⟨r.ready.toBounded.leave, r.ready.synced⟩, r.suffix, r.kinds_eq,
    r.reports_eq⟩

/-- The counters in a chain that began at `s₀` and has the weight `w` so far. The level at which
the chain stands does not matter any more. -/
structure Grown (s₀ : State) (w : Weight) (s : State) : Prop where
  depth_eq : s.depth = s₀.depth
  peak_eq : s.peak = s₀.level + w.load
  nest_le : s₀.depth + w.nest ≤ maxNesting

/-- The run of a chain that began at `s₀` has read the pieces `ps`, of weight `w`. -/
structure Chained (s₀ : State) (ps : List Piece) (w : Weight) (s : State) : Prop
    extends Grown s₀ w s where
  ready : s.Ready
  suffix : s.tokens <:+ s₀.tokens
  kinds_eq : s₀.kinds = ps.map (·.kind) ++ s.kinds
  reports_eq : s.reports = s₀.reports

theorem opensPostfix_eq_true {kind : Kind} (h : opensPostfix kind = true) :
    ∃ p, kind = .punctuation p ∧ (p = .lparen ∨ p = .lbracket ∨ p = .dot) := by
  unfold opensPostfix at h
  split at h
  · exact ⟨_, rfl, .inl rfl⟩
  · exact ⟨_, rfl, .inr (.inl rfl)⟩
  · exact ⟨_, rfl, .inr (.inr rfl)⟩
  · cases h

theorem raise_eq_ok {s s' : State} {u : Unit} (h : raise s = .ok u s') :
    s.peak < maxTreeDepth ∧ s' = { s with level := s.peak + 1, peak := s.peak + 1 } := by
  unfold raise at h
  split at h
  · exact absurd h fail_ne_ok
  · simp only [EStateM.Result.ok.injEq] at h
    exact ⟨by omega, h.2.symm⟩

theorem raise_ready {s s' : State} {u : Unit} (hs : s.Ready) (h : raise s = .ok u s') :
    s'.Ready ∧ s'.current = s.current := by
  obtain ⟨hlt, rfl⟩ := raise_eq_ok h
  exact ⟨⟨⟨hs.depth_le, Nat.le_refl _, hlt⟩, hs.synced⟩, rfl⟩

/-- A link of a binary chain is an operator, taken before the level goes up, and its right
operand. -/
theorem binaryLink_eq_ok {inner : Nested} {least : Level} {left e : Expr} {s s' : State}
    (hm : (binaryOf? least s.current.kind).isSome = true)
    (h : binaryLink inner least left s = .ok e s') :
    ∃ op level, s.current.kind = .operator op ∧ op.level? = some level ∧
      least.rank ≤ level.rank ∧ ∃ t s₁ u s₂ right, advance s = .ok t s₁ ∧ raise s₁ = .ok u s₂ ∧
        rightOperand inner level s₂ = .ok right s' ∧
        e = .binary left.loc level op (some left) (some right) := by
  obtain ⟨⟨op, level⟩, hop⟩ := Option.isSome_iff_exists.1 hm
  obtain ⟨hk, hlevel, hle⟩ := binaryOf?_eq_some.1 hop
  rw [binaryLink_of_some hop] at h
  simp only [bind_eq_ok, pure_eq_ok] at h
  obtain ⟨t, s₁, h₁, u, s₂, h₂, right, s₃, h₃, rfl, rfl⟩ := h
  exact ⟨op, level, hk, hlevel, hle, t, s₁, u, s₂, right, h₁, h₂, h₃, rfl⟩

theorem Grown.of_weighs {s₀ s : State} {v : Weight} (hs : s₀.peak = s₀.level)
    (h : Weighs s₀ v s) : Grown s₀ v s where
  depth_eq := h.depth_eq
  peak_eq := by rw [h.peak_eq, hs]; omega
  nest_le := h.nest_le

theorem Grown.read {s₀ s s₁ : State} {v : Weight} (h : Grown s₀ v s) (hs : s.Bounded)
    (h' : Weighs s .zero s₁) : Grown s₀ v s₁ where
  depth_eq := h'.depth_eq.trans h.depth_eq
  peak_eq := by
    rw [h'.peak_eq, Weight.load_zero, Nat.add_zero, Nat.max_eq_left hs.level_le, h.peak_eq]
  nest_le := h.nest_le

/-- One more link, whose inside is read at the level of the link. -/
theorem Grown.link {s₀ s s₁ s₂ : State} {v w : Weight} {u : Unit} (h : Grown s₀ v s)
    (hraise : raise s = .ok u s₁) (h' : Weighs s₁ w s₂) : Grown s₀ (v.link w) s₂ := by
  obtain ⟨-, rfl⟩ := raise_eq_ok hraise
  obtain ⟨hd, hp, hn⟩ := h
  obtain ⟨hd', hl', hp', hn', hb'⟩ := h'
  simp only at hd' hl' hp' hn' hb'
  refine ⟨by omega, ?_, ?_⟩
  · simp only [Weight.load_link]
    omega
  · simp only [Weight.nest_link]
    omega

namespace Chained

variable {s₀ s s₁ s₂ : State} {ps qs : List Piece} {v w : Weight}

theorem of_spans (hs : s₀.peak = s₀.level) (h : Spans s₀ ps v s) : Chained s₀ ps v s where
  toGrown := .of_weighs hs h.toWeighs
  ready := h.ready
  suffix := h.suffix
  kinds_eq := h.kinds_eq
  reports_eq := h.reports_eq

theorem read (h : Chained s₀ ps v s) (h' : Spans s qs .zero s₁) :
    Chained s₀ (ps ++ qs) v s₁ where
  toGrown := h.toGrown.read h.ready.toBounded h'.toWeighs
  ready := h'.ready
  suffix := h'.suffix.trans h.suffix
  kinds_eq := by rw [h.kinds_eq, h'.kinds_eq, List.map_append, List.append_assoc]
  reports_eq := h'.reports_eq.trans h.reports_eq

theorem link {u : Unit} (h : Chained s₀ ps v s) (hraise : raise s = .ok u s₁)
    (h' : Spans s₁ qs w s₂) : Chained s₀ (ps ++ qs) (v.link w) s₂ where
  toGrown := h.toGrown.link hraise h'.toWeighs
  ready := h'.ready
  suffix := by
    obtain ⟨-, rfl⟩ := raise_eq_ok hraise
    exact h'.suffix.trans h.suffix
  kinds_eq := by
    obtain ⟨-, rfl⟩ := raise_eq_ok hraise
    rw [h.kinds_eq, List.map_append, List.append_assoc, ← h'.kinds_eq]
    rfl
  reports_eq := by
    obtain ⟨-, rfl⟩ := raise_eq_ok hraise
    exact h'.reports_eq.trans h.reports_eq

end Chained

/-- The chain is closed at the level where it began. -/
theorem Grown.close {s s' : State} {w : Weight} (hs : s.Bounded)
    (h : Grown { s with peak := s.level } w s') (hs' : s'.Bounded) :
    Weighs s w { s' with level := s.level, peak := max s'.peak s.peak } ∧
      State.Bounded { s' with level := s.level, peak := max s'.peak s.peak } := by
  obtain ⟨hdepth, hlevel, hpeak⟩ := hs
  obtain ⟨hdepth', hlevel', hpeak'⟩ := hs'
  obtain ⟨hd, hp, hn⟩ := h
  simp only at hd hp hn
  refine ⟨⟨hd, rfl, ?_, hn, by omega⟩, hdepth', ?_, ?_⟩ <;> simp only <;> omega

theorem State.Bounded.opened {s : State} (hs : s.Bounded) :
    State.Bounded { s with peak := s.level } :=
  ⟨hs.depth_le, Nat.le_refl _, Nat.le_trans hs.level_le hs.peak_le⟩

theorem chain_eq_ok {p : Parser α} {s s' : State} {a : α} (h : chain p s = .ok a s') :
    ∃ s₁, p { s with peak := s.level } = .ok a s₁ ∧
      s' = { s₁ with level := s.level, peak := max s₁.peak s.peak } := by
  unfold chain at h
  split at h
  · rename_i hrun
    cases h
    exact ⟨_, hrun, rfl⟩
  · cases h

theorem chain_spans {p : Parser α} {pieces : α → List Piece} {weight : α → Weight}
    (hp : ∀ s₀ a s, s₀.Ready → s₀.peak = s₀.level → p s₀ = .ok a s →
      Chained s₀ (pieces a) (weight a) s) : Reads (chain p) pieces weight := by
  intro s a s' hs h
  obtain ⟨s₁, hrun, rfl⟩ := chain_eq_ok h
  have c := hp _ _ _ ⟨hs.toBounded.opened, hs.synced⟩ rfl hrun
  obtain ⟨hweighs, hbounded⟩ := c.toGrown.close hs.toBounded c.ready.toBounded
  exact ⟨hweighs, ⟨hbounded, c.ready.synced⟩, c.suffix, c.kinds_eq, c.reports_eq⟩

end Parser

theorem parse_fst_eq_some {log : Log} {text : List Char} {unit : Block}
    (h : (parse log text).1 = some unit) :
    ∃ s, Parser.unit (.start (readings (.start text))) = .ok unit s ∧
      s.news.any Diagnostic.isError = false ∧ (parse log text).2 = log.append s.news := by
  unfold parse at h ⊢
  split at h
  · rename_i b s hb
    simp only [Log.errorCount_lt_append] at h
    split at h
    · cases h
    · rename_i herror
      cases h
      exact ⟨s, hb, by simpa using herror, rfl⟩
  · cases h

end LarkCheck
