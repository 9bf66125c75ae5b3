import LarkCheck.Proofs.Grammar.Success
import LarkCheck.Proofs.Token.Layout

/-!
# Runs in front of printed pieces

What a parser does in front of the pieces of a construct. It reads them and gives
the construct back, up to its places; or a guard stops it, and then the weight of
the construct does not fit below the guards. Every combinator keeps this
alternative, so a production has only to name its parts in order.
-/

namespace LarkCheck

open Token

/-- The kind of the first piece, or the end of the file. -/
def Piece.headKind : List Piece → Kind
  | [] => .eof
  | p :: _ => p.kind

@[simp] theorem Piece.headKind_cons (p : Piece) (ps : List Piece) :
    Piece.headKind (p :: ps) = p.kind := rfl

namespace Parser

open Piece

variable {α β γ : Type}

/-- The first piece is the current token and the others are ahead. -/
def Facing (s : State) : List Piece → Prop
  | [] => s.current.kind = .eof ∧ s.ahead.items = []
  | p :: ps => s.current.kind = p.kind ∧ Laid s.current.loc.line ps s.ahead.items

/-- Nested `d` constructs deep, the parser stands in front of the pieces, with nothing reported. -/
structure Faces (d : Nat) (s : State) (ps : List Piece) : Prop extends s.Bounded where
  facing : Facing s ps
  news_eq : s.news = []
  depth_eq : s.depth = d

/-- The guards let a construct of weight `w` pass. -/
def Fits (s : State) (w : Weight) : Prop :=
  s.depth + w.nest ≤ maxNesting ∧ s.level + w.load ≤ maxTreeDepth

/-- A guard has stopped the parser, and reported nothing else. -/
def TooDeep (s : State) : Prop :=
  ∃ loc note, s.news = [.of .nestingTooDeep loc [note]]

/-- Either a guard stops the run, because something did not fit, or the run goes on as `next`
with a value as wanted, in front of the rest. -/
def Reaches (next : α → State → EStateM.Result Stopped State β) (fits : Prop)
    (kept : State → Prop) (same : α → Prop) (d : Nat) (rest : List Piece)
    (run : EStateM.Result Stopped State β) : Prop :=
  (∃ e s', run = .error e s' ∧ TooDeep s' ∧ ¬ fits) ∨
    ∃ a s', run = next a s' ∧ same a ∧ kept s' ∧ Faces d s' rest

/-- A run over a construct of weight `w`. -/
def Gives (s : State) (w : Weight) (same : α → Prop) (d : Nat) (rest : List Piece)
    (run : EStateM.Result Stopped State α) : Prop :=
  Reaches .ok (Fits s w) (Weighs s w) same d rest run

/-- In front of the pieces of a construct the parser gives the construct, if what follows lets it
end there. -/
def Builds (p : Parser α) (d : Nat) (ps : List Piece) (w : Weight) (follow : List Piece → Prop)
    (same : α → Prop) : Prop :=
  ∀ s rest, Faces d s (ps ++ rest) → follow rest → Gives s w same d rest (p s)

section Outcomes

variable {s s' s₁ : State} {v w : Weight} {d : Nat} {p : Piece} {ps mid rest : List Piece}
  {same : α → Prop} {same' : β → Prop} {run : EStateM.Result Stopped State α}

namespace Faces

theorem kind_eq (h : Faces d s ps) : s.current.kind = headKind ps := by
  cases ps with
  | nil => exact h.facing.1
  | cons p ps => exact h.facing.1

theorem size_eq (h : Faces d s ps) : s.ahead.size = ps.length := by
  rw [s.ahead.size_eq]
  cases ps with
  | nil => rw [h.facing.2, List.length_nil, List.length_nil]
  | cons p ps => exact h.facing.2.length_eq

/-- The spacing before the current token is behind the parser. -/
theorem lead_iff {spacing : Spacing} :
    Faces d s (lead spacing ps ++ rest) ↔ Faces d s (ps ++ rest) := by
  cases ps with
  | nil => rfl
  | cons p ps => exact ⟨fun h => ⟨h.1, h.2, h.3, h.4⟩, fun h => ⟨h.1, h.2, h.3, h.4⟩⟩

end Faces

theorem Gives.of_eq (h : Gives s v same d rest run) (hn : v.nest = w.nest)
    (hl : v.load = w.load) : Gives s w same d rest run := by
  cases v
  cases w
  simp only at hn hl
  subst hn hl
  exact h

theorem Gives.imp {same' : α → Prop} (h : Gives s w same d rest run)
    (himp : ∀ a, same a → same' a) : Gives s w same' d rest run := by
  obtain ⟨e, s', hrun, hdeep, hfits⟩ | ⟨a, s', hrun, ha, hw, hs⟩ := h
  · exact .inl ⟨e, s', hrun, hdeep, hfits⟩
  · exact .inr ⟨a, s', hrun, himp a ha, hw, hs⟩

theorem gives_ok {a : α} (hrun : run = .ok a s') (ha : same a) (hw : Weighs s w s')
    (hs : Faces d s' rest) : Gives s w same d rest run :=
  .inr ⟨a, s', hrun, ha, hw, hs⟩

theorem gives_pure {a : α} (hs : Faces d s rest) (ha : same a) :
    Gives s .zero same d rest ((pure a : Parser α) s) :=
  gives_ok rfl ha (.zero hs.toBounded) hs

/-- One construct and then another. -/
theorem Gives.bind {p : Parser α} {f : α → Parser β} (hp : Gives s v same d mid (p s))
    (hf : ∀ a s₁, same a → Faces d s₁ mid → Gives s₁ w same' d rest (f a s₁)) :
    Gives s (v.join w) same' d rest ((p >>= f) s) := by
  change Gives s (v.join w) same' d rest (EStateM.bind p f s)
  unfold EStateM.bind
  obtain ⟨e, s', hrun, hdeep, hfits⟩ | ⟨a, s₁, hrun, ha, hv, hs₁⟩ := hp
  · refine .inl ⟨e, s', by rw [hrun], hdeep, fun h => hfits ?_⟩
    simp only [Fits, Weight.nest_join, Weight.load_join] at h ⊢
    omega
  · rw [hrun]
    obtain ⟨e, s', hrun', hdeep, hfits⟩ | ⟨b, s₂, hrun', hb, hw, hs₂⟩ := hf a s₁ ha hs₁
    · refine .inl ⟨e, s', hrun', hdeep, fun h => hfits ?_⟩
      have := hv.depth_eq
      have := hv.level_eq
      simp only [Fits, Weight.nest_join, Weight.load_join] at h ⊢
      omega
    · exact .inr ⟨b, s₂, hrun', hb, hv.trans hw, hs₂⟩

/-- A token, or something else without a weight, and then a construct. -/
theorem Gives.read {p : Parser α} {f : α → Parser β} (hp : Gives s .zero same d mid (p s))
    (hf : ∀ a s₁, same a → Faces d s₁ mid → Gives s₁ w same' d rest (f a s₁)) :
    Gives s w same' d rest ((p >>= f) s) :=
  (hp.bind hf).of_eq (by simp) (by simp)

/-- A construct, and then a token or something else without a weight. -/
theorem Gives.before {p : Parser α} {f : α → Parser β} (hp : Gives s w same d mid (p s))
    (hf : ∀ a s₁, same a → Faces d s₁ mid → Gives s₁ .zero same' d rest (f a s₁)) :
    Gives s w same' d rest ((p >>= f) s) :=
  (hp.bind hf).of_eq (by simp) (by simp)

/-- A construct, of which a value is made. -/
theorem Gives.last {p : Parser α} {f : α → β} (hp : Gives s w same d rest (p s))
    (hf : ∀ a, same a → same' (f a)) :
    Gives s w same' d rest ((p >>= fun a => (pure (f a) : Parser β)) s) :=
  hp.before fun _ _ ha hs => gives_pure hs (hf _ ha)

theorem advance_eq (h : Faces d s (p :: ps)) :
    ∃ s', advance s = .ok s.current s' ∧ Weighs s .zero s' ∧ Faces d s' ps ∧
      ∀ q ∈ ps.head?, q.spacing.keeps s.current.loc.line s'.current.loc.line := by
  obtain ⟨⟨hdepth, hlevel, hpeak⟩, ⟨-, hlaid⟩, hnews, rfl⟩ := h
  obtain ⟨token, ⟨items, size, hsize⟩, news, depth, level, peak⟩ := s
  simp only at hlaid hnews hdepth hlevel hpeak
  subst hnews
  cases hlaid with
  | @nil _ loc =>
    exact ⟨_, rfl, .kept ⟨hdepth, hlevel, hpeak⟩ rfl rfl rfl,
      ⟨⟨hdepth, hlevel, hpeak⟩, ⟨rfl, rfl⟩, rfl, rfl⟩, by simp⟩
  | @cons _ q qs rs loc hq ht =>
    refine ⟨_, rfl, .kept ⟨hdepth, hlevel, hpeak⟩ rfl rfl rfl,
      ⟨⟨hdepth, hlevel, hpeak⟩, ⟨rfl, ht⟩, rfl, rfl⟩, ?_⟩
    rintro _ ⟨⟩
    exact hq

theorem advance_gives (h : Faces d s (p :: ps)) :
    Gives s .zero (fun t => t = s.current) d ps (advance s) := by
  obtain ⟨s', hrun, hw, hs', -⟩ := advance_eq h
  exact gives_ok hrun rfl hw hs'

/-- A token whose place matters to what is read after it. -/
theorem advance_bind_gives {f : Token → Parser β} (h : Faces d s (p :: ps))
    (hf : ∀ s₁, Faces d s₁ ps →
      (∀ q ∈ ps.head?, q.spacing.keeps s.current.loc.line s₁.current.loc.line) →
      Gives s₁ w same' d rest (f s.current s₁)) :
    Gives s w same' d rest ((advance >>= f) s) := by
  obtain ⟨s₁, hrun, hw, hs₁, hline⟩ := advance_eq h
  change Gives s w same' d rest (EStateM.bind advance f s)
  rw [EStateM.bind, hrun]
  obtain ⟨e, s', hrun', hdeep, hfits⟩ | ⟨b, s', hrun', hb, hw', hs'⟩ := hf s₁ hs₁ hline
  · refine .inl ⟨e, s', hrun', hdeep, fun h => hfits ?_⟩
    rwa [Fits, hw.depth_eq, hw.level_eq]
  · exact .inr ⟨b, s', hrun', hb, (hw.trans hw').of_eq (by simp) (by simp), hs'⟩

theorem current_gives (h : Faces d s ps) :
    Gives s .zero (fun t => t = s.current) d ps (current s) :=
  gives_ok rfl rfl (.zero h.toBounded) h

theorem expect_gives {code : Diagnostic.Code} (h : Faces d s (p :: ps)) :
    Gives s .zero (fun t => t = s.current) d ps (expect p.kind code s) := by
  have hk : s.isAt p.kind = true := by simp [State.isAt, h.kind_eq]
  unfold expect
  rw [if_pos hk]
  exact advance_gives h

theorem identifier_gives {text : String} (h : Faces d s (name text :: ps)) :
    Gives s .zero (fun n => n.text = text) d ps (identifier s) := by
  unfold identifier
  rw [h.kind_eq]
  exact (advance_gives h).last fun _ _ => rfl

theorem after?_gives_none {kind : Kind} {p : Parser α} (h : Faces d s ps)
    (hk : headKind ps ≠ kind) : Gives s .zero (fun o => o = none) d ps (after? kind p s) := by
  have hk : ¬ s.isAt kind = true := by simpa [State.isAt, h.kind_eq] using hk
  unfold after?
  rw [if_neg hk]
  exact gives_ok rfl rfl (.zero h.toBounded) h

theorem after?_gives_some {kind : Kind} {q : Parser α} {follow : List Piece → Prop}
    (hq : Builds q d ps w follow same) (h : Faces d s (free kind :: (ps ++ rest)))
    (hrest : follow rest) :
    Gives s w (fun o => ∃ a, o = some a ∧ same a) d rest (after? kind q s) := by
  have hk : s.isAt kind = true := by simp [State.isAt, h.kind_eq]
  unfold after?
  rw [if_pos hk]
  refine (advance_gives h).read fun t s₁ _ hs₁ => ?_
  obtain ⟨e, s', hrun, hdeep, hfits⟩ | ⟨a, s', hrun, ha, hw, hs'⟩ := hq s₁ rest hs₁ hrest
  · refine .inl ⟨e, s', ?_, hdeep, hfits⟩
    change EStateM.map some q s₁ = _
    rw [EStateM.map, hrun]
  · refine gives_ok ?_ ⟨a, rfl, ha⟩ hw hs'
    change EStateM.map some q s₁ = _
    rw [EStateM.map, hrun]

end Outcomes

section Repetition

variable {item : Parser α} {pieces : α → List Piece} {weight : α → Weight}
  {listPieces furtherPieces : List α → List Piece} {listWeight : List α → Weight}
  {erase : α → γ} {d : Nat} {rest : List Piece}

/-- Items of a list whose tails all satisfy `P`. -/
theorem many_gives {more : State → Bool} {P : List α → Prop}
    (hl : Listed pieces weight listPieces listWeight) (tail : ∀ a as, P (a :: as) → P as)
    (hne : ∀ a as, P (a :: as) → pieces a ≠ [])
    (hmore : ∀ a as s, P (a :: as) → Faces d s (pieces a ++ (listPieces as ++ rest)) →
      more s = true)
    (hstop : ∀ s, Faces d s rest → more s = false)
    (hitem : ∀ a as s, P (a :: as) → Faces d s (pieces a ++ (listPieces as ++ rest)) →
      Gives s (weight a) (fun b => erase b = erase a) d (listPieces as ++ rest) (item s))
    {as : List α} (hP : P as) {s : State} (hs : Faces d s (listPieces as ++ rest)) :
    Gives s (listWeight as) (fun bs => bs.map erase = as.map erase) d rest (many more item s) := by
  induction as generalizing s with
  | nil =>
    rw [hl.pieces_nil, List.nil_append] at hs
    rw [hl.weight_nil]
    refine gives_ok (a := []) ?_ rfl (.zero hs.toBounded) hs
    rw [many, hstop s hs]
    rfl
  | cons a as ih =>
    rw [hl.pieces_cons, List.append_assoc] at hs
    rw [hl.weight_cons, many, hmore a as s hP hs]
    obtain ⟨e, s', hrun, hdeep, hfits⟩ | ⟨b, s₁, hrun, hb, hv, hs₁⟩ := hitem a as s hP hs
    · refine .inl ⟨e, s', by simp only [hrun, if_true], hdeep, fun h => hfits ?_⟩
      simp only [Fits, Weight.nest_join, Weight.load_join] at h ⊢
      omega
    · have hsize : s₁.ahead.size < s.ahead.size := by
        have := List.length_pos_iff.2 (hne a as hP)
        rw [hs.size_eq, hs₁.size_eq]
        simp only [List.length_append]
        omega
      have := ih (tail a as hP) hs₁
      obtain ⟨e, s', hrun', hdeep, hfits⟩ | ⟨bs, s₂, hrun', hbs, hw, hs₂⟩ := this
      · refine .inl ⟨e, s', by simp only [hrun, hrun', hsize, if_true], hdeep, fun h => hfits ?_⟩
        have := hv.depth_eq
        have := hv.level_eq
        simp only [Fits, Weight.nest_join, Weight.load_join] at h ⊢
        omega
      · refine .inr ⟨b :: bs, s₂, by simp only [hrun, hrun', hsize, if_true], ?_, hv.trans hw, hs₂⟩
        simp only [List.map_cons, hb, hbs]

/-- Items that begin with a token of their own, up to another one. -/
theorem manyAt_gives {kind : Kind} (hl : Listed (fun a => free kind :: pieces a) weight listPieces
      listWeight) {as : List α} (hrest : headKind rest ≠ kind)
    (hitem : ∀ a ∈ as, ∀ bs s, Faces d s (free kind :: pieces a ++ (listPieces bs ++ rest)) →
      Gives s (weight a) (fun b => erase b = erase a) d (listPieces bs ++ rest) (item s))
    {s : State} (hs : Faces d s (listPieces as ++ rest)) :
    Gives s (listWeight as) (fun bs => bs.map erase = as.map erase) d rest
      (many (·.isAt kind) item s) := by
  refine many_gives hl (P := fun bs => ∀ b ∈ bs, b ∈ as) ?_ ?_ ?_ ?_ ?_ (fun _ h => h) hs
  · exact fun b bs h c hc => h c (List.mem_cons_of_mem b hc)
  · exact fun _ _ _ => List.cons_ne_nil _ _
  · intro b bs s _ hs
    simp [State.isAt, hs.kind_eq]
  · intro s hs
    simpa [State.isAt, hs.kind_eq] using hrest
  · exact fun b bs s h hs => hitem b (h b List.mem_cons_self) bs s hs

theorem separated_builds (hl : Separated pieces weight listPieces furtherPieces listWeight)
    {follow : List Piece → Prop} (hcomma : ∀ ps, follow (mark .comma :: ps)) {a : α} {as : List α}
    (hitem : ∀ b ∈ a :: as, Builds item d (pieces b) (weight b) follow fun c => erase c = erase b) :
    Builds (separated item) d (listPieces (a :: as)) (listWeight (a :: as))
      (fun rest => follow rest ∧ headKind rest ≠ .punctuation .comma)
      (fun bs => bs.map erase = (a :: as).map erase) := by
  intro s rest hs hrest
  -- An item ends in front of a comma, and the last one in front of what follows them all.
  have hfollow : ∀ bs, follow (furtherPieces bs ++ rest) := by
    intro bs
    cases bs with
    | nil =>
      rw [hl.further.pieces_nil]
      exact hrest.1
    | cons b bs =>
      rw [hl.further.pieces_cons]
      exact hcomma _
  rw [hl.list_cons, List.append_assoc] at hs
  rw [hl.further.weight_cons]
  refine (hitem a (by simp) s _ hs (hfollow as)).bind fun b s₁ hb hs₁ => ?_
  have further : Gives s₁ (listWeight as) (fun bs => bs.map erase = as.map erase) d rest
      (many (·.isAt (.punctuation .comma)) (do let _ ← advance; item) s₁) := by
    refine manyAt_gives hl.further hrest.2 (fun b hb bs s hs => ?_) hs₁
    refine (advance_gives hs).read fun t s₁ _ hs₁ => ?_
    exact hitem b (List.mem_cons_of_mem a hb) s₁ _ hs₁ (hfollow bs)
  exact further.last fun bs hbs => by simp only [List.map_cons, hb, hbs]

theorem separatedUntil_builds (hl : Separated pieces weight listPieces furtherPieces listWeight)
    {follow : List Piece → Prop} {close : Punctuation} {as : List α}
    (hcomma : ∀ ps, follow (mark .comma :: ps)) (hclose : ∀ ps, follow (mark close :: ps))
    (hne : close ≠ .comma)
    (hfirst : ∀ a ∈ as, ∀ ps, headKind (pieces a ++ ps) ≠ .punctuation close)
    (hitem : ∀ a ∈ as, Builds item d (pieces a) (weight a) follow fun b => erase b = erase a)
    {s : State} (hs : Faces d s (listPieces as ++ mark close :: rest)) :
    Gives s (listWeight as) (fun bs => bs.map erase = as.map erase) d (mark close :: rest)
      (separatedUntil close item s) := by
  unfold separatedUntil
  cases as with
  | nil =>
    rw [hl.list_nil, List.nil_append] at hs
    rw [hl.further.weight_nil]
    refine gives_ok (a := []) ?_ rfl (.zero hs.toBounded) hs
    simp [State.isAt, hs.kind_eq]
  | cons a as =>
    have hk : s.isAt (.punctuation close) = false := by
      have := hfirst a List.mem_cons_self (furtherPieces as ++ mark close :: rest)
      rw [← List.append_assoc, ← hl.list_cons, ← hs.kind_eq] at this
      simpa [State.isAt] using this
    rw [hk]
    refine separated_builds hl hcomma hitem s _ hs ⟨hclose rest, ?_⟩
    simpa using hne

end Repetition

section Guards

variable {s s₀ s₁ : State} {v w : Weight} {d : Nat} {ps mid rest : List Piece}
  {same : α → Prop} {same' : β → Prop}

theorem fail_tooDeep (h : s.news = []) :
    ∃ e s', (fail .nestingTooDeep s : EStateM.Result Stopped State α) = .error e s' ∧ TooDeep s' :=
  ⟨⟨⟩, _, rfl, s.current.loc, "found " ++ s.current.kind.describe, by rw [h]; rfl⟩

theorem nested_builds {p : Parser α} {follow : List Piece → Prop}
    (hp : Builds p (d + 1) ps w follow same) : Builds (nested p) d ps w.deeper follow same := by
  intro s rest hs hrest
  unfold nested
  split
  · rename_i hguard
    obtain ⟨e, s', hrun, hdeep⟩ := @fail_tooDeep α _ hs.news_eq
    refine .inl ⟨e, s', hrun, hdeep, fun h => ?_⟩
    simp only [Fits, Weight.nest_deeper, Weight.load_deeper] at h
    omega
  · rename_i hguard
    have henter : Faces (d + 1) s.enter (ps ++ rest) :=
      ⟨hs.toBounded.enter hguard, hs.facing, hs.news_eq, by rw [State.enter, hs.depth_eq]⟩
    obtain ⟨e, s', hrun, hdeep, hfits⟩ | ⟨a, s', hrun, ha, hw, hs'⟩ := hp _ rest henter hrest
    · rw [State.enter] at hrun
      refine .inl ⟨e, s'.leave, by simp only [hrun], hdeep, fun h => hfits ?_⟩
      simp only [Fits, State.enter, Weight.nest_deeper, Weight.load_deeper] at h ⊢
      omega
    · rw [State.enter] at hrun
      refine .inr ⟨a, s'.leave, by simp only [hrun], ha, hw.leave, hs'.toBounded.leave, hs'.facing,
        hs'.news_eq, ?_⟩
      rw [hw.leave.depth_eq, hs.depth_eq]

theorem Reaches.trans {next : α → State → EStateM.Result Stopped State γ}
    {next' : β → State → EStateM.Result Stopped State γ} {run : EStateM.Result Stopped State γ}
    {fits fits' : Prop} {kept kept' : State → Prop} (h : Reaches next fits kept same d mid run)
    (hfits : fits' → fits)
    (hnext : ∀ a s, same a → kept s → Faces d s mid →
      Reaches next' fits' kept' same' d rest (next a s)) :
    Reaches next' fits' kept' same' d rest run := by
  obtain ⟨e, s', hrun, hdeep, hnot⟩ | ⟨a, s', hrun, ha, hk, hs'⟩ := h
  · exact .inl ⟨e, s', hrun, hdeep, fun h => hnot (hfits h)⟩
  · rw [hrun]
    exact hnext a s' ha hk hs'

/-- The start of a chain, after which its links are read. -/
theorem Gives.startsLinks {p : Parser α} {more : State → Bool} {link : α → Parser α}
    (hp : Gives s₀ w same d rest (p s₀)) (hs₀ : s₀.peak = s₀.level) :
    Reaches (links more link) (Fits s₀ w) (Grown s₀ w) same d rest
      ((p >>= fun a => links more link a) s₀) := by
  change Reaches _ _ _ _ _ _ (EStateM.bind p (fun a => links more link a) s₀)
  unfold EStateM.bind
  obtain ⟨e, s', hrun, hdeep, hfits⟩ | ⟨a, s', hrun, ha, hw, hs'⟩ := hp
  · exact .inl ⟨e, s', by rw [hrun], hdeep, hfits⟩
  · exact .inr ⟨a, s', by rw [hrun], ha, .of_weighs hs₀ hw, hs'⟩

/-- One more link of a chain. -/
theorem links_step {more : State → Bool} {link : α → Parser α} {a : α} {fits : Prop}
    {kept : State → Prop} (hs : Faces d s ps) (hm : more s = true)
    (hlt : rest.length < ps.length) (h : Reaches .ok fits kept same d rest (link a s)) :
    Reaches (links more link) fits kept same d rest (links more link a s) := by
  rw [links, hm]
  obtain ⟨e, s', hrun, hdeep, hfits⟩ | ⟨b, s', hrun, hb, hk, hs'⟩ := h
  · exact .inl ⟨e, s', by simp only [hrun, if_true], hdeep, hfits⟩
  · have hsize : s'.ahead.size < s.ahead.size := by rwa [hs.size_eq, hs'.size_eq]
    exact .inr ⟨b, s', by simp only [hrun, hsize, if_true], hb, hk, hs'⟩

/-- A chain of weight `v` goes on with a link that holds `w`. -/
theorem Reaches.link {same' : α → Prop} {more : State → Bool} {link : α → Parser α}
    {run : EStateM.Result Stopped State α}
    (h : Reaches (links more link) (Fits s₀ v) (Grown s₀ v) same d mid run)
    (hmore : ∀ s, Faces d s mid → more s = true) (hlt : rest.length < mid.length)
    (hlink : ∀ a s, same a → Grown s₀ v s → Faces d s mid →
      Reaches .ok (Fits s₀ (v.link w)) (Grown s₀ (v.link w)) same' d rest (link a s)) :
    Reaches (links more link) (Fits s₀ (v.link w)) (Grown s₀ (v.link w)) same' d rest run := by
  refine h.trans (fun hfits => ?_) fun a s ha hg hs => ?_
  · simp only [Fits, Weight.nest_link, Weight.load_link] at hfits ⊢
    omega
  · exact links_step hs (hmore s hs) hlt (hlink a s ha hg hs)

/-- The end of a chain. -/
theorem Reaches.done {more : State → Bool} {link : α → Parser α} {fits : Prop}
    {kept : State → Prop} {run : EStateM.Result Stopped State α}
    (h : Reaches (Parser.links more link) fits kept same d rest run)
    (hstop : ∀ s, Faces d s rest → more s = false) : Reaches .ok fits kept same d rest run := by
  refine h.trans id fun a s ha hk hs => .inr ⟨a, s, ?_, ha, hk, hs⟩
  rw [Parser.links, hstop s hs]
  rfl

/-- What a link reads at its level. -/
theorem raise_reaches {q : Parser α} (h : Grown s₀ v s) (hs : Faces d s ps)
    (hq : ∀ s₁, Faces d s₁ ps → Gives s₁ w same d rest (q s₁)) :
    Reaches .ok (Fits s₀ (v.link w)) (Grown s₀ (v.link w)) same d rest
      ((raise >>= fun _ => q) s) := by
  change Reaches _ _ _ _ _ _ (EStateM.bind raise (fun _ => q) s)
  have hpeak := h.peak_eq
  have hdepth := h.depth_eq
  by_cases hguard : maxTreeDepth ≤ s.peak
  · obtain ⟨e, s', hrun, hdeep⟩ := @fail_tooDeep Unit _ hs.news_eq
    have hraise : raise s = .error e s' := by rw [raise, if_pos hguard, hrun]
    refine .inl ⟨e, s', by rw [EStateM.bind, hraise], hdeep, fun hfits => ?_⟩
    simp only [Fits, Weight.nest_link, Weight.load_link] at hfits
    omega
  · let s₁ : State := { s with level := s.peak + 1, peak := s.peak + 1 }
    have hraise : raise s = .ok ⟨⟩ s₁ := by rw [raise, if_neg hguard]
    have hs₁ : Faces d s₁ ps :=
      ⟨⟨hs.depth_le, Nat.le_refl _, by simp only [s₁]; omega⟩, hs.facing, hs.news_eq, hs.depth_eq⟩
    rw [EStateM.bind, hraise]
    obtain ⟨e, s', hrun, hdeep, hfits⟩ | ⟨a, s', hrun, ha, hw, hs'⟩ := hq s₁ hs₁
    · refine .inl ⟨e, s', hrun, hdeep, fun hfits' => hfits ?_⟩
      simp only [Fits, s₁, Weight.nest_link, Weight.load_link] at hfits' ⊢
      omega
    · exact .inr ⟨a, s', hrun, ha, h.link hraise hw, hs'⟩

theorem chain_gives {p : Parser α} (hs : Faces d s ps)
    (hp : ∀ s₀, Faces d s₀ ps → s₀.peak = s₀.level →
      Reaches .ok (Fits s₀ w) (Grown s₀ w) same d rest (p s₀)) :
    Gives s w same d rest (chain p s) := by
  unfold chain
  have hs₀ : Faces d { s with peak := s.level } ps :=
    ⟨hs.toBounded.opened, hs.facing, hs.news_eq, hs.depth_eq⟩
  obtain ⟨e, s', hrun, hdeep, hfits⟩ | ⟨a, s', hrun, ha, hg, hs'⟩ := hp _ hs₀ rfl
  · exact .inl ⟨e, s', by simp only [hrun], hdeep, hfits⟩
  · obtain ⟨hweighs, hbounded⟩ := hg.close hs.toBounded hs'.toBounded
    exact .inr ⟨a, _, by simp only [hrun], ha, hweighs, hbounded, hs'.facing, hs'.news_eq,
      hs'.depth_eq⟩

end Guards

end Parser

end LarkCheck
