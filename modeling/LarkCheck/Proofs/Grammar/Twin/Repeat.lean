import LarkCheck.Proofs.Grammar.Twin.Combinators

/-!
# Repetition on tokens that begin alike

The next token decides whether a repetition goes on. Each round takes a token, so
the two runs go the same number of rounds over the tokens they have in common.
-/

namespace LarkCheck

open Token

instance : Movable Bool := ⟨fun _ => id⟩
instance {α β : Type} [Movable α] [Movable β] : Movable (α × β) :=
  ⟨fun f ab => (move f ab.1, move f ab.2)⟩

namespace Parser

variable {α β : Type}

variable {f : Location → Location} {tight : Bool} {n : Nat} {room : Bool} {P : Prop}
  {F Fi : Kind → Prop} {e : Bool} {c ci : List Kind} {s s₁ : State} {kind : Kind}
  {more : State → Bool} {m : Kind → Bool}

/-- Tells beside the result whether anything was read. -/
def marked (p : Parser α) : Parser (α × Bool) := fun s =>
  match p s with
  | .ok a s' => .ok (a, decide (s'.ahead.size < s.ahead.size)) s'
  | .error x s' => .error x s'

theorem marked_eq_ok {p : Parser α} {r : α × Bool} :
    marked p s = .ok r s₁ ↔ p s = .ok r.1 s₁ ∧ r.2 = decide (s₁.ahead.size < s.ahead.size) := by
  obtain ⟨a, grew⟩ := r
  unfold marked
  cases p s with
  | ok b s' =>
    simp only [EStateM.Result.ok.injEq, Prod.mk.injEq]
    constructor
    · rintro ⟨⟨rfl, rfl⟩, rfl⟩
      exact ⟨⟨rfl, rfl⟩, rfl⟩
    · rintro ⟨⟨rfl, rfl⟩, rfl⟩
      exact ⟨⟨rfl, rfl⟩, rfl⟩
  | error x s' => simp

theorem marked_of_ok {p : Parser α} {a : α} (h : p s = .ok a s₁) :
    marked p s = .ok (a, decide (s₁.ahead.size < s.ahead.size)) s₁ :=
  marked_eq_ok.2 ⟨h, rfl⟩

theorem marked_eq_error {p : Parser α} {x : Stopped} :
    marked p s = .error x s₁ ↔ p s = .error x s₁ := by
  unfold marked
  cases p s <;> simp

theorem State.length_pending (s : State) : s.pending.length = s.ahead.size + 1 := by
  simp [State.pending, s.ahead.size_eq]

theorem Passed.size_lt {xs : List Token} (h : Passed s xs s₁) (hne : xs ≠ []) :
    s₁.ahead.size < s.ahead.size := by
  have hpos := List.length_pos_iff.2 hne
  have hlength := congrArg List.length h
  simp only [List.length_append, List.length_map, State.length_pending] at hlength
  omega

theorem Twin.marked [Movable α] {p q : Parser α} (h : Twin f tight s p q F e c) (hc : c ≠ []) :
    Twin f tight s (marked p) (marked q) F e c where
  ok {r s'} hrun := by
    obtain ⟨a, grew⟩ := r
    obtain ⟨hp, rfl⟩ := marked_eq_ok.1 hrun
    obtain ⟨xs, hne, hxs⟩ := h.ok hp
    have hgrew : s'.ahead.size < s.ahead.size := hxs.passed.size_lt (hne hc)
    have hpos : 0 < xs.length := List.length_pos_iff.2 (hne hc)
    refine ⟨xs, hne, hxs.passed, hxs.sound, fun {t k rest} hab ht hk => ?_⟩
    obtain ⟨b, t', hq, hab', ht', hb⟩ := hxs.again hab ht hk
    have hgrew' : t'.ahead.size < t.ahead.size := by
      have h₁ := congrArg List.length ht
      have h₂ := congrArg List.length ht'
      simp only [List.length_append, List.length_map, State.length_pending, move,
        List.length_cons] at h₁ h₂
      omega
    refine ⟨(b, true), t', marked_eq_ok.2 ⟨hq, by simp [hgrew']⟩, hab', ht', fun h => ?_⟩
    rw [hb h]
    simp [hgrew, move]
  error hrun hobj := by
    obtain ⟨xs, hxs⟩ := h.error (marked_eq_error.1 hrun) hobj
    refine ⟨xs, hxs.passed, fun hab ht => ?_, fun hne => (hxs.mends hne).imp ?_ ?_⟩
    · obtain ⟨x, t', hq⟩ := hxs.refuses hab ht
      exact ⟨x, t', marked_eq_error.2 hq⟩
    · rintro ⟨c, hmends⟩
      refine ⟨c, hmends.writable, fun {_ _ _ _} hab hcs ht hlater hk => ?_⟩
      obtain ⟨b, t', hq, ht'⟩ := hmends.accepts hab hcs ht hlater hk
      exact ⟨_, t', marked_of_ok hq, ht'⟩
    · rintro ⟨c, hbarred⟩
      refine ⟨c, hbarred.header, fun hab hrest ht => ?_, fun hab hcs ht => ?_⟩
      · obtain ⟨x, t', hq⟩ := hbarred.rejects hab hrest ht
        exact ⟨x, t', marked_eq_error.2 hq⟩
      · obtain ⟨x, t', hq, hover⟩ := hbarred.overruns hab hcs ht
        exact ⟨x, t', marked_eq_error.2 hq, hover⟩

/-- A rest that may be empty. -/
theorem Twin.seq [Movable α] [Movable β] {p q : Parser α} {g h : α → Parser β} {ep : Bool}
    (hp : Twin f tight s p q Fi ep c)
    (hg : ∀ {a s₁}, p s = .ok a s₁ → s₁.Sound → Twin f tight s₁ (g a) (h (move f a)) F e [])
    (hstarts : ∀ b t, F t.current.kind → ∃ y, h b t = .ok y t)
    (hF : ∀ kind, F kind → Fi kind) (hx : ep = true ∨ e = false) :
    Twin f tight s (p >>= g) (q >>= h) F e c := by
  have hfree : ∀ {A : Prop}, false = true → A := nofun
  rw [← List.append_nil c]
  exact .bind (n := 0) hp hg nofun (fun b => .stay (hstarts b)) hfree hfree hF
    (hx.imp_right fun he => .inr ⟨he, blind_of_starts hstarts⟩)

theorem Twin.pure [Movable α] {a b : α} (hs : s.Sound) (hb : b = move f a) :
    Twin f tight s (pure a) (pure b) F e [] :=
  .stay hs rfl fun _ _ => ⟨b, rfl, fun _ => hb⟩

/-- A value made of the result. -/
theorem Twin.returning [Movable α] [Movable β] {p q : Parser α} {g h : α → β}
    (hp : Twin f tight s p q F e c) (hg : ∀ a, h (move f a) = move f (g a)) :
    Twin f tight s (do let a ← p; return g a) (do let a ← q; return h a) F e c := by
  refine .seq hp (fun _ hs₁ => .pure hs₁ (hg _)) (fun b t _ => ⟨_, rfl⟩) (fun _ => id) ?_
  cases e <;> simp

section Many

variable [Movable α] {item : Parser α}

/-- After an item, the further ones. -/
def manyMore (more : State → Bool) (item : Parser α) (r : α × Bool) : Parser (List α) :=
  if r.2 then (do let rest ← many more item; return r.1 :: rest) else return [r.1]

omit [Movable α] in
theorem many_eq_bind (h : more s = true) :
    many more item s = (marked item >>= manyMore more item) s := by
  rw [many, if_pos h]
  cases hitem : item s with
  | error x s' => rw [bind_of_error (marked_eq_error.2 hitem)]
  | ok a s' =>
    rw [bind_of_ok (marked_of_ok hitem), manyMore]
    by_cases hsize : s'.ahead.size < s.ahead.size
    · simp only [hsize, decide_true, if_true]
      cases hrest : many more item s' with
      | ok rest s'' => rw [bind_of_ok hrest]; rfl
      | error x s'' => rw [bind_of_error hrest]
    · simp only [hsize, decide_false]
      rfl

omit [Movable α] in
theorem many_eq_nil (h : more s = false) : many more item s = .ok [] s := by
  rw [many, if_neg (by simp [h])]

omit [Movable α] in
theorem manyMore_eq (h : more s = false) (r : α × Bool) :
    manyMore more item r s = .ok [r.1] s := by
  obtain ⟨a, _ | _⟩ := r
  · rfl
  · change (many more item >>= fun rest => Pure.pure (a :: rest) : Parser (List α)) s = _
    rw [bind_of_ok (many_eq_nil h)]
    rfl

omit [Movable α] in
theorem many_stops (hmore : ∀ s, more s = m s.current.kind) (h : m s.current.kind = false) :
    many more item s = .ok [] s :=
  many_eq_nil ((hmore s).trans h)

theorem Twin.many (hmore : ∀ s, more s = m s.current.kind)
    (hitem : ∀ {s}, s.Sound → m s.current.kind = true → Twin f tight s item item Fi e ci)
    (hci : ci ≠ []) (hF : ∀ kind, F kind → m kind = false ∧ Fi kind) (hs : s.Sound) :
    Twin f tight s (many more item) (many more item) F e [] := by
  induction hsize : s.ahead.size using Nat.strongRecOn generalizing s with
  | ind size ih =>
    subst hsize
    have stops : ∀ {t : State}, F t.current.kind → more t = false := fun h => by
      rw [hmore]
      exact (hF _ h).1
    cases hm : m s.current.kind with
    | false =>
      have hmore' : more s = false := by rw [hmore, hm]
      refine .stay hs (many_eq_nil hmore') fun t ht => ⟨[], many_eq_nil ?_, fun _ => rfl⟩
      rcases ht with ht | ht
      · rw [hmore, ht]
        exact hm
      · exact stops ht
    | true =>
      have hmore' : more s = true := by rw [hmore, hm]
      have hround : Twin f tight s (Parser.marked item >>= manyMore more item)
          (Parser.marked item >>= manyMore more item) F e ci := by
        refine .seq ((hitem hs hm).marked hci) (fun {r s₁} hrun hs₁ => ?_)
          (fun r t ht => ⟨_, manyMore_eq (stops ht) r⟩) (fun kind h => (hF kind h).2) ?_
        · obtain ⟨a, grew⟩ := r
          obtain ⟨-, rfl⟩ := marked_eq_ok.1 hrun
          by_cases hsize : s₁.ahead.size < s.ahead.size
          · simp only [hsize, decide_true]
            exact (ih _ hsize hs₁ rfl).returning fun _ => rfl
          · simp only [hsize, decide_false]
            exact .pure hs₁ rfl
        · cases e <;> simp
      refine Twin.mono (.of_eq hround (many_eq_bind hmore') (fun t ht => many_eq_bind ?_) hci)
        (fun _ => id) id nofun
      rw [hmore, ht]
      exact hm

theorem Part.many (hmore : ∀ s, more s = m s.current.kind)
    (hitem : ∀ {s}, s.Sound → m s.current.kind = true → Twin f tight s item item Fi e ci)
    (hci : ci ≠ []) (hF : ∀ kind, F kind → m kind = false ∧ Fi kind) :
    Part f tight 0 false (many more item) F e [] where
  twin hs := .many hmore hitem hci hF hs
  starts := .stay fun _ ht => ⟨_, many_stops hmore (hF _ ht).1⟩
  blocked := nofun

end Many

section Links

variable [Movable α] {link : α → Parser α} {a : α}

/-- After a link, the further ones. -/
def linksMore (more : State → Bool) (link : α → Parser α) (r : α × Bool) : Parser α :=
  if r.2 then links more link r.1 else return r.1

omit [Movable α] in
theorem links_eq_bind (h : more s = true) :
    links more link a s = (marked (link a) >>= linksMore more link) s := by
  rw [links, if_pos h]
  cases hlink : link a s with
  | error x s' => rw [bind_of_error (marked_eq_error.2 hlink)]
  | ok b s' =>
    rw [bind_of_ok (marked_of_ok hlink)]
    by_cases hsize : s'.ahead.size < s.ahead.size
    · rw [decide_eq_true hsize]
      exact if_pos hsize
    · rw [decide_eq_false hsize]
      exact if_neg hsize

omit [Movable α] in
theorem links_stops (hmore : ∀ s, more s = m s.current.kind) (h : m s.current.kind = false) :
    links more link a s = .ok a s := by
  rw [links, if_neg (by simp [hmore, h])]

omit [Movable α] in
theorem linksMore_stops (hmore : ∀ s, more s = m s.current.kind) (h : m s.current.kind = false)
    (r : α × Bool) : linksMore more link r s = .ok r.1 s := by
  obtain ⟨b, _ | _⟩ := r
  · rfl
  · exact links_stops hmore h

theorem Twin.links (hmore : ∀ s, more s = m s.current.kind)
    (hlink : ∀ {a s}, s.Sound → m s.current.kind = true →
      Twin f tight s (link a) (link (move f a)) Fi true ci)
    (hci : ci ≠ []) (hF : ∀ kind, F kind → m kind = false ∧ Fi kind) (hs : s.Sound) :
    Twin f tight s (links more link a) (links more link (move f a)) F true [] := by
  induction hsize : s.ahead.size using Nat.strongRecOn generalizing s a with
  | ind size ih =>
    subst hsize
    cases hm : m s.current.kind with
    | false =>
      refine .stay hs (links_stops hmore hm) fun t ht => ⟨_, links_stops hmore ?_, fun _ => rfl⟩
      rcases ht with ht | ht
      · rw [ht]
        exact hm
      · exact (hF _ ht).1
    | true =>
      have hround : Twin f tight s (Parser.marked (link a) >>= linksMore more link)
          (Parser.marked (link (move f a)) >>= linksMore more link) F true ci := by
        refine .seq ((hlink hs hm).marked hci) (fun {r s₁} hrun hs₁ => ?_)
          (fun r t ht => ⟨_, linksMore_stops hmore (hF _ ht).1 r⟩) (fun kind h => (hF kind h).2)
          (.inl rfl)
        obtain ⟨b, grew⟩ := r
        obtain ⟨-, rfl⟩ := marked_eq_ok.1 hrun
        by_cases hsize : s₁.ahead.size < s.ahead.size
        · simp only [hsize, decide_true]
          exact ih _ hsize hs₁ rfl
        · simp only [hsize, decide_false]
          exact .pure hs₁ rfl
      refine Twin.mono (.of_eq hround (links_eq_bind ((hmore s).trans hm))
        (fun t ht => links_eq_bind ((hmore t).trans ?_)) hci) (fun _ => id) id nofun
      rw [ht]
      exact hm

end Links

section Lists

variable [Movable α] {p : Parser α} {item : Parser α}

omit [Movable α] in
theorem some_map_eq (p : Parser α) : some <$> p = (do let a ← p; return some a) := by
  funext s
  change EStateM.map some p s = _
  unfold EStateM.map
  cases hrun : p s with
  | ok a s' => rw [bind_of_ok hrun]; rfl
  | error x s' => rw [bind_of_error hrun]

/-- A part after a token of its own. -/
theorem Twin.prefixed (hp : Part f tight n room p F e c) (hs : s.Sound)
    (hk : s.current.kind ≠ .eof) : Twin f tight s (advance >>= fun _ => p)
      (advance >>= fun _ => p) F e [kind] :=
  .begin c hs hk (fun _ => hp.tail) hp.blocked

theorem Part.map [Movable β] {g : α → β} (hp : Part f tight n room p F e c)
    (hg : ∀ a, g (move f a) = move f (g a)) :
    Part f tight n room (do let a ← p; return g a) F e c where
  twin hs := (hp.twin hs).returning hg
  starts := hp.starts.seq (fun _ _ _ => ⟨_, rfl⟩) fun _ => id
  blocked hr hno := (hp.blocked hr hno).bind

theorem Part.after? (hp : Part f tight n room p F e c) (hk : kind ≠ .eof) :
    Part f tight 0 false (after? kind p) (fun k => F k ∧ k ≠ kind) e [] where
  twin {s} hs := by
    have skips : ∀ {t : State}, t.current.kind ≠ kind → Parser.after? kind p t = .ok none t :=
      fun h => if_neg (by simpa [State.isAt] using h)
    by_cases hkind : s.current.kind = kind
    · have htaken : Twin f tight s (advance >>= fun _ => some <$> p)
          (advance >>= fun _ => some <$> p) F e [kind] := by
        rw [some_map_eq]
        exact .prefixed (hp.map fun _ => rfl) hs (hkind ▸ hk)
      refine Twin.mono (htaken.of_eq (if_pos (by simpa [State.isAt] using hkind))
        (fun t ht => if_pos (by simpa [State.isAt, kind_eq_of_move ht] using hkind))
        (List.cons_ne_nil _ _))
        (fun _ h => h.1) id (absurd rfl)
    · refine .stay hs (skips hkind) fun t ht => ⟨none, skips ?_, fun _ => rfl⟩
      rcases ht with ht | ht
      · rw [ht]
        exact hkind
      · exact ht.2
  starts := .stay fun t ht => ⟨none, if_neg (by simpa [State.isAt] using ht.2)⟩
  blocked := by simp

/-- One item and further ones after commas. -/
theorem Part.separated (hp : Part f tight n room item Fi true ci) :
    Part f tight n room (separated item) (fun k => Fi k ∧ k ≠ .punctuation .comma) true ci := by
  have further : Part f tight 0 false
      (Parser.many (·.isAt (.punctuation .comma)) (advance >>= fun _ => item))
      (fun k => Fi k ∧ k ≠ .punctuation .comma) true [] :=
    .many (m := fun k => decide (k = .punctuation .comma)) (fun _ => rfl)
      (fun hs hm => .prefixed hp hs (by
        rw [of_decide_eq_true hm]
        simp)) (List.cons_ne_nil .nil []) fun k hk => ⟨decide_eq_false hk.2, hk.1⟩
  have ends : ∀ (a : α) (t : State), (Fi t.current.kind ∧ t.current.kind ≠ .punctuation .comma) →
      ∃ y, (do let rest ← Parser.many (·.isAt (.punctuation .comma)) (advance >>= fun _ => item)
               return a :: rest : Parser (List α)) t = .ok y t := by
    intro a t ht
    refine ⟨[a], ?_⟩
    rw [bind_of_ok (many_eq_nil (by simpa [State.isAt] using ht.2))]
    rfl
  constructor
  · intro s hs
    exact .seq (hp.twin hs) (fun _ hs₁ => (further.twin hs₁).returning fun _ => rfl) ends
      (fun _ h => h.1) (.inl rfl)
  · exact hp.starts.seq ends fun _ h => h.1
  · exact fun hr hno => (hp.blocked hr hno).bind

theorem Part.separatedUntil (close : Punctuation) (hp : Part f tight n room item Fi true ci)
    (hci : ci ≠ []) (hclose : Fi (.punctuation close)) (hne : close ≠ .comma) :
    Part f tight 0 false (separatedUntil close item) (fun k => k = .punctuation close) true []
    where
  twin {s} hs := by
    have isAt_eq : ∀ {t : State} {b}, decide (t.current.kind = .punctuation close) = b →
        t.isAt (.punctuation close) = b := id
    by_cases hk : s.current.kind = .punctuation close
    · refine .stay hs (if_pos (isAt_eq (decide_eq_true hk))) fun t ht =>
        ⟨_, if_pos (isAt_eq (decide_eq_true ?_)), fun _ => rfl⟩
      exact ht.elim (fun ht => ht ▸ hk) id
    · refine Twin.mono ((hp.separated.twin hs).of_eq
        (if_neg (by simpa [State.isAt] using hk))
        (fun t ht => if_neg (by simpa [State.isAt, kind_eq_of_move ht] using hk)) hci) ?_ id nofun
      rintro _ rfl
      exact ⟨hclose, by simpa using hne⟩
  starts := .stay fun t ht => ⟨_, if_pos (by simpa [State.isAt] using ht)⟩
  blocked := nofun

end Lists

end Parser

end LarkCheck
