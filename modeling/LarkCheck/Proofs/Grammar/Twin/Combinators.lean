import LarkCheck.Proofs.Grammar.Twin.Basic

/-!
# Combinators on tokens that begin alike

One rule for each way in which productions are put together from smaller parsers:
a token is taken, the next token decides what to do, or a part is repeated.
-/

namespace LarkCheck

open Token

namespace Parser

variable {α β : Type}

variable {f : Location → Location} {tight : Bool} {n : Nat} {room : Bool} {P : Prop}
  {F F' Fp : Kind → Prop} {e e' ep : Bool} {c c' cp : List Kind} {s s₁ s' t : State}
  {xs ys : List Token} {kind : Kind}

theorem Abreast.of_same {t' : State} (h : Abreast tight s t) (hs : SameCounters s s')
    (ht : SameCounters t t') : Abreast tight s' t' where
  depth_eq := by rw [ht.depth_eq, hs.depth_eq, h.depth_eq]
  level_eq := by rw [ht.level_eq, hs.level_eq, h.level_eq]
  peak_eq hx := by rw [ht.peak_eq, hs.peak_eq, h.peak_eq hx]

theorem SameCounters.room_before (h : SameCounters s s') (hs : Room n s') : Room n s :=
  ⟨hs.levels, h.depth_eq ▸ hs.depth_lt, h.level_eq ▸ hs.level_lt⟩

theorem advance_of_pending {x k : Token} {rest : List (Option Token)}
    (h : t.pending = some x :: some k :: rest) :
    ∃ t', advance t = .ok x t' ∧ SameCounters t t' ∧ t'.pending = some k :: rest := by
  obtain ⟨current, ⟨items, size, hsize⟩, news, depth, level, peak⟩ := t
  cases items with
  | nil => simp [State.pending] at h
  | cons r items =>
    simp only [State.pending, List.map_cons, List.cons.injEq, Option.some.injEq] at h
    obtain ⟨rfl, hr, rfl⟩ := h
    have hrun : advance ⟨current, ⟨r :: items, size, hsize⟩, news, depth, level, peak⟩ =
        .ok current
          ⟨k, ⟨items, size - 1, by simp [hsize]⟩, news ++ r.news, depth, level, peak⟩ := by
      simp only [advance, hr]
    exact ⟨_, hrun, ⟨rfl, rfl, rfl⟩, rfl⟩

/-- A malformed lexeme is not reported as a token that cannot stand where it is. -/
theorem not_objected_of_malformed {before news : List Diagnostic} (h : Explains false news)
    (hnews : s.news = before ++ news) : ¬s.Objected := by
  obtain ⟨further, d, rfl, -, hd, -⟩ := h.last_malformed
  rintro ⟨d', hlast, hcode, -⟩
  rw [hnews, ← List.append_assoc, List.getLast?_concat, Option.some.injEq] at hlast
  rw [← hlast, Diagnostic.Code.isSyntax_of_isMalformed hd] at hcode
  cases hcode

/-- Before the end of the file a token is taken, or the next lexeme is malformed. -/
theorem advance_cases (hs : s.Sound) (hk : s.current.kind ≠ .eof) :
    (∃ s₁, advance s = .ok s.current s₁ ∧ Passed s [s.current] s₁ ∧ s₁.Sound ∧
      SameCounters s s₁) ∨ ∃ x s', advance s = .error x s' ∧ ¬s'.Objected := by
  obtain ⟨hsync, hexplains⟩ := hs
  cases hrun : advance s with
  | ok t s₁ =>
    obtain ⟨rfl, hsync', ⟨hd, hl, hp⟩, r, hitems, htoken, -⟩ := advance_reading hsync hk hrun
    refine .inl ⟨s₁, rfl, ?_, ⟨hsync', fun r hr => hexplains r ?_⟩, ⟨hd, hl, hp⟩⟩
    · simp [Passed, State.pending, hitems, htoken]
    · rw [hitems]
      exact List.mem_cons_of_mem _ hr
  | error x s' =>
    refine .inr ⟨x, s', rfl, ?_⟩
    obtain ⟨current, ⟨items, size, hsize⟩, news, depth, level, peak⟩ := s
    cases items with
    | nil => cases hrun
    | cons r items =>
      have hr := hexplains r List.mem_cons_self
      cases ht : r.token with
      | none =>
        simp only [advance, ht, EStateM.Result.error.injEq] at hrun
        obtain ⟨-, rfl⟩ := hrun
        rw [ht] at hr
        exact not_objected_of_malformed hr rfl
      | some token => simp [advance, ht] at hrun

theorem advance_reached {a : Token} (hs : s.Sound) (hk : s.current.kind ≠ .eof)
    (hrun : advance s = .ok a s₁) :
    a = s.current ∧ SameCounters s s₁ ∧
      Reached f tight advance (fun _ => True) true s a s₁ [s.current] := by
  obtain ⟨s₂, hrun', hpassed, hsound, hsame⟩ | ⟨x, s₂, hrun', -⟩ := advance_cases hs hk
  · rw [hrun'] at hrun
    cases hrun
    refine ⟨rfl, hsame, hpassed, hsound, fun {t k rest} hab ht _ => ?_⟩
    obtain ⟨t', hrun, hsame', ht'⟩ := advance_of_pending ht
    exact ⟨_, t', hrun, hab.of_same hsame hsame', ht', fun _ => rfl⟩
  · rw [hrun'] at hrun
    cases hrun

theorem advance_not_objected {x : Stopped} (hs : s.Sound) (hk : s.current.kind ≠ .eof)
    (hrun : advance s = .error x s') : ¬s'.Objected := by
  obtain ⟨s₂, hrun', -⟩ | ⟨x, s₂, hrun', hobj⟩ := advance_cases hs hk
  · rw [hrun'] at hrun
    cases hrun
  · rw [hrun'] at hrun
    cases hrun
    exact hobj

theorem steady_advance : Steady advance := by
  intro s a s' h
  obtain ⟨current, ⟨items, size, hsize⟩, news, depth, level, peak⟩ := s
  cases items with
  | nil =>
    cases h
    exact ⟨rfl, rfl⟩
  | cons r items =>
    cases hr : r.token <;> simp only [advance, hr] at h <;> cases h
    exact ⟨rfl, rfl⟩

/-- The first step takes the current token, and then comes the rest of the production. -/
theorem Twin.first [Movable β] {first : Parser Token} {g h : Token → Parser β}
    (hok : ∀ {a s₁}, first s = .ok a s₁ → a = s.current ∧ ∃ xs, xs ≠ [] ∧
      Reached f tight first (fun _ => True) true s a s₁ xs)
    (herror : ∀ {x s'}, first s = .error x s' → ¬s'.Objected)
    (hg : ∀ s₁, Tail f tight n room True s₁ (g s.current) (h (move f s.current)) F e c)
    (hroom : room = true → Room n s) (hsteady : room = true → Steady first) :
    Twin f tight s (first >>= g) (first >>= h) F e c' where
  ok hrun := by
    obtain ⟨a, s₁, h₁, h₂⟩ := bind_eq_ok.1 hrun
    obtain ⟨rfl, xs, hne, htaken⟩ := hok h₁
    have htwin := (hg s₁).twin trivial htaken.sound fun hr => (hroom hr).after (hsteady hr) h₁
    obtain ⟨ys, hne', hys⟩ := htwin.ok h₂
    exact ⟨_, fun _ => List.append_ne_nil_of_left_ne_nil hne ys,
      htaken.bind hys (fun _ _ => trivial) hne' (.inl rfl)⟩
  error hrun hobj := by
    rcases bind_eq_error hrun with h₁ | ⟨a, s₁, h₁, h₂⟩
    · exact absurd hobj (herror h₁)
    · obtain ⟨rfl, xs, -, htaken⟩ := hok h₁
      have htwin := (hg s₁).twin trivial htaken.sound fun hr => (hroom hr).after (hsteady hr) h₁
      obtain ⟨ys, hys⟩ := htwin.error h₂ hobj
      have hstarts : ∀ b, (true = true → b = move f s.current) → Starts n room (h b) F c := by
        intro b hb
        rw [hb rfl]
        exact (hg s₁).starts
      exact ⟨_, .after htaken hys (.again htaken hstarts hroom hsteady fun _ _ => trivial)⟩

/-- The rest after a first token may need room. -/
theorem Twin.begin [Movable β] {g h : Token → Parser β} (c : List Kind) (hs : s.Sound)
    (hk : s.current.kind ≠ .eof)
    (hg : ∀ s₁, Tail f tight n room True s₁ (g s.current) (h (move f s.current)) F e c)
    (hblocked : ∀ {s₁}, room = true → ¬Room n s₁ → Blocked s₁ (g s.current)) :
    Twin f tight s (advance >>= g) (advance >>= h) F e c' := by
  by_cases hroom : room = true → Room n s
  · refine .first (fun hrun => ?_) (advance_not_objected hs hk) hg hroom fun _ => steady_advance
    obtain ⟨ha, -, htaken⟩ := advance_reached hs hk hrun
    exact ⟨ha, _, List.cons_ne_nil _ _, htaken⟩
  · obtain ⟨hr, hno⟩ := Classical.not_imp.1 hroom
    obtain ⟨s₁, hrun, -, -, hsame⟩ | ⟨x, s', hrun, hobj⟩ := advance_cases hs hk
    · obtain ⟨x, s', hrun', hobj⟩ := hblocked hr fun h => hno (hsame.room_before h)
      exact Blocked.twin ⟨x, s', by rw [bind_of_ok hrun, hrun'], hobj⟩
    · exact Blocked.twin ⟨x, s', bind_of_error hrun, hobj⟩

theorem Twin.take [Movable β] {g h : Token → Parser β} (c : List Kind) (hs : s.Sound)
    (hk : s.current.kind ≠ .eof)
    (hg : ∀ s₁, Tail f tight 0 false True s₁ (g s.current) (h (move f s.current)) F e c) :
    Twin f tight s (advance >>= g) (advance >>= h) F e c' :=
  .begin c hs hk hg nofun

theorem Twin.within [Movable β] {g h : Token → Parser β} (c : List Kind) (hs : s.Sound)
    (hk : s.current.kind ≠ .eof) (hroom : Room n s)
    (hg : ∀ s₁, Tail f tight n true True s₁ (g s.current) (h (move f s.current)) F e c) :
    Twin f tight s (advance >>= g) (advance >>= h) F e c' := by
  refine .first (fun hrun => ?_) (advance_not_objected hs hk) hg (fun _ => hroom)
    fun _ => steady_advance
  obtain ⟨ha, -, htaken⟩ := advance_reached hs hk hrun
  exact ⟨ha, _, List.cons_ne_nil _ _, htaken⟩

/-- After its first token the production needs room. -/
theorem Twin.enter [Movable β] {g h : Token → Parser β} (c : List Kind) (hs : s.Sound)
    (hk : s.current.kind ≠ .eof)
    (hg : ∀ s₁, Tail f tight n true True s₁ (g s.current) (h (move f s.current)) F e c)
    (hblocked : ∀ {s₁}, ¬Room n s₁ → Blocked s₁ (g s.current)) :
    Twin f tight s (advance >>= g) (advance >>= h) F e c' :=
  .begin c hs hk hg fun _ => hblocked

theorem kind_eq_of_move {x y : Token} (h : y = move f x) : y.kind = x.kind := by
  rw [h]
  rfl

/-- The other run begins with the same token. -/
theorem Passed.current_move {rest : List (Option Token)} (h : Passed s xs s')
    (ht : t.pending = (move f xs).map some ++ some (move f s'.current) :: rest) :
    t.current = move f s.current := by
  obtain ⟨rest', heq⟩ := h.begins f rest
  rw [heq] at ht
  exact current_of_pending ht

theorem Passed.current_move_of_ne {rest : List (Option Token)} (h : Passed s xs s')
    (hne : xs ≠ []) (ht : t.pending = (move f xs).map some ++ rest) :
    t.current = move f s.current := by
  obtain ⟨x, xs, rfl⟩ := List.exists_cons_of_ne_nil hne
  rw [current_of_pending ht, h.head_eq]

section Decide

variable [Movable α] {p p₁ q q₁ : Parser α} {a : α}

theorem Twin.mono (h : Twin f tight s p q F e c) (hF : ∀ kind, F' kind → F kind)
    (he : e' = true → e = true) (hc : c' ≠ [] → c ≠ []) : Twin f tight s p q F' e' c' where
  ok hrun := by
    obtain ⟨xs, hne, hxs⟩ := h.ok hrun
    refine ⟨xs, fun h => hne (hc h), hxs.passed, hxs.sound, fun {t k rest} hab ht hk => ?_⟩
    obtain ⟨b, t', hq, hab', ht', hb⟩ := hxs.again hab ht (hk.imp_right (.imp_right (hF _)))
    exact ⟨b, t', hq, hab', ht', fun h => hb (h.imp_right he)⟩
  error hrun hobj := by
    obtain ⟨xs, hxs⟩ := h.error hrun hobj
    refine ⟨xs, hxs.passed, hxs.refuses, fun hne => (hxs.mends hne).imp_left ?_⟩
    rintro ⟨c, hmends⟩
    exact ⟨c, hmends.writable, fun hab hcs ht hlater hk => hmends.accepts hab hcs ht hlater
      (hF _ hk)⟩

/-- A parser that does the same as another in front of the current token. -/
theorem Twin.of_eq (h : Twin f tight s p₁ q₁ F e c) (hp : p s = p₁ s)
    (hq : ∀ t, t.current = move f s.current → q t = q₁ t) (hc : c ≠ []) :
    Twin f tight s p q F e c where
  ok hrun := by
    rw [hp] at hrun
    obtain ⟨xs, hne, hxs⟩ := h.ok hrun
    refine ⟨xs, hne, hxs.passed, hxs.sound, fun hab ht hk => ?_⟩
    rw [hq _ (hxs.passed.current_move_of_ne (hne hc) ht)]
    exact hxs.again hab ht hk
  error hrun hobj := by
    rw [hp] at hrun
    obtain ⟨xs, hxs⟩ := h.error hrun hobj
    refine ⟨xs, hxs.passed, fun hab ht => ?_, fun hne => ?_⟩
    · rw [hq _ (hxs.passed.current_move ht)]
      exact hxs.refuses hab ht
    · obtain ⟨c, hmends⟩ | ⟨c, hbarred⟩ := hxs.mends hne
      · refine .inl ⟨c, hmends.writable, fun hab hcs ht hlater hk => ?_⟩
        rw [hq _ (hxs.passed.current_move_of_ne hne ht)]
        exact hmends.accepts hab hcs ht hlater hk
      · refine .inr ⟨c, hbarred.header, fun hab hrest ht => ?_, fun hab hcs ht => ?_⟩
        · rw [hq _ (hxs.passed.current_move_of_ne hne ht)]
          exact hbarred.rejects hab hrest ht
        · rw [hq _ (hxs.passed.current_move_of_ne hne ht)]
          exact hbarred.overruns hab hcs ht

/-- Nothing is taken. -/
theorem Twin.stay (hs : s.Sound) (hp : p s = .ok a s)
    (hq : ∀ t, t.current = move f s.current ∨ F t.current.kind →
      ∃ b, q t = .ok b t ∧ (t.current = move f s.current ∨ e = true → b = move f a)) :
    Twin f tight s p q F e [] where
  ok hrun := by
    cases hp.symm.trans hrun
    refine ⟨[], nofun, .refl s, hs, fun {t k rest} hab ht hk => ?_⟩
    have hcurrent := current_of_pending ht
    subst hcurrent
    obtain ⟨b, hq, hb⟩ := hq t (hk.imp_right (·.2))
    exact ⟨b, t, hq, hab, ht, hb⟩
  error hrun := by cases hp.symm.trans hrun

/-- The current token is at fault. -/
theorem Twin.fault (hp : ∃ x s', p s = .error x s' ∧ Passed s [] s')
    (hq : ∀ t, t.current = move f s.current → ∃ x t', q t = .error x t') :
    Twin f tight s p q F e c := by
  obtain ⟨x, s', hp, hpassed⟩ := hp
  constructor
  · intro a s₁ hrun
    cases hp.symm.trans hrun
  · intro y s₁ hrun _
    cases hp.symm.trans hrun
    refine ⟨[], hpassed, fun {t rest} _ ht => hq t (hpassed.current_move ht), fun hne => ?_⟩
    exact absurd rfl hne

omit [Movable α] in
theorem Starts.of_eq (h : ∀ token : Token, token.kind = kind →
      ∃ q₁, Starts n room q₁ F (kind :: c) ∧ ∀ t : State, t.current = token → q t = q₁ t) :
    Starts n room q F (kind :: c) where
  writable := by
    obtain ⟨q₁, hstarts, -⟩ := h ⟨kind, .start⟩ rfl
    exact hstarts.writable
  accepts {t cs k rest} hroom hcs ht hk := by
    obtain ⟨z, rest', heq, -, hz⟩ := next_of_kinds hcs k rest
    have hkind : t.current.kind = kind := by
      rw [heq] at ht
      rw [current_of_pending ht, hz]
      rfl
    obtain ⟨q₁, hstarts, hq⟩ := h t.current hkind
    rw [hq t rfl]
    exact hstarts.accepts hroom hcs ht hk

omit [Movable α] in
theorem Starts.stay (hq : ∀ t, F t.current.kind → ∃ b, q t = .ok b t) : Starts n room q F [] where
  writable := nofun
  accepts {t cs k rest} _ hcs ht hk := by
    rw [List.map_eq_nil_iff.1 hcs] at ht
    have hcurrent := current_of_pending ht
    obtain ⟨b, hq⟩ := hq t (hcurrent ▸ hk)
    exact ⟨b, t, hq, ht⟩

omit [Movable α] in
theorem Starts.seq {g : α → Parser β} (hq : Starts n room q Fp c)
    (hg : ∀ b t, F t.current.kind → ∃ y, g b t = .ok y t) (hF : ∀ kind, F kind → Fp kind) :
    Starts n room (q >>= g) F c where
  writable := hq.writable
  accepts {t cs k rest} hroom hcs ht hk := by
    obtain ⟨b, t', hrun, ht'⟩ := hq.accepts hroom hcs ht (hF _ hk)
    have hcurrent := current_of_pending ht'
    obtain ⟨y, hy⟩ := hg b t' (hcurrent ▸ hk)
    exact ⟨y, t', by rw [bind_of_ok hrun, hy], ht'⟩

theorem Tail.current : Tail f tight n room P s current current (fun _ => True) false [] where
  twin _ hs _ := .stay hs rfl fun t _ => ⟨_, rfl, by simp⟩
  starts := .stay fun t _ => ⟨_, rfl⟩

end Decide

/-- The parser takes a token that has a value, and is at fault with any other. Where the token
stands does not matter to this, nor to the rest of the value. -/
structure Takes [Movable α] (p : Parser α) (value? : Token → Option α) : Prop where
  take : ∀ {s : State} {a}, value? s.current = some a →
    p s = (advance >>= fun _ => pure a : Parser α) s
  fault : ∀ {s : State}, value? s.current = none → ∃ code, p s = fail code s
  move : ∀ f t, value? (move f t) = (value? t).map (move f)
  eof : ∀ t, t.kind = .eof → value? t = none

namespace Takes

variable [Movable α] {p : Parser α} {value? : Token → Option α}

theorem steady (h : Takes p value?) : Steady p := by
  intro s a s' hrun
  cases hv : value? s.current with
  | none =>
    obtain ⟨code, hfail⟩ := h.fault hv
    rw [hfail] at hrun
    exact absurd hrun fail_ne_ok
  | some b =>
    rw [h.take hv] at hrun
    obtain ⟨_, s₁, hadvance, hrun⟩ := bind_eq_ok.1 hrun
    obtain ⟨-, rfl⟩ := pure_eq_ok.1 hrun
    exact steady_advance hadvance

theorem ne_eof (h : Takes p value?) {a : α} (hv : value? s.current = some a) :
    s.current.kind ≠ .eof := fun heof => by
  rw [h.eof _ heof] at hv
  cases hv

theorem taken_of_ok (h : Takes p value?) {a : α} (hs : s.Sound) (hrun : p s = .ok a s') :
    value? s.current = some a ∧ Passed s [s.current] s' ∧ s'.Sound := by
  cases hv : value? s.current with
  | none =>
    obtain ⟨code, hfail⟩ := h.fault hv
    rw [hfail] at hrun
    exact absurd hrun fail_ne_ok
  | some b =>
    rw [h.take hv] at hrun
    obtain ⟨token, s₁, hadvance, hrun⟩ := bind_eq_ok.1 hrun
    obtain ⟨rfl, rfl⟩ := pure_eq_ok.1 hrun
    obtain ⟨-, -, htaken⟩ := @advance_reached id true _ _ _ hs (h.ne_eof hv) hadvance
    exact ⟨rfl, htaken.passed, htaken.sound⟩

/-- The parser objects before it takes the token. -/
theorem passed_of_objected (h : Takes p value?) {x : Stopped} (hs : s.Sound)
    (hrun : p s = .error x s') (hobj : s'.Objected) : Passed s [] s' := by
  cases hv : value? s.current with
  | none =>
    obtain ⟨code, hfail⟩ := h.fault hv
    rw [hfail] at hrun
    cases hrun
    rfl
  | some a =>
    rw [h.take hv] at hrun
    rcases bind_eq_error hrun with hrun | ⟨_, _, -, hrun⟩
    · exact absurd hobj (advance_not_objected hs (h.ne_eof hv) hrun)
    · cases hrun

theorem isSome_eq (h : Takes p value?) {x y : Token} (hkind : y.kind = x.kind) :
    (value? y).isSome = (value? x).isSome := by
  have hy : y = LarkCheck.move (fun _ => y.loc) x := by
    obtain ⟨kind, loc⟩ := y
    obtain rfl := hkind
    rfl
  rw [hy, h.move, Option.isSome_map]

/-- What the parser does in front of a token that has a value. -/
def taking (value? : Token → Option α) : Parser α :=
  advance >>= fun token =>
    match value? token with
    | some a => pure a
    | none => fail .expectedExpression

theorem eq_taking (h : Takes p value?) (hsome : (value? s.current).isSome = true) :
    p s = taking value? s := by
  obtain ⟨a, ha⟩ := Option.isSome_iff_exists.1 hsome
  rw [h.take ha, taking]
  cases hrun : advance s with
  | ok token s₁ =>
    obtain rfl := advance_fst hrun
    rw [bind_of_ok hrun, bind_of_ok hrun, ha]
  | error x s₁ => rw [bind_of_error hrun, bind_of_error hrun]

theorem part (h : Takes p value?) (hw : kind.Writable)
    (hkind : ∀ t, t.kind = kind → (value? t).isSome = true) :
    Part f tight 0 false p (fun _ => True) true [kind] where
  twin {s} hs := by
    cases hv : value? s.current with
    | none =>
      have faults : ∀ {t : State}, t.current.kind = s.current.kind →
          ∃ code, p t = fail code t := by
        intro t ht
        have hnone := h.isSome_eq ht
        rw [hv, Option.isSome_none, Option.isSome_eq_false_iff, Option.isNone_iff_eq_none] at hnone
        exact h.fault hnone
      refine .fault ?_ fun t ht => ?_
      · obtain ⟨code, hfail⟩ := faults (t := s) rfl
        exact ⟨_, _, hfail, rfl⟩
      · obtain ⟨code, hfail⟩ := faults (kind_eq_of_move ht)
        exact ⟨_, _, hfail⟩
    | some a =>
      have hsome : (value? s.current).isSome = true := by rw [hv]; rfl
      have htaken : Twin f tight s (taking value?) (taking value?) (fun _ => True) true [kind] := by
        refine .take [] hs (h.ne_eof hv) fun s₁ => ?_
        simp only [h.move, hv, Option.map_some]
        exact Tail.pure fun _ => rfl
      exact htaken.of_eq (h.eq_taking hsome)
        (fun t ht => h.eq_taking ((h.isSome_eq (kind_eq_of_move ht)).trans hsome))
        (List.cons_ne_nil _ _)
  starts := by
    refine ⟨by simpa using hw, fun {t cs k rest} _ hcs ht _ => ?_⟩
    obtain ⟨x, rfl⟩ : ∃ x, cs = [x] :=
      List.length_eq_one_iff.1 (by simpa using congrArg List.length hcs)
    obtain ⟨t', hrun, -, ht'⟩ := advance_of_pending ht
    have hx : x.kind = kind := by simpa using hcs
    obtain ⟨a, ha⟩ := Option.isSome_iff_exists.1 (hkind x hx)
    rw [← current_of_pending ht] at ha
    exact ⟨a, t', by rw [h.take ha, bind_of_ok hrun]; rfl, ht'⟩
  blocked := nofun

end Takes

theorem takes_expect {kind : Kind} (hk : kind ≠ .eof) (code : Diagnostic.Code) :
    Takes (expect kind code) fun token => if token.kind = kind then some token else none where
  take {s a} hv := by
    obtain ⟨hkind, ha⟩ := Option.ite_none_right_eq_some.1 hv
    cases ha
    unfold expect
    rw [if_pos (by simpa [State.isAt] using hkind)]
    cases hrun : advance s with
    | ok token s₁ =>
      rw [bind_of_ok hrun, advance_fst hrun]
      rfl
    | error x s₁ => rw [bind_of_error hrun]
  fault {s} hv := by
    have hkind : s.current.kind ≠ kind := fun h => by simp [h] at hv
    exact ⟨code, if_neg (by simpa [State.isAt] using hkind)⟩
  move f t := by
    change (if t.kind = kind then _ else _) = _
    split <;> rfl
  eof t ht := if_neg (by rw [ht]; exact hk.symm)

/-- The name that a token stands for. -/
def name? (token : Token) : Option Name :=
  match token.kind with
  | .ident text => some ⟨token.loc, text⟩
  | _ => none

theorem name?_eq_none {token : Token} (h : ∀ text, token.kind ≠ .ident text) :
    name? token = none := by
  unfold name?
  split
  · exact absurd ‹_› (h _)
  · rfl

theorem kind_of_name? {token : Token} {name : Name} (h : name? token = some name) :
    token.kind = .ident name.text := by
  unfold name? at h
  split at h
  · rename_i hkind
    cases h
    exact hkind
  · cases h

theorem takes_identifier : Takes identifier name? where
  take {s a} hv := by
    unfold identifier
    split
    · rename_i text hkind
      simp only [name?, hkind, Option.some.injEq] at hv
      subst hv
      cases hrun : advance s with
      | ok token s₁ =>
        rw [bind_of_ok hrun, bind_of_ok hrun, advance_fst hrun]
      | error x s₁ => rw [bind_of_error hrun, bind_of_error hrun]
    · rename_i hother
      cases (name?_eq_none hother).symm.trans hv
  fault {s} hv := by
    refine ⟨.expectedIdentifier, ?_⟩
    unfold identifier
    split
    · rename_i text hkind
      simp [name?, hkind] at hv
    · rfl
  move f t := by
    obtain ⟨kind, loc⟩ := t
    cases kind <;> rfl
  eof t ht := by simp only [name?, ht]

theorem Part.expect {kind : Kind} (hk : kind ≠ .eof) (hw : kind.Writable)
    (code : Diagnostic.Code) :
    Part f tight 0 false (expect kind code) (fun _ => True) true [kind] :=
  (takes_expect hk code).part hw fun t ht => by simp [ht]

theorem Part.identifier :
    Part f tight 0 false identifier (fun _ => True) true [.ident "x"] :=
  takes_identifier.part (by decide) fun t ht => by simp [name?, ht]

/-- A single token, and then the rest of a production. -/
theorem Tail.step [Movable α] [Movable β] [Nonempty α] {p : Parser α} {g h : α → Parser β}
    (c : List Kind) (hp : Part f tight 0 false p (fun _ => True) true cp) (hsteady : Steady p)
    (hg : ∀ a b s₁, Tail f tight n room (P ∧ b = move f a) s₁ (g a) (h b) F e c) :
    Tail f tight n room P s (p >>= g) (p >>= h) F e (cp ++ c) :=
  hp.free.sequence (fun _ _ => trivial) (.inl rfl) hg fun hr => ⟨hr, hsteady, hsteady⟩

instance : Nonempty Token := ⟨⟨.eof, .start⟩⟩
instance : Nonempty Name := ⟨⟨.start, ""⟩⟩

theorem Tail.expect [Movable β] {g h : Token → Parser β} {kind : Kind} {code : Diagnostic.Code}
    (c : List Kind) (hk : kind ≠ .eof) (hw : kind.Writable)
    (hg : ∀ a b s₁, Tail f tight n room (P ∧ b = move f a) s₁ (g a) (h b) F e c) :
    Tail f tight n room P s (expect kind code >>= g) (expect kind code >>= h) F e (kind :: c) :=
  .step c (.expect hk hw code) (takes_expect hk code).steady hg

theorem Tail.identifier [Movable β] {g h : Name → Parser β} (c : List Kind)
    (hg : ∀ a b s₁, Tail f tight n room (P ∧ b = move f a) s₁ (g a) (h b) F e c) :
    Tail f tight n room P s (identifier >>= g) (identifier >>= h) F e (.ident "x" :: c) :=
  .step c .identifier takes_identifier.steady hg

end Parser

end LarkCheck
