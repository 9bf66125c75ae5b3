import LarkCheck.Proofs.Grammar.Success
import LarkCheck.Proofs.Token.Reports
import LarkCheck.Proofs.Tree.Canonical
import LarkCheck.Proofs.Tree.Move

/-!
# Runs on tokens that begin alike

What one run of a parser tells about a run on other tokens that begin as its own
do, perhaps moved to another place. Tokens that the first run took are taken again,
with the same result, if the token after them is the same or begins a new line and
lets the construct end. A token at which the first run stopped stops the other run
too, and before it the tokens can be completed so that the other run succeeds. There
is one exception: the head of a `foreach` can be read where there is no room left
for the collection, and then nothing completes it.
-/

namespace LarkCheck

open Token

namespace Parser

variable {α β : Type}

namespace State

/-- The tokens that are still to come, the current one first. A malformed lexeme gives none. -/
def pending (s : State) : List (Option Token) :=
  some s.current :: s.ahead.items.map (·.token)

/-- The readings ahead lead to the end of the file, and account for what they report. -/
structure Sound (s : State) : Prop where
  synced : s.Synced
  explains : ∀ r ∈ s.ahead.items, Explains r.token.isSome r.news

/-- The last report is of a token that cannot stand where it is. -/
def Objected (s : State) : Prop :=
  ∃ d, s.news.getLast? = some d ∧ d.code.isSyntax = true ∧ d.code ≠ .nestingTooDeep

/-- The last report is that of a guard. -/
def Overran (s : State) : Prop :=
  ∃ d, s.news.getLast? = some d ∧ d.code = .nestingTooDeep

end State

/-- From `s` to `s'` the tokens `xs` were taken. -/
def Passed (s : State) (xs : List Token) (s' : State) : Prop :=
  s.pending = xs.map some ++ s'.pending

/-- The guards let one more of `n` levels pass. -/
structure Room (n : Nat) (s : State) : Prop where
  levels : 0 < n
  depth_lt : s.depth < maxNesting
  level_lt : s.level < maxTreeDepth

/-- The counters agree. Outside of chains `peak` does not matter. -/
structure Abreast (tight : Bool) (s t : State) : Prop where
  depth_eq : t.depth = s.depth
  level_eq : t.level = s.level
  peak_eq : tight = true → t.peak = s.peak

section Runs

variable (f : Location → Location) (tight : Bool) (q : Parser α) (F : Kind → Prop)

/-- After the tokens `xs` the token `k` may come for `last`: it is the same, or it begins a new
line and its kind is admitted. -/
def Follows (xs : List Token) (last k : Token) : Prop :=
  k = move f last ∨ (∀ x ∈ xs, (move f x).loc.line < k.loc.line) ∧ F k.kind

/-- Where a run has taken the tokens `xs` and given `a`, the other run takes them and gives the
same; if `exact` does not hold, then only in front of the same token. -/
structure Reached (exact : Bool) (s : State) (a : α) (s' : State) (xs : List Token)
    [Movable α] : Prop where
  passed : Passed s xs s'
  sound : s'.Sound
  again : ∀ {t : State} {k : Token} {rest : List (Option Token)}, Abreast tight s t →
    t.pending = (move f xs).map some ++ some k :: rest → Follows f F xs s'.current k →
    ∃ b t', q t = .ok b t' ∧ Abreast tight s' t' ∧ t'.pending = some k :: rest ∧
      (k = move f s'.current ∨ exact = true → b = move f a)

/-- The tokens end within the head of a `foreach`; `c` is what is left of it. -/
inductive OpenHeader : List Token → List Kind → Prop
  | word {front : List Token} {word : Token} (h : word.kind = .keyword .foreachKw) :
    OpenHeader (front ++ [word]) [.ident "x", .keyword .inKw]
  | item {front : List Token} {word name : Token} (h : word.kind = .keyword .foreachKw) :
    OpenHeader (front ++ [word, name]) [.keyword .inKw]

/-- Nothing completes the tokens: they end in an open header, and after it a guard stops. -/
structure Barred (s : State) (xs : List Token) (c : List Kind) : Prop where
  header : OpenHeader xs c
  rejects : ∀ {t : State} {rest : List (Option Token)}, Abreast tight s t → rest ≠ [] →
    t.pending = (move f xs).map some ++ rest → ∃ x t', q t = .error x t'
  overruns : ∀ {t : State} {cs : List Token} {k : Token} {rest : List (Option Token)},
    Abreast tight s t → cs.map (·.kind) = c →
    t.pending = (move f xs).map some ++ (cs.map some ++ some k :: rest) →
    ∃ x t', q t = .error x t' ∧ t'.Overran

/-- Tokens of the kinds `c` on new lines complete the tokens. -/
structure Completes (s : State) (xs : List Token) (c : List Kind) : Prop where
  writable : ∀ kind ∈ c, kind.Writable
  accepts : ∀ {t : State} {cs : List Token} {k : Token} {rest : List (Option Token)},
    Abreast tight s t → cs.map (·.kind) = c →
    t.pending = (move f xs).map some ++ (cs.map some ++ some k :: rest) →
    (∀ x ∈ xs, ∀ y ∈ cs ++ [k], (move f x).loc.line < y.loc.line) → F k.kind →
    ∃ b t', q t = .ok b t' ∧ t'.pending = some k :: rest

/-- Where a run has taken the tokens `xs` and objected to the next one, the other run stops there
as well, and other tokens after `xs` would have been right unless there was no room for them. -/
structure Stuck (s s' : State) (xs : List Token) : Prop where
  passed : Passed s xs s'
  refuses : ∀ {t : State} {rest : List (Option Token)}, Abreast tight s t →
    t.pending = (move f xs).map some ++ some (move f s'.current) :: rest →
    ∃ x t', q t = .error x t'
  mends : xs ≠ [] → (∃ c, Completes f tight q F s xs c) ∨ ∃ c, Barred f tight q s xs c

/-- What the run of `p` from `s` tells about runs of `q`. If `c` is not empty then `p` takes at
least one token. -/
structure Twin [Movable α] (s : State) (p q : Parser α) (F : Kind → Prop) (exact : Bool)
    (c : List Kind) : Prop where
  ok : ∀ {a s'}, p s = .ok a s' →
    ∃ xs, (c ≠ [] → xs ≠ []) ∧ Reached f tight q F exact s a s' xs
  error : ∀ {x s'}, p s = .error x s' → s'.Objected → ∃ xs, Stuck f tight q F s s' xs

end Runs

/-- In front of tokens of the kinds `c` the parser succeeds. -/
structure Starts (n : Nat) (room : Bool) (q : Parser α) (F : Kind → Prop) (c : List Kind) :
    Prop where
  writable : ∀ kind ∈ c, kind.Writable
  accepts : ∀ {t : State} {cs : List Token} {k : Token} {rest : List (Option Token)},
    (room = true → Room n t) → cs.map (·.kind) = c →
    t.pending = cs.map some ++ some k :: rest → F k.kind →
    ∃ b t', q t = .ok b t' ∧ t'.pending = some k :: rest

/-- The run gives nothing, and reports no token that cannot stand where it is. -/
def Blocked (s : State) (p : Parser α) : Prop :=
  ∃ x s', p s = .error x s' ∧ ¬s'.Objected

/-- A success leaves the depth and the level as they were. -/
def Steady (p : Parser α) : Prop :=
  ∀ {s a s'}, p s = .ok a s' → s'.depth = s.depth ∧ s'.level = s.level

/-- The rest of a production, which goes on with a value of the other run in `q`. Under `P` this
value is that of the first run, moved. -/
structure Tail (f : Location → Location) (tight : Bool) (n : Nat) (room : Bool) [Movable α]
    (P : Prop) (s : State) (p q : Parser α) (F : Kind → Prop) (exact : Bool) (c : List Kind) :
    Prop where
  twin : P → s.Sound → (room = true → Room n s) → Twin f tight s p q F exact c
  starts : Starts n room q F c

/-- A parser on tokens that begin alike. Where it needs room and there is none, it stops. -/
structure Part (f : Location → Location) (tight : Bool) (n : Nat) (room : Bool) [Movable α]
    (p : Parser α) (F : Kind → Prop) (exact : Bool) (c : List Kind) : Prop where
  twin : ∀ {s : State}, s.Sound → Twin f tight s p p F exact c
  starts : Starts n room p F c
  blocked : ∀ {s : State}, room = true → ¬Room n s → Blocked s p

/-- In front of an admitted token the parser does the same with any value to go on with. -/
def Blind (F : Kind → Prop) (h : α → Parser β) : Prop :=
  ∀ a b t y t', F t.current.kind → h a t = .ok y t' → ∃ z, h b t = .ok z t'

section Rules

variable {f : Location → Location} {tight : Bool} {n : Nat} {room : Bool} {P : Prop}
  {F Fp : Kind → Prop} {e ep : Bool} {c cp : List Kind} {s s₁ s' : State} {xs ys : List Token}
  {x : Token}

theorem Passed.refl (s : State) : Passed s [] s := rfl

theorem Passed.trans (h : Passed s xs s₁) (h' : Passed s₁ ys s') : Passed s (xs ++ ys) s' := by
  rw [Passed, h, h', List.map_append, List.append_assoc]

theorem Passed.current_eq (h : Passed s [] s') : s'.current = s.current := by
  simp only [Passed, State.pending, List.map_nil, List.nil_append, List.cons.injEq] at h
  exact (Option.some.inj h.1).symm

theorem Passed.head_eq (h : Passed s (x :: xs) s') : s.current = x := by
  simp only [Passed, State.pending, List.map_cons, List.cons_append, List.cons.injEq] at h
  exact Option.some.inj h.1

theorem State.Overran.not_objected (h : s.Overran) : ¬s.Objected := by
  obtain ⟨d, hlast, hcode⟩ := h
  rintro ⟨d', hlast', -, hne⟩
  cases hlast.symm.trans hlast'
  exact hne hcode

theorem current_of_pending {t : State} {k : Token} {rest : List (Option Token)}
    (h : t.pending = some k :: rest) : t.current = k :=
  Option.some.inj (List.cons.inj h).1

theorem move_append (f : Location → Location) (xs ys : List Token) :
    move f (xs ++ ys) = move f xs ++ move f ys :=
  List.map_append

theorem Follows.tail {k last : Token} (h : Follows f F (xs ++ ys) last k) :
    Follows f F ys last k :=
  h.imp_right fun h => ⟨fun x hx => h.1 x (List.mem_append_right _ hx), h.2⟩

theorem Follows.nil {k last : Token} (h : Follows f F xs last k) : Follows f F [] last k :=
  h.imp_right fun h => ⟨fun _ hx => absurd hx List.not_mem_nil, h.2⟩

theorem OpenHeader.append {c : List Kind} (h : OpenHeader xs c) (ys : List Token) :
    OpenHeader (ys ++ xs) c := by
  cases h with
  | word h =>
    rw [← List.append_assoc]
    exact .word h
  | item h =>
    rw [← List.append_assoc]
    exact .item h

theorem OpenHeader.ne_nil {c : List Kind} (h : OpenHeader xs c) : xs ≠ [] := by
  cases h <;> exact List.append_ne_nil_of_right_ne_nil _ (List.cons_ne_nil _ _)

theorem blind_of_starts {h : α → Parser β}
    (hstarts : ∀ b t, F t.current.kind → ∃ y, h b t = .ok y t) : Blind F h := by
  intro a b t y t' hkind hrun
  obtain ⟨_, ha⟩ := hstarts a t hkind
  obtain ⟨z, hb⟩ := hstarts b t hkind
  cases ha.symm.trans hrun
  exact ⟨z, hb⟩

theorem current_bind {g : Token → Parser β} : (current >>= g) s = g s.current s := rfl

theorem bind_of_ok {p : Parser α} {g : α → Parser β} {a : α} (h : p s = .ok a s₁) :
    (p >>= g) s = g a s₁ := by
  change EStateM.bind p g s = _
  rw [EStateM.bind, h]

theorem bind_of_error {p : Parser α} {g : α → Parser β} {x : Stopped} (h : p s = .error x s') :
    (p >>= g) s = .error x s' := by
  change EStateM.bind p g s = _
  rw [EStateM.bind, h]

theorem bind_eq_error {p : Parser α} {g : α → Parser β} {x : Stopped}
    (h : (p >>= g) s = .error x s') :
    p s = .error x s' ∨ ∃ a s₁, p s = .ok a s₁ ∧ g a s₁ = .error x s' := by
  cases hp : p s with
  | ok a s₁ =>
    rw [bind_of_ok hp] at h
    exact .inr ⟨a, s₁, rfl, h⟩
  | error x s₁ =>
    rw [bind_of_error hp] at h
    cases h
    exact .inl rfl

/-- After the tokens up to `s'` the next one is still to come. -/
theorem Passed.begins (h : Passed s xs s') (f : Location → Location)
    (rest : List (Option Token)) : ∃ rest',
      (move f xs).map some ++ some (move f s'.current) :: rest =
        some (move f s.current) :: rest' := by
  cases xs with
  | nil => exact ⟨rest, by rw [h.current_eq]; rfl⟩
  | cons x xs => exact ⟨_, by rw [h.head_eq]; rfl⟩

/-- The next of some tokens before `k` is of the next of their kinds. -/
theorem next_of_kinds {cs : List Token} (hcs : cs.map (·.kind) = c) (k : Token)
    (rest : List (Option Token)) : ∃ z rest',
      cs.map some ++ some k :: rest = some z :: rest' ∧ z ∈ cs ++ [k] ∧
        z.kind = c.headD k.kind := by
  cases cs with
  | nil => exact ⟨k, rest, rfl, by simp, by simp [← hcs]⟩
  | cons z cs => exact ⟨z, _, rfl, by simp, by simp [← hcs]⟩

theorem Room.after {p : Parser α} {a : α} (h : Room n s) (hp : Steady p) (hrun : p s = .ok a s') :
    Room n s' := by
  obtain ⟨hdepth, hlevel⟩ := hp hrun
  exact ⟨h.levels, by rw [hdepth]; exact h.depth_lt, by rw [hlevel]; exact h.level_lt⟩

theorem Room.of_abreast {t : State} (h : Room n s) (hab : Abreast tight s t) : Room n t :=
  ⟨h.levels, by rw [hab.depth_eq]; exact h.depth_lt, by rw [hab.level_eq]; exact h.level_lt⟩

/-- The first part is completed and then the rest. -/
theorem Completes.bind {q : Parser α} {h : α → Parser β}
    (hp : Completes f tight q Fp s xs cp)
    (hw : ∀ kind ∈ c, kind.Writable) (hstarts : ∀ b, Starts n room (h b) F c)
    (hroom : room = true → Room n s) (hsteady : room = true → Steady q)
    (hc : ∀ kind, F kind → Fp (c.headD kind)) :
    Completes f tight (q >>= h) F s xs (cp ++ c) where
  writable kind hkind := (List.mem_append.1 hkind).elim (hp.writable kind) (hw kind)
  accepts {t cs k rest} hab hcs ht hlater hk := by
    obtain ⟨cs₁, cs₂, rfl, hcs₁, hcs₂⟩ := List.map_eq_append_iff.1 hcs
    obtain ⟨z, rest', heq, hz, hkind⟩ := next_of_kinds hcs₂ k rest
    rw [List.map_append, List.append_assoc, heq] at ht
    have hlater' : ∀ x ∈ xs, ∀ y ∈ cs₁ ++ [z], (move f x).loc.line < y.loc.line := by
      intro x hx y hy
      refine hlater x hx y ?_
      simp only [List.mem_append, List.mem_singleton] at hy hz ⊢
      rcases hy with hy | rfl
      · exact .inl (.inl hy)
      · exact hz.imp_left .inr
    obtain ⟨b, t₁, hq, ht₁⟩ := hp.accepts hab hcs₁ ht hlater' (hkind ▸ hc _ hk)
    rw [bind_of_ok hq]
    rw [← heq] at ht₁
    exact (hstarts b).accepts (fun hr => ((hroom hr).of_abreast hab).after (hsteady hr) hq)
      hcs₂ ht₁ hk

theorem Barred.bind {q : Parser α} {h : α → Parser β} (hp : Barred f tight q s xs c) :
    Barred f tight (q >>= h) s xs c where
  header := hp.header
  rejects hab hrest ht := by
    obtain ⟨x, t', hq⟩ := hp.rejects hab hrest ht
    exact ⟨x, t', bind_of_error hq⟩
  overruns hab hcs ht := by
    obtain ⟨x, t', hq, hover⟩ := hp.overruns hab hcs ht
    exact ⟨x, t', bind_of_error hq, hover⟩

theorem Stuck.bind {q : Parser α} {h : α → Parser β} (hp : Stuck f tight q Fp s s' xs)
    (hw : ∀ kind ∈ c, kind.Writable) (hstarts : ∀ b, Starts n room (h b) F c)
    (hroom : room = true → Room n s) (hsteady : room = true → Steady q)
    (hc : ∀ kind, F kind → Fp (c.headD kind)) :
    Stuck f tight (q >>= h) F s s' xs where
  passed := hp.passed
  refuses hab ht := by
    obtain ⟨x, t', hq⟩ := hp.refuses hab ht
    exact ⟨x, t', bind_of_error hq⟩
  mends hne := by
    obtain ⟨c', hmends⟩ | ⟨c', hbarred⟩ := hp.mends hne
    · exact .inl ⟨_, hmends.bind hw hstarts hroom hsteady hc⟩
    · exact .inr ⟨_, hbarred.bind⟩

variable [Movable α]

/-- In front of the same token the other run gives the same. -/
theorem Reached.same {q : Parser α} {a : α} (h : Reached f tight q F e s a s' xs) {t : State}
    {rest : List (Option Token)} (hab : Abreast tight s t)
    (ht : t.pending = (move f xs).map some ++ some (move f s'.current) :: rest) :
    ∃ t', q t = .ok (move f a) t' ∧ Abreast tight s' t' ∧
      t'.pending = some (move f s'.current) :: rest := by
  obtain ⟨b, t', hq, hab', ht', hb⟩ := h.again hab ht (.inl rfl)
  rw [hb (.inl rfl)] at hq
  exact ⟨t', hq, hab', ht'⟩

section Bind

variable {p q : Parser α} {g h : α → Parser β} {a : α}

theorem Reached.bind [Movable β] {b : β} (hp : Reached f tight q Fp ep s a s₁ xs)
    (hg : Reached f tight (h (move f a)) F e s₁ b s' ys) (hc : ∀ kind, F kind → Fp (c.headD kind))
    (hne : c ≠ [] → ys ≠ []) (hx : ep = true ∨ c ≠ [] ∨ e = false ∧ Blind F h) :
    Reached f tight (q >>= h) F e s b s' (xs ++ ys) where
  passed := hp.passed.trans hg.passed
  sound := hg.sound
  again {t k rest} hab ht hk := by
    rw [move_append, List.map_append, List.append_assoc] at ht
    cases ys with
    | cons y ys =>
      rw [← hg.passed.head_eq] at ht
      obtain ⟨t₁, hq, hab₁, ht₁⟩ := hp.same hab ht
      rw [bind_of_ok hq]
      rw [hg.passed.head_eq] at ht₁
      exact hg.again hab₁ ht₁ hk.tail
    | nil =>
      have hempty : c = [] := Decidable.not_not.1 fun hne' => hne hne' rfl
      rw [List.append_nil] at hk
      have hk' : Follows f Fp xs s₁.current k := by
        rw [← hg.passed.current_eq]
        refine hk.imp_right fun hk => ⟨hk.1, ?_⟩
        simpa [hempty] using hc k.kind hk.2
      obtain ⟨b₁, t₁, hq, hab₁, ht₁, hb₁⟩ := hp.again hab ht hk'
      obtain ⟨b₂, t₂, hh, hab₂, ht₂, hb₂⟩ := hg.again hab₁ ht₁ hk.nil
      rw [bind_of_ok hq]
      by_cases hsame : b₁ = move f a
      · rw [hsame]
        exact ⟨b₂, t₂, hh, hab₂, ht₂, hb₂⟩
      · rcases hx with hexact | hne' | ⟨hloose, hblind⟩
        · exact absurd (hb₁ (.inr hexact)) hsame
        · exact absurd hempty hne'
        · have hother : k ≠ move f s'.current := by
            rw [hg.passed.current_eq]
            exact fun hk => hsame (hb₁ (.inl hk))
          have hadmits : F t₁.current.kind := by
            rw [current_of_pending ht₁]
            exact (hk.resolve_left hother).2
          obtain ⟨z, hz⟩ := hblind _ b₁ _ _ _ hadmits hh
          refine ⟨z, t₂, hz, hab₂, ht₂, ?_⟩
          rintro (hk | hexact)
          · exact absurd hk hother
          · exact nomatch hloose.symm.trans hexact

/-- Tokens of the first part, and then tokens that can be completed. -/
theorem Completes.after (hp : Reached f tight q Fp ep s a s₁ xs)
    (hg : Completes f tight (h (move f a)) F s₁ (x :: ys) c) (hx : s₁.current = x) :
    Completes f tight (q >>= h) F s (xs ++ x :: ys) c where
  writable := hg.writable
  accepts {t cs k rest} hab hcs ht hlater hk := by
    rw [move_append, List.map_append, List.append_assoc, ← hx] at ht
    obtain ⟨t₁, hq, hab₁, ht₁⟩ := hp.same hab ht
    rw [bind_of_ok hq]
    rw [hx] at ht₁
    exact hg.accepts hab₁ hcs ht₁
      (fun x hx => hlater x (List.mem_append_right _ hx)) hk

theorem Barred.after (hp : Reached f tight q Fp ep s a s₁ xs)
    (hg : Barred f tight (h (move f a)) s₁ (x :: ys) c) (hx : s₁.current = x) :
    Barred f tight (q >>= h) s (xs ++ x :: ys) c where
  header := hg.header.append xs
  rejects hab hrest ht := by
    rw [move_append, List.map_append, List.append_assoc, ← hx] at ht
    obtain ⟨t₁, hq, hab₁, ht₁⟩ := hp.same hab ht
    rw [bind_of_ok hq]
    rw [hx] at ht₁
    exact hg.rejects hab₁ hrest ht₁
  overruns hab hcs ht := by
    rw [move_append, List.map_append, List.append_assoc, ← hx] at ht
    obtain ⟨t₁, hq, hab₁, ht₁⟩ := hp.same hab ht
    rw [bind_of_ok hq]
    rw [hx] at ht₁
    exact hg.overruns hab₁ hcs ht₁

/-- The rest has taken nothing, and is written anew. -/
theorem Completes.again (hp : Reached f tight q Fp ep s a s₁ xs)
    (hstarts : ∀ b, (ep = true → b = move f a) → Starts n room (h b) F c)
    (hroom : room = true → Room n s) (hsteady : room = true → Steady q)
    (hc : ∀ kind, F kind → Fp (c.headD kind)) :
    Completes f tight (q >>= h) F s xs c where
  writable := (hstarts (move f a) fun _ => rfl).writable
  accepts {t cs k rest} hab hcs ht hlater hk := by
    obtain ⟨z, rest', heq, hz, hkind⟩ := next_of_kinds hcs k rest
    rw [heq] at ht
    have hfollows : Follows f Fp xs s₁.current z :=
      .inr ⟨fun x hx => hlater x hx z hz, hkind ▸ hc _ hk⟩
    obtain ⟨b, t₁, hq, -, ht₁, hb⟩ := hp.again hab ht hfollows
    rw [bind_of_ok hq]
    rw [← heq] at ht₁
    exact (hstarts b fun hexact => hb (.inr hexact)).accepts
      (fun hr => ((hroom hr).of_abreast hab).after (hsteady hr) hq) hcs ht₁ hk

/-- Where the rest took nothing, the first part alone must have a completion. -/
theorem Stuck.after (hp : Reached f tight q Fp ep s a s₁ xs)
    (hg : Stuck f tight (h (move f a)) F s₁ s' ys) (hend : Completes f tight (q >>= h) F s xs c) :
    Stuck f tight (q >>= h) F s s' (xs ++ ys) where
  passed := hp.passed.trans hg.passed
  refuses {t rest} hab ht := by
    rw [move_append, List.map_append, List.append_assoc] at ht
    obtain ⟨rest', heq⟩ := hg.passed.begins f rest
    rw [heq] at ht
    obtain ⟨t₁, hq, hab₁, ht₁⟩ := hp.same hab ht
    rw [bind_of_ok hq]
    rw [← heq] at ht₁
    exact hg.refuses hab₁ ht₁
  mends _ := by
    cases ys with
    | nil =>
      rw [List.append_nil]
      exact .inl ⟨c, hend⟩
    | cons y ys =>
      obtain ⟨c', hmends⟩ | ⟨c', hbarred⟩ := hg.mends (List.cons_ne_nil _ _)
      · exact .inl ⟨c', hmends.after hp hg.passed.head_eq⟩
      · exact .inr ⟨c', hbarred.after hp hg.passed.head_eq⟩

theorem Twin.bind [Movable β] (hp : Twin f tight s p q Fp ep cp)
    (hg : ∀ {a s₁}, p s = .ok a s₁ → s₁.Sound → Twin f tight s₁ (g a) (h (move f a)) F e c)
    (hw : ∀ kind ∈ c, kind.Writable) (hstarts : ∀ b, Starts n room (h b) F c)
    (hroom : room = true → Room n s) (hsteady : room = true → Steady q)
    (hc : ∀ kind, F kind → Fp (c.headD kind)) (hx : ep = true ∨ c ≠ [] ∨ e = false ∧ Blind F h) :
    Twin f tight s (p >>= g) (q >>= h) F e (cp ++ c) where
  ok hrun := by
    obtain ⟨a, s₁, h₁, h₂⟩ := bind_eq_ok.1 hrun
    obtain ⟨xs, hne, hxs⟩ := hp.ok h₁
    obtain ⟨ys, hne', hys⟩ := (hg h₁ hxs.sound).ok h₂
    refine ⟨xs ++ ys, fun hne'' => ?_, hxs.bind hys hc hne' hx⟩
    by_cases h : c = []
    · rw [h, List.append_nil] at hne''
      exact List.append_ne_nil_of_left_ne_nil (hne hne'') _
    · exact List.append_ne_nil_of_right_ne_nil _ (hne' h)
  error hrun hobj := by
    rcases bind_eq_error hrun with h₁ | ⟨a, s₁, h₁, h₂⟩
    · obtain ⟨xs, hxs⟩ := hp.error h₁ hobj
      exact ⟨xs, hxs.bind hw hstarts hroom hsteady hc⟩
    · obtain ⟨xs, -, hxs⟩ := hp.ok h₁
      obtain ⟨ys, hys⟩ := (hg h₁ hxs.sound).error h₂ hobj
      exact ⟨xs ++ ys, .after hxs hys (.again hxs (fun b _ => hstarts b) hroom hsteady hc)⟩

end Bind

section Tails

variable {p q : Parser α} {g h : α → Parser β} {r : Bool}

omit [Movable α] in
theorem Starts.bind [Nonempty α] (hq : Starts n room q Fp cp)
    (hh : ∀ b, Starts n r (h b) F c) (hsteady : r = true → room = true ∧ Steady q)
    (hc : ∀ kind, F kind → Fp (c.headD kind)) : Starts n room (q >>= h) F (cp ++ c) where
  writable kind hkind := by
    obtain ⟨b⟩ := ‹Nonempty α›
    exact (List.mem_append.1 hkind).elim (hq.writable kind) ((hh b).writable kind)
  accepts {t cs k rest} hroom hcs ht hk := by
    obtain ⟨cs₁, cs₂, rfl, hcs₁, hcs₂⟩ := List.map_eq_append_iff.1 hcs
    obtain ⟨z, rest', heq, -, hkind⟩ := next_of_kinds hcs₂ k rest
    rw [List.map_append, List.append_assoc, heq] at ht
    obtain ⟨b, t₁, hrun, ht₁⟩ := hq.accepts hroom hcs₁ ht (hkind ▸ hc _ hk)
    rw [bind_of_ok hrun]
    rw [← heq] at ht₁
    refine (hh b).accepts (fun hr => ?_) hcs₂ ht₁ hk
    obtain ⟨hr, hsteady⟩ := hsteady hr
    exact (hroom hr).after hsteady hrun

/-- A part of a production and the rest of it, which can be written as `c`. -/
theorem Tail.sequence [Nonempty α] [Movable β] (hp : Tail f tight n room P s p q Fp ep cp)
    (hc : ∀ kind, F kind → Fp (c.headD kind)) (hx : ep = true ∨ c ≠ [] ∨ e = false ∧ Blind F h)
    (hg : ∀ a b s₁, Tail f tight n r (P ∧ b = move f a) s₁ (g a) (h b) F e c)
    (hsteady : r = true → room = true ∧ Steady p ∧ Steady q) :
    Tail f tight n room P s (p >>= g) (q >>= h) F e (cp ++ c) where
  twin hP hs hroom := by
    obtain ⟨b⟩ := ‹Nonempty α›
    refine (hp.twin hP hs hroom).bind (fun {a s₁} hrun hs₁ => ?_) (hg b b s).starts.writable
      (fun b => (hg b b s).starts) (fun hr => hroom (hsteady hr).1) (fun hr => (hsteady hr).2.2)
      hc hx
    refine (hg a (move f a) s₁).twin ⟨hP, rfl⟩ hs₁ fun hr => ?_
    obtain ⟨hr, hsteady, -⟩ := hsteady hr
    exact (hroom hr).after hsteady hrun
  starts := hp.starts.bind (fun b => (hg b b s).starts)
    (fun hr => (hsteady hr).imp_right (·.2)) hc

/-- The rest needs no room. -/
theorem Tail.bind [Nonempty α] [Movable β] (c : List Kind)
    (hp : Tail f tight n room P s p q Fp ep cp) (hc : ∀ kind, F kind → Fp (c.headD kind))
    (hx : ep = true ∨ c ≠ [] ∨ e = false ∧ Blind F h)
    (hg : ∀ a b s₁, Tail f tight n false (P ∧ b = move f a) s₁ (g a) (h b) F e c) :
    Tail f tight n room P s (p >>= g) (q >>= h) F e (cp ++ c) :=
  hp.sequence hc hx hg nofun

/-- The rest needs room as well. -/
theorem Tail.keep [Nonempty α] [Movable β] (c : List Kind)
    (hp : Tail f tight n true P s p q Fp ep cp) (hsteady : Steady p ∧ Steady q)
    (hc : ∀ kind, F kind → Fp (c.headD kind)) (hx : ep = true ∨ c ≠ [] ∨ e = false ∧ Blind F h)
    (hg : ∀ a b s₁, Tail f tight n true (P ∧ b = move f a) s₁ (g a) (h b) F e c) :
    Tail f tight n true P s (p >>= g) (q >>= h) F e (cp ++ c) :=
  hp.sequence hc hx hg fun _ => ⟨rfl, hsteady⟩

omit [Movable α] in
theorem Starts.relax {n' : Nat} {room' : Bool} (h : Starts n' room' q F c)
    (hr : room' = true → n' = n ∧ room = true) : Starts n room q F c where
  writable := h.writable
  accepts hroom := h.accepts fun hr' => by
    obtain ⟨rfl, hr'⟩ := hr hr'
    exact hroom hr'

/-- A part that needs no room. -/
theorem Part.free {n' : Nat} (h : Part f tight n' false p F e c) :
    Tail f tight n room P s p p F e c :=
  ⟨fun _ hs _ => h.twin hs, h.starts.relax nofun⟩

theorem Part.tail (h : Part f tight n room p F e c) : Tail f tight n room P s p p F e c :=
  ⟨fun _ hs _ => h.twin hs, h.starts⟩

omit [Movable α] in
theorem Blocked.bind (h : Blocked s p) : Blocked s (p >>= g) := by
  obtain ⟨x, s', hrun, hno⟩ := h
  exact ⟨x, s', bind_of_error hrun, hno⟩

theorem Blocked.twin (h : Blocked s p) : Twin f tight s p q F e c := by
  obtain ⟨x, s', hrun, hno⟩ := h
  constructor
  · intro a s₁ hok
    cases hrun.symm.trans hok
  · intro y s₁ herr hobj
    cases hrun.symm.trans herr
    exact absurd hobj hno

/-- With room the parser is a production, and without it is blocked. -/
theorem Part.of_tail (h : ∀ s, Tail f tight n room True s p p F e c)
    (hblocked : ∀ {s : State}, room = true → ¬Room n s → Blocked s p) :
    Part f tight n room p F e c where
  twin {s} hs := by
    by_cases hroom : room = true → Room n s
    · exact (h s).twin trivial hs hroom
    · obtain ⟨hr, hno⟩ := Classical.not_imp.1 hroom
      exact (hblocked hr hno).twin
  starts := (h (.start [])).starts
  blocked := hblocked

theorem Tail.pure {a b : α} (hP : P → b = move f a) :
    Tail f tight n room P s (pure a) (pure b) F e [] where
  twin h hs _ := {
    ok := by
      intro a' s' hrun
      obtain ⟨rfl, rfl⟩ := pure_eq_ok.1 hrun
      exact ⟨[], nofun, .refl s, hs, fun {t k rest} hab ht _ =>
        ⟨b, t, rfl, hab, ht, fun _ => hP h⟩⟩
    error := nofun }
  starts := ⟨nofun, fun {t cs k rest} _ hcs ht _ => by
    rw [List.map_eq_nil_iff.1 hcs] at ht
    exact ⟨b, t, rfl, ht⟩⟩

end Tails

end Rules

end Parser

end LarkCheck
