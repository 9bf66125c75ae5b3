import LarkCheck.Proofs.Grammar.Steps
import LarkCheck.Proofs.Grammar.Twin.Repeat

/-!
# Guards on tokens that begin alike

The guards look at counters only. Two runs whose counters agree pass the same guards
as long as they take the same tokens. Within a chain this takes the peaks as well,
since they tell at which level the next link stands.
-/

namespace LarkCheck

open Token

namespace Parser

variable {α β : Type}

variable {f : Location → Location} {tight : Bool} {n : Nat} {room : Bool}
  {F : Kind → Prop} {e : Bool} {c : List Kind} {s s' t : State} {xs : List Token}

/-- What is done to the counters before a parser runs, and after it succeeded or stopped. -/
structure Frame where
  enter : State → State
  leave : State → State → State
  stop : State → State

namespace Frame

def run (w : Frame) (p : Parser α) : Parser α := fun s =>
  match p (w.enter s) with
  | .ok a s' => .ok a (w.leave s s')
  | .error x s' => .error x (w.stop s')

/-- Nothing but the counters differs. -/
structure Level (s s' : State) : Prop where
  current_eq : s'.current = s.current
  ahead_eq : s'.ahead = s.ahead
  news_eq : s'.news = s.news

/-- Counters that agree outside of the frame agree inside, and those that agree inside agree
outside. -/
structure Lawful (w : Frame) (outer inner : Bool) : Prop where
  enter : ∀ s, Level s (w.enter s)
  leave : ∀ s s', Level s' (w.leave s s')
  stop : ∀ s, Level s (w.stop s)
  abreast_enter : ∀ {s t}, Abreast outer s t → Abreast inner (w.enter s) (w.enter t)
  abreast_leave : ∀ {s t s' t'}, Abreast outer s t → Abreast inner s' t' →
    Abreast outer (w.leave s s') (w.leave t t')

theorem Level.pending_eq (h : Level s s') : s'.pending = s.pending := by
  rw [State.pending, State.pending, h.current_eq, h.ahead_eq]

theorem Level.sound (h : Level s s') (hs : s.Sound) : s'.Sound := by
  obtain ⟨hsync, hexplains⟩ := hs
  constructor
  · rwa [State.Synced, h.current_eq, h.ahead_eq]
  · rwa [h.ahead_eq]

variable {w : Frame}

theorem run_of_ok {p : Parser α} {a : α} (h : p (w.enter s) = .ok a s') :
    w.run p s = .ok a (w.leave s s') := by
  rw [run, h]

theorem run_of_error {p : Parser α} {x : Stopped} (h : p (w.enter s) = .error x s') :
    w.run p s = .error x (w.stop s') := by
  rw [run, h]

/-- A run inside of the frame tells of the same tokens as one outside. -/
theorem Lawful.twin [Movable α] {inner : Bool} (law : w.Lawful tight inner) {p q p' q' : Parser α}
    (hp : p' s = w.run p s) (hq : ∀ t, Abreast tight s t → q' t = w.run q t)
    (h : Twin f inner (w.enter s) p q F e c) : Twin f tight s p' q' F e c := by
  have passed : ∀ {s₁ s' xs}, Passed (w.enter s) xs s₁ → Level s₁ s' → Passed s xs s' := by
    intro s₁ s' xs h hs'
    rw [Passed, ← (law.enter s).pending_eq, h, hs'.pending_eq]
  constructor
  · intro a s' hrun
    rw [hp] at hrun
    cases hin : p (w.enter s) with
    | error x s₁ => cases (run_of_error hin).symm.trans hrun
    | ok b s₁ =>
      cases (run_of_ok hin).symm.trans hrun
      obtain ⟨xs, hne, hpassed, hsound, hagain⟩ := h.ok hin
      have hleave := law.leave s s₁
      refine ⟨xs, hne, passed hpassed hleave, hleave.sound hsound, fun {t k rest} hab ht hk => ?_⟩
      rw [hleave.current_eq] at hk ⊢
      rw [← (law.enter t).pending_eq] at ht
      obtain ⟨b, t', hrun', hab', ht', hb⟩ := hagain (law.abreast_enter hab) ht hk
      refine ⟨b, _, by rw [hq t hab, run_of_ok hrun'], law.abreast_leave hab hab', ?_, hb⟩
      rw [(law.leave t t').pending_eq, ht']
  · intro x s' hrun hobj
    rw [hp] at hrun
    cases hin : p (w.enter s) with
    | ok b s₁ => cases (run_of_ok hin).symm.trans hrun
    | error x s₁ =>
      cases (run_of_error hin).symm.trans hrun
      have hstop := law.stop s₁
      rw [State.Objected, hstop.news_eq] at hobj
      obtain ⟨xs, hpassed, hrefuses, hmends⟩ := h.error hin hobj
      refine ⟨xs, passed hpassed hstop, fun {t rest} hab ht => ?_,
        fun hne => (hmends hne).imp ?_ ?_⟩
      · rw [hstop.current_eq, ← (law.enter t).pending_eq] at ht
        obtain ⟨x, t', hrun'⟩ := hrefuses (law.abreast_enter hab) ht
        exact ⟨x, _, by rw [hq t hab, run_of_error hrun']⟩
      · rintro ⟨c, hw, haccepts⟩
        refine ⟨c, hw, fun {t cs k rest} hab hcs ht hlater hk => ?_⟩
        rw [← (law.enter t).pending_eq] at ht
        obtain ⟨b, t', hrun', ht'⟩ := haccepts (law.abreast_enter hab) hcs ht hlater hk
        exact ⟨b, _, by rw [hq t hab, run_of_ok hrun'], by rw [(law.leave t t').pending_eq, ht']⟩
      · rintro ⟨c, hheader, hrejects, hoverruns⟩
        refine ⟨c, hheader, fun {t rest} hab hrest ht => ?_, fun {t cs k rest} hab hcs ht => ?_⟩
        · rw [← (law.enter t).pending_eq] at ht
          obtain ⟨x, t', hrun'⟩ := hrejects (law.abreast_enter hab) hrest ht
          exact ⟨x, _, by rw [hq t hab, run_of_error hrun']⟩
        · rw [← (law.enter t).pending_eq] at ht
          obtain ⟨x, t', hrun', hover⟩ := hoverruns (law.abreast_enter hab) hcs ht
          refine ⟨x, _, by rw [hq t hab, run_of_error hrun'], ?_⟩
          rwa [State.Overran, (law.stop t').news_eq]

theorem Lawful.starts {inner : Bool} (law : w.Lawful tight inner) {q q' : Parser α}
    (hq : ∀ t, (room = true → Room n t) → q' t = w.run q t) (h : Starts 0 false q F c) :
    Starts n room q' F c where
  writable := h.writable
  accepts {t cs k rest} hroom hcs ht hk := by
    rw [← (law.enter t).pending_eq] at ht
    obtain ⟨b, t', hrun, ht'⟩ := h.accepts nofun hcs ht hk
    exact ⟨b, _, by rw [hq t hroom, run_of_ok hrun], by rw [(law.leave t t').pending_eq, ht']⟩

end Frame

/-- A construct one level deeper. -/
def nestedFrame : Frame := ⟨State.enter, fun _ s' => s'.leave, State.leave⟩

theorem nestedFrame_lawful : nestedFrame.Lawful tight tight where
  enter _ := ⟨rfl, rfl, rfl⟩
  leave _ _ := ⟨rfl, rfl, rfl⟩
  stop _ := ⟨rfl, rfl, rfl⟩
  abreast_enter h := {
    depth_eq := congrArg (· + 1) h.depth_eq
    level_eq := congrArg (· + 1) h.level_eq
    peak_eq hx := by simp only [nestedFrame, State.enter, h.level_eq, h.peak_eq hx] }
  abreast_leave _ h := {
    depth_eq := congrArg (· - 1) h.depth_eq
    level_eq := congrArg (· - 1) h.level_eq
    peak_eq := h.peak_eq }

/-- Stopped by a guard. -/
theorem overruns_fail :
    ∃ x s', (fail .nestingTooDeep : Parser α) s = .error x s' ∧ s'.Overran :=
  ⟨⟨⟩, _, rfl, _, List.getLast?_concat, rfl⟩

theorem blocked_fail : Blocked s (fail .nestingTooDeep : Parser α) := by
  obtain ⟨x, s', hrun, hover⟩ := @overruns_fail α s
  exact ⟨x, s', hrun, hover.not_objected⟩

theorem nested_of_room {p : Parser α} (h : s.depth < maxNesting ∧ s.level < maxTreeDepth) :
    nested p s = nestedFrame.run p s :=
  if_neg (by omega)

theorem nested_of_not_room {p : Parser α}
    (h : ¬(s.depth < maxNesting ∧ s.level < maxTreeDepth)) :
    nested p s = fail .nestingTooDeep s :=
  if_pos (by omega)

theorem Twin.nested [Movable α] {p : Parser α} (hs : s.Sound)
    (h : ∀ {s}, s.Sound → Twin f tight s p p F e c) :
    Twin f tight s (nested p) (nested p) F e c := by
  by_cases hroom : s.depth < maxNesting ∧ s.level < maxTreeDepth
  · have hin : s.enter.Sound := ⟨hs.synced, hs.explains⟩
    refine nestedFrame_lawful.twin (nested_of_room hroom) (fun t hab => nested_of_room ?_) (h hin)
    rwa [hab.depth_eq, hab.level_eq]
  · refine Blocked.twin ?_
    rw [Blocked, nested_of_not_room hroom]
    exact blocked_fail

theorem overruns_nested {p : Parser α} (h : ¬Room (n + 1) s) :
    ∃ x s', nested p s = .error x s' ∧ s'.Overran := by
  rw [nested_of_not_room fun hroom => h ⟨Nat.succ_pos n, hroom.1, hroom.2⟩]
  exact overruns_fail

/-- A nested part needs room. -/
theorem Part.nested [Movable α] {p : Parser α} (h : Part f tight 0 false p F e c) :
    Part f tight (n + 1) true (nested p) F e c where
  twin hs := .nested hs h.twin
  starts := (@nestedFrame_lawful tight).starts
    (fun t hroom => nested_of_room ⟨(hroom rfl).depth_lt, (hroom rfl).level_lt⟩) h.starts
  blocked _ hno := by
    obtain ⟨x, s', hrun, hover⟩ := overruns_nested hno
    exact ⟨x, s', hrun, hover.not_objected⟩

theorem Steady.nested {p : Parser α} (h : Steady p) : Steady (nested p) := by
  intro s a s' hrun
  by_cases hroom : s.depth < maxNesting ∧ s.level < maxTreeDepth
  · rw [nested_of_room hroom] at hrun
    cases hp : p s.enter with
    | error x s₁ => cases (Frame.run_of_error hp).symm.trans hrun
    | ok b s₁ =>
      cases (Frame.run_of_ok hp).symm.trans hrun
      obtain ⟨hdepth, hlevel⟩ := h hp
      exact ⟨congrArg (· - 1) hdepth, congrArg (· - 1) hlevel⟩
  · rw [nested_of_not_room hroom] at hrun
    exact absurd hrun fail_ne_ok

/-- A chain, and the level at which it began. -/
def chainFrame : Frame where
  enter s := { s with peak := s.level }
  leave s s' := { s' with level := s.level, peak := max s'.peak s.peak }
  stop := id

theorem chainFrame_lawful : chainFrame.Lawful tight true where
  enter _ := ⟨rfl, rfl, rfl⟩
  leave _ _ := ⟨rfl, rfl, rfl⟩
  stop _ := ⟨rfl, rfl, rfl⟩
  abreast_enter h := ⟨h.depth_eq, h.level_eq, fun _ => h.level_eq⟩
  abreast_leave h h' := {
    depth_eq := h'.depth_eq
    level_eq := h.level_eq
    peak_eq hx := by simp only [chainFrame, h'.peak_eq rfl, h.peak_eq hx] }

theorem Part.chain [Movable α] {p : Parser α} (h : Part f true 0 false p F e c) :
    Part f tight 0 false (chain p) F e c where
  twin hs := chainFrame_lawful.twin rfl (fun _ _ => rfl) (h.twin ⟨hs.synced, hs.explains⟩)
  starts := (@chainFrame_lawful tight).starts (fun _ _ => rfl) h.starts
  blocked := nofun

/-- A chain ends at the level where it began. -/
theorem level_eq_of_chain {p : Parser α} {a : α} (hrun : chain p s = .ok a s') :
    s'.level = s.level := by
  cases hp : p (chainFrame.enter s) with
  | error x s₁ => cases (Frame.run_of_error hp).symm.trans hrun
  | ok b s₁ =>
    cases (Frame.run_of_ok hp).symm.trans hrun
    rfl

/-- One level above the peak. -/
def raiseFrame : Frame where
  enter s := { s with level := s.peak + 1, peak := s.peak + 1 }
  leave _ s' := s'
  stop := id

theorem raiseFrame_lawful : raiseFrame.Lawful true true where
  enter _ := ⟨rfl, rfl, rfl⟩
  leave _ _ := ⟨rfl, rfl, rfl⟩
  stop _ := ⟨rfl, rfl, rfl⟩
  abreast_enter h :=
    ⟨h.depth_eq, congrArg (· + 1) (h.peak_eq rfl), fun _ => congrArg (· + 1) (h.peak_eq rfl)⟩
  abreast_leave _ h := h

theorem raise_bind_of_lt {p : Parser α} (h : s.peak < maxTreeDepth) :
    (raise >>= fun _ => p) s = raiseFrame.run p s := by
  have hrun : raise s = .ok ⟨⟩ (raiseFrame.enter s) := if_neg (Nat.not_le.2 h)
  rw [bind_of_ok hrun, Frame.run]
  cases p (raiseFrame.enter s) <;> rfl

theorem blocked_raise (h : ¬s.peak < maxTreeDepth) : Blocked s raise := by
  rw [Blocked, show raise s = fail .nestingTooDeep s from if_pos (Nat.not_lt.1 h)]
  exact blocked_fail

theorem Twin.raise [Movable α] {p q : Parser α} (hs : s.Sound)
    (h : ∀ {s₁}, s₁.Sound → s₁.current = s.current → Twin f true s₁ p q F e c) :
    Twin f true s (raise >>= fun _ => p) (raise >>= fun _ => q) F e c := by
  by_cases hpeak : s.peak < maxTreeDepth
  · have hin : (raiseFrame.enter s).Sound := ⟨hs.synced, hs.explains⟩
    refine raiseFrame_lawful.twin (raise_bind_of_lt hpeak) (fun t hab => raise_bind_of_lt ?_)
      (h hin rfl)
    rwa [hab.peak_eq rfl]
  · exact (blocked_raise hpeak).bind.twin

/-- Takes an operator and goes up. -/
def ascend : Parser Token := do
  let token ← advance
  raise
  return token

theorem ascend_reached {a : Token} {s₁ : State} (hs : s.Sound) (hk : s.current.kind ≠ .eof)
    (hrun : ascend s = .ok a s₁) :
    a = s.current ∧ ∃ xs, xs ≠ [] ∧ Reached f true ascend (fun _ => True) true s a s₁ xs := by
  obtain ⟨a, s₂, h₁, h₂⟩ := bind_eq_ok.1 hrun
  obtain ⟨rfl, -, htaken⟩ := @advance_reached f true _ _ _ hs hk h₁
  have hraise : Twin f true s₂ (Parser.raise >>= fun _ => pure s.current)
      (Parser.raise >>= fun _ => pure (move f s.current)) (fun _ => True) true [] :=
    .raise htaken.sound fun hs _ => .pure hs rfl
  obtain ⟨ys, -, hys⟩ := hraise.ok h₂
  obtain ⟨_, s₃, -, h₄⟩ := bind_eq_ok.1 h₂
  refine ⟨(pure_eq_ok.1 h₄).1.symm, [s.current] ++ ys, List.cons_ne_nil _ ys, ?_⟩
  exact htaken.bind (h := fun token => Parser.raise >>= fun _ => pure token) (c := []) hys
    (fun _ _ => trivial) (fun h => absurd rfl h) (.inl rfl)

theorem ascend_not_objected {x : Stopped} (hs : s.Sound) (hk : s.current.kind ≠ .eof)
    (hrun : ascend s = .error x s') : ¬s'.Objected := by
  rcases bind_eq_error hrun with h₁ | ⟨a, s₁, h₁, h₂⟩
  · exact advance_not_objected hs hk h₁
  · by_cases hpeak : s₁.peak < maxTreeDepth
    · cases (raise_bind_of_lt hpeak).symm.trans h₂
    · obtain ⟨y, s₂, hraise, hobj⟩ := (blocked_raise hpeak).bind (g := fun _ => pure a)
      cases hraise.symm.trans h₂
      exact hobj

theorem Twin.ascend [Movable α] {g h : Token → Parser α} {c' : List Kind} (c : List Kind)
    (hs : s.Sound) (hk : s.current.kind ≠ .eof)
    (hg : ∀ s₁, Tail f true 0 false True s₁ (g s.current) (h (move f s.current)) F e c) :
    Twin f true s (ascend >>= g) (ascend >>= h) F e c' :=
  .first (ascend_reached hs hk) (ascend_not_objected hs hk) hg nofun nofun

end Parser

end LarkCheck
