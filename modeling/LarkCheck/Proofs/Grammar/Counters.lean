import LarkCheck.Proofs.Grammar.FailFast
import Mathlib.Logic.Relation

/-!
# The guard counters

A parser is at work in constructs that it has begun and not finished: constructs
behind the guard of nesting, which take their level back however they end, and
chains, which give back what they found only if they succeed. With these as a stack
the few sorts of steps make a machine, and every run of a parser is one of its runs.
So what each step keeps holds of every state that a parser can get to: the counters
stay within the guards, and whoever leaves a construct finds in both counters what
it is to take back, also when a chain around it or inside it has failed.
-/

namespace LarkCheck

open Token

namespace Parser

/-- What was begun: a construct behind the guard of nesting, or a chain with the counters that it
found. -/
inductive Begun where
  | nest
  | chain (level peak : Nat)

/-- A parser at work, with what it is in, the innermost first. -/
structure Config where
  state : State
  begun : List Begun
  stopped : Bool

/-- The steps of a parser. One that stopped only leaves what it is in. -/
inductive Step : Config → Config → Prop
  | advance {s s' : State} {begun : List Begun} {t : Token} (h : Parser.advance s = .ok t s') :
    Step ⟨s, begun, false⟩ ⟨s', begun, false⟩
  | malformed {s s' : State} {begun : List Begun} {e : Stopped}
    (h : Parser.advance s = .error e s') : Step ⟨s, begun, false⟩ ⟨s', begun, true⟩
  | report {s : State} {begun : List Begun} (d : Diagnostic) :
    Step ⟨s, begun, false⟩ ⟨{ s with news := s.news ++ [d] }, begun, true⟩
  | enter {s : State} {begun : List Begun} (hdepth : s.depth < maxNesting)
    (hlevel : s.level < maxTreeDepth) :
    Step ⟨s, begun, false⟩ ⟨s.enter, .nest :: begun, false⟩
  | leave {s : State} {begun : List Begun} {stopped : Bool} :
    Step ⟨s, .nest :: begun, stopped⟩ ⟨s.leave, begun, stopped⟩
  | beginChain {s : State} {begun : List Begun} :
    Step ⟨s, begun, false⟩ ⟨{ s with peak := s.level }, .chain s.level s.peak :: begun, false⟩
  | raise {s : State} {begun : List Begun} (h : s.peak < maxTreeDepth) :
    Step ⟨s, begun, false⟩ ⟨{ s with level := s.peak + 1, peak := s.peak + 1 }, begun, false⟩
  | endChain {s : State} {begun : List Begun} {level peak : Nat} :
    Step ⟨s, .chain level peak :: begun, false⟩
      ⟨{ s with level := level, peak := max s.peak peak }, begun, false⟩
  | dropChain {s : State} {begun : List Begun} {level peak : Nat} :
    Step ⟨s, .chain level peak :: begun, true⟩ ⟨s, begun, true⟩

/-- Any number of steps. -/
abbrev Steps : Config → Config → Prop := Relation.ReflTransGen Step

/-- A parser of the text can get there. -/
def Reachable (text : List Char) (c : Config) : Prop :=
  Steps ⟨.start (readings (.start text)), [], false⟩ c

/-- Wherever a parser is, it gets from `s` to `s'` and is then in what it was in. -/
def Moves (s s' : State) : Prop :=
  ∀ begun, Steps ⟨s, begun, false⟩ ⟨s', begun, false⟩

/-- Wherever a parser is, it stops on its way from `s` and leaves what it began. -/
def Quits (s s' : State) : Prop :=
  ∀ begun, Steps ⟨s, begun, false⟩ ⟨s', begun, true⟩

theorem advance_moves : Keeps Moves Quits advance := by
  intro s
  cases h : advance s with
  | ok t s' =>
    constructor
    intro begun
    exact .single (.advance h)
  | error e s' =>
    constructor
    intro begun
    exact .single (.malformed h)

/-- So every production is a run of the machine. -/
theorem stepLaw_moves : StepLaw Moves Quits where
  refl s begun := .refl
  trans h h' begun := (h begun).trans (h' begun)
  stop h h' begun := (h begun).trans (h' begun)
  advance := advance_moves
  report s loc code note _ _ begun := .single (.report _)
  leave hdepth hlevel h begun := by
    have hinside := h (.nest :: begun)
    exact .head (.enter hdepth hlevel) (hinside.tail .leave)
  leave_stop hdepth hlevel h begun := by
    have hinside := h (.nest :: begun)
    exact .head (.enter hdepth hlevel) (hinside.tail .leave)
  close {s s'} h begun := by
    have hinside := h (.chain s.level s.peak :: begun)
    exact .head .beginChain (hinside.tail .endChain)
  close_stop {s s'} h begun := by
    have hinside := h (.chain s.level s.peak :: begun)
    exact .head .beginChain (hinside.tail .dropChain)
  raise s h begun := .single (.raise h)

/-- From `s` the parser `q` begins a construct and runs `p` inside of it, from `t`. However `p`
ends, `q` leaves the construct and ends in the same way. -/
def Frames {α : Type} (construct : Begun) (q p : Parser α) (s t : State) : Prop :=
  ∀ begun, Step ⟨s, begun, false⟩ ⟨t, construct :: begun, false⟩ ∧
    (∀ a t', p t = .ok a t' → ∃ s', q s = .ok a s' ∧
      Step ⟨t', construct :: begun, false⟩ ⟨s', begun, false⟩) ∧
    ∀ e t', p t = .error e t' → ∃ s', q s = .error e s' ∧
      Step ⟨t', construct :: begun, true⟩ ⟨s', begun, true⟩

section Frames

variable {α : Type} (p : Parser α) {s : State}

theorem nested_frames (hdepth : s.depth < maxNesting) (hlevel : s.level < maxTreeDepth) :
    Frames .nest (nested p) p s s.enter := by
  have hguard : ¬(maxNesting ≤ s.depth ∨ maxTreeDepth ≤ s.level) := by omega
  refine fun begun => ⟨.enter hdepth hlevel, fun a t' h => ⟨t'.leave, ?_, .leave⟩,
    fun e t' h => ⟨t'.leave, ?_, .leave⟩⟩
  · rw [State.enter] at h
    simp only [nested, if_neg hguard, h]
  · rw [State.enter] at h
    simp only [nested, if_neg hguard, h]

theorem nested_full (h : maxNesting ≤ s.depth ∨ maxTreeDepth ≤ s.level) :
    nested p s = fail .nestingTooDeep s :=
  if_pos h

theorem chain_frames (s : State) :
    Frames (.chain s.level s.peak) (chain p) p s { s with peak := s.level } := by
  refine fun begun => ⟨.beginChain, fun a t' h => ⟨_, ?_, .endChain⟩,
    fun e t' h => ⟨t', ?_, .dropChain⟩⟩ <;> simp only [chain, h]

theorem raise_bind (h : s.peak < maxTreeDepth) :
    (do raise; p) s = p { s with level := s.peak + 1, peak := s.peak + 1 } := by
  have hraise : raise s = .ok ⟨⟩ { s with level := s.peak + 1, peak := s.peak + 1 } :=
    if_neg (Nat.not_le.2 h)
  simp only [bind, EStateM.bind, hraise]

theorem raise_full (h : maxTreeDepth ≤ s.peak) : raise s = fail .nestingTooDeep s :=
  if_pos h

end Frames

/-- What stands behind a guard, in a chain or in a link of one runs from the states to which the
steps of the machine lead, and nothing runs beyond the limits. -/
structure Guarded : Prop where
  behind : ∀ {α : Type} (p : Parser α) (s : State), s.depth < 64 → s.level < 256 →
    Frames .nest (nested p) p s s.enter
  refused : ∀ {α : Type} (p : Parser α) (s : State), 64 ≤ s.depth ∨ 256 ≤ s.level →
    nested p s = fail .nestingTooDeep s
  chained : ∀ {α : Type} (p : Parser α) (s : State),
    Frames (.chain s.level s.peak) (chain p) p s { s with peak := s.level }
  linked : ∀ {α : Type} (p : Parser α) (s : State), s.peak < 256 →
    ∃ t, (∀ begun, Step ⟨s, begun, false⟩ ⟨t, begun, false⟩) ∧
      t = { s with level := s.peak + 1, peak := s.peak + 1 } ∧ (do raise; p) s = p t
  ended : ∀ s : State, 256 ≤ s.peak → raise s = fail .nestingTooDeep s

theorem guarded : Guarded where
  behind p _ := nested_frames p
  refused p _ := nested_full p
  chained := chain_frames
  linked p _ h := ⟨_, fun _ => .raise h, rfl, raise_bind p h⟩
  ended _ := raise_full

theorem Step.advanced {c c' : Config} (h : Step c c') (hgoes : c'.stopped = false) :
    c.stopped = false ∧ Advanced c.state c'.state := by
  cases h with
  | @advance s s' begun t h =>
    have hkept := advance_took s
    rw [h] at hkept
    exact ⟨rfl, hkept.of_ok⟩
  | malformed | report | dropChain => cases hgoes
  | enter | beginChain | raise | endChain => exact ⟨rfl, (Advanced.refl _).of_eq rfl rfl rfl rfl⟩
  | leave => exact ⟨hgoes, (Advanced.refl _).of_eq rfl rfl rfl rfl⟩

theorem Steps.advanced {c c' : Config} (h : Steps c c') (hgoes : c'.stopped = false) :
    Advanced c.state c'.state := by
  induction h with
  | refl => exact .refl _
  | tail _ hstep ih =>
    obtain ⟨hgoes, hlast⟩ := hstep.advanced hgoes
    exact stepLaw_advanced.trans (ih hgoes) hlast

/-- A parser that did not stop has taken tokens. -/
theorem Moves.advanced {s s' : State} (h : Moves s s') : Advanced s s' :=
  (h []).advanced rfl

/-- How many constructs behind the guard of nesting the parser is in. -/
def nests : List Begun → Nat
  | [] => 0
  | .nest :: begun => nests begun + 1
  | .chain _ _ :: begun => nests begun

/-- What the chains will give back is enough for the constructs around them. -/
def Held : List Begun → Prop
  | [] => True
  | .nest :: begun => Held begun
  | .chain level peak :: begun =>
    (nests begun ≤ level ∧ level ≤ peak ∧ peak ≤ maxTreeDepth) ∧ Held begun

/-- What holds wherever a parser can get to from its first of these readings. -/
structure Config.Sound (rs : List Reading) (c : Config) : Prop extends c.state.Bounded where
  depth_eq : c.state.depth = nests c.begun
  nests_le : nests c.begun ≤ c.state.level
  held : Held c.begun
  synced : c.stopped = false → c.state.Synced ∨ c.state.ahead.items = rs

variable {rs : List Reading} {c c' : Config}

theorem sound_start (rs : List Reading) : Config.Sound rs ⟨.start rs, [], false⟩ where
  depth_le := Nat.zero_le _
  level_le := Nat.le_refl _
  peak_le := Nat.zero_le _
  depth_eq := rfl
  nests_le := Nat.le_refl _
  held := trivial
  synced _ := .inr rfl

theorem Config.Sound.of_sameCounters {s s' : State} {begun : List Begun} {stopped stopped' : Bool}
    (hs : Config.Sound rs ⟨s, begun, stopped⟩) (h : SameCounters s s')
    (hsynced : stopped' = false → s'.Synced ∨ s'.ahead.items = rs) :
    Config.Sound rs ⟨s', begun, stopped'⟩ := by
  obtain ⟨⟨hdepth_le, hlevel_le, hpeak_le⟩, hdepth, hnests, hheld, -⟩ := hs
  obtain ⟨hd, hl, hp⟩ := h
  dsimp only at *
  rw [← hd] at hdepth_le hdepth
  rw [← hl] at hlevel_le hnests
  rw [← hp] at hlevel_le hpeak_le
  exact ⟨⟨hdepth_le, hlevel_le, hpeak_le⟩, hdepth, hnests, hheld, hsynced⟩

/-- Each step keeps it. A chain that ends well gives back what was enough when it began, and one
that failed leaves the level above that. -/
theorem Config.Sound.step (hc : c.Sound rs) (hrs : EndsOnce rs) (h : Step c c') : c'.Sound rs := by
  have hc' := hc
  obtain ⟨hbounded, hdepth, hnests, hheld, hsynced⟩ := hc
  cases h with
  | @advance s s' begun t h =>
    have hlevel := advance_sameCounters s
    rw [h] at hlevel
    apply hc'.of_sameCounters hlevel.of_ok
    intro _
    rcases hsynced rfl with hsynced | hahead
    · by_cases heof : s.current.kind = .eof
      · have hend : s.ahead.items = [] := by simpa [State.Synced, heof] using hsynced
        obtain ⟨current, ⟨items, size, hsize⟩, news, depth, level, peak⟩ := s
        cases hend
        cases h
        exact .inl hsynced
      · rw [State.Synced, if_neg heof] at hsynced
        exact .inl (synced_of_advance hsynced h)
    · dsimp only at hahead
      rw [← hahead] at hrs
      exact .inl (synced_of_advance hrs h)
  | @malformed s s' begun e h =>
    have hlevel := advance_sameCounters s
    rw [h] at hlevel
    apply hc'.of_sameCounters hlevel.of_error
    rintro ⟨⟩
  | report d =>
    refine hc'.of_sameCounters ⟨rfl, rfl, rfl⟩ ?_
    rintro ⟨⟩
  | @enter s begun hlow hroom =>
    have hguard : ¬(maxNesting ≤ s.depth ∨ maxTreeDepth ≤ s.level) := by omega
    constructor
    · exact hbounded.enter hguard
    · exact congrArg (· + 1) hdepth
    · exact Nat.succ_le_succ hnests
    · exact hheld
    · exact hsynced
  | @leave s begun stopped =>
    simp only [nests] at hdepth hnests
    constructor
    · exact hbounded.leave
    · simp only [State.leave]
      omega
    · simp only [State.leave]
      omega
    · exact hheld
    · exact hsynced
  | beginChain =>
    constructor
    · exact hbounded.opened
    · exact hdepth
    · exact hnests
    · exact ⟨⟨hnests, hbounded.level_le, hbounded.peak_le⟩, hheld⟩
    · exact hsynced
  | @raise s begun hroom =>
    have hbelow : nests begun ≤ s.peak := Nat.le_trans hnests hbounded.level_le
    constructor
    · exact ⟨hbounded.depth_le, Nat.le_refl _, hroom⟩
    · exact hdepth
    · exact Nat.le_succ_of_le hbelow
    · exact hheld
    · exact hsynced
  | endChain =>
    obtain ⟨⟨hbelow, hlevel, hpeak⟩, hheld⟩ := hheld
    constructor
    · refine ⟨hbounded.depth_le, ?_, ?_⟩
      · exact Nat.le_trans hlevel (Nat.le_max_right _ _)
      · exact Nat.max_le.2 ⟨hbounded.peak_le, hpeak⟩
    · exact hdepth
    · exact hbelow
    · exact hheld
    · exact hsynced
  | dropChain =>
    refine ⟨hbounded, hdepth, hnests, hheld.2, ?_⟩
    rintro ⟨⟩

/-- So it holds wherever a parser can get to. -/
theorem Reachable.sound {text : List Char} (h : Reachable text c) :
    c.Sound (readings (.start text)) := by
  induction h with
  | refl => exact sound_start _
  | tail _ hstep ih => exact ih.step (endsOnce_readings _) hstep

/-- Whoever leaves a construct finds in both counters what it takes back. -/
theorem Config.Sound.leaves (hc : c.Sound rs) {begun : List Begun}
    (h : c.begun = .nest :: begun) : 0 < c.state.depth ∧ 0 < c.state.level := by
  have hdepth := hc.depth_eq
  have hnests := hc.nests_le
  rw [h, nests] at hdepth hnests
  omega

/-- Behind its first token a parser that did not stop is ready for any production. -/
theorem Config.Sound.ready (hc : c.Sound rs) (hgoes : c.stopped = false)
    (hfirst : c.state.ahead.items ≠ rs) : c.state.Ready :=
  ⟨hc.toBounded, (hc.synced hgoes).resolve_right hfirst⟩

end Parser

end LarkCheck
