import LarkCheck.Proofs.Grammar.FailFast
import LarkCheck.Proofs.Grammar.Twin.Statements

/-!
# Units on tokens that begin alike

A unit is a block and the end of the file. What a run of it tells of other tokens is
told here of other readings, from the start.
-/

namespace LarkCheck

open Token

namespace Parser

variable {f : Location → Location} {tight : Bool} {rs rs' : List Reading} {s s₁ s' t : State}
  {xs : List Token}

/-- A unit whose first token has been read. -/
def body : Parser Block := do
  let body ← block (.ofLevels maxNesting)
  let next ← current
  if next.kind = .eof then return body else fail .expectedEndOfFile

theorem Twin.body (hf : KeepsLines f) (hs : s.Sound) :
    Twin f tight s body body (· = .eof) false [] := by
  have ends : ∀ (b : Block) (t : State), t.current.kind = .eof →
      (do let next ← current
          if next.kind = .eof then return b else fail .expectedEndOfFile : Parser Block) t =
        .ok b t := by
    intro b t ht
    rw [current_bind, if_pos ht]
    rfl
  have fails : ∀ (b : Block) (t : State), t.current.kind ≠ .eof →
      (do let next ← current
          if next.kind = .eof then return b else fail .expectedEndOfFile : Parser Block) t =
        fail .expectedEndOfFile t := by
    intro b t ht
    rw [current_bind, if_neg ht]
  refine .seq ((Part.block (Nested.twins_ofLevels hf _)).twin hs) (fun {b s₁} _ hs₁ => ?_)
    (fun b t ht => ⟨b, ends b t ht⟩) ?_ (.inr rfl)
  · by_cases heof : s₁.current.kind = .eof
    · refine .stay hs₁ (ends b s₁ heof) fun t ht => ⟨_, ends _ t ?_, fun _ => rfl⟩
      exact ht.elim (fun ht => (kind_eq_of_move ht).trans heof) id
    · refine .fault ⟨_, _, fails b s₁ heof, rfl⟩ fun t ht => ⟨_, _, fails _ t ?_⟩
      rwa [kind_eq_of_move ht]
  · rintro _ rfl
    rfl

/-- The state after the first of the readings. -/
structure Opens (rs : List Reading) (s : State) : Prop where
  run : ∃ t, advance (.start rs) = .ok t s
  pending : s.pending = rs.map (·.token)
  counters : SameCounters (.start []) s

theorem exists_opens {r : Reading} {rest : List Reading} {token : Token}
    (h : r.token = some token) : ∃ s, Opens (r :: rest) s := by
  have hrun : advance (.start (r :: rest)) =
      .ok ⟨.eof, .start⟩ ⟨token, ⟨rest, rest.length, rfl⟩, r.news, 0, 0, 0⟩ := by
    simp only [advance, State.start, Stream.ofList, h]
    rfl
  exact ⟨_, ⟨_, hrun⟩, by rw [List.map_cons, h]; rfl, rfl, rfl, rfl⟩

theorem exists_opens_of_map {x : Token} {rest : List (Option Token)}
    (h : rs.map (·.token) = some x :: rest) : ∃ s, Opens rs s := by
  cases rs with
  | nil => cases h
  | cons r rs => exact exists_opens (List.cons.inj h).1

theorem exists_opens_of_isSome (hne : rs ≠ []) (h : ∀ r ∈ rs, r.token.isSome = true) :
    ∃ s, Opens rs s := by
  obtain ⟨r, rest, rfl⟩ := List.exists_cons_of_ne_nil hne
  obtain ⟨token, htoken⟩ := Option.isSome_iff_exists.1 (h r List.mem_cons_self)
  exact exists_opens htoken

/-- The first token of a text is the current one. -/
theorem Opens.read_eq {c : Cursor} (h : Opens (readings c) s) :
    c.read.1.token = some s.current := by
  have hpending := h.pending
  rw [readings] at hpending
  exact (List.cons.inj hpending).1.symm

theorem Opens.unit_eq (h : Opens rs s) : Parser.unit (.start rs) = body s := by
  obtain ⟨t, hrun⟩ := h.run
  exact bind_of_ok hrun

theorem Opens.sound (h : Opens rs s) (hrs : EndsOnce rs)
    (hexplains : ∀ r ∈ rs, Explains r.token.isSome r.news) : s.Sound := by
  obtain ⟨t, hrun⟩ := h.run
  obtain ⟨hready, -⟩ := advance_start hrs hrun
  have hkept := stepLaw_advanced.advance (.start rs)
  rw [hrun] at hkept
  exact ⟨hready.synced, fun r hr => hexplains r (hkept.of_ok.mem_ahead hr)⟩

theorem Opens.abreast (h : Opens rs s) (h' : Opens rs' t) : Abreast tight s t where
  depth_eq := h'.counters.depth_eq.trans h.counters.depth_eq.symm
  level_eq := h'.counters.level_eq.trans h.counters.level_eq.symm
  peak_eq _ := h'.counters.peak_eq.trans h.counters.peak_eq.symm

/-- A unit that objects to a token has read its first token. -/
theorem exists_opens_of_objected {x : Stopped} (hrs : EndsOnce rs)
    (hexplains : ∀ r ∈ rs, Explains r.token.isSome r.news)
    (h : Parser.unit (.start rs) = .error x s) (hobj : s.Objected) : ∃ s₁, Opens rs s₁ := by
  obtain ⟨r, rest, rfl⟩ : ∃ r rest, rs = r :: rest := by
    cases hrs <;> exact ⟨_, _, rfl⟩
  cases ht : r.token with
  | some token => exact exists_opens ht
  | none =>
    have hr := hexplains r List.mem_cons_self
    rw [ht] at hr
    have hrun : advance (.start (r :: rest)) =
        .error ⟨⟩ ⟨⟨.eof, .start⟩, ⟨rest, rest.length, rfl⟩, [] ++ r.news, 0, 0, 0⟩ := by
      simp only [advance, State.start, Stream.ofList, ht]
      rfl
    have hstops : Parser.unit (.start (r :: rest)) = .error ⟨⟩ _ := bind_of_error hrun
    cases h.symm.trans hstops
    exact absurd hobj (not_objected_of_malformed hr rfl)

end Parser

end LarkCheck
