import LarkCheck.Proofs.Grammar.Spans

/-!
# No token is lost

The tokens of an accepted text are the yield of its tree and the end of the file:
the parser drops none, takes none twice and swaps no two. It has also taken every
reading, so its reports are those of the lexer.
-/

namespace LarkCheck

open Token

namespace Parser

/-- The first token of a text is taken in place of the one that stands there at the start. -/
theorem advance_start {rs : List Reading} {t : Token} {s : State} (hrs : EndsOnce rs)
    (h : advance (.start rs) = .ok t s) :
    s.Ready ∧ s.tokens = rs.filterMap (·.token) ∧
      s.reports = rs.flatMap (·.news) ∧ s.depth = 0 ∧ s.level = 0 := by
  have hsynced : s.Synced := synced_of_advance hrs h
  cases rs with
  | nil => nomatch hrs
  | cons r rest =>
    cases ht : r.token with
    | none => simp [advance, State.start, Stream.ofList, ht] at h
    | some first =>
      simp only [advance, State.start, Stream.ofList, ht, EStateM.Result.ok.injEq] at h
      obtain ⟨-, rfl⟩ := h
      refine ⟨⟨⟨Nat.zero_le _, Nat.le_refl _, Nat.zero_le _⟩, hsynced⟩, ?_, ?_, rfl, rfl⟩
      · simp [State.tokens, ht]
      · simp [State.reports]

/-- A unit is read to its end, within the guards. -/
theorem unit_spans {rs : List Reading} {unit : Block} {s : State} (hrs : EndsOnce rs)
    (h : Parser.unit (.start rs) = .ok unit s) :
    (rs.filterMap (·.token)).map (·.kind) = unit.yield ++ [.eof] ∧
      s.news = rs.flatMap (·.news) ∧
      unit.weight.nest ≤ maxNesting ∧ unit.weight.load ≤ maxTreeDepth := by
  simp only [Parser.unit, bind_eq_ok, current_eq_ok] at h
  obtain ⟨t, s₁, h₁, body, s₂, h₂, next, s₃, ⟨rfl, rfl⟩, h⟩ := h
  obtain ⟨hs₁, htokens, hreports, hdepth, hlevel⟩ := advance_start hrs h₁
  have r := block_spans (Nested.reads_ofLevels _) _ _ _ hs₁ h₂
  split at h
  · rename_i heof
    obtain ⟨rfl, rfl⟩ := pure_eq_ok.1 h
    have hend : s₃.ahead.items = [] := by
      simpa [State.Synced, heof] using r.ready.synced
    refine ⟨?_, ?_, ?_, ?_⟩
    · rw [← htokens, ← State.kinds, r.kinds_eq]
      simp [Block.yield, State.kinds, State.tokens, hend, heof]
    · rw [← hreports, ← r.reports_eq]
      simp [State.reports, hend]
    · have := r.nest_le
      omega
    · have := r.load_le
      omega
  · exact absurd h fail_ne_ok

end Parser

/-- An accepted text lexes without an error and with the same reports, and its tokens are the
yield of the tree and the end of the file. -/
theorem lex_of_parse {log : Log} {text : List Char} {unit : Block}
    (h : (parse log text).1 = some unit) :
    ∃ tokens, lex log text = (some tokens, (parse log text).2) ∧
      tokens.map (·.kind) = unit.yield ++ [.eof] := by
  obtain ⟨s, hunit, herror, hlog⟩ := parse_fst_eq_some h
  obtain ⟨hkinds, hnews, -, -⟩ := Parser.unit_spans (endsOnce_readings _) hunit
  refine ⟨(readings (.start text)).filterMap (·.token), ?_, hkinds⟩
  rw [hnews] at herror hlog
  simp [lex, herror, hlog]

/-- A class with every part of its head, and a call that goes on after a line break. -/
def classText : List Char :=
  ("x = class A(a, b = -1) : B(a) include C, D\n" ++
    "private f = routine(out r) r = [a][0] + 2.5 end public end\nx.f\n(\"\\n\")").toList

theorem lex_of_parse_classText :
    ∃ unit tokens, (parse (.empty "u") classText).1 = some unit ∧
      lex (.empty "u") classText = (some tokens, (parse (.empty "u") classText).2) ∧
      tokens.map (·.kind) = unit.yield ++ [.eof] := by
  have accepted : (parse (.empty "u") classText).1.isSome = true := by decide +kernel
  obtain ⟨unit, h⟩ := Option.isSome_iff_exists.1 accepted
  obtain ⟨tokens, hlex⟩ := lex_of_parse h
  exact ⟨unit, tokens, h, hlex⟩

end LarkCheck
