import LarkCheck.Proofs.Grammar.Nodes
import LarkCheck.Proofs.Tree.Gaps
import LarkCheck.Report

/-!
# Parsed trees have no gaps

Whatever the parser accepts, every required child of every node is there. So a tree
that comes from a text passes both checks of its structure, and the compilation of a
text can fail in two stages only.
-/

namespace LarkCheck

/-- A unit without gaps can fail in the resolution of its names only. -/
theorem analyze_of_gaps {unit : Block} (h : ∀ n ∈ unit.nodes, n.gaps = []) (log : Log) :
    (analyze log unit).1 = .error .resolution ∨
      ∃ compiled, (analyze log unit).1 = .ok compiled := by
  have hstructure := Block.checkStructure_of_gaps h
  unfold analyze
  rcases unit.resolve log with ⟨scopes?, log'⟩
  cases scopes? with
  | none => exact .inl rfl
  | some scopes =>
    refine .inr ⟨⟨unit, scopes⟩, ?_⟩
    simp only [hstructure, Block.checkRules_nil]

/-- The tree of an accepted text has no gap, both checks of its structure accept it and report
nothing, and no text fails in a stage other than parsing and the resolution of names. -/
theorem gapless_of_parse (text : List Char) :
    (∀ log unit, (parse log text).1 = some unit →
      (∀ n ∈ unit.nodes, n.gaps = []) ∧
        ∀ log', unit.checkStructure log' = (true, log') ∧ unit.checkNoRules log' = (true, log')) ∧
      ∀ name, (compile name text).failedStage? ∈ [none, some .parse, some .resolution] := by
  have gapless : ∀ log unit, (parse log text).1 = some unit → ∀ n ∈ unit.nodes, n.gaps = [] :=
    fun _ _ h _ hn => (grammatical_of_parse h hn).gaps_eq_nil
  refine ⟨fun log unit h => ⟨gapless log unit h, fun log' => ?_⟩, fun name => ?_⟩
  · have hstructure := Block.checkStructure_of_gaps (gapless log unit h) log'
    exact ⟨hstructure, (unit.checkNoRules_eq log').trans hstructure⟩
  · unfold compile
    cases hparse : parse (.empty name) text with
    | mk unit? log =>
      cases unit? with
      | none => simp [Report.failedStage?]
      | some unit =>
        have hgaps := gapless (.empty name) unit (by rw [hparse])
        rcases analyze_of_gaps hgaps log with h | ⟨compiled, h⟩ <;> simp [Report.failedStage?, h]

/-- A text with a branch, a pair and a clause, whose required children belong to other nodes. -/
def branchesText : List Char :=
  ("foreach x in [1] do if x h.k[x] = \x7b0: -x\x7d elseif x < 1 next end end\n" ++
    "case f(x) when (1) then p = package P end end").toList

theorem gapless_of_parse_branchesText :
    ∃ unit, (parse (.empty "u") branchesText).1 = some unit ∧ unit.nodes.length = 29 ∧
      (∀ n ∈ unit.nodes, n.gaps = []) ∧
      unit.checkStructure (.empty "u") = (true, .empty "u") := by
  have accepted : (parse (.empty "u") branchesText).1.map (·.nodes.length) = some 29 := by
    decide +kernel
  obtain ⟨unit, h, hlength⟩ := Option.map_eq_some_iff.1 accepted
  obtain ⟨hgaps, hchecks⟩ := (gapless_of_parse branchesText).1 (.empty "u") unit h
  exact ⟨unit, h, hlength, hgaps, (hchecks (.empty "u")).1⟩

end LarkCheck
