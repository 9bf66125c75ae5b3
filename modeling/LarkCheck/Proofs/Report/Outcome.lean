import LarkCheck.Proofs.Tree.Missing
import LarkCheck.Report

/-!
# The outcome of an analysis

The structure check and the rule check without rules give the same verdict and
report the same, so the last stage has nothing to object to that the stage before it
let through. What ends an analysis is an undeclared use or else a gap, and only the
stage that it ends in reports anything.
-/

namespace LarkCheck

variable {unit : Block}

namespace Block

/-- Of a unit whose names are resolved nothing has been reported. -/
theorem resolve_of_eq_some {log : Log} {scopes : ScopeTree}
    (h : (unit.resolve log).1 = some scopes) : unit.resolve log = (some scopes, log) := by
  have hnews : ((Resolver.start unit.loc).run unit).news = [] := by
    by_contra hne
    have hnone : (unit.resolve log).1 = none :=
      if_neg (by simpa [Resolver.passed_run] using hne)
    rw [hnone] at h
    cases h
  refine Prod.ext h ?_
  change log.append _ = log
  rw [hnews, Log.append, List.append_nil]

theorem checkStructure_of_complete (h : unit.Complete) (log : Log) :
    unit.checkStructure log = (true, log) :=
  checkStructure_of_gaps (complete_iff.1 h) log

theorem checkStructure_of_not_complete (h : ¬ unit.Complete) (log : Log) :
    unit.checkStructure log = (false, (unit.checkStructure log).2) := by
  refine Prod.ext (Bool.eq_false_iff.2 fun hpassed => h ?_) rfl
  rw [checkStructure_eq] at hpassed
  exact isEmpty_emptySlots.1 hpassed

end Block

variable {log : Log} {scopes : ScopeTree}

theorem analyze_unresolved (h : (unit.resolve log).1 = none) :
    analyze log unit = (.error .resolution, (unit.resolve log).2) := by
  have hresolve : unit.resolve log = (none, (unit.resolve log).2) := Prod.ext h rfl
  rw [analyze, hresolve]

theorem analyze_incomplete (h : (unit.resolve log).1 = some scopes) (hgap : ¬ unit.Complete) :
    analyze log unit = (.error .structureCheck, (unit.checkStructure log).2) := by
  rw [analyze, Block.resolve_of_eq_some h]
  dsimp only
  rw [Block.checkStructure_of_not_complete hgap]

/-- The rule check finds nothing either. -/
theorem analyze_complete (h : (unit.resolve log).1 = some scopes) (hwhole : unit.Complete) :
    analyze log unit = (.ok ⟨unit, scopes⟩, log) := by
  simp only [analyze, Block.resolve_of_eq_some h, Block.checkStructure_of_complete hwhole,
    Block.checkRules_nil]

/-- The two checks of the structure agree in verdict and reports, whatever is missing. So an
analysis never ends in the rule check. It ends in the resolution of names if that fails, else in the
structure check if the tree has a gap, and else it succeeds. The log is as the stage leaves it in
which the analysis ends, as if no other had run, and after a success it is as it was. -/
theorem analyze_outcome (log : Log) (unit : Block) :
    unit.checkNoRules log = unit.checkStructure log ∧
      (analyze log unit).1 ≠ .error .ruleCheck ∧
      (analyze log unit).1 ≠ .error .parse ∧
      ((analyze log unit).1 = .error .resolution ↔ (unit.resolve log).1 = none) ∧
      ((analyze log unit).1 = .error .structureCheck ↔
        (unit.resolve log).1.isSome = true ∧ ¬ unit.Complete) ∧
      (∀ compiled, (analyze log unit).1 = .ok compiled ↔
        (unit.resolve log).1 = some compiled.scopes ∧ compiled.unit = unit ∧ unit.Complete) ∧
      (analyze log unit).2 =
        match (analyze log unit).1 with
        | .error .resolution => (unit.resolve log).2
        | .error .structureCheck => (unit.checkStructure log).2
        | _ => log := by
  refine ⟨unit.checkNoRules_eq log, ?_⟩
  cases hresolve : (unit.resolve log).1 with
  | none => simp [analyze_unresolved hresolve]
  | some scopes =>
    by_cases hwhole : unit.Complete
    · simp only [analyze_complete hresolve hwhole]
      refine ⟨nofun, nofun, by simp, by simp [hwhole], fun compiled => ?_, trivial⟩
      constructor
      · intro h
        cases h
        exact ⟨rfl, rfl, hwhole⟩
      · rintro ⟨hscopes, rfl, -⟩
        cases hscopes
        rfl
    · simp [analyze_incomplete hresolve hwhole, hwhole]

end LarkCheck
