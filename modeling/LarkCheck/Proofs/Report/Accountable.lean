import LarkCheck.Proofs.Grammar.FailFast
import LarkCheck.Proofs.Scope.Undeclared
import LarkCheck.Proofs.Tree.Gaps
import LarkCheck.Report

/-!
# Every failure is reported, and errors are failures

A stage adds its reports to the log, and what the log holds before makes no difference
to it. It fails just when it adds an error: none fails in silence, none goes on with an
error reported, and warnings make none fail. The lexer and the parser tell a failure by
the error count of the whole log, the checks of a tree by a verdict that they carry on
their way, and the analysis by the stage that ended it.
-/

namespace LarkCheck

open Token

/-- On every log the stage returns `result` and adds `news` behind the entries. The result counts as
a success, so that `ok` is true of it, if and only if there is no error in what was added. -/
structure Accounts {α : Type} (ok : α → Bool) (stage : Log → α × Log) (result : α)
    (news : List Diagnostic) : Prop where
  result_eq : ∀ log, (stage log).1 = result
  entries_eq : ∀ log, (stage log).2.entries = log.entries ++ news
  unit_eq : ∀ log, (stage log).2.unit = log.unit
  ok_eq : ok result = !news.any Diagnostic.isError

def Accountable {α : Type} (ok : α → Bool) (stage : Log → α × Log) : Prop :=
  ∃ result news, Accounts ok stage result news

section Accounts

variable {α : Type} {ok : α → Bool} {stage : Log → α × Log} {result : α} {news : List Diagnostic}

theorem Accounts.run_eq (h : Accounts ok stage result news) (log : Log) :
    stage log = (result, log.append news) :=
  Prod.ext (h.result_eq log) (Log.ext (h.unit_eq log) (h.entries_eq log))

theorem Accountable.of_run (result : α) (news : List Diagnostic)
    (hrun : ∀ log, stage log = (result, log.append news))
    (hok : ok result = !news.any Diagnostic.isError) : Accountable ok stage := by
  refine ⟨result, news, fun log => ?_, fun log => ?_, fun log => ?_, hok⟩ <;> rw [hrun] <;> rfl

theorem Accountable.exists_run (h : Accountable ok stage) :
    ∃ result news, (∀ log, stage log = (result, log.append news)) ∧
      ok result = !news.any Diagnostic.isError := by
  obtain ⟨result, news, h⟩ := h
  exact ⟨result, news, h.run_eq, h.ok_eq⟩

end Accounts

theorem isSome_ite_not {α : Type} (failed : Bool) (a : α) :
    (if failed = true then none else some a).isSome = !failed := by
  cases failed <;> rfl

theorem lex_accountable (text : List Char) : Accountable Option.isSome (lex · text) := by
  let all := readings (.start text)
  refine .of_run _ (all.flatMap (·.news)) (fun log => ?_)
    (isSome_ite_not _ (all.filterMap (·.token)))
  simp only [lex, Log.errorCount_lt_append, all]

theorem parse_accountable (text : List Char) : Accountable Option.isSome (parse · text) := by
  have hkept := Parser.stepLaw_advanced.unit_keeps (.start (readings (.start text)))
  cases hrun : Parser.unit (.start (readings (.start text))) with
  | ok unit s =>
    refine .of_run _ s.news (fun log => ?_) (isSome_ite_not _ unit)
    simp only [parse, hrun, Log.errorCount_lt_append]
  | error e s =>
    rw [hrun] at hkept
    have herror := hkept.of_error.any_isError fun r hr => explains_of_mem_readings hr
    refine .of_run none s.news (fun log => ?_) (by rw [herror]; rfl)
    simp only [parse, hrun]

namespace Block

variable (unit : Block)

/-- Undeclared uses are errors. -/
theorem resolve_accountable : Accountable Option.isSome (unit.resolve ·) := by
  refine .of_run _ _ (fun log => rfl) ?_
  simp only [Resolver.passed_run, Resolver.news_run]
  cases unit.undeclaredUses <;> rfl

/-- Missing children are errors. -/
theorem checkStructure_accountable : Accountable id (unit.checkStructure ·) := by
  refine .of_run _ _ (fun log => unit.checkStructure_eq log) ?_
  cases unit.emptySlots <;> rfl

end Block

/-- A stage that fails ends the analysis, and only the last stage that ran can have reported
errors. -/
theorem analyze_accountable (unit : Block) : Accountable Except.isOk (analyze · unit) := by
  obtain ⟨scopes?, news, hresolve, hscopes⟩ := unit.resolve_accountable.exists_run
  obtain ⟨whole, news', hstructure, hwhole⟩ := unit.checkStructure_accountable.exists_run
  cases scopes? with
  | none =>
    refine .of_run (.error .resolution) news (fun log => ?_) hscopes
    simp only [analyze, hresolve]
  | some scopes =>
    have hquiet : news.any Diagnostic.isError = false := by simpa using hscopes
    cases whole with
    | false =>
      refine .of_run (.error .structureCheck) (news ++ news') (fun log => ?_) ?_
      · simp only [analyze, hresolve, hstructure, Log.append_append]
      · rw [List.any_append, hquiet]
        exact hwhole
    | true =>
      refine .of_run (.ok ⟨unit, scopes⟩) (news ++ news' ++ news') (fun log => ?_) ?_
      · simp only [analyze, hresolve, hstructure, Block.checkRules_nil, Log.append_append]
      · rw [List.any_append, List.any_append, hquiet, Bool.false_or, Bool.or_self]
        exact hwhole

theorem Log.hasErrors_append_empty (name : String) (news : List Diagnostic) :
    ((Log.empty name).append news).hasErrors = news.any Diagnostic.isError := by
  rw [Bool.eq_iff_iff, hasErrors_iff, List.any_eq_true]
  rfl

/-- A unit passes every stage if and only if its log holds no error in the end. -/
theorem compile_succeeded (name : String) (text : List Char) :
    (compile name text).succeeded = !(compile name text).log.hasErrors := by
  obtain ⟨unit?, news, hparse, hunit⟩ := (parse_accountable text).exists_run
  cases unit? with
  | none =>
    simp only [compile, hparse, Log.hasErrors_append_empty]
    exact hunit
  | some unit =>
    obtain ⟨outcome, news', hanalyze, houtcome⟩ := (analyze_accountable unit).exists_run
    have hquiet : news.any Diagnostic.isError = false := by simpa using hunit
    simp only [compile, hparse, hanalyze, Log.append_append, Log.hasErrors_append_empty,
      List.any_append, hquiet, Bool.false_or]
    exact houtcome

/-- What a log holds already makes no difference to a stage, and each fails if and only if it adds
an error to it. So a unit is compiled without failure if and only if its report holds no error. -/
theorem stages_accountable :
    (∀ text, Accountable Option.isSome (lex · text)) ∧
      (∀ text, Accountable Option.isSome (parse · text)) ∧
      (∀ unit : Block, Accountable Option.isSome (unit.resolve ·)) ∧
      (∀ unit : Block, Accountable id (unit.checkStructure ·)) ∧
      (∀ unit : Block, Accountable id (unit.checkNoRules ·)) ∧
      (∀ unit : Block, Accountable Except.isOk (analyze · unit)) ∧
      ∀ name text, (compile name text).succeeded = !(compile name text).log.hasErrors := by
  refine ⟨lex_accountable, parse_accountable, Block.resolve_accountable,
    Block.checkStructure_accountable, fun unit => ?_, analyze_accountable, compile_succeeded⟩
  simp only [Block.checkNoRules_eq]
  exact unit.checkStructure_accountable

end LarkCheck
