import LarkCheck.Grammar.Statement
import LarkCheck.Scope.Resolution
import LarkCheck.Tree.Check

/-!
# Reports on units

A unit goes through four stages, and the first that fails ends it: its text is
parsed, its names are resolved, its tree is checked for missing children, and the
rules are applied to it. The report holds what was reported on the way, and either
the tree with its scopes or the stage that failed.
-/

namespace LarkCheck

inductive Stage where
  | parse | resolution | structureCheck | ruleCheck
deriving DecidableEq, Repr

def Stage.name : Stage → String
  | parse => "parse"
  | resolution => "scope resolution"
  | structureCheck => "well-formedness check"
  | ruleCheck => "static check"

/-- A unit that passed every stage. -/
structure Compiled where
  unit : Block
  scopes : ScopeTree

structure Report where
  log : Log
  outcome : Except Stage Compiled

/-- The stages after parsing. There are no rules yet. -/
def analyze (log : Log) (unit : Block) : Except Stage Compiled × Log :=
  match unit.resolve log with
  | (none, log) => (.error .resolution, log)
  | (some scopes, log) =>
    match unit.checkStructure log with
    | (false, log) => (.error .structureCheck, log)
    | (true, log) =>
      match unit.checkRules [] () log with
      | (false, log, _) => (.error .ruleCheck, log)
      | (true, log, _) => (.ok ⟨unit, scopes⟩, log)

/-- All stages on the text of a unit. -/
def compile (unit : String) (text : List Char) : Report :=
  match parse (.empty unit) text with
  | (none, log) => ⟨log, .error .parse⟩
  | (some tree, log) =>
    let (outcome, log) := analyze log tree
    ⟨log, outcome⟩

namespace Report

def succeeded (r : Report) : Bool :=
  r.outcome.isOk

def failedStage? (r : Report) : Option Stage :=
  match r.outcome with
  | .error stage => some stage
  | .ok _ => none

end Report

end LarkCheck
