import LarkCheck.Diagnostic.Log
import LarkCheck.Tree.Visit

/-!
# Structure and rules

A tree is complete if no required child is missing. The structure check reports
every missing child. The rule check does so too, and on its way it shows every
statement to every rule, in the order of the rules, before it goes on to what the
statement holds. Rules and check share one log. Neither check stops at a failure.
-/

namespace LarkCheck

namespace EmptySlot

def diagnostic (slot : EmptySlot) : Diagnostic :=
  .of .missingChild slot.loc [slot.node ++ " is missing its " ++ slot.field]

end EmptySlot

/-- The missing children of a tree, in visiting order. -/
def Block.emptySlots (unit : Block) : List EmptySlot :=
  unit.visits.filterMap fun
    | .missing slot => some slot
    | _ => none

/-- A structure check on its way: how many children were missing, the verdict and the reports so
far. -/
structure StructureCheck where
  missing : Nat
  passed : Bool
  news : List Diagnostic
deriving DecidableEq, Repr

namespace StructureCheck

def visit (c : StructureCheck) : Visit → StructureCheck
  | .missing slot => ⟨c.missing + 1, false, c.news ++ [slot.diagnostic]⟩
  | .stmt _ | .use _ | .bind _ | .param _ | .enter _ _ | .leave => c

def run (unit : Block) : StructureCheck :=
  unit.visits.foldl visit ⟨0, true, []⟩

end StructureCheck

/-- Reports every missing child; true if there is none. -/
def Block.checkStructure (log : Log) (unit : Block) : Bool × Log :=
  let c := StructureCheck.run unit
  (c.passed, log.append c.news)

/-- The verdict of a rule on one statement, with the log as the rule leaves it and what is
remembered of the statement. -/
structure Ruling (σ : Type) where
  passed : Bool
  log : Log
  memory : σ

/-- A rule about statements. It is handed the log, to which others have reported before, and what
the rules remember is passed on from call to call. -/
structure Rule (σ : Type) where
  judge : σ → Stmt → Log → Ruling σ

/-- A rule check on its way: what is remembered, the verdict so far and the log. -/
structure RuleCheck (σ : Type) where
  memory : σ
  passed : Bool
  log : Log

namespace RuleCheck

variable {σ : Type}

/-- Shows a statement to one rule. -/
def apply (stmt : Stmt) (c : RuleCheck σ) (rule : Rule σ) : RuleCheck σ :=
  let ruling := rule.judge c.memory stmt c.log
  ⟨ruling.memory, c.passed && ruling.passed, ruling.log⟩

def visit (rules : List (Rule σ)) (c : RuleCheck σ) : Visit → RuleCheck σ
  | .stmt stmt => rules.foldl (apply stmt) c
  | .missing slot => ⟨c.memory, false, c.log.report slot.diagnostic⟩
  | .use _ | .bind _ | .param _ | .enter _ _ | .leave => c

def run (rules : List (Rule σ)) (c : RuleCheck σ) (unit : Block) : RuleCheck σ :=
  unit.visits.foldl (visit rules) c

end RuleCheck

/-- Applies the rules to a tree; true if they pass every statement and no child is missing. -/
def Block.checkRules {σ : Type} (rules : List (Rule σ)) (memory : σ) (log : Log) (unit : Block) :
    Bool × Log × σ :=
  let c := RuleCheck.run rules ⟨memory, true, log⟩ unit
  (c.passed, c.log, c.memory)

end LarkCheck
