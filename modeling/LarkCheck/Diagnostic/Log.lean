import LarkCheck.Diagnostic.Code
import LarkCheck.Text.Location

/-!
# Diagnostics and their log

A log belongs to one unit and keeps its diagnostics in the order in which they
were reported. Every stage takes a log and returns it longer. A stage that goes on
past errors tells by the error count whether there were any on its way.
-/

namespace LarkCheck

/-- One reported problem, with lines of further context. -/
structure Diagnostic where
  code : Diagnostic.Code
  severity : Severity
  loc : Location
  notes : List String
deriving DecidableEq, Repr

namespace Diagnostic

/-- A diagnostic of the severity that its code has in the catalog. -/
def of (code : Code) (loc : Location) (notes : List String) : Diagnostic :=
  ⟨code, code.severity, loc, notes⟩

def isError (d : Diagnostic) : Bool :=
  d.severity.isError

/-- The first line names the place, the notes follow one on each line. -/
def render (unit : String) (d : Diagnostic) : String :=
  unit ++ ":" ++ d.loc.text ++ ": " ++ d.severity.name ++ "[" ++ d.code.text ++ "]: " ++
    d.code.message ++ String.join (d.notes.map ("\n  = note: " ++ ·))

end Diagnostic

@[ext] structure Log where
  unit : String
  entries : List Diagnostic
deriving DecidableEq, Repr

namespace Log

def empty (unit : String) : Log :=
  ⟨unit, []⟩

def append (log : Log) (news : List Diagnostic) : Log :=
  { log with entries := log.entries ++ news }

def report (log : Log) (d : Diagnostic) : Log :=
  log.append [d]

def errorCount (log : Log) : Nat :=
  log.entries.countP Diagnostic.isError

def warningCount (log : Log) : Nat :=
  log.entries.countP (·.severity = .warning)

def hasErrors (log : Log) : Bool :=
  log.errorCount ≠ 0

def render (log : Log) : String :=
  "\n".intercalate (log.entries.map (Diagnostic.render log.unit))

@[simp] theorem entries_append (log : Log) (news : List Diagnostic) :
    (log.append news).entries = log.entries ++ news := rfl

@[simp] theorem unit_append (log : Log) (news : List Diagnostic) :
    (log.append news).unit = log.unit := rfl

@[simp] theorem append_nil (log : Log) : log.append [] = log := by
  simp [append]

theorem append_append (log : Log) (first second : List Diagnostic) :
    (log.append first).append second = log.append (first ++ second) := by
  simp [append]

theorem hasErrors_iff (log : Log) : log.hasErrors = true ↔ ∃ d ∈ log.entries, d.isError = true := by
  simp [hasErrors, errorCount]

theorem errorCount_append (log : Log) (news : List Diagnostic) :
    (log.append news).errorCount = log.errorCount + news.countP Diagnostic.isError := by
  simp [errorCount]

/-- The error count has grown if and only if an error was added, whatever was there before. -/
@[simp] theorem errorCount_lt_append {log : Log} {news : List Diagnostic} :
    log.errorCount < (log.append news).errorCount ↔ news.any Diagnostic.isError = true := by
  rw [errorCount_append, Nat.lt_add_right_iff_pos, List.countP_pos_iff, List.any_eq_true]

end Log

end LarkCheck
