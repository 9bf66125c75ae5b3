import LarkCheck.CommandLine.Options
import LarkCheck.CommandLine.Pool
import LarkCheck.Report
import LarkCheck.Source.File
import LarkCheck.Tree.Form

/-!
# Running the command line

Without options the files are compiled, each one for itself, and reported in the
order in which they were given. The three options with a value show what a stage
makes of one file instead. Diagnostics go to the error output; where a stage fails
that was asked for, they are the message with which the run ends.
-/

namespace LarkCheck.CommandLine

open Source (Files Failure)

/-- What was written to the two outputs. -/
structure Output where
  out : String
  err : String
deriving DecidableEq, Repr

namespace Output

def empty : Output :=
  ⟨"", ""⟩

def append (first second : Output) : Output :=
  ⟨first.out ++ second.out, first.err ++ second.err⟩

/-- A line on the normal output. -/
def ofOut (line : String) : Output :=
  ⟨line ++ "\n", ""⟩

/-- A line on the error output. -/
def ofErr (line : String) : Output :=
  ⟨"", line ++ "\n"⟩

def concat (outputs : List Output) : Output :=
  outputs.foldr append empty

/-- Everything that was reported, if anything was. -/
def ofLog (log : Log) : Output :=
  if log.entries.isEmpty then empty else ofErr log.render

end Output

/-- How a run ends: its exit code, what it wrote, and the message with which it failed. -/
structure Outcome where
  exit : Nat
  output : Output
  message : Option String
deriving DecidableEq, Repr

namespace Outcome

def success (output : Output) : Outcome :=
  ⟨0, output, none⟩

def failure (output : Output) : Outcome :=
  ⟨1, output, none⟩

/-- A run that wrote nothing but ends with a message. -/
def abort (message : String) : Outcome :=
  ⟨1, .empty, some message⟩

def succeeded (outcome : Outcome) : Bool :=
  outcome.exit = 0

end Outcome

/-- Loads a file and shows what a stage makes of it, or ends with what the stage reported. -/
def showStage {α : Type} (files : Files) (path : String)
    (stage : Log → List Char → Option α × Log) (present : α → Output) : Outcome :=
  match Source.load files path with
  | .error failure => .abort failure.render
  | .ok text =>
    match stage (.empty path) text with
    | (none, log) => .abort log.render
    | (some value, log) => .success ((Output.ofLog log).append (present value))

def showTokens (files : Files) (path : String) : Outcome :=
  showStage files path Token.lex fun tokens => .concat (tokens.map (.ofOut ·.text))

def showTree (files : Files) (path : String) : Outcome :=
  showStage files path parse fun unit => .ofOut unit.dump

/-- The scopes of a text, if it can be parsed and its names resolved. -/
def scopesOf (log : Log) (text : List Char) : Option ScopeTree × Log :=
  match parse log text with
  | (none, log) => (none, log)
  | (some unit, log) => unit.resolve log

def showScopes (files : Files) (path : String) : Outcome :=
  showStage files path scopesOf fun scopes => .ofOut scopes.render

def compileFile (files : Files) (path : String) : Except Failure Report :=
  (Source.load files path).map (compile path)

/-- Whether a file was loaded and its unit passed every stage. -/
def passed : Except Failure Report → Bool
  | .ok report => report.succeeded
  | .error _ => false

def verdict (report : Report) : Output :=
  match report.failedStage? with
  | none => .ofOut ("✓ " ++ report.log.unit)
  | some stage =>
    .ofErr ("✗ " ++ report.log.unit ++ ": " ++ stage.name ++ " failed with " ++
      toString report.log.errorCount ++ " error(s)")

/-- What is written about one file. -/
def present : Except Failure Report → Output
  | .ok report => (Output.ofLog report.log).append (verdict report)
  | .error failure => .ofErr failure.render

/-- What is written about the whole: how many of several units failed. -/
def summary (failed count : Nat) : Output :=
  if 1 < count && failed ≠ 0 then
    .ofErr (toString failed ++ " of " ++ toString count ++ " units failed")
  else
    .empty

/-- Reports on compiled files in their order. -/
def conclude (results : List (Except Failure Report)) : Outcome :=
  let failed := results.countP (!passed ·)
  let output := (Output.concat (results.map present)).append (summary failed results.length)
  if failed = 0 then .success output else .failure output

/-- Compiles files with a pool of so many workers. -/
def compileFiles (workers : Nat) (files : Files) (paths : List String) : Outcome :=
  if paths.isEmpty then .abort Failure.noInput.render
  else conclude (Pool.map workers (compileFile files) paths)

/-- Does what the options ask for. -/
def execute (workers : Nat) (files : Files) (options : Options) : Outcome :=
  match options.lex with
  | some path => showTokens files path
  | none =>
    match options.parse with
    | some path => showTree files path
    | none =>
      match options.scopes with
      | some path => showScopes files path
      | none => compileFiles (max 1 (min workers options.files.length)) files options.files

end LarkCheck.CommandLine
