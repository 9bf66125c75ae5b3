import LarkCheck.CommandLine.Run

/-!
# The program

Reads the files that the command line names, runs it on them, and writes what the
run gives.
-/

namespace LarkCheck.CommandLine

open Source (Entry)

def usage : String :=
  "usage: lark [-v] [FILES]... | --lex FILE | --parse FILE | --scopes FILE"

/-- What stands under a path at the moment. -/
def readEntry (path : String) : IO Entry := do
  try
    let bytes ← IO.FS.readBinFile path
    return .file bytes.toList
  catch
    | .noFileOrDirectory .. => return .missing
    | .inappropriateType _ 21 _ => return .directory
    | error => return .closed (toString error)

/-- The paths that a run may read. -/
def Options.paths (o : Options) : List String :=
  o.files ++ [o.lex, o.parse, o.scopes].filterMap id

def runMain (args : List String) : IO UInt32 := do
  match Options.ofArgs args with
  | .error .displayHelp =>
    IO.println usage
    return 0
  | .error .displayVersion =>
    IO.println "lark 0.1.0"
    return 0
  | .error _ =>
    IO.eprintln usage
    return 2
  | .ok options =>
    let entries ← options.paths.mapM fun path => return (path, ← readEntry path)
    let outcome := execute 1 (fun path => (entries.lookup path).getD .missing) options
    IO.print outcome.output.out
    IO.eprint outcome.output.err
    if let some message := outcome.message then
      IO.eprintln message
    return outcome.exit.toUInt32

end LarkCheck.CommandLine

def main (args : List String) : IO UInt32 :=
  LarkCheck.CommandLine.runMain args
