import LarkCheck.Diagnostic.Code
import LarkCheck.Source.Encoding
import LarkCheck.Text.Lines

/-!
# Source files

A file is loaded unless it cannot be opened or read, is too large or cannot be
decoded; its size is looked at before its content. Each of these failures aborts
the unit, and is shown with its code, its cause and some help where there is any.
-/

namespace LarkCheck.Source

/-- What a path leads to: something that cannot be opened, or not be read, and why, or a file. A
hole is a file of zeros, of which only the size is kept. -/
inductive Entry where
  | closed (cause : String)
  | unreadable (cause : String)
  | file (bytes : List UInt8)
  | hole (size : Nat)
deriving DecidableEq, Repr

namespace Entry

/-- A path that leads nowhere. -/
def missing : Entry :=
  closed "No such file or directory (os error 2)"

/-- A directory can be opened but not be read. -/
def directory : Entry :=
  unreadable "Is a directory (os error 21)"

end Entry

/-- What stands under each path. -/
abbrev Files := String → Entry

inductive Failure where
  | noInput
  | cannotOpen (path cause : String)
  | cannotRead (name reason : String)
  | tooLarge (name : String) (bytes : Nat)
deriving DecidableEq, Repr

namespace Failure

def code : Failure → Fatal
  | noInput => .noInputFile
  | cannotOpen _ _ => .cannotOpen
  | cannotRead _ _ => .cannotRead
  | tooLarge _ _ => .outOfMemory

/-- The name of the failure after its code. -/
def label : Failure → String
  | noInput => "lark::no_input_file"
  | cannotOpen _ _ => "lark::cannot_open"
  | cannotRead _ _ => "lark::cannot_read"
  | tooLarge _ _ => "lark::out_of_memory"

def message : Failure → String
  | noInput => "no input file"
  | cannotOpen path _ => "cannot open `" ++ path ++ "`"
  | cannotRead name reason => "cannot read `" ++ name ++ "`: " ++ reason
  | tooLarge name bytes =>
    "out of memory while loading `" ++ name ++ "` (" ++ toString bytes ++ " bytes)"

def cause? : Failure → Option String
  | cannotOpen _ cause => some cause
  | _ => none

def help? : Failure → Option String
  | noInput => some "pass one or more `.lark` files, e.g. `lark main.lark`"
  | tooLarge _ _ => some "source files are limited to 100 MB"
  | _ => none

/-- The failure as a short report of several lines. A bar leads to each further line of the
message. -/
def render (failure : Failure) : String :=
  let cause := match failure.cause? with
    | some cause => "  ╰─▶ " ++ Text.hanging "      " cause ++ "\n"
    | none => ""
  let help := match failure.help? with
    | some help => "  help: " ++ help ++ "\n"
    | none => ""
  failure.code.text ++ ": " ++ failure.label ++ "\n\n  × " ++
    Text.hanging "  │ " failure.message ++ "\n" ++ cause ++ help

end Failure

/-- The size of the largest file that is read. -/
def maxSize : Nat := 100 * 1024 * 1024

/-- The characters of a source in memory. -/
def decodeNamed (name : String) (bytes : List UInt8) : Except Failure (List Char) :=
  (decode bytes).mapError fun fault => .cannotRead name fault.reason

/-- The characters of the file at a path. -/
def load (files : Files) (path : String) : Except Failure (List Char) :=
  match files path with
  | .closed cause => .error (.cannotOpen path cause)
  | .unreadable cause => .error (.cannotRead path cause)
  | .file bytes =>
    if maxSize < bytes.length then .error (.tooLarge path bytes.length)
    else decodeNamed path bytes
  | .hole size =>
    if maxSize < size then .error (.tooLarge path size)
    else decodeNamed path (List.replicate size 0)

end LarkCheck.Source
