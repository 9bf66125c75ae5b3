/-!
# Command-line arguments

Arguments are read from left to right. An option may take its value from the next
argument, if that does not look like an option, so a value is settled only when
something else follows, and the first argument that cannot be accepted decides the
error. After `--` every argument is a file. At most one of the files and the three
options with a value may be given.
-/

namespace LarkCheck.CommandLine

/-- The options that take the name of a file. -/
inductive Choice where
  | lex | parse | scopes
deriving DecidableEq, Repr

structure Options where
  files : List String
  lex : Option String
  parse : Option String
  scopes : Option String
  verbose : Bool
deriving DecidableEq, Repr

/-- Why arguments are not accepted; asking for help or the version counts as a reason. -/
inductive UsageError where
  | argumentConflict
  | unknownArgument
  | invalidValue
  | tooManyValues
  | displayHelp
  | displayVersion
deriving DecidableEq, Repr

namespace Options

def none : Options :=
  ⟨[], .none, .none, .none, false⟩

def get? (o : Options) : Choice → Option String
  | .lex => o.lex
  | .parse => o.parse
  | .scopes => o.scopes

def set (o : Options) (value : String) : Choice → Options
  | .lex => { o with lex := some value }
  | .parse => { o with parse := some value }
  | .scopes => { o with scopes := some value }

/-- How many of the files and the options with a value are given. -/
def inputs (o : Options) : Nat :=
  (if o.files.isEmpty then 0 else 1) +
    ([Choice.lex, .parse, .scopes].countP fun choice => (o.get? choice).isSome)

end Options

/-- What an argument looks like. -/
inductive Argument where
  | escape
  | long (name : List Char) (value : Option String)
  | short (letters : List Char)
  | plain (text : String)
deriving DecidableEq, Repr

namespace Argument

/-- The name of a long option, and what stands after the first `=`. -/
def ofLong (text : List Char) : Argument :=
  let name := text.takeWhile (· ≠ '=')
  long name ((text.drop name.length).tail?.map String.ofList)

def ofString (text : String) : Argument :=
  match text.toList with
  | ['-', '-'] => escape
  | '-' :: '-' :: rest => ofLong rest
  | '-' :: c :: rest => short (c :: rest)
  | _ => plain text

end Argument

/-- Values that were read but are not settled yet. -/
inductive Pending where
  | nothing
  | files (names : List String)
  | option (choice : Choice) (value : Option String)
deriving DecidableEq, Repr

/-- How far the arguments have been read. -/
structure Progress where
  options : Options
  pending : Pending
deriving DecidableEq, Repr

namespace Progress

def start : Progress :=
  ⟨.none, .nothing⟩

/-- Gives an option its value. No option is given twice, and no value is empty. -/
def set (p : Progress) (choice : Choice) (value : String) : Except UsageError Progress :=
  if (p.options.get? choice).isSome then .error .argumentConflict
  else if value.isEmpty then .error .invalidValue
  else .ok ⟨p.options.set value choice, .nothing⟩

/-- Settles the pending values. -/
def settle (p : Progress) : Except UsageError Progress :=
  match p.pending with
  | .nothing => .ok p
  | .files names =>
    if names.any (·.isEmpty) then .error .invalidValue
    else .ok ⟨{ p.options with files := p.options.files ++ names }, .nothing⟩
  | .option _ none => .error .invalidValue
  | .option choice (some value) => p.set choice value

def verbose (p : Progress) : Except UsageError Progress := do
  let p ← p.settle
  if p.options.verbose then .error .argumentConflict
  else .ok { p with options := { p.options with verbose := true } }

/-- Stops with a request for help or the version, unless a pending value is at fault. -/
def stop (p : Progress) (request : UsageError) : Except UsageError Progress := do
  let _ ← p.settle
  .error request

def choose (p : Progress) (choice : Choice) (value : Option String) :
    Except UsageError Progress := do
  let p ← p.settle
  match value with
  | some value => p.set choice value
  | none => .ok { p with pending := .option choice none }

/-- A long option that takes no value. -/
def flag (value : Option String) (act : Except UsageError Progress) :
    Except UsageError Progress :=
  match value with
  | some _ => .error .tooManyValues
  | none => act

def long (p : Progress) (name : List Char) (value : Option String) : Except UsageError Progress :=
  if name = "lex".toList then p.choose .lex value
  else if name = "parse".toList then p.choose .parse value
  else if name = "scopes".toList then p.choose .scopes value
  else if name = "verbose".toList then flag value p.verbose
  else if name = "help".toList then flag value (p.stop .displayHelp)
  else if name = "version".toList then flag value (p.stop .displayVersion)
  else .error .unknownArgument

def short (p : Progress) (letter : Char) : Except UsageError Progress :=
  if letter = 'v' then p.verbose
  else if letter = 'h' then p.stop .displayHelp
  else if letter = 'V' then p.stop .displayVersion
  else .error .unknownArgument

/-- The name of a file. -/
def file (p : Progress) (name : String) : Except UsageError Progress :=
  match p.pending with
  | .files names => .ok { p with pending := .files (names ++ [name]) }
  | _ => do
    let p ← p.settle
    return { p with pending := .files [name] }

/-- The value of the option before it, or else the name of a file. -/
def plain (p : Progress) (text : String) : Except UsageError Progress :=
  match p.pending with
  | .option choice none => .ok { p with pending := .option choice (some text) }
  | _ => p.file text

/-- Reads the arguments in turn. -/
def read (p : Progress) : List String → Except UsageError Progress
  | [] => p.settle
  | arg :: args =>
    match Argument.ofString arg with
    | .escape => do
      let p ← args.foldlM file p
      p.settle
    | .long name value => do
      let p ← p.long name value
      p.read args
    | .short letters => do
      let p ← letters.foldlM short p
      p.read args
    | .plain text => do
      let p ← p.plain text
      p.read args

end Progress

/-- The options that the arguments give. -/
def Options.ofArgs (args : List String) : Except UsageError Options := do
  let p ← Progress.start.read args
  if 1 < p.options.inputs then .error .argumentConflict else return p.options

end LarkCheck.CommandLine
