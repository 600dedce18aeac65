/-! The arguments that commands take. -/

namespace DocTemplate

/-- What the value of an argument must be. -/
inductive Argument.Value where
  | path
  | format
  | count
deriving DecidableEq, Repr

/-- How an argument is written: as an option alone, as an option with a value, or by its place. -/
inductive Argument.Form where
  | flag
  | option (value : Argument.Value)
  | positional
deriving DecidableEq, Repr

/-- An argument by its long name, and for an option perhaps a short one. Without `many` it is given
at most once. -/
structure Argument where
  name : String
  form : Argument.Form
  short : Option Char
  many : Bool
  required : Bool
deriving DecidableEq, Repr

namespace Argument

def flag (name : String) (short : Option Char) : Argument := ⟨name, .flag, short, false, false⟩

def option (name : String) (short : Option Char) (value : Value) : Argument :=
  ⟨name, .option value, short, false, false⟩

/-- An option that may be given several times. -/
def options (name : String) (short : Option Char) (value : Value) : Argument :=
  ⟨name, .option value, short, true, false⟩

/-- A path by its place. -/
def place (name : String) : Argument := ⟨name, .positional, none, false, true⟩

/-- The paths of all places from one on, at least one. -/
def places (name : String) : Argument := ⟨name, .positional, none, true, true⟩

end Argument

/-- A command with its arguments and the commands under it. -/
inductive Grammar where
  | mk (name : String) (arguments : List Argument) (needsSubcommand : Bool)
    (subcommands : List Grammar)
deriving Repr

namespace Grammar

def name : Grammar → String
  | mk name _ _ _ => name

def arguments : Grammar → List Argument
  | mk _ arguments _ _ => arguments

def needsSubcommand : Grammar → Bool
  | mk _ _ needed _ => needed

def subcommands : Grammar → List Grammar
  | mk _ _ _ subcommands => subcommands

/-- The arguments that all commands take. -/
def globals : List Argument :=
  [.flag "verbose" (some 'v'), .flag "quiet" (some 'q'), .option "config" (some 'c') .path]

/-- A command without others under it. -/
def leaf (name : String) (arguments : List Argument) : Grammar := mk name arguments false []

def commands : List Grammar := [
  leaf "render" [.place "template", .options "data" (some 'd') .path,
    .option "output" (some 'o') .path, .option "format" none .format, .flag "strict" none],
  leaf "batch" [.place "template", .places "data",
    { Argument.option "out-dir" none .path with required := true },
    .option "max-parallel" none .count, .flag "strict" none],
  leaf "check" [.places "templates", .option "format" none .format, .flag "strict" none],
  leaf "normalize" [.place "template", .flag "mustache" none, .option "output" (some 'o') .path],
  leaf "variables" [.place "template", .option "context" none .path,
    .option "format" none .format],
  mk "config" [] false [leaf "init" [.flag "force" none], leaf "show" [], leaf "path" []]]

/-- The program, which does nothing without a command. -/
def program : Grammar := mk "docgen" [] true commands

/-- The command under this one with a name. -/
def find? (g : Grammar) (name : String) : Option Grammar :=
  g.subcommands.find? fun sub => sub.name == name

/-- The options of a command, its own and those that all commands take. -/
def options (g : Grammar) : List Argument :=
  (g.arguments.filter fun a => a.form ≠ .positional) ++ globals

/-- The arguments of a command that are given by their place. -/
def positionals (g : Grammar) : List Argument := g.arguments.filter fun a => a.form = .positional

end Grammar
end DocTemplate
