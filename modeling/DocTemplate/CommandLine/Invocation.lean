import DocTemplate.CommandLine.Usage
import DocTemplate.Files.FilePath

/-! Commands with their options, as a command line gives them. -/

namespace DocTemplate

/-- Whether a command answers in lines or in one JSON document. -/
inductive OutputFormat where
  | text
  | json
deriving DecidableEq, Repr

structure RenderOptions where
  template : FilePath
  data : List FilePath
  output : Option FilePath
  format : OutputFormat
  strict : Bool
deriving DecidableEq, Repr

structure BatchOptions where
  template : FilePath
  data : List FilePath
  outDir : FilePath
  maxParallel : Option Nat
  strict : Bool
deriving DecidableEq, Repr

structure CheckOptions where
  templates : List FilePath
  format : OutputFormat
  strict : Bool
deriving DecidableEq, Repr

structure NormalizeOptions where
  template : FilePath
  mustache : Bool
  output : Option FilePath
deriving DecidableEq, Repr

structure VariablesOptions where
  template : FilePath
  context : Option FilePath
  format : OutputFormat
deriving DecidableEq, Repr

/-- What to do with the configuration file. -/
inductive ConfigAction where
  | init (force : Bool)
  | show
  | path
deriving DecidableEq, Repr

inductive Command where
  | render (o : RenderOptions)
  | batch (o : BatchOptions)
  | check (o : CheckOptions)
  | normalize (o : NormalizeOptions)
  | variables (o : VariablesOptions)
  | config (action : ConfigAction)
deriving DecidableEq, Repr

/-- How much is logged, if the command line says so. -/
inductive LogLevel where
  | debug
  | error
deriving DecidableEq, Repr

/-- A command and the options that all commands take. -/
structure Invocation where
  logLevel : Option LogLevel
  configPath : Option FilePath
  command : Command
deriving DecidableEq, Repr

namespace Invocation

/-- The values that an argument was given. -/
def values (level : Usage.Level) (name : String) : List String :=
  level.filterMap fun (n, value) => if n = name then some value else none

def isGiven (level : Usage.Level) (name : String) : Bool := !(values level name).isEmpty

def path? (level : Usage.Level) (name : String) : Option FilePath :=
  (values level name).getLast?.map FilePath.mk

def paths (level : Usage.Level) (name : String) : List FilePath :=
  (values level name).map FilePath.mk

def requiredPath (level : Usage.Level) (name : String) : Except Usage FilePath :=
  match path? level name with
  | some p => .ok p
  | none => .error .missingArgument

def format (level : Usage.Level) : OutputFormat :=
  if (values level "format").getLast? = some "json" then .json else .text

/-- The number that a count denotes; it may start with a plus. -/
def count? (level : Usage.Level) (name : String) : Option Nat :=
  (values level name).getLast?.map fun value =>
    (value.toList.filter Char.isDigit).foldl (fun n c => n * 10 + (c.toNat - '0'.toNat)) 0

/-- The command that the names and arguments of all levels make. -/
def commandOf : List (String × Usage.Level) → Except Usage Command
  | [_, ("render", level)] => do
    return .render ⟨← requiredPath level "template", paths level "data", path? level "output",
      format level, isGiven level "strict"⟩
  | [_, ("batch", level)] => do
    return .batch ⟨← requiredPath level "template", paths level "data",
      ← requiredPath level "out-dir", count? level "max-parallel", isGiven level "strict"⟩
  | [_, ("check", level)] =>
    .ok (.check ⟨paths level "templates", format level, isGiven level "strict"⟩)
  | [_, ("normalize", level)] => do
    return .normalize ⟨← requiredPath level "template", isGiven level "mustache",
      path? level "output"⟩
  | [_, ("variables", level)] => do
    return .variables ⟨← requiredPath level "template", path? level "context", format level⟩
  | [_, ("config", _), ("init", level)] => .ok (.config (.init (isGiven level "force")))
  | [_, ("config", _), ("path", _)] => .ok (.config .path)
  | [_, ("config", _), ("show", _)] | [_, ("config", _)] => .ok (.config .show)
  | _ => .error .missingSubcommand

/-- The log level. Of the two options the one for more wins. -/
def logLevel? (levels : List (String × Usage.Level)) : Option LogLevel :=
  if levels.any fun (_, level) => isGiven level "verbose" then some .debug
  else if levels.any fun (_, level) => isGiven level "quiet" then some .error
  else none

/-- The configuration file named nearest to the innermost command. -/
def configPath? (levels : List (String × Usage.Level)) : Option FilePath :=
  (levels.filterMap fun (_, level) => path? level "config").getLast?

def ofArgs (args : List String) : Except Usage Invocation := do
  let levels ← Usage.read args
  return ⟨logLevel? levels, configPath? levels, ← commandOf levels⟩

end Invocation
end DocTemplate
