import DocTemplate.CommandLine.Grammar
import DocTemplate.Text.Digits

/-! Taking the arguments of a command line apart, and the answer if they make no command.

Options may stand before and after the arguments that are given by place; two hyphens alone end the
options. An option's value follows it, after a blank or an equals sign or, for a short name, at
once. -/

namespace DocTemplate

/-- Why arguments do not make a command to run. -/
inductive Usage where
  | help
  | helpOnMissing
  | version
  | unknownArgument
  | invalidSubcommand
  | missingSubcommand
  | invalidValue
  | valueValidation
  | tooManyValues
  | argumentConflict
  | missingArgument
deriving DecidableEq, Repr

namespace Usage

/-- Asking for help or the version is no error. -/
def exitCode : Usage → Nat
  | help | version => 0
  | _ => 2

/-- The arguments of one command: the name and the value of each in their order. A flag has the
empty value. -/
abbrev Level := List (String × String)

/-- A command line being read: what the current command has got, and the argument whose values are
being read. -/
structure Reading where
  level : Level
  pending : Option (Argument × List String)
  trailing : Bool

namespace Reading

def start : Reading := ⟨[], none, false⟩

/-- Whether the argument that is being read is an option, whose value must come next. -/
def awaits (r : Reading) : Bool :=
  match r.pending with
  | some (a, values) => a.form ≠ .positional && values.isEmpty
  | none => false

/-- Checks a value. Paths must not be empty, and a count is decimal digits with or without a plus.
-/
def checkValue (form : Argument.Form) (value : String) : Except Usage Unit :=
  match form with
  | .flag => .ok ()
  | .positional | .option .path => if value.isEmpty then .error .invalidValue else .ok ()
  | .option .format =>
    if value = "text" ∨ value = "json" then .ok () else .error .invalidValue
  | .option .count =>
    let digits := match value.toList with
      | '+' :: cs => cs
      | cs => cs
    let n := digits.foldl (fun n c => n * 10 + (c.toNat - '0'.toNat)) 0
    if !digits.isEmpty && digits.all Char.isDigit && n < Limits.unsigned64 then .ok ()
    else .error .valueValidation

/-- Adds an argument with its values. An argument that must not be repeated is refused the second
time, before its value is looked at. -/
def add (level : Level) (a : Argument) (values : List String) : Except Usage Level := do
  if values.isEmpty then .error .invalidValue
  else if !a.many && level.any fun found => found.1 == a.name then .error .argumentConflict
  else
    values.forM (checkValue a.form)
    return level ++ values.map (a.name, ·)

/-- Ends the argument whose values are being read. -/
def settle (r : Reading) : Except Usage Reading :=
  match r.pending with
  | none => .ok r
  | some (a, values) => do return { r with level := ← add r.level a values, pending := none }

/-- Adds an option with the value it needs, or a flag. -/
def addNow (r : Reading) (a : Argument) (value : String) : Except Usage Reading := do
  let r ← r.settle
  return { r with level := ← add r.level a [value] }

/-- Starts an option whose value comes next. -/
def await (r : Reading) (a : Argument) : Except Usage Reading := do
  return { ← r.settle with pending := some (a, []) }

/-- Reads an option by its long name, with the value after its equals sign if there is one. -/
def long (g : Grammar) (root : Bool) (r : Reading) (name : String) (value : Option String) :
    Except Usage Reading :=
  match g.options.find? fun a => a.name == name with
  | some a =>
    match a.form, value with
    | .flag, none => r.addNow a ""
    | .flag, some _ => .error .tooManyValues
    | _, some value => r.addNow a value
    | _, none => r.await a
  | none => do
    let ends := if name = "help" then some .help
      else if root && name == "version" then some .version else none
    match ends, value with
    | some usage, none => do
      let _ ← r.settle
      .error usage
    | some _, some _ => .error .tooManyValues
    | none, _ => .error .unknownArgument

/-- Reads options by their short names, which may share a hyphen. What follows an option that needs
a value is the value. -/
def short (g : Grammar) (root : Bool) (r : Reading) : List Char → Except Usage Reading
  | [] => .ok r
  | c :: cs =>
    match g.options.find? fun a => a.short == some c with
    | some a =>
      if a.form = .flag then do
        let r ← r.addNow a ""
        r.short g root cs
      else
        match cs with
        | [] => r.await a
        | '=' :: value => r.addNow a (String.ofList value)
        | value => r.addNow a (String.ofList value)
    | none =>
      if c == 'h' then do
        let _ ← r.settle
        .error .help
      else if root && c == 'V' then do
        let _ ← r.settle
        .error .version
      else .error .unknownArgument

/-- The argument that the next value by place belongs to. -/
def nextPlace? (g : Grammar) (r : Reading) : Option Argument :=
  let given (a : Argument) : Bool :=
    r.level.any (fun found => found.1 == a.name) || r.pending.any fun p => p.1.name == a.name
  g.positionals.find? fun a => a.many || !given a

/-- The refusal of a value that belongs to no argument. Where only a command can follow, it is taken
for one, unless it is a command after the end of the options. -/
def refusal (g : Grammar) (r : Reading) (arg : String) : Usage :=
  if g.subcommands.isEmpty then .unknownArgument
  else if r.trailing && ((g.find? arg).isSome || arg == "help") then .unknownArgument
  else .invalidSubcommand

def positional (g : Grammar) (r : Reading) (arg : String) : Except Usage Reading :=
  match nextPlace? g r with
  | none => .error (refusal g r arg)
  | some a =>
    match r.pending with
    | some (b, values) =>
      if b.name = a.name ∧ a.many then .ok { r with pending := some (b, values ++ [arg]) }
      else do return { ← r.settle with pending := some (a, [arg]) }
    | none => .ok { r with pending := some (a, [arg]) }

/-- Gives an option the value that it awaits. -/
def supply (r : Reading) (arg : String) : Reading :=
  { r with pending := r.pending.map fun p => (p.1, p.2 ++ [arg]) }

/-- An option by its long name: the name, and the value after the first equals sign. -/
def splitLong (cs : List Char) : String × Option String :=
  let name := String.ofList (cs.takeWhile (· != '='))
  match cs.dropWhile (· != '=') with
  | [] => (name, none)
  | _ :: value => (name, some (String.ofList value))

/-- Reads an argument that names no command. -/
def argument (g : Grammar) (root : Bool) (r : Reading) (arg : String) : Except Usage Reading :=
  if r.trailing then r.positional g arg
  else
    match arg.toList with
    | ['-', '-'] => .ok { r with trailing := true }
    | '-' :: '-' :: cs => let (name, value) := splitLong cs; r.long g root name value
    | '-' :: c :: cs => r.short g root (c :: cs)
    | _ => if r.awaits then .ok (r.supply arg) else r.positional g arg

/-! ### Whole command lines -/

/-- What a command must have got: not both of the log levels, and all that is required. A program
that needs a command explains itself if there are no arguments at all. -/
def validate (g : Grammar) (level : Level) (subcommand : Bool) : Except Usage Unit :=
  let given (name : String) : Bool := level.any fun found => found.1 == name
  if g.needsSubcommand && !subcommand then
    .error (if level.isEmpty then .helpOnMissing else .missingSubcommand)
  else if given "verbose" && given "quiet" then .error .argumentConflict
  else if g.arguments.any fun a => a.required && !given a.name then .error .missingArgument
  else .ok ()

/-- The refusal or the help after the word for help, which names commands along a path. -/
def helpOn (g : Grammar) : List String → Usage
  | [] => .help
  | name :: names =>
    if name == "help" then
      if !g.subcommands.isEmpty && names.isEmpty then .help else .invalidSubcommand
    else
      match g.find? name with
      | some sub => helpOn sub names
      | none => .invalidSubcommand

/-- Reads the arguments of a command and those under it, from the outermost on. What is wrong with
the arguments of an inner command is found before the outer command is checked. -/
def levels (g : Grammar) (root : Bool) (r : Reading) :
    List String → Except Usage (List (String × Level))
  | [] => do
    let r ← r.settle
    validate g r.level false
    return [(g.name, r.level)]
  | arg :: args =>
    if r.trailing || r.awaits then do levels g root (← r.argument g root arg) args
    else if arg == "help" && !g.subcommands.isEmpty then .error (helpOn g args)
    else
      match g.find? arg with
      | some sub => do
        let inner ← levels sub false .start args
        let r ← r.settle
        validate g r.level true
        return (g.name, r.level) :: inner
      | none => do levels g root (← r.argument g root arg) args

end Reading

/-- The commands that a command line names, from the outermost on, each with its arguments. -/
def read (args : List String) : Except Usage (List (String × Level)) :=
  Reading.levels .program true .start args

/-! ### What is answered when there is no command -/

/-- The commands that there are, and the options that all of them take. -/
def helpText : String :=
  "Usage: docgen [OPTIONS] <COMMAND>\n\nCommands:\n" ++
    String.join (Grammar.program.subcommands.map fun g => "  " ++ g.name ++ "\n") ++
    "\nOptions:\n" ++
    String.join (Grammar.globals.map fun a => "  --" ++ a.name ++ "\n")

/-- The help, the version, or what is wrong with the arguments. -/
def text : Usage → String
  | .help | .helpOnMissing => helpText
  | .version => "docgen 0.3.2\n"
  | .unknownArgument => "error: unexpected argument found\n"
  | .invalidSubcommand => "error: unrecognized subcommand\n"
  | .missingSubcommand => "error: a subcommand is required but none was given\n"
  | .invalidValue => "error: a value is missing or is not one of the possible values\n"
  | .valueValidation => "error: a value is not valid\n"
  | .tooManyValues => "error: a value was given to an option that takes none\n"
  | .argumentConflict => "error: an argument cannot be used again or with another one\n"
  | .missingArgument => "error: a required argument was not given\n"

end Usage
end DocTemplate
