import DocTemplate.Command.Action
import DocTemplate.CommandLine.Invocation

/-! Showing and creating the configuration file. -/

namespace DocTemplate.ConfigAction

/-- Writes a file with default settings, unless one is there and must stay. -/
def createFile (host : Host) (p : FilePath) (force : Bool) : Action Unit := do
  if (← Action.files).contains p && !force then
    Action.printLine ("❌ Config already exists at: " ++ p.text)
    Action.printLine "   Use --force to overwrite"
  else
    Action.changeFiles fun fs => Settings.default.saveTo fs p
    Action.printLine ("✅ Created config at: " ++ p.text)
    Action.printLine ("\n" ++ Style.bold.apply host.coloured "Configuration:")
    Action.printLine Settings.default.toml

def showSettings (host : Host) (p : FilePath) : Action Unit := do
  let settings ← Action.fromFiles fun fs => Settings.load host fs (some p)
  Action.printLine (Style.bold.apply host.coloured "Configuration")
  Action.printLine ("Location: " ++ p.text)
  if !(← Action.files).contains p then
    Action.printLine "(file not found, showing defaults)"
  Action.printLine ""
  Action.printLine ("max_template_size = " ++ toString settings.maxTemplateSize)
  Action.printLine ("strict = " ++ if settings.strict then "true" else "false")
  Action.printLine ("max_parallel = " ++ toString (settings.parallelism host))
  Action.printLine <| "templates_dir = " ++
    match settings.templatesDir with
    | some dir => dir.text
    | none => "(current directory)"

def run (action : ConfigAction) (host : Host) (named : Option FilePath) : Action Unit := do
  let p ← match named with
    | some p => pure p
    | none => Action.ofResult (Settings.locate host)
  match action with
  | .init force => createFile host p force
  | .show => showSettings host p
  | .path => Action.printLine p.text

end DocTemplate.ConfigAction
