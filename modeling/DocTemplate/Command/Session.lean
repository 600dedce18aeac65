import DocTemplate.Command.Batch
import DocTemplate.Command.Check
import DocTemplate.Command.Config
import DocTemplate.Command.Render
import DocTemplate.Command.Variables

/-! Running a command line from its arguments to its exit code. -/

namespace DocTemplate

/-- Runs a command. All but those on the configuration itself load the settings first. -/
def Invocation.run (i : Invocation) (host : Host) : Action Unit := do
  match i.command with
  | .config action => action.run host i.configPath
  | .render o => o.run host (← settings)
  | .batch o => o.run host (← settings)
  | .check o => o.run host (← settings)
  | .normalize o => o.run host (← settings)
  | .variables o => o.run host (← settings)
where
  settings : Action Settings := Action.fromFiles fun fs => Settings.load host fs i.configPath

/-- The lines that a failed command ends with. -/
def Report.lines (coloured : Bool) (r : Report) : List String :=
  let line (style : Style) (label text : String) := style.apply coloured label ++ ": " ++ text
  line .boldRed "error" r.fault.message ::
    ((r.details.map (line .yellow "details")).toList ++
      (r.suggestion.map (line .green "suggestion")).toList)

/-- What the user is told of a failure that has a report. -/
def Failure.text (coloured : Bool) (f : Failure) : String :=
  String.join ((f.report?.map fun r => (r.lines coloured).map (· ++ "\n")).getD [])

/-- What a run leaves behind: the console, and the failure if there was one. -/
structure Session where
  console : Console
  failure : Option Failure

namespace Session

def exitCode (s : Session) : Nat :=
  match s.failure with
  | none => 0
  | some failure => failure.exitCode

/-- Runs a command on a file system. -/
def run (i : Invocation) (host : Host) (fs : FileSystem) : Session :=
  match (i.run host).run.run ⟨fs, "", ""⟩ with
  | (.ok (), console) => ⟨console, none⟩
  | (.error failure, console) =>
    ⟨{ console with stderr := console.stderr ++ failure.text host.coloured }, some failure⟩

end Session
end DocTemplate
